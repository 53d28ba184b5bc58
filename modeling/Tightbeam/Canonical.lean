import Tightbeam.Catalog
import Tightbeam.Posture
import Mathlib.Data.List.Chain

/-!
# When a catalog is in name order

The router sorts what it lists and the decoder keeps what it reads. So a catalog lists each name once and
in order unless it was asked to list a name the node already serves, or was read from octets that lay its
entries out in another order.
-/
namespace Tightbeam

open Octets

variable {D : Deps}

/-- Each name once, in order. -/
def Ascending (entries : List ServiceEntry) : Prop := (entries.map ServiceEntry.name).Pairwise (· < ·)

instance (entries : List ServiceEntry) : Decidable (Ascending entries) :=
  inferInstanceAs (Decidable ((entries.map ServiceEntry.name).Pairwise (· < ·)))

/-- Of two entries that some octets lay out next to one another, the first has the lower name. -/
def LaidInOrder (bytes : List UInt8) : Prop :=
  ∀ before first second after, (ServiceCatalog.mk (before ++ first :: second :: after)).Fits →
    bytes = (ServiceCatalog.mk (before ++ first :: second :: after)).frame → first.name < second.name

/-- In order means in order at every neighbouring pair. -/
theorem ascending_iff (entries : List ServiceEntry) :
    Ascending entries ↔
      ∀ before first second after, entries = before ++ first :: second :: after → first.name < second.name := by
  unfold Ascending
  rw [List.pairwise_map]
  constructor
  · rintro h before first second after rfl
    obtain ⟨-, hrest, -⟩ := List.pairwise_append.mp h
    exact (List.pairwise_cons.mp hrest).1 second List.mem_cons_self
  · intro h
    have htrans : ∀ a b c : ServiceEntry, a.name < b.name → b.name < c.name → a.name < c.name :=
      fun _ _ _ hab hbc => lt_trans hab hbc
    induction entries with
    | nil => exact List.Pairwise.nil
    | cons entry rest ih =>
      have hrest := ih fun before first second after hsplit =>
        h (entry :: before) first second after (by rw [hsplit]; rfl)
      refine List.pairwise_cons.mpr ⟨?_, hrest⟩
      cases rest with
      | nil => simp
      | cons next rest =>
        have hnext := h [] entry next rest rfl
        intro other hother
        rcases List.mem_cons.mp hother with rfl | hmem
        · exact hnext
        · exact htrans _ _ _ hnext ((List.pairwise_cons.mp hrest).1 other hmem)

theorem Ascending.eq {entries others : List ServiceEntry} (h : Ascending entries) (hothers : Ascending others)
    (hmem : ∀ entry, entry ∈ entries ↔ entry ∈ others) : entries = others := by
  unfold Ascending at h hothers
  rw [List.pairwise_map] at h hothers
  have : Std.Irrefl fun a b : ServiceEntry => a.name < b.name := ⟨fun a => lt_irrefl a.name⟩
  have : Std.Antisymm fun a b : ServiceEntry => a.name < b.name :=
    ⟨fun _ _ hab hba => absurd hab (lt_asymm hba)⟩
  exact h.eq_of_mem_iff hothers hmem

/-- A sort by name puts each name once exactly when no two entries share one. -/
theorem sortByName_ascending (entries : List ServiceEntry) :
    Ascending (sortByName ServiceEntry.name entries) ↔ (entries.map ServiceEntry.name).Nodup := by
  rw [Ascending, map_sortByName]
  have hperm := List.perm_insertionSort (· ≤ ·) (entries.map ServiceEntry.name)
  have hsorted := List.pairwise_insertionSort (· ≤ ·) (entries.map ServiceEntry.name)
  constructor
  · intro h
    exact hperm.nodup_iff.mp (h.imp fun hlt => ne_of_lt hlt)
  · intro h
    exact (hsorted.and (hperm.nodup_iff.mpr h)).imp fun hpair => lt_of_le_of_ne hpair.1 hpair.2

theorem Router.catalog_ascending (r : Router D) (selfListing : Option D.Service) :
    Ascending (r.catalog selfListing) ↔ ∀ name ∈ selfListing, name.val ∉ r.services.routes := by
  have hnames := catalog_names (r := r)
  have hkeys := List.perm_insertionSort (· ≤ ·) r.services.routes.keys
  have hserved := served_names_ascending r.services
  cases selfListing with
  | none => simpa [Ascending, hnames] using hserved
  | some name =>
    have hlisted : r.catalog (some name) = sortByName ServiceEntry.name (r.catalog none ++ [⟨name.val, .Gated⟩]) := rfl
    rw [hlisted, sortByName_ascending, List.map_append, hnames]
    have hnodup := hkeys.nodup_iff.mpr r.services.routes.keys_nodup
    have hlast : (∀ key ∈ r.services.routes.keys, ¬ key = name.val) ↔ name.val ∉ r.services.routes.keys :=
      ⟨fun h hmem => h name.val hmem rfl, fun h key hkey heq => h (heq ▸ hkey)⟩
    simpa [List.nodup_append, hnodup, hkeys.mem_iff, AList.mem_keys] using hlast

theorem ServiceCatalog.decode_ascending (bytes : List UInt8) :
    (∀ c, decode bytes = .ok c → Ascending c.entries) ↔ LaidInOrder bytes := by
  constructor
  · intro h before first second after hfits hbytes
    have hdecode := (decode_ok _ bytes).mpr ⟨hfits, hbytes⟩
    exact (ascending_iff _).mp (h _ hdecode) before first second after rfl
  · intro h c hdecode
    obtain ⟨hfits, hbytes⟩ := (c.decode_ok bytes).mp hdecode
    refine (ascending_iff _).mpr ?_
    intro before first second after hsplit
    obtain ⟨entries⟩ := c
    subst hsplit
    exact h before first second after hfits hbytes

/-- A router's catalog is in order exactly when its self-listing is of a name the node does not serve, and
a decoded one exactly when its octets were. A set of entries in order has one blob. -/
theorem catalogs_canonical :
    (∀ (r : Router D) (selfListing : Option D.Service),
      Ascending (r.catalog selfListing) ↔ ∀ name ∈ selfListing, name.val ∉ r.services.routes) ∧
    (∀ bytes, (∀ c, ServiceCatalog.decode bytes = .ok c → Ascending c.entries) ↔ LaidInOrder bytes) ∧
    ∀ bytes bytes' c c', ServiceCatalog.decode bytes = .ok c → ServiceCatalog.decode bytes' = .ok c' →
      Ascending c.entries → Ascending c'.entries → (∀ entry, entry ∈ c.entries ↔ entry ∈ c'.entries) →
        bytes = bytes' := by
  refine ⟨Router.catalog_ascending, ServiceCatalog.decode_ascending, ?_⟩
  intro bytes bytes' c c' hdecode hdecode' h h' hmem
  obtain ⟨-, rfl⟩ := (c.decode_ok bytes).mp hdecode
  obtain ⟨-, rfl⟩ := (c'.decode_ok bytes').mp hdecode'
  have hentries : c.entries = c'.entries := h.eq h' hmem
  rw [ServiceCatalog.frame, ServiceCatalog.frame, hentries]

/-- Two blobs of the same two entries decode, and one of them is out of order; a node that serves `echo`
and lists itself under that name lists it twice. -/
theorem catalogs_not_canonical :
    let a : ServiceEntry := ⟨"a", .Gated⟩
    let b : ServiceEntry := ⟨"b", .Gated⟩
    let root := Vector.replicate 32 0
    let echo : (Deps.small root).Service := ⟨"echo", by decide⟩
    ServiceCatalog.decode [0, 0, 0, 2, 0, 1, 0x61, 0, 0, 1, 0x62, 0] = .ok ⟨[a, b]⟩ ∧
    ServiceCatalog.decode [0, 0, 0, 2, 0, 1, 0x62, 0, 0, 1, 0x61, 0] = .ok ⟨[b, a]⟩ ∧
    ¬ Ascending [b, a] ∧
    ∃ r : Router (Deps.small root), Router.build Host.empty .Open [.echo echo] = .ok r ∧
      (r.catalog (some echo)).map ServiceEntry.name = ["echo", "echo"] := by
  intro a b root echo
  refine ⟨?_, ?_, ?_, _, rfl, ?_⟩
  · exact (ServiceCatalog.decode_ok _ _).mpr ⟨⟨by decide, by decide⟩, by decide⟩
  · exact (ServiceCatalog.decode_ok _ _).mpr ⟨⟨by decide, by decide⟩, by decide⟩
  · decide
  · decide

end Tightbeam
