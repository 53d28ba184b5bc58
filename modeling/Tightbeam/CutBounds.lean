import Tightbeam.CutRun
import Mathlib.Data.Finset.Option

/-!
# The bounds of the cut record

The record is written in place, and a refused stream must leave no trace in it. Every check stands before
every write, so what a call leaves is the whole of its caps or nothing of them, and one ceiling on the
ids is over every part of the record.
-/
namespace Tightbeam

open Checked

variable {D : Deps}

/-- `recordAll` write by write, on the record itself. -/
def recordAllInPlace (peer : D.VerifyKey) (ruled : List D.Cap) :
    EStateM (Unrecorded D) (AdmittedChains D) Unit := do
  let until? ← ofExcept ((Lease.ofStream D ruled).mapError Unrecorded.UnreadableExpiry)
  let held ← get
  let fresh := (ruled.flatMap D.revocationIds).toFinset.filter (· ∉ held.ids)
  if maxSessionChainIds < held.ids.card + fresh.card then throw .Full
  modify fun chains => { chains with ids := chains.ids ∪ fresh }
  modify fun chains => { chains with roots := chains.roots ∪ (ruled.map D.root).toFinset }
  match ruled with
  | [] => pure ()
  | anchor :: _ => do
    modify fun chains => { chains with anchors := insert (D.root anchor) chains.anchors }
    modify fun chains => { chains with peer := some peer }
    modify fun chains => { chains with lease := chains.lease.extend until? }

/-- One call on a session's record. -/
inductive RecordCall (D : Deps) where
  | all (peer : D.VerifyKey) (ruled : List D.Cap)
  | proven (peer : D.VerifyKey)

/-- What a call answers, and the record it leaves. -/
def RecordCall.run (call : RecordCall D) (chains : AdmittedChains D) :
    Except (Unrecorded D) Unit × AdmittedChains D :=
  match call with
  | .all peer ruled => match (recordAllInPlace peer ruled).run chains with
    | .ok _ kept => (.ok (), kept)
    | .error refusal kept => (.error refusal, kept)
  | .proven peer => (.ok (), chains.recordProven peer)

/-- The record after these calls, from a new session's. -/
def AdmittedChains.after (calls : List (RecordCall D)) : AdmittedChains D :=
  calls.foldl (fun chains call => (call.run chains).2) (.empty D)

/-- Every cap these calls were made with. -/
def RecordCall.caps : RecordCall D → List D.Cap
  | .all _ ruled => ruled
  | .proven _ => []

/-- In place or by value, the record step is one: a refusal is given before anything is written. -/
theorem recordAllInPlace_run (chains : AdmittedChains D) (peer : D.VerifyKey) (ruled : List D.Cap) :
    (RecordCall.all peer ruled).run chains =
      match chains.recordAll peer ruled with
      | .ok kept => (.ok (), kept)
      | .error refusal => (.error refusal, chains) := by
  simp only [RecordCall.run, recordAllInPlace, AdmittedChains.recordAll]
  cases huntil : Lease.ofStream D ruled with
  | error e => rfl
  | ok until? =>
    generalize (ruled.flatMap D.revocationIds).toFinset = ids
    generalize (ruled.map D.root).toFinset = roots
    by_cases hfull : maxSessionChainIds < chains.ids.card + (ids.filter (· ∉ chains.ids)).card
    · simp [Except.mapError, ofExcept, hfull]
    · cases ruled with
      | nil => simp [Except.mapError, ofExcept, hfull]
      | cons anchor rest => simp [Except.mapError, ofExcept, hfull]

/-- Any read that fails fails the stream's. -/
theorem Lease.ofStream_error (ruled : List D.Cap) :
    (∃ e, Lease.ofStream D ruled = .error e) ↔ ∃ cap ∈ ruled, ∃ e, D.validUntil cap = .error e := by
  unfold Lease.ofStream Lease.earliest
  rw [foldlM_map_error]
  constructor
  · rintro ⟨e, he⟩
    obtain ⟨cap, hcap, hread⟩ := List.mem_map.1 he
    exact ⟨cap, hcap, e, hread⟩
  · rintro ⟨cap, hcap, e, hread⟩
    exact ⟨e, List.mem_map.2 ⟨cap, hcap, hread⟩⟩

def idsOf (D : Deps) (ruled : List D.Cap) : Finset D.RevocationId := (ruled.flatMap D.revocationIds).toFinset

def rootsOf (D : Deps) (ruled : List D.Cap) : Finset D.VerifyKey := (ruled.map D.root).toFinset

/-- The root of a stream's first cap. -/
def anchorOf (D : Deps) (ruled : List D.Cap) : Finset D.VerifyKey := (ruled.head?.map D.root).toFinset

def Unreadable (D : Deps) (ruled : List D.Cap) : Prop := ∃ cap ∈ ruled, ∃ e, D.validUntil cap = .error e

/-- Fresh ids are counted once, against the record and against each other. -/
theorem card_fresh (held ids : Finset D.RevocationId) :
    held.card + (ids.filter (· ∉ held)).card = (held ∪ ids).card := by
  have hsdiff : ids.filter (· ∉ held) = ids \ held := Finset.sdiff_eq_filter _ _ |>.symm
  rw [hsdiff, ← Finset.card_union_of_disjoint Finset.disjoint_sdiff, Finset.union_sdiff_self_eq_union]

namespace AdmittedChains

variable (chains : AdmittedChains D) (peer : D.VerifyKey) (ruled : List D.Cap)

theorem recordAll_unreadable (h : Unreadable D ruled) :
    ∃ e, chains.recordAll peer ruled = .error (.UnreadableExpiry e) := by
  obtain ⟨e, he⟩ := (Lease.ofStream_error ruled).2 h
  exact ⟨e, by simp [recordAll, he]⟩

theorem ofStream_readable (h : ¬ Unreadable D ruled) : ∃ until?, Lease.ofStream D ruled = .ok until? := by
  cases huntil : Lease.ofStream D ruled with
  | error e => exact absurd ((Lease.ofStream_error ruled).1 ⟨e, huntil⟩) h
  | ok until? => exact ⟨until?, rfl⟩

theorem recordAll_full (h : ¬ Unreadable D ruled) (hfull : 1024 < (chains.ids ∪ idsOf D ruled).card) :
    chains.recordAll peer ruled = .error .Full := by
  obtain ⟨until?, huntil⟩ := ofStream_readable ruled h
  rw [← card_fresh] at hfull
  have hover : maxSessionChainIds < chains.ids.card +
      ((ruled.flatMap D.revocationIds).toFinset.filter (· ∉ chains.ids)).card := hfull
  simp only [recordAll, huntil, if_pos hover]

/-- What a call that succeeds leaves. -/
structure Unions (kept : AdmittedChains D) : Prop where
  ids : kept.ids = chains.ids ∪ idsOf D ruled
  roots : kept.roots = chains.roots ∪ rootsOf D ruled
  anchors : kept.anchors = chains.anchors ∪ anchorOf D ruled

theorem recordAll_kept (h : ¬ Unreadable D ruled) (hroom : (chains.ids ∪ idsOf D ruled).card ≤ 1024) :
    ∃ kept, chains.recordAll peer ruled = .ok kept ∧ chains.Unions ruled kept := by
  obtain ⟨until?, huntil⟩ := ofStream_readable ruled h
  rw [← card_fresh] at hroom
  have hunder : ¬ maxSessionChainIds < chains.ids.card +
      ((ruled.flatMap D.revocationIds).toFinset.filter (· ∉ chains.ids)).card := Nat.not_lt.2 hroom
  have hids : chains.ids ∪ (ruled.flatMap D.revocationIds).toFinset.filter (· ∉ chains.ids) =
      chains.ids ∪ idsOf D ruled := by
    rw [← Finset.sdiff_eq_filter, Finset.union_sdiff_self_eq_union, idsOf]
  cases hruled : ruled with
  | nil =>
    subst hruled
    exact ⟨_, by simp only [recordAll, huntil, if_neg hunder]; rfl, ⟨hids, rfl, by simp [anchorOf]⟩⟩
  | cons anchor rest =>
    subst hruled
    refine ⟨_, by simp only [recordAll, huntil, if_neg hunder]; rfl, ⟨hids, rfl, ?_⟩⟩
    ext root
    simp [anchorOf, or_comm]

end AdmittedChains

/-- One call on a record, whole: what it answers, and what it leaves. -/
structure AllOrNothing (chains : AdmittedChains D) (ruled : List D.Cap)
    (result : Except (Unrecorded D) Unit × AdmittedChains D) : Prop where
  unreadable : (∃ e, result.1 = .error (.UnreadableExpiry e)) ↔ Unreadable D ruled
  full : result.1 = .error .Full ↔ ¬ Unreadable D ruled ∧ 1024 < (chains.ids ∪ idsOf D ruled).card
  kept : result.1 = .ok () ↔ ¬ Unreadable D ruled ∧ (chains.ids ∪ idsOf D ruled).card ≤ 1024
  nothing : result.1 ≠ .ok () → result.2 = chains
  all : result.1 = .ok () → chains.Unions ruled result.2

theorem recordAll_allOrNothing (chains : AdmittedChains D) (peer : D.VerifyKey) (ruled : List D.Cap) :
    AllOrNothing chains ruled ((RecordCall.all peer ruled).run chains) := by
  rw [recordAllInPlace_run]
  by_cases hread : Unreadable D ruled
  · obtain ⟨e, he⟩ := chains.recordAll_unreadable peer ruled hread
    rw [he]
    exact ⟨by simp [hread], by simp [hread], by simp [hread], fun _ => rfl, fun h => by cases h⟩
  · by_cases hfull : 1024 < (chains.ids ∪ idsOf D ruled).card
    · rw [chains.recordAll_full peer ruled hread hfull]
      exact ⟨by simp [hread], by simp [hread, hfull], by simp [hread, hfull], fun _ => rfl, fun h => by cases h⟩
    · have hroom := Nat.not_lt.1 hfull
      obtain ⟨kept, hkept, hunions⟩ := chains.recordAll_kept peer ruled hread hroom
      rw [hkept]
      exact ⟨by simp [hread], by simp [hroom], by simp [hread, hroom], fun h => absurd rfl h, fun _ => hunions⟩

/-- What holds of every record the calls can leave, with the caps they were made with. -/
structure BoundedRecord (chains : AdmittedChains D) (caps : List D.Cap) : Prop where
  ids : chains.ids.card ≤ 1024
  anchors : chains.anchors ⊆ chains.roots
  rooted : ∀ root ∈ chains.roots, ∃ cap ∈ caps, D.root cap = root ∧ ∀ id ∈ D.revocationIds cap, id ∈ chains.ids

theorem BoundedRecord.empty : BoundedRecord (.empty D) [] where
  ids := by simp [AdmittedChains.empty]
  anchors := by simp [AdmittedChains.empty]
  rooted := by simp [AdmittedChains.empty]

theorem BoundedRecord.more {chains : AdmittedChains D} {caps : List D.Cap} (h : BoundedRecord chains caps)
    (others : List D.Cap) : BoundedRecord chains (caps ++ others) where
  ids := h.ids
  anchors := h.anchors
  rooted := by
    intro root hroot
    obtain ⟨cap, hcap, hrest⟩ := h.rooted root hroot
    exact ⟨cap, by simp [hcap], hrest⟩

theorem BoundedRecord.call {chains : AdmittedChains D} {caps : List D.Cap} (h : BoundedRecord chains caps)
    (call : RecordCall D) : BoundedRecord (call.run chains).2 (caps ++ call.caps) := by
  cases call with
  | proven peer => exact ⟨h.ids, h.anchors, (h.more []).rooted⟩
  | all peer ruled =>
    have hcall := recordAll_allOrNothing chains peer ruled
    by_cases hok : ((RecordCall.all peer ruled).run chains).1 = .ok ()
    · have hunions := hcall.all hok
      refine ⟨?_, ?_, ?_⟩
      · rw [hunions.ids]
        exact (hcall.kept.1 hok).2
      · rw [hunions.anchors, hunions.roots]
        refine Finset.union_subset_union h.anchors ?_
        intro root hroot
        obtain ⟨cap, hcap, rfl⟩ : ∃ cap, ruled.head? = some cap ∧ D.root cap = root := by
          simpa [anchorOf] using hroot
        simp only [rootsOf, List.mem_toFinset, List.mem_map]
        exact ⟨cap, List.mem_of_mem_head? hcap, rfl⟩
      · intro root hroot
        rw [hunions.roots, Finset.mem_union] at hroot
        rw [hunions.ids]
        obtain hroot | hroot := hroot
        · obtain ⟨cap, hcap, rfl, hids⟩ := h.rooted root hroot
          exact ⟨cap, by simp [hcap], rfl, fun id hid => Finset.mem_union_left _ (hids id hid)⟩
        · simp only [rootsOf, List.mem_toFinset, List.mem_map] at hroot
          obtain ⟨cap, hcap, rfl⟩ := hroot
          refine ⟨cap, by simp [RecordCall.caps, hcap], rfl, fun id hid => Finset.mem_union_right _ ?_⟩
          simp only [idsOf, List.mem_toFinset, List.mem_flatMap]
          exact ⟨cap, hcap, hid⟩
    · rw [hcall.nothing hok]
      exact h.more ruled

theorem AdmittedChains.after_bounded (calls : List (RecordCall D)) :
    BoundedRecord (AdmittedChains.after calls) (calls.flatMap RecordCall.caps) := by
  have hrun : ∀ (calls : List (RecordCall D)) (chains : AdmittedChains D) (caps : List D.Cap),
      BoundedRecord chains caps →
        BoundedRecord (calls.foldl (fun chains call => (call.run chains).2) chains)
          (caps ++ calls.flatMap RecordCall.caps) := by
    intro calls
    induction calls with
    | nil =>
      intro chains caps h
      simpa using h
    | cons call rest ih =>
      intro chains caps h
      have hrest := ih _ _ (h.call call)
      simpa [List.append_assoc] using hrest
  exact hrun calls _ [] .empty

/-- Where every cap has an id and an id belongs to one root, a root is counted by an id of its own. -/
theorem BoundedRecord.roots_card {chains : AdmittedChains D} {caps : List D.Cap} (h : BoundedRecord chains caps)
    (hids : ∀ cap ∈ caps, D.revocationIds cap ≠ [])
    (hroots : ∀ cap ∈ caps, ∀ other ∈ caps, ∀ id ∈ D.revocationIds cap, id ∈ D.revocationIds other →
      D.root cap = D.root other) : chains.roots.card ≤ chains.ids.card := by
  have hid : ∀ root : chains.roots, ∃ id ∈ chains.ids, ∃ cap ∈ caps, D.root cap = root ∧ id ∈ D.revocationIds cap := by
    intro root
    obtain ⟨cap, hcap, hroot, hkept⟩ := h.rooted root root.property
    obtain ⟨id, hid⟩ := List.exists_mem_of_ne_nil _ (hids cap hcap)
    exact ⟨id, hkept id hid, cap, hcap, hroot, hid⟩
  choose id hkept cap hcap hroot hmem using hid
  have hinj : Function.Injective id := by
    intro a b heq
    have hsame := hroots _ (hcap a) _ (hcap b) _ (hmem a) (heq ▸ hmem b)
    exact Subtype.ext ((hroot a).symm.trans (hsame.trans (hroot b)))
  have hcard := Finset.card_le_card_of_injOn (s := chains.roots.attach) (t := chains.ids) id
    (fun root _ => hkept root) hinj.injOn
  rwa [Finset.card_attach] at hcard

/-- After any calls at all: the next one is all or nothing, with its refusals exactly where they belong;
what is held already, and a stream that ruled on nothing, are never refused for room; and the record is
bounded in every part. -/
theorem cut_record_bounded (calls : List (RecordCall D)) :
    let chains := AdmittedChains.after calls
    (∀ peer ruled, AllOrNothing chains ruled ((RecordCall.all peer ruled).run chains) ∧
      (idsOf D ruled ⊆ chains.ids → ((RecordCall.all peer ruled).run chains).1 ≠ .error .Full)) ∧
    (∀ peer, (RecordCall.all peer []).run chains = (.ok (), chains)) ∧
    (∀ peer, (RecordCall.proven peer).run chains = (.ok (), { chains with peer := some peer, proven := true })) ∧
    chains.ids.card ≤ 1024 ∧ chains.anchors ⊆ chains.roots ∧
    ((∀ cap ∈ calls.flatMap RecordCall.caps, D.revocationIds cap ≠ []) →
      (∀ cap ∈ calls.flatMap RecordCall.caps, ∀ other ∈ calls.flatMap RecordCall.caps,
        ∀ id ∈ D.revocationIds cap, id ∈ D.revocationIds other → D.root cap = D.root other) →
      chains.roots.card ≤ chains.ids.card) := by
  intro chains
  have hbounded := AdmittedChains.after_bounded calls
  have hheld : ∀ peer ruled, idsOf D ruled ⊆ chains.ids →
      ((RecordCall.all peer ruled).run chains).1 ≠ .error .Full := by
    intro peer ruled hsub hfull
    have hover := ((recordAll_allOrNothing chains peer ruled).full.1 hfull).2
    rw [Finset.union_eq_left.2 hsub] at hover
    exact absurd hbounded.ids (Nat.not_le.2 hover)
  refine ⟨fun peer ruled => ⟨recordAll_allOrNothing chains peer ruled, hheld peer ruled⟩, ?_, fun _ => rfl,
    hbounded.ids, hbounded.anchors, hbounded.roots_card⟩
  intro peer
  have hread : ¬ Unreadable D ([] : List D.Cap) := by
    rintro ⟨cap, hcap, -⟩
    cases hcap
  have hroom : (chains.ids ∪ idsOf D []).card ≤ 1024 := by
    simpa [idsOf] using hbounded.ids
  obtain ⟨kept, hkept, -⟩ := chains.recordAll_kept peer [] hread hroom
  rw [recordAllInPlace_run, hkept, recordAll_open hkept]

end Tightbeam
