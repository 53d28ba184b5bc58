import Tightbeam.Router
import Tightbeam.ProtocolExact
import Tightbeam.Library.Checked
import Tightbeam.Library.Taker

/-!
# The catalog on the wire

What a node publishes it serves, as a self-delimiting blob. The encoder refuses what the decoder would
refuse, so the blobs a reader accepts are the encoder's own, and one bound on their length serves both
ends.
-/
namespace Tightbeam

open Octets Checked

def Posture.tag : Posture → UInt8
  | .Gated => 0
  | .Open => 1

structure ServiceCatalog where
  entries : List ServiceEntry
  deriving DecidableEq, Repr

def maxServiceNameLen : Nat := 256

def maxCatalogEntries : Nat := 1024

def countPrefixLen : Nat := 4

def entryOverheadLen : Nat := 2 + 1

def maxCatalogBlob : Nat :=
  countPrefixLen + maxCatalogEntries * (entryOverheadLen + maxServiceNameLen)

/-- Why a catalog could not be put on the wire. -/
inductive CatalogTooLarge where
  | TooManyServices (count max : Nat)
  | NameTooLong (name : String) (len max : Nat)
  deriving DecidableEq, Repr

def CatalogTooLarge.display : CatalogTooLarge → String
  | .TooManyServices count max =>
    s!"the node serves {count} services, more than the catalog wire carries (at most {max})"
  | .NameTooLong name len max =>
    s!"service name `{name}` is {len} bytes, longer than the catalog wire carries (at most {max})"

/-- Why some octets are no catalog. -/
inductive CatalogError where
  | lengthOverflow
  | truncated
  | tooManyServices (count : Nat)
  | nameTooLong (len : Nat)
  | invalidUtf8
  | unknownPosture (tag : UInt8)
  | trailing
  deriving DecidableEq, Repr

def CatalogError.display : CatalogError → String
  | .lengthOverflow => "length overflow"
  | .truncated => "service catalog is truncated"
  | .tooManyServices count => s!"service catalog names too many services ({count})"
  | .nameTooLong len => s!"service name too long ({len} bytes)"
  | .invalidUtf8 => "service name is not valid UTF-8"
  | .unknownPosture tag => "unknown service posture tag " ++ hexOctet tag
  | .trailing => "service catalog has trailing bytes"

def Posture.fromTag (tag : UInt8) : Except CatalogError Posture :=
  if tag = 0 then .ok .Gated else if tag = 1 then .ok .Open else .error (.unknownPosture tag)

/-- The first over-long name is the one refused. -/
def checkNames : List ServiceEntry → Except CatalogTooLarge Unit
  | [] => .ok ()
  | entry :: rest =>
    if maxServiceNameLen < (utf8 entry.name).length then
      .error (.NameTooLong entry.name (utf8 entry.name).length maxServiceNameLen)
    else checkNames rest

/-- One entry as it is written, its length cast to 16 bits. -/
def putEntry (entry : ServiceEntry) : List UInt8 :=
  beU16 ((utf8 entry.name).length % 65536) ++ utf8 entry.name ++ [entry.posture.tag]

def take (len : Nat) : Taker CatalogError (List UInt8) := Taker.take .lengthOverflow .truncated len

def takeU16 : Taker CatalogError Nat := do
  let bytes ← take 2
  pure (fromBe bytes)

def takeU32 : Taker CatalogError Nat := do
  let bytes ← take 4
  pure (fromBe bytes)

def takePosture : Taker CatalogError Posture := do
  let bytes ← take 1
  Taker.lift (Posture.fromTag (bytes.headD 0))

def nameOf (bytes : List UInt8) : Except CatalogError String :=
  match fromUtf8? bytes with
  | some name => .ok name
  | none => .error .invalidUtf8

def takeName (len : Nat) : Taker CatalogError String := do
  let bytes ← take len
  Taker.lift (nameOf bytes)

/-- The rest of an entry once its name's length is known. -/
def takeNamed (len : Nat) : Taker CatalogError ServiceEntry := do
  let name ← takeName len
  let posture ← takePosture
  pure ⟨name, posture⟩

def takeEntry : Taker CatalogError ServiceEntry := do
  let nameLen ← takeU16
  if maxServiceNameLen < nameLen then Taker.fail (.nameTooLong nameLen)
  else takeNamed nameLen

def takeEntries : Nat → Taker CatalogError (List ServiceEntry)
  | 0 => pure []
  | n + 1 => do
    let entry ← takeEntry
    let rest ← takeEntries n
    pure (entry :: rest)

def takeServices : Taker CatalogError (List ServiceEntry) := do
  let count ← takeU32
  if maxCatalogEntries < count then Taker.fail (.tooManyServices count)
  else takeEntries count

def takeCatalog : Taker CatalogError ServiceCatalog := do
  let entries ← takeServices
  Taker.done .trailing
  pure ⟨entries⟩

namespace ServiceCatalog

/-- Both bounds are checked before an octet is put. -/
def encode (c : ServiceCatalog) : Except CatalogTooLarge (List UInt8) :=
  if maxCatalogEntries < c.entries.length then
    .error (.TooManyServices c.entries.length maxCatalogEntries)
  else do
    checkNames c.entries
    pure (beU32 (c.entries.length % 4294967296) ++ c.entries.flatMap putEntry)

def decode (bytes : List UInt8) : Except CatalogError ServiceCatalog := (takeCatalog.run bytes 0).1

/-- What the wire admits. -/
structure Fits (c : ServiceCatalog) : Prop where
  entries : c.entries.length ≤ 1024
  names : ∀ entry ∈ c.entries, (utf8 entry.name).length ≤ 256

end ServiceCatalog

def ServiceEntry.Fits (entry : ServiceEntry) : Prop := (utf8 entry.name).length ≤ 256

def ServiceEntry.frame (entry : ServiceEntry) : List UInt8 := strFrame entry.name ++ [entry.posture.tag]

theorem ServiceEntry.frame_length_le (entry : ServiceEntry) (h : entry.Fits) : entry.frame.length ≤ 259 := by
  unfold ServiceEntry.Fits at h
  simp only [frame, strFrame, List.length_append, beU16_length, List.length_cons, List.length_nil]
  omega

/-- Within the name bound the cast keeps the length. -/
theorem putEntry_eq_frame (entry : ServiceEntry) (h : entry.Fits) : putEntry entry = entry.frame := by
  unfold ServiceEntry.Fits at h
  rw [putEntry, Nat.mod_eq_of_lt (by omega)]
  rfl

theorem Posture.fromTag_ok (tag : UInt8) (posture : Posture) :
    Posture.fromTag tag = .ok posture ↔ tag = posture.tag := by
  unfold Posture.fromTag
  cases posture with
  | Gated =>
    split_ifs with h0 h1
    · simp [h0, Posture.tag]
    · simp [h1, Posture.tag]
    · simpa [Posture.tag] using h0
  | Open =>
    split_ifs with h0 h1
    · simp [h0, Posture.tag]
    · simp [h1, Posture.tag]
    · simpa [Posture.tag] using h1

theorem take_exact (len : Nat) : (take len).Exact (fun bs => bs.length = len) id :=
  Taker.take_exact _ _ _

theorem takeU16_exact : takeU16.Exact (· ≤ 65535) beU16 := by
  refine (take_exact 2).bind (fun bs _ => Taker.Exact.pure (fromBe bs)) ?_ ?_
  · intro n hn
    exact ⟨beU16 n, rfl, (fromBe_beU16 n hn).symm, by simp⟩
  · intro bs n hlen hn
    subst hn
    obtain ⟨hle, hbs⟩ := beU16_fromBe bs hlen
    exact ⟨hle, by simp [hbs]⟩

theorem takeU32_exact : takeU32.Exact (· ≤ 4294967295) beU32 := by
  refine (take_exact 4).bind (fun bs _ => Taker.Exact.pure (fromBe bs)) ?_ ?_
  · intro n hn
    exact ⟨beU32 n, rfl, (fromBe_beU32 n hn).symm, by simp⟩
  · intro bs n hlen hn
    subst hn
    obtain ⟨hle, hbs⟩ := beU32_fromBe bs hlen
    exact ⟨hle, by simp [hbs]⟩

theorem nameOf_ok (bytes : List UInt8) (name : String) : nameOf bytes = .ok name ↔ utf8 name = bytes := by
  rw [← fromUtf8?_eq_some, nameOf]
  cases fromUtf8? bytes with
  | none => simp
  | some found => simp

theorem takePosture_exact : takePosture.Exact (fun _ => True) (fun posture => [posture.tag]) := by
  refine (take_exact 1).bind (fun bs _ => Taker.Exact.lift (Posture.fromTag_ok (bs.headD 0))) ?_ ?_
  · intro posture _
    exact ⟨[posture.tag], rfl, rfl, by simp⟩
  · intro bs posture hlen htag
    match bs, hlen with
    | [b], _ => exact ⟨trivial, by simpa using htag.symm⟩

theorem takeName_exact (len : Nat) :
    (takeName len).Exact (fun name => (utf8 name).length = len) utf8 := by
  refine (take_exact len).bind (fun bs _ => Taker.Exact.lift (nameOf_ok bs)) ?_ ?_
  · intro name hlen
    exact ⟨utf8 name, hlen, rfl, by simp⟩
  · intro bs name hlen hname
    subst hname
    exact ⟨hlen, by simp⟩

theorem takeNamed_exact (len : Nat) : (takeNamed len).Exact
    (fun entry => (utf8 entry.name).length = len) (fun entry => utf8 entry.name ++ [entry.posture.tag]) := by
  refine (takeName_exact len).bind (Q := fun name entry => entry.name = name)
    (g := fun _ entry => [entry.posture.tag]) ?_ ?_ ?_
  · intro name _
    refine takePosture_exact.bind (fun posture _ => Taker.Exact.pure (ServiceEntry.mk name posture)) ?_ ?_
    · intro entry hname
      subst hname
      exact ⟨entry.posture, trivial, rfl, by simp⟩
    · intro posture entry _ hentry
      subst hentry
      exact ⟨rfl, by simp⟩
  · intro entry hlen
    exact ⟨entry.name, hlen, rfl, rfl⟩
  · intro name entry hlen hname
    subst hname
    exact ⟨hlen, rfl⟩

theorem takeEntry_exact : takeEntry.Exact ServiceEntry.Fits ServiceEntry.frame := by
  refine takeU16_exact.bind (Q := fun len entry => len ≤ 256 ∧ (utf8 entry.name).length = len)
    (g := fun _ entry => utf8 entry.name ++ [entry.posture.tag]) ?_ ?_ ?_
  · intro len _
    by_cases hlen : maxServiceNameLen < len
    · have hno : ¬ len ≤ 256 := Nat.not_le.mpr hlen
      simp only [hlen, ↓reduceIte]
      exact Taker.Exact.fail _ fun _ h => hno h.1
    · have hyes : len ≤ 256 := Nat.not_lt.mp hlen
      simp only [hlen, hyes, ↓reduceIte, true_and]
      exact takeNamed_exact len
  · intro entry h
    unfold ServiceEntry.Fits at h
    exact ⟨(utf8 entry.name).length, by omega, ⟨h, rfl⟩, by simp [ServiceEntry.frame, strFrame]⟩
  · rintro len entry _ ⟨hle, rfl⟩
    exact ⟨hle, by simp [ServiceEntry.frame, strFrame]⟩

theorem takeEntries_exact (n : Nat) : (takeEntries n).Exact
    (fun entries => entries.length = n ∧ ∀ entry ∈ entries, entry.Fits)
    (fun entries => entries.flatMap ServiceEntry.frame) := by
  induction n with
  | zero =>
    constructor
    · rintro before entries after ⟨hlen, -⟩ _
      rw [List.length_eq_zero_iff.mp hlen]
      simp [takeEntries]
    · intro before s entries left h
      simp only [takeEntries, Taker.run_pure, Prod.mk.injEq, Except.ok.injEq] at h
      obtain ⟨rfl, rfl⟩ := h
      exact ⟨⟨rfl, by simp⟩, s, rfl, by simp⟩
  | succ n ih =>
    refine takeEntry_exact.bind
      (Q := fun entry entries => ∃ rest, entries = entry :: rest ∧ rest.length = n ∧ ∀ e ∈ rest, e.Fits)
      (g := fun _ entries => entries.tail.flatMap ServiceEntry.frame) ?_ ?_ ?_
    · intro entry _
      refine ih.bind (fun rest _ => Taker.Exact.pure (entry :: rest)) ?_ ?_
      · rintro entries ⟨rest, rfl, hlen, hfits⟩
        exact ⟨rest, ⟨hlen, hfits⟩, rfl, by simp⟩
      · rintro rest entries ⟨hlen, hfits⟩ rfl
        exact ⟨⟨rest, rfl, hlen, hfits⟩, by simp⟩
    · rintro entries ⟨hlen, hfits⟩
      match entries, hlen with
      | entry :: rest, hlen =>
        exact ⟨entry, hfits entry (by simp), ⟨rest, rfl, by simpa using hlen,
          fun e he => hfits e (by simp [he])⟩, by simp⟩
    · rintro entry _ hentry ⟨rest, rfl, hlen, hfits⟩
      refine ⟨⟨by simp [hlen], ?_⟩, by simp⟩
      intro e he
      obtain rfl | he := List.mem_cons.mp he
      · exact hentry
      · exact hfits e he

namespace ServiceCatalog

def frame (c : ServiceCatalog) : List UInt8 := beU32 c.entries.length ++ c.entries.flatMap ServiceEntry.frame

theorem flatMap_frame_length_le (entries : List ServiceEntry) (h : ∀ entry ∈ entries, entry.Fits) :
    (entries.flatMap ServiceEntry.frame).length ≤ 259 * entries.length := by
  induction entries with
  | nil => simp
  | cons entry rest ih =>
    have hentry := entry.frame_length_le (h entry (by simp))
    have hrest := ih fun e he => h e (by simp [he])
    simp only [List.flatMap_cons, List.length_append, List.length_cons]
    omega

theorem frame_length_le (c : ServiceCatalog) (h : c.Fits) : c.frame.length ≤ maxCatalogBlob := by
  have hentries := h.entries
  have hflat := flatMap_frame_length_le c.entries h.names
  have hmax : maxCatalogBlob = 265220 := rfl
  simp only [frame, List.length_append, beU32_length]
  omega

end ServiceCatalog

theorem takeServices_exact : takeServices.Exact
    (fun entries => (⟨entries⟩ : ServiceCatalog).Fits) (fun entries => (⟨entries⟩ : ServiceCatalog).frame) := by
  refine takeU32_exact.bind
    (Q := fun count entries => count ≤ 1024 ∧ entries.length = count ∧ ∀ entry ∈ entries, entry.Fits)
    (g := fun _ entries => entries.flatMap ServiceEntry.frame) ?_ ?_ ?_
  · intro count _
    by_cases hcount : maxCatalogEntries < count
    · have hno : ¬ count ≤ 1024 := Nat.not_le.mpr hcount
      simp only [hcount, ↓reduceIte]
      exact Taker.Exact.fail _ fun _ h => hno h.1
    · have hyes : count ≤ 1024 := Nat.not_lt.mp hcount
      simp only [hcount, hyes, ↓reduceIte, true_and]
      exact takeEntries_exact count
  · intro entries h
    have hentries := h.entries
    exact ⟨entries.length, by simp only at hentries; omega, ⟨hentries, rfl, h.names⟩, rfl⟩
  · rintro count entries _ ⟨hle, rfl, hfits⟩
    exact ⟨⟨hle, hfits⟩, rfl⟩

theorem take_within (len : Nat) : Taker.Within (take len) CatalogError.lengthOverflow len :=
  Taker.Within.take (by decide) len

theorem takeNumber_within (len : Nat) :
    Taker.Within (take len >>= fun bytes => pure (fromBe bytes)) CatalogError.lengthOverflow len :=
  (take_within len).bind fun bytes => Taker.Within.pure (fromBe bytes)

theorem takePosture_within : Taker.Within takePosture .lengthOverflow 1 := by
  apply (take_within 1).bind (m := 0)
  intro bytes
  apply Taker.Within.lift
  unfold Posture.fromTag
  split_ifs <;> simp

theorem takeName_within (len : Nat) : Taker.Within (takeName len) .lengthOverflow len := by
  apply (take_within len).bind (m := 0)
  intro bytes
  apply Taker.Within.lift
  unfold nameOf
  cases fromUtf8? bytes <;> simp

theorem takeNamed_within (len : Nat) : Taker.Within (takeNamed len) .lengthOverflow (len + 1) :=
  (takeName_within len).bind fun name => takePosture_within.bind (m := 0) fun posture =>
    Taker.Within.pure (ServiceEntry.mk name posture)

theorem takeEntry_within : Taker.Within takeEntry .lengthOverflow 259 := by
  apply (takeNumber_within 2).bind (m := 257)
  intro len
  by_cases hlen : maxServiceNameLen < len
  · rw [if_pos hlen]
    exact (Taker.Within.fail (by simp)).mono (by decide)
  · rw [if_neg hlen]
    have hle : len ≤ 256 := Nat.not_lt.mp hlen
    exact (takeNamed_within len).mono (by omega)

theorem takeEntries_within (n : Nat) : Taker.Within (takeEntries n) .lengthOverflow (259 * n) := by
  induction n with
  | zero => exact Taker.Within.pure []
  | succ n ih =>
    have hcons := takeEntry_within.bind fun entry => ih.bind fun rest => Taker.Within.pure (entry :: rest)
    exact hcons.mono (by omega)

theorem takeServices_within : Taker.Within takeServices .lengthOverflow (4 + 265216) := by
  apply (takeNumber_within 4).bind (m := 265216)
  intro count
  by_cases hcount : maxCatalogEntries < count
  · rw [if_pos hcount]
    exact (Taker.Within.fail (by simp)).mono (by decide)
  · rw [if_neg hcount]
    have hle : count ≤ 1024 := Nat.not_lt.mp hcount
    exact (takeEntries_within count).mono (by omega)

/-- No checked sum of the decoder's can fail, whatever the octets: every length it adds is bounded first. -/
theorem takeCatalog_within : Taker.Within takeCatalog .lengthOverflow maxCatalogBlob :=
  takeServices_within.bind fun entries =>
    (Taker.Within.done (by decide)).bind fun _ => Taker.Within.pure (ServiceCatalog.mk entries)

namespace ServiceCatalog

variable (c : ServiceCatalog)

theorem checkNames_ok (entries : List ServiceEntry) :
    checkNames entries = .ok () ↔ ∀ entry ∈ entries, entry.Fits := by
  induction entries with
  | nil => simp [checkNames]
  | cons entry rest ih =>
    rw [checkNames]
    by_cases hname : maxServiceNameLen < (utf8 entry.name).length
    · have hno : ¬ entry.Fits := Nat.not_le.mpr hname
      simp [hname, hno]
    · have hyes : entry.Fits := Nat.not_lt.mp hname
      simp [hname, hyes, ih]

/-- The encoder's result is the frame, and it has one exactly within the wire's bounds. -/
theorem encode_ok (blob : List UInt8) : c.encode = .ok blob ↔ c.Fits ∧ blob = c.frame := by
  have hframe : c.Fits → beU32 (c.entries.length % 4294967296) ++ c.entries.flatMap putEntry = c.frame := by
    intro h
    have hentries := h.entries
    have hmap : c.entries.flatMap putEntry = c.entries.flatMap ServiceEntry.frame := by
      simp only [List.flatMap_def]
      rw [List.map_congr_left fun entry he => putEntry_eq_frame entry (h.names entry he)]
    rw [Nat.mod_eq_of_lt (by omega), hmap, frame]
  unfold encode
  by_cases hcount : maxCatalogEntries < c.entries.length
  · rw [if_pos hcount]
    constructor
    · intro h
      cases h
    · rintro ⟨h, -⟩
      exact absurd h.entries (Nat.not_le.mpr hcount)
  · rw [if_neg hcount, bind_ok]
    constructor
    · rintro ⟨_, hnames, h⟩
      have hfits : c.Fits := ⟨Nat.not_lt.mp hcount, (checkNames_ok _).mp hnames⟩
      exact ⟨hfits, by rw [← hframe hfits]; exact (pure_ok.mp h).symm⟩
    · rintro ⟨hfits, rfl⟩
      exact ⟨(), (checkNames_ok _).mpr hfits.names, pure_ok.mpr (hframe hfits)⟩

/-- The decoder's run over a whole blob. -/
theorem takeCatalog_ok (bytes : List UInt8) (left : Nat) :
    takeCatalog.run bytes 0 = (.ok c, left) ↔ c.Fits ∧ bytes = c.frame ∧ left = bytes.length := by
  have hroom : c.Fits → ([] ++ c.frame).length ≤ maxOffset := by
    intro h
    have hlen := c.frame_length_le h
    have hmax : maxCatalogBlob ≤ maxOffset := by decide
    simpa using le_trans hlen hmax
  constructor
  · intro h
    obtain ⟨entries, mid, hrun, hrest⟩ := (Taker.run_bind_ok _ _ _ _ _ _).mp h
    obtain ⟨_, mid', hdone, hpure⟩ := (Taker.run_bind_ok _ _ _ _ _ _).mp hrest
    obtain ⟨rfl, rfl⟩ := (Taker.run_done_ok _ _ _ _ _).mp hdone
    simp only [Taker.run_pure, Prod.mk.injEq, Except.ok.injEq] at hpure
    obtain ⟨rfl, rfl⟩ := hpure
    obtain ⟨hfits, after, hbytes, hlen⟩ := takeServices_exact.taken [] bytes entries _ hrun
    have hafter : after = [] := by
      have hsum := congrArg List.length hbytes
      simp only [List.nil_append, List.length_append] at hlen hsum
      exact List.length_eq_zero_iff.mp (by omega)
    rw [hafter, List.append_nil] at hbytes
    exact ⟨hfits, hbytes, rfl⟩
  · rintro ⟨hfits, rfl, rfl⟩
    have hrun := takeServices_exact.takes [] c.entries [] hfits (hroom hfits)
    refine (Taker.run_bind_ok _ _ _ _ _ _).mpr ⟨c.entries, c.frame.length, ?_, ?_⟩
    · simpa using hrun
    · exact (Taker.run_bind_ok _ _ _ _ _ _).mpr ⟨(), _, (Taker.run_done_ok _ _ _ _ _).mpr ⟨rfl, rfl⟩, rfl⟩

theorem decode_ok (bytes : List UInt8) : decode bytes = .ok c ↔ c.Fits ∧ bytes = c.frame := by
  unfold decode
  constructor
  · intro h
    obtain ⟨hfits, hbytes, -⟩ := (takeCatalog_ok c bytes _).mp (Prod.ext h rfl)
    exact ⟨hfits, hbytes⟩
  · rintro ⟨hfits, hbytes⟩
    rw [(takeCatalog_ok c bytes _).mpr ⟨hfits, hbytes, rfl⟩]

end ServiceCatalog

/-- The encoder and the decoder are one codec: what encodes is what the wire admits, what decodes is
what was encoded, and one bound is over both. The cursor stays inside the blob however the decode ends,
its sums never overflow, and a decode takes the whole blob. -/
theorem catalog_codec_exact :
    (∀ c : ServiceCatalog, (∃ blob, c.encode = .ok blob) ↔
      c.entries.length ≤ 1024 ∧ ∀ entry ∈ c.entries, (utf8 entry.name).length ≤ 256) ∧
    (∀ (c : ServiceCatalog) (blob : List UInt8), c.encode = .ok blob →
      ServiceCatalog.decode blob = .ok c ∧ blob.length ≤ maxCatalogBlob) ∧
    (∀ (bytes : List UInt8) (c : ServiceCatalog), ServiceCatalog.decode bytes = .ok c →
      c.encode = .ok bytes ∧ (takeCatalog.run bytes 0).2 = bytes.length) ∧
    (∀ bytes : List UInt8, (takeCatalog.run bytes 0).2 ≤ bytes.length ∧
      ServiceCatalog.decode bytes ≠ .error .lengthOverflow) := by
  refine ⟨?_, ?_, ?_, ?_⟩
  · intro c
    constructor
    · rintro ⟨blob, h⟩
      obtain ⟨hfits, -⟩ := (c.encode_ok blob).mp h
      exact ⟨hfits.entries, hfits.names⟩
    · rintro ⟨hentries, hnames⟩
      exact ⟨c.frame, (c.encode_ok _).mpr ⟨⟨hentries, hnames⟩, rfl⟩⟩
  · intro c blob h
    obtain ⟨hfits, rfl⟩ := (c.encode_ok blob).mp h
    exact ⟨(c.decode_ok _).mpr ⟨hfits, rfl⟩, c.frame_length_le hfits⟩
  · intro bytes c h
    obtain ⟨hfits, hbytes⟩ := (c.decode_ok bytes).mp h
    have hrun := (c.takeCatalog_ok bytes _).mpr ⟨hfits, hbytes, rfl⟩
    exact ⟨(c.encode_ok bytes).mpr ⟨hfits, hbytes⟩, by rw [hrun]⟩
  · intro bytes
    exact ⟨takeCatalog_within.inside bytes 0 (Nat.zero_le _), takeCatalog_within.exact bytes 0 (by decide)⟩

end Tightbeam
