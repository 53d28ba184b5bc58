import Mathlib.Data.List.Infix
import Mathlib.Tactic.Common

/-!
# Readers and writers of octets

A reader runs on the octets a stream still holds before it ends, and says what it left even when it
fails. A writer runs on a stream that takes every octet, and says what it put there even when it
fails. A reader is exact for an encoding when it accepts one frame for each value and nothing else.
-/
namespace Octets

variable {ε α β : Type}

/-- A read of a finite stream: its result, and the octets left unread. -/
def Reader (ε α : Type) := List UInt8 → Except ε α × List UInt8

namespace Reader

def run (r : Reader ε α) (s : List UInt8) : Except ε α × List UInt8 := r s

protected def pure (a : α) : Reader ε α := fun s => (.ok a, s)

protected def bind (r : Reader ε α) (k : α → Reader ε β) : Reader ε β := fun s =>
  match r s with
  | (.ok a, rest) => k a rest
  | (.error e, rest) => (.error e, rest)

instance : Monad (Reader ε) where
  pure := Reader.pure
  bind := Reader.bind

def fail (e : ε) : Reader ε α := fun s => (.error e, s)

/-- Exactly `n` octets; a stream that ends first is drained and the read fails. -/
def exactly (eof : ε) (n : Nat) : Reader ε (List UInt8) := fun s =>
  if n ≤ s.length then (.ok (s.take n), s.drop n) else (.error eof, [])

/-- The next octet. -/
def octet (eof : ε) : Reader ε UInt8 := fun s =>
  match s with
  | [] => (.error eof, [])
  | b :: rest => (.ok b, rest)

@[simp] theorem run_pure (a : α) (s : List UInt8) :
    (pure a : Reader ε α).run s = (.ok a, s) := rfl

@[simp] theorem run_fail (e : ε) (s : List UInt8) :
    (fail e : Reader ε α).run s = (.error e, s) := rfl

@[simp] theorem run_octet_cons (eof : ε) (b : UInt8) (s : List UInt8) :
    (octet eof).run (b :: s) = (.ok b, s) := rfl

@[simp] theorem run_octet_nil (eof : ε) : (octet eof).run [] = (.error eof, []) := rfl

theorem run_bind (r : Reader ε α) (k : α → Reader ε β) (s : List UInt8) :
    (r >>= k).run s = match r.run s with
      | (.ok a, rest) => (k a).run rest
      | (.error e, rest) => (.error e, rest) := rfl

/-- A sequence succeeds exactly when its first read does and the second does on what it left. -/
theorem run_bind_ok (r : Reader ε α) (k : α → Reader ε β) (s rest : List UInt8) (b : β) :
    (r >>= k).run s = (.ok b, rest) ↔
      ∃ a mid, r.run s = (.ok a, mid) ∧ (k a).run mid = (.ok b, rest) := by
  rw [run_bind]
  rcases hr : r.run s with ⟨res, mid⟩
  cases res with
  | error e => simp
  | ok a => simp

theorem run_pure_ok (a b : α) (s rest : List UInt8) :
    (pure a : Reader ε α).run s = (.ok b, rest) ↔ a = b ∧ s = rest := by
  simp

theorem run_octet_ok (eof : ε) (s rest : List UInt8) (b : UInt8) :
    (octet eof).run s = (.ok b, rest) ↔ s = b :: rest := by
  cases s <;> simp

theorem run_exactly_ok (eof : ε) (n : Nat) (s bs rest : List UInt8) :
    (exactly eof n).run s = (.ok bs, rest) ↔ bs.length = n ∧ s = bs ++ rest := by
  change (if n ≤ s.length then ((.ok (s.take n) : Except ε _), s.drop n) else (.error eof, [])) = _ ↔ _
  split
  · rename_i h
    simp only [Prod.mk.injEq, Except.ok.injEq]
    constructor
    · rintro ⟨rfl, rfl⟩
      exact ⟨by simp [h], (List.take_append_drop n s).symm⟩
    · rintro ⟨rfl, rfl⟩
      simp
  · rename_i h
    simp only [Prod.mk.injEq, reduceCtorEq, false_and, false_iff, not_and]
    rintro rfl rfl
    simp at h

/-- The same read, with its errors named as the caller names them. -/
def mapError {δ : Type} (f : ε → δ) (r : Reader ε α) : Reader δ α := fun s =>
  match r s with
  | (.ok a, rest) => (.ok a, rest)
  | (.error e, rest) => (.error (f e), rest)

theorem run_mapError {δ : Type} (f : ε → δ) (r : Reader ε α) (s : List UInt8) :
    (mapError f r).run s = match r.run s with
      | (.ok a, rest) => (.ok a, rest)
      | (.error e, rest) => (.error (f e), rest) := rfl

theorem run_mapError_ok {δ : Type} (f : ε → δ) (r : Reader ε α) (s rest : List UInt8) (a : α) :
    (mapError f r).run s = (.ok a, rest) ↔ r.run s = (.ok a, rest) := by
  rw [run_mapError]
  rcases r.run s with ⟨res, mid⟩
  cases res <;> simp

/-- The read ends in an error, wherever it stops. -/
def Fails (r : Reader ε α) (s : List UInt8) : Prop := ∃ e, (r.run s).1 = .error e

/-- A sequence fails in its first read, or in the second on what the first one left. -/
theorem fails_bind (r : Reader ε α) (k : α → Reader ε β) (s : List UInt8) :
    (r >>= k).Fails s ↔ r.Fails s ∨ ∃ a mid, r.run s = (.ok a, mid) ∧ (k a).Fails mid := by
  unfold Fails
  rw [run_bind]
  rcases r.run s with ⟨res, mid⟩
  cases res <;> simp

@[simp] theorem fails_pure (a : α) (s : List UInt8) : ¬ (pure a : Reader ε α).Fails s := by
  simp [Fails]

@[simp] theorem fails_fail (e : ε) (s : List UInt8) : (fail e : Reader ε α).Fails s := ⟨e, rfl⟩

theorem fails_octet (eof : ε) (s : List UInt8) : (octet eof).Fails s ↔ s = [] := by
  cases s <;> simp [Fails]

theorem fails_exactly (eof : ε) (n : Nat) (s : List UInt8) :
    (exactly eof n).Fails s ↔ s.length < n := by
  change (∃ e, (if n ≤ s.length then ((.ok (s.take n) : Except ε _), s.drop n) else
    (.error eof, [])).1 = .error e) ↔ _
  split
  · simp
    omega
  · simp
    omega

/-- The error of a sequence is the one of the read that failed. -/
theorem bind_error (r : Reader ε α) (k : α → Reader ε β) (s : List UInt8) (e : ε) :
    ((r >>= k).run s).1 = .error e ↔
      (r.run s).1 = .error e ∨ ∃ a mid, r.run s = (.ok a, mid) ∧ ((k a).run mid).1 = .error e := by
  rw [run_bind]
  rcases r.run s with ⟨res, mid⟩
  cases res <;> simp

theorem mapError_error {δ : Type} (f : ε → δ) (r : Reader ε α) (s : List UInt8) (e : δ) :
    ((mapError f r).run s).1 = .error e ↔ ∃ cause, (r.run s).1 = .error cause ∧ f cause = e := by
  rw [run_mapError]
  rcases r.run s with ⟨res, rest⟩
  cases res <;> simp

theorem fails_mapError {δ : Type} (f : ε → δ) (r : Reader ε α) (s : List UInt8) :
    (mapError f r).Fails s ↔ r.Fails s := by
  unfold Fails
  rw [run_mapError]
  rcases r.run s with ⟨res, rest⟩
  cases res <;> simp

end Reader

/-- A write onto a stream that takes every octet: its result, and the octets put there. -/
def Sink (ε α : Type) := Except ε α × List UInt8

namespace Sink

protected def pure (a : α) : Sink ε α := (.ok a, [])

protected def bind (w : Sink ε α) (k : α → Sink ε β) : Sink ε β :=
  match w with
  | (.ok a, out) => ((k a).1, out ++ (k a).2)
  | (.error e, out) => (.error e, out)

instance : Monad (Sink ε) where
  pure := Sink.pure
  bind := Sink.bind

def fail (e : ε) : Sink ε α := (.error e, [])

def writeAll (bs : List UInt8) : Sink ε Unit := (.ok (), bs)

/-- A sequence of writes finishes exactly when each of them does. -/
theorem bind_ok (w : Sink ε Unit) (k : Unit → Sink ε Unit) :
    (w >>= k).1 = .ok () ↔ w.1 = .ok () ∧ (k ()).1 = .ok () := by
  change (Sink.bind w k).1 = _ ↔ _
  obtain ⟨res, out⟩ := w
  cases res <;> simp [Sink.bind]

/-- The same write, with its errors named as the caller names them. -/
def mapError {δ : Type} (f : ε → δ) (w : Sink ε α) : Sink δ α := (w.1.mapError f, w.2)

/-- What the stream holds after the write. -/
def octets (w : Sink ε α) : List UInt8 := w.2

@[simp] theorem octets_fail (e : ε) : (fail e : Sink ε α).octets = [] := rfl

/-- What is put first stays there, however the rest ends. -/
theorem writeAll_bind (bs : List UInt8) (k : Unit → Sink ε β) :
    (writeAll bs >>= k) = ((k ()).1, bs ++ (k ()).octets) := rfl

/-- The write finished, having put exactly `bs` there. -/
def Wrote (w : Sink ε Unit) (bs : List UInt8) : Prop := w = (.ok (), bs)

theorem wrote_all (bs : List UInt8) : Wrote (writeAll bs : Sink ε Unit) bs := rfl

/-- Finished writes put their octets one after the other. -/
theorem Wrote.bind {w : Sink ε Unit} {k : Unit → Sink ε Unit} {a b : List UInt8}
    (hw : Wrote w a) (hk : Wrote (k ()) b) : Wrote (w >>= k) (a ++ b) := by
  change Sink.bind w k = _
  rw [hw]
  simp only [Sink.bind]
  rw [hk]

theorem Wrote.bind_octets {w : Sink ε Unit} {k : Unit → Sink ε Unit} {bs : List UInt8} (hw : Wrote w bs) :
    (w >>= k).octets = bs ++ (k ()).octets := by
  rw [hw]
  rfl

/-- What follows a failed write is not written. -/
theorem failed_bind_octets {w : Sink ε Unit} {k : Unit → Sink ε Unit} {e : ε} (hw : w.1 = .error e) :
    (w >>= k).octets = w.octets := by
  obtain ⟨res, out⟩ := w
  cases hw
  rfl

theorem wrote_mapError {δ : Type} {f : ε → δ} {w : Sink ε Unit} {bs : List UInt8} :
    (mapError f w).Wrote bs ↔ w.Wrote bs := by
  obtain ⟨res, out⟩ := w
  change ((res.mapError f, out) : Except δ Unit × List UInt8) = (.ok (), bs) ↔
    ((res, out) : Except ε Unit × List UInt8) = (.ok (), bs)
  cases res <;> simp [Except.mapError]

theorem Wrote.octets {w : Sink ε Unit} {bs : List UInt8} (h : Wrote w bs) : w.octets = bs := by
  rw [h]; rfl

theorem Wrote.ok {w : Sink ε Unit} {bs : List UInt8} (h : Wrote w bs) : w.1 = .ok () := by
  rw [h]

end Sink

open Reader

/-- `r` accepts exactly the frames of the values in `P`, and takes nothing after the frame. -/
def Exact (r : Reader ε α) (P : α → Prop) (frame : α → List UInt8) : Prop :=
  ∀ s x rest, r.run s = (.ok x, rest) ↔ P x ∧ s = frame x ++ rest

namespace Exact

variable {r : Reader ε α} {P : α → Prop} {frame : α → List UInt8}

/-- A frame followed by anything reads back as its value, and what follows is untouched. -/
theorem reads (h : Exact r P frame) {x : α} (hx : P x) (tail : List UInt8) :
    r.run (frame x ++ tail) = (.ok x, tail) :=
  (h _ _ _).mpr ⟨hx, rfl⟩

/-- No frame is the beginning of another one. -/
theorem prefix_free (h : Exact r P frame) {x y : α} (hx : P x) (hy : P y)
    (hp : frame x <+: frame y) : x = y := by
  obtain ⟨tail, ht⟩ := hp
  have hreadx := h.reads hx tail
  have hready := h.reads hy []
  rw [List.append_nil, ← ht, hreadx] at hready
  exact Except.ok.inj (Prod.mk.inj hready).1

end Exact

/-- Octets as a number, high octet first. -/
def fromBe (bs : List UInt8) : Nat := bs.foldl (fun n b => n * 256 + b.toNat) 0

/-- A number below 2 to the 16 as two octets, high octet first. -/
def beU16 (n : Nat) : List UInt8 := [UInt8.ofNat (n / 256), UInt8.ofNat (n % 256)]

@[simp] theorem beU16_length (n : Nat) : (beU16 n).length = 2 := rfl

theorem fromBe_beU16 (n : Nat) (h : n ≤ 65535) : fromBe (beU16 n) = n := by
  have hd : n / 256 < 256 := by omega
  have hm : n % 256 < 256 := by omega
  simp only [fromBe, beU16, List.foldl_cons, List.foldl_nil, UInt8.toNat_ofNat', Nat.reducePow,
    Nat.mod_eq_of_lt hd, Nat.mod_eq_of_lt hm]
  omega

/-- Two octets are the number they spell, and only that one. -/
theorem beU16_fromBe (bs : List UInt8) (h : bs.length = 2) :
    fromBe bs ≤ 65535 ∧ beU16 (fromBe bs) = bs := by
  match bs, h with
  | [hi, lo], _ =>
    have hh := hi.toNat_lt
    have hl := lo.toNat_lt
    have hdiv : (hi.toNat * 256 + lo.toNat) / 256 = hi.toNat := by omega
    have hmod : (hi.toNat * 256 + lo.toNat) % 256 = lo.toNat := by omega
    refine ⟨by simp [fromBe]; omega, ?_⟩
    simp [beU16, fromBe, hdiv, hmod]

/-- A number below 2 to the 32 as four octets, high octet first. -/
def beU32 (n : Nat) : List UInt8 := beU16 (n / 65536) ++ beU16 (n % 65536)

@[simp] theorem beU32_length (n : Nat) : (beU32 n).length = 4 := rfl

theorem fromBe_append (hi lo : List UInt8) (h : lo.length = 2) :
    fromBe (hi ++ lo) = fromBe hi * 65536 + fromBe lo := by
  match lo, h with
  | [a, b], _ =>
    simp only [fromBe, List.foldl_append, List.foldl_cons, List.foldl_nil]
    omega

theorem fromBe_beU32 (n : Nat) (h : n ≤ 4294967295) : fromBe (beU32 n) = n := by
  rw [beU32, fromBe_append _ _ (beU16_length _), fromBe_beU16 _ (by omega), fromBe_beU16 _ (by omega)]
  omega

/-- Four octets are the number they spell, and only that one. -/
theorem beU32_fromBe (bs : List UInt8) (h : bs.length = 4) :
    fromBe bs ≤ 4294967295 ∧ beU32 (fromBe bs) = bs := by
  match bs, h with
  | [a, b, c, d], _ =>
    obtain ⟨hhi, hab⟩ := beU16_fromBe [a, b] rfl
    obtain ⟨hlo, hcd⟩ := beU16_fromBe [c, d] rfl
    have hsum : fromBe [a, b, c, d] = fromBe [a, b] * 65536 + fromBe [c, d] := fromBe_append [a, b] [c, d] rfl
    have hdiv : (fromBe [a, b] * 65536 + fromBe [c, d]) / 65536 = fromBe [a, b] := by omega
    have hmod : (fromBe [a, b] * 65536 + fromBe [c, d]) % 65536 = fromBe [c, d] := by omega
    rw [hsum]
    refine ⟨by omega, ?_⟩
    rw [beU32, hdiv, hmod, hab, hcd]
    rfl

def readU16 (eof : ε) : Reader ε Nat := do
  let bs ← exactly eof 2
  pure (fromBe bs)

theorem readU16_exact (eof : ε) : Exact (readU16 eof) (· ≤ 65535) beU16 := by
  intro s n rest
  simp only [readU16, run_bind_ok, run_exactly_ok, run_pure_ok]
  constructor
  · rintro ⟨bs, mid, ⟨hlen, rfl⟩, rfl, rfl⟩
    obtain ⟨hle, hbs⟩ := beU16_fromBe bs hlen
    exact ⟨hle, by rw [hbs]⟩
  · rintro ⟨hn, rfl⟩
    exact ⟨beU16 n, rest, ⟨rfl, rfl⟩, fromBe_beU16 n hn, rfl⟩

theorem fails_readU16 (eof : ε) (s : List UInt8) : (readU16 eof).Fails s ↔ s.length < 2 := by
  simp [readU16, fails_bind, fails_exactly]

/-- The octets of a text. -/
def utf8 (s : String) : List UInt8 := s.toUTF8.data.toList

/-- The text some octets spell, if they spell one. -/
def fromUtf8? (bs : List UInt8) : Option String := String.fromUTF8? ⟨bs.toArray⟩

/-- Octets spell a text in one way only, and a text has one spelling. -/
theorem fromUtf8?_eq_some (bs : List UInt8) (s : String) : fromUtf8? bs = some s ↔ utf8 s = bs := by
  unfold fromUtf8? String.fromUTF8?
  split
  · constructor
    · intro h; cases h; simp [utf8, String.fromUTF8]
    · intro h; subst h; simp [utf8, String.fromUTF8]
  · rename_i hv
    simp only [reduceCtorEq, false_iff]
    intro h
    subst h
    exact hv s.isValidUTF8

theorem utf8_append (a b : String) : utf8 (a ++ b) = utf8 a ++ utf8 b := by
  simp [utf8]

/-- No character takes more than four octets. -/
theorem utf8_ofList_length_le (cs : List Char) : (utf8 (String.ofList cs)).length ≤ 4 * cs.length := by
  induction cs with
  | nil => simp [utf8]
  | cons c cs ih =>
    have hc : (utf8 (String.singleton c)).length = c.utf8Size := String.utf8ByteSize_singleton
    have h4 := c.utf8Size_le_four
    rw [String.ofList_cons, utf8_append, List.length_append, List.length_cons, hc]
    omega

/-- Every character takes at least one. -/
theorem length_le_utf8_ofList (cs : List Char) : cs.length ≤ (utf8 (String.ofList cs)).length := by
  induction cs with
  | nil => exact Nat.zero_le _
  | cons c cs ih =>
    have hc : (utf8 (String.singleton c)).length = c.utf8Size := String.utf8ByteSize_singleton
    have hpos := c.utf8Size_pos
    rw [String.ofList_cons, utf8_append, List.length_append, List.length_cons, hc]
    omega

end Octets
