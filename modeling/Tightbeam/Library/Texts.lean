import Mathlib.Data.List.Basic

/-!
# Text operations of the standard library

Splitting at one character or at an octet offset, cutting lines, trimming, dropping a suffix, and reading a
decimal number, over the characters of a text.
-/
namespace Texts

/-- Split at the first `c`, which neither half keeps. -/
def splitAtFirst (c : Char) : List Char → Option (List Char × List Char)
  | [] => none
  | x :: xs => if x = c then some ([], xs) else (splitAtFirst c xs).map fun p => (x :: p.1, p.2)

/-- Split at the last `c`, which neither half keeps. -/
def splitAtLast (c : Char) (xs : List Char) : Option (List Char × List Char) :=
  (splitAtFirst c xs.reverse).map fun p => (p.2.reverse, p.1.reverse)

def splitOnce (s : String) (c : Char) : Option (String × String) :=
  (splitAtFirst c s.toList).map fun p => (String.ofList p.1, String.ofList p.2)

def rsplitOnce (s : String) (c : Char) : Option (String × String) :=
  (splitAtLast c s.toList).map fun p => (String.ofList p.1, String.ofList p.2)

/-- What a line was before its terminator, its characters collected backwards. -/
def endLine : List Char → List Char
  | '\r' :: line => line.reverse
  | line => line.reverse

def linesFrom (line : List Char) : List Char → List (List Char)
  | [] => if line = [] then [] else [line.reverse]
  | c :: rest => if c = '\n' then endLine line :: linesFrom [] rest else linesFrom (c :: line) rest

/-- The lines of a text: each ends at a line feed, one carriage return before it dropped, and the last
may end with the text. -/
def lines (s : String) : List String := (linesFrom [] s.toList).map String.ofList

/-- The characters Unicode gives the property `White_Space`. -/
def isWhitespace (c : Char) : Bool :=
  (0x09 ≤ c.toNat && c.toNat ≤ 0x0d) || (0x2000 ≤ c.toNat && c.toNat ≤ 0x200a) ||
    c.toNat ∈ [0x20, 0x85, 0xa0, 0x1680, 0x2028, 0x2029, 0x202f, 0x205f, 0x3000]

def trim (s : String) : String :=
  String.ofList ((s.toList.dropWhile isWhitespace).reverse.dropWhile isWhitespace).reverse

/-- The text before `suffix`, when it ends there. -/
def stripSuffix (s suffix : String) : Option String :=
  if suffix.toList <:+ s.toList then
    some (String.ofList (s.toList.take (s.toList.length - suffix.toList.length)))
  else none

def digit? (c : Char) : Option Nat :=
  if '0' ≤ c ∧ c ≤ '9' then some (c.toNat - '0'.toNat) else none

/-- Decimal digits after a value already read, refusing anything above `max`. -/
def digitsFrom (max acc : Nat) : List Char → Option Nat
  | [] => some acc
  | c :: cs => match digit? c with
    | none => none
    | some d => if acc * 10 + d ≤ max then digitsFrom max (acc * 10 + d) cs else none

/-- An unsigned number as `from_str` reads it: an optional `+`, then at least one decimal digit. -/
def parseUnsigned (max : Nat) (s : String) : Option Nat :=
  match s.toList with
  | [] => none
  | ['+'] => none
  | '+' :: cs => digitsFrom max 0 cs
  | cs => digitsFrom max 0 cs

inductive IntErrorKind where
  | Empty | InvalidDigit | PosOverflow
  deriving DecidableEq, Repr

/-- `digitsFrom`, with what stopped it. -/
def digitsOr (max acc : Nat) : List Char → Except IntErrorKind Nat
  | [] => .ok acc
  | c :: cs => match digit? c with
    | none => .error .InvalidDigit
    | some d => if acc * 10 + d ≤ max then digitsOr max (acc * 10 + d) cs else .error .PosOverflow

/-- `parseUnsigned`, with what stopped it. -/
def parseInt (max : Nat) (s : String) : Except IntErrorKind Nat :=
  match s.toList with
  | [] => .error .Empty
  | ['+'] => .error .InvalidDigit
  | '+' :: cs => digitsOr max 0 cs
  | cs => digitsOr max 0 cs

theorem digitsOr_toOption (max acc : Nat) (cs : List Char) :
    (digitsOr max acc cs).toOption = digitsFrom max acc cs := by
  induction cs generalizing acc with
  | nil => rfl
  | cons c cs ih =>
    rw [digitsOr, digitsFrom]
    cases digit? c with
    | none => rfl
    | some d =>
      by_cases h : acc * 10 + d ≤ max
      · simpa only [h, if_true] using ih (acc * 10 + d)
      · simp only [h, if_false]
        rfl

theorem parseInt_toOption (max : Nat) (s : String) : (parseInt max s).toOption = parseUnsigned max s := by
  unfold parseInt parseUnsigned
  split
  · rfl
  · rfl
  · exact digitsOr_toOption max 0 _
  · exact digitsOr_toOption max 0 _

/-- The octets these characters take in UTF-8. -/
def byteLen : List Char → Nat
  | [] => 0
  | c :: cs => c.utf8Size + byteLen cs

theorem byteLen_append (xs ys : List Char) : byteLen (xs ++ ys) = byteLen xs + byteLen ys := by
  induction xs with
  | nil => simp [byteLen]
  | cons x xs ih =>
    simp only [List.cons_append, byteLen, ih]
    omega

/-- Split at an octet offset, or nothing where `split_at` panics: inside a character or past the end. -/
def splitAtByte (mid : Nat) : List Char → Option (List Char × List Char)
  | [] => if mid = 0 then some ([], []) else none
  | c :: cs =>
    if mid = 0 then some ([], c :: cs)
    else if c.utf8Size ≤ mid then (splitAtByte (mid - c.utf8Size) cs).map fun p => (c :: p.1, p.2)
    else none

theorem splitAtByte_append (pre post : List Char) :
    splitAtByte (byteLen pre) (pre ++ post) = some (pre, post) := by
  induction pre with
  | nil => cases post <;> rfl
  | cons c pre ih =>
    have hpos : 0 < c.utf8Size := c.utf8Size_pos
    have hrest : c.utf8Size + byteLen pre - c.utf8Size = byteLen pre := by omega
    rw [List.cons_append, splitAtByte, byteLen, if_neg (by omega), if_pos (by omega), hrest, ih]
    rfl

theorem splitAtByte_some {mid : Nat} {cs pre post : List Char}
    (h : splitAtByte mid cs = some (pre, post)) : cs = pre ++ post ∧ byteLen pre = mid := by
  induction cs generalizing mid pre with
  | nil =>
    rw [splitAtByte] at h
    split at h
    · cases h
      exact ⟨rfl, by simp [byteLen, *]⟩
    · cases h
  | cons c cs ih =>
    rw [splitAtByte] at h
    split at h
    · cases h
      exact ⟨rfl, by simp [byteLen, *]⟩
    · split at h
      · obtain ⟨⟨front, back⟩, hsplit, hpair⟩ := Option.map_eq_some_iff.mp h
        cases hpair
        obtain ⟨rfl, hlen⟩ := ih hsplit
        refine ⟨rfl, ?_⟩
        rw [byteLen, hlen]
        omega
      · cases h

/-- One octet before the end, a text splits exactly when its last character takes one. -/
theorem splitAtByte_last (cs : List Char) (c : Char) :
    splitAtByte (byteLen (cs ++ [c]) - 1) (cs ++ [c]) = if c.utf8Size = 1 then some (cs, [c]) else none := by
  have hlen : byteLen (cs ++ [c]) = byteLen cs + c.utf8Size := by
    rw [byteLen_append]
    simp [byteLen]
  have hpos : 0 < c.utf8Size := c.utf8Size_pos
  split
  · rename_i hone
    have hmid : byteLen (cs ++ [c]) - 1 = byteLen cs := by omega
    rw [hmid]
    exact splitAtByte_append cs [c]
  · rename_i hmore
    cases hsplit : splitAtByte (byteLen (cs ++ [c]) - 1) (cs ++ [c]) with
    | none => rfl
    | some p =>
      obtain ⟨happend, hfront⟩ := splitAtByte_some hsplit
      have hbegins : p.1 <+: cs ++ [c] := ⟨p.2, happend.symm⟩
      rcases List.prefix_concat_iff.mp hbegins with hall | ⟨rest, hrest⟩
      · rw [hall] at hfront
        omega
      · have hle : byteLen p.1 + byteLen rest = byteLen cs := by rw [← byteLen_append, hrest]
        omega

theorem splitAtFirst_some {c : Char} {xs a b : List Char} :
    splitAtFirst c xs = some (a, b) ↔ xs = a ++ c :: b ∧ c ∉ a := by
  induction xs generalizing a with
  | nil => simp [splitAtFirst]
  | cons x xs ih =>
    rw [splitAtFirst]
    by_cases hx : x = c
    · subst hx
      constructor
      · intro h
        simp only [if_true, Option.some.injEq, Prod.mk.injEq] at h
        obtain ⟨rfl, rfl⟩ := h
        exact ⟨rfl, List.not_mem_nil⟩
      · intro h
        obtain ⟨happend, hnot⟩ := h
        cases a with
        | nil => simpa using happend
        | cons y a => simp_all
    · rw [if_neg hx, Option.map_eq_some_iff]
      constructor
      · intro h
        obtain ⟨⟨front, back⟩, hsplit, hpair⟩ := h
        cases hpair
        obtain ⟨rfl, hnot⟩ := ih.mp hsplit
        refine ⟨rfl, ?_⟩
        simp [Ne.symm hx, hnot]
      · intro h
        obtain ⟨happend, hnot⟩ := h
        cases a with
        | nil => simp_all
        | cons y a =>
          simp only [List.cons_append, List.cons.injEq] at happend
          obtain ⟨rfl, hrest⟩ := happend
          refine ⟨(a, b), ih.mpr ⟨hrest, ?_⟩, rfl⟩
          intro hmem
          exact hnot (List.mem_cons_of_mem x hmem)

theorem splitAtLast_some {c : Char} {xs a b : List Char} :
    splitAtLast c xs = some (a, b) ↔ xs = a ++ c :: b ∧ c ∉ b := by
  have hreverse : xs = a ++ c :: b ↔ xs.reverse = b.reverse ++ c :: a.reverse := by
    rw [← List.reverse_inj]
    simp
  rw [hreverse, ← List.mem_reverse, ← splitAtFirst_some, splitAtLast]
  cases splitAtFirst c xs.reverse with
  | none => simp
  | some p =>
    have hswap : ∀ xs ys : List Char, xs.reverse = ys ↔ xs = ys.reverse := fun _ _ =>
      List.reverse_eq_iff
    simp only [Option.map_some, Option.some.injEq, Prod.ext_iff, hswap]
    exact And.comm

theorem toList_split {s a b : String} {c : Char} :
    s = a ++ String.singleton c ++ b ↔ s.toList = a.toList ++ c :: b.toList := by
  rw [← String.toList_inj]
  simp

theorem splitOnce_some {s a b : String} {c : Char} :
    splitOnce s c = some (a, b) ↔ s = a ++ String.singleton c ++ b ∧ c ∉ a.toList := by
  rw [toList_split, ← splitAtFirst_some, splitOnce, Option.map_eq_some_iff]
  constructor
  · intro h
    obtain ⟨⟨front, back⟩, hsplit, hpair⟩ := h
    cases hpair
    simpa using hsplit
  · intro h
    exact ⟨_, h, by simp⟩

theorem rsplitOnce_some {s a b : String} {c : Char} :
    rsplitOnce s c = some (a, b) ↔ s = a ++ String.singleton c ++ b ∧ c ∉ b.toList := by
  rw [toList_split, ← splitAtLast_some, rsplitOnce, Option.map_eq_some_iff]
  constructor
  · intro h
    obtain ⟨⟨front, back⟩, hsplit, hpair⟩ := h
    cases hpair
    simpa using hsplit
  · intro h
    exact ⟨_, h, by simp⟩

theorem stripSuffix_some {s suffix base : String} :
    stripSuffix s suffix = some base ↔ s = base ++ suffix := by
  unfold stripSuffix
  constructor
  · intro h
    obtain ⟨hsuffix, hbase⟩ := Option.ite_none_right_eq_some.mp h
    cases hbase
    obtain ⟨front, hfront⟩ := hsuffix
    rw [← String.toList_inj]
    simp [← hfront]
  · intro h
    subst h
    simp

/-- Digits are read as far as the end, so nothing but a digit stands among them. -/
theorem digitsFrom_chars {max acc n : Nat} {cs : List Char} (h : digitsFrom max acc cs = some n) :
    ∀ c ∈ cs, (digit? c).isSome := by
  induction cs generalizing acc with
  | nil => simp
  | cons d cs ih =>
    rw [digitsFrom] at h
    cases hdigit : digit? d with
    | none => simp [hdigit] at h
    | some value =>
      simp only [hdigit] at h
      split at h
      · intro c hc
        rcases List.mem_cons.mp hc with rfl | hc
        · simp [hdigit]
        · exact ih h c hc
      · cases h

theorem parseUnsigned_chars {max n : Nat} {s : String} (h : parseUnsigned max s = some n) :
    ∀ c ∈ s.toList, c = '+' ∨ (digit? c).isSome := by
  unfold parseUnsigned at h
  split at h
  · cases h
  · cases h
  · rename_i cs hne heq
    intro c hc
    rw [heq] at hc
    rcases List.mem_cons.mp hc with rfl | hc
    · exact .inl rfl
    · exact .inr (digitsFrom_chars h c hc)
  · intro c hc
    exact .inr (digitsFrom_chars h c hc)

end Texts
