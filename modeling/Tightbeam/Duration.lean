import Tightbeam.Library.Checked
import Tightbeam.Library.Texts

/-!
# Lifetimes

The suffixed numbers a capability's expiry is given by: `2h`, `30m`, `90s`. The unit is split off at an
octet offset before anything is checked, and the split panics inside a character: a parse that panics is
`none`.
-/
namespace Tightbeam.Duration

open Texts

def u64Max : Nat := 18446744073709551615

/-- Seconds. A zero span never becomes a lifetime. -/
structure Lifetime where
  seconds : Nat
  positive : 0 < seconds
  bounded : seconds ≤ u64Max
  deriving DecidableEq

inductive LifetimeParseError where
  | BadUnit
  | BadNumber (kind : IntErrorKind)
  | TooLong
  | Zero
  deriving DecidableEq, Repr

def secondsPer (unit : List Char) : Except LifetimeParseError Nat :=
  match unit with
  | ['s'] => .ok 1
  | ['m'] => .ok 60
  | ['h'] => .ok (60 * 60)
  | ['d'] => .ok (24 * 60 * 60)
  | _ => .error .BadUnit

def checkedMul (count per : Nat) : Option Nat := if count * per ≤ u64Max then some (count * per) else none

/-- The span of a count of units that the source's own product admits. -/
def ofCount (count per : Nat) : Except LifetimeParseError Lifetime :=
  match hproduct : checkedMul count per with
  | none => .error .TooLong
  | some seconds =>
    if hzero : seconds = 0 then .error .Zero
    else .ok ⟨seconds, Nat.pos_of_ne_zero hzero, by
      obtain ⟨hle, hseconds⟩ := Option.ite_none_right_eq_some.mp hproduct
      cases hseconds
      exact hle⟩

def parseSplit (digits unit : List Char) : Except LifetimeParseError Lifetime := do
  let per ← secondsPer unit
  let count ← (parseInt u64Max (String.ofList digits)).mapError .BadNumber
  ofCount count per

def fromStr (text : String) : Option (Except LifetimeParseError Lifetime) :=
  (splitAtByte (byteLen text.toList - 1) text.toList).map fun halves => parseSplit halves.1 halves.2

example : (fromStr "2h").map (fun answer => answer.toOption.map Lifetime.seconds) = some (some 7200) := by
  decide

def units : List (Char × Nat) := [('s', 1), ('m', 60), ('h', 3600), ('d', 86400)]

/-- The text is a numeral and then a unit, and they name this many seconds. -/
def Spells (text : String) (seconds : Nat) : Prop :=
  ∃ digits unit count per, text.toList = digits ++ [unit] ∧ (unit, per) ∈ units ∧
    parseUnsigned u64Max (String.ofList digits) = some count ∧ seconds = count * per ∧
    1 ≤ count * per ∧ count * per ≤ u64Max

/-- The text is empty, or its last character is no unit. -/
def NoUnit (text : String) : Prop :=
  text.toList = [] ∨ ∃ digits last, text.toList = digits ++ [last] ∧ ∀ per, (last, per) ∉ units

/-- A text has no character split by cutting its last octet off. -/
def EndsInOneOctet (text : String) : Prop :=
  ∀ digits last, text.toList = digits ++ [last] → last.utf8Size = 1

theorem secondsPer_ok (unit : List Char) (per : Nat) :
    secondsPer unit = .ok per ↔ ∃ c, unit = [c] ∧ (c, per) ∈ units := by
  constructor
  · intro h
    unfold secondsPer at h
    split at h <;> cases h
    · exact ⟨'s', rfl, by decide⟩
    · exact ⟨'m', rfl, by decide⟩
    · exact ⟨'h', rfl, by decide⟩
    · exact ⟨'d', rfl, by decide⟩
  · intro h
    obtain ⟨c, rfl, hunit⟩ := h
    simp only [units, List.mem_cons, Prod.mk.injEq, List.not_mem_nil, or_false] at hunit
    rcases hunit with ⟨rfl, rfl⟩ | ⟨rfl, rfl⟩ | ⟨rfl, rfl⟩ | ⟨rfl, rfl⟩ <;> rfl

theorem secondsPer_error (unit : List Char) (h : ∀ per, secondsPer unit ≠ .ok per) :
    secondsPer unit = .error .BadUnit := by
  unfold secondsPer at h ⊢
  split at h
  all_goals first | rfl | exact absurd rfl (h _)

theorem ofCount_ok (count per : Nat) (lifetime : Lifetime) :
    ofCount count per = .ok lifetime ↔
      lifetime.seconds = count * per ∧ 1 ≤ count * per ∧ count * per ≤ u64Max := by
  obtain ⟨seconds, hpositive, hbounded⟩ := lifetime
  unfold ofCount
  split
  · rename_i hproduct
    have hlong : ¬ count * per ≤ u64Max := by simpa [checkedMul] using hproduct
    simp [hlong]
  · rename_i product hproduct
    obtain ⟨hle, hseconds⟩ := Option.ite_none_right_eq_some.mp hproduct
    cases hseconds
    split
    · rename_i hzero
      simp [hzero]
    · rename_i hzero
      simp only [Except.ok.injEq, Lifetime.mk.injEq]
      omega

theorem parseSplit_ok (digits unit : List Char) (lifetime : Lifetime) :
    parseSplit digits unit = .ok lifetime ↔ ∃ c count per, unit = [c] ∧ (c, per) ∈ units ∧
      parseUnsigned u64Max (String.ofList digits) = some count ∧ lifetime.seconds = count * per ∧
      1 ≤ count * per ∧ count * per ≤ u64Max := by
  have hcount : ∀ count, ((parseInt u64Max (String.ofList digits)).mapError LifetimeParseError.BadNumber =
      .ok count ↔ parseUnsigned u64Max (String.ofList digits) = some count) := by
    intro count
    rw [Checked.mapError_ok, ← parseInt_toOption]
    cases parseInt u64Max (String.ofList digits) <;> simp [Except.toOption]
  simp only [parseSplit, Checked.bind_ok, hcount, ofCount_ok, secondsPer_ok]
  constructor
  · intro h
    obtain ⟨per, ⟨c, hunit, hper⟩, count, hparse, hspan⟩ := h
    exact ⟨c, count, per, hunit, hper, hparse, hspan⟩
  · intro h
    obtain ⟨c, count, per, hunit, hper, hparse, hspan⟩ := h
    exact ⟨per, ⟨c, hunit, hper⟩, count, hparse, hspan⟩

theorem fromStr_empty {text : String} (h : text.toList = []) : fromStr text = some (.error .BadUnit) := by
  rw [fromStr, h]
  rfl

theorem fromStr_last {text : String} {digits : List Char} {last : Char}
    (h : text.toList = digits ++ [last]) :
    fromStr text = if last.utf8Size = 1 then some (parseSplit digits [last]) else none := by
  rw [fromStr, h, splitAtByte_last]
  split <;> rfl

theorem parseSplit_spells {text : String} {digits : List Char} {last : Char}
    (h : text.toList = digits ++ [last]) (lifetime : Lifetime) :
    parseSplit digits [last] = .ok lifetime ↔ Spells text lifetime.seconds := by
  rw [parseSplit_ok]
  constructor
  · intro hparse
    obtain ⟨unit, count, per, hunit, hrest⟩ := hparse
    cases hunit
    exact ⟨digits, last, count, per, h, hrest⟩
  · intro hspells
    obtain ⟨front, unit, count, per, hsplit, hrest⟩ := hspells
    obtain ⟨rfl, hunit⟩ := List.append_inj' (h.symm.trans hsplit) rfl
    exact ⟨unit, count, per, hunit, hrest⟩

theorem parseSplit_noUnit {text : String} {digits : List Char} {last : Char}
    (h : text.toList = digits ++ [last]) (hunit : NoUnit text) :
    parseSplit digits [last] = .error .BadUnit := by
  have hlast : ∀ per, (last, per) ∉ units := by
    rcases hunit with hempty | ⟨front, unit, hsplit, hnone⟩
    · simp [hempty] at h
    · obtain ⟨-, hsame⟩ := List.append_inj' (h.symm.trans hsplit) rfl
      cases hsame
      exact hnone
  have hper : secondsPer [last] = .error .BadUnit := by
    apply secondsPer_error
    intro per hok
    obtain ⟨c, hc, hmem⟩ := (secondsPer_ok [last] per).mp hok
    cases hc
    exact hlast per hmem
  rw [parseSplit, hper]
  rfl

/-- A parse returns, gives a lifetime exactly for a numeral and a unit whose product is neither zero nor
beyond a `u64`, and finds no unit where there is none: exactly when the text is empty or its last
character is one octet. -/
theorem fromStr_exact (text : String) :
    (∃ answer, fromStr text = some answer ∧
      (∀ lifetime, answer = .ok lifetime ↔ Spells text lifetime.seconds) ∧
      (NoUnit text → answer = .error .BadUnit)) ↔ EndsInOneOctet text := by
  constructor
  · intro h digits last hlast
    obtain ⟨answer, hanswer, -⟩ := h
    rw [fromStr_last hlast] at hanswer
    exact (Option.ite_none_right_eq_some.mp hanswer).1
  · intro hone
    rcases List.eq_nil_or_concat text.toList with hempty | ⟨digits, last, hlast⟩
    · refine ⟨.error .BadUnit, fromStr_empty hempty, ?_, fun _ => rfl⟩
      intro lifetime
      have hnone : ¬ Spells text lifetime.seconds := by
        intro hspells
        obtain ⟨digits, unit, _, _, hsplit, -⟩ := hspells
        simp [hempty] at hsplit
      simp [hnone]
    · rw [List.concat_eq_append] at hlast
      refine ⟨parseSplit digits [last], ?_, parseSplit_spells hlast, parseSplit_noUnit hlast⟩
      rw [fromStr_last hlast, if_pos (hone digits last hlast)]

/-- A numeral and a letter of two octets. -/
theorem fromStr_panics : fromStr "2é" = none := by decide

end Tightbeam.Duration
