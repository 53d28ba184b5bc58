import Mathlib.Data.List.Basic

/-!
# One place of a list

A state that keeps its parties in a list is changed at one place at a time: the party there is
replaced or leaves. These split the list at that place, and say where a single item can lie.
-/
namespace Places

variable {α β : Type}

/-- What is before and after the place `i`, and the list with that place replaced or gone. -/
theorem split_at {l : List α} {i : Nat} {a : α} (h : l[i]? = some a) :
    ∃ before after, l = before ++ a :: after ∧ l.eraseIdx i = before ++ after ∧
      ∀ b, l.set i b = before ++ b :: after := by
  induction l generalizing i with
  | nil => cases h
  | cons x l ih =>
    cases i with
    | zero =>
      cases h
      exact ⟨[], l, rfl, rfl, fun _ => rfl⟩
    | succ i =>
      obtain ⟨before, after, hl, herase, hset⟩ := ih h
      refine ⟨x :: before, after, ?_, ?_, ?_⟩
      · rw [hl]
        rfl
      · rw [List.eraseIdx_cons_succ, herase]
        rfl
      · intro b
        rw [List.set_cons_succ, hset]
        rfl

/-- A single item that lies at one place lies nowhere else. -/
theorem single_at {before after : List β} {items : List β} {b : β} (hitems : items ≠ [])
    (h : before ++ (items ++ after) = [b]) : before = [] ∧ items = [b] ∧ after = [] := by
  cases before with
  | nil =>
    cases items with
    | nil => exact absurd rfl hitems
    | cons c items =>
      obtain ⟨rfl, hrest⟩ := List.cons.inj h
      obtain ⟨rfl, rfl⟩ := List.append_eq_nil_iff.1 hrest
      exact ⟨rfl, rfl, rfl⟩
  | cons c before =>
    have hrest := (List.cons.inj h).2
    have hitems' := (List.append_eq_nil_iff.1 (List.append_eq_nil_iff.1 hrest).2).1
    exact absurd hitems' hitems

end Places
