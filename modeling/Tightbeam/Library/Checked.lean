import Mathlib.Data.Finset.Insert
import Mathlib.Data.Finset.Lattice.Lemmas
import Mathlib.Data.List.Forall2

/-!
# Computations that may be refused

Inversion of `Except` computations: what each step of one that succeeded must have returned, and what
a whole fold of checks has collected.
-/
namespace Checked

variable {ε α β σ : Type}

theorem bind_ok {x : Except ε α} {f : α → Except ε β} {b : β} :
    (x >>= f) = .ok b ↔ ∃ a, x = .ok a ∧ f a = .ok b := by
  cases x with
  | error e => simp [bind, Except.bind]
  | ok a => simp [bind, Except.bind]

theorem pure_ok {a b : α} : (pure a : Except ε α) = .ok b ↔ a = b := by
  simp [pure, Except.pure]

theorem map_ok {x : Except ε α} {f : α → β} {b : β} :
    x.map f = .ok b ↔ ∃ a, x = .ok a ∧ f a = b := by
  cases x with
  | error e => simp [Except.map]
  | ok a => simp [Except.map]

theorem mapError_ok {δ : Type} {x : Except ε α} {f : ε → δ} {a : α} :
    x.mapError f = .ok a ↔ x = .ok a := by
  cases x with
  | error e => simp [Except.mapError]
  | ok a => simp [Except.mapError]

theorem foldlM_nil_ok {step : σ → α → Except ε σ} {s t : σ} :
    [].foldlM step s = .ok t ↔ s = t := by
  simp [pure_ok]

theorem foldlM_cons_ok {step : σ → α → Except ε σ} {a : α} {l : List α} {s t : σ} :
    (a :: l).foldlM step s = .ok t ↔ ∃ s', step s a = .ok s' ∧ l.foldlM step s' = .ok t := by
  rw [List.foldlM_cons, bind_ok]

/-- A fold over checked values fails exactly when one of them is an error. -/
theorem foldlM_map_error (g : σ → α → σ) (reads : List (Except ε α)) (s : σ) :
    (∃ e, reads.foldlM (fun s read => read.map (g s)) s = .error e) ↔ ∃ e, .error e ∈ reads := by
  induction reads generalizing s with
  | nil => simp [pure, Except.pure]
  | cons read rest ih =>
    cases read with
    | error e => simp [List.foldlM_cons, Except.map, bind, Except.bind]
    | ok a => simpa [List.foldlM_cons, Except.map, bind, Except.bind] using ih (g s a)

theorem forall₂_append_left {R : α → β → Prop} {l m : List α} {u : List β}
    (h : List.Forall₂ R (l ++ m) u) : ∃ v w, List.Forall₂ R l v ∧ List.Forall₂ R m w ∧ u = v ++ w := by
  induction l generalizing u with
  | nil => exact ⟨[], u, .nil, h, rfl⟩
  | cons a l ih =>
    cases h with
    | cons hab hrest =>
      obtain ⟨v, w, hv, hw, rfl⟩ := ih hrest
      exact ⟨_ :: v, w, .cons hab hv, hw, rfl⟩

theorem forall₂_mem_right {R : α → β → Prop} {l : List α} {u : List β} (h : List.Forall₂ R l u) {b : β}
    (hb : b ∈ u) : ∃ a ∈ l, R a b := by
  induction h with
  | nil => cases hb
  | cons hab hrest ih =>
    cases hb with
    | head => exact ⟨_, List.mem_cons_self, hab⟩
    | tail _ hb =>
      obtain ⟨a, ha, hR⟩ := ih hb
      exact ⟨a, List.mem_cons_of_mem _ ha, hR⟩

/-- A fold that checks each item and keeps it has checked them all and kept exactly them. -/
theorem foldlM_insert_ok [DecidableEq α] {step : Finset α → α → Except ε (Finset α)} {P : α → Prop}
    (hstep : ∀ s a t, step s a = .ok t ↔ P a ∧ t = insert a s) {l : List α} {s t : Finset α} :
    l.foldlM step s = .ok t ↔ (∀ a ∈ l, P a) ∧ t = s ∪ l.toFinset := by
  induction l generalizing s with
  | nil =>
    rw [foldlM_nil_ok]
    simp [eq_comm]
  | cons a l ih =>
    rw [foldlM_cons_ok]
    constructor
    · intro h
      obtain ⟨s', hs, hl⟩ := h
      obtain ⟨ha, rfl⟩ := (hstep s a s').1 hs
      obtain ⟨hrest, rfl⟩ := ih.1 hl
      refine ⟨by simpa using ⟨ha, hrest⟩, ?_⟩
      simp [Finset.insert_union, Finset.union_insert]
    · intro h
      obtain ⟨hall, rfl⟩ := h
      have hrest : ∀ b ∈ l, P b := fun b hb => hall b (List.mem_cons_of_mem a hb)
      refine ⟨insert a s, (hstep s a _).2 ⟨hall a List.mem_cons_self, rfl⟩, ih.2 ⟨hrest, ?_⟩⟩
      simp [Finset.insert_union, Finset.union_insert]

end Checked
