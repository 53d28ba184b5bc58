import Mathlib.Data.List.Basic

/-!
# Interleavings

Two readers of one queue split it: what left the queue is an interleaving of what either one got.
-/

/-- The third list is the first two, each in its own order. -/
inductive Interleaves {α : Type} : List α → List α → List α → Prop where
  | nil : Interleaves [] [] []
  | left {xs ys zs : List α} (x : α) (h : Interleaves xs ys zs) : Interleaves (x :: xs) ys (x :: zs)
  | right {xs ys zs : List α} (y : α) (h : Interleaves xs ys zs) : Interleaves xs (y :: ys) (y :: zs)

namespace Interleaves

variable {α : Type} {xs ys zs : List α}

theorem symm (h : Interleaves xs ys zs) : Interleaves ys xs zs := by
  induction h with
  | nil => exact .nil
  | left x h ih => exact .right x ih
  | right y h ih => exact .left y ih

theorem lefts (more : List α) : Interleaves more [] more := by
  induction more with
  | nil => exact .nil
  | cons x more ih => exact .left x ih

theorem append_left (h : Interleaves xs ys zs) (more : List α) : Interleaves (xs ++ more) ys (zs ++ more) := by
  induction h with
  | nil => exact lefts more
  | left x h ih => exact .left x ih
  | right y h ih => exact .right y ih

theorem append_right (h : Interleaves xs ys zs) (more : List α) : Interleaves xs (ys ++ more) (zs ++ more) :=
  (h.symm.append_left more).symm

/-- With nothing on the other side there is one order. -/
theorem eq_left (h : Interleaves xs [] zs) : zs = xs := by
  generalize hnone : ([] : List α) = ys at h
  induction h with
  | nil => rfl
  | left x h ih => rw [ih hnone]
  | right y h ih => cases hnone

end Interleaves
