import Mathlib.Tactic.Common

/-!
# Waiting on a notifier that stores no permit

A parker registers with the notifier first, then looks at what it waits for, and returns pending only
when it found nothing. The notifier wakes the waiters that are registered and remembers nothing. A
parker that was not woken has nothing to find, or its waker is on the way.
-/
namespace Waiting

/-- The future of one wake: made, polled and so registered, or fired. -/
inductive Notified where
  | Made | Registered | Fired
  deriving DecidableEq, Repr

/-- Where a poll stands. `fired` is whether its future was ready when it was polled. -/
inductive Stage where
  | Out (pending : Bool)
  | Top
  | Made
  | Registered (fired : Bool)
  | Looked (fired : Bool)
  deriving DecidableEq, Repr

def Stage.isOut : Stage → Bool
  | .Out _ => true
  | .Top => false
  | .Made => false
  | .Registered _ => false
  | .Looked _ => false

/-- A parker: its poll's stage, the future it keeps across polls, and whether its waker was called since
its last poll began. -/
structure Parker where
  stage : Stage
  parked : Option Notified
  woken : Bool
  deriving DecidableEq, Repr

namespace Parker

def new : Parker := ⟨.Out false, none, false⟩

def begin (w : Parker) : Parker := { w with stage := .Top, woken := false }

/-- Keep the future, or make one. -/
def make (w : Parker) : Parker := { w with stage := .Made, parked := w.parked.or (some .Made) }

/-- Poll the future: one that has fired is let go, and any other is registered. -/
def register (w : Parker) : Parker :=
  if w.parked = some .Fired then { w with stage := .Registered true, parked := none }
  else { w with stage := .Registered false, parked := some .Registered }

/-- The look: what was found ends the poll and drops the future. -/
def look (w : Parker) (fired found : Bool) : Parker :=
  if found then { w with stage := .Out false, parked := none } else { w with stage := .Looked fired }

/-- Go round again when the future had fired, and return pending when it had not. -/
def leave (w : Parker) (fired : Bool) : Parker :=
  { w with stage := if fired then .Top else .Out true }

/-- A parker's next step. -/
def advance (w : Parker) (found : Bool) : Parker :=
  match w.stage with
  | .Out _ => w.begin
  | .Top => w.make
  | .Made => w.register
  | .Registered fired => w.look fired found
  | .Looked fired => w.leave fired

/-- The notifier's wake. A future that is made and not yet polled may count as waiting or not. -/
def notified (w : Parker) (made : Bool) : Parker :=
  match w.parked with
  | some .Registered => { w with parked := some .Fired, woken := true }
  | some .Made => { w with parked := some (if made then .Fired else .Made) }
  | some .Fired => w
  | none => w

/-- What holds of a parker at every moment: `edge` is that there is nothing to find, and `owed` that a wake
is on the way. -/
def Safe (owed edge : Prop) (w : Parker) : Prop :=
  match w.stage with
  | .Out true => w.woken = false → w.parked = some .Registered ∧ (edge ∨ owed)
  | .Looked false => w.woken = false → w.parked = some .Registered ∧ (edge ∨ owed)
  | .Registered false => w.woken = false → w.parked = some .Registered
  | .Registered true => w.parked = none
  | .Looked true => w.parked = none
  | .Out false => True
  | .Top => True
  | .Made => True

/-- The steps a poll still takes at most, when no wake comes. -/
def left (w : Parker) : Nat :=
  match w.stage with
  | .Out _ => 0
  | .Looked false => 1
  | .Registered false => 2
  | .Made => if w.parked = some .Fired then 7 else 3
  | .Top => if w.parked = some .Fired then 8 else 4
  | .Looked true => 5
  | .Registered true => 6

variable {w : Parker} {owed edge owed' edge' : Prop}

theorem new_safe : new.Safe owed edge := trivial

/-- More may be owed, and what there is nothing of may turn into something owed. -/
theorem Safe.mono (h : w.Safe owed edge) (hstill : edge ∨ owed → edge' ∨ owed') : w.Safe owed' edge' := by
  obtain ⟨stage, parked, woken⟩ := w
  cases stage with
  | Out pending =>
    cases pending with
    | false => exact trivial
    | true =>
      intro hasleep
      obtain ⟨hparked, hwhy⟩ := h hasleep
      exact ⟨hparked, hstill hwhy⟩
  | Looked fired =>
    cases fired with
    | true => exact h
    | false =>
      intro hasleep
      obtain ⟨hparked, hwhy⟩ := h hasleep
      exact ⟨hparked, hstill hwhy⟩
  | Registered fired =>
    cases fired with
    | true => exact h
    | false => exact h
  | Top => exact trivial
  | Made => exact trivial

/-- Before its look a parker knows nothing of the edge. -/
theorem Safe.unlooked (h : w.Safe owed edge) {fired : Bool} (hstage : w.stage = .Registered fired) :
    w.Safe owed edge' := by
  cases fired with
  | true => simpa only [Safe, hstage] using h
  | false => simpa only [Safe, hstage] using h

/-- A step keeps it, when a look that finds nothing is at the edge. -/
theorem Safe.advance (h : w.Safe owed edge) {found : Bool}
    (hlook : ∀ fired, w.stage = .Registered fired → found = false → edge) : (w.advance found).Safe owed edge := by
  obtain ⟨stage, parked, woken⟩ := w
  cases stage with
  | Out pending => exact trivial
  | Top => exact trivial
  | Made =>
    simp only [Parker.advance, register]
    split_ifs with hfired
    · rfl
    · exact fun _ => rfl
  | Registered fired =>
    cases found with
    | true => exact trivial
    | false =>
      have hedge := hlook fired rfl rfl
      cases fired with
      | true => exact h
      | false => exact fun hasleep => ⟨h hasleep, .inl hedge⟩
  | Looked fired =>
    cases fired with
    | true => exact trivial
    | false => exact h

@[simp] theorem notified_stage (w : Parker) (made : Bool) : (w.notified made).stage = w.stage := by
  obtain ⟨stage, parked, woken⟩ := w
  cases parked with
  | none => rfl
  | some future => cases future <;> rfl

/-- A registered parker is woken, and one that was woken stays so. -/
theorem notified_woken (made : Bool) (h : w.woken = false → w.parked = some .Registered) :
    (w.notified made).woken = true := by
  obtain ⟨stage, parked, woken⟩ := w
  cases woken with
  | false =>
    obtain rfl : parked = some .Registered := h rfl
    rfl
  | true =>
    cases parked with
    | none => rfl
    | some future => cases future <;> rfl

theorem notified_none (made : Bool) (h : w.parked = none) : w.notified made = w := by
  obtain ⟨stage, parked, woken⟩ := w
  obtain rfl : parked = none := h
  rfl

/-- After a wake it holds whatever is owed. -/
theorem Safe.notified (h : w.Safe owed edge) (made : Bool) : (w.notified made).Safe owed' edge' := by
  cases hstage : w.stage with
  | Out pending =>
    cases pending with
    | false => simp [Safe, hstage]
    | true =>
      simp only [Safe, hstage, notified_stage] at h ⊢
      intro hasleep
      rw [notified_woken made fun hunwoken => (h hunwoken).1] at hasleep
      cases hasleep
  | Looked fired =>
    cases fired with
    | true =>
      simp only [Safe, hstage, notified_stage] at h ⊢
      rw [notified_none made h]
      exact h
    | false =>
      simp only [Safe, hstage, notified_stage] at h ⊢
      intro hasleep
      rw [notified_woken made fun hunwoken => (h hunwoken).1] at hasleep
      cases hasleep
  | Registered fired =>
    cases fired with
    | true =>
      simp only [Safe, hstage, notified_stage] at h ⊢
      rw [notified_none made h]
      exact h
    | false =>
      simp only [Safe, hstage, notified_stage] at h ⊢
      intro hasleep
      rw [notified_woken made h] at hasleep
      cases hasleep
  | Top => simp [Safe, hstage]
  | Made => simp [Safe, hstage]

/-- A parker that returned pending and was not woken has nothing to find, or is woken by the wake it is
owed. -/
theorem Safe.asleep (h : w.Safe owed edge) (hpending : w.stage = .Out true) (hasleep : w.woken = false) :
    edge ∨ owed ∧ ∀ made, (w.notified made).woken = true := by
  simp only [Safe, hpending] at h
  obtain ⟨hparked, hedge | howed⟩ := h hasleep
  · exact .inl hedge
  · exact .inr ⟨howed, fun made => notified_woken made fun _ => hparked⟩

theorem left_eq_zero : w.left = 0 ↔ w.stage.isOut = true := by
  obtain ⟨stage, parked, woken⟩ := w
  cases stage with
  | Out pending => simp [left, Stage.isOut]
  | Top =>
    simp only [left, Stage.isOut]
    split <;> simp
  | Made =>
    simp only [left, Stage.isOut]
    split <;> simp
  | Registered fired => cases fired <;> simp [left, Stage.isOut]
  | Looked fired => cases fired <;> simp [left, Stage.isOut]

theorem left_le (w : Parker) : w.left ≤ 8 := by
  obtain ⟨stage, parked, woken⟩ := w
  cases stage with
  | Out pending => exact Nat.zero_le 8
  | Top =>
    simp only [left]
    split <;> omega
  | Made =>
    simp only [left]
    split <;> omega
  | Registered fired => cases fired <;> simp [left]
  | Looked fired => cases fired <;> simp [left]

/-- Every step of a poll brings its end nearer: a second turn of the loop finds its future unfired. -/
theorem Safe.advance_left (h : w.Safe owed edge) (hpolling : w.stage.isOut = false) (found : Bool) :
    (w.advance found).left < w.left := by
  obtain ⟨stage, parked, woken⟩ := w
  cases stage with
  | Out pending => cases hpolling
  | Top =>
    cases parked with
    | none => simp [Parker.advance, make, left]
    | some future => cases future <;> simp [Parker.advance, make, left]
  | Made =>
    by_cases hfired : parked = some .Fired
    · simp [Parker.advance, register, left, hfired]
    · simp [Parker.advance, register, left, hfired]
  | Registered fired =>
    cases found with
    | true => cases fired <;> simp [Parker.advance, look, left]
    | false => cases fired <;> simp [Parker.advance, look, left]
  | Looked fired =>
    cases fired with
    | true =>
      obtain rfl : parked = none := h
      simp [Parker.advance, leave, left]
    | false => simp [Parker.advance, leave, left]

end Parker

end Waiting
