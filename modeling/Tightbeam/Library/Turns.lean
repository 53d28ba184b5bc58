import Mathlib.Data.List.Basic

/-!
# Turns of a client over an object

A client is polled in turns. In each it calls an object, every call chosen by the answers before it,
until it yields or is done. A wrapper that passes every call and every answer on, and keeps a note of
its own, makes no difference to the client.
-/
namespace Turns

variable {C : Type} {A : C → Type} {O N σ ρ : Type}

/-- What is left of a turn. -/
inductive Turn (C : Type) (A : C → Type) (σ ρ : Type) where
  | yields (client : σ)
  | done (result : ρ)
  | call (c : C) (next : A c → Turn C A σ ρ)

/-- How an object answers each call. -/
abbrev Object (C : Type) (A : C → Type) (O : Type) := (c : C) → O → A c × O

/-- A call and its answer. -/
abbrev Answered (C : Type) (A : C → Type) := (c : C) × A c

/-- How a turn ended, the object after it, and its calls with their answers. -/
structure Polled (C : Type) (A : C → Type) (O σ ρ : Type) where
  last : σ ⊕ ρ
  object : O
  answers : List (Answered C A)

namespace Turn

def run (answer : Object C A O) : Turn C A σ ρ → O → Polled C A O σ ρ
  | .yields client, object => ⟨.inl client, object, []⟩
  | .done result, object => ⟨.inr result, object, []⟩
  | .call c next, object =>
    let answered := answer c object
    let rest := (next answered.1).run answer answered.2
    ⟨rest.last, rest.object, ⟨c, answered.1⟩ :: rest.answers⟩

end Turn

/-- The second object answers as the first does, and notes each answer. -/
def Wraps (inner : Object C A O) (outer : Object C A (O × N)) (note : N → Answered C A → N) : Prop :=
  ∀ c object noted, outer c (object, noted) =
    ((inner c object).1, (inner c object).2, note noted ⟨c, (inner c object).1⟩)

/-- A turn over a wrapped object is the turn over the object, with every answer noted. -/
theorem Wraps.run {inner : Object C A O} {outer : Object C A (O × N)} {note : N → Answered C A → N}
    (h : Wraps inner outer note) (turn : Turn C A σ ρ) (object : O) (noted : N) :
    turn.run outer (object, noted) = ⟨(turn.run inner object).last,
      ((turn.run inner object).object, (turn.run inner object).answers.foldl note noted),
      (turn.run inner object).answers⟩ := by
  induction turn generalizing object noted with
  | yields client => rfl
  | done result => rfl
  | call c next ih =>
    simp only [Turn.run, h c object noted]
    rw [ih]
    rfl

end Turns
