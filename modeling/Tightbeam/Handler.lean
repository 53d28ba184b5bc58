import Tightbeam.Nauthy

/-!
# Handlers, their exposure, and the proof they serve under

A handler's marker fixes which witness origins it accepts. `Served` is built only by the mint that
checks it, and handing it to an inner handler checks it again.
-/
namespace Tightbeam

/-- The three sealed markers a handler may declare. -/
inductive Exposure where
  | Never | OptIn | ProvenOnly
  deriving DecidableEq, Repr

def Exposure.openSafe : Exposure → Bool
  | .Never => false
  | .OptIn => true
  | .ProvenOnly => false

def Exposure.accepts : Exposure → Origin → Bool
  | .Never, .Rooted => true
  | .Never, .Open => false
  | .Never, .Proven => false
  | .OptIn, .Rooted => true
  | .OptIn, .Open => true
  | .OptIn, .Proven => false
  | .ProvenOnly, .Proven => true
  | .ProvenOnly, .Rooted => false
  | .ProvenOnly, .Open => false

theorem Exposure.never_accepts {origin : Origin} :
    Exposure.Never.accepts origin = true ↔ origin = .Rooted := by
  cases origin <;> simp [Exposure.accepts]

theorem Exposure.accepts_open {exposure : Exposure} :
    exposure.accepts .Open = true ↔ exposure = .OptIn := by
  cases exposure <;> simp [Exposure.accepts]

theorem Exposure.accepts_rooted {exposure : Exposure} (h : exposure ≠ .ProvenOnly) :
    exposure.accepts .Rooted = true := by
  cases exposure with
  | Never => rfl
  | OptIn => rfl
  | ProvenOnly => exact absurd rfl h

/-- The ceilings an outer handler may hand its proof to. -/
inductive Compatible : Exposure → Exposure → Prop where
  | refl (ceiling : Exposure) : Compatible ceiling ceiling
  | neverOptIn : Compatible .Never .OptIn

inductive Metering where
  | Metered | Unmetered
  deriving DecidableEq, Repr

/-- A route's handler: one a caller wrote, known by its marker and its metering, or a built-in. -/
inductive Handler where
  | bound (exposure : Exposure) (metering : Metering)
  | forward (addr : String)
  | echo
  deriving DecidableEq, Repr

namespace Handler

def exposure : Handler → Exposure
  | .bound exposure _ => exposure
  | .forward _ => .OptIn
  | .echo => .OptIn

def metering : Handler → Metering
  | .bound _ metering => metering
  | .forward _ => .Unmetered
  | .echo => .Metered

def openSafe (h : Handler) : Bool := h.exposure.openSafe

def accepts (h : Handler) (origin : Origin) : Bool := h.exposure.accepts origin

end Handler

/-- A witness a handler of this ceiling may serve under. -/
structure Served (VerifyKey : Type) (ceiling : Exposure) where
  admitted : Admitted VerifyKey
  accepted : ceiling.accepts admitted.origin = true

namespace Served

variable {K : Type} {outer inner last : Exposure}

/-- The only mint. -/
def mint (ceiling : Exposure) (admitted : Admitted K) : Except Refusal (Served K ceiling) :=
  if h : ceiling.accepts admitted.origin = true then .ok ⟨admitted, h⟩ else .error .notAdmitted

inductive ServeError where
  | Refused (refusal : Refusal)

/-- Hand the proof inward; the bound on the ceilings is checked by the compiler, the mint at run time. -/
def delegate (s : Served K outer) (_ : Compatible outer inner) :
    Except ServeError (Served K inner) :=
  match mint inner s.admitted with
  | .ok served => .ok served
  | .error refusal => .error (.Refused refusal)

theorem mint_ok {ceiling : Exposure} {admitted : Admitted K} {s : Served K ceiling}
    (h : mint ceiling admitted = .ok s) : s.admitted = admitted := by
  unfold mint at h
  split at h
  · cases h; rfl
  · cases h

theorem mint_of_accepts {ceiling : Exposure} {admitted : Admitted K}
    (h : ceiling.accepts admitted.origin = true) : mint ceiling admitted = .ok ⟨admitted, h⟩ := by
  simp [mint, h]

end Served

/-- A compatible ceiling accepts every origin the outer one does. -/
theorem Compatible.accepts {outer inner : Exposure} (h : Compatible outer inner) {origin : Origin}
    (ha : outer.accepts origin = true) : inner.accepts origin = true := by
  cases h with
  | refl => exact ha
  | neverOptIn => cases origin <;> simp_all [Exposure.accepts]

/-- So the run-time check of a delegation the compiler allows never fires. -/
theorem Served.delegate_ok {K : Type} {outer inner : Exposure} (s : Served K outer)
    (h : Compatible outer inner) : s.delegate h = .ok ⟨s.admitted, h.accepts s.accepted⟩ := by
  simp [Served.delegate, Served.mint_of_accepts (h.accepts s.accepted)]

/-- A chain of delegations, each one allowed by the compiler and past its own mint. -/
inductive Delegates {K : Type} {outer : Exposure} (s : Served K outer) :
    {inner : Exposure} → Served K inner → Prop where
  | refl : Delegates s s
  | step {middle inner : Exposure} {t : Served K middle} {u : Served K inner}
      (chain : Delegates s t) (h : Compatible middle inner) (hd : t.delegate h = .ok u) : Delegates s u

/-- The witness at the end of a chain is the one it began with. -/
theorem Delegates.admitted {K : Type} {outer inner : Exposure} {s : Served K outer}
    {t : Served K inner} (h : Delegates s t) : t.admitted = s.admitted := by
  induction h with
  | refl => rfl
  | step chain hc hd ih =>
    rw [Served.delegate_ok] at hd
    cases hd
    exact ih

end Tightbeam
