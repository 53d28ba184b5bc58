import Tightbeam.Router
import Tightbeam.Cut

/-!
# The door and the pools behind it

`Router.expose` proves a declaration against its gate and hands back the exposer it describes. What a
stream is served under is the exposer's own state and three small pools of permits.
-/
namespace Tightbeam

variable {D : Deps}

structure Exposer (D : Deps) where
  services : Services D
  gate : Gate D.Base
  publicServices : Finset String
  publicUnsafe : Finset String
  enabled : D.Moment → D.Service → Bool
  cuts : Option (LiveCuts D)

namespace Exposer

def provenUnderOpenGate (name : String) : String :=
  s!"`{name}` is proven-only, so an open gate will never serve it: an open gate proves nothing about a " ++
    "peer's key. keep the service on a gate that roots at a key"

def memberUnderOpenGate (name : String) : String :=
  s!"`{name}` is member-only, so an open gate will never serve it: an open gate admits everyone and " ++
    "proves nothing about who they are, so no dial can count as a member. keep the service on a gate " ++
    "that admits members, or drop the member-only declaration"

def memberServedRaw (name : String) : String :=
  s!"`{name}` is member-only, so it cannot be served to everyone as a raw byte source: an opened stream " ++
    "carries no membership proof, so the route would refuse every caller while the manifest renders it " ++
    "open. drop it from the unsafe raw-stream set, or drop the member-only declaration"

/-- Refuse with the first name found, if there is one. -/
def refuseAny (message : String → String) : List String → Except String Unit
  | [] => .ok ()
  | name :: _ => .error (message name)

/-- The names an interlock looks at only under an open base. -/
def underOpen (gate : Gate D.Base) (names : List String) : List String :=
  if gate.isOpen then names else []

/-- The handlers with no safe public form. -/
def keylessNames (services : Services D) : List String :=
  (services.handlers.filter fun row => !row.2.openSafe).map Prod.fst

/-- Every interlock, in the source's order. -/
def prove (host : Host) (services : Services D) (gate : Gate D.Base)
    (publicRequest publicUnsafeRequest : List String) : Except String (Exposer D) := do
  refuseAny provenUnderOpenGate (underOpen gate services.provenNames)
  refuseAny Services.keylessShell (underOpen gate (keylessNames services))
  let provenUnsafe ← services.proveUnsafe host publicUnsafeRequest
  refuseAny Services.rawUnderPublicGate
    (underOpen gate (services.rawStreamNames.filter (· ∉ provenUnsafe)))
  refuseAny memberUnderOpenGate (underOpen gate services.memberOnlyNames)
  refuseAny memberServedRaw (services.memberOnlyNames.filter (· ∈ provenUnsafe))
  let provenPublic ← services.provePublic publicRequest
  pure
    { services
      gate
      publicServices := provenPublic
      publicUnsafe := provenUnsafe
      enabled := fun _ _ => true
      cuts := none }

def withLiveCuts (e : Exposer D) (cuts : LiveCuts D) : Exposer D := { e with cuts := some cuts }

end Exposer

def Router.expose (host : Host) (r : Router D) : Except String (Exposer D) :=
  Exposer.prove host r.services r.gate r.publicRequest r.publicUnsafeRequest

structure ManifestEntry where
  name : String
  posture : Posture
  kind : TargetKind
  metering : Option Metering
  rawSource : Option RawSource
  deriving DecidableEq, Repr

namespace Exposer

/-- The posture a dialer faces, off the proven overlays. -/
def posture (e : Exposer D) (name : String) : Posture :=
  if e.gate.isOpen ∨ name ∈ e.publicServices ∨ name ∈ e.publicUnsafe then .Open else .Gated

def manifestEntry (host : Host) (e : Exposer D) (name : String) (route : Route D) : ManifestEntry :=
  { name
    posture := e.posture name
    kind := route.target.kind
    metering := match route.target with
      | .Handler handler => some handler.metering
      | .RawStream _ => none
    rawSource := match route.target with
      | .RawStream stream => some (stream.rawSource host)
      | .Handler _ => none }

def manifest (host : Host) (e : Exposer D) : List ManifestEntry :=
  sortByName ManifestEntry.name
    (e.services.routes.entries.map fun row => e.manifestEntry host row.1 row.2)

end Exposer

def publicSessionPermits : Nat := 32

def publicStreamPermits : Nat := 4

def provenStreamPermits : Nat := 8

/-- Seconds from admission to the drop of a proven-only stream. -/
def provenStreamDeadline : SystemTime := 5

/-- A semaphore by its free permits. -/
structure Semaphore where
  free : Nat
  deriving DecidableEq, Repr

namespace Semaphore

def tryAcquire : Semaphore → Option Semaphore
  | ⟨0⟩ => none
  | ⟨free + 1⟩ => some ⟨free⟩

def release (s : Semaphore) : Semaphore := ⟨s.free + 1⟩

@[simp] theorem free_release (s : Semaphore) : s.release.free = s.free + 1 := rfl

theorem tryAcquire_eq_none {s : Semaphore} : s.tryAcquire = none ↔ s.free = 0 := by
  obtain ⟨free⟩ := s
  cases free <;> simp [tryAcquire]

theorem tryAcquire_eq_some {s left : Semaphore} : s.tryAcquire = some left ↔ s = left.release := by
  obtain ⟨free⟩ := s
  obtain ⟨rest⟩ := left
  cases free <;> simp [tryAcquire, release]

end Semaphore

/-- The free permits of the three pools that admission takes from. -/
structure Pools where
  streams : Semaphore
  sessions : Semaphore
  proven : Semaphore
  deriving DecidableEq, Repr

def Pools.new : Pools := ⟨⟨publicStreamPermits⟩, ⟨publicSessionPermits⟩, ⟨provenStreamPermits⟩⟩

/-- Whether a session holds its one public permit. -/
structure PublicSession where
  held : Bool
  deriving DecidableEq, Repr

/-- Classify a session as public: it takes a permit the first time, and none after. -/
def PublicSession.enter (session : PublicSession) (sessions : Semaphore) :
    Option (PublicSession × Semaphore) :=
  if session.held then some (session, sessions)
  else match sessions.tryAcquire with
    | none => none
    | some left => some (⟨true⟩, left)

/-- What every stream of a node is served under. -/
structure Serving (D : Deps) where
  gate : Gate D.Base
  publicServices : Finset String
  publicUnsafe : Finset String
  services : Services D
  enabled : D.Moment → D.Service → Bool
  cuts : Option (LiveCuts D)

def Exposer.serving (e : Exposer D) : Serving D :=
  { gate := e.gate
    publicServices := e.publicServices
    publicUnsafe := e.publicUnsafe
    services := e.services
    enabled := e.enabled
    cuts := e.cuts }

end Tightbeam
