import Tightbeam.Protocol
import Mathlib.Tactic.SplitIfs

/-!
# What the code calls of nauthy and bifrost

Keys, capabilities and gates live in two crates outside this repository. `Deps` is what the code
calls of them, `Deps.Lawful` what it relies on. A gate's answer also depends on its revocation store
and on the clock, and a route's own check on what the node holds: a `Moment` is all of that at one
instant.
-/
namespace Tightbeam

/-- How a gate minted a witness. -/
inductive Origin where
  | Rooted | Open | Proven
  deriving DecidableEq, Repr

/-- By what authority a gate admitted the peer. -/
inductive Admission where
  | Member | Slip
  deriving DecidableEq, Repr

/-- A gate's refusal: three rulings about the dialer, and the one that decided nothing. -/
inductive GateRefusal where
  | Missing | NotGranted | Revoked | Undecided
  deriving DecidableEq, Repr

/-- The gate's single-use witness, as its accessors show it. -/
structure Admitted (VerifyKey : Type) where
  peer : VerifyKey
  kind : Admission
  isMember : Bool
  origin : Origin
  revocablePeer : Option VerifyKey

inductive Gate (Base : Type) where
  | Open
  | rooted (base : Base)

def Gate.isOpen {Base : Type} : Gate Base → Bool
  | .Open => true
  | .rooted _ => false

inductive CryptoKind where
  | Ed25519
  deriving DecidableEq, Repr

structure NodeId where
  kind : CryptoKind
  key : Vector UInt8 32
  deriving DecidableEq

/-- What a transport claims about the peer's key. -/
inductive PeerProof where
  | Proven | InProcess | Announced
  deriving DecidableEq, Repr

structure Security where
  peer : PeerProof
  deriving DecidableEq, Repr

def peerProven (security : Security) : Bool :=
  match security.peer with
  | .Proven => true
  | .InProcess => true
  | .Announced => false

/-- The peer a session attests, with the security its transport declared. -/
structure SessionPeer where
  node : NodeId
  security : Security

/-- Wall-clock instants, of which only the order is read. -/
abbrev SystemTime := Int

structure Deps where
  VerifyKey : Type
  RevocationId : Type
  Cap : Type
  CapError : Type
  KeyError : Type
  /-- Every gate but `Gate::Open`. -/
  Base : Type
  Moment : Type
  keyEq : DecidableEq VerifyKey
  idEq : DecidableEq RevocationId
  bytes : VerifyKey → Vector UInt8 32
  tryNew : Vector UInt8 32 → Except KeyError VerifyKey
  validName : String → Bool
  nameError : String → String
  parseCap : String → Except CapError Cap
  isAuthorityBound : Cap → Bool
  root : Cap → VerifyKey
  revocationIds : Cap → List RevocationId
  validUntil : Cap → Except CapError (Option SystemTime)
  wantsCapability : Gate Base → Bool
  admitWitnessed : Moment → Gate Base → VerifyKey → Option Cap → { name : String // validName name } →
    Except GateRefusal (Admitted VerifyKey)
  admitForeignWitnessed : Moment → Gate Base → VerifyKey → Cap → Cap →
    { name : String // validName name } → Except GateRefusal (Admitted VerifyKey)
  proven : Moment → Gate Base → VerifyKey → Except GateRefusal (Admitted VerifyKey)
  /-- Whether the store behind a gate holds a key as revoked. -/
  revokes : Moment → Gate Base → VerifyKey → Bool
  bounded : String → RefusalDetail
  /-- The standard library's quoted rendering of a text, whose Unicode tables are not modelled. -/
  debugText : String → String

attribute [instance] Deps.keyEq Deps.idEq

/-- A name nauthy's grammar accepts. -/
abbrev Deps.Service (D : Deps) : Type := { name : String // D.validName name }

def parseService (D : Deps) (text : String) : Except String D.Service :=
  if h : D.validName text then .ok ⟨text, h⟩ else .error (D.nameError text)

@[simp] theorem parseService_name (D : Deps) (service : D.Service) :
    parseService D service.val = .ok service := by
  simp [parseService, service.property]

theorem parseService_val {D : Deps} {text : String} {service : D.Service}
    (h : parseService D text = .ok service) : text = service.val := by
  unfold parseService at h
  split at h
  · cases h
    rfl
  · cases h

/-- nauthy's name for the key a session attests. -/
def NodeId.verifyKey (D : Deps) (node : NodeId) : Except D.KeyError D.VerifyKey :=
  match node.kind with
  | .Ed25519 => D.tryNew node.key

/-- What the code relies on of a gate. An open gate wants no capability and admits a dial without one
on an open witness that is no member; every other gate wants one and mints rooted witnesses. `proven`
refuses a key its store revokes, an open gate's refuses outright, and its witness names the very key
it was asked about. -/
structure Deps.Lawful (D : Deps) : Prop where
  open_wants : D.wantsCapability .Open = false
  rooted_wants : ∀ base, D.wantsCapability (.rooted base) = true
  open_admits : ∀ m key service, ∃ w, D.admitWitnessed m .Open key none service = .ok w
  open_mints : ∀ m key cap service w, D.admitWitnessed m .Open key cap service = .ok w →
    w.origin = .Open ∧ w.isMember = false
  rooted_mints : ∀ m base key cap service w,
    D.admitWitnessed m (.rooted base) key cap service = .ok w → w.origin = .Rooted
  foreign_mints : ∀ m base key slip badge service w,
    D.admitForeignWitnessed m (.rooted base) key slip badge service = .ok w → w.origin = .Rooted
  proven_mints : ∀ m gate key w, D.proven m gate key = .ok w →
    w.origin = .Proven ∧ w.revocablePeer = some key ∧ D.revokes m gate key = false ∧
      gate.isOpen = false

/-- The tokens of `Deps.small`: a badge or a slip under one root, good through an instant. -/
structure SmallCap where
  root : Vector UInt8 32
  member : Bool
  authorityBound : Bool
  validUntil : Option SystemTime
  deriving DecidableEq

def SmallCap.parse (root : Vector UInt8 32) : String → Except Unit SmallCap
  | "badge" => .ok ⟨root, true, false, none⟩
  | "slip" => .ok ⟨root, false, false, none⟩
  | "brief" => .ok ⟨root, false, false, some 100⟩
  | "foreign" => .ok ⟨root, false, true, none⟩
  | _ => .error ()

/-- A small nauthy: a key is its octets, every token is rooted at one key, and a moment is the keys
revoked at it. -/
def Deps.small (root : Vector UInt8 32) : Deps where
  VerifyKey := Vector UInt8 32
  RevocationId := Bool
  Cap := SmallCap
  CapError := Unit
  KeyError := Unit
  Base := Vector UInt8 32
  Moment := List (Vector UInt8 32)
  keyEq := inferInstance
  idEq := inferInstance
  bytes := id
  tryNew := .ok
  validName := fun name => decide (name ≠ "")
  nameError := fun name => name
  parseCap := SmallCap.parse root
  isAuthorityBound := SmallCap.authorityBound
  root := SmallCap.root
  revocationIds := fun cap => [cap.member]
  validUntil := fun cap => .ok cap.validUntil
  wantsCapability := fun gate => !gate.isOpen
  admitWitnessed := fun m gate key cap _ => match gate, cap with
    | .Open, _ => .ok ⟨key, .Slip, false, .Open, none⟩
    | .rooted _, none => .error .Missing
    | .rooted base, some cap =>
      if key ∈ m then .error .Revoked
      else if cap.root ≠ base ∨ cap.authorityBound then .error .NotGranted
      else .ok ⟨key, if cap.member then .Member else .Slip, cap.member, .Rooted, some key⟩
  admitForeignWitnessed := fun m gate key slip badge _ => match gate with
    | .Open => .ok ⟨key, .Slip, false, .Open, none⟩
    | .rooted base =>
      if key ∈ m then .error .Revoked
      else if slip.root ≠ base ∨ badge.member = false then .error .NotGranted
      else .ok ⟨key, .Slip, false, .Rooted, some key⟩
  proven := fun m gate key => match gate with
    | .Open => .error .NotGranted
    | .rooted _ => if key ∈ m then .error .Revoked else .ok ⟨key, .Slip, false, .Proven, some key⟩
  revokes := fun m _ key => decide (key ∈ m)
  bounded := fun text => if h : (Octets.utf8 text).length ≤ 1024 then ⟨text, h⟩ else ⟨"", by decide⟩
  debugText := fun text => "\"" ++ text ++ "\""

theorem Deps.small_lawful (root : Vector UInt8 32) : (Deps.small root).Lawful where
  open_wants := rfl
  rooted_wants := fun _ => rfl
  open_admits := fun _ _ _ => ⟨_, rfl⟩
  open_mints := by
    intro m key cap service w h
    cases h
    exact ⟨rfl, rfl⟩
  rooted_mints := by
    intro m base key cap service w h
    cases cap with
    | none => cases h
    | some cap =>
      simp only [Deps.small] at h
      split_ifs at h
      · cases h
        rfl
      · cases h
        rfl
  foreign_mints := by
    intro m base key slip badge service w h
    simp only [Deps.small] at h
    split_ifs at h
    cases h
    rfl
  proven_mints := by
    intro m gate key w h
    cases gate with
    | Open => cases h
    | rooted base =>
      simp only [Deps.small] at h
      split_ifs at h with hmem
      cases h
      exact ⟨rfl, rfl, by simpa [Deps.small] using hmem, rfl⟩

end Tightbeam
