import Tightbeam.Nauthy
import Tightbeam.ResponseExact

/-!
# The dialer

A connector knows the node it dials, the service it asks for and the credentials it presents. It speaks
one handshake on five paths, each with its own errors and its own way to go on once the host admits it.
A stream is what the host answers on it before it closes.
-/
namespace Tightbeam

open Octets Octets.Reader

/-- What a connector needs of nauthy's links: the text of one, and the node its root names. -/
structure Links where
  Link : Type
  text : Link → String
  nodeId : Link → Except String NodeId

structure Connector (D : Deps) (L : Links) where
  dial : NodeId
  service : D.Service
  capability : Option L.Link
  membership : Option L.Link

variable {D : Deps} {L : Links} {α : Type}

namespace Connector

def request (c : Connector D L) : Request := ⟨c.service.val, c.capability.map L.text, c.membership.map L.text⟩

end Connector

inductive RequestWriteError where
  | Insecure (declared : PeerProof)
  | Io (error : IoError)
  deriving DecidableEq

def Request.presentsCredential (r : Request) : Bool := r.capability.isSome || r.membership.isSome

/-- The one writer every credential goes through. -/
def Request.writeChecked (r : Request) (security : Security) : Sink RequestWriteError Unit :=
  if r.presentsCredential && !peerProven security then Sink.fail (.Insecure security.peer)
  else Sink.mapError .Io r.write

/-- The causes a stream error carries. -/
inductive StreamCause where
  | WrongPeer (dial reached : NodeId)
  | Write (error : RequestWriteError)
  | Read (error : IoError)
  | Transport (text : String)
  deriving DecidableEq

/-- bifrost's error. -/
inductive BifrostError where
  | Stream (cause : StreamCause)
  | Refused (refusal : Refusal)
  deriving DecidableEq

/-- Why a dial failed, with the type each path gives it. -/
inductive Report where
  | Bifrost (error : BifrostError)
  | Write (error : RequestWriteError)
  | Io (error : IoError)
  | DialRefused (dial : NodeId) (refusal : Refusal)
  deriving DecidableEq

/-- The typed refusal a failure carries, if it is one. -/
def Report.refusal? : Report → Option Refusal
  | .Bifrost (.Refused refusal) => some refusal
  | .DialRefused _ refusal => some refusal
  | .Bifrost (.Stream _) => none
  | .Write _ => none
  | .Io _ => none

/-- The profile a failure names as proving no peer, if that is why it failed. -/
def Report.declared? : Report → Option PeerProof
  | .Write (.Insecure declared) => some declared
  | .Bifrost (.Stream (.Write (.Insecure declared))) => some declared
  | _ => none

/-- A session to a host. Each call opens a stream of its own, numbered in the order of the calls: it fails, or
it is everything the host answers there. -/
structure DialSession where
  peer : NodeId
  security : Security
  openBi : Nat → Except BifrostError (List UInt8)

/-- A pipe's local end: what it sends to the host, and how the pipe ended. -/
structure LocalPipe where
  payload : List UInt8
  ended : Except IoError Unit

/-- How a dial came out: the streams it opened, the octets it wrote, and, where the stream's halves were
handed out or piped, the host's octets still unread then. -/
structure Dialed (α : Type) where
  streams : Nat
  octets : List UInt8
  handed : Option (List UInt8)
  result : Except Report α

/-- What a path makes of each end of the handshake. `keeps` is that the halves outlive it. -/
structure Path (α : Type) where
  onWrite : RequestWriteError → Report
  onRead : IoError → Report
  onRefused : Refusal → Report
  keeps : Bool
  payload : List UInt8
  onOk : Except Report α

/-- The request, the response, and then whatever the path does with an admitted stream. -/
def handshake (path : Path α) (request : Request) (security : Security) (answer : List UInt8) : Dialed α :=
  let wrote := request.writeChecked security
  match wrote.1 with
  | .error error => ⟨1, wrote.octets, none, .error (path.onWrite error)⟩
  | .ok _ => match Response.read.run answer with
    | (.error error, _) => ⟨1, wrote.octets, none, .error (path.onRead error)⟩
    | (.ok (.refused refusal), _) => ⟨1, wrote.octets, none, .error (path.onRefused refusal)⟩
    | (.ok .ok, rest) =>
      ⟨1, wrote.octets ++ path.payload, if path.keeps then some rest else none, path.onOk⟩

structure ServiceSession (D : Deps) (L : Links) where
  session : DialSession
  connector : Connector D L

def requestService (request : Request) (security : Security) (pipe : LocalPipe) (answer : List UInt8) : Dialed Unit :=
  handshake ⟨.Write, .Io, fun refusal => .Bifrost (.Refused refusal), true, pipe.payload,
    pipe.ended.mapError .Io⟩ request security answer

/-- One local connection of a forward, carried on a stream of its own. -/
def forward (session : DialSession) (stream : Nat) (request : Request) (pipe : LocalPipe) : Dialed Unit :=
  match session.openBi stream with
  | .error error => ⟨0, [], none, .error (.Bifrost error)⟩
  | .ok answer => requestService request session.security pipe answer

namespace Connector

/-- The session is the caller's, so its peer is compared before a stream is opened on it; other streams may
have been opened before this one. -/
def openOn (c : Connector D L) (session : DialSession) (stream : Nat) : Dialed Unit :=
  if session.peer ≠ c.dial then
    ⟨0, [], none, .error (.Bifrost (.Stream (.WrongPeer c.dial session.peer)))⟩
  else match session.openBi stream with
    | .error error => ⟨0, [], none, .error (.Bifrost error)⟩
    | .ok answer =>
      handshake ⟨fun error => .Bifrost (.Stream (.Write error)), fun error => .Bifrost (.Stream (.Read error)),
        fun refusal => .Bifrost (.Refused refusal), true, [], .ok ()⟩ c.request session.security answer

end Connector

def ServiceSession.openBi (s : ServiceSession D L) (stream : Nat) : Dialed Unit := s.connector.openOn s.session stream

/-- A credential on a session that does not prove its peer. -/
def Request.Exposed (r : Request) (security : Security) : Prop :=
  r.presentsCredential = true ∧ peerProven security = false

theorem writeChecked_exposed {r : Request} {security : Security} (h : r.Exposed security) :
    r.writeChecked security = Sink.fail (.Insecure security.peer) := by
  simp [Request.writeChecked, h.1, h.2]

theorem writeChecked_covered {r : Request} {security : Security} (h : ¬ r.Exposed security) :
    r.writeChecked security = Sink.mapError .Io r.write := by
  have hguard : ¬ (r.presentsCredential && !peerProven security) = true := by
    intro hboth
    exact h (by simpa [Request.Exposed] using hboth)
  simp only [Request.writeChecked, if_neg hguard]

/-- A path's errors keep what they are given, and only a path that keeps the halves writes a payload. -/
structure Path.Faithful (path : Path α) : Prop where
  write : ∀ error, (path.onWrite error).refusal? = none
  insecure : ∀ declared, (path.onWrite (.Insecure declared)).declared? = some declared
  read : ∀ error, (path.onRead error).refusal? = none
  refused : ∀ refusal, (path.onRefused refusal).refusal? = some refusal
  keeps : path.payload ≠ [] → path.keeps = true

section Handshake

variable {path : Path α} {request : Request} {security : Security} {answer : List UInt8}

theorem handshake_exposed (h : request.Exposed security) :
    handshake path request security answer = ⟨1, [], none, .error (path.onWrite (.Insecure security.peer))⟩ := by
  unfold handshake
  rw [writeChecked_exposed h]
  rfl

/-- A request the wire cannot carry fails its write, with what was already put left there. -/
theorem handshake_unfit (path : Path α) (answer : List UInt8) (h : ¬ request.Exposed security)
    (hfits : ¬ request.Fits) :
    ∃ error, handshake path request security answer =
      ⟨1, request.write.octets, none, .error (path.onWrite (.Io error))⟩ := by
  unfold handshake
  rw [writeChecked_covered h]
  rcases hwrite : request.write with ⟨res, out⟩
  cases res with
  | ok _ => exact absurd (request.fits_of_write_ok (by rw [hwrite])) hfits
  | error error => exact ⟨error, rfl⟩

theorem handshake_fits (h : ¬ request.Exposed security) (hfits : request.Fits) :
    handshake path request security answer =
      match Response.read.run answer with
      | (.error error, _) => ⟨1, request.frame, none, .error (path.onRead error)⟩
      | (.ok (.refused refusal), _) => ⟨1, request.frame, none, .error (path.onRefused refusal)⟩
      | (.ok .ok, rest) =>
        ⟨1, request.frame ++ path.payload, if path.keeps then some rest else none, path.onOk⟩ := by
  unfold handshake
  rw [writeChecked_covered h]
  have hwrote : request.write = (.ok (), request.frame) := request.write_wrote hfits
  rw [hwrote]
  rfl

end Handshake

namespace Connector

variable (c : Connector D L) (session : DialSession) (stream : Nat) (answer : List UInt8)

end Connector

end Tightbeam
