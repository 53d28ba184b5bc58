import Tightbeam.Exposer

/-!
# Admission and the serving of one stream

`admitRequest` rules on one request and takes its permit. `serveRequest` is the whole of a stream up to its
payload: the frame is read, the request is ruled on, the target is opened or its proof minted, the live
cut keeps its chains, and one answer is written.
-/
namespace Tightbeam

open Octets

variable {D : Deps}

/-- Why the host did not let a stream in, for its own log. -/
inductive HostRefusal (D : Deps) where
  | MalformedCapability (error : D.CapError)
  | PeerNotProven (declared : PeerProof)
  | Gate (refusal : GateRefusal)
  | PublicAtCapacity (cap : String)
  | UnknownKey
  | PeerKey (error : D.KeyError)
  | ProvenAtCapacity
  | Unrevocable

def gateUndecided : String := "the gate did not finish deciding in time; retry"

/-- Every cause that rules on the dialer is one answer; the gate that decided nothing is another. -/
def wireRefusal : HostRefusal D → Refusal
  | .MalformedCapability _ => .notAdmitted
  | .PeerNotProven _ => .notAdmitted
  | .PeerKey _ => .notAdmitted
  | .PublicAtCapacity _ => .notAdmitted
  | .UnknownKey => .notAdmitted
  | .ProvenAtCapacity => .notAdmitted
  | .Unrevocable => .notAdmitted
  | .Gate .Missing => .notAdmitted
  | .Gate .NotGranted => .notAdmitted
  | .Gate .Revoked => .notAdmitted
  | .Gate .Undecided => .unavailable (D.bounded gateUndecided)

/-- The pool a stream's permit goes back to. -/
inductive StreamPermit where
  | publicStream | provenStream
  deriving DecidableEq, Repr

structure ProvenStream (D : Deps) where
  key : D.VerifyKey
  deadline : SystemTime

structure AdmittedStream (D : Deps) where
  witness : Admitted D.VerifyKey
  peer : D.VerifyKey
  /-- Every cap the gate ruled on, the presented one first. -/
  ruled : List D.Cap
  proven : Option (ProvenStream D)
  permit : Option StreamPermit

/-- What `admitRequest` returns, with the pools and the session's permit as it leaves them. -/
structure Ruling (D : Deps) where
  result : Except (HostRefusal D) (AdmittedStream D)
  pools : Pools
  session : PublicSession

/-- One credential slot. An absent one is no cap, and an unreadable one is a refusal. -/
def parseSlot (slot : Option String) : Except (HostRefusal D) (Option D.Cap) :=
  match slot with
  | none => .ok none
  | some text => match D.parseCap text with
    | .ok cap => .ok (some cap)
    | .error error => .error (.MalformedCapability error)

/-- Slot 2, which is read only beside an authority-bound slip. -/
def parseMembership (cap : Option D.Cap) (membership : Option String) :
    Except (HostRefusal D) (Option D.Cap) :=
  match cap with
  | none => .ok none
  | some slip => if D.isAuthorityBound slip then parseSlot membership else .ok none

/-- A name in either open overlay: no token is read, and the stream and its session take a permit. -/
def admitPublic (m : D.Moment) (pools : Pools) (session : PublicSession) (key : D.VerifyKey)
    (service : D.Service) : Ruling D :=
  match D.admitWitnessed m .Open key none service with
  | .error refusal => ⟨.error (.Gate refusal), pools, session⟩
  | .ok witness => match pools.streams.tryAcquire with
    | none => ⟨.error (.PublicAtCapacity "public streams"), pools, session⟩
    | some streams => match session.enter pools.sessions with
      | none =>
        ⟨.error (.PublicAtCapacity "public sessions"), { pools with streams := streams.release }, session⟩
      | some (session, sessions) =>
        ⟨.ok { witness, peer := key, ruled := [], proven := none, permit := some .publicStream },
          { pools with streams, sessions }, session⟩

/-- A proven-only route: no token is read, and the pool is touched once every check has passed. -/
def admitProven (gate : Gate D.Base) (knows : Knows D) (m : D.Moment) (now : SystemTime) (pools : Pools)
    (session : PublicSession) (peer : SessionPeer) (key : D.VerifyKey) : Ruling D :=
  if peerProven peer.security = false then
    ⟨.error (.PeerNotProven peer.security.peer), pools, session⟩
  else match D.proven m gate key with
    | .error refusal => ⟨.error (.Gate refusal), pools, session⟩
    | .ok witness => match witness.revocablePeer with
      | none => ⟨.error .Unrevocable, pools, session⟩
      | some named =>
        if knows m named = false then ⟨.error .UnknownKey, pools, session⟩
        else match pools.proven.tryAcquire with
          | none => ⟨.error .ProvenAtCapacity, pools, session⟩
          | some proven =>
            ⟨.ok
              { witness
                peer := key
                ruled := []
                proven := some ⟨named, now + provenStreamDeadline⟩
                permit := some .provenStream },
              { pools with proven }, session⟩

/-- Every other name, served or not, faces the base gate and takes no permit. -/
def admitFamily (gate : Gate D.Base) (m : D.Moment) (peer : SessionPeer) (key : D.VerifyKey)
    (capability membership : Option String) (service : D.Service) :
    Except (HostRefusal D) (AdmittedStream D) :=
  if D.wantsCapability gate ∧ peerProven peer.security = false then
    .error (.PeerNotProven peer.security.peer)
  else do
    let cap ← parseSlot capability
    let badge ← parseMembership cap membership
    let witness ← Except.mapError HostRefusal.Gate <| match cap, badge with
      | some slip, some badge => D.admitForeignWitnessed m gate key slip badge service
      | presented, _ => D.admitWitnessed m gate key presented service
    let ruled := if D.wantsCapability gate then cap.toList ++ badge.toList else []
    pure { witness, peer := key, ruled, proven := none, permit := none }

/-- Rule on one request for a resolved name. -/
def admitRequest (serving : Serving D) (m : D.Moment) (now : SystemTime) (pools : Pools)
    (session : PublicSession) (peer : SessionPeer) (capability membership : Option String)
    (service : D.Service) : Ruling D :=
  match peer.node.verifyKey D with
  | .error error => ⟨.error (.PeerKey error), pools, session⟩
  | .ok key =>
    if service.val ∈ serving.publicServices ∨ service.val ∈ serving.publicUnsafe then
      admitPublic m pools session key service
    else match serving.services.proven service.val with
      | some knows => admitProven serving.gate knows m now pools session peer key
      | none =>
        ⟨admitFamily serving.gate m peer key capability membership service, pools, session⟩

/-- A node that exposes one service answers for it whatever name was asked. -/
def Services.resolveSingleService (services : Services D) (requested : D.Service) : D.Service :=
  if requested.val ∈ services.routes then requested
  else match services.routes.keys with
    | [only] => match parseService D only with
      | .ok service => service
      | .error _ => requested
    | _ => requested

inductive Opened where
  | Stream | Seat
  deriving DecidableEq, Repr

/-- What surrounds one stream: what arrived before the read timeout (`none` when the request did not),
the answers at that moment, the free open permits and the open itself, and how much of the answer is
written when a proven stream's deadline fires before it is whole. -/
structure Dial (D : Deps) where
  input : Option (List UInt8)
  moment : D.Moment
  now : SystemTime
  rawStreamOpens : Semaphore
  openSource : RawStream → NodeId → Except String Opened
  deadlineFires : Option Nat

/-- A target opened or prepared, with nothing yet said to the peer. -/
inductive Ready (D : Deps) where
  | Raw (stream : RawStream) (opened : Opened)
  | Handler (handler : Tightbeam.Handler) (served : Served D.VerifyKey handler.exposure)

/-- The pre-success half of a handler: its proof, or the refusal its marker gives the witness. -/
def Handler.prepare {K : Type} (h : Handler) (admitted : Admitted K) :
    Except Refusal (Served K h.exposure) :=
  Served.mint h.exposure admitted

def openingTooMany : String := "the host is opening too many raw streams right now; try again shortly"

def openRaw (dial : Dial D) (node : NodeId) (stream : RawStream) : Except String Opened :=
  match dial.rawStreamOpens.tryAcquire with
  | some _ => dial.openSource stream node
  | none => .error openingTooMany

def makeReady (dial : Dial D) (node : NodeId) (target : Target) (admitted : Admitted D.VerifyKey) :
    Except Refusal (Ready D) :=
  match target with
  | .RawStream stream => match openRaw dial node stream with
    | .ok opened => .ok (.Raw stream opened)
    | .error error => .error (.unavailable (D.bounded error))
  | .Handler handler => match handler.prepare admitted with
    | .ok served => .ok (.Handler handler served)
    | .error _ => .error .notAdmitted

/-- Keep what the gate ruled on, for the live cut. -/
def recordStream (chains : AdmittedChains D) (admitted : AdmittedStream D) :
    Except (Unrecorded D) (AdmittedChains D) :=
  match admitted.proven with
  | some proven => .ok (chains.recordProven proven.key)
  | none => chains.recordAll admitted.peer admitted.ruled

/-- A session keeps chains only when a cut is wired. -/
def recordChains (chains : Option (AdmittedChains D)) (admitted : AdmittedStream D) :
    Except (Unrecorded D) (Option (AdmittedChains D)) :=
  match chains with
  | none => .ok none
  | some chains => (recordStream chains admitted).map some

/-- A stream past its last refusal. -/
structure Serve (D : Deps) where
  service : D.Service
  route : Route D
  admitted : AdmittedStream D
  ready : Ready D

/-- Every check past admission, in the source's order, with the chains as the last one leaves them. -/
def dispatch (serving : Serving D) (dial : Dial D) (peer : SessionPeer)
    (chains : Option (AdmittedChains D)) (service : D.Service) (admitted : AdmittedStream D) :
    Except Refusal (Serve D × Option (AdmittedChains D)) :=
  if serving.enabled dial.moment service = false then .error .notAdmitted
  else match serving.services.get service.val with
    | none => .error .notAdmitted
    | some route =>
      if route.access.isMember ∧ admitted.witness.isMember = false then .error .notAdmitted
      else match makeReady dial peer.node route.target admitted.witness with
        | .error refusal => .error refusal
        | .ok ready => match recordChains chains admitted with
          | .error _ => .error .notAdmitted
          | .ok chains => .ok (⟨service, route, admitted, ready⟩, chains)

/-- How a stream stands once its answer is written: the octets before any payload, what it is served,
and the pools while it holds its permit. -/
structure Outcome (D : Deps) where
  octets : List UInt8
  serve : Option (Serve D)
  admitted : Option (AdmittedStream D)
  pools : Pools
  session : PublicSession
  chains : Option (AdmittedChains D)

def answer (response : Response) : List UInt8 := response.write.2

/-- A proven stream's deadline covers the answer too. -/
def underDeadline (dial : Dial D) (admitted : AdmittedStream D) (octets : List UInt8) : List UInt8 :=
  match admitted.proven, dial.deadlineFires with
  | some _, some written => octets.take written
  | some _, none => octets
  | none, _ => octets

/-- Serve one inbound stream, up to its payload. -/
def serveRequest (serving : Serving D) (dial : Dial D) (pools : Pools) (session : PublicSession)
    (peer : SessionPeer) (chains : Option (AdmittedChains D)) : Outcome D :=
  let unserved (octets : List UInt8) : Outcome D := ⟨octets, none, none, pools, session, chains⟩
  match dial.input with
  | none => unserved []
  | some input => match (Request.read.run input).1 with
    | .error error => match error.refusal D.bounded with
      | some refusal => unserved (answer (.refused refusal))
      | none => unserved []
    | .ok request => match parseService D request.service with
      | .error _ =>
        unserved (answer (.refused (.badRequest
          (D.bounded ("invalid service name " ++ D.debugText request.service)))))
      | .ok requested =>
        let service := serving.services.resolveSingleService requested
        let ruling := admitRequest serving dial.moment dial.now pools session peer request.capability
          request.membership service
        match ruling.result with
        | .error refusal =>
          ⟨answer (.refused (wireRefusal refusal)), none, none, ruling.pools, ruling.session, chains⟩
        | .ok admitted => match dispatch serving dial peer chains service admitted with
          | .error refusal =>
            ⟨underDeadline dial admitted (answer (.refused refusal)), none, some admitted, ruling.pools,
              ruling.session, chains⟩
          | .ok (serve, chains) =>
            ⟨underDeadline dial admitted (answer .ok), some serve, some admitted, ruling.pools,
              ruling.session, chains⟩

end Tightbeam
