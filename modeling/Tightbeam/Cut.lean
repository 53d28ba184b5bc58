import Tightbeam.Nauthy
import Mathlib.Data.Finset.Card
import Mathlib.Data.Finset.Union
import Mathlib.Data.Int.Order.Basic

/-!
# The live cut

Each session keeps what the cut re-checks: the ids and roots of every cap its streams were admitted
on, the root of each stream's first cap, its peer's key, and the instant its grants run out.
-/
namespace Tightbeam

variable {D : Deps}

def maxSessionChainIds : Nat := 1024

/-- How long a session's grants hold it: until the first of them runs out. -/
inductive Lease where
  | Unruled
  | Until (time : SystemTime)
  | Unbounded
  deriving DecidableEq, Repr

namespace Lease

/-- The earliest of one stream's expiry reads; a read that fails fails them all. -/
def earliest {ε : Type} (reads : List (Except ε (Option SystemTime))) : Except ε (Option SystemTime) :=
  reads.foldlM (fun earliest read => read.map fun until? =>
    match earliest, until? with
    | some held, some time => some (min held time)
    | held, until? => held.or until?) none

def ofStream (D : Deps) (ruled : List D.Cap) : Except D.CapError (Option SystemTime) :=
  earliest (ruled.map D.validUntil)

def extend : Lease → Option SystemTime → Lease
  | .Unruled, none => .Unbounded
  | .Unbounded, none => .Unbounded
  | .Unruled, some time => .Until time
  | .Unbounded, some time => .Until time
  | .Until held, some time => .Until (min held time)
  | .Until held, none => .Until held

/-- A cap is good through its expiry instant, so a lease lapses strictly after. -/
def lapsed (lease : Lease) (now : SystemTime) : Bool :=
  match lease with
  | .Until time => time < now
  | .Unruled => false
  | .Unbounded => false

end Lease

structure AdmittedChains (D : Deps) where
  roots : Finset D.VerifyKey
  ids : Finset D.RevocationId
  anchors : Finset D.VerifyKey
  peer : Option D.VerifyKey
  proven : Bool
  lease : Lease

def AdmittedChains.empty (D : Deps) : AdmittedChains D := ⟨∅, ∅, ∅, none, false, .Unruled⟩

inductive Unrecorded (D : Deps) where
  | Full
  | UnreadableExpiry (error : D.CapError)

/-- The negated point: the top bit of the last octet flipped. -/
def signTwin (D : Deps) (key : D.VerifyKey) : Option D.VerifyKey :=
  let bytes := D.bytes key
  match D.tryNew (bytes.set 31 (bytes[31] ^^^ 0x80)) with
  | .ok twin => some twin
  | .error _ => none

namespace AdmittedChains

/-- Keep what the cut will need of one stream's caps, or nothing and refuse the stream. -/
def recordAll (chains : AdmittedChains D) (peer : D.VerifyKey) (ruled : List D.Cap) :
    Except (Unrecorded D) (AdmittedChains D) :=
  match Lease.ofStream D ruled with
  | .error error => .error (.UnreadableExpiry error)
  | .ok until? =>
    let fresh := (ruled.flatMap D.revocationIds).toFinset.filter (· ∉ chains.ids)
    if maxSessionChainIds < chains.ids.card + fresh.card then .error .Full
    else
      let kept : AdmittedChains D :=
        { chains with
          ids := chains.ids ∪ fresh
          roots := chains.roots ∪ (ruled.map D.root).toFinset }
      match ruled with
      | [] => .ok kept
      | anchor :: _ => .ok
        { kept with
          anchors := insert (D.root anchor) kept.anchors
          peer := some peer
          lease := kept.lease.extend until? }

/-- A proven stream rules on no token, so its key is all that is kept. -/
def recordProven (chains : AdmittedChains D) (peer : D.VerifyKey) : AdmittedChains D :=
  { chains with peer := some peer, proven := true }

def lapsed (chains : AdmittedChains D) (now : SystemTime) : Bool := chains.lease.lapsed now

/-- The keys whose revocation ends the session: its peer's, and on a proven route the sign twin. -/
def peerKeys (chains : AdmittedChains D) : List D.VerifyKey :=
  let twin := if chains.proven then chains.peer.bind (signTwin D) else none
  chains.peer.toList ++ twin.toList

end AdmittedChains

/-- The rule a live session is re-checked against. -/
structure LiveCuts (D : Deps) where
  cuts : D.Moment → AdmittedChains D → Bool
  trusts : D.Moment → D.VerifyKey → Bool
  revokedPeer : D.Moment → D.VerifyKey → Bool

/-- nauthy's denylist, read as the ids and the keys it holds. -/
structure Denylist (D : Deps) where
  isRevokedId : D.Moment → D.RevocationId → Bool
  isRevokedKey : D.Moment → D.VerifyKey → Bool

/-- An id in a chain or a root the denylist holds recalls the session. -/
def Denylist.cuts (list : Denylist D) (m : D.Moment) (chains : AdmittedChains D) : Bool :=
  decide (∃ id ∈ chains.ids, list.isRevokedId m id = true) ||
    decide (∃ root ∈ chains.roots, list.isRevokedKey m root = true)

def Denylist.liveCuts (list : Denylist D) : LiveCuts D :=
  ⟨list.cuts, fun _ _ => true, list.isRevokedKey⟩

/-- Why the cut ended a session. -/
inductive Cut where
  | Recalled | Untrusted | PeerRevoked | Expired
  deriving DecidableEq, Repr

/-- Whether the session that kept `chains` must end at `now`, and why. -/
def LiveCuts.check (oracle : LiveCuts D) (m : D.Moment) (chains : AdmittedChains D)
    (now : SystemTime) : Option Cut :=
  if oracle.cuts m chains then some .Recalled
  else if ∃ anchor ∈ chains.anchors, oracle.trusts m anchor = false then some .Untrusted
  else if chains.peerKeys.any (oracle.revokedPeer m) then some .PeerRevoked
  else if chains.lapsed now then some .Expired
  else none

end Tightbeam
