import Tightbeam.Cut
import Tightbeam.AdmitCases

/-!
# The live cut over a whole session

A session serves streams and is swept, in any order. What the cut keeps of it is a set of ids, roots
and anchors, one key, one flag and one lease; each is read back here as what the streams that passed
the record step say, so a sweep ends the session exactly when one of those streams does.
-/
namespace Tightbeam

open Checked

variable {D : Deps}

namespace Lease

/-- Whether one stream's grant, read as its earliest expiry, is over at `now`. -/
def runsOut (until? : Option SystemTime) (now : SystemTime) : Prop := ∃ time, until? = some time ∧ time < now

theorem foldlM_runsOut {ε : Type} (reads : List (Except ε (Option SystemTime))) (held : Option SystemTime)
    {until? : Option SystemTime} (now : SystemTime)
    (h : reads.foldlM (fun earliest read => read.map fun until? =>
      match earliest, until? with
      | some held, some time => some (min held time)
      | held, until? => held.or until?) held = .ok until?) :
    runsOut until? now ↔ runsOut held now ∨ ∃ time, .ok (some time) ∈ reads ∧ time < now := by
  induction reads generalizing held with
  | nil =>
    have heq := foldlM_nil_ok.1 h
    subst heq
    simp
  | cons read reads ih =>
    obtain ⟨next, hread, hrest⟩ := foldlM_cons_ok.1 h
    obtain ⟨found, hfound, hnext⟩ := map_ok.1 hread
    subst hfound
    have hstep : runsOut next now ↔ runsOut held now ∨ runsOut found now := by
      subst hnext
      cases held with
      | none => simp [runsOut]
      | some first =>
        cases found with
        | none => simp [runsOut]
        | some second => simp [runsOut]
    rw [ih next hrest, hstep]
    cases found with
    | none => simp [runsOut]
    | some time => simp [runsOut, or_assoc, or_and_right, exists_or]

/-- The first of a stream's caps to expire is the one that ends its grant. -/
theorem ofStream_runsOut {ruled : List D.Cap} {until? : Option SystemTime} (now : SystemTime)
    (h : ofStream D ruled = .ok until?) :
    runsOut until? now ↔ ∃ cap ∈ ruled, ∃ time, D.validUntil cap = .ok (some time) ∧ time < now := by
  have hfold := foldlM_runsOut (ruled.map D.validUntil) none now h
  rw [hfold]
  constructor
  · rintro (hnone | ⟨time, hmem, hlt⟩)
    · obtain ⟨time, hsome, -⟩ := hnone
      cases hsome
    · obtain ⟨cap, hcap, hread⟩ := List.mem_map.1 hmem
      exact ⟨cap, hcap, time, hread, hlt⟩
  · rintro ⟨cap, hcap, time, hread, hlt⟩
    exact .inr ⟨time, List.mem_map.2 ⟨cap, hcap, hread⟩, hlt⟩

theorem extend_lapsed (lease : Lease) (until? : Option SystemTime) (now : SystemTime) :
    (lease.extend until?).lapsed now = true ↔ lease.lapsed now = true ∨ runsOut until? now := by
  cases until? with
  | none => cases lease <;> simp [extend, lapsed, runsOut]
  | some time => cases lease <;> simp [extend, lapsed, runsOut]

end Lease

/-- A session with a cut wired: its record, the streams that passed the record step, and its end. -/
structure CutSession (D : Deps) where
  chains : AdmittedChains D
  recorded : List (AdmittedStream D)
  ended : Option Cut

/-- One stream, with the node's state around it; a stream dropped before its record step, by its
deadline or its dialer; or one sweep. -/
inductive SessionEvent (D : Deps) where
  | stream (dial : Dial D) (pools : Pools) (session : PublicSession)
  | dropped
  | sweep (m : D.Moment) (now : SystemTime)

namespace CutSession

def start (D : Deps) : CutSession D := ⟨.empty D, [], none⟩

/-- A stream is recorded when it is served, and only then. -/
def serve (serving : Serving D) (peer : SessionPeer) (s : CutSession D) (dial : Dial D) (pools : Pools)
    (session : PublicSession) : CutSession D :=
  let outcome := serveRequest serving dial pools session peer (some s.chains)
  { s with
    chains := outcome.chains.getD s.chains
    recorded := s.recorded ++ (outcome.serve.map (·.admitted)).toList }

/-- An ended session takes no more streams and no more sweeps. -/
def step (serving : Serving D) (oracle : LiveCuts D) (peer : SessionPeer) (s : CutSession D)
    (event : SessionEvent D) : CutSession D :=
  if s.ended.isSome then s
  else match event with
    | .stream dial pools session => s.serve serving peer dial pools session
    | .dropped => s
    | .sweep m now => { s with ended := oracle.check m s.chains now }

def run (serving : Serving D) (oracle : LiveCuts D) (peer : SessionPeer) (events : List (SessionEvent D)) :
    CutSession D :=
  events.foldl (step serving oracle peer) (start D)

end CutSession

namespace AdmittedStream

/-- Whether the session's key is kept for this stream: it ruled on a cap, or its route is proven-only. -/
def keyed (a : AdmittedStream D) : Prop := a.ruled ≠ [] ∨ a.proven ≠ none

/-- An id or a root of a cap the stream was ruled on is revoked. -/
def recalled (list : Denylist D) (m : D.Moment) (a : AdmittedStream D) : Prop :=
  ∃ cap ∈ a.ruled, (∃ id ∈ D.revocationIds cap, list.isRevokedId m id = true) ∨
    list.isRevokedKey m (D.root cap) = true

/-- The root of the stream's first cap is no longer trusted. -/
def untrusted (trusts : D.Moment → D.VerifyKey → Bool) (m : D.Moment) (a : AdmittedStream D) : Prop :=
  ∃ cap, a.ruled.head? = some cap ∧ trusts m (D.root cap) = false

def expired (now : SystemTime) (a : AdmittedStream D) : Prop :=
  ∃ cap ∈ a.ruled, ∃ time, D.validUntil cap = .ok (some time) ∧ time < now

end AdmittedStream

/-- The key the session's peer proved is revoked, or its sign twin once a stream was proven-only. -/
def PeerRevoked (revokedPeer : D.Moment → D.VerifyKey → Bool) (peer : SessionPeer)
    (streams : List (AdmittedStream D)) (m : D.Moment) : Prop :=
  ∃ key, peer.node.verifyKey D = .ok key ∧
    (revokedPeer m key = true ∨ ((∃ a ∈ streams, a.proven ≠ none) ∧
      ∃ twin, signTwin D key = some twin ∧ revokedPeer m twin = true))

/-- Some recorded stream holds one of the four causes against its session. -/
def Ends (list : Denylist D) (trusts revokedPeer : D.Moment → D.VerifyKey → Bool) (peer : SessionPeer)
    (streams : List (AdmittedStream D)) (m : D.Moment) (now : SystemTime) : Prop :=
  ∃ a ∈ streams, a.recalled list m ∨ a.untrusted trusts m ∨
    (a.keyed ∧ PeerRevoked revokedPeer peer streams m) ∨ a.expired now

/-- What the gate ruled on: nothing, one presented cap, or a slip and then the foreign badge it needs. -/
inductive RuledOn (gate : Gate D.Base) (a : AdmittedStream D) : Prop where
  | nothing (hruled : a.ruled = [])
  | presented (m : D.Moment) (service : D.Service) (cap : D.Cap) (hruled : a.ruled = [cap])
      (hgate : D.admitWitnessed m gate a.peer (some cap) service = .ok a.witness)
  | foreign (m : D.Moment) (service : D.Service) (slip badge : D.Cap) (hruled : a.ruled = [slip, badge])
      (hslip : D.isAuthorityBound slip = true)
      (hgate : D.admitForeignWitnessed m gate a.peer slip badge service = .ok a.witness)

/-- What a session's record says of the streams it was made from. -/
structure Kept (peer : SessionPeer) (chains : AdmittedChains D) (streams : List (AdmittedStream D)) :
    Prop where
  ids : ∀ id, id ∈ chains.ids ↔ ∃ a ∈ streams, ∃ cap ∈ a.ruled, id ∈ D.revocationIds cap
  roots : ∀ root, root ∈ chains.roots ↔ ∃ a ∈ streams, ∃ cap ∈ a.ruled, D.root cap = root
  anchors : ∀ root, root ∈ chains.anchors ↔
    ∃ a ∈ streams, ∃ cap, a.ruled.head? = some cap ∧ D.root cap = root
  peer : ∀ key, chains.peer = some key ↔ peer.node.verifyKey D = .ok key ∧ ∃ a ∈ streams, a.keyed
  proven : chains.proven = true ↔ ∃ a ∈ streams, a.proven ≠ none
  lapsed : ∀ now, chains.lapsed now = true ↔ ∃ a ∈ streams, a.expired now

theorem Kept.empty (peer : SessionPeer) : Kept peer (.empty D) [] := by
  constructor <;> simp [AdmittedChains.empty, AdmittedChains.lapsed, Lease.lapsed]

theorem exists_mem_snoc {α : Type} {p : α → Prop} {streams : List α} {a : α} :
    (∃ b ∈ streams ++ [a], p b) ↔ (∃ b ∈ streams, p b) ∨ p a := by
  simp [or_and_right, exists_or]

/-- What one record step adds to the record. -/
structure Recorded (chains : AdmittedChains D) (key : D.VerifyKey) (ruled : List D.Cap)
    (chains' : AdmittedChains D) : Prop where
  ids : ∀ id, id ∈ chains'.ids ↔ id ∈ chains.ids ∨ ∃ cap ∈ ruled, id ∈ D.revocationIds cap
  roots : ∀ root, root ∈ chains'.roots ↔ root ∈ chains.roots ∨ ∃ cap ∈ ruled, D.root cap = root
  anchors : ∀ root, root ∈ chains'.anchors ↔
    root ∈ chains.anchors ∨ ∃ cap, ruled.head? = some cap ∧ D.root cap = root
  peer : chains'.peer = if ruled = [] then chains.peer else some key
  proven : chains'.proven = chains.proven
  lapsed : ∀ now, chains'.lapsed now = true ↔ chains.lapsed now = true ∨
    ∃ cap ∈ ruled, ∃ time, D.validUntil cap = .ok (some time) ∧ time < now

theorem recordAll_ok {chains chains' : AdmittedChains D} {key : D.VerifyKey} {ruled : List D.Cap}
    (h : chains.recordAll key ruled = .ok chains') : Recorded chains key ruled chains' := by
  unfold AdmittedChains.recordAll at h
  cases huntil : Lease.ofStream D ruled with
  | error e =>
    rw [huntil] at h
    cases h
  | ok until? =>
    simp only [huntil] at h
    have hover := fun now => Lease.ofStream_runsOut now huntil
    split_ifs at h with hfull
    have hids (id : D.RevocationId) : id ∈ chains.ids ∪
        (ruled.flatMap D.revocationIds).toFinset.filter (· ∉ chains.ids) ↔
        id ∈ chains.ids ∨ ∃ cap ∈ ruled, id ∈ D.revocationIds cap := by
      simp only [Finset.mem_union, Finset.mem_filter, List.mem_toFinset, List.mem_flatMap]
      tauto
    have hroots (root : D.VerifyKey) : root ∈ chains.roots ∪ (ruled.map D.root).toFinset ↔
        root ∈ chains.roots ∨ ∃ cap ∈ ruled, D.root cap = root := by
      simp
    cases ruled with
    | nil =>
      cases h
      exact ⟨hids, hroots, by simp, rfl, rfl, by simp [AdmittedChains.lapsed]⟩
    | cons anchor rest =>
      cases h
      refine ⟨hids, hroots, ?_, rfl, rfl, ?_⟩
      · intro root
        simp [or_comm, eq_comm]
      · intro now
        rw [AdmittedChains.lapsed, Lease.extend_lapsed, hover]
        rfl

/-- An open stream is recorded as nothing at all. -/
theorem recordAll_open {chains chains' : AdmittedChains D} {key : D.VerifyKey}
    (h : chains.recordAll key [] = .ok chains') : chains' = chains := by
  unfold AdmittedChains.recordAll at h
  have huntil : Lease.ofStream D [] = .ok none := rfl
  simp only [huntil] at h
  split_ifs at h
  cases h
  simp

theorem Kept.recordAll {peer : SessionPeer} {chains chains' : AdmittedChains D}
    {streams : List (AdmittedStream D)} {a : AdmittedStream D} (hkept : Kept peer chains streams)
    (hkey : peer.node.verifyKey D = .ok a.peer) (hproven : a.proven = none)
    (h : chains.recordAll a.peer a.ruled = .ok chains') : Kept peer chains' (streams ++ [a]) := by
  have hrecorded := recordAll_ok h
  constructor
  · intro id
    rw [hrecorded.ids, hkept.ids, exists_mem_snoc]
  · intro root
    rw [hrecorded.roots, hkept.roots, exists_mem_snoc]
  · intro root
    rw [hrecorded.anchors, hkept.anchors, exists_mem_snoc]
  · intro key
    rw [hrecorded.peer, exists_mem_snoc]
    by_cases hruled : a.ruled = []
    · simp [hruled, hkept.peer, AdmittedStream.keyed, hproven]
    · simp [hruled, hkey, AdmittedStream.keyed]
  · rw [hrecorded.proven, hkept.proven, exists_mem_snoc]
    simp [hproven]
  · intro now
    rw [hrecorded.lapsed, hkept.lapsed, exists_mem_snoc]
    rfl

theorem Kept.recordProven {peer : SessionPeer} {chains : AdmittedChains D}
    {streams : List (AdmittedStream D)} {a : AdmittedStream D} (hkept : Kept peer chains streams)
    (hkey : peer.node.verifyKey D = .ok a.peer) (hproven : a.proven ≠ none) (hruled : a.ruled = []) :
    Kept peer (chains.recordProven a.peer) (streams ++ [a]) := by
  constructor
  · intro id
    simp [AdmittedChains.recordProven, hkept.ids, hruled]
  · intro root
    simp [AdmittedChains.recordProven, hkept.roots, hruled]
  · intro root
    simp [AdmittedChains.recordProven, hkept.anchors, hruled]
  · intro key
    simp [AdmittedChains.recordProven, hkey, AdmittedStream.keyed, hproven]
  · simp [AdmittedChains.recordProven, hproven]
  · intro now
    rw [exists_mem_snoc, ← hkept.lapsed]
    simp [AdmittedChains.recordProven, AdmittedChains.lapsed, AdmittedStream.expired, hruled]

theorem parseMembership_some {cap : Option D.Cap} {membership : Option String} {badge : D.Cap}
    (h : parseMembership cap membership = .ok (some badge)) :
    ∃ slip, cap = some slip ∧ D.isAuthorityBound slip = true := by
  cases cap with
  | none => cases h
  | some slip =>
    refine ⟨slip, rfl, ?_⟩
    by_contra hslip
    rw [parseMembership, if_neg hslip] at h
    cases h

theorem FamilyAdmits.ruledOn {gate : Gate D.Base} {m : D.Moment} {peer : SessionPeer} {key : D.VerifyKey}
    {capability membership : Option String} {service : D.Service} {a : AdmittedStream D}
    (h : FamilyAdmits gate m peer key capability membership service a) : RuledOn gate a := by
  obtain ⟨-, cap, badge, witness, hcap, hbadge, hgate, rfl⟩ := h
  by_cases hwants : D.wantsCapability gate = true
  · cases badge with
    | some badge =>
      obtain ⟨slip, rfl, hslip⟩ := parseMembership_some hbadge
      exact .foreign m service slip badge (by simp [hwants]) hslip hgate
    | none =>
      cases cap with
      | none => exact .nothing (by simp)
      | some cap => exact .presented m service cap (by simp [hwants]) hgate
  · exact .nothing (by simp [hwants])

/-- Every admitted stream is bound to the session's one key, and a proven one rules on no token. -/
theorem AdmittedBy.bound (hD : D.Lawful) {serving : Serving D} {m : D.Moment} {now : SystemTime}
    {pools pools' : Pools} {session session' : PublicSession} {peer : SessionPeer}
    {capability membership : Option String} {service : D.Service} {a : AdmittedStream D}
    (h : AdmittedBy serving m now pools session peer capability membership service a pools' session') :
    peer.node.verifyKey D = .ok a.peer ∧ RuledOn serving.gate a ∧
      ∀ proven, a.proven = some proven → proven.key = a.peer ∧ a.ruled = [] := by
  cases h with
  | overlay key witness streams sessions session' hkey hopen hgate hstreams hsessions =>
    refine ⟨hkey, .nothing rfl, ?_⟩
    intro proven hproven
    cases hproven
  | proven key knows witness named slots hkey hclosed hroute hpeer hgate hnamed hknows hslots =>
    refine ⟨hkey, .nothing rfl, ?_⟩
    intro proven hproven
    cases hproven
    have hmints := hD.proven_mints m serving.gate key witness hgate
    rw [hmints.2.1] at hnamed
    cases hnamed
    exact ⟨rfl, rfl⟩
  | family key a hkey hclosed hroute hgate =>
    have hfamily := admitFamily_ok.1 hgate
    have hruled := hfamily.ruledOn
    obtain ⟨-, cap, badge, witness, hcap, hbadge, hgate, rfl⟩ := hfamily
    refine ⟨hkey, hruled, ?_⟩
    intro proven hproven
    cases hproven

theorem Kept.record {peer : SessionPeer} {chains chains' : AdmittedChains D}
    {streams : List (AdmittedStream D)} {a : AdmittedStream D} (hkept : Kept peer chains streams)
    (hkey : peer.node.verifyKey D = .ok a.peer)
    (hproven : ∀ proven, a.proven = some proven → proven.key = a.peer ∧ a.ruled = [])
    (h : recordStream chains a = .ok chains') : Kept peer chains' (streams ++ [a]) := by
  unfold recordStream at h
  cases hcase : a.proven with
  | none =>
    simp only [hcase] at h
    exact hkept.recordAll hkey hcase h
  | some proven =>
    simp only [hcase] at h
    cases h
    obtain ⟨hname, hruled⟩ := hproven proven hcase
    rw [hname]
    exact hkept.recordProven hkey (by simp [hcase]) hruled

namespace CutSession

variable {serving : Serving D} {oracle : LiveCuts D} {peer : SessionPeer}

theorem serve_refused {s : CutSession D} {dial : Dial D} {pools : Pools} {session : PublicSession}
    (h : (serveRequest serving dial pools session peer (some s.chains)).serve = none) :
    s.serve serving peer dial pools session = s := by
  have hchains := serveRequest_unserved h
  simp [serve, h, hchains]

/-- A served stream passed the record step, bound to the session's key. -/
theorem serve_recorded (hD : D.Lawful) {s : CutSession D} {dial : Dial D} {pools : Pools}
    {session : PublicSession} {served : Serve D}
    (h : (serveRequest serving dial pools session peer (some s.chains)).serve = some served) :
    ∃ chains', recordStream s.chains served.admitted = .ok chains' ∧
      s.serve serving peer dial pools session =
        { s with chains := chains', recorded := s.recorded ++ [served.admitted] } ∧
      peer.node.verifyKey D = .ok served.admitted.peer ∧ RuledOn serving.gate served.admitted ∧
      ∀ proven, served.admitted.proven = some proven →
        proven.key = served.admitted.peer ∧ served.admitted.ruled = [] := by
  obtain ⟨request, ⟨pools', session', hadmission⟩, hdispatched⟩ := serveRequest_serve h
  obtain ⟨chains', hrecord, hchains⟩ := map_ok.1 hdispatched.record
  refine ⟨chains', hrecord, ?_, hadmission.bound hD⟩
  simp [serve, h, ← hchains]

/-- The record is what the recorded streams say, and each was ruled on by the gate. -/
structure Exact (serving : Serving D) (peer : SessionPeer) (s : CutSession D) : Prop where
  kept : Kept peer s.chains s.recorded
  ruled : ∀ a ∈ s.recorded, RuledOn serving.gate a

theorem serve_exact (hD : D.Lawful) {s : CutSession D} (hs : s.Exact serving peer) (dial : Dial D)
    (pools : Pools) (session : PublicSession) :
    (s.serve serving peer dial pools session).Exact serving peer := by
  cases hserve : (serveRequest serving dial pools session peer (some s.chains)).serve with
  | none =>
    rw [serve_refused hserve]
    exact hs
  | some served =>
    obtain ⟨chains', hrecord, hserved, hkey, hruled, hproven⟩ := serve_recorded hD hserve
    rw [hserved]
    constructor
    · exact hs.kept.record hkey hproven hrecord
    · intro a ha
      rcases List.mem_append.1 ha with ha | ha
      · exact hs.ruled a ha
      · rw [List.mem_singleton.1 ha]
        exact hruled

theorem step_exact (hD : D.Lawful) {s : CutSession D} (hs : s.Exact serving peer) (event : SessionEvent D) :
    (s.step serving oracle peer event).Exact serving peer := by
  unfold step
  split_ifs with hended
  · exact hs
  · cases event with
    | stream dial pools session => exact serve_exact hD hs dial pools session
    | dropped => exact hs
    | sweep m now => exact ⟨hs.kept, hs.ruled⟩

theorem run_exact (hD : D.Lawful) (events : List (SessionEvent D)) :
    (run serving oracle peer events).Exact serving peer := by
  apply List.foldlRecOn events (step serving oracle peer) (b := start D)
  · exact ⟨.empty peer, by simp [start]⟩
  · intro s hs event _
    exact step_exact hD hs event

end CutSession

namespace Kept

variable {peer : SessionPeer} {chains : AdmittedChains D} {streams : List (AdmittedStream D)}
  {list : Denylist D} {trusts revokedPeer : D.Moment → D.VerifyKey → Bool}

theorem cuts_iff (h : Kept peer chains streams) (m : D.Moment) :
    list.cuts m chains = true ↔ ∃ a ∈ streams, a.recalled list m := by
  simp only [Denylist.cuts, Bool.or_eq_true, decide_eq_true_eq, h.ids, h.roots]
  constructor
  · rintro (⟨id, ⟨a, ha, cap, hcap, hid⟩, hrevoked⟩ | ⟨root, ⟨a, ha, cap, hcap, rfl⟩, hrevoked⟩)
    · exact ⟨a, ha, cap, hcap, .inl ⟨id, hid, hrevoked⟩⟩
    · exact ⟨a, ha, cap, hcap, .inr hrevoked⟩
  · rintro ⟨a, ha, cap, hcap, ⟨id, hid, hrevoked⟩ | hrevoked⟩
    · exact .inl ⟨id, ⟨a, ha, cap, hcap, hid⟩, hrevoked⟩
    · exact .inr ⟨D.root cap, ⟨a, ha, cap, hcap, rfl⟩, hrevoked⟩

theorem untrusted_iff (h : Kept peer chains streams) (m : D.Moment) :
    (∃ anchor ∈ chains.anchors, trusts m anchor = false) ↔ ∃ a ∈ streams, a.untrusted trusts m := by
  simp only [h.anchors]
  constructor
  · rintro ⟨anchor, ⟨a, ha, cap, hcap, rfl⟩, htrusts⟩
    exact ⟨a, ha, cap, hcap, htrusts⟩
  · rintro ⟨a, ha, cap, hcap, htrusts⟩
    exact ⟨D.root cap, ⟨a, ha, cap, hcap, rfl⟩, htrusts⟩

theorem peerKeys_iff (h : Kept peer chains streams) (m : D.Moment) :
    chains.peerKeys.any (revokedPeer m) = true ↔
      ∃ a ∈ streams, a.keyed ∧ PeerRevoked revokedPeer peer streams m := by
  have hmem (key : D.VerifyKey) : key ∈ chains.peerKeys ↔ ∃ proved, chains.peer = some proved ∧
      (key = proved ∨ chains.proven = true ∧ signTwin D proved = some key) := by
    cases hpeer : chains.peer with
    | none => simp [AdmittedChains.peerKeys, hpeer]
    | some proved =>
      cases hproven : chains.proven with
      | false => simp [AdmittedChains.peerKeys, hpeer, hproven]
      | true => simp [AdmittedChains.peerKeys, hpeer, hproven]
  simp only [List.any_eq_true, hmem, h.peer, h.proven]
  constructor
  · rintro ⟨key, ⟨proved, ⟨hkey, a, ha, hkeyed⟩, rfl | ⟨hproven, htwin⟩⟩, hrevoked⟩
    · exact ⟨a, ha, hkeyed, key, hkey, .inl hrevoked⟩
    · exact ⟨a, ha, hkeyed, proved, hkey, .inr ⟨hproven, key, htwin, hrevoked⟩⟩
  · rintro ⟨a, ha, hkeyed, proved, hkey, hrevoked | ⟨hproven, twin, htwin, hrevoked⟩⟩
    · exact ⟨proved, ⟨proved, ⟨hkey, a, ha, hkeyed⟩, .inl rfl⟩, hrevoked⟩
    · exact ⟨twin, ⟨proved, ⟨hkey, a, ha, hkeyed⟩, .inr ⟨hproven, htwin⟩⟩, hrevoked⟩

end Kept

theorem LiveCuts.check_isSome (oracle : LiveCuts D) (m : D.Moment) (chains : AdmittedChains D)
    (now : SystemTime) :
    (oracle.check m chains now).isSome = true ↔ oracle.cuts m chains = true ∨
      (∃ anchor ∈ chains.anchors, oracle.trusts m anchor = false) ∨
      chains.peerKeys.any (oracle.revokedPeer m) = true ∨ chains.lapsed now = true := by
  unfold check
  split_ifs with hcuts huntrusted hpeer hlapsed
  · simp [hcuts]
  · simp only [Option.isSome_some, true_iff]
    exact .inr (.inl huntrusted)
  · simp only [Option.isSome_some, true_iff]
    exact .inr (.inr (.inl hpeer))
  · simp [hlapsed]
  · simp [hcuts, huntrusted, hpeer, hlapsed]

/-- The cut fires on a record exactly when a stream it was made from calls for it. -/
theorem Kept.check_iff {peer : SessionPeer} {chains : AdmittedChains D} {streams : List (AdmittedStream D)}
    (h : Kept peer chains streams) (list : Denylist D) (trusts revokedPeer : D.Moment → D.VerifyKey → Bool)
    (m : D.Moment) (now : SystemTime) :
    (LiveCuts.check ⟨list.cuts, trusts, revokedPeer⟩ m chains now).isSome = true ↔
      Ends list trusts revokedPeer peer streams m now := by
  rw [LiveCuts.check_isSome]
  simp only [h.cuts_iff, h.untrusted_iff, h.peerKeys_iff, h.lapsed, Ends, and_or_left, exists_or]

/-- Two records of the same streams answer alike, cause included. -/
theorem Kept.check_congr {peer : SessionPeer} {chains chains' : AdmittedChains D}
    {streams streams' : List (AdmittedStream D)} (h : Kept peer chains streams)
    (h' : Kept peer chains' streams') (hsame : ∀ a, a ∈ streams ↔ a ∈ streams') (list : Denylist D)
    (trusts revokedPeer : D.Moment → D.VerifyKey → Bool) (m : D.Moment) (now : SystemTime) :
    LiveCuts.check ⟨list.cuts, trusts, revokedPeer⟩ m chains now =
      LiveCuts.check ⟨list.cuts, trusts, revokedPeer⟩ m chains' now := by
  have hrevoked : PeerRevoked revokedPeer peer streams m ↔ PeerRevoked revokedPeer peer streams' m := by
    simp only [PeerRevoked, hsame]
  have hcuts : list.cuts m chains = list.cuts m chains' := by
    rw [Bool.eq_iff_iff, h.cuts_iff, h'.cuts_iff]
    simp only [hsame]
  have huntrusted : (∃ anchor ∈ chains.anchors, trusts m anchor = false) ↔
      ∃ anchor ∈ chains'.anchors, trusts m anchor = false := by
    rw [h.untrusted_iff, h'.untrusted_iff]
    simp only [hsame]
  have hpeer : chains.peerKeys.any (revokedPeer m) = chains'.peerKeys.any (revokedPeer m) := by
    rw [Bool.eq_iff_iff, h.peerKeys_iff, h'.peerKeys_iff]
    simp only [hsame, hrevoked]
  have hlapsed : chains.lapsed now = chains'.lapsed now := by
    rw [Bool.eq_iff_iff, h.lapsed, h'.lapsed]
    simp only [hsame]
  simp only [LiveCuts.check, hcuts, huntrusted, hpeer, hlapsed]

/-- A sweep ends a live session exactly when a stream recorded so far calls for it, whatever the order
they were recorded in; a refused stream changes nothing, an open one leaves the record as it was, and an
anchor is only ever the root of a stream's first cap. -/
theorem live_cut_exact (hD : D.Lawful) (serving : Serving D) (list : Denylist D)
    (trusts revokedPeer : D.Moment → D.VerifyKey → Bool) (peer : SessionPeer) :
    let oracle : LiveCuts D := ⟨list.cuts, trusts, revokedPeer⟩
    let run := CutSession.run serving oracle peer
    let step := CutSession.step serving oracle peer
    (∀ events m now, (run events).ended = none →
      ((step (run events) (.sweep m now)).ended ≠ none ↔
        Ends list trusts revokedPeer peer (run events).recorded m now)) ∧
    (∀ events events' m now, (run events).ended = none → (run events').ended = none →
      (run events).recorded.Perm (run events').recorded →
      (step (run events) (.sweep m now)).ended = (step (run events') (.sweep m now)).ended) ∧
    (∀ events dial pools session,
      (serveRequest serving dial pools session peer (some (run events).chains)).serve = none →
      step (run events) (.stream dial pools session) = run events) ∧
    (∀ events dial pools session served,
      (serveRequest serving dial pools session peer (some (run events).chains)).serve = some served →
      served.admitted.ruled = [] → served.admitted.proven = none →
      (step (run events) (.stream dial pools session)).chains = (run events).chains) ∧
    (∀ events root, root ∈ (run events).chains.anchors ↔
      ∃ a ∈ (run events).recorded, ∃ cap, a.ruled.head? = some cap ∧ D.root cap = root) ∧
    (∀ events, ∀ a ∈ (run events).recorded, RuledOn serving.gate a) := by
  intro oracle run step
  have hexact (events : List (SessionEvent D)) : (run events).Exact serving peer :=
    CutSession.run_exact hD events
  have hsweep (s : CutSession D) (hs : s.ended = none) (m : D.Moment) (now : SystemTime) :
      (step s (.sweep m now)).ended = oracle.check m s.chains now := by
    simp [step, CutSession.step, hs]
  refine ⟨?_, ?_, ?_, ?_, ?_, ?_⟩
  · intro events m now hlive
    rw [hsweep _ hlive, ← (hexact events).kept.check_iff, Option.isSome_iff_ne_none]
  · intro events events' m now hlive hlive' hperm
    rw [hsweep _ hlive, hsweep _ hlive']
    apply (hexact events).kept.check_congr (hexact events').kept
    intro a
    exact hperm.mem_iff
  · intro events dial pools session hrefused
    have hserve := CutSession.serve_refused hrefused
    simp only [step, CutSession.step, hserve]
    split_ifs
    · rfl
    · rfl
  · intro events dial pools session served hserved hopen hproven
    obtain ⟨chains', hrecord, hserve, -⟩ := CutSession.serve_recorded hD hserved
    rw [recordStream, hproven, hopen] at hrecord
    have hchains := recordAll_open hrecord
    simp only [step, CutSession.step, hserve, hchains]
    split_ifs
    · rfl
    · rfl
  · intro events root
    exact (hexact events).kept.anchors root
  · intro events
    exact (hexact events).ruled

/-- A slip good through 100 holds its session through a sweep at 100 and ends it at 101. -/
theorem live_cut_exact_brief :
    let D := Deps.small (Vector.replicate 32 0)
    let list : Denylist D := ⟨fun _ _ => false, fun _ _ => false⟩
    let oracle : LiveCuts D := ⟨list.cuts, fun _ _ => true, fun _ _ => false⟩
    let peer : SessionPeer := ⟨⟨.Ed25519, Vector.replicate 32 7⟩, ⟨.Proven⟩⟩
    let routes : AList (fun _ : String => Route D) :=
      AList.singleton "shell" (.family (.Handler (.bound .Never .Metered)))
    let serving : Serving D :=
      ⟨.rooted (Vector.replicate 32 0), ∅, ∅, ⟨routes⟩, fun _ _ => true, some oracle⟩
    let dial : Dial D :=
      ⟨some (Request.write ⟨"shell", some "brief", none⟩).2, [], 0, ⟨0⟩, fun _ _ => .ok .Stream, none⟩
    let events : List (SessionEvent D) := [.stream dial Pools.new ⟨false⟩, .sweep [] 100]
    let run := CutSession.run serving oracle peer
    (run events).ended = none ∧
      (CutSession.step serving oracle peer (run events) (.sweep [] 101)).ended ≠ none := by
  intro D list oracle peer routes serving dial events run
  have hlive : (run events).ended = none := by
    apply Option.isNone_iff_eq_none.1
    decide +kernel
  have hrecorded : ∃ a, (run events).recorded = [a] ∧ a.expired 101 :=
    ⟨_, rfl, _, List.mem_singleton.2 rfl, 100, rfl, by decide⟩
  obtain ⟨a, hrecorded, hexpired⟩ := hrecorded
  obtain ⟨hsweep, -⟩ := live_cut_exact (Deps.small_lawful (Vector.replicate 32 0)) serving list
    (fun _ _ => true) (fun _ _ => false) peer
  refine ⟨hlive, (hsweep events [] 101 hlive).2 ⟨a, ?_, .inr (.inr (.inr hexpired))⟩⟩
  rw [hrecorded]
  exact List.mem_singleton_self a

end Tightbeam
