import Tightbeam.AdmitCases
import Mathlib.Logic.Relation

/-!
# Permit accounting

The three pools over a whole node: sessions come and go, each one's streams are admitted, refused and
end in any order, and every permit is either free or held by exactly what it was taken for.
-/
namespace Tightbeam

variable {D : Deps}

/-- A session enters the public pool at most once: it already held its permit, or it takes a free one. -/
theorem PublicSession.enter_cases {session session' : PublicSession} {sessions left : Semaphore}
    (h : session.enter sessions = some (session', left)) :
    (session.held = true ∧ session' = session ∧ left = sessions) ∨
      (session.held = false ∧ session' = ⟨true⟩ ∧ sessions = left.release) := by
  unfold enter at h
  by_cases hheld : session.held = true
  · rw [if_pos hheld] at h
    cases h
    exact .inl ⟨hheld, rfl, rfl⟩
  · rw [if_neg hheld] at h
    cases htake : sessions.tryAcquire with
    | none =>
      rw [htake] at h
      cases h
    | some taken =>
      rw [htake] at h
      cases h
      exact .inr ⟨by simpa using hheld, rfl, Semaphore.tryAcquire_eq_some.1 htake⟩

/-- A name admitted through an open overlay. -/
def Serving.Overlay (serving : Serving D) (service : D.Service) : Bool :=
  service.val ∈ serving.publicServices ∨ service.val ∈ serving.publicUnsafe

/-- A name admitted on a proven-only route. -/
def Serving.ProvenRoute (serving : Serving D) (service : D.Service) : Bool :=
  !serving.Overlay service && (serving.services.proven service.val).isSome

/-- The pool a stream's permit comes from is decided by its name. -/
def Serving.permitOf (serving : Serving D) (service : D.Service) : Option StreamPermit :=
  if serving.Overlay service then some .publicStream
  else if serving.ProvenRoute service then some .provenStream
  else none

structure LiveStream (D : Deps) where
  service : D.Service
  admitted : AdmittedStream D

structure LiveSession (D : Deps) where
  session : PublicSession
  streams : List (LiveStream D)

/-- The pools, and every session the node is serving. -/
structure Node (D : Deps) where
  pools : Pools
  sessions : List (LiveSession D)

/-- A stream's frame ends, and its permit goes back to its pool. -/
def Pools.giveBack (pools : Pools) : Option StreamPermit → Pools
  | some .publicStream => { pools with streams := pools.streams.release }
  | some .provenStream => { pools with proven := pools.proven.release }
  | none => pools

def LiveSession.after (live : LiveSession D) (service : D.Service) (ruling : Ruling D) : LiveSession D :=
  match ruling.result with
  | .ok admitted => ⟨ruling.session, ⟨service, admitted⟩ :: live.streams⟩
  | .error _ => ⟨ruling.session, live.streams⟩

/-- Every stream of a session ends with it, and then its own permit goes back. -/
def Pools.endSession (pools : Pools) (live : LiveSession D) : Pools :=
  let pools := live.streams.foldl (fun pools stream => pools.giveBack stream.admitted.permit) pools
  if live.session.held then { pools with sessions := pools.sessions.release } else pools

/-- One event at the node. -/
inductive Node.Step (serving : Serving D) : Node D → Node D → Prop where
  | accepted (pools : Pools) (sessions : List (LiveSession D)) :
    Step serving ⟨pools, sessions⟩ ⟨pools, ⟨⟨false⟩, []⟩ :: sessions⟩
  | requested (pools : Pools) (before after : List (LiveSession D)) (live : LiveSession D) (m : D.Moment)
      (now : SystemTime) (peer : SessionPeer) (capability membership : Option String)
      (service : D.Service) (ruling : Ruling D)
      (h : ruling = admitRequest serving m now pools live.session peer capability membership service) :
    Step serving ⟨pools, before ++ live :: after⟩
      ⟨ruling.pools, before ++ live.after service ruling :: after⟩
  | streamEnded (pools : Pools) (before after : List (LiveSession D)) (session : PublicSession)
      (first rest : List (LiveStream D)) (stream : LiveStream D) :
    Step serving ⟨pools, before ++ ⟨session, first ++ stream :: rest⟩ :: after⟩
      ⟨pools.giveBack stream.admitted.permit, before ++ ⟨session, first ++ rest⟩ :: after⟩
  | sessionEnded (pools : Pools) (before after : List (LiveSession D)) (live : LiveSession D) :
    Step serving ⟨pools, before ++ live :: after⟩ ⟨pools.endSession live, before ++ after⟩

/-- Every live stream of the node. -/
def Node.live (node : Node D) : List (LiveStream D) := node.sessions.flatMap LiveSession.streams

/-- How many live streams hold a permit of this pool. -/
def Node.holds (node : Node D) (permit : StreamPermit) : Nat :=
  node.live.countP fun stream => stream.admitted.permit = some permit

/-- How many live sessions hold a public-session permit. -/
def Node.heldSessions (node : Node D) : Nat := node.sessions.countP fun live => live.session.held

/-- Every permit is free or held, and every stream holds the permit of its name. -/
structure Node.Accounts (serving : Serving D) (size : Pools) (node : Node D) : Prop where
  permits : ∀ stream ∈ node.live, stream.admitted.permit = serving.permitOf stream.service
  streams : node.pools.streams.free + node.holds .publicStream = size.streams.free
  sessions : node.pools.sessions.free + node.heldSessions = size.sessions.free
  proven : node.pools.proven.free + node.holds .provenStream = size.proven.free

/-- What one ruling takes from the pools, by the permit it gave and the session's before and after. -/
structure Ruling.Takes (serving : Serving D) (service : D.Service) (pools pools' : Pools)
    (session session' : PublicSession) (admitted : AdmittedStream D) : Prop where
  permit : admitted.permit = serving.permitOf service
  streams : pools.streams.free = pools'.streams.free +
    if admitted.permit = some .publicStream then 1 else 0
  sessions : pools.sessions.free + session.held.toNat = pools'.sessions.free + session'.held.toNat
  proven : pools.proven.free = pools'.proven.free +
    if admitted.permit = some .provenStream then 1 else 0

theorem AdmittedBy.takes {serving : Serving D} {m : D.Moment} {now : SystemTime} {pools pools' : Pools}
    {session session' : PublicSession} {peer : SessionPeer} {capability membership : Option String}
    {service : D.Service} {admitted : AdmittedStream D}
    (h : AdmittedBy serving m now pools session peer capability membership service admitted pools' session') :
    Ruling.Takes serving service pools pools' session session' admitted := by
  cases h with
  | overlay key witness streams sessions session' hkey hopen hgate hstreams hsessions =>
    refine ⟨?_, by rw [hstreams]; rfl, ?_, rfl⟩
    · simp [Serving.permitOf, Serving.Overlay, hopen]
    · obtain ⟨hheld, rfl, rfl⟩ | ⟨hfree, rfl, hleft⟩ := PublicSession.enter_cases hsessions
      · rfl
      · rw [hleft, hfree]
        rfl
  | proven key knows witness named slots hkey hclosed hroute hpeer hgate hnamed hknows hslots =>
    refine ⟨?_, rfl, rfl, by rw [hslots]; rfl⟩
    simp [Serving.permitOf, Serving.ProvenRoute, Serving.Overlay, hclosed, hroute]
  | family key admitted hkey hclosed hroute hgate =>
    obtain ⟨-, cap, badge, witness, -, -, -, rfl⟩ := admitFamily_ok.1 hgate
    refine ⟨?_, rfl, rfl, rfl⟩
    simp [Serving.permitOf, Serving.ProvenRoute, Serving.Overlay, hclosed, hroute]

/-- A session that holds its permit takes no other, and one without takes at most one. -/
theorem AdmittedBy.entered {serving : Serving D} {m : D.Moment} {now : SystemTime} {pools pools' : Pools}
    {session session' : PublicSession} {peer : SessionPeer} {capability membership : Option String}
    {service : D.Service} {admitted : AdmittedStream D}
    (h : AdmittedBy serving m now pools session peer capability membership service admitted pools' session') :
    (session' = session ∧ pools'.sessions = pools.sessions) ∨
      (session.held = false ∧ session'.held = true ∧ pools.sessions = pools'.sessions.release) := by
  cases h with
  | overlay key witness streams sessions session' hkey hopen hgate hstreams hsessions =>
    obtain ⟨-, rfl, rfl⟩ | ⟨hfree, rfl, hleft⟩ := PublicSession.enter_cases hsessions
    · exact .inl ⟨rfl, rfl⟩
    · exact .inr ⟨hfree, rfl, hleft⟩
  | proven key knows witness named slots => exact .inl ⟨rfl, rfl⟩
  | family key admitted => exact .inl ⟨rfl, rfl⟩

theorem giveBack_fold (streams : List (LiveStream D)) (pools : Pools) :
    let pools' := streams.foldl (fun pools stream => pools.giveBack stream.admitted.permit) pools
    pools'.streams.free =
        pools.streams.free + streams.countP (fun s => s.admitted.permit = some .publicStream) ∧
      pools'.sessions = pools.sessions ∧
      pools'.proven.free =
        pools.proven.free + streams.countP (fun s => s.admitted.permit = some .provenStream) := by
  induction streams generalizing pools with
  | nil => simp
  | cons stream streams ih =>
    simp only [List.foldl_cons, List.countP_cons]
    obtain ⟨hstreams, hsessions, hproven⟩ := ih (pools.giveBack stream.admitted.permit)
    rw [hstreams, hsessions, hproven]
    cases hpermit : stream.admitted.permit with
    | none => simp [Pools.giveBack]
    | some permit =>
      cases permit with
      | publicStream =>
        simp [Pools.giveBack]
        omega
      | provenStream =>
        simp [Pools.giveBack]
        omega

namespace Node.Accounts

variable {serving : Serving D} {size pools pools' : Pools} {before after : List (LiveSession D)}

theorem requested {live : LiveSession D} {session' : PublicSession} {service : D.Service}
    {admitted : AdmittedStream D} (h : Accounts serving size ⟨pools, before ++ live :: after⟩)
    (htakes : Ruling.Takes serving service pools pools' live.session session' admitted) :
    Accounts serving size ⟨pools', before ++ ⟨session', ⟨service, admitted⟩ :: live.streams⟩ :: after⟩ := by
  obtain ⟨hpermits, hstreams, hsessions, hproven⟩ := h
  obtain ⟨hpermit, htook, hentered, hslot⟩ := htakes
  refine ⟨?_, ?_, ?_, ?_⟩
  · intro stream hstream
    simp only [Node.live, List.flatMap_append, List.flatMap_cons, List.mem_append, List.mem_cons]
      at hpermits hstream
    obtain hmem | (rfl | hmem) | hmem := hstream
    · exact hpermits stream (.inl hmem)
    · exact hpermit
    · exact hpermits stream (.inr (.inl hmem))
    · exact hpermits stream (.inr (.inr hmem))
  · simp [Node.holds, Node.live, List.countP_cons] at hstreams ⊢
    omega
  · simp [Node.heldSessions, List.countP_cons] at hsessions ⊢
    cases hbefore : live.session.held <;> cases hnow : session'.held <;>
      simp_all <;> omega
  · simp [Node.holds, Node.live, List.countP_cons] at hproven ⊢
    omega

theorem streamEnded {session : PublicSession} {first rest : List (LiveStream D)} {stream : LiveStream D}
    (h : Accounts serving size ⟨pools, before ++ ⟨session, first ++ stream :: rest⟩ :: after⟩) :
    Accounts serving size
      ⟨pools.giveBack stream.admitted.permit, before ++ ⟨session, first ++ rest⟩ :: after⟩ := by
  obtain ⟨hpermits, hstreams, hsessions, hproven⟩ := h
  have hkept : ∀ kept ∈ Node.live ⟨pools.giveBack stream.admitted.permit,
      before ++ ⟨session, first ++ rest⟩ :: after⟩, kept.admitted.permit = serving.permitOf kept.service := by
    intro kept hmem
    simp only [Node.live, List.flatMap_append, List.flatMap_cons, List.mem_append, List.mem_cons]
      at hpermits hmem
    obtain hmem | (hmem | hmem) | hmem := hmem
    · exact hpermits kept (.inl hmem)
    · exact hpermits kept (.inr (.inl (.inl hmem)))
    · exact hpermits kept (.inr (.inl (.inr (.inr hmem))))
    · exact hpermits kept (.inr (.inr hmem))
  cases hpermit : stream.admitted.permit with
  | none =>
    refine ⟨hkept, ?_, ?_, ?_⟩
    · simpa [Node.holds, Node.live, List.countP_cons, hpermit, Pools.giveBack] using hstreams
    · simpa [Node.heldSessions, List.countP_cons, Pools.giveBack] using hsessions
    · simpa [Node.holds, Node.live, List.countP_cons, hpermit, Pools.giveBack] using hproven
  | some permit =>
    cases permit with
    | publicStream =>
      refine ⟨hkept, ?_, ?_, ?_⟩
      · simp [Node.holds, Node.live, hpermit, Pools.giveBack] at hstreams ⊢
        omega
      · simpa [Node.heldSessions, List.countP_cons, Pools.giveBack] using hsessions
      · simpa [Node.holds, Node.live, List.countP_cons, hpermit, Pools.giveBack] using hproven
    | provenStream =>
      refine ⟨hkept, ?_, ?_, ?_⟩
      · simpa [Node.holds, Node.live, List.countP_cons, hpermit, Pools.giveBack] using hstreams
      · simpa [Node.heldSessions, List.countP_cons, Pools.giveBack] using hsessions
      · simp [Node.holds, Node.live, hpermit, Pools.giveBack] at hproven ⊢
        omega

theorem sessionEnded {live : LiveSession D} (h : Accounts serving size ⟨pools, before ++ live :: after⟩) :
    Accounts serving size ⟨pools.endSession live, before ++ after⟩ := by
  obtain ⟨hpermits, hstreams, hsessions, hproven⟩ := h
  obtain ⟨hfreed, hsame, hslots⟩ := giveBack_fold live.streams pools
  have hkept : ∀ kept ∈ Node.live ⟨pools.endSession live, before ++ after⟩,
      kept.admitted.permit = serving.permitOf kept.service := by
    intro kept hmem
    simp only [Node.live, List.flatMap_append, List.flatMap_cons, List.mem_append] at hpermits hmem
    obtain hmem | hmem := hmem
    · exact hpermits kept (.inl hmem)
    · exact hpermits kept (.inr (.inr hmem))
  refine ⟨hkept, ?_, ?_, ?_⟩
  · cases hheld : live.session.held <;>
      simp [Pools.endSession, Node.holds, Node.live, hheld, hfreed] at hstreams ⊢ <;> omega
  · cases hheld : live.session.held <;>
      simp [Pools.endSession, Node.heldSessions, hheld, hsame] at hsessions ⊢ <;> omega
  · cases hheld : live.session.held <;>
      simp [Pools.endSession, Node.holds, Node.live, hheld, hslots] at hproven ⊢ <;> omega

end Node.Accounts

/-- One event keeps the account. -/
theorem Node.step_accounts {serving : Serving D} {size : Pools} {node node' : Node D}
    (hstep : Node.Step serving node node') (h : node.Accounts serving size) :
    node'.Accounts serving size := by
  cases hstep with
  | accepted pools sessions =>
    obtain ⟨hpermits, hstreams, hsessions, hproven⟩ := h
    refine ⟨?_, ?_, ?_, ?_⟩
    · simpa [Node.live] using hpermits
    · simpa [Node.holds, Node.live] using hstreams
    · simpa [Node.heldSessions] using hsessions
    · simpa [Node.holds, Node.live] using hproven
  | requested pools before after live m now peer capability membership service ruling hruling =>
    cases hresult : ruling.result with
    | error refusal =>
      obtain ⟨hpools, hsession⟩ := admit_error (hruling ▸ hresult)
      rw [← hruling] at hpools hsession
      have hsame : live.after service ruling = live := by
        simp [LiveSession.after, hresult, hsession]
      rw [hsame, hpools]
      exact h
    | ok admitted =>
      have hby := admit_ok (hruling ▸ hresult)
      rw [← hruling] at hby
      have htakes := hby.takes
      have hafter : live.after service ruling = ⟨ruling.session, ⟨service, admitted⟩ :: live.streams⟩ := by
        simp [LiveSession.after, hresult]
      rw [hafter]
      exact h.requested htakes
  | streamEnded pools before after session first rest stream =>
    exact h.streamEnded
  | sessionEnded pools before after live =>
    exact h.sessionEnded

/-- How many live streams were admitted for a name like this. -/
def Node.admittedOn (node : Node D) (path : D.Service → Bool) : Nat :=
  node.live.countP fun stream => path stream.service

theorem Serving.permitOf_public {serving : Serving D} {service : D.Service} :
    serving.permitOf service = some .publicStream ↔ serving.Overlay service = true := by
  unfold permitOf
  split_ifs with hopen hproven
  · simpa using hopen
  · simpa using hopen
  · simpa using hopen

theorem Serving.permitOf_proven {serving : Serving D} {service : D.Service} :
    serving.permitOf service = some .provenStream ↔ serving.ProvenRoute service = true := by
  unfold permitOf
  split_ifs with hopen hproven
  · simp [ProvenRoute, hopen]
  · simpa using hproven
  · simpa using hproven

theorem Node.Accounts.holds_eq {serving : Serving D} {size : Pools} {node : Node D}
    (h : node.Accounts serving size) {permit : StreamPermit} {path : D.Service → Bool}
    (hpath : ∀ service, serving.permitOf service = some permit ↔ path service = true) :
    node.holds permit = node.admittedOn path := by
  refine List.countP_congr fun stream hstream => ?_
  rw [h.permits stream hstream]
  simpa using hpath stream.service

/-- A node keeps its account through any order of events. -/
theorem Node.run_accounts {serving : Serving D} {size : Pools} {node : Node D}
    (h : Relation.ReflTransGen (Node.Step serving) ⟨size, []⟩ node) : node.Accounts serving size := by
  induction h with
  | refl =>
    refine ⟨?_, rfl, rfl, rfl⟩
    intro stream hstream
    cases hstream
  | tail _ hstep ih => exact Node.step_accounts hstep ih

/-- Every permit is free or held by what it was taken for, after any order of admissions, refusals,
stream ends and session ends. A refusal changes nothing, the family path takes nothing, a session never
takes a second permit, and a proven slot is only ever taken by a proven key that is not revoked and that
the route knows. -/
theorem permit_accounting (hD : D.Lawful) (serving : Serving D) :
    (∀ node, Relation.ReflTransGen (Node.Step serving) ⟨Pools.new, []⟩ node →
      node.pools.streams.free + node.admittedOn serving.Overlay = publicStreamPermits ∧
      node.pools.sessions.free + node.heldSessions = publicSessionPermits ∧
      node.pools.proven.free + node.admittedOn serving.ProvenRoute = provenStreamPermits) ∧
    ∀ (m : D.Moment) (now : SystemTime) (pools : Pools) (session : PublicSession) (peer : SessionPeer)
      (capability membership : Option String) (service : D.Service),
      let ruling := admitRequest serving m now pools session peer capability membership service
      (∀ refusal, ruling.result = .error refusal → ruling.pools = pools ∧ ruling.session = session) ∧
      (serving.Overlay service = false → serving.ProvenRoute service = false →
        ruling.pools = pools ∧ ruling.session = session) ∧
      ((ruling.session = session ∧ ruling.pools.sessions = pools.sessions) ∨
        (session.held = false ∧ ruling.session.held = true ∧
          pools.sessions = ruling.pools.sessions.release)) ∧
      (ruling.pools.proven ≠ pools.proven → peerProven peer.security = true ∧ ∃ knows key,
        serving.services.proven service.val = some knows ∧ peer.node.verifyKey D = .ok key ∧
        D.revokes m serving.gate key = false ∧ knows m key = true) := by
  refine ⟨?_, ?_⟩
  · intro node hrun
    have haccounts := Node.run_accounts hrun
    have hstreams := haccounts.streams
    have hproven := haccounts.proven
    rw [haccounts.holds_eq fun _ => Serving.permitOf_public] at hstreams
    rw [haccounts.holds_eq fun _ => Serving.permitOf_proven] at hproven
    exact ⟨hstreams, haccounts.sessions, hproven⟩
  · intro m now pools session peer capability membership service ruling
    refine ⟨?_, ?_, ?_, ?_⟩
    · intro refusal hrefused
      exact admit_error hrefused
    · intro hopen hroute
      cases hresult : ruling.result with
      | error refusal => exact admit_error hresult
      | ok admitted =>
        have hclosed : ¬ (service.val ∈ serving.publicServices ∨ service.val ∈ serving.publicUnsafe) := by
          simpa [Serving.Overlay] using hopen
        have hnone : serving.services.proven service.val = none := by
          simpa [Serving.ProvenRoute, hopen] using hroute
        have hby := admit_ok hresult
        generalize ruling.pools = pools' at hby ⊢
        generalize ruling.session = session' at hby ⊢
        cases hby with
        | overlay key witness streams sessions session' hkey hopened => exact absurd hopened hclosed
        | proven key knows witness named slots hkey hshut hfound =>
          cases hnone.symm.trans hfound
        | family key admitted => exact ⟨rfl, rfl⟩
    · cases hresult : ruling.result with
      | error refusal =>
        obtain ⟨hpools, hsession⟩ := admit_error hresult
        exact .inl ⟨hsession, congrArg Pools.sessions hpools⟩
      | ok admitted => exact (admit_ok hresult).entered
    · intro hchanged
      cases hresult : ruling.result with
      | error refusal => exact absurd (congrArg Pools.proven (admit_error hresult).1) hchanged
      | ok admitted =>
        have hby := admit_ok hresult
        change ruling.pools.proven ≠ _ at hchanged
        generalize ruling.pools = pools' at hby hchanged
        generalize ruling.session = session' at hby
        cases hby with
        | overlay key witness streams sessions session' => exact absurd rfl hchanged
        | family key admitted => exact absurd rfl hchanged
        | proven key knows witness named slots hkey hclosed hroute hpeer hgate hnamed hknows =>
          obtain ⟨-, hrevocable, hrevokes, -⟩ := hD.proven_mints m serving.gate key witness hgate
          cases hrevocable.symm.trans hnamed
          exact ⟨hpeer, knows, key, hroute, hkey, hrevokes, hknows⟩

theorem permit_accounting_public :
    let root := Vector.replicate 32 0
    let D := Deps.small root
    let web : D.Service := ⟨"web", by decide⟩
    let peer : SessionPeer := ⟨⟨.Ed25519, Vector.replicate 32 7⟩, ⟨.Announced⟩⟩
    let serving : Serving D := ⟨.rooted root, {"web"}, ∅, ⟨∅⟩, fun _ _ => true, none⟩
    let ruling := admitRequest serving [] 0 Pools.new ⟨false⟩ peer none none web
    let node : Node D := ⟨ruling.pools, [LiveSession.after ⟨⟨false⟩, []⟩ web ruling]⟩
    node.heldSessions = 1 ∧ node.admittedOn serving.Overlay = 1 ∧
      node.pools.streams.free + node.admittedOn serving.Overlay = publicStreamPermits ∧
      node.pools.sessions.free + node.heldSessions = publicSessionPermits := by
  intro root D web peer serving ruling node
  have hrun : Relation.ReflTransGen (Node.Step serving) ⟨Pools.new, []⟩ node :=
    .tail (.tail .refl (.accepted Pools.new []))
      (.requested Pools.new [] [] ⟨⟨false⟩, []⟩ [] 0 peer none none web ruling rfl)
  have haccounts := (permit_accounting (Deps.small_lawful root) serving).1 node hrun
  exact ⟨rfl, rfl, haccounts.1, haccounts.2.1⟩

end Tightbeam
