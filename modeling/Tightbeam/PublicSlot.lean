import Tightbeam.Posture
import Tightbeam.CutBounds
import Tightbeam.Permits

/-!
# What a session's public permit is held for

Admission classifies a session as public, and the checks that may still refuse the stream come after
it. Of these an opened service can meet two: the operator disabled it, or its raw source did not open.
-/
namespace Tightbeam

open Checked

variable {D : Deps}

theorem Serving.asked_eq_some {serving : Serving D} {dial : Dial D} {service : D.Service}
    (h : serving.asked dial = some service) :
    ∃ input request requested, dial.input = some input ∧ (Request.read.run input).1 = .ok request ∧
      parseService D request.service = .ok requested ∧
      serving.services.resolveSingleService requested = service := by
  unfold asked at h
  cases hinput : dial.input with
  | none =>
    rw [hinput] at h
    cases h
  | some input =>
    simp only [hinput] at h
    cases hread : (Request.read.run input).1 with
    | error e =>
      rw [hread] at h
      cases h
    | ok request =>
      simp only [hread] at h
      cases hname : parseService D request.service with
      | error e =>
        rw [hname] at h
        cases h
      | ok requested =>
        simp only [hname, Option.some.injEq] at h
        exact ⟨input, request, requested, rfl, hread, hname, h⟩

/-- This name is to be had at this dial: it is enabled, and a raw source opens. -/
structure Serving.Available (serving : Serving D) (node : NodeId) (dial : Dial D) (service : D.Service) :
    Prop where
  enabled : serving.enabled dial.moment service = true
  opens : ∀ route stream, serving.services.get service.val = some route → route.target = .RawStream stream →
    ∃ opened, openRaw dial node stream = .ok opened

/-- Where the stream asks for an opened name, the name is to be had. -/
def Serving.FindsAvailable (serving : Serving D) (node : NodeId) (dial : Dial D) : Prop :=
  ∀ service, serving.asked dial = some service → serving.Overlay service = true →
    serving.Available node dial service

/-- A session's permit and record, and the streams it was served. -/
structure SlotSession (D : Deps) where
  session : PublicSession
  chains : Option (AdmittedChains D)
  served : List (Serve D)

namespace SlotSession

/-- A session keeps a record when a cut is wired. -/
def start (serving : Serving D) : SlotSession D :=
  ⟨⟨false⟩, serving.cuts.map fun _ => .empty D, []⟩

/-- One stream, with the pools as the node's other sessions leave them. -/
def outcome (serving : Serving D) (peer : SessionPeer) (s : SlotSession D) (stream : Dial D × Pools) :
    Outcome D :=
  serveRequest serving stream.1 stream.2 s.session peer s.chains

def step (serving : Serving D) (peer : SessionPeer) (s : SlotSession D) (stream : Dial D × Pools) :
    SlotSession D :=
  let outcome := s.outcome serving peer stream
  ⟨outcome.session, outcome.chains, s.served ++ outcome.serve.toList⟩

def run (serving : Serving D) (peer : SessionPeer) (streams : List (Dial D × Pools)) : SlotSession D :=
  streams.foldl (step serving peer) (start serving)

end SlotSession

/-- An admission on an opened name rules on no token. -/
theorem AdmittedBy.opened (hD : D.Lawful) {serving : Serving D} {m : D.Moment} {now : SystemTime}
    {pools pools' : Pools} {session session' : PublicSession} {peer : SessionPeer}
    {capability membership : Option String} {service : D.Service} {admitted : AdmittedStream D}
    (h : AdmittedBy serving m now pools session peer capability membership service admitted pools' session')
    (hoverlay : serving.Overlay service = true) :
    admitted.witness.origin = .Open ∧ admitted.ruled = [] ∧ admitted.proven = none := by
  have hopen : service.val ∈ serving.publicServices ∨ service.val ∈ serving.publicUnsafe :=
    of_decide_eq_true hoverlay
  cases h with
  | overlay key witness streams sessions session' hkey hopened hgate =>
    exact ⟨(hD.open_mints m key none service witness hgate).1, rfl, rfl⟩
  | proven key knows witness named slots hkey hclosed => exact absurd hopen hclosed
  | family key admitted hkey hclosed => exact absurd hopen hclosed

/-- Only an opened name touches a session's permit. -/
theorem AdmittedBy.session_kept {serving : Serving D} {m : D.Moment} {now : SystemTime}
    {pools pools' : Pools} {session session' : PublicSession} {peer : SessionPeer}
    {capability membership : Option String} {service : D.Service} {admitted : AdmittedStream D}
    (h : AdmittedBy serving m now pools session peer capability membership service admitted pools' session')
    (hclosed : serving.Overlay service = false) : session' = session := by
  cases h with
  | overlay key witness streams sessions session' hkey hopened =>
    simp [Serving.Overlay, hopened] at hclosed
  | proven key knows witness named slots => rfl
  | family key admitted => rfl

/-- A record that is under its ceiling. -/
def UnderCeiling (chains : Option (AdmittedChains D)) : Prop :=
  ∀ kept, chains = some kept → kept.ids.card ≤ 1024

theorem recordAll_card {chains kept : AdmittedChains D} {peer : D.VerifyKey} {ruled : List D.Cap}
    (h : chains.recordAll peer ruled = .ok kept) : kept.ids.card ≤ 1024 := by
  have hread : ¬ Unreadable D ruled := by
    intro hread
    obtain ⟨e, he⟩ := chains.recordAll_unreadable peer ruled hread
    cases he.symm.trans h
  have hroom : (chains.ids ∪ idsOf D ruled).card ≤ 1024 := by
    by_contra hfull
    cases (chains.recordAll_full peer ruled hread (Nat.not_le.1 hfull)).symm.trans h
  obtain ⟨kept', hkept, hunions⟩ := chains.recordAll_kept peer ruled hread hroom
  cases hkept.symm.trans h
  rw [hunions.ids]
  exact hroom

theorem UnderCeiling.record {chains chains' : Option (AdmittedChains D)} {admitted : AdmittedStream D}
    (hunder : UnderCeiling chains) (h : recordChains chains admitted = .ok chains') : UnderCeiling chains' := by
  intro kept hkept
  cases chains with
  | none =>
    cases h
    cases hkept
  | some held =>
    obtain ⟨kept', hrecord, rfl⟩ := map_ok.1 h
    cases hkept
    unfold recordStream at hrecord
    cases hproven : admitted.proven with
    | none =>
      rw [hproven] at hrecord
      exact recordAll_card hrecord
    | some proven =>
      rw [hproven] at hrecord
      cases hrecord
      exact hunder held rfl

/-- A stream that ruled on nothing is never refused for room. -/
theorem UnderCeiling.record_open {chains : Option (AdmittedChains D)} {admitted : AdmittedStream D}
    (hunder : UnderCeiling chains) (hruled : admitted.ruled = []) (hproven : admitted.proven = none) :
    ∃ chains', recordChains chains admitted = .ok chains' := by
  cases chains with
  | none => exact ⟨none, rfl⟩
  | some held =>
    have hread : ¬ Unreadable D ([] : List D.Cap) := by
      rintro ⟨cap, hcap, -⟩
      cases hcap
    have hroom : (held.ids ∪ idsOf D []).card ≤ 1024 := by
      simpa [idsOf] using hunder held rfl
    obtain ⟨kept, hkept, -⟩ := held.recordAll_kept admitted.peer [] hread hroom
    exact ⟨some kept, by simp [recordChains, recordStream, hruled, hproven, hkept, Except.map]⟩

section Exposed

variable {e : Exposer D} {enabled : D.Moment → D.Service → Bool} {cuts : Option (LiveCuts D)}
  {dial : Dial D} {pools : Pools} {session : PublicSession} {peer : SessionPeer}
  {chains : Option (AdmittedChains D)} {service : D.Service}

/-- An opened name is served, under no floor, and accepts a dialer that proved nothing. -/
theorem overlay_route (hdeclared : e.Declared) (hoverlay : (e.servingWith enabled cuts).Overlay service = true) :
    ∃ route, e.services.get service.val = some route ∧ route.access = .Family ∧
      ∀ h, route.target = .Handler h → h.accepts .Open = true := by
  have hopen : service.val ∈ e.publicServices ∨ service.val ∈ e.publicUnsafe := of_decide_eq_true hoverlay
  obtain ⟨route, hget⟩ : ∃ route, e.services.get service.val = some route := by
    obtain hpublic | hraw := hopen
    · obtain ⟨handler, hget, -⟩ := hdeclared.publicSafe _ hpublic
      exact ⟨_, hget⟩
    · obtain ⟨stream, hget⟩ := hdeclared.unsafeRaw _ hraw
      exact ⟨_, hget⟩
  obtain ⟨hfamily, haccepts⟩ := Exposer.openWitness_accepts hdeclared hget (.inr hopen)
  exact ⟨route, hget, hfamily, haccepts⟩

/-- A stream admitted on an opened name that is to be had is served. -/
theorem dispatch_available (hdeclared : e.Declared) {admitted : AdmittedStream D}
    (hoverlay : (e.servingWith enabled cuts).Overlay service = true)
    (horigin : admitted.witness.origin = .Open) (hruled : admitted.ruled = []) (hproven : admitted.proven = none)
    (hunder : UnderCeiling chains) (h : (e.servingWith enabled cuts).Available peer.node dial service) :
    ∃ served, dispatch (e.servingWith enabled cuts) dial peer chains service admitted = .ok served := by
  obtain ⟨route, hget, hfamily, haccepts⟩ := overlay_route hdeclared hoverlay
  obtain ⟨chains', hrecord⟩ := hunder.record_open hruled hproven
  have hready : ∃ ready, makeReady dial peer.node route.target admitted.witness = .ok ready := by
    cases htarget : route.target with
    | RawStream stream =>
      obtain ⟨opened, hopened⟩ := h.opens route stream hget htarget
      exact ⟨.Raw stream opened, by simp [makeReady, hopened]⟩
    | Handler handler =>
      have haccept := haccepts handler htarget
      rw [← horigin] at haccept
      exact ⟨.Handler handler ⟨admitted.witness, haccept⟩,
        by simp [makeReady, Handler.prepare, Served.mint_of_accepts haccept]⟩
  obtain ⟨ready, hready⟩ := hready
  have hfloor : route.access.isMember = true → admitted.witness.isMember = true := by
    rw [hfamily]
    intro hmember
    cases hmember
  have hdispatched : Dispatched (e.servingWith enabled cuts) dial peer chains service admitted
      ⟨service, route, admitted, ready⟩ chains' :=
    ⟨rfl, rfl, h.enabled, hget, hfloor, hready, hrecord⟩
  exact ⟨_, dispatch_ok.2 hdispatched⟩

/-- A name that is not to be had refuses the stream. -/
theorem dispatch_unavailable {serving : Serving D} (chains : Option (AdmittedChains D))
    (admitted : AdmittedStream D) (h : ¬ serving.Available peer.node dial service) :
    ∃ refusal, dispatch serving dial peer chains service admitted = .error refusal := by
  cases hdispatch : dispatch serving dial peer chains service admitted with
  | error refusal => exact ⟨refusal, rfl⟩
  | ok served =>
    have hdone := dispatch_ok.1 hdispatch
    refine absurd ⟨hdone.enabled, ?_⟩ h
    intro route stream hget htarget
    cases hget.symm.trans hdone.route
    have hready := hdone.ready
    rw [htarget] at hready
    cases hopened : openRaw dial peer.node stream with
    | ok opened => exact ⟨opened, rfl⟩
    | error error =>
      simp only [makeReady, hopened] at hready
      cases hready

/-- A record that is under its ceiling stays there, whatever the stream comes to. -/
theorem stream_under {serving : Serving D} (hunder : UnderCeiling chains) :
    UnderCeiling (serveRequest serving dial pools session peer chains).chains := by
  cases serveRequest_cases serving dial pools session peer chains with
  | turnedAway hserve hsession hchains => rwa [hchains]
  | refused request service admitted refusal hasked hadmitted hdispatch hserve hchains => rwa [hchains]
  | served request service admitted s hasked hadmitted hdispatch hserve =>
    exact hunder.record (dispatch_ok.1 hdispatch).record

/-- What one stream makes of its session's permit. -/
structure SlotKept (serving : Serving D) (session : PublicSession) (o : Outcome D) : Prop where
  refused : o.serve = none → o.session = session
  served : o.session.held = true → session.held = true ∨
    ∃ s, o.serve = some s ∧ serving.Overlay s.service = true

theorem stream_kept (hD : D.Lawful) (hdeclared : e.Declared) (hunder : UnderCeiling chains)
    (hready : (e.servingWith enabled cuts).FindsAvailable peer.node dial) :
    SlotKept (e.servingWith enabled cuts) session
      (serveRequest (e.servingWith enabled cuts) dial pools session peer chains) := by
  cases serveRequest_cases (e.servingWith enabled cuts) dial pools session peer chains with
  | turnedAway hserve hsession hchains =>
    refine ⟨fun _ => hsession, ?_⟩
    rw [hsession]
    exact fun hheld => .inl hheld
  | refused request service admitted refusal hasked hadmitted hdispatch hserve hchains =>
    -- An opened name would have been served, so the name was ruled on another path and took no permit.
    have hclosed : (e.servingWith enabled cuts).Overlay service = false := by
      by_contra hopen
      have hoverlay : (e.servingWith enabled cuts).Overlay service = true := by simpa using hopen
      obtain ⟨horigin, hruled, hproven⟩ := hadmitted.opened hD hoverlay
      obtain ⟨served, hserved⟩ := dispatch_available hdeclared hoverlay horigin hruled hproven hunder
        (hready service hasked hoverlay)
      cases hserved.symm.trans hdispatch
    have hsession := hadmitted.session_kept hclosed
    refine ⟨fun _ => hsession, ?_⟩
    rw [hsession]
    exact fun hheld => .inl hheld
  | served request service admitted s hasked hadmitted hdispatch hserve =>
    have hdone := dispatch_ok.1 hdispatch
    refine ⟨?_, ?_⟩
    · intro hnone
      cases hserve.symm.trans hnone
    · intro hheld
      cases hoverlay : (e.servingWith enabled cuts).Overlay service with
      | true => exact .inr ⟨s, hserve, by rw [hdone.serviceEq, hoverlay]⟩
      | false =>
        rw [hadmitted.session_kept hoverlay] at hheld
        exact .inl hheld

/-- A stream on an opened name that is not to be had is refused, and its session keeps the permit it took. -/
theorem stream_unavailable (hD : D.Lawful) {serving : Serving D} {key : D.VerifyKey}
    (hkey : peer.node.verifyKey D = .ok key) (hstreams : pools.streams.free ≠ 0)
    (hsessions : session.held = true ∨ pools.sessions.free ≠ 0)
    (h : ¬ serving.FindsAvailable peer.node dial) :
    (serveRequest serving dial pools session peer chains).serve = none ∧
      (serveRequest serving dial pools session peer chains).session.held = true := by
  simp only [Serving.FindsAvailable, not_forall] at h
  obtain ⟨service, hasked, hoverlay, hunavailable⟩ := h
  obtain ⟨input, request, requested, hinput, hread, hname, hresolved⟩ := Serving.asked_eq_some hasked
  have hopen : service.val ∈ serving.publicServices ∨ service.val ∈ serving.publicUnsafe :=
    of_decide_eq_true hoverlay
  obtain ⟨witness, hgate⟩ := hD.open_admits dial.moment key service
  obtain ⟨streams, hfree⟩ := Semaphore.eq_release hstreams
  obtain ⟨⟨session', sessions⟩, henter⟩ := PublicSession.enter_some hsessions
  have hby : AdmittedBy serving dial.moment dial.now pools session peer request.capability request.membership
      service _ _ _ := .overlay key witness streams sessions session' hkey hopen hgate hfree henter
  obtain ⟨refusal, hrefused⟩ :=
    dispatch_unavailable chains ⟨witness, key, [], none, some .publicStream⟩ hunavailable
  have houtcome : (serveRequest serving dial pools session peer chains).serve = none ∧
      (serveRequest serving dial pools session peer chains).session = session' := by
    simp [serveRequest, hinput, hread, hname, hresolved, hby.ruling, hrefused]
  refine ⟨houtcome.1, ?_⟩
  rw [houtcome.2]
  obtain ⟨hheld, rfl, -⟩ | ⟨-, rfl, -⟩ := PublicSession.enter_cases henter
  · exact hheld
  · rfl

theorem run_snoc (serving : Serving D) (peer : SessionPeer) (streams : List (Dial D × Pools))
    (stream : Dial D × Pools) : SlotSession.run serving peer (streams ++ [stream]) =
      (SlotSession.run serving peer streams).step serving peer stream :=
  List.foldl_concat _ _ _ _

theorem run_under (serving : Serving D) (peer : SessionPeer) (streams : List (Dial D × Pools)) :
    UnderCeiling (SlotSession.run serving peer streams).chains := by
  induction streams using List.reverseRecOn with
  | nil =>
    intro kept hkept
    obtain ⟨oracle, -, rfl⟩ := Option.map_eq_some_iff.1 hkept
    simp [AdmittedChains.empty]
  | append_singleton streams stream ih =>
    rw [run_snoc]
    exact stream_under ih

/-- A session holds a permit only with a stream it was served on an opened name. -/
def SlotSession.Earned (serving : Serving D) (s : SlotSession D) : Prop :=
  s.session.held = true → ∃ served ∈ s.served, serving.Overlay served.service = true

theorem step_earned (hD : D.Lawful) (hdeclared : e.Declared) {s : SlotSession D}
    (h : s.Earned (e.servingWith enabled cuts)) (hunder : UnderCeiling s.chains) {stream : Dial D × Pools}
    (hready : (e.servingWith enabled cuts).FindsAvailable peer.node stream.1) :
    (s.step (e.servingWith enabled cuts) peer stream).Earned (e.servingWith enabled cuts) := by
  have hkept : SlotKept (e.servingWith enabled cuts) s.session
      (s.outcome (e.servingWith enabled cuts) peer stream) := stream_kept hD hdeclared hunder hready
  intro hnow
  obtain hbefore | ⟨served, hserve, hoverlay⟩ := hkept.served hnow
  · obtain ⟨served, hserved, hoverlay⟩ := h hbefore
    exact ⟨served, List.mem_append_left _ hserved, hoverlay⟩
  · exact ⟨served, List.mem_append_right _ (by simp [hserve]), hoverlay⟩

theorem run_earned (hD : D.Lawful) (hdeclared : e.Declared) (streams : List (Dial D × Pools))
    (hready : ∀ stream ∈ streams, (e.servingWith enabled cuts).FindsAvailable peer.node stream.1) :
    (SlotSession.run (e.servingWith enabled cuts) peer streams).Earned (e.servingWith enabled cuts) := by
  induction streams using List.reverseRecOn with
  | nil =>
    intro hheld
    cases hheld
  | append_singleton streams stream ih =>
    have hbefore := ih fun other hother => hready other (List.mem_append_left _ hother)
    rw [run_snoc]
    exact step_earned hD hdeclared hbefore (run_under _ peer streams)
      (hready stream (List.mem_append_right _ (List.mem_singleton_self _)))

/-- Whatever came before, where the pools have permits a refused stream leaves a session without one exactly
when the opened name it asks for, if it asks for one, is to be had. -/
theorem stream_kept_iff (hD : D.Lawful) (hdeclared : e.Declared) {key : D.VerifyKey}
    (hkey : peer.node.verifyKey D = .ok key) (hstreams : pools.streams.free ≠ 0)
    (hsessions : pools.sessions.free ≠ 0) (hheld : session.held = false) (hunder : UnderCeiling chains) :
    ((serveRequest (e.servingWith enabled cuts) dial pools session peer chains).serve = none →
      (serveRequest (e.servingWith enabled cuts) dial pools session peer chains).session = session) ↔
      (e.servingWith enabled cuts).FindsAvailable peer.node dial := by
  constructor
  · intro hkeeps
    by_contra hunavailable
    obtain ⟨hnone, hburnt⟩ := @stream_unavailable D dial pools session peer chains hD _ key hkey hstreams
      (.inr hsessions) hunavailable
    rw [hkeeps hnone, hheld] at hburnt
    cases hburnt
  · intro hready
    exact (stream_kept hD hdeclared hunder hready).refused

end Exposed

/-- While no opened name that is asked for is disabled, and each of their raw sources opens, a refused
stream leaves its session's permit as it was, and a session holds one only if it was served a stream on
an opened name. The condition is exact: after any streams, one more that finds the pools free leaves a session
without a permit as it was, if refused, exactly when the opened name it asks for is enabled and opens; and one
that does not find it so is refused, its session holding a permit from then on. -/
theorem refused_keeps_slot (hD : D.Lawful) {host host' : Host} {gate : Gate D.Base} {verbs : List (Verb D)}
    {r : Router D} {e : Exposer D} (hb : Router.build host gate verbs = .ok r) (he : r.expose host' = .ok e)
    (enabled : D.Moment → D.Service → Bool) (cuts : Option (LiveCuts D)) (peer : SessionPeer) :
    let serving := e.servingWith enabled cuts
    (∀ streams, (∀ stream ∈ streams, serving.FindsAvailable peer.node stream.1) →
      ((SlotSession.run serving peer streams).session.held = true →
        ∃ served ∈ (SlotSession.run serving peer streams).served, serving.Overlay served.service = true) ∧
      ∀ before stream after, streams = before ++ stream :: after →
        ((SlotSession.run serving peer before).outcome serving peer stream).serve = none →
        ((SlotSession.run serving peer before).outcome serving peer stream).session =
          (SlotSession.run serving peer before).session) ∧
    (∀ before stream key, peer.node.verifyKey D = .ok key → stream.2.streams.free ≠ 0 →
      stream.2.sessions.free ≠ 0 → (SlotSession.run serving peer before).session.held = false →
      ((((SlotSession.run serving peer before).outcome serving peer stream).serve = none →
          ((SlotSession.run serving peer before).outcome serving peer stream).session =
            (SlotSession.run serving peer before).session) ↔
        serving.FindsAvailable peer.node stream.1)) ∧
    ∀ dial pools session chains key, peer.node.verifyKey D = .ok key → pools.streams.free ≠ 0 →
      (session.held = true ∨ pools.sessions.free ≠ 0) → ¬ serving.FindsAvailable peer.node dial →
      (serveRequest serving dial pools session peer chains).serve = none ∧
        (serveRequest serving dial pools session peer chains).session.held = true := by
  intro serving
  have hdeclared := Router.declared hb he
  refine ⟨?_, ?_, ?_⟩
  · intro streams hready
    constructor
    · exact run_earned hD hdeclared streams hready
    · rintro before stream after rfl hnone
      have hstream := hready stream (List.mem_append_right _ List.mem_cons_self)
      exact (stream_kept hD hdeclared (run_under _ peer before) hstream).refused hnone
  · intro before stream key hkey hstreams hsessions hheld
    exact stream_kept_iff hD hdeclared hkey hstreams hsessions hheld (run_under _ peer before)
  · intro dial pools session chains key hkey hstreams hsessions h
    exact stream_unavailable hD hkey hstreams hsessions h

/-- A dial for `web`, with no token. -/
def webDial (D : Deps) (moment : D.Moment) : Dial D :=
  ⟨some (Request.write ⟨"web", none, none⟩).2, moment, 0, ⟨0⟩, fun _ _ => .ok .Stream, none⟩

theorem refused_keeps_slot_echo :
    let root := Vector.replicate 32 0
    let D := Deps.small root
    let web : D.Service := ⟨"web", by decide⟩
    let peer : SessionPeer := ⟨⟨.Ed25519, Vector.replicate 32 7⟩, ⟨.Announced⟩⟩
    ∃ r e, Router.build Host.empty (.rooted root) [.echo web, .openPublic [web]] = .ok r ∧
      r.expose Host.empty = .ok e ∧
      let serving := e.servingWith (fun _ _ => true) none
      ∃ served ∈ (SlotSession.run serving peer [(webDial D [], Pools.new)]).served,
        serving.Overlay served.service = true := by
  intro root D web peer
  refine ⟨_, _, rfl, rfl, ?_⟩
  intro serving
  have hkept := @refused_keeps_slot D (Deps.small_lawful root) Host.empty Host.empty (.rooted root)
    [.echo web, .openPublic [web]] _ _ rfl rfl (fun _ _ => true) none peer
  refine (hkept.1 [(webDial D [], Pools.new)] ?_).1 rfl
  intro stream hstream service hasked hoverlay
  rw [List.mem_singleton] at hstream
  subst hstream
  have hweb : serving.asked (webDial D []) = some web := rfl
  cases hweb.symm.trans hasked
  refine ⟨rfl, ?_⟩
  intro route stream hget htarget
  cases hget
  cases htarget

/-- A disabled service that is open to everyone refuses its one stream, and the session holds a permit. -/
theorem refused_burns_slot :
    let root := Vector.replicate 32 0
    let D := Deps.small root
    let web : D.Service := ⟨"web", by decide⟩
    let peer : SessionPeer := ⟨⟨.Ed25519, Vector.replicate 32 7⟩, ⟨.Announced⟩⟩
    ∃ r e, Router.build Host.empty (.rooted root) [.echo web, .openPublic [web]] = .ok r ∧
      r.expose Host.empty = .ok e ∧
      let serving := e.servingWith (fun _ _ => false) none
      let s := SlotSession.start serving
      (s.outcome serving peer (webDial D [], Pools.new)).octets = [1, 0] ∧
        (s.outcome serving peer (webDial D [], Pools.new)).serve = none ∧
        s.session.held = false ∧ (s.outcome serving peer (webDial D [], Pools.new)).session.held = true := by
  intro root D web peer
  exact ⟨_, _, rfl, rfl, rfl, rfl, rfl, rfl⟩

end Tightbeam
