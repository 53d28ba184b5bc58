import Tightbeam.Admit
import Tightbeam.Library.Checked

/-!
# What admission can have done

The three ways a stream is admitted, with everything each one checked and took, and what a stream
that was served went through after. Later results split on these instead of on the code.
-/
namespace Tightbeam

open Checked

variable {D : Deps}

theorem Services.proven_eq_some {services : Services D} {name : String} {knows : Knows D} :
    services.proven name = some knows ↔
      ∃ route, services.get name = some route ∧ route.access = .ProvenOnly knows := by
  unfold proven
  cases hget : services.get name with
  | none => simp
  | some route =>
    obtain ⟨target, access⟩ := route
    cases access with
    | Family => simp
    | Member => simp
    | ProvenOnly found => simp

/-- How `admitRequest` came to let a stream in, and the pools and session it left. -/
inductive AdmittedBy (serving : Serving D) (m : D.Moment) (now : SystemTime) (pools : Pools)
    (session : PublicSession) (peer : SessionPeer) (capability membership : Option String)
    (service : D.Service) : AdmittedStream D → Pools → PublicSession → Prop where
  | overlay (key : D.VerifyKey) (witness : Admitted D.VerifyKey) (streams sessions : Semaphore)
      (session' : PublicSession) (hkey : peer.node.verifyKey D = .ok key)
      (hopen : service.val ∈ serving.publicServices ∨ service.val ∈ serving.publicUnsafe)
      (hgate : D.admitWitnessed m .Open key none service = .ok witness)
      (hstreams : pools.streams = streams.release)
      (hsessions : session.enter pools.sessions = some (session', sessions)) :
      AdmittedBy serving m now pools session peer capability membership service
        ⟨witness, key, [], none, some .publicStream⟩ { pools with streams, sessions } session'
  | proven (key : D.VerifyKey) (knows : Knows D) (witness : Admitted D.VerifyKey) (named : D.VerifyKey)
      (slots : Semaphore) (hkey : peer.node.verifyKey D = .ok key)
      (hclosed : ¬ (service.val ∈ serving.publicServices ∨ service.val ∈ serving.publicUnsafe))
      (hroute : serving.services.proven service.val = some knows)
      (hpeer : peerProven peer.security = true)
      (hgate : D.proven m serving.gate key = .ok witness)
      (hnamed : witness.revocablePeer = some named) (hknows : knows m named = true)
      (hslots : pools.proven = slots.release) :
      AdmittedBy serving m now pools session peer capability membership service
        ⟨witness, key, [], some ⟨named, now + provenStreamDeadline⟩, some .provenStream⟩
        { pools with proven := slots } session
  | family (key : D.VerifyKey) (admitted : AdmittedStream D) (hkey : peer.node.verifyKey D = .ok key)
      (hclosed : ¬ (service.val ∈ serving.publicServices ∨ service.val ∈ serving.publicUnsafe))
      (hroute : serving.services.proven service.val = none)
      (hgate : admitFamily serving.gate m peer key capability membership service = .ok admitted) :
      AdmittedBy serving m now pools session peer capability membership service admitted pools session

/-- The family path by its own steps: what was parsed, who ruled on it, and what it is kept under. -/
structure FamilyAdmits (gate : Gate D.Base) (m : D.Moment) (peer : SessionPeer) (key : D.VerifyKey)
    (capability membership : Option String) (service : D.Service) (admitted : AdmittedStream D) : Prop where
  peer : D.wantsCapability gate = true → peerProven peer.security = true
  ruled : ∃ cap badge witness, parseSlot (D := D) capability = .ok cap ∧
    parseMembership cap membership = .ok badge ∧
    (match cap, badge with
      | some slip, some badge => D.admitForeignWitnessed m gate key slip badge service
      | presented, _ => D.admitWitnessed m gate key presented service) = .ok witness ∧
    admitted = ⟨witness, key, if D.wantsCapability gate then cap.toList ++ badge.toList else [], none, none⟩

theorem admitFamily_ok {gate : Gate D.Base} {m : D.Moment} {peer : SessionPeer} {key : D.VerifyKey}
    {capability membership : Option String} {service : D.Service} {admitted : AdmittedStream D} :
    admitFamily gate m peer key capability membership service = .ok admitted ↔
      FamilyAdmits gate m peer key capability membership service admitted := by
  unfold admitFamily
  constructor
  · intro h
    by_cases hpeer : D.wantsCapability gate = true ∧ peerProven peer.security = false
    · rw [if_pos hpeer] at h
      cases h
    · rw [if_neg hpeer] at h
      obtain ⟨cap, hcap, h⟩ := bind_ok.1 h
      obtain ⟨badge, hbadge, h⟩ := bind_ok.1 h
      obtain ⟨witness, hwitness, h⟩ := bind_ok.1 h
      refine ⟨?_, cap, badge, witness, hcap, hbadge, mapError_ok.1 hwitness, (pure_ok.1 h).symm⟩
      intro hwants
      by_contra hunproven
      exact hpeer ⟨hwants, by simpa using hunproven⟩
  · intro h
    obtain ⟨hpeer, cap, badge, witness, hcap, hbadge, hwitness, rfl⟩ := h
    have hnot : ¬ (D.wantsCapability gate = true ∧ peerProven peer.security = false) := by
      intro hboth
      rw [hpeer hboth.1] at hboth
      cases hboth.2
    rw [if_neg hnot]
    exact bind_ok.2 ⟨cap, hcap, bind_ok.2 ⟨badge, hbadge, bind_ok.2 ⟨witness, mapError_ok.2 hwitness, rfl⟩⟩⟩

/-- A request is refused with the pools and the session as they were, or let in by one of the three ways. -/
theorem admitRequest_cases (serving : Serving D) (m : D.Moment) (now : SystemTime) (pools : Pools)
    (session : PublicSession) (peer : SessionPeer) (capability membership : Option String)
    (service : D.Service) :
    (∃ refusal, admitRequest serving m now pools session peer capability membership service =
      ⟨.error refusal, pools, session⟩) ∨
    ∃ admitted pools' session', admitRequest serving m now pools session peer capability membership service =
        ⟨.ok admitted, pools', session'⟩ ∧
      AdmittedBy serving m now pools session peer capability membership service admitted pools' session' := by
  unfold admitRequest
  cases hkey : peer.node.verifyKey D with
  | error e => exact .inl ⟨_, rfl⟩
  | ok key =>
    by_cases hopen : service.val ∈ serving.publicServices ∨ service.val ∈ serving.publicUnsafe
    · simp only [if_pos hopen, admitPublic]
      cases hgate : D.admitWitnessed m .Open key none service with
      | error e => exact .inl ⟨_, rfl⟩
      | ok witness =>
        cases hstreams : pools.streams.tryAcquire with
        | none => exact .inl ⟨_, rfl⟩
        | some streams =>
          have htook := Semaphore.tryAcquire_eq_some.1 hstreams
          cases hsessions : session.enter pools.sessions with
          | none =>
            -- The stream's permit is given back when the session's is refused.
            simp only [← htook]
            exact .inl ⟨_, rfl⟩
          | some left =>
            obtain ⟨session', sessions⟩ := left
            exact .inr ⟨_, _, _, rfl,
              .overlay key witness streams sessions session' hkey hopen hgate htook hsessions⟩
    · simp only [if_neg hopen]
      cases hroute : serving.services.proven service.val with
      | none =>
        cases hgate : admitFamily serving.gate m peer key capability membership service with
        | error e => exact .inl ⟨e, rfl⟩
        | ok admitted => exact .inr ⟨admitted, _, _, rfl, .family key admitted hkey hopen hroute hgate⟩
      | some knows =>
        simp only [admitProven]
        by_cases hpeer : peerProven peer.security = false
        · rw [if_pos hpeer]
          exact .inl ⟨_, rfl⟩
        · rw [if_neg hpeer]
          cases hgate : D.proven m serving.gate key with
          | error e => exact .inl ⟨_, rfl⟩
          | ok witness =>
            cases hnamed : witness.revocablePeer with
            | none =>
              simp only [hnamed]
              exact .inl ⟨_, rfl⟩
            | some named =>
              simp only [hnamed]
              by_cases hknows : knows m named = false
              · rw [if_pos hknows]
                exact .inl ⟨_, rfl⟩
              · rw [if_neg hknows]
                cases hslots : pools.proven.tryAcquire with
                | none => exact .inl ⟨_, rfl⟩
                | some slots =>
                  exact .inr ⟨_, _, _, rfl, .proven key knows witness named slots hkey hopen hroute
                    (by simpa using hpeer) hgate hnamed (by simpa using hknows)
                    (Semaphore.tryAcquire_eq_some.1 hslots)⟩

theorem admit_ok {serving : Serving D} {m : D.Moment} {now : SystemTime} {pools : Pools}
    {session : PublicSession} {peer : SessionPeer} {capability membership : Option String}
    {service : D.Service} {admitted : AdmittedStream D}
    (h : (admitRequest serving m now pools session peer capability membership service).result = .ok admitted) :
    AdmittedBy serving m now pools session peer capability membership service admitted
      (admitRequest serving m now pools session peer capability membership service).pools
      (admitRequest serving m now pools session peer capability membership service).session := by
  obtain ⟨refusal, hruling⟩ | ⟨found, pools', session', hruling, hby⟩ :=
    admitRequest_cases serving m now pools session peer capability membership service
  · rw [hruling] at h
    cases h
  · rw [hruling] at h ⊢
    cases h
    exact hby

/-- A refused stream leaves the pools and its session's permit as they were. -/
theorem admit_error {serving : Serving D} {m : D.Moment} {now : SystemTime} {pools : Pools}
    {session : PublicSession} {peer : SessionPeer} {capability membership : Option String}
    {service : D.Service} {refusal : HostRefusal D}
    (h : (admitRequest serving m now pools session peer capability membership service).result = .error refusal) :
    (admitRequest serving m now pools session peer capability membership service).pools = pools ∧
      (admitRequest serving m now pools session peer capability membership service).session = session := by
  obtain ⟨refusal, hruling⟩ | ⟨found, pools', session', hruling, hby⟩ :=
    admitRequest_cases serving m now pools session peer capability membership service
  · rw [hruling]
    exact ⟨rfl, rfl⟩
  · rw [hruling] at h
    cases h

/-- Each of the three ways is one: what it lists is enough for the ruling. -/
theorem AdmittedBy.ruling {serving : Serving D} {m : D.Moment} {now : SystemTime} {pools pools' : Pools}
    {session session' : PublicSession} {peer : SessionPeer} {capability membership : Option String}
    {service : D.Service} {admitted : AdmittedStream D}
    (h : AdmittedBy serving m now pools session peer capability membership service admitted pools' session') :
    admitRequest serving m now pools session peer capability membership service =
      ⟨.ok admitted, pools', session'⟩ := by
  cases h with
  | overlay key witness streams sessions session' hkey hopen hgate hstreams hsessions =>
    have htake := Semaphore.tryAcquire_eq_some.2 hstreams
    simp [admitRequest, admitPublic, hkey, hopen, hgate, htake, hsessions]
  | proven key knows witness named slots hkey hclosed hroute hpeer hgate hnamed hknows hslots =>
    have htake := Semaphore.tryAcquire_eq_some.2 hslots
    simp [admitRequest, admitProven, hkey, hclosed, hroute, hpeer, hgate, hnamed, hknows, htake]
  | family key admitted hkey hclosed hroute hgate =>
    simp [admitRequest, hkey, hclosed, hroute, hgate]

/-- Everything a stream went through between admission and its answer. -/
structure Dispatched (serving : Serving D) (dial : Dial D) (peer : SessionPeer)
    (chains : Option (AdmittedChains D)) (service : D.Service) (admitted : AdmittedStream D)
    (s : Serve D) (chains' : Option (AdmittedChains D)) : Prop where
  serviceEq : s.service = service
  admittedEq : s.admitted = admitted
  enabled : serving.enabled dial.moment service = true
  route : serving.services.get service.val = some s.route
  floor : s.route.access.isMember = true → admitted.witness.isMember = true
  ready : makeReady dial peer.node s.route.target admitted.witness = .ok s.ready
  record : recordChains chains admitted = .ok chains'

theorem dispatch_ok {serving : Serving D} {dial : Dial D} {peer : SessionPeer}
    {chains chains' : Option (AdmittedChains D)} {service : D.Service} {admitted : AdmittedStream D}
    {s : Serve D} :
    dispatch serving dial peer chains service admitted = .ok (s, chains') ↔
      Dispatched serving dial peer chains service admitted s chains' := by
  unfold dispatch
  constructor
  · intro h
    by_cases henabled : serving.enabled dial.moment service = false
    · rw [if_pos henabled] at h
      cases h
    · rw [if_neg henabled] at h
      cases hroute : serving.services.get service.val with
      | none =>
        rw [hroute] at h
        cases h
      | some route =>
        simp only [hroute] at h
        by_cases hfloor : route.access.isMember = true ∧ admitted.witness.isMember = false
        · rw [if_pos hfloor] at h
          cases h
        · rw [if_neg hfloor] at h
          cases hready : makeReady dial peer.node route.target admitted.witness with
          | error refusal =>
            rw [hready] at h
            cases h
          | ok ready =>
            simp only [hready] at h
            cases hrecord : recordChains chains admitted with
            | error e =>
              rw [hrecord] at h
              cases h
            | ok kept =>
              rw [hrecord] at h
              cases h
              refine ⟨rfl, rfl, by simpa using henabled, hroute, ?_, hready, hrecord⟩
              intro hmember
              by_contra hnot
              exact hfloor ⟨hmember, by simpa using hnot⟩
  · intro h
    obtain ⟨rfl, rfl, henabled, hroute, hfloor, hready, hrecord⟩ := h
    have hmember : ¬ (s.route.access.isMember = true ∧ s.admitted.witness.isMember = false) := by
      intro hboth
      rw [hfloor hboth.1] at hboth
      cases hboth.2
    simp [henabled, hroute, hmember, hready, hrecord]

/-- A handler's refusal is the one answer, and a raw source's names why it did not open. -/
theorem makeReady_error {dial : Dial D} {node : NodeId} {target : Target} {witness : Admitted D.VerifyKey}
    {refusal : Refusal} (h : makeReady dial node target witness = .error refusal) :
    refusal = .notAdmitted ∨ ∃ stream error, target = .RawStream stream ∧
      openRaw dial node stream = .error error ∧ refusal = .unavailable (D.bounded error) := by
  cases target with
  | Handler handler =>
    simp only [makeReady] at h
    cases hprepare : handler.prepare witness with
    | ok served =>
      rw [hprepare] at h
      cases h
    | error cause =>
      rw [hprepare] at h
      cases h
      exact .inl rfl
  | RawStream stream =>
    simp only [makeReady] at h
    cases hopened : openRaw dial node stream with
    | ok opened =>
      rw [hopened] at h
      cases h
    | error error =>
      rw [hopened] at h
      cases h
      exact .inr ⟨stream, error, rfl, hopened, rfl⟩

/-- A check past admission refuses with the one answer, but for a raw source that did not open. -/
theorem dispatch_error {serving : Serving D} {dial : Dial D} {peer : SessionPeer}
    {chains : Option (AdmittedChains D)} {service : D.Service} {admitted : AdmittedStream D}
    {refusal : Refusal} (h : dispatch serving dial peer chains service admitted = .error refusal) :
    refusal = .notAdmitted ∨ ∃ route stream error, serving.enabled dial.moment service = true ∧
      serving.services.get service.val = some route ∧
      (route.access.isMember = true → admitted.witness.isMember = true) ∧
      route.target = .RawStream stream ∧ openRaw dial peer.node stream = .error error ∧
      refusal = .unavailable (D.bounded error) := by
  unfold dispatch at h
  by_cases henabled : serving.enabled dial.moment service = false
  · rw [if_pos henabled] at h
    cases h
    exact .inl rfl
  · rw [if_neg henabled] at h
    cases hroute : serving.services.get service.val with
    | none =>
      rw [hroute] at h
      cases h
      exact .inl rfl
    | some route =>
      simp only [hroute] at h
      by_cases hfloor : route.access.isMember = true ∧ admitted.witness.isMember = false
      · rw [if_pos hfloor] at h
        cases h
        exact .inl rfl
      · rw [if_neg hfloor] at h
        have hpassed : route.access.isMember = true → admitted.witness.isMember = true := by
          intro hmember
          by_contra hnot
          exact hfloor ⟨hmember, by simpa using hnot⟩
        cases hready : makeReady dial peer.node route.target admitted.witness with
        | error cause =>
          simp only [hready] at h
          cases h
          obtain hone | ⟨stream, error, htarget, hopened, hrefusal⟩ := makeReady_error hready
          · exact .inl hone
          · exact .inr ⟨route, stream, error, by simpa using henabled, rfl, hpassed, htarget, hopened, hrefusal⟩
        | ok ready =>
          simp only [hready] at h
          cases hrecord : recordChains chains admitted with
          | error e =>
            rw [hrecord] at h
            cases h
            exact .inl rfl
          | ok kept =>
            rw [hrecord] at h
            cases h

/-- The name a stream's frame resolves to, if it was read and names one. -/
def Serving.asked (serving : Serving D) (dial : Dial D) : Option D.Service :=
  match dial.input with
  | none => none
  | some input => match (Request.read.run input).1 with
    | .error _ => none
    | .ok request => match parseService D request.service with
      | .error _ => none
      | .ok requested => some (serving.services.resolveSingleService requested)

/-- How a stream came out: refused before its permits were taken, or admitted, and then refused or served. -/
inductive StreamCase (serving : Serving D) (dial : Dial D) (pools : Pools) (session : PublicSession)
    (peer : SessionPeer) (chains : Option (AdmittedChains D)) : Outcome D → Prop where
  | turnedAway {o : Outcome D} (hserve : o.serve = none) (hsession : o.session = session)
      (hchains : o.chains = chains) : StreamCase serving dial pools session peer chains o
  | refused {o : Outcome D} (request : Request) (service : D.Service) (admitted : AdmittedStream D)
      (refusal : Refusal) (hasked : serving.asked dial = some service)
      (hadmitted : AdmittedBy serving dial.moment dial.now pools session peer request.capability
        request.membership service admitted o.pools o.session)
      (hdispatch : dispatch serving dial peer chains service admitted = .error refusal)
      (hserve : o.serve = none) (hchains : o.chains = chains) :
      StreamCase serving dial pools session peer chains o
  | served {o : Outcome D} (request : Request) (service : D.Service) (admitted : AdmittedStream D)
      (s : Serve D) (hasked : serving.asked dial = some service)
      (hadmitted : AdmittedBy serving dial.moment dial.now pools session peer request.capability
        request.membership service admitted o.pools o.session)
      (hdispatch : dispatch serving dial peer chains service admitted = .ok (s, o.chains))
      (hserve : o.serve = some s) : StreamCase serving dial pools session peer chains o

theorem serveRequest_cases (serving : Serving D) (dial : Dial D) (pools : Pools) (session : PublicSession)
    (peer : SessionPeer) (chains : Option (AdmittedChains D)) :
    StreamCase serving dial pools session peer chains
      (serveRequest serving dial pools session peer chains) := by
  unfold serveRequest
  cases hinput : dial.input with
  | none => exact .turnedAway rfl rfl rfl
  | some input =>
    simp only
    cases hread : (Request.read.run input).1 with
    | error e =>
      simp only
      cases e.refusal D.bounded with
      | none => exact .turnedAway rfl rfl rfl
      | some refusal => exact .turnedAway rfl rfl rfl
    | ok request =>
      simp only
      cases hname : parseService D request.service with
      | error e => exact .turnedAway rfl rfl rfl
      | ok requested =>
        have hasked : serving.asked dial = some (serving.services.resolveSingleService requested) := by
          simp [Serving.asked, hinput, hread, hname]
        simp only
        cases hruling : (admitRequest serving dial.moment dial.now pools session peer request.capability
            request.membership (serving.services.resolveSingleService requested)).result with
        | error refusal => exact .turnedAway rfl (admit_error hruling).2 rfl
        | ok admitted =>
          have hadmitted := admit_ok hruling
          simp only
          cases hdispatch : dispatch serving dial peer chains
              (serving.services.resolveSingleService requested) admitted with
          | error refusal => exact .refused request _ admitted refusal hasked hadmitted hdispatch rfl rfl
          | ok served =>
            obtain ⟨s, chains'⟩ := served
            exact .served request _ admitted s hasked hadmitted hdispatch rfl

/-- A served stream: what it asked for, how it was admitted, and what it passed after. -/
structure ServedBy (serving : Serving D) (dial : Dial D) (pools : Pools) (session : PublicSession)
    (peer : SessionPeer) (chains : Option (AdmittedChains D)) (s : Serve D)
    (chains' : Option (AdmittedChains D)) (request : Request) : Prop where
  admission : ∃ pools' session', AdmittedBy serving dial.moment dial.now pools session peer
    request.capability request.membership s.service s.admitted pools' session'
  dispatched : Dispatched serving dial peer chains s.service s.admitted s chains'

theorem serveRequest_serve {serving : Serving D} {dial : Dial D} {pools : Pools} {session : PublicSession}
    {peer : SessionPeer} {chains : Option (AdmittedChains D)} {s : Serve D}
    (h : (serveRequest serving dial pools session peer chains).serve = some s) :
    ∃ request, ServedBy serving dial pools session peer chains s
      (serveRequest serving dial pools session peer chains).chains request := by
  cases serveRequest_cases serving dial pools session peer chains with
  | turnedAway hserve hsession hchains => cases hserve.symm.trans h
  | refused request service admitted refusal hasked hadmitted hdispatch hserve hchains =>
    cases hserve.symm.trans h
  | served request service admitted found hasked hadmitted hdispatch hserve =>
    cases hserve.symm.trans h
    have hdispatched := dispatch_ok.1 hdispatch
    have hservice := hdispatched.serviceEq
    have heq := hdispatched.admittedEq
    rw [← hservice, ← heq] at hadmitted hdispatched
    exact ⟨request, ⟨_, _, hadmitted⟩, hdispatched⟩

/-- A stream that is not served leaves the chains as they were. -/
theorem serveRequest_unserved {serving : Serving D} {dial : Dial D} {pools : Pools} {session : PublicSession}
    {peer : SessionPeer} {chains : Option (AdmittedChains D)}
    (h : (serveRequest serving dial pools session peer chains).serve = none) :
    (serveRequest serving dial pools session peer chains).chains = chains := by
  cases serveRequest_cases serving dial pools session peer chains with
  | turnedAway hserve hsession hchains => exact hchains
  | refused request service admitted refusal hasked hadmitted hdispatch hserve hchains => exact hchains
  | served request service admitted found hasked hadmitted hdispatch hserve => cases hserve.symm.trans h

end Tightbeam
