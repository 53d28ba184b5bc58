import Tightbeam.Posture
import Mathlib.Data.List.Perm.Basic

/-!
# No dead route

Every served name has a class of witness that admission mints for it and that its route serves, and an
exposed router does not depend on the order its rows were bound in.
-/
namespace Tightbeam

open Checked

variable {D : Deps}

/-- The classes of witness admission can mint. -/
inductive WitnessClass where
  | Open | RootedSlip | RootedMember | Proven
  deriving DecidableEq, Repr

namespace WitnessClass

def origin : WitnessClass → Origin
  | .Open => .Open
  | .RootedSlip => .Rooted
  | .RootedMember => .Rooted
  | .Proven => .Proven

def isMember : WitnessClass → Bool
  | .Open => false
  | .RootedSlip => false
  | .RootedMember => true
  | .Proven => false

end WitnessClass

/-- A route that serves witnesses of this class: they pass its floor and its handler's rule. -/
def Route.Passes (route : Route D) (c : WitnessClass) : Prop :=
  (route.access.isMember = true → c.isMember = true) ∧
    ∀ h, route.target = .Handler h → h.accepts c.origin = true

/-- The classes admission mints for a name, under the exposer's gate and overlays. -/
def Exposer.Mints (e : Exposer D) (name : String) : WitnessClass → Prop
  | .Open => e.gate.isOpen = true ∨ name ∈ e.publicServices ∨ name ∈ e.publicUnsafe
  | .RootedSlip => e.gate.isOpen = false ∧ ¬ (name ∈ e.publicServices ∨ name ∈ e.publicUnsafe) ∧
      e.services.proven name = none
  | .RootedMember => e.gate.isOpen = false ∧ ¬ (name ∈ e.publicServices ∨ name ∈ e.publicUnsafe) ∧
      e.services.proven name = none
  | .Proven => e.gate.isOpen = false ∧ ¬ (name ∈ e.publicServices ∨ name ∈ e.publicUnsafe) ∧
      e.services.proven name ≠ none

/-- A dial for which nauthy's own answer is a witness of this class: none is needed on an open name, a
token it admits on a gated one, and a key the route knows on a proven-only one. -/
def Exposer.Answers (e : Exposer D) (m : D.Moment) (key : D.VerifyKey) (capability : Option String)
    (service : D.Service) : WitnessClass → Prop
  | .Open => capability = none
  | .RootedSlip => ∃ text cap w, capability = some text ∧ D.parseCap text = .ok cap ∧
      D.isAuthorityBound cap = false ∧ D.admitWitnessed m e.gate key (some cap) service = .ok w ∧
      w.isMember = false
  | .RootedMember => ∃ text cap w, capability = some text ∧ D.parseCap text = .ok cap ∧
      D.isAuthorityBound cap = false ∧ D.admitWitnessed m e.gate key (some cap) service = .ok w ∧
      w.isMember = true
  | .Proven => ∃ w, D.proven m e.gate key = .ok w ∧
      ∀ knows, e.services.proven service.val = some knows → knows m key = true

namespace Exposer

variable {e : Exposer D} {enabled : D.Moment → D.Service → Bool} {cuts : Option (LiveCuts D)}
  {m : D.Moment} {now : SystemTime} {pools : Pools} {session : PublicSession} {peer : SessionPeer}
  {key : D.VerifyKey} {capability membership : Option String} {service : D.Service} {c : WitnessClass}

/-- A token nauthy admits on a gated name is admitted, by the witness nauthy gave. -/
theorem admits_rooted {text : String} {cap : D.Cap} {w : Admitted D.VerifyKey}
    (hclosed : ¬ (service.val ∈ e.publicServices ∨ service.val ∈ e.publicUnsafe))
    (hproven : e.services.proven service.val = none) (hpeer : peerProven peer.security = true)
    (hkey : peer.node.verifyKey D = .ok key) (hcap : D.parseCap text = .ok cap)
    (hbound : D.isAuthorityBound cap = false)
    (hgate : D.admitWitnessed m e.gate key (some cap) service = .ok w) :
    ∃ admitted, (admitRequest (e.servingWith enabled cuts) m now pools session peer (some text) membership
      service).result = .ok admitted ∧ admitted.witness = w := by
  have hslot : parseSlot (D := D) (some text) = .ok (some cap) := by simp [parseSlot, hcap]
  have hbadge : parseMembership (D := D) (some cap) membership = .ok none := by
    simp [parseMembership, hbound]
  have hfamily := admitFamily_ok.2 ⟨fun _ => hpeer, some cap, none, w, hslot, hbadge, hgate, rfl⟩
  have hby : AdmittedBy (e.servingWith enabled cuts) m now pools session peer (some text) membership service
      _ _ _ := .family key _ hkey hclosed hproven hfamily
  exact ⟨_, by rw [hby.ruling], rfl⟩

/-- A key nauthy witnesses and the route knows is admitted on a proven-only route while a slot is free. -/
theorem admits_proven (hD : D.Lawful) {w : Admitted D.VerifyKey} {knows : Knows D}
    (hclosed : ¬ (service.val ∈ e.publicServices ∨ service.val ∈ e.publicUnsafe))
    (hproven : e.services.proven service.val = some knows) (hpeer : peerProven peer.security = true)
    (hkey : peer.node.verifyKey D = .ok key) (hgate : D.proven m e.gate key = .ok w)
    (hknows : knows m key = true) (hslots : pools.proven.free ≠ 0) :
    ∃ admitted, (admitRequest (e.servingWith enabled cuts) m now pools session peer capability membership
      service).result = .ok admitted ∧ admitted.witness = w := by
  obtain ⟨slots, hfree⟩ := Semaphore.eq_release hslots
  have hby : AdmittedBy (e.servingWith enabled cuts) m now pools session peer capability membership service
      _ _ _ := .proven key knows w key slots hkey hclosed hproven hpeer hgate
        (hD.proven_mints m e.gate key w hgate).2.1 hknows hfree
  exact ⟨_, by rw [hby.ruling], rfl⟩

theorem rooted_origin (hD : D.Lawful) {cap : Option D.Cap} {w : Admitted D.VerifyKey}
    (hbase : e.gate.isOpen = false) (hgate : D.admitWitnessed m e.gate key cap service = .ok w) :
    w.origin = .Rooted := by
  cases hcase : e.gate with
  | Open =>
    rw [hcase] at hbase
    cases hbase
  | rooted base =>
    rw [hcase] at hgate
    exact hD.rooted_mints m base key cap service w hgate

/-- A dial of a class the name mints and the route passes reaches it while permits are free. -/
theorem answers_reach (hD : D.Lawful) (hdeclared : e.Declared) {route : Route D}
    (hget : e.services.get service.val = some route) (hmints : e.Mints service.val c)
    (hpasses : route.Passes c) (hanswers : e.Answers m key capability service c)
    (hpeer : c = .Open ∨ peerProven peer.security = true) (hkey : peer.node.verifyKey D = .ok key)
    (henabled : enabled m service = true) (hmembership : c = .Open → membership = none)
    (hstreams : pools.streams.free ≠ 0) (hsessions : session.held = true ∨ pools.sessions.free ≠ 0)
    (hslots : pools.proven.free ≠ 0) :
    (e.servingWith enabled cuts).Reaches m now pools session peer capability membership service := by
  obtain ⟨hfloor, haccepts⟩ := hpasses
  cases c with
  | Open =>
    cases hanswers
    cases hmembership rfl
    obtain ⟨admitted, hresult, horigin⟩ : ∃ admitted, (admitRequest (e.servingWith enabled cuts) m now pools
        session peer none none service).result = .ok admitted ∧ admitted.witness.origin = .Open :=
      admits_open hD hdeclared hmints hkey hstreams hsessions
    refine ⟨admitted, route, hresult, henabled, hget, fun hmember => ?_, ?_⟩
    · cases hfloor hmember
    · rw [horigin]
      exact haccepts
  | RootedSlip =>
    obtain ⟨hbase, hclosed, hproven⟩ := hmints
    obtain ⟨text, cap, w, rfl, hcap, hbound, hgate, hslip⟩ := hanswers
    obtain ⟨admitted, hresult, rfl⟩ : ∃ admitted, (admitRequest (e.servingWith enabled cuts) m now pools
        session peer (some text) membership service).result = .ok admitted ∧ admitted.witness = w :=
      admits_rooted hclosed hproven (hpeer.resolve_left (by simp)) hkey hcap hbound hgate
    refine ⟨admitted, route, hresult, henabled, hget, fun hmember => ?_, ?_⟩
    · cases hfloor hmember
    · rw [rooted_origin hD hbase hgate]
      exact haccepts
  | RootedMember =>
    obtain ⟨hbase, hclosed, hproven⟩ := hmints
    obtain ⟨text, cap, w, rfl, hcap, hbound, hgate, hmember⟩ := hanswers
    obtain ⟨admitted, hresult, rfl⟩ : ∃ admitted, (admitRequest (e.servingWith enabled cuts) m now pools
        session peer (some text) membership service).result = .ok admitted ∧ admitted.witness = w :=
      admits_rooted hclosed hproven (hpeer.resolve_left (by simp)) hkey hcap hbound hgate
    refine ⟨admitted, route, hresult, henabled, hget, fun _ => hmember, ?_⟩
    rw [rooted_origin hD hbase hgate]
    exact haccepts
  | Proven =>
    obtain ⟨hbase, hclosed, hproven⟩ := hmints
    obtain ⟨w, hgate, hknows⟩ := hanswers
    obtain ⟨knows, hfound⟩ := Option.ne_none_iff_exists'.1 hproven
    obtain ⟨admitted, hresult, rfl⟩ : ∃ admitted, (admitRequest (e.servingWith enabled cuts) m now pools
        session peer capability membership service).result = .ok admitted ∧ admitted.witness = w :=
      admits_proven hD hclosed hfound (hpeer.resolve_left (by simp)) hkey hgate (hknows knows hfound) hslots
    refine ⟨admitted, route, hresult, henabled, hget, fun hmember => ?_, ?_⟩
    · cases hfloor hmember
    · rw [(hD.proven_mints m e.gate key _ hgate).1]
      exact haccepts

/-- Every route passes a class its name mints: no pairing of gate, overlay, access and marker is dead. -/
theorem route_mintable (hdeclared : e.Declared) {name : String} {route : Route D}
    (hget : e.services.get name = some route) : ∃ c, e.Mints name c ∧ route.Passes c := by
  by_cases hopen : e.gate.isOpen = true ∨ name ∈ e.publicServices ∨ name ∈ e.publicUnsafe
  · obtain ⟨hfamily, haccepts⟩ := openWitness_accepts hdeclared hget hopen
    refine ⟨.Open, hopen, fun hmember => ?_, haccepts⟩
    rw [hfamily] at hmember
    cases hmember
  · have hbase : e.gate.isOpen = false := by simpa using fun h => hopen (.inl h)
    have hclosed : ¬ (name ∈ e.publicServices ∨ name ∈ e.publicUnsafe) := fun h => hopen (.inr h)
    have hbound := hdeclared.bound name route hget
    obtain ⟨target, access⟩ := route
    cases access with
    | ProvenOnly knows =>
      have hproven := Services.proven_eq_some.2 ⟨_, hget, rfl⟩
      refine ⟨.Proven, ⟨hbase, hclosed, by simp [hproven]⟩, ?_, ?_⟩
      · intro hmember
        cases hmember
      · intro h htarget
        cases htarget
        rw [Handler.accepts, hbound]
        rfl
    | Member =>
      have hproven : e.services.proven name = none := by simp [Services.proven, hget]
      refine ⟨.RootedMember, ⟨hbase, hclosed, hproven⟩, fun _ => rfl, ?_⟩
      intro h htarget
      cases htarget
      exact Exposure.accepts_rooted hbound
    | Family =>
      have hproven : e.services.proven name = none := by simp [Services.proven, hget]
      refine ⟨.RootedSlip, ⟨hbase, hclosed, hproven⟩, ?_, ?_⟩
      · intro hmember
        cases hmember
      · intro h htarget
        cases htarget
        exact Exposure.accepts_rooted hbound

end Exposer

/-- The interlocks read a table only by name. -/
theorem Exposer.Proved.congr {host : Host} {services services' : Services D} {gate : Gate D.Base}
    {publicRequest publicUnsafeRequest : List String}
    (hget : ∀ name, services'.get name = services.get name)
    (h : Proved host services gate publicRequest publicUnsafeRequest) :
    Proved host services' gate publicRequest publicUnsafeRequest := by
  obtain ⟨hproven, hkeyless, hraw, hmember, hraws, hfloor, hsafe⟩ := h
  constructor
  · intro name route hopen hfound
    exact hproven name route hopen (by rw [← hget, hfound])
  · intro name route handler hopen hfound
    exact hkeyless name route handler hopen (by rw [← hget, hfound])
  · intro name route stream hopen hfound
    exact hraw name route stream hopen (by rw [← hget, hfound])
  · intro name route hopen hfound
    exact hmember name route hopen (by rw [← hget, hfound])
  · intro name hname
    rw [hget]
    exact hraws name hname
  · intro name hname route hfound
    exact hfloor name hname route (by rw [← hget, hfound])
  · intro name hname
    rw [hget]
    exact hsafe name hname

/-- The same bindings in another order, with the same last requests, build the same table. -/
theorem Router.build_perm {host : Host} {gate : Gate D.Base} {verbs verbs' : List (Verb D)} {r : Router D}
    (hperm : (verbs.flatMap Verb.bindings).Perm (verbs'.flatMap Verb.bindings))
    (hpublic : lastPublic verbs' = lastPublic verbs) (hunsafeNames : lastUnsafe verbs' = lastUnsafe verbs)
    (hb : Router.build host gate verbs = .ok r) :
    ∃ r', Router.build host gate verbs' = .ok r' ∧ (∀ name, r'.services.get name = r.services.get name) ∧
      r'.publicRequest = r.publicRequest ∧ r'.publicUnsafeRequest = r.publicUnsafeRequest ∧
      r'.gate = r.gate := by
  obtain ⟨rows, hbinds, hadded, hpub, hraws, hgate⟩ := build_ok.1 hb
  obtain ⟨rows', hbinds', hrows⟩ := List.perm_comp_forall₂ hperm.symm hbinds
  have hentries : r.services.routes.entries = rows.reverse.map (fun row => ⟨row.1, row.2⟩) := by
    simpa [Services.Added] using hadded
  have hsame : (rows'.reverse.map fun row => (⟨row.1, row.2⟩ : Sigma fun _ : String => Route D)).Perm
      r.services.routes.entries := by
    rw [hentries]
    exact (((List.reverse_perm rows').trans hrows).trans (List.reverse_perm rows).symm).map _
  have hnodup := (List.perm_nodupKeys hsame).2 r.services.routes.nodupKeys
  refine ⟨{ services := ⟨⟨_, hnodup⟩⟩
            publicRequest := r.publicRequest
            publicUnsafeRequest := r.publicUnsafeRequest
            gate := r.gate }, ?_, ?_, rfl, rfl, rfl⟩
  · refine build_ok.2 ⟨rows', hbinds', ?_, ?_, ?_, hgate⟩
    · simp [Services.Added]
    · rw [hpublic, hpub]
    · rw [hunsafeNames, hraws]
  · intro name
    exact AList.perm_lookup hsame

/-- Two exposers that answer every dial alike: the same routes by name, gate, overlays and oracles. -/
structure Exposer.Same (e e' : Exposer D) : Prop where
  services : ∀ name, e'.services.get name = e.services.get name
  gate : e'.gate = e.gate
  publicServices : e'.publicServices = e.publicServices
  publicUnsafe : e'.publicUnsafe = e.publicUnsafe
  enabled : e'.enabled = e.enabled
  cuts : e'.cuts = e.cuts

/-- No served route is dead: some class of witness is minted for its name and passes it, and a dial of
that class reaches it. The overlays are the last requests and disjoint, and the order in which rows were
bound changes neither whether the router is exposed nor what it builds. -/
theorem no_dead_route (hD : D.Lawful) {host host' : Host} {gate : Gate D.Base} {verbs : List (Verb D)}
    {r : Router D} {e : Exposer D} (hb : Router.build host gate verbs = .ok r)
    (he : r.expose host' = .ok e) :
    (∀ (service : D.Service) route, e.services.get service.val = some route →
      ∃ c, e.Mints service.val c ∧ route.Passes c ∧
        ∀ (enabled : D.Moment → D.Service → Bool) (cuts : Option (LiveCuts D)) (m : D.Moment)
          (now : SystemTime) (pools : Pools) (session : PublicSession) (peer : SessionPeer)
          (key : D.VerifyKey) (capability : Option String),
          e.Answers m key capability service c → (c = .Open ∨ peerProven peer.security = true) →
          peer.node.verifyKey D = .ok key → enabled m service = true → pools.streams.free ≠ 0 →
          (session.held = true ∨ pools.sessions.free ≠ 0) → pools.proven.free ≠ 0 →
          (e.servingWith enabled cuts).Reaches m now pools session peer capability none service) ∧
    (∀ name, e.services.get name ≠ none → D.validName name = true) ∧
    Disjoint e.publicServices e.publicUnsafe ∧
    e.publicServices = (lastPublic verbs).toFinset ∧ e.publicUnsafe = (lastUnsafe verbs).toFinset ∧
    ∀ verbs' : List (Verb D), (verbs.flatMap Verb.bindings).Perm (verbs'.flatMap Verb.bindings) →
      lastPublic verbs' = lastPublic verbs → lastUnsafe verbs' = lastUnsafe verbs →
      ∃ r' e', Router.build host gate verbs' = .ok r' ∧ r'.expose host' = .ok e' ∧ e.Same e' := by
  have hdeclared := Router.declared hb he
  have hshape := (Router.expose_ok hb he).1
  refine ⟨?_, ?_, ?_, by rw [hshape], by rw [hshape], ?_⟩
  · intro service route hget
    obtain ⟨c, hmints, hpasses⟩ := Exposer.route_mintable hdeclared hget
    refine ⟨c, hmints, hpasses, ?_⟩
    intro enabled cuts m now pools session peer key capability hanswers hpeer hkey henabled hstreams hsessions
      hslots
    exact Exposer.answers_reach hD hdeclared hget hmints hpasses hanswers hpeer hkey henabled (fun _ => rfl)
      hstreams hsessions hslots
  · intro name hserved
    obtain ⟨route, hget⟩ := Option.ne_none_iff_exists'.1 hserved
    exact hdeclared.valid name route hget
  · rw [Finset.disjoint_left]
    intro name hpublic hraw
    obtain ⟨handler, hfound, -⟩ := hdeclared.publicSafe name hpublic
    obtain ⟨stream, hget⟩ := hdeclared.unsafeRaw name hraw
    cases hfound.symm.trans hget
  · intro verbs' hperm hpublic hunsafeNames
    obtain ⟨r', hb', hget, hpub, hraws, hgate⟩ := Router.build_perm hperm hpublic hunsafeNames hb
    obtain ⟨hproved, heq⟩ := Exposer.prove_ok.1 he
    refine ⟨r', _, hb', Exposer.prove_ok.2 ⟨?_, rfl⟩, ?_⟩
    · rw [hpub, hraws, hgate]
      exact hproved.congr hget
    · rw [heq]
      refine ⟨hget, hgate, ?_, ?_, rfl, rfl⟩
      · simp only [hpub]
      · simp only [hraws]

theorem no_dead_route_shell :
    let root := Vector.replicate 32 0
    let D := Deps.small root
    let web : D.Service := ⟨"web", by decide⟩
    let shell : D.Service := ⟨"shell", by decide⟩
    let verbs : List (Verb D) := [.echo web, .memberService shell (.bound .Never .Metered), .openPublic [web]]
    let verbs' : List (Verb D) := [.openPublic [web], .memberService shell (.bound .Never .Metered), .echo web]
    ∃ r e, Router.build Host.empty (.rooted root) verbs = .ok r ∧ r.expose Host.empty = .ok e ∧
      e.publicServices = {"web"} ∧
      (∃ c route, e.services.get "shell" = some route ∧ e.Mints "shell" c ∧ route.Passes c) ∧
      ∃ r' e', Router.build Host.empty (.rooted root) verbs' = .ok r' ∧ r'.expose Host.empty = .ok e' ∧
        e.Same e' := by
  intro root D web shell verbs verbs'
  refine ⟨_, _, rfl, rfl, ?_⟩
  obtain ⟨hreach, -, -, hpublic, -, horder⟩ := @no_dead_route D (Deps.small_lawful root) Host.empty Host.empty
    (.rooted root) verbs _ _ rfl rfl
  obtain ⟨c, hmints, hpasses, -⟩ := hreach shell _ rfl
  exact ⟨hpublic, ⟨c, _, rfl, hmints, hpasses⟩, horder verbs' (List.Perm.swap _ _ _) rfl rfl⟩

end Tightbeam
