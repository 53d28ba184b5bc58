import Tightbeam.AdmitCases
import Tightbeam.Exposed

/-!
# Exposure soundness

Which witness each served route was reached on, over every way of building a router and every dial.
-/
namespace Tightbeam

variable {D : Deps}

/-- An exposer's state with any oracles wired. -/
def Exposer.servingWith (e : Exposer D) (enabled : D.Moment → D.Service → Bool)
    (cuts : Option (LiveCuts D)) : Serving D :=
  { e.serving with enabled, cuts }

theorem makeReady_handler {dial : Dial D} {node : NodeId} {target : Target}
    {witness : Admitted D.VerifyKey} {h : Handler} {proof : Served D.VerifyKey h.exposure}
    (hready : makeReady dial node target witness = .ok (.Handler h proof)) :
    target = .Handler h ∧ proof.admitted = witness := by
  cases target with
  | RawStream stream =>
    simp only [makeReady] at hready
    split at hready
    · cases hready
    · cases hready
  | Handler handler =>
    simp only [makeReady] at hready
    cases hprepare : handler.prepare witness with
    | error refusal =>
      rw [hprepare] at hready
      cases hready
    | ok served =>
      rw [hprepare] at hready
      cases hready
      exact ⟨rfl, Served.mint_ok hprepare⟩

theorem makeReady_raw {dial : Dial D} {node : NodeId} {target : Target}
    {witness : Admitted D.VerifyKey} {stream : RawStream} {opened : Opened}
    (hready : makeReady dial node target witness = .ok (.Raw stream opened)) :
    target = .RawStream stream := by
  cases target with
  | RawStream found =>
    simp only [makeReady] at hready
    split at hready
    · cases hready
      rfl
    · cases hready
  | Handler handler =>
    simp only [makeReady] at hready
    split at hready
    · cases hready
    · cases hready

/-- The path a witness was minted on, by its origin and the gate it faced. -/
structure Minted (e : Exposer D) (m : D.Moment) (peer : SessionPeer) (service : D.Service)
    (witness : Admitted D.VerifyKey) : Prop where
  overlay : (service.val ∈ e.publicServices ∨ service.val ∈ e.publicUnsafe) → witness.origin = .Open
  unproven : ¬ (service.val ∈ e.publicServices ∨ service.val ∈ e.publicUnsafe) →
    e.gate.isOpen = false → peerProven peer.security = true
  knows : ∀ knows, e.services.proven service.val = some knows →
    ¬ (service.val ∈ e.publicServices ∨ service.val ∈ e.publicUnsafe) →
    witness.origin = .Proven ∧ peerProven peer.security = true ∧ ∃ key,
      peer.node.verifyKey D = .ok key ∧ witness.revocablePeer = some key ∧
      D.revokes m e.gate key = false ∧ knows m key = true
  rooted : ¬ (service.val ∈ e.publicServices ∨ service.val ∈ e.publicUnsafe) →
    e.services.proven service.val = none → e.gate.isOpen = false → witness.origin = .Rooted

theorem AdmittedBy.minted (hD : D.Lawful) {e : Exposer D} {enabled : D.Moment → D.Service → Bool}
    {cuts : Option (LiveCuts D)} {m : D.Moment} {now : SystemTime} {pools pools' : Pools}
    {session session' : PublicSession} {peer : SessionPeer} {capability membership : Option String}
    {service : D.Service} {admitted : AdmittedStream D}
    (h : AdmittedBy (e.servingWith enabled cuts) m now pools session peer capability membership service
      admitted pools' session') : Minted e m peer service admitted.witness := by
  cases h with
  | overlay key witness streams sessions session' hkey hopen hgate hstreams hsessions =>
    refine ⟨fun _ => (hD.open_mints m key none service witness hgate).1, fun hclosed => absurd hopen hclosed,
      fun _ _ hclosed => absurd hopen hclosed, fun hclosed => absurd hopen hclosed⟩
  | proven key knows witness named slots hkey hclosed hroute hpeer hgate hnamed hknows hslots =>
    obtain ⟨horigin, hrevocable, hrevokes, -⟩ := hD.proven_mints m e.gate key witness hgate
    rw [hrevocable] at hnamed
    cases hnamed
    refine ⟨fun hopen => absurd hopen hclosed, fun _ _ => hpeer, ?_, ?_⟩
    · intro found hfound _
      cases hroute.symm.trans hfound
      exact ⟨horigin, hpeer, key, hkey, hrevocable, hrevokes, hknows⟩
    · intro _ hnone
      cases hroute.symm.trans hnone
  | family key admitted hkey hclosed hroute hgate =>
    obtain ⟨hpeer, cap, badge, witness, -, -, hwitness, rfl⟩ := admitFamily_ok.1 hgate
    have hrooted : e.gate.isOpen = false → D.wantsCapability e.gate = true ∧ witness.origin = .Rooted := by
      intro hbase
      cases hcase : e.gate with
      | Open =>
        rw [hcase] at hbase
        cases hbase
      | rooted base =>
        have hgate : (e.servingWith enabled cuts).gate = .rooted base := hcase
        rw [hgate] at hwitness
        refine ⟨hD.rooted_wants base, ?_⟩
        cases cap with
        | none => exact hD.rooted_mints m base key none service witness hwitness
        | some slip =>
          cases badge with
          | none => exact hD.rooted_mints m base key (some slip) service witness hwitness
          | some badge => exact hD.foreign_mints m base key slip badge service witness hwitness
    refine ⟨fun hopen => absurd hopen hclosed, fun _ hbase => hpeer (hrooted hbase).1, ?_,
      fun _ _ hbase => (hrooted hbase).2⟩
    intro found hfound _
    cases hroute.symm.trans hfound

namespace Minted

variable {e : Exposer D} {m : D.Moment} {peer : SessionPeer} {service : D.Service} {route : Route D}
  {witness : Admitted D.VerifyKey} {h : Handler}

/-- A handler that is never open: its witness is rooted, so neither an overlay nor an open gate minted it. -/
theorem never (hminted : Minted e m peer service witness) (hdeclared : e.Declared)
    (hroute : e.services.get service.val = some route) (htarget : route.target = .Handler h)
    (haccepts : h.exposure.accepts witness.origin = true) (hnever : h.exposure = .Never) :
    witness.origin = .Rooted ∧ e.gate ≠ .Open ∧ service.val ∉ e.publicServices ∧
      service.val ∉ e.publicUnsafe ∧ peerProven peer.security = true := by
  have horigin : witness.origin = .Rooted := by
    rw [hnever] at haccepts
    exact Exposure.never_accepts.1 haccepts
  have hclosed : ¬ (service.val ∈ e.publicServices ∨ service.val ∈ e.publicUnsafe) := by
    intro hopen
    rw [hminted.overlay hopen] at horigin
    cases horigin
  have hbase : e.gate.isOpen = false := by
    by_contra hopen
    have hsafe := (hdeclared.openBase _ _ (by simpa using hopen) hroute).2
    rw [htarget] at hsafe
    cases hnever.symm.trans hsafe
  refine ⟨horigin, ?_, fun hmem => hclosed (.inl hmem), fun hmem => hclosed (.inr hmem),
    hminted.unproven hclosed hbase⟩
  intro hopen
  rw [hopen] at hbase
  cases hbase

/-- A proven-only handler: its route is proven-only, and the key was proven, known and not revoked. -/
theorem provenOnly (hminted : Minted e m peer service witness) (hdeclared : e.Declared)
    (hroute : e.services.get service.val = some route) (htarget : route.target = .Handler h)
    (haccepts : h.exposure.accepts witness.origin = true) (hproven : h.exposure = .ProvenOnly) :
    witness.origin = .Proven ∧ peerProven peer.security = true ∧ ∃ knows key,
      route.access = .ProvenOnly knows ∧ peer.node.verifyKey D = .ok key ∧
      witness.revocablePeer = some key ∧ D.revokes m e.gate key = false ∧ knows m key = true := by
  have hbound := hdeclared.bound _ _ hroute
  have hclosed : ¬ (service.val ∈ e.publicServices ∨ service.val ∈ e.publicUnsafe) := by
    intro hopen
    rw [hproven, hminted.overlay hopen] at haccepts
    cases haccepts
  obtain ⟨knows, haccess⟩ : ∃ knows, route.access = .ProvenOnly knows := by
    cases haccess : route.access with
    | ProvenOnly knows => exact ⟨knows, rfl⟩
    | Family =>
      rw [Route.Bound, haccess, htarget] at hbound
      exact absurd hproven hbound
    | Member =>
      rw [Route.Bound, haccess, htarget] at hbound
      exact absurd hproven hbound
  have hknows := hminted.knows knows (Services.proven_eq_some.2 ⟨route, hroute, haccess⟩) hclosed
  obtain ⟨horigin, hpeer, key, hkey, hrevocable, hrevokes, hok⟩ := hknows
  exact ⟨horigin, hpeer, knows, key, haccess, hkey, hrevocable, hrevokes, hok⟩

/-- A raw stream reached on an open witness was named unsafe, whichever of the two opened it. -/
theorem rawOpen {stream : RawStream} (hminted : Minted e m peer service witness)
    (hdeclared : e.Declared) (hroute : e.services.get service.val = some route)
    (htarget : route.target = .RawStream stream) (horigin : witness.origin = .Open) :
    service.val ∈ e.publicUnsafe := by
  have hbound := hdeclared.bound _ _ hroute
  by_cases hopen : service.val ∈ e.publicServices ∨ service.val ∈ e.publicUnsafe
  · cases hopen with
    | inr hunsafeNames => exact hunsafeNames
    | inl hpublic =>
      obtain ⟨h, hget, -⟩ := hdeclared.publicSafe _ hpublic
      rw [Option.some.inj (hroute.symm.trans hget)] at htarget
      cases htarget
  · by_cases hbase : e.gate.isOpen = true
    · have hunsafeNames := (hdeclared.openBase _ _ hbase hroute).2
      rw [htarget] at hunsafeNames
      exact hunsafeNames
    · have hproven : e.services.proven service.val = none := by
        cases hproven : e.services.proven service.val with
        | none => rfl
        | some knows =>
          obtain ⟨route', hget, haccess⟩ := Services.proven_eq_some.1 hproven
          cases hroute.symm.trans hget
          rw [Route.Bound, haccess, htarget] at hbound
          exact absurd hbound id
      rw [hminted.rooted hopen hproven (by simpa using hbase)] at horigin
      cases horigin

end Minted

/-- A stream served as its exposer declared it. -/
structure Exposer.Serves (e : Exposer D) (m : D.Moment) (peer : SessionPeer) (s : Serve D) : Prop where
  route : e.services.get s.service.val = some s.route
  target : match s.ready with
    | .Handler h proof => s.route.target = .Handler h ∧ proof.admitted = s.admitted.witness
    | .Raw stream _ => s.route.target = .RawStream stream
  never : ∀ h proof, s.ready = .Handler h proof → h.exposure = .Never →
    s.admitted.witness.origin = .Rooted ∧ e.gate ≠ .Open ∧ s.service.val ∉ e.publicServices ∧
      s.service.val ∉ e.publicUnsafe ∧ peerProven peer.security = true
  provenOnly : ∀ h proof, s.ready = .Handler h proof → h.exposure = .ProvenOnly →
    s.admitted.witness.origin = .Proven ∧ peerProven peer.security = true ∧ ∃ knows key,
      s.route.access = .ProvenOnly knows ∧ peer.node.verifyKey D = .ok key ∧
      s.admitted.witness.revocablePeer = some key ∧ D.revokes m e.gate key = false ∧ knows m key = true
  member : s.route.access.isMember = true → s.admitted.witness.isMember = true
  openWitness : s.admitted.witness.origin = .Open →
    (∃ h proof, s.ready = .Handler h proof ∧ h.exposure = .OptIn) ∨
      ∃ stream opened, s.ready = .Raw stream opened ∧ s.service.val ∈ e.publicUnsafe
  delegated : ∀ h proof, s.ready = .Handler h proof → ∀ inner (last : Served D.VerifyKey inner),
    Delegates proof last → last.admitted.origin = s.admitted.witness.origin ∧
      inner.accepts s.admitted.witness.origin = true

/-- Every stream an exposed router serves is served as declared, whoever dialed and whatever it sent. -/
theorem exposure_sound (hD : D.Lawful) {host host' : Host} {gate : Gate D.Base} {verbs : List (Verb D)}
    {r : Router D} {e : Exposer D} (hb : Router.build host gate verbs = .ok r)
    (he : r.expose host' = .ok e) {enabled : D.Moment → D.Service → Bool} {cuts : Option (LiveCuts D)}
    {dial : Dial D} {pools : Pools} {session : PublicSession} {peer : SessionPeer}
    {chains : Option (AdmittedChains D)} {s : Serve D}
    (hs : (serveRequest (e.servingWith enabled cuts) dial pools session peer chains).serve = some s) :
    e.Serves dial.moment peer s := by
  have hdeclared := Router.declared hb he
  obtain ⟨request, ⟨pools', session', hadmitted⟩, hdispatched⟩ := serveRequest_serve hs
  have hminted := hadmitted.minted hD
  have hroute : e.services.get s.service.val = some s.route := hdispatched.route
  have hready := hdispatched.ready
  have hhandler : ∀ h proof, s.ready = .Handler h proof →
      s.route.target = .Handler h ∧ proof.admitted = s.admitted.witness := by
    intro h proof hcase
    rw [hcase] at hready
    exact makeReady_handler hready
  have hraw : ∀ stream opened, s.ready = .Raw stream opened → s.route.target = .RawStream stream := by
    intro stream opened hcase
    rw [hcase] at hready
    exact makeReady_raw hready
  have haccepts : ∀ h proof, s.ready = .Handler h proof →
      h.exposure.accepts s.admitted.witness.origin = true := by
    intro h proof hcase
    rw [← (hhandler h proof hcase).2]
    exact proof.accepted
  refine ⟨hroute, ?_, ?_, ?_, hdispatched.floor, ?_, ?_⟩
  · cases hcase : s.ready with
    | Handler h proof => exact hhandler h proof hcase
    | Raw stream opened => exact hraw stream opened hcase
  · intro h proof hcase hnever
    exact hminted.never hdeclared hroute (hhandler h proof hcase).1 (haccepts h proof hcase) hnever
  · intro h proof hcase hproven
    exact hminted.provenOnly hdeclared hroute (hhandler h proof hcase).1 (haccepts h proof hcase) hproven
  · intro horigin
    cases hcase : s.ready with
    | Handler h proof =>
      refine .inl ⟨h, proof, rfl, ?_⟩
      have hok := haccepts h proof hcase
      rw [horigin] at hok
      exact Exposure.accepts_open.1 hok
    | Raw stream opened =>
      exact .inr ⟨stream, opened, rfl, hminted.rawOpen hdeclared hroute (hraw stream opened hcase) horigin⟩
  · intro h proof hcase inner last hchain
    have hlast := hchain.admitted
    rw [(hhandler h proof hcase).2] at hlast
    refine ⟨by rw [hlast], ?_⟩
    rw [← hlast]
    exact last.accepted

theorem exposure_sound_badge :
    let root := Vector.replicate 32 0
    let D := Deps.small root
    let shell : D.Service := ⟨"shell", by decide⟩
    let peer : SessionPeer := ⟨⟨.Ed25519, Vector.replicate 32 7⟩, ⟨.Proven⟩⟩
    let dial : Dial D :=
      ⟨some (Request.write ⟨"shell", some "badge", none⟩).2, [], 0, ⟨0⟩, fun _ _ => .ok .Stream, none⟩
    ∃ r e s, Router.build Host.empty (.rooted root) [.service shell (.bound .Never .Metered)] = .ok r ∧
      r.expose Host.empty = .ok e ∧
      (serveRequest (e.servingWith (fun _ _ => true) none) dial Pools.new ⟨false⟩ peer none).serve = some s ∧
      e.Serves dial.moment peer s := by
  intro root D shell peer dial
  refine ⟨_, _, _, rfl, rfl, rfl, ?_⟩
  exact @exposure_sound D (Deps.small_lawful root) Host.empty Host.empty (.rooted root)
    [.service shell (.bound .Never .Metered)] _ _ rfl rfl (fun _ _ => true) none dial Pools.new ⟨false⟩ peer none _ rfl

end Tightbeam
