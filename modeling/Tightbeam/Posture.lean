import Tightbeam.AdmitCases
import Tightbeam.Exposed
import Tightbeam.Soundness

/-!
# Posture

What the manifest and the catalog say of a name, against what a dial with no token meets there.
-/
namespace Tightbeam

variable {D : Deps}

/-- A dial that gets past admission, the enabled check, the member floor and the handler's own rule. -/
def Serving.Reaches (serving : Serving D) (m : D.Moment) (now : SystemTime) (pools : Pools)
    (session : PublicSession) (peer : SessionPeer) (capability membership : Option String)
    (service : D.Service) : Prop :=
  ∃ admitted route,
    (admitRequest serving m now pools session peer capability membership service).result = .ok admitted ∧
      serving.enabled m service = true ∧ serving.services.get service.val = some route ∧
      (route.access.isMember = true → admitted.witness.isMember = true) ∧
      ∀ h, route.target = .Handler h → h.accepts admitted.witness.origin = true

theorem PublicSession.enter_some {session : PublicSession} {sessions : Semaphore}
    (h : session.held = true ∨ sessions.free ≠ 0) : ∃ left, session.enter sessions = some left := by
  unfold enter
  by_cases hheld : session.held = true
  · rw [if_pos hheld]
    exact ⟨_, rfl⟩
  · rw [if_neg hheld]
    cases htake : sessions.tryAcquire with
    | none =>
      have hzero := Semaphore.tryAcquire_eq_none.1 htake
      exact absurd hzero (h.resolve_left hheld)
    | some left => exact ⟨_, rfl⟩

theorem Semaphore.eq_release {s : Semaphore} (h : s.free ≠ 0) : ∃ left : Semaphore, s = left.release := by
  cases htake : s.tryAcquire with
  | none => exact absurd (tryAcquire_eq_none.1 htake) h
  | some left => exact ⟨left, tryAcquire_eq_some.1 htake⟩

namespace Exposer

variable {e : Exposer D} {enabled : D.Moment → D.Service → Bool} {cuts : Option (LiveCuts D)}
  {m : D.Moment} {now : SystemTime} {pools : Pools} {session : PublicSession} {peer : SessionPeer}
  {key : D.VerifyKey} {service : D.Service}

theorem posture_open {name : String} :
    e.posture name = .Open ↔ e.gate.isOpen = true ∨ name ∈ e.publicServices ∨ name ∈ e.publicUnsafe := by
  unfold posture
  split_ifs with h
  · simpa using h
  · simpa using h

theorem posture_gated {name : String} :
    e.posture name = .Gated ↔
      e.gate.isOpen = false ∧ ¬ (name ∈ e.publicServices ∨ name ∈ e.publicUnsafe) := by
  unfold posture
  split_ifs with h
  · simp only [false_iff, not_and, not_not]
    intro hbase
    exact h.resolve_left (by simp [hbase])
  · simpa [not_or] using h

theorem openWitness_accepts {e : Exposer D} (hdeclared : e.Declared) {name : String} {route : Route D}
    (hget : e.services.get name = some route)
    (hopen : e.gate.isOpen = true ∨ name ∈ e.publicServices ∨ name ∈ e.publicUnsafe) :
    route.access = .Family ∧ ∀ h, route.target = .Handler h → h.accepts .Open = true := by
  obtain hbase | hpublic | hraw := hopen
  · obtain ⟨hfamily, htarget⟩ := hdeclared.openBase _ _ hbase hget
    refine ⟨hfamily, fun h heq => ?_⟩
    rw [heq] at htarget
    exact Exposure.accepts_open.2 htarget
  · obtain ⟨handler, hfound, hsafe⟩ := hdeclared.publicSafe _ hpublic
    cases hget.symm.trans hfound
    refine ⟨rfl, fun h heq => ?_⟩
    cases heq
    exact Exposure.accepts_open.2 hsafe
  · obtain ⟨stream, hfound⟩ := hdeclared.unsafeRaw _ hraw
    cases hget.symm.trans hfound
    exact ⟨rfl, fun h heq => by cases heq⟩

/-- An open name admits a dial with no token, on an open witness, while permits are free. -/
theorem admits_open (hD : D.Lawful) (hdeclared : e.Declared)
    (hopen : e.gate.isOpen = true ∨ service.val ∈ e.publicServices ∨ service.val ∈ e.publicUnsafe)
    (hkey : peer.node.verifyKey D = .ok key) (hstreams : pools.streams.free ≠ 0)
    (hsessions : session.held = true ∨ pools.sessions.free ≠ 0) :
    ∃ admitted, (admitRequest (e.servingWith enabled cuts) m now pools session peer none none
      service).result = .ok admitted ∧ admitted.witness.origin = .Open := by
  obtain ⟨witness, hgate⟩ := hD.open_admits m key service
  have horigin := (hD.open_mints m key none service witness hgate).1
  by_cases hoverlay : service.val ∈ e.publicServices ∨ service.val ∈ e.publicUnsafe
  · obtain ⟨streams, hfree⟩ := Semaphore.eq_release hstreams
    obtain ⟨⟨session', sessions⟩, henter⟩ := PublicSession.enter_some hsessions
    have hby : AdmittedBy (e.servingWith enabled cuts) m now pools session peer none none service _ _ _ :=
      .overlay key witness streams sessions session' hkey hoverlay hgate hfree henter
    exact ⟨_, by rw [hby.ruling], horigin⟩
  · have hbase := hopen.resolve_right hoverlay
    have hproven : e.services.proven service.val = none := by
      cases hproven : e.services.proven service.val with
      | none => rfl
      | some knows =>
        obtain ⟨found, hfound, haccess⟩ := Services.proven_eq_some.1 hproven
        rw [(openWitness_accepts hdeclared hfound hopen).1] at haccess
        cases haccess
    have hcase : e.gate = .Open := by
      cases hcase : e.gate with
      | Open => rfl
      | rooted base =>
        rw [hcase] at hbase
        cases hbase
    have hfamily : admitFamily e.gate m peer key none none service = .ok ⟨witness, key, [], none, none⟩ := by
      rw [hcase, admitFamily_ok]
      refine ⟨fun hwants => ?_, none, none, witness, rfl, rfl, hgate, ?_⟩
      · rw [hD.open_wants] at hwants
        cases hwants
      · simp [hD.open_wants]
    have hby : AdmittedBy (e.servingWith enabled cuts) m now pools session peer none none service _ _ _ :=
      .family key _ hkey hoverlay hproven hfamily
    exact ⟨_, by rw [hby.ruling], horigin⟩

/-- A gated name refuses every dial whose peer only announced its key, before any token is read. -/
theorem refuses_gated (hD : D.Lawful) {capability membership : Option String}
    (hgated : e.gate.isOpen = false ∧ ¬ (service.val ∈ e.publicServices ∨ service.val ∈ e.publicUnsafe))
    (hpeer : peerProven peer.security = false) (hkey : peer.node.verifyKey D = .ok key) :
    admitRequest (e.servingWith enabled cuts) m now pools session peer capability membership service =
      ⟨.error (.PeerNotProven peer.security.peer), pools, session⟩ := by
  obtain ⟨hbase, hclosed⟩ := hgated
  have hwants : D.wantsCapability e.gate = true := by
    cases hcase : e.gate with
    | Open =>
      rw [hcase] at hbase
      cases hbase
    | rooted base => exact hD.rooted_wants base
  have hnot : ¬ (service.val ∈ (e.servingWith enabled cuts).publicServices ∨
    service.val ∈ (e.servingWith enabled cuts).publicUnsafe) := hclosed
  simp only [admitRequest, hkey, if_neg hnot]
  cases hproven : (e.servingWith enabled cuts).services.proven service.val with
  | none =>
    have hfamily : admitFamily (e.servingWith enabled cuts).gate m peer key capability membership service =
        .error (.PeerNotProven peer.security.peer) := if_pos ⟨hwants, hpeer⟩
    simp [hfamily]
  | some knows => simp [admitProven, hpeer]

theorem mem_manifest {host : Host} {entry : ManifestEntry} :
    entry ∈ e.manifest host ↔ ∃ route, e.services.get entry.name = some route ∧
      entry = e.manifestEntry host entry.name route := by
  simp only [manifest, sortByName, List.mem_insertionSort, List.mem_map, Sigma.exists, Services.get_eq_some]
  constructor
  · intro h
    obtain ⟨name, route, hmem, rfl⟩ := h
    exact ⟨route, hmem, rfl⟩
  · intro h
    obtain ⟨route, hmem, heq⟩ := h
    exact ⟨entry.name, route, hmem, heq.symm⟩

end Exposer

theorem map_sortByName {α : Type} (name : α → String) (entries : List α) :
    (sortByName name entries).map name = (entries.map name).insertionSort (· ≤ ·) :=
  List.map_insertionSort _ _ name entries fun _ _ _ _ => Iff.rfl

/-- The served names in order, as both views list them. -/
theorem manifest_names {host : Host} {e : Exposer D} :
    (e.manifest host).map ManifestEntry.name = e.services.routes.keys.insertionSort (· ≤ ·) := by
  rw [Exposer.manifest, map_sortByName, List.map_map]
  rfl

theorem catalog_names {r : Router D} :
    (r.catalog none).map ServiceEntry.name = r.services.routes.keys.insertionSort (· ≤ ·) := by
  simp only [Router.catalog, Services.catalog]
  rw [map_sortByName, List.map_map]
  have hid : (ServiceEntry.name ∘ fun name => ServiceEntry.mk name
      (if r.gate.isOpen ∨ name ∈ r.publicRequest ∨ name ∈ r.publicUnsafeRequest then .Open else .Gated)) = id := rfl
  rw [hid, List.map_id]
  have hsorted : r.services.names.Pairwise (· ≤ ·) := by
    simpa [Services.names, sortByName] using List.pairwise_insertionSort (· ≤ ·) r.services.routes.keys
  rw [hsorted.insertionSort_eq]
  rfl

theorem served_names_ascending (services : Services D) :
    (services.routes.keys.insertionSort (· ≤ ·)).Pairwise (· < ·) := by
  have hsorted := List.pairwise_insertionSort (· ≤ ·) services.routes.keys
  have hnodup : (services.routes.keys.insertionSort (· ≤ ·)).Nodup :=
    (List.perm_insertionSort (· ≤ ·) services.routes.keys).nodup_iff.2 services.routes.keys_nodup
  exact (hsorted.and hnodup).imp fun h => lt_of_le_of_ne h.1 h.2

namespace Router

variable {host host' : Host} {gate : Gate D.Base} {verbs : List (Verb D)} {r : Router D} {e : Exposer D}

/-- Posture off the requests and posture off the proven overlays are one. -/
theorem catalog_eq_manifest (hb : Router.build host gate verbs = .ok r) (he : r.expose host' = .ok e)
    (host : Host) :
    (r.catalog none).map (fun entry => (entry.name, entry.posture)) =
      (e.manifest host).map fun entry => (entry.name, entry.posture) := by
  obtain ⟨rfl, -⟩ := expose_ok hb he
  obtain ⟨rows, -, -, hpub, hunsafeNames, hgate⟩ := build_ok.1 hb
  set e : Exposer D :=
    ⟨r.services, gate, (lastPublic verbs).toFinset, (lastUnsafe verbs).toFinset, fun _ _ => true, none⟩
  have hcatalog : ∀ entry ∈ r.catalog none, entry.posture = e.posture entry.name := by
    intro entry hmem
    simp only [Router.catalog, Services.catalog, sortByName, List.mem_insertionSort, List.mem_map] at hmem
    obtain ⟨name, -, rfl⟩ := hmem
    simp [Exposer.posture, e, hpub, hunsafeNames, hgate]
  have hmanifest : ∀ entry ∈ e.manifest host, entry.posture = e.posture entry.name := by
    intro entry hmem
    obtain ⟨route, -, heq⟩ := Exposer.mem_manifest.1 hmem
    rw [heq]
    rfl
  have hleft : (r.catalog none).map (fun entry => (entry.name, entry.posture)) =
      ((r.catalog none).map ServiceEntry.name).map fun name => (name, e.posture name) := by
    rw [List.map_map]
    exact List.map_congr_left fun entry hmem => by rw [hcatalog entry hmem]; rfl
  have hright : (e.manifest host).map (fun entry => (entry.name, entry.posture)) =
      ((e.manifest host).map ManifestEntry.name).map fun name => (name, e.posture name) := by
    rw [List.map_map]
    exact List.map_congr_left fun entry hmem => by rw [hmanifest entry hmem]; rfl
  rw [hleft, hright, catalog_names, manifest_names]

end Router

/-- The manifest's posture of a name is what a dial with no token meets there, and the catalog taken on
the same router lists the same postures, each name once and in order. -/
theorem posture_exact (hD : D.Lawful) {host host' : Host} {gate : Gate D.Base} {verbs : List (Verb D)}
    {r : Router D} {e : Exposer D} (hb : Router.build host gate verbs = .ok r)
    (he : r.expose host' = .ok e) (host'' : Host) :
    (∀ entry ∈ e.manifest host'', ∀ (service : D.Service) (enabled : D.Moment → D.Service → Bool)
      (cuts : Option (LiveCuts D)) (m : D.Moment) (now : SystemTime) (pools : Pools)
      (session : PublicSession) (peer : SessionPeer) (key : D.VerifyKey),
      service.val = entry.name → enabled m service = true → peer.security.peer = .Announced →
      peer.node.verifyKey D = .ok key → pools.streams.free ≠ 0 → (session.held = true ∨ pools.sessions.free ≠ 0) →
      (entry.posture = .Open ↔
        (e.servingWith enabled cuts).Reaches m now pools session peer none none service) ∧
      (entry.posture = .Gated →
        admitRequest (e.servingWith enabled cuts) m now pools session peer none none service =
          ⟨.error (.PeerNotProven .Announced), pools, session⟩)) ∧
    (r.catalog none).map (fun entry => (entry.name, entry.posture)) =
      (e.manifest host'').map (fun entry => (entry.name, entry.posture)) ∧
    ((e.manifest host'').map ManifestEntry.name).Pairwise (· < ·) ∧
    ∀ name, name ∈ (e.manifest host'').map ManifestEntry.name ↔ name ∈ r.services.routes := by
  have hdeclared := Router.declared hb he
  refine ⟨?_, Router.catalog_eq_manifest hb he host'', ?_, ?_⟩
  · intro entry hmem service enabled cuts m now pools session peer key hname henabled hannounced hkey hstreams
      hsessions
    obtain ⟨route, hget, heq⟩ := Exposer.mem_manifest.1 hmem
    rw [← hname] at hget
    have hposture : entry.posture = e.posture service.val := by
      rw [heq, hname]
      rfl
    have hpeer : peerProven peer.security = false := by
      rw [peerProven, hannounced]
    have hrefused : entry.posture = .Gated →
        admitRequest (e.servingWith enabled cuts) m now pools session peer none none service =
          ⟨.error (.PeerNotProven .Announced), pools, session⟩ := by
      intro hgated
      rw [← hannounced]
      exact Exposer.refuses_gated hD (Exposer.posture_gated.1 (hposture.symm.trans hgated)) hpeer hkey
    refine ⟨⟨?_, ?_⟩, hrefused⟩
    · intro hopen
      have hfaces := Exposer.posture_open.1 (hposture.symm.trans hopen)
      obtain ⟨admitted, hresult, horigin⟩ : ∃ admitted, (admitRequest (e.servingWith enabled cuts) m now
          pools session peer none none service).result = .ok admitted ∧ admitted.witness.origin = .Open :=
        Exposer.admits_open hD hdeclared hfaces hkey hstreams hsessions
      obtain ⟨hfamily, haccepts⟩ := Exposer.openWitness_accepts hdeclared hget hfaces
      refine ⟨admitted, route, hresult, henabled, hget, ?_, ?_⟩
      · rw [hfamily]
        intro hmember
        cases hmember
      · rw [horigin]
        exact haccepts
    · intro hreaches
      obtain ⟨admitted, route, hresult, -⟩ := hreaches
      cases hcase : entry.posture with
      | Open => rfl
      | Gated =>
        rw [hrefused hcase] at hresult
        cases hresult
  · rw [manifest_names]
    exact served_names_ascending _
  · intro name
    rw [manifest_names, List.mem_insertionSort]
    obtain ⟨rfl, -⟩ := Router.expose_ok hb he
    rfl

theorem posture_exact_echo :
    let root := Vector.replicate 32 0
    let D := Deps.small root
    let web : D.Service := ⟨"web", by decide⟩
    let shell : D.Service := ⟨"shell", by decide⟩
    let verbs : List (Verb D) := [.echo web, .service shell (.bound .Never .Metered), .openPublic [web]]
    let peer : SessionPeer := ⟨⟨.Ed25519, Vector.replicate 32 7⟩, ⟨.Announced⟩⟩
    ∃ r e, Router.build Host.empty (.rooted root) verbs = .ok r ∧ r.expose Host.empty = .ok e ∧
      (r.catalog none).map (fun entry => (entry.name, entry.posture)) = [("shell", .Gated), ("web", .Open)] ∧
      (e.servingWith (fun _ _ => true) none).Reaches [] 0 Pools.new ⟨false⟩ peer none none web := by
  intro root D web shell verbs peer
  refine ⟨_, _, rfl, rfl, by decide, ?_⟩
  have hexact := @posture_exact D (Deps.small_lawful root) Host.empty Host.empty (.rooted root) verbs _ _ rfl
    rfl Host.empty
  exact (hexact.1 ⟨"web", .Open, .Handler, some .Metered, none⟩ (by decide) web (fun _ _ => true) none [] 0
    Pools.new ⟨false⟩ peer _ rfl rfl rfl rfl (by decide) (.inr (by decide))).1.1 rfl

end Tightbeam
