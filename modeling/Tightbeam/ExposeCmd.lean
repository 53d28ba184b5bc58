import Tightbeam.Posture
import Tightbeam.CutRun

/-!
# The expose command

The command resolves a gate, builds the one route table, and speaks before it serves. What it says of the
raw streams it opens is what a stranger then meets.
-/
namespace Tightbeam

variable {D : Deps}

/-- What the command calls of nauthy and bifrost itself: a gate on a key, and how keys and their errors read. -/
structure CommandDeps (D : Deps) where
  rooted : D.VerifyKey → D.Base
  text : NodeId → String
  short : NodeId → String
  keyError : D.KeyError → String

def unprovisioned : String :=
  "this node has no root to gate on: provision it (adopt a root), or open individual services to anyone"

/-- A node with no root has no gate, and never an open one. -/
def resolveGate (c : CommandDeps D) (root : Option NodeId) : Except String (Gate D.Base) :=
  match root with
  | none => .error unprovisioned
  | some root => match root.verifyKey D with
    | .error error => .error s!"the root {c.text root} is not a usable key: {c.keyError error}"
    | .ok key => .ok (.rooted (c.rooted key))

def proofLabel : PeerProof → String
  | .Proven => "proven"
  | .InProcess => "in-process"
  | .Announced => "announced"

/-- A gate that wants a capability is never armed over a transport that proves no peer. -/
def Exposer.proveSecurity (e : Exposer D) (security : Security) : Except String Unit :=
  if D.wantsCapability e.gate = true ∧ peerProven security = false then
    .error (s!"this node gates on a root, but the bound transport declares {proofLabel security.peer} peer " ++
      "proof, so a gated dial could never be admitted; bind a transport that proves the peer (the default " ++
      "iroh transport does), or serve with an open gate (`Gate::Open`), which needs no peer proof")
  else .ok ()

/-- The arguments, as the command line lets them be. -/
structure ExposeCmd where
  services : List String
  openNode : Bool
  publicUnsafe : List String
  quiet : Bool
  required : services ≠ []
  requires : publicUnsafe ≠ [] → openNode = true

def exposeBanner (nodeId : String) (names : List String) (gate : String) : List String :=
  let exposed := ", ".intercalate names
  ["tightbeam ready. peers can reach these services at:\n",
    s!"    {nodeId}                     (share this key, or mint a link with `tightbeam share`)\n",
    s!"exposing {exposed}. gate: {gate}. ctrl-c to stop."]

def rawRisk : Option RawSource → String
  | some (.Path absolute) => s!"serving the raw bytes of {absolute} to anyone, no auth"
  | some .Stdin => "serving this process's piped stdin to anyone, no auth"
  | none => "serving raw bytes to anyone, no auth"

/-- The names a line is printed for, and the risk it names. -/
def exposeUnsafe (manifest : List ManifestEntry) : List (String × String) :=
  (manifest.filter fun entry => entry.posture = .Open ∧ entry.kind = .RawStream).map fun entry =>
    (entry.name, rawRisk entry.rawSource)

def exposeUnsafeWarning (manifest : List ManifestEntry) : List String :=
  (exposeUnsafe manifest).map fun row => s!"UNSAFE: `{row.1}` is {row.2}"

namespace ExposeCmd

def gateDescription (c : CommandDeps D) (cmd : ExposeCmd) (root : Option NodeId) : String :=
  if cmd.openNode then "public (anyone, unauthenticated)"
  else match root with
    | some root => s!"root {c.short root}"
    | none => "unprovisioned"

def gate (c : CommandDeps D) (cmd : ExposeCmd) (root : Option NodeId) : Except String (Gate D.Base) :=
  if cmd.openNode then .ok .Open else resolveGate c root

def router (host : Host) (cmd : ExposeCmd) (gate : Gate D.Base) : Except String (Router D) := do
  let router ← (Router.new gate).parse host cmd.services
  if cmd.publicUnsafe = [] then pure router
  else do
    let names ← cmd.publicUnsafe.mapM (parseService D)
    pure (router.openPublicUnsafe names)

/-- `run`, up to the node's own: what it serves, and what it has said. The host is asked three times. -/
def ready (c : CommandDeps D) (parsed proved listed : Host) (list : Denylist D) (security : Security)
    (node : NodeId) (root : Option NodeId) (cmd : ExposeCmd) : Except String (Exposer D × List String) := do
  let gate ← cmd.gate c root
  let router ← cmd.router parsed gate
  let exposer ← router.expose proved
  let exposer := exposer.withLiveCuts list.liveCuts
  exposer.proveSecurity security
  pure (exposer,
    if cmd.quiet then []
    else exposeBanner (c.text node) router.services.names (cmd.gateDescription c root) ++
      exposeUnsafeWarning (exposer.manifest listed))

end ExposeCmd

namespace ExposeCmd

variable {c : CommandDeps D} {parsed proved listed : Host} {list : Denylist D} {security : Security}
  {node : NodeId} {root : Option NodeId} {cmd : ExposeCmd} {gate : Gate D.Base} {r : Router D} {e : Exposer D}
  {lines : List String}

theorem parsed_names {texts : List String} {names : List D.Service}
    (h : texts.mapM (parseService D) = .ok names) : names.map Subtype.val = texts := by
  induction texts generalizing names with
  | nil =>
    cases h
    rfl
  | cons text texts ih =>
    rw [List.mapM_cons] at h
    obtain ⟨name, hname, h⟩ := Checked.bind_ok.1 h
    obtain ⟨rest, hrest, h⟩ := Checked.bind_ok.1 h
    cases h
    rw [List.map_cons, ih hrest, parseService_val hname]

/-- The command's router is one the verbs build, which opens what the command line named. -/
theorem router_built (h : cmd.router parsed gate = .ok r) : ∃ verbs, Router.build parsed gate verbs = .ok r ∧
    lastUnsafe verbs = cmd.publicUnsafe ∧ lastPublic verbs = [] := by
  unfold router at h
  obtain ⟨first, hfirst, h⟩ := Checked.bind_ok.1 h
  split at h
  · rename_i hnone
    cases h
    refine ⟨[.parse cmd.services], ?_, hnone.symm, rfl⟩
    exact Checked.bind_ok.2 ⟨_, hfirst, rfl⟩
  · obtain ⟨names, hnames, h⟩ := Checked.bind_ok.1 h
    cases h
    refine ⟨[.parse cmd.services, .openPublicUnsafe names], ?_, parsed_names hnames, rfl⟩
    exact Checked.bind_ok.2 ⟨first, hfirst, rfl⟩

/-- What a command that gets as far as serving has proved. -/
structure Proved (c : CommandDeps D) (list : Denylist D) (security : Security) (root : Option NodeId)
    (cmd : ExposeCmd) (e : Exposer D) : Prop where
  gate : cmd.gate c root = .ok e.gate
  declared : e.Declared
  security : D.wantsCapability e.gate = true → peerProven security = true
  unsafeOnly : e.publicUnsafe = cmd.publicUnsafe.toFinset
  publicNone : e.publicServices = ∅

theorem ready_ok (h : cmd.ready c parsed proved listed list security node root = .ok (e, lines)) :
    cmd.Proved c list security root e := by
  unfold ready at h
  obtain ⟨gate, hgate, h⟩ := Checked.bind_ok.1 h
  obtain ⟨r, hrouter, h⟩ := Checked.bind_ok.1 h
  obtain ⟨first, hfirst, h⟩ := Checked.bind_ok.1 h
  obtain ⟨_, hsecurity, h⟩ := Checked.bind_ok.1 h
  cases h
  obtain ⟨verbs, hbuilt, hunsafe, hpublic⟩ := router_built hrouter
  have hdeclared := Router.declared hbuilt hfirst
  obtain ⟨rfl, -⟩ := Router.expose_ok hbuilt hfirst
  refine ⟨hgate, ⟨hdeclared.1, hdeclared.2, hdeclared.3, hdeclared.4, hdeclared.5⟩, ?_, ?_, ?_⟩
  · intro hwants
    by_contra hunproven
    rw [Exposer.proveSecurity, if_pos ⟨hwants, by simpa using hunproven⟩] at hsecurity
    cases hsecurity
  · rw [← hunsafe]
    rfl
  · show (lastPublic verbs).toFinset = ∅
    rw [hpublic]
    rfl

/-- A command line that opens nothing is gated on its root, and one that opens the node is open. -/
theorem Proved.openNode (h : cmd.Proved c list security root e) : e.gate.isOpen = cmd.openNode := by
  have hgate := h.gate
  unfold ExposeCmd.gate at hgate
  cases hopen : cmd.openNode with
  | true =>
    rw [hopen, if_pos rfl, Except.ok.injEq] at hgate
    rw [← hgate]
    rfl
  | false =>
    simp only [hopen, Bool.false_eq_true, if_false, resolveGate] at hgate
    cases root with
    | none => cases hgate
    | some root =>
      simp only at hgate
      split at hgate
      · cases hgate
      · rw [Except.ok.injEq] at hgate
        rw [← hgate]
        rfl

theorem Proved.gateOpen (h : cmd.Proved c list security root e) (hopen : cmd.openNode = true) :
    e.gate = .Open := by
  have hbase := h.openNode.trans hopen
  cases hcase : e.gate with
  | Open => rfl
  | rooted base =>
    rw [hcase] at hbase
    cases hbase

/-- A gate that was resolved is nauthy's on the very key the node was provisioned with. -/
theorem Proved.rooted (h : cmd.Proved c list security root e) (hopen : cmd.openNode = false) :
    ∃ trusted key, root = some trusted ∧ trusted.verifyKey D = .ok key ∧ e.gate = .rooted (c.rooted key) := by
  have hgate := h.gate
  simp only [ExposeCmd.gate, hopen, Bool.false_eq_true, if_false, resolveGate] at hgate
  cases root with
  | none => cases hgate
  | some trusted =>
    simp only at hgate
    split at hgate
    · cases hgate
    · rename_i key hkey
      rw [Except.ok.injEq] at hgate
      exact ⟨trusted, key, rfl, hkey, hgate.symm⟩

theorem Proved.posture (h : cmd.Proved c list security root e) {name : String} :
    e.posture name = .Open ↔ cmd.openNode = true ∨ name ∈ cmd.publicUnsafe := by
  rw [Exposer.posture_open, h.openNode, h.unsafeOnly, h.publicNone]
  simp

/-- Of a node that was opened every route is a family's, so none is proven-only. -/
theorem Proved.family (h : cmd.Proved c list security root e) (hopen : cmd.openNode = true) {name : String}
    {route : Route D} (hget : e.services.get name = some route) : route.access = .Family :=
  (h.declared.openBase name route (h.openNode.trans hopen) hget).1

theorem Proved.unproven (h : cmd.Proved c list security root e) (hopen : cmd.openNode = true) (name : String) :
    e.services.proven name = none := by
  cases hproven : e.services.proven name with
  | none => rfl
  | some knows =>
    obtain ⟨route, hget, haccess⟩ := Services.proven_eq_some.1 hproven
    rw [h.family hopen hget] at haccess
    cases haccess

/-- Its raw streams are the ones named to be open. -/
theorem Proved.raws (h : cmd.Proved c list security root e) (hopen : cmd.openNode = true) {name : String} :
    (∃ route stream, e.services.get name = some route ∧ route.target = .RawStream stream) ↔
      name ∈ cmd.publicUnsafe := by
  have hmem : name ∈ e.publicUnsafe ↔ name ∈ cmd.publicUnsafe := by
    rw [h.unsafeOnly, List.mem_toFinset]
  constructor
  · rintro ⟨route, stream, hget, htarget⟩
    have hdeclared := (h.declared.openBase name route (h.openNode.trans hopen) hget).2
    rw [htarget] at hdeclared
    exact hmem.1 hdeclared
  · intro hname
    obtain ⟨stream, hget⟩ := h.declared.unsafeRaw name (hmem.2 hname)
    exact ⟨_, stream, hget, rfl⟩

/-- A stranger reaches whatever such a node serves. -/
theorem Proved.reaches (hD : D.Lawful) (h : cmd.Proved c list security root e) (hopen : cmd.openNode = true)
    {enabled : D.Moment → D.Service → Bool} {cuts : Option (LiveCuts D)} {m : D.Moment} {now : SystemTime}
    {pools : Pools} {session : PublicSession} {peer : SessionPeer} {key : D.VerifyKey} {service : D.Service}
    (hserved : service.val ∈ e.services.routes) (henabled : enabled m service = true)
    (hkey : peer.node.verifyKey D = .ok key) (hstreams : pools.streams.free ≠ 0)
    (hsessions : session.held = true ∨ pools.sessions.free ≠ 0) :
    (e.servingWith enabled cuts).Reaches m now pools session peer none none service := by
  have hbase : e.gate.isOpen = true := h.openNode.trans hopen
  obtain ⟨route, hget⟩ := Option.isSome_iff_exists.1 (AList.lookup_isSome.2 hserved)
  obtain ⟨admitted, hresult, horigin⟩ : ∃ admitted, (admitRequest (e.servingWith enabled cuts) m now
      pools session peer none none service).result = .ok admitted ∧ admitted.witness.origin = .Open :=
    Exposer.admits_open hD h.declared (.inl hbase) hkey hstreams hsessions
  obtain ⟨haccess, haccepts⟩ := Exposer.openWitness_accepts h.declared hget (.inl hbase)
  refine ⟨admitted, route, hresult, henabled, hget, ?_, ?_⟩
  · rw [haccess]
    intro hmember
    cases hmember
  · rw [horigin]
    exact haccepts

/-- What was said before serving: of the table that is served, and of the gate it is served under. -/
theorem ready_lines (h : cmd.ready c parsed proved listed list security node root = .ok (e, lines)) :
    lines = if cmd.quiet then []
      else exposeBanner (c.text node) e.services.names (cmd.gateDescription c root) ++
        exposeUnsafeWarning (e.manifest listed) := by
  unfold ready at h
  obtain ⟨gate, -, h⟩ := Checked.bind_ok.1 h
  obtain ⟨r, hrouter, h⟩ := Checked.bind_ok.1 h
  obtain ⟨bare, hbare, h⟩ := Checked.bind_ok.1 h
  obtain ⟨_, -, h⟩ := Checked.bind_ok.1 h
  obtain ⟨verbs, hbuilt, -, -⟩ := router_built hrouter
  obtain ⟨rfl, -⟩ := Router.expose_ok hbuilt hbare
  cases h
  rfl

/-- One warning a name, in the manifest's order. -/
theorem exposeUnsafe_ascending {host : Host} :
    ((exposeUnsafe (e.manifest host)).map Prod.fst).Pairwise (· < ·) := by
  have hnames : ((e.manifest host).map ManifestEntry.name).Pairwise (· < ·) := by
    rw [manifest_names]
    exact served_names_ascending _
  rw [exposeUnsafe, List.map_map]
  exact hnames.sublist (List.filter_sublist.map _)

theorem mem_exposeUnsafe {host : Host} {name risk : String} :
    (name, risk) ∈ exposeUnsafe (e.manifest host) ↔ e.posture name = .Open ∧
      ∃ route stream, e.services.get name = some route ∧ route.target = .RawStream stream ∧
        risk = rawRisk (some (stream.rawSource host)) := by
  simp only [exposeUnsafe, List.mem_map, List.mem_filter, decide_eq_true_eq, Exposer.mem_manifest,
    Prod.mk.injEq]
  constructor
  · rintro ⟨entry, ⟨⟨route, hget, heq⟩, hopen, hkind⟩, hname, hrisk⟩
    subst hname
    rw [heq] at hopen hkind hrisk
    refine ⟨hopen, route, ?_⟩
    cases htarget : route.target with
    | Handler handler => simp [Exposer.manifestEntry, htarget, Target.kind] at hkind
    | RawStream stream =>
      refine ⟨stream, hget, rfl, ?_⟩
      simpa [Exposer.manifestEntry, htarget] using hrisk.symm
  · rintro ⟨hopen, route, stream, hget, htarget, hrisk⟩
    refine ⟨e.manifestEntry host name route, ⟨⟨route, hget, rfl⟩, hopen, ?_⟩, rfl, ?_⟩
    · simp [Exposer.manifestEntry, htarget, Target.kind]
    · rw [hrisk]
      simp [Exposer.manifestEntry, htarget]

end ExposeCmd

/-- An open gate with no proven route rules on nothing, whatever is presented. -/
theorem AdmittedBy.unruled (hD : D.Lawful) {serving : Serving D} {m : D.Moment} {now : SystemTime}
    {pools pools' : Pools} {session session' : PublicSession} {peer : SessionPeer}
    {capability membership : Option String} {service : D.Service} {admitted : AdmittedStream D}
    (hgate : serving.gate = .Open) (hroutes : ∀ name, serving.services.proven name = none)
    (h : AdmittedBy serving m now pools session peer capability membership service admitted pools' session') :
    admitted.ruled = [] ∧ admitted.proven = none := by
  cases h with
  | overlay key witness streams sessions session' hkey hopen hadmits hstreams hsessions => exact ⟨rfl, rfl⟩
  | proven key knows witness named slots hkey hclosed hroute hpeer hadmits hnamed hknows hslots =>
    rw [hroutes] at hroute
    cases hroute
  | family key admitted hkey hclosed hroute hadmits =>
    obtain ⟨cap, badge, witness, -, -, -, rfl⟩ := (admitFamily_ok.1 hadmits).ruled
    rw [hgate, hD.open_wants]
    exact ⟨rfl, rfl⟩

namespace CutSession

/-- A session that keeps nothing and goes on. -/
structure Uncut (s : CutSession D) : Prop where
  chains : s.chains = .empty D
  ended : s.ended = none

/-- Nothing is ruled on, so nothing is kept, so no instant calls for a cut. -/
theorem run_uncut (hD : D.Lawful) {serving : Serving D} {peer : SessionPeer} (list : Denylist D)
    (hgate : serving.gate = .Open) (hroutes : ∀ name, serving.services.proven name = none)
    (events : List (SessionEvent D)) : (run serving list.liveCuts peer events).Uncut := by
  apply List.foldlRecOn events (step serving list.liveCuts peer) (b := start D)
  · exact ⟨rfl, rfl⟩
  · intro s hs event _
    obtain ⟨hchains, hended⟩ := hs
    unfold step
    rw [if_neg (by simp [hended])]
    cases event with
    | stream dial pools session =>
      cases hserve : (serveRequest serving dial pools session peer (some s.chains)).serve with
      | none =>
        simp only [serve_refused hserve]
        exact ⟨hchains, hended⟩
      | some served =>
        obtain ⟨request, ⟨pools', session', hadmission⟩, -⟩ := serveRequest_serve hserve
        obtain ⟨hruled, hproven⟩ := hadmission.unruled hD hgate hroutes
        obtain ⟨chains', hrecord, hserved, -⟩ := serve_recorded hD hserve
        rw [recordStream, hproven, hruled] at hrecord
        simp only [hserved]
        exact ⟨(recordAll_open hrecord).trans hchains, hended⟩
    | dropped => exact ⟨hchains, hended⟩
    | sweep m now =>
      refine ⟨hchains, ?_⟩
      have hcheck : list.liveCuts.check m (.empty D) now = none := by
        simp [LiveCuts.check, Denylist.liveCuts, Denylist.cuts, AdmittedChains.empty, AdmittedChains.peerKeys,
          AdmittedChains.lapsed, Lease.lapsed]
      simpa only [hchains] using hcheck

end CutSession

/-- What a command has said by the time it serves is true of what it serves, and is all of it: its banner,
which lists the names served, each once and in order, and then the warnings, or under `quiet` nothing. A node
that was not opened is gated on its own root, which its banner names, over a transport that proves its
dialers, prints no warning, and turns away every dialer whose key is only announced. A node that was opened
says so, with one warning a raw stream, by the source it resolved to, and its raw streams are the ones named
for it; a stranger reaches every service it has enabled while there are permits, and no session of its is ever
cut. -/
theorem expose_ready (hD : D.Lawful) {c : CommandDeps D} {parsed proved listed : Host} {list : Denylist D}
    {security : Security} {node : NodeId} {root : Option NodeId} {cmd : ExposeCmd} {e : Exposer D}
    {lines : List String}
    (h : cmd.ready c parsed proved listed list security node root = .ok (e, lines)) :
    (e.services.names.Pairwise (· < ·) ∧ ∀ name, name ∈ e.services.names ↔ name ∈ e.services.routes) ∧
    (cmd.openNode = false → peerProven security = true ∧
      (∃ trusted key, root = some trusted ∧ trusted.verifyKey D = .ok key ∧ e.gate = .rooted (c.rooted key) ∧
        lines = if cmd.quiet then []
          else exposeBanner (c.text node) e.services.names s!"root {c.short trusted}") ∧
      ∀ enabled cuts m now pools session peer key capability membership service,
        peer.security.peer = .Announced → peer.node.verifyKey D = .ok key →
        admitRequest (e.servingWith enabled cuts) m now pools session peer capability membership service =
          ⟨.error (.PeerNotProven .Announced), pools, session⟩) ∧
    (cmd.openNode = true →
      (∃ rows : List (String × String),
        (lines = if cmd.quiet then []
          else exposeBanner (c.text node) e.services.names "public (anyone, unauthenticated)" ++
            rows.map fun row => s!"UNSAFE: `{row.1}` is {row.2}") ∧
        (rows.map Prod.fst).Pairwise (· < ·) ∧
        ∀ name risk, (name, risk) ∈ rows ↔ ∃ stream,
          e.services.get name = some ⟨.RawStream stream, .Family⟩ ∧
            risk = rawRisk (some (stream.rawSource listed))) ∧
      (∀ name, (∃ route stream, e.services.get name = some route ∧ route.target = .RawStream stream) ↔
        name ∈ cmd.publicUnsafe) ∧
      (∀ enabled cuts m now pools session peer key service, service.val ∈ e.services.routes →
        enabled m service = true → peer.node.verifyKey D = .ok key → pools.streams.free ≠ 0 →
        (session.held = true ∨ pools.sessions.free ≠ 0) →
        (e.servingWith enabled cuts).Reaches m now pools session peer none none service) ∧
      ∀ enabled peer events, (CutSession.run (e.servingWith enabled (some list.liveCuts)) list.liveCuts peer
        events).ended = none) := by
  have hproved := ExposeCmd.ready_ok h
  have hlines := ExposeCmd.ready_lines h
  refine ⟨⟨served_names_ascending _, fun name => List.mem_insertionSort _⟩, fun hclosed => ?_, fun hopen => ?_⟩
  · have hnone : cmd.publicUnsafe = [] := by
      by_contra hsome
      rw [cmd.requires hsome] at hclosed
      cases hclosed
    obtain ⟨trusted, key, hroot, hkey, hgate⟩ := hproved.rooted hclosed
    have hsilent : exposeUnsafeWarning (e.manifest listed) = [] := by
      rw [exposeUnsafeWarning, List.map_eq_nil_iff, List.eq_nil_iff_forall_not_mem]
      rintro ⟨name, risk⟩ hmem
      have hopen := hproved.posture.1 (ExposeCmd.mem_exposeUnsafe.1 hmem).1
      simp [hclosed, hnone] at hopen
    have hgateLine : cmd.gateDescription c root = s!"root {c.short trusted}" := by
      simp [ExposeCmd.gateDescription, hclosed, hroot]
    rw [hsilent, hgateLine, List.append_nil] at hlines
    refine ⟨hproved.security (by rw [hgate, hD.rooted_wants]), ⟨trusted, key, hroot, hkey, hgate, hlines⟩, ?_⟩
    intro enabled cuts m now pools session peer key capability membership service hannounced hkey
    have hgated : e.gate.isOpen = false ∧
        ¬ (service.val ∈ e.publicServices ∨ service.val ∈ e.publicUnsafe) := by
      rw [hproved.openNode, hproved.unsafeOnly, hproved.publicNone, hclosed, hnone]
      simp
    rw [← hannounced]
    exact Exposer.refuses_gated hD hgated (by rw [peerProven, hannounced]) hkey
  · have hgateLine : cmd.gateDescription c root = "public (anyone, unauthenticated)" := if_pos hopen
    rw [hgateLine] at hlines
    refine ⟨⟨exposeUnsafe (e.manifest listed), hlines, ExposeCmd.exposeUnsafe_ascending, ?_⟩, ?_, ?_, ?_⟩
    · intro name risk
      rw [ExposeCmd.mem_exposeUnsafe]
      constructor
      · rintro ⟨-, ⟨target, access⟩, stream, hget, rfl, hrisk⟩
        cases hproved.family hopen hget
        exact ⟨stream, hget, hrisk⟩
      · rintro ⟨stream, hget, hrisk⟩
        exact ⟨hproved.posture.2 (.inl hopen), _, stream, hget, rfl, hrisk⟩
    · intro name
      exact hproved.raws hopen
    · intro enabled cuts m now pools session peer key service hserved henabled hkey hstreams hsessions
      exact hproved.reaches hD hopen hserved henabled hkey hstreams hsessions
    · intro enabled peer events
      exact (CutSession.run_uncut hD list (hproved.gateOpen hopen) (hproved.unproven hopen) events).ended

theorem expose_ready_stdin :
    let root := Vector.replicate 32 0
    let D := Deps.small root
    let c : CommandDeps D := ⟨id, fun _ => "node", fun _ => "ed01", fun _ => ""⟩
    let opened : ExposeCmd := ⟨["in=stdin:"], true, ["in"], false, by decide, by decide⟩
    let gated : ExposeCmd := ⟨["in=stdin:"], false, [], false, by decide, by decide⟩
    let list : Denylist D := ⟨fun _ _ => false, fun _ _ => false⟩
    (∃ e lines,
      opened.ready c Host.empty Host.empty Host.empty list ⟨.Announced⟩ ⟨.Ed25519, root⟩ none = .ok (e, lines) ∧
      ∃ rows : List (String × String), ("in", "serving this process's piped stdin to anyone, no auth") ∈ rows ∧
        lines = ["tightbeam ready. peers can reach these services at:\n",
          "    node                     (share this key, or mint a link with `tightbeam share`)\n",
          "exposing in. gate: public (anyone, unauthenticated). ctrl-c to stop."] ++
          rows.map fun row => s!"UNSAFE: `{row.1}` is {row.2}") ∧
    ∃ e lines,
      gated.ready c Host.empty Host.empty Host.empty list ⟨.Proven⟩ ⟨.Ed25519, root⟩ (some ⟨.Ed25519, root⟩) =
        .ok (e, lines) ∧ e.gate = .rooted root ∧
      lines = ["tightbeam ready. peers can reach these services at:\n",
        "    node                     (share this key, or mint a link with `tightbeam share`)\n",
        "exposing in. gate: root ed01. ctrl-c to stop."] := by
  intro root D c opened gated list
  refine ⟨⟨_, _, rfl, ?_⟩, _, _, rfl, ?_⟩
  · have hready := (@expose_ready D (Deps.small_lawful root) c Host.empty Host.empty Host.empty list ⟨.Announced⟩
      ⟨.Ed25519, root⟩ none opened _ _ rfl).2.2 rfl
    obtain ⟨⟨rows, hlines, -, hrows⟩, -⟩ := hready
    exact ⟨rows, (hrows "in" _).2 ⟨.Stdin, rfl, rfl⟩, hlines⟩
  · have hready := (@expose_ready D (Deps.small_lawful root) c Host.empty Host.empty Host.empty list ⟨.Proven⟩
      ⟨.Ed25519, root⟩ (some ⟨.Ed25519, root⟩) gated _ _ rfl).2.1 rfl
    obtain ⟨-, ⟨trusted, key, hroot, hkey, hgate, hlines⟩, -⟩ := hready
    cases hroot
    cases hkey
    exact ⟨hgate, hlines⟩

end Tightbeam
