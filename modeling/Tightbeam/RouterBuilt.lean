import Tightbeam.Router
import Tightbeam.Library.Checked

/-!
# What the verbs build

A sequence of verbs succeeds exactly when each binds a valid row and no two rows share a name. Its
table is then those rows, whatever their order, and each request is the last one made.
-/
namespace Tightbeam

open Checked Texts

variable {D : Deps}

namespace Verb

/-- The single rows a verb asks for: the grammar's entries one by one, none for a request. -/
def bindings : Verb D → List (Verb D)
  | .service name handler => [.service name handler]
  | .memberService name handler => [.memberService name handler]
  | .provenService name handler knows => [.provenService name handler knows]
  | .echo name => [.echo name]
  | .forward name addr => [.forward name addr]
  | .rawStream name source => [.rawStream name source]
  | .parse entries => entries.map fun entry => .parse [entry]
  | .openPublic _ => []
  | .openPublicUnsafe _ => []

/-- The names requested public once this verb has run. -/
def publicAfter (before : List String) : Verb D → List String
  | .openPublic names => names.map Subtype.val
  | _ => before

/-- The names requested unsafe-open once this verb has run. -/
def unsafeAfter (before : List String) : Verb D → List String
  | .openPublicUnsafe names => names.map Subtype.val
  | _ => before

end Verb

/-- The names a sequence of verbs last requested public. -/
def lastPublic (verbs : List (Verb D)) : List String := verbs.foldl Verb.publicAfter []

/-- The names it last requested unsafe-open. -/
def lastUnsafe (verbs : List (Verb D)) : List String := verbs.foldl Verb.unsafeAfter []

/-- The one row a single binding makes, when it is valid on its own. -/
inductive Binds (host : Host) : Verb D → String × Route D → Prop where
  | service (name : D.Service) (h : Handler) (ok : h.accepts .Proven = false) :
    Binds host (.service name h) (name.val, ⟨.Handler h, .Family⟩)
  | memberService (name : D.Service) (h : Handler) (ok : h.accepts .Proven = false) :
    Binds host (.memberService name h) (name.val, ⟨.Handler h, .Member⟩)
  | provenService (name : D.Service) (h : { h : Handler // h.exposure = .ProvenOnly }) (knows : Knows D) :
    Binds host (.provenService name h knows) (name.val, ⟨.Handler h.val, .ProvenOnly knows⟩)
  | echo (name : D.Service) : Binds host (.echo name) (name.val, ⟨.Handler .echo, .Family⟩)
  | forward (name : D.Service) (addr : String) (ok : validateForward addr = .ok ()) :
    Binds host (.forward name addr) (name.val, ⟨.Handler (.forward addr), .Family⟩)
  | rawStream (name : D.Service) (source : RawStream) :
    Binds host (.rawStream name source) (name.val, ⟨.RawStream source, .Family⟩)
  | parse (entry addr : String) (name : D.Service) (target : Target)
    (split : splitOnce entry '=' = some (name.val, addr))
    (ok : parseTarget host addr entry = .ok target) :
    Binds host (.parse [entry]) (name.val, ⟨target, .Family⟩)

/-- `s'` is the table `s` with these rows bound after its own. -/
def Services.Added (rows : List (String × Route D)) (s s' : Services D) : Prop :=
  s'.routes.entries = rows.reverse.map (fun row => ⟨row.1, row.2⟩) ++ s.routes.entries

namespace Services

theorem ext_entries {s s' : Services D} (h : s'.routes.entries = s.routes.entries) : s' = s := by
  cases s
  cases s'
  simpa using AList.ext h

theorem added_nil {s s' : Services D} : Added [] s s' ↔ s' = s := by
  constructor
  · intro h
    exact ext_entries (by simpa [Added] using h)
  · intro h
    simp [Added, h]

theorem added_singleton {row : String × Route D} {s s' : Services D} :
    Added [row] s s' ↔ row.1 ∉ s.routes ∧ s' = ⟨s.routes.insert row.1 row.2⟩ := by
  constructor
  · intro h
    have hentries : s'.routes.entries = ⟨row.1, row.2⟩ :: s.routes.entries := by simpa [Added] using h
    have hnodup := s'.routes.nodupKeys
    rw [hentries, List.nodupKeys_cons] at hnodup
    have hnew : row.1 ∉ s.routes := hnodup.1
    refine ⟨hnew, ext_entries ?_⟩
    rw [hentries, AList.entries_insert_of_notMem hnew]
  · intro h
    obtain ⟨hnew, rfl⟩ := h
    simp only [Added, AList.entries_insert_of_notMem hnew]
    simp

theorem added_append {first second : List (String × Route D)} {s s' : Services D} :
    Added (first ++ second) s s' ↔ ∃ t, Added first s t ∧ Added second t s' := by
  constructor
  · intro h
    have hentries : s'.routes.entries =
        second.reverse.map (fun row => ⟨row.1, row.2⟩) ++
          (first.reverse.map (fun row => ⟨row.1, row.2⟩) ++ s.routes.entries) := by
      simpa [Added] using h
    have hnodup := s'.routes.nodupKeys
    rw [hentries] at hnodup
    have hfirst := hnodup.sublist (List.sublist_append_right _ _)
    exact ⟨⟨⟨_, hfirst⟩⟩, rfl, hentries⟩
  · intro h
    obtain ⟨t, hfirst, hsecond⟩ := h
    simp only [Added] at hfirst hsecond ⊢
    rw [hsecond, hfirst]
    simp

theorem added_cons {row : String × Route D} {rows : List (String × Route D)} {s s' : Services D} :
    Added (row :: rows) s s' ↔ ∃ t, Added [row] s t ∧ Added rows t s' := by
  rw [← added_append, List.singleton_append]

theorem extendEntry_ok {host : Host} {entry : String} {s s' : Services D} :
    extendEntry host s entry = .ok s' ↔
      ∃ row, Binds host (.parse [entry]) row ∧ Added [row] s s' := by
  constructor
  · intro h
    unfold extendEntry at h
    cases hsplit : splitOnce entry '=' with
    | none => simp [hsplit] at h
    | some halves =>
      obtain ⟨name, addr⟩ := halves
      rw [hsplit] at h
      obtain ⟨service, hname, h⟩ := bind_ok.1 h
      by_cases hmem : name ∈ s.routes
      · simp [hmem] at h
      · rw [if_neg hmem] at h
        obtain ⟨target, htarget, h⟩ := bind_ok.1 h
        obtain rfl := parseService_val hname
        refine ⟨_, .parse entry addr service target hsplit htarget, added_singleton.2 ⟨hmem, ?_⟩⟩
        exact (pure_ok.1 h).symm
  · intro h
    obtain ⟨row, hbinds, hadded⟩ := h
    obtain ⟨hmem, rfl⟩ := added_singleton.1 hadded
    cases hbinds with
    | parse _ addr name target split ok =>
      simp only [extendEntry, split, parseService_name]
      rw [bind_ok]
      refine ⟨name, rfl, ?_⟩
      rw [if_neg hmem, bind_ok]
      exact ⟨target, ok, rfl⟩

theorem extendParse_ok {host : Host} {entries : List String} {s s' : Services D} :
    extendParse host s entries = .ok s' ↔
      ∃ rows, List.Forall₂ (Binds host) (entries.map fun entry => .parse [entry]) rows ∧
        Added rows s s' := by
  unfold extendParse
  induction entries generalizing s with
  | nil =>
    rw [foldlM_nil_ok]
    simp [added_nil, eq_comm]
  | cons entry entries ih =>
    rw [foldlM_cons_ok]
    constructor
    · intro h
      obtain ⟨t, hentry, hrest⟩ := h
      obtain ⟨row, hbinds, hadded⟩ := extendEntry_ok.1 hentry
      obtain ⟨rows, hrows, hmore⟩ := ih.1 hrest
      exact ⟨row :: rows, .cons hbinds hrows, added_cons.2 ⟨t, hadded, hmore⟩⟩
    · intro h
      obtain ⟨rows, hrows, hadded⟩ := h
      cases hrows with
      | cons hbinds hrest =>
        obtain ⟨t, hfirst, hmore⟩ := added_cons.1 hadded
        exact ⟨t, extendEntry_ok.2 ⟨_, hbinds, hfirst⟩, ih.2 ⟨_, hrest, hmore⟩⟩

end Services

namespace Router

/-- `r'` is `r` with these rows bound and nothing else changed. -/
structure Grows (rows : List (String × Route D)) (r r' : Router D) : Prop where
  services : r.services.Added rows r'.services
  publicRequest : r'.publicRequest = r.publicRequest
  publicUnsafeRequest : r'.publicUnsafeRequest = r.publicUnsafeRequest
  gate : r'.gate = r.gate

theorem bind_grows {r r' : Router D} {name : D.Service} {target : Target} {access : Access D} :
    r.bind name target access = .ok r' ↔ Grows [(name.val, ⟨target, access⟩)] r r' := by
  unfold bind
  constructor
  · intro h
    by_cases hmem : name.val ∈ r.services.routes
    · simp [hmem] at h
    · rw [if_neg hmem] at h
      cases h
      exact ⟨Services.added_singleton.2 ⟨hmem, rfl⟩, rfl, rfl, rfl⟩
  · intro h
    obtain ⟨hmem, hservices⟩ := Services.added_singleton.1 h.services
    rw [if_neg hmem]
    cases r' with
    | mk services publicRequest publicUnsafeRequest gate =>
      obtain ⟨-, rfl, rfl, rfl⟩ := h
      cases hservices
      rfl

theorem bindGated_grows {r r' : Router D} {name : D.Service} {h : Handler} {access : Access D} :
    r.bindGated name h access = .ok r' ↔
      h.accepts .Proven = false ∧ Grows [(name.val, ⟨.Handler h, access⟩)] r r' := by
  unfold bindGated
  by_cases haccepts : h.accepts .Proven = true
  · simp [haccepts]
  · rw [if_neg haccepts, bind_grows]
    simp [haccepts]

/-- What one verb does: its bindings make these rows, and a request replaces the one before it. -/
structure Applied (host : Host) (v : Verb D) (rows : List (String × Route D)) (r r' : Router D) : Prop where
  binds : List.Forall₂ (Binds host) v.bindings rows
  services : r.services.Added rows r'.services
  publicRequest : r'.publicRequest = v.publicAfter r.publicRequest
  publicUnsafeRequest : r'.publicUnsafeRequest = v.unsafeAfter r.publicUnsafeRequest
  gate : r'.gate = r.gate

/-- A verb that binds one row: it is valid, and the router grows by that row. -/
theorem applied_single {host : Host} {v : Verb D} {row : String × Route D} {r r' : Router D} (valid : Prop)
    (hone : v.bindings = [v]) (hpub : v.publicAfter r.publicRequest = r.publicRequest)
    (hunsafeNames : v.unsafeAfter r.publicUnsafeRequest = r.publicUnsafeRequest)
    (hbinds : valid → Binds host v row) (hinv : ∀ row', Binds host v row' → valid ∧ row' = row) :
    (∃ rows, Applied host v rows r r') ↔ valid ∧ Grows [row] r r' := by
  constructor
  · intro h
    obtain ⟨rows, happlied⟩ := h
    have hrows := happlied.binds
    rw [hone] at hrows
    cases hrows with
    | cons hfirst hrest =>
      cases hrest
      obtain ⟨hvalid, rfl⟩ := hinv _ hfirst
      refine ⟨hvalid, happlied.services, ?_, ?_, happlied.gate⟩
      · rw [happlied.publicRequest, hpub]
      · rw [happlied.publicUnsafeRequest, hunsafeNames]
  · intro h
    obtain ⟨hvalid, hgrows⟩ := h
    refine ⟨[row], ?_, hgrows.services, ?_, ?_, hgrows.gate⟩
    · rw [hone]
      exact .cons (hbinds hvalid) .nil
    · rw [hgrows.publicRequest, hpub]
    · rw [hgrows.publicUnsafeRequest, hunsafeNames]

/-- A verb that binds no row: it changes the requested names and nothing else. -/
theorem applied_none {host : Host} {v : Verb D} {r r' : Router D} (hnone : v.bindings = []) :
    (∃ rows, Applied host v rows r r') ↔
      r' = { r with
        publicRequest := v.publicAfter r.publicRequest
        publicUnsafeRequest := v.unsafeAfter r.publicUnsafeRequest } := by
  constructor
  · intro h
    obtain ⟨rows, hbinds, hadded, hpub, hunsafeNames, hgate⟩ := h
    rw [hnone] at hbinds
    cases hbinds
    cases r' with
    | mk services publicRequest publicUnsafeRequest gate =>
      cases Services.added_nil.1 hadded
      cases hpub
      cases hunsafeNames
      cases hgate
      rfl
  · intro h
    subst h
    refine ⟨[], ?_, Services.added_nil.2 rfl, rfl, rfl, rfl⟩
    rw [hnone]
    exact .nil

theorem apply_ok {host : Host} {v : Verb D} {r r' : Router D} :
    r.apply host v = .ok r' ↔ ∃ rows, Applied host v rows r r' := by
  cases v with
  | service name h =>
    rw [applied_single _ rfl rfl rfl (.service name h)]
    · exact bindGated_grows
    · intro row hb
      cases hb
      exact ⟨‹_›, rfl⟩
  | memberService name h =>
    rw [applied_single _ rfl rfl rfl (.memberService name h)]
    · exact bindGated_grows
    · intro row hb
      cases hb
      exact ⟨‹_›, rfl⟩
  | provenService name h knows =>
    rw [applied_single True rfl rfl rfl (fun _ => .provenService name h knows)]
    · rw [true_and]
      exact bind_grows
    · intro row hb
      cases hb
      exact ⟨trivial, rfl⟩
  | echo name =>
    rw [applied_single (Handler.echo.accepts .Proven = false) rfl rfl rfl (fun _ => .echo name)]
    · exact bindGated_grows (h := .echo)
    · intro row hb
      cases hb
      exact ⟨rfl, rfl⟩
  | forward name addr =>
    rw [applied_single _ rfl rfl rfl (.forward name addr)]
    · constructor
      · intro h
        obtain ⟨_, hvalid, h⟩ := bind_ok.1 h
        exact ⟨hvalid, (bindGated_grows.1 h).2⟩
      · intro h
        exact bind_ok.2 ⟨(), h.1, bindGated_grows.2 ⟨rfl, h.2⟩⟩
    · intro row hb
      cases hb
      exact ⟨‹_›, rfl⟩
  | rawStream name source =>
    rw [applied_single True rfl rfl rfl (fun _ => .rawStream name source)]
    · rw [true_and]
      exact bind_grows
    · intro row hb
      cases hb
      exact ⟨trivial, rfl⟩
  | parse entries =>
    constructor
    · intro h
      obtain ⟨services, hservices, h⟩ := bind_ok.1 h
      cases h
      obtain ⟨rows, hrows, hadded⟩ := Services.extendParse_ok.1 hservices
      exact ⟨rows, hrows, hadded, rfl, rfl, rfl⟩
    · intro h
      obtain ⟨rows, happlied⟩ := h
      refine bind_ok.2 ⟨r'.services, Services.extendParse_ok.2 ⟨rows, happlied.binds, happlied.services⟩, ?_⟩
      cases r' with
      | mk services publicRequest publicUnsafeRequest gate =>
        obtain ⟨-, -, rfl, rfl, rfl⟩ := happlied
        rfl
  | openPublic names =>
    rw [applied_none rfl]
    exact ⟨fun h => (Except.ok.inj h).symm, fun h => congrArg Except.ok h.symm⟩
  | openPublicUnsafe names =>
    rw [applied_none rfl]
    exact ⟨fun h => (Except.ok.inj h).symm, fun h => congrArg Except.ok h.symm⟩

theorem foldlM_apply_ok {host : Host} {verbs : List (Verb D)} {r r' : Router D} :
    verbs.foldlM (Router.apply host) r = .ok r' ↔
      ∃ rows, List.Forall₂ (Binds host) (verbs.flatMap Verb.bindings) rows ∧
        r.services.Added rows r'.services ∧
        r'.publicRequest = verbs.foldl Verb.publicAfter r.publicRequest ∧
        r'.publicUnsafeRequest = verbs.foldl Verb.unsafeAfter r.publicUnsafeRequest ∧
        r'.gate = r.gate := by
  induction verbs generalizing r with
  | nil =>
    rw [foldlM_nil_ok]
    constructor
    · intro h
      cases h
      exact ⟨[], .nil, Services.added_nil.2 rfl, rfl, rfl, rfl⟩
    · intro h
      obtain ⟨rows, hbinds, hadded, hpub, hunsafeNames, hgate⟩ := h
      cases hbinds
      cases r' with
      | mk services publicRequest publicUnsafeRequest gate =>
        cases Services.added_nil.1 hadded
        cases hpub
        cases hunsafeNames
        cases hgate
        rfl
  | cons v verbs ih =>
    rw [foldlM_cons_ok]
    constructor
    · intro h
      obtain ⟨t, hv, hrest⟩ := h
      obtain ⟨rows, happlied⟩ := apply_ok.1 hv
      obtain ⟨more, hbinds, hadded, hpub, hunsafeNames, hgate⟩ := ih.1 hrest
      refine ⟨rows ++ more, List.rel_append happlied.binds hbinds,
        Services.added_append.2 ⟨_, happlied.services, hadded⟩, ?_, ?_, ?_⟩
      · rw [hpub, happlied.publicRequest, List.foldl_cons]
      · rw [hunsafeNames, happlied.publicUnsafeRequest, List.foldl_cons]
      · rw [hgate, happlied.gate]
    · intro h
      obtain ⟨rows, hbinds, hadded, hpub, hunsafeNames, hgate⟩ := h
      rw [List.flatMap_cons] at hbinds
      obtain ⟨first, more, hfirst, hmore, rfl⟩ := Checked.forall₂_append_left hbinds
      obtain ⟨services, hservices, hrest⟩ := Services.added_append.1 hadded
      refine ⟨{ r with
        services
        publicRequest := v.publicAfter r.publicRequest
        publicUnsafeRequest := v.unsafeAfter r.publicUnsafeRequest }, apply_ok.2 ?_, ih.2 ?_⟩
      · exact ⟨first, hfirst, hservices, rfl, rfl, rfl⟩
      · exact ⟨more, hmore, hrest, hpub, hunsafeNames, hgate⟩

/-- The router a sequence of verbs builds, and exactly when it does. -/
theorem build_ok {host : Host} {gate : Gate D.Base} {verbs : List (Verb D)} {r : Router D} :
    Router.build host gate verbs = .ok r ↔
      ∃ rows, List.Forall₂ (Binds host) (verbs.flatMap Verb.bindings) rows ∧
        Services.Added rows ⟨∅⟩ r.services ∧ r.publicRequest = lastPublic verbs ∧
        r.publicUnsafeRequest = lastUnsafe verbs ∧ r.gate = gate :=
  foldlM_apply_ok

end Router

theorem Services.get_eq_some {services : Services D} {name : String} {route : Route D} :
    services.get name = some route ↔ ⟨name, route⟩ ∈ services.routes.entries :=
  AList.mem_lookup_iff

theorem Services.get_of_added {rows : List (String × Route D)} {services : Services D}
    (h : Services.Added rows ⟨∅⟩ services) {name : String} {route : Route D} :
    services.get name = some route ↔ (name, route) ∈ rows := by
  have hentries : services.routes.entries = rows.reverse.map (fun row => ⟨row.1, row.2⟩) := by
    simpa [Services.Added] using h
  rw [Services.get_eq_some, hentries]
  simp

/-- What every verb makes sure of in the row it binds: a handler that only proven keys reach is bound
on a proven-only route and nowhere else, and a raw stream is under no floor of its own. -/
def Route.Bound (route : Route D) : Prop :=
  match route.access, route.target with
  | .ProvenOnly _, .Handler h => h.exposure = .ProvenOnly
  | .ProvenOnly _, .RawStream _ => False
  | .Member, .Handler h => h.exposure ≠ .ProvenOnly
  | .Member, .RawStream _ => False
  | .Family, .Handler h => h.exposure ≠ .ProvenOnly
  | .Family, .RawStream _ => True

theorem Handler.not_proven {h : Handler} (ok : h.accepts .Proven = false) : h.exposure ≠ .ProvenOnly := by
  intro hproven
  rw [Handler.accepts, hproven] at ok
  cases ok

/-- The grammar's own targets are all open-safe handlers or raw streams. -/
theorem parseTarget_exposure {host : Host} {addr entry : String} {h : Handler}
    (ok : parseTarget host addr entry = .ok (.Handler h)) : h.exposure = .OptIn := by
  simp only [parseTarget] at ok
  split at ok
  · cases ok
  · split_ifs at ok
    · obtain ⟨_, _, ok⟩ := bind_ok.1 ok
      cases ok
      rfl
    · obtain ⟨_, _, ok⟩ := bind_ok.1 ok
      cases ok
    · obtain ⟨_, _, ok⟩ := bind_ok.1 ok
      cases ok
    · obtain ⟨_, _, ok⟩ := bind_ok.1 ok
      obtain ⟨_, _, ok⟩ := bind_ok.1 ok
      cases ok
    · obtain ⟨_, _, ok⟩ := bind_ok.1 ok
      cases ok
      rfl

theorem Binds.bound {host : Host} {v : Verb D} {row : String × Route D} (h : Binds host v row) :
    D.validName row.1 = true ∧ row.2.Bound := by
  cases h with
  | service name h ok => exact ⟨name.property, h.not_proven ok⟩
  | memberService name h ok => exact ⟨name.property, h.not_proven ok⟩
  | provenService name h knows => exact ⟨name.property, h.property⟩
  | echo name => exact ⟨name.property, Handler.not_proven rfl⟩
  | forward name addr ok => exact ⟨name.property, Handler.not_proven rfl⟩
  | rawStream name source => exact ⟨name.property, trivial⟩
  | parse entry addr name target split ok =>
    refine ⟨name.property, ?_⟩
    cases target with
    | Handler h =>
      have hsafe := parseTarget_exposure ok
      simp [Route.Bound, hsafe]
    | RawStream stream => trivial

/-- Every row of a built table: its name is well formed and its route is bound consistently. -/
theorem Router.build_bound {host : Host} {gate : Gate D.Base} {verbs : List (Verb D)} {r : Router D}
    (h : Router.build host gate verbs = .ok r) {name : String} {route : Route D}
    (hget : r.services.get name = some route) : D.validName name = true ∧ route.Bound := by
  obtain ⟨rows, hbinds, hadded, -⟩ := Router.build_ok.1 h
  obtain ⟨v, -, hrow⟩ := Checked.forall₂_mem_right hbinds ((Services.get_of_added hadded).1 hget)
  exact hrow.bound

end Tightbeam
