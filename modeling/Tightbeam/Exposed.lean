import Tightbeam.Exposer
import Tightbeam.RouterBuilt

/-!
# What the door proves

The interlocks as one statement about the table, the gate and the two requests. An exposer exists
exactly when it holds, and its overlays are then the requests themselves.
-/
namespace Tightbeam

open Checked

variable {D : Deps}

namespace Services

theorem mem_provenNames {services : Services D} {name : String} :
    name ∈ services.provenNames ↔
      ∃ route, services.get name = some route ∧ route.access.isProvenOnly = true := by
  simp only [provenNames, List.mem_filterMap, Sigma.exists, get_eq_some]
  constructor
  · intro h
    obtain ⟨name', route, hmem, hsome⟩ := h
    by_cases hproven : route.access.isProvenOnly = true
    · rw [if_pos hproven] at hsome
      cases hsome
      exact ⟨route, hmem, hproven⟩
    · simp [hproven] at hsome
  · intro h
    obtain ⟨route, hmem, hproven⟩ := h
    exact ⟨name, route, hmem, by simp [hproven]⟩

theorem mem_memberOnlyNames {services : Services D} {name : String} :
    name ∈ services.memberOnlyNames ↔
      ∃ route, services.get name = some route ∧ route.access.isMember = true := by
  simp only [memberOnlyNames, List.mem_filterMap, Sigma.exists, get_eq_some]
  constructor
  · intro h
    obtain ⟨name', route, hmem, hsome⟩ := h
    by_cases hmember : route.access.isMember = true
    · rw [if_pos hmember] at hsome
      cases hsome
      exact ⟨route, hmem, hmember⟩
    · simp [hmember] at hsome
  · intro h
    obtain ⟨route, hmem, hmember⟩ := h
    exact ⟨name, route, hmem, by simp [hmember]⟩

theorem mem_rawStreamNames {services : Services D} {name : String} :
    name ∈ services.rawStreamNames ↔
      ∃ route stream, services.get name = some route ∧ route.target = .RawStream stream := by
  simp only [rawStreamNames, List.mem_filterMap, Sigma.exists, get_eq_some]
  constructor
  · intro h
    obtain ⟨name', route, hmem, hsome⟩ := h
    cases htarget : route.target with
    | Handler handler => simp [htarget] at hsome
    | RawStream stream =>
      simp only [htarget, Option.some.injEq] at hsome
      cases hsome
      exact ⟨route, stream, hmem, htarget⟩
  · intro h
    obtain ⟨route, stream, hmem, htarget⟩ := h
    exact ⟨name, route, hmem, by simp [htarget]⟩

theorem mem_handlers {services : Services D} {name : String} {handler : Handler} :
    (name, handler) ∈ services.handlers ↔
      ∃ route, services.get name = some route ∧ route.target = .Handler handler := by
  simp only [handlers, List.mem_filterMap, Sigma.exists, get_eq_some]
  constructor
  · intro h
    obtain ⟨name', route, hmem, hsome⟩ := h
    cases htarget : route.target with
    | RawStream stream => simp [htarget] at hsome
    | Handler found =>
      simp only [htarget, Option.some.injEq, Prod.mk.injEq] at hsome
      obtain ⟨rfl, rfl⟩ := hsome
      exact ⟨route, hmem, htarget⟩
  · intro h
    obtain ⟨route, hmem, htarget⟩ := h
    exact ⟨name, route, hmem, by simp [htarget]⟩

theorem proveUnsafeName_ok {host : Host} {services : Services D} {s t : Finset String} {name : String} :
    services.proveUnsafeName host s name = .ok t ↔
      (∃ route stream, services.get name = some route ∧ route.target = .RawStream stream ∧
        stream.checkOpenSource host = .ok ()) ∧ t = insert name s := by
  unfold proveUnsafeName
  cases hget : services.get name with
  | none => simp
  | some route =>
    cases htarget : route.target with
    | Handler handler => simp [htarget]
    | RawStream stream =>
      simp only [Option.map_some, htarget, bind_ok, pure_ok]
      constructor
      · intro h
        obtain ⟨_, hcheck, rfl⟩ := h
        exact ⟨⟨route, stream, rfl, htarget, hcheck⟩, rfl⟩
      · intro h
        obtain ⟨⟨found, source, hfound, hsource, hcheck⟩, rfl⟩ := h
        cases hfound
        rw [htarget] at hsource
        cases hsource
        exact ⟨(), hcheck, rfl⟩

theorem provePublicName_ok {services : Services D} {s t : Finset String} {name : String} :
    services.provePublicName s name = .ok t ↔
      (∃ route handler, services.get name = some route ∧ route.access = .Family ∧
        route.target = .Handler handler ∧ handler.openSafe = true) ∧ t = insert name s := by
  unfold provePublicName
  cases hget : services.get name with
  | none => simp
  | some route =>
    obtain ⟨target, access⟩ := route
    cases access with
    | ProvenOnly knows => simp [Access.isProvenOnly]
    | Member =>
      simp only [Access.isProvenOnly, Access.isMember, Bool.false_eq_true, if_false, if_true,
        reduceCtorEq, false_iff, Option.some.injEq]
      intro h
      obtain ⟨⟨_, _, rfl, haccess, -⟩, -⟩ := h
      cases haccess
    | Family =>
      cases target with
      | RawStream stream => simp [Access.isProvenOnly, Access.isMember]
      | Handler handler =>
        by_cases hsafe : handler.openSafe = true
        · simp only [Access.isProvenOnly, Access.isMember, Target.openSafe, hsafe, Bool.false_eq_true,
            if_false, if_true, Except.ok.injEq]
          constructor
          · intro h
            exact ⟨⟨_, handler, rfl, rfl, rfl, hsafe⟩, h.symm⟩
          · intro h
            exact h.2.symm
        · simp only [Access.isProvenOnly, Access.isMember, Target.openSafe, hsafe, Bool.false_eq_true,
            if_false, reduceCtorEq, false_iff, Option.some.injEq]
          intro h
          obtain ⟨⟨_, found, rfl, -, htarget, hfound⟩, -⟩ := h
          cases htarget
          exact hsafe hfound

theorem proveUnsafe_ok {host : Host} {services : Services D} {requested : List String} {t : Finset String} :
    services.proveUnsafe host requested = .ok t ↔
      (∀ name ∈ requested, ∃ route stream, services.get name = some route ∧
        route.target = .RawStream stream ∧ stream.checkOpenSource host = .ok ()) ∧
      t = requested.toFinset := by
  rw [proveUnsafe, foldlM_insert_ok fun s name t => proveUnsafeName_ok, Finset.empty_union]

theorem provePublic_ok {services : Services D} {requested : List String} {t : Finset String} :
    services.provePublic requested = .ok t ↔
      (∀ name ∈ requested, ∃ route handler, services.get name = some route ∧ route.access = .Family ∧
        route.target = .Handler handler ∧ handler.openSafe = true) ∧
      t = requested.toFinset := by
  rw [provePublic, foldlM_insert_ok fun s name t => provePublicName_ok, Finset.empty_union]

end Services

namespace Exposer

theorem refuseAny_ok {message : String → String} {names : List String} {u : Unit} :
    refuseAny message names = .ok u ↔ ∀ name, name ∉ names := by
  cases names with
  | nil => simp [refuseAny]
  | cons name names =>
    constructor
    · intro h
      cases h
    · intro h
      exact absurd List.mem_cons_self (h name)

theorem mem_underOpen {gate : Gate D.Base} {names : List String} {name : String} :
    name ∈ underOpen gate names ↔ gate.isOpen = true ∧ name ∈ names := by
  by_cases hopen : gate.isOpen = true
  · simp [underOpen, hopen]
  · simp [underOpen, hopen]

theorem mem_keylessNames {services : Services D} {name : String} :
    name ∈ keylessNames services ↔ ∃ route handler, services.get name = some route ∧
      route.target = .Handler handler ∧ handler.openSafe = false := by
  simp only [keylessNames, List.mem_map, List.mem_filter, Prod.exists, Bool.not_eq_true',
    Services.mem_handlers]
  constructor
  · intro h
    obtain ⟨found, handler, ⟨⟨route, hget, htarget⟩, hkey⟩, rfl⟩ := h
    exact ⟨route, handler, hget, htarget, hkey⟩
  · intro h
    obtain ⟨route, handler, hget, htarget, hkey⟩ := h
    exact ⟨name, handler, ⟨⟨route, hget, htarget⟩, hkey⟩, rfl⟩

/-- Every interlock passed. -/
structure Proved (host : Host) (services : Services D) (gate : Gate D.Base)
    (publicRequest publicUnsafeRequest : List String) : Prop where
  openProven : ∀ name route, gate.isOpen = true → services.get name = some route →
    route.access.isProvenOnly = false
  openKeyless : ∀ name route handler, gate.isOpen = true → services.get name = some route →
    route.target = .Handler handler → handler.openSafe = true
  openRaw : ∀ name route stream, gate.isOpen = true → services.get name = some route →
    route.target = .RawStream stream → name ∈ publicUnsafeRequest
  openMember : ∀ name route, gate.isOpen = true → services.get name = some route →
    route.access.isMember = false
  unsafeRaw : ∀ name ∈ publicUnsafeRequest, ∃ route stream, services.get name = some route ∧
    route.target = .RawStream stream ∧ stream.checkOpenSource host = .ok ()
  unsafeMember : ∀ name ∈ publicUnsafeRequest, ∀ route, services.get name = some route →
    route.access.isMember = false
  publicSafe : ∀ name ∈ publicRequest, ∃ route handler, services.get name = some route ∧
    route.access = .Family ∧ route.target = .Handler handler ∧ handler.openSafe = true

theorem prove_ok {host : Host} {services : Services D} {gate : Gate D.Base}
    {publicRequest publicUnsafeRequest : List String} {e : Exposer D} :
    prove host services gate publicRequest publicUnsafeRequest = .ok e ↔
      Proved host services gate publicRequest publicUnsafeRequest ∧
        e = ⟨services, gate, publicRequest.toFinset, publicUnsafeRequest.toFinset, fun _ _ => true, none⟩ := by
  unfold prove
  constructor
  · intro h
    obtain ⟨_, hproven, h⟩ := bind_ok.1 h
    obtain ⟨_, hkeyless, h⟩ := bind_ok.1 h
    obtain ⟨_, hunsafeNames, h⟩ := bind_ok.1 h
    obtain ⟨_, hraw, h⟩ := bind_ok.1 h
    obtain ⟨_, hmember, h⟩ := bind_ok.1 h
    obtain ⟨_, hserved, h⟩ := bind_ok.1 h
    obtain ⟨_, hpublic, h⟩ := bind_ok.1 h
    obtain ⟨hraws, rfl⟩ := Services.proveUnsafe_ok.1 hunsafeNames
    obtain ⟨hsafe, rfl⟩ := Services.provePublic_ok.1 hpublic
    refine ⟨⟨?_, ?_, ?_, ?_, hraws, ?_, hsafe⟩, (pure_ok.1 h).symm⟩
    · intro name route hopen hget
      have hnot := refuseAny_ok.1 hproven name
      rw [mem_underOpen, Services.mem_provenNames] at hnot
      by_contra hroute
      exact hnot ⟨hopen, route, hget, by simpa using hroute⟩
    · intro name route handler hopen hget htarget
      have hnot := refuseAny_ok.1 hkeyless name
      rw [mem_underOpen, mem_keylessNames] at hnot
      by_contra hkey
      exact hnot ⟨hopen, route, handler, hget, htarget, by simpa using hkey⟩
    · intro name route stream hopen hget htarget
      have hnot := refuseAny_ok.1 hraw name
      rw [mem_underOpen, List.mem_filter, Services.mem_rawStreamNames] at hnot
      by_contra hname
      exact hnot ⟨hopen, ⟨route, stream, hget, htarget⟩, by simpa using hname⟩
    · intro name route hopen hget
      have hnot := refuseAny_ok.1 hmember name
      rw [mem_underOpen, Services.mem_memberOnlyNames] at hnot
      by_contra hroute
      exact hnot ⟨hopen, route, hget, by simpa using hroute⟩
    · intro name hname route hget
      have hnot := refuseAny_ok.1 hserved name
      rw [List.mem_filter, Services.mem_memberOnlyNames] at hnot
      by_contra hroute
      exact hnot ⟨⟨route, hget, by simpa using hroute⟩, by simpa using hname⟩
  · intro h
    obtain ⟨hproved, rfl⟩ := h
    refine bind_ok.2 ⟨(), refuseAny_ok.2 ?_, bind_ok.2 ⟨(), refuseAny_ok.2 ?_, bind_ok.2
      ⟨_, Services.proveUnsafe_ok.2 ⟨hproved.unsafeRaw, rfl⟩, bind_ok.2 ⟨(), refuseAny_ok.2 ?_, bind_ok.2
      ⟨(), refuseAny_ok.2 ?_, bind_ok.2 ⟨(), refuseAny_ok.2 ?_, bind_ok.2
      ⟨_, Services.provePublic_ok.2 ⟨hproved.publicSafe, rfl⟩, rfl⟩⟩⟩⟩⟩⟩⟩
    · intro name hname
      rw [mem_underOpen, Services.mem_provenNames] at hname
      obtain ⟨hopen, route, hget, hroute⟩ := hname
      rw [hproved.openProven name route hopen hget] at hroute
      cases hroute
    · intro name hname
      rw [mem_underOpen, mem_keylessNames] at hname
      obtain ⟨hopen, route, handler, hget, htarget, hkey⟩ := hname
      rw [hproved.openKeyless name route handler hopen hget htarget] at hkey
      cases hkey
    · intro name hname
      rw [mem_underOpen, List.mem_filter, Services.mem_rawStreamNames] at hname
      obtain ⟨hopen, ⟨route, stream, hget, htarget⟩, hnot⟩ := hname
      have hmem := hproved.openRaw name route stream hopen hget htarget
      simp [hmem] at hnot
    · intro name hname
      rw [mem_underOpen, Services.mem_memberOnlyNames] at hname
      obtain ⟨hopen, route, hget, hroute⟩ := hname
      rw [hproved.openMember name route hopen hget] at hroute
      cases hroute
    · intro name hname
      rw [List.mem_filter, Services.mem_memberOnlyNames] at hname
      obtain ⟨⟨route, hget, hroute⟩, hmem⟩ := hname
      rw [hproved.unsafeMember name (by simpa using hmem) route hget] at hroute
      cases hroute

/-- What holds of every exposer the verbs and the door hand back. -/
structure Declared (e : Exposer D) : Prop where
  valid : ∀ name route, e.services.get name = some route → D.validName name = true
  bound : ∀ name route, e.services.get name = some route → route.Bound
  openBase : ∀ name route, e.gate.isOpen = true → e.services.get name = some route →
    route.access = .Family ∧ match route.target with
      | .Handler handler => handler.exposure = .OptIn
      | .RawStream _ => name ∈ e.publicUnsafe
  publicSafe : ∀ name ∈ e.publicServices, ∃ handler,
    e.services.get name = some ⟨.Handler handler, .Family⟩ ∧ handler.exposure = .OptIn
  unsafeRaw : ∀ name ∈ e.publicUnsafe, ∃ stream,
    e.services.get name = some ⟨.RawStream stream, .Family⟩

end Exposer

theorem Handler.openSafe_iff {h : Handler} : h.openSafe = true ↔ h.exposure = .OptIn := by
  unfold Handler.openSafe
  cases h.exposure with
  | Never => simp [Exposure.openSafe]
  | OptIn => simp [Exposure.openSafe]
  | ProvenOnly => simp [Exposure.openSafe]

theorem Access.eq_family {access : Access D} (hproven : access.isProvenOnly = false)
    (hmember : access.isMember = false) : access = .Family := by
  cases access with
  | Family => rfl
  | Member => cases hmember
  | ProvenOnly knows => cases hproven

theorem Route.Bound.raw_family {stream : RawStream} {access : Access D}
    (h : Route.Bound ⟨.RawStream stream, access⟩) : access = .Family := by
  cases access with
  | Family => rfl
  | Member => exact absurd h id
  | ProvenOnly knows => exact absurd h id

namespace Router

variable {host host' : Host} {gate : Gate D.Base} {verbs : List (Verb D)} {r : Router D} {e : Exposer D}

/-- An exposed router, field by field: its own table and gate, and its last two requests as overlays. -/
theorem expose_ok (hb : Router.build host gate verbs = .ok r) (he : r.expose host' = .ok e) :
    e = ⟨r.services, gate, (lastPublic verbs).toFinset, (lastUnsafe verbs).toFinset, fun _ _ => true, none⟩ ∧
      Exposer.Proved host' r.services gate (lastPublic verbs) (lastUnsafe verbs) := by
  obtain ⟨rows, -, -, hpub, hunsafeNames, hgate⟩ := build_ok.1 hb
  obtain ⟨hproved, heq⟩ := Exposer.prove_ok.1 he
  rw [hpub, hunsafeNames, hgate] at hproved heq
  exact ⟨heq, hproved⟩

theorem declared (hb : Router.build host gate verbs = .ok r) (he : r.expose host' = .ok e) :
    e.Declared := by
  obtain ⟨rfl, hproved⟩ := expose_ok hb he
  refine ⟨fun name route hget => (build_bound hb hget).1, fun name route hget => (build_bound hb hget).2,
    ?_, ?_, ?_⟩
  · intro name route hopen hget
    refine ⟨Access.eq_family (hproved.openProven name route hopen hget)
      (hproved.openMember name route hopen hget), ?_⟩
    cases htarget : route.target with
    | Handler handler =>
      exact Handler.openSafe_iff.1 (hproved.openKeyless name route handler hopen hget htarget)
    | RawStream stream =>
      exact List.mem_toFinset.2 (hproved.openRaw name route stream hopen hget htarget)
  · intro name hname
    obtain ⟨⟨target, access⟩, handler, hget, haccess, htarget, hsafe⟩ :=
      hproved.publicSafe name (List.mem_toFinset.1 hname)
    cases haccess
    cases htarget
    exact ⟨handler, hget, Handler.openSafe_iff.1 hsafe⟩
  · intro name hname
    obtain ⟨⟨target, access⟩, stream, hget, htarget, -⟩ :=
      hproved.unsafeRaw name (List.mem_toFinset.1 hname)
    cases htarget
    have hfamily := (build_bound hb hget).2.raw_family
    exact ⟨stream, by rw [hget, hfamily]⟩

end Router

end Tightbeam
