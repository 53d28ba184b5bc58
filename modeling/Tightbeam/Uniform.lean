import Tightbeam.AdmitCases
import Tightbeam.ResponseExact

/-!
# The uniform refusal

What a host writes before any payload, for every well-formed request: one octet on success, a detail
for the two causes that are about the host, and the same two octets for everything else.
-/
namespace Tightbeam

open Octets Checked

variable {D : Deps}

theorem answer_unavailable (detail : RefusalDetail) :
    answer (.refused (.unavailable detail)) = [1, 2] ++ strFrame detail.text :=
  ((Sink.wrote_all [1, 2]).bind (writeDetail_wrote detail)).octets

/-- A stream whose request was read and names a well-formed service, on a writer that takes every octet.
`inTime` is that no deadline cut its answer short, which only a proven stream has. -/
structure Asked (D : Deps) where
  serving : Serving D
  dial : Dial D
  pools : Pools
  session : PublicSession
  peer : SessionPeer
  chains : Option (AdmittedChains D)
  input : List UInt8
  request : Request
  requested : D.Service
  arrived : dial.input = some input
  read : (Request.read.run input).1 = .ok request
  named : parseService D request.service = .ok requested
  inTime : ∀ admitted, (admitRequest serving dial.moment dial.now pools session peer request.capability
    request.membership (serving.services.resolveSingleService requested)).result = .ok admitted →
    admitted.proven ≠ none → dial.deadlineFires = none

namespace Asked

variable (a : Asked D)

def service : D.Service := a.serving.services.resolveSingleService a.requested

def ruling : Ruling D :=
  admitRequest a.serving a.dial.moment a.dial.now a.pools a.session a.peer a.request.capability
    a.request.membership a.service

def outcome : Outcome D := serveRequest a.serving a.dial a.pools a.session a.peer a.chains

/-- Admitted, enabled, served, and past the member floor. -/
structure Passes (admitted : AdmittedStream D) (route : Route D) : Prop where
  ruling : a.ruling.result = .ok admitted
  enabled : a.serving.enabled a.dial.moment a.service = true
  served : a.serving.services.get a.service.val = some route
  floor : route.access.isMember = true → admitted.witness.isMember = true

/-- The raw source opened, or the handler accepts the witness's origin. -/
def Opens (admitted : AdmittedStream D) (route : Route D) : Prop :=
  match route.target with
  | .RawStream stream => ∃ opened, openRaw a.dial a.peer.node stream = .ok opened
  | .Handler h => h.accepts admitted.witness.origin = true

def Succeeds : Prop :=
  ∃ admitted route, a.Passes admitted route ∧ a.Opens admitted route ∧
    ∃ kept, recordChains a.chains admitted = .ok kept

def Undecided : Prop := a.ruling.result = .error (.Gate .Undecided)

/-- A raw stream past every check that failed to open, or hit the open cap, for this reason. -/
def RawFails (error : String) : Prop :=
  ∃ admitted route stream, a.Passes admitted route ∧ route.target = .RawStream stream ∧
    openRaw a.dial a.peer.node stream = .error error

/-- Refused for any other cause. -/
structure Refused : Prop where
  unserved : ¬ a.Succeeds
  decided : ¬ a.Undecided
  unopened : ∀ error, ¬ a.RawFails error

variable {a}

theorem octets_of_error {refusal : HostRefusal D} (h : a.ruling.result = .error refusal) :
    a.outcome.octets = answer (.refused (wireRefusal refusal)) := by
  simp only [ruling, service] at h
  simp [outcome, serveRequest, a.arrived, a.read, a.named, h]

theorem octets_of_ok {admitted : AdmittedStream D} (h : a.ruling.result = .ok admitted) :
    a.outcome.octets =
      match dispatch a.serving a.dial a.peer a.chains a.service admitted with
      | .error refusal => answer (.refused refusal)
      | .ok _ => answer .ok := by
  have hwhole : ∀ octets, underDeadline a.dial admitted octets = octets := by
    intro octets
    unfold underDeadline
    cases hproven : admitted.proven with
    | none => rfl
    | some proven =>
      rw [a.inTime admitted h (by simp [hproven])]
  simp only [ruling, service] at h
  simp only [outcome, serveRequest, a.arrived, a.read, a.named, h, hwhole, service]
  cases dispatch a.serving a.dial a.peer a.chains (a.serving.services.resolveSingleService a.requested)
    admitted with
  | error refusal => rfl
  | ok served => rfl

theorem makeReady_opens {admitted : AdmittedStream D} {route : Route D} (h : a.Opens admitted route) :
    ∃ ready, makeReady a.dial a.peer.node route.target admitted.witness = .ok ready := by
  unfold Opens at h
  cases htarget : route.target with
  | RawStream stream =>
    rw [htarget] at h
    obtain ⟨opened, hopened⟩ := h
    exact ⟨.Raw stream opened, by simp [makeReady, hopened]⟩
  | Handler handler =>
    rw [htarget] at h
    exact ⟨.Handler handler ⟨admitted.witness, h⟩,
      by simp [makeReady, Handler.prepare, Served.mint_of_accepts h]⟩

theorem octets_of_succeeds (h : a.Succeeds) : a.outcome.octets = [0] := by
  obtain ⟨admitted, route, hpasses, hopens, kept, hkept⟩ := h
  obtain ⟨ready, hready⟩ := makeReady_opens hopens
  have hdispatched : Dispatched a.serving a.dial a.peer a.chains a.service admitted
      ⟨a.service, route, admitted, ready⟩ kept :=
    ⟨rfl, rfl, hpasses.enabled, hpasses.served, hpasses.floor, hready, hkept⟩
  rw [octets_of_ok hpasses.ruling, dispatch_ok.2 hdispatched]
  rfl

theorem octets_of_undecided (h : a.Undecided) :
    a.outcome.octets = [1, 2] ++ strFrame (D.bounded gateUndecided).text := by
  rw [octets_of_error h]
  exact answer_unavailable _

theorem octets_of_rawFails {error : String} (h : a.RawFails error) :
    a.outcome.octets = [1, 2] ++ strFrame (D.bounded error).text := by
  obtain ⟨admitted, route, stream, hpasses, htarget, hfailed⟩ := h
  have hfloor : ¬ (route.access.isMember = true ∧ admitted.witness.isMember = false) := by
    intro hboth
    rw [hpasses.floor hboth.1] at hboth
    cases hboth.2
  have hdispatch : dispatch a.serving a.dial a.peer a.chains a.service admitted =
      .error (.unavailable (D.bounded error)) := by
    simp [dispatch, hpasses.enabled, hpasses.served, hfloor, makeReady, htarget, hfailed]
  rw [octets_of_ok hpasses.ruling, hdispatch]
  exact answer_unavailable _

theorem opens_of_ready {admitted : AdmittedStream D} {route : Route D} {ready : Ready D}
    (h : makeReady a.dial a.peer.node route.target admitted.witness = .ok ready) :
    a.Opens admitted route := by
  unfold Opens
  cases htarget : route.target with
  | RawStream stream =>
    simp only [htarget, makeReady] at h
    cases hopened : openRaw a.dial a.peer.node stream with
    | error e =>
      rw [hopened] at h
      cases h
    | ok opened => exact ⟨opened, hopened⟩
  | Handler handler =>
    simp only [htarget, makeReady] at h
    cases hprepare : handler.prepare admitted.witness with
    | error refusal =>
      rw [hprepare] at h
      cases h
    | ok served =>
      have haccepted := served.accepted
      rw [Served.mint_ok hprepare] at haccepted
      exact haccepted

theorem octets_of_refused (h : a.Refused) : a.outcome.octets = [1, 0] := by
  cases hruling : a.ruling.result with
  | error refusal =>
    rw [octets_of_error hruling]
    cases refusal with
    | Gate cause =>
      cases cause with
      | Undecided => exact absurd hruling h.decided
      | Missing => rfl
      | NotGranted => rfl
      | Revoked => rfl
    | MalformedCapability error => rfl
    | PeerNotProven declared => rfl
    | PublicAtCapacity cap => rfl
    | UnknownKey => rfl
    | PeerKey error => rfl
    | ProvenAtCapacity => rfl
    | Unrevocable => rfl
  | ok admitted =>
    rw [octets_of_ok hruling]
    cases hdispatch : dispatch a.serving a.dial a.peer a.chains a.service admitted with
    | ok served =>
      obtain ⟨found, kept⟩ := served
      have hdone := dispatch_ok.1 hdispatch
      exact absurd ⟨admitted, found.route, ⟨hruling, hdone.enabled, hdone.route, hdone.floor⟩,
        opens_of_ready hdone.ready, kept, hdone.record⟩ h.unserved
    | error refusal =>
      obtain rfl | ⟨route, stream, error, henabled, hroute, hfloor, htarget, hfailed, -⟩ :=
        dispatch_error hdispatch
      · rfl
      · exact absurd ⟨admitted, route, stream, ⟨hruling, henabled, hroute, hfloor⟩, htarget, hfailed⟩
          (h.unopened error)

end Asked

/-- The octets written before any payload say one of three things: served, a fault of this host, or no.
Every refusal that is not one of the two faults is the same two octets, on any host and for any dial. -/
theorem uniform_refusal (a : Asked D) :
    (a.outcome.octets = [0] ↔ a.Succeeds) ∧
    ((∃ detail, a.outcome.octets = [1, 2] ++ detail) ↔ a.Undecided ∨ ∃ error, a.RawFails error) ∧
    (a.Undecided → a.outcome.octets = [1, 2] ++ strFrame (D.bounded gateUndecided).text) ∧
    (∀ error, a.RawFails error → a.outcome.octets = [1, 2] ++ strFrame (D.bounded error).text) ∧
    (a.outcome.octets = [1, 0] ↔ a.Refused) ∧
    ∀ b : Asked D, a.Refused → b.Refused → a.outcome.octets = b.outcome.octets := by
  have hcases : a.Succeeds ∨ (a.Undecided ∨ ∃ error, a.RawFails error) ∨ a.Refused := by
    by_cases hserved : a.Succeeds
    · exact .inl hserved
    · by_cases hfault : a.Undecided ∨ ∃ error, a.RawFails error
      · exact .inr (.inl hfault)
      · exact .inr (.inr ⟨hserved, fun h => hfault (.inl h), fun error h => hfault (.inr ⟨error, h⟩)⟩)
  have hfault : a.Undecided ∨ (∃ error, a.RawFails error) → ∃ detail, a.outcome.octets = [1, 2] ++ detail := by
    intro h
    cases h with
    | inl hundecided => exact ⟨_, Asked.octets_of_undecided hundecided⟩
    | inr hfails =>
      obtain ⟨error, hfails⟩ := hfails
      exact ⟨_, Asked.octets_of_rawFails hfails⟩
  refine ⟨⟨?_, Asked.octets_of_succeeds⟩, ⟨?_, hfault⟩, Asked.octets_of_undecided,
    fun error => Asked.octets_of_rawFails, ⟨?_, Asked.octets_of_refused⟩, ?_⟩
  · intro hoctets
    obtain hserved | hother | hrefused := hcases
    · exact hserved
    · obtain ⟨detail, hdetail⟩ := hfault hother
      rw [hoctets] at hdetail
      cases hdetail
    · rw [Asked.octets_of_refused hrefused] at hoctets
      cases hoctets
  · intro hoctets
    obtain ⟨detail, hdetail⟩ := hoctets
    obtain hserved | hother | hrefused := hcases
    · rw [Asked.octets_of_succeeds hserved] at hdetail
      cases hdetail
    · exact hother
    · rw [Asked.octets_of_refused hrefused] at hdetail
      cases hdetail
  · intro hoctets
    obtain hserved | hother | hrefused := hcases
    · rw [Asked.octets_of_succeeds hserved] at hoctets
      cases hoctets
    · obtain ⟨detail, hdetail⟩ := hfault hother
      rw [hoctets] at hdetail
      cases hdetail
    · exact hrefused
  · intro b ha hb
    rw [Asked.octets_of_refused ha, Asked.octets_of_refused hb]

/-- One request for `web` on a badge, at a host that serves nothing, with these keys revoked. -/
def Asked.badge (revoked : List (Vector UInt8 32)) : Asked (Deps.small (Vector.replicate 32 0)) where
  serving := ⟨.rooted (Vector.replicate 32 0), ∅, ∅, ⟨∅⟩, fun _ _ => true, none⟩
  dial := ⟨some (Request.write ⟨"web", some "badge", none⟩).2, revoked, 0, ⟨0⟩, fun _ _ => .ok .Stream, none⟩
  pools := Pools.new
  session := ⟨false⟩
  peer := ⟨⟨.Ed25519, Vector.replicate 32 7⟩, ⟨.Proven⟩⟩
  chains := none
  input := (Request.write ⟨"web", some "badge", none⟩).2
  request := ⟨"web", some "badge", none⟩
  requested := ⟨"web", by decide⟩
  arrived := rfl
  read := rfl
  named := rfl
  inTime := fun _ _ _ => rfl

theorem uniform_refusal_absent_revoked :
    (Asked.badge []).Refused ∧
      (Asked.badge []).outcome.octets = (Asked.badge [Vector.replicate 32 7]).outcome.octets := by
  have habsent := uniform_refusal (Asked.badge [])
  have hrevoked := uniform_refusal (Asked.badge [Vector.replicate 32 7])
  have hrefused : (Asked.badge []).Refused := habsent.2.2.2.2.1.1 rfl
  exact ⟨hrefused, habsent.2.2.2.2.2 _ hrefused (hrevoked.2.2.2.2.1.1 rfl)⟩

end Tightbeam
