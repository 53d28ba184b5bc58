import Tightbeam.Connector
import Tightbeam.PreGate
import Tightbeam.AdmitCases

/-!
# Both ends of one handshake

The dialer's end and the host's are read off two sides of the source. Here they meet on one stream: each
end hears what the other one wrote, in order, and maybe not all of it. What the two ends then hold to be
so is compared.
-/
namespace Tightbeam

open Octets Octets.Reader

variable {D : Deps} {α : Type}

/-- A frame that runs short of a request's is no frame, and is answered with silence. -/
theorem row_of_begun {request : Request} (hfits : request.Fits) {input more : List UInt8}
    (h : input <+: request.frame ++ more) :
    (Row.read D input = .silent ∧ input <+: request.frame ∧ input ≠ request.frame) ∨
      ∃ rest, input = request.frame ++ rest ∧ rest <+: more := by
  by_cases hwhole : request.frame <+: input
  · obtain ⟨rest, rfl⟩ := hwhole
    exact .inr ⟨rest, rfl, (List.prefix_append_right_inj _).mp h⟩
  · have hshort : input <+: request.frame := by
      rcases List.prefix_or_prefix_of_prefix h (List.prefix_append request.frame more) with hin | hframe
      · exact hin
      · exact absurd hframe hwhole
    refine .inl ⟨?_, hshort, fun heq => hwhole (heq ▸ List.prefix_rfl)⟩
    obtain ⟨row, hrow⟩ := Table.total D input
    rw [hrow.row]
    -- Any other row begins with a preamble or a frame of its own, and no frame begins another.
    cases hrow with
    | short h => rfl
    | foreign h => rfl
    | body h => rfl
    | @otherVersion peer rest hrun hpeer =>
      refine absurd ?_ hpeer
      obtain ⟨tail, htail⟩ := hshort
      simp only [Request.frame, identity, WireVersion.asBytes, version, List.cons_append,
        List.nil_append, List.cons.injEq] at htail
      obtain ⟨-, -, hfirst, hsecond, -⟩ := htail
      cases peer
      simp_all [version]
    | @misnamed other rest hother hname =>
      have hbegins : other.frame <+: request.frame := (List.prefix_append _ _).trans hshort
      have hsame := Request.read_exact.prefix_free hother hfits hbegins
      exact absurd (hsame ▸ List.prefix_append _ _) hwhole
    | @named other rest requested hother hname =>
      have hbegins : other.frame <+: request.frame := (List.prefix_append _ _).trans hshort
      have hsame := Request.read_exact.prefix_free hother hfits hbegins
      exact absurd (hsame ▸ List.prefix_append _ _) hwhole

theorem writeStr_unfit {text : String} (h : ¬ textFits text) :
    writeStr text = Sink.fail (.other "string too long") := by
  unfold textFits at h
  simp only [writeStr, if_neg h]

/-- An over-long credential has put its presence tag already. -/
theorem writeOpt_unfit {value : Option String} (h : ¬ optFits value) :
    writeOpt value = (.error (.other "string too long"), [1]) := by
  cases value with
  | none => exact absurd (by simp [optFits]) h
  | some text =>
    have htext : ¬ textFits text := fun hfits => h (by simpa [optFits] using hfits)
    rw [writeOpt, writeStr_unfit htext]
    rfl

/-- What is put of a request the wire cannot carry is less than a frame, of a request that it can. -/
theorem Request.octets_of_unfit (r : Request) (h : ¬ r.Fits) :
    ∃ other : Request, other.Fits ∧ r.write.octets <+: other.frame ∧ r.write.octets ≠ other.frame := by
  have hempty : textFits "" := Nat.zero_le _
  have hnone : optFits none := by simp [optFits]
  have hsome : optFits (some "") := by simpa [optFits] using hempty
  rw [Request.write, (Sink.wrote_all identity).bind_octets, (Sink.wrote_all version.asBytes).bind_octets]
  by_cases hs : textFits r.service
  swap
  · refine ⟨⟨"", none, none⟩, ⟨hempty, hnone, hnone⟩, ?_, ?_⟩
    · rw [writeStr_unfit hs, Sink.failed_bind_octets rfl]
      simp [Request.frame, List.append_assoc]
    · rw [writeStr_unfit hs, Sink.failed_bind_octets rfl]
      simp [Request.frame, optFrame]
  rw [(writeStr_wrote _ hs).bind_octets]
  by_cases hc : optFits r.capability
  swap
  · have hfailed : (writeOpt r.capability).1 = .error (.other "string too long") := by rw [writeOpt_unfit hc]
    refine ⟨⟨r.service, some "", none⟩, ⟨hs, hsome, hnone⟩, ?_, ?_⟩
    · rw [Sink.failed_bind_octets hfailed, writeOpt_unfit hc]
      simp [Request.frame, optFrame, Sink.octets, List.append_assoc]
    · rw [Sink.failed_bind_octets hfailed, writeOpt_unfit hc]
      simp [Request.frame, optFrame, Sink.octets, List.append_assoc]
  rw [(writeOpt_wrote _ hc).bind_octets]
  have hm : ¬ optFits r.membership := fun hm => h ⟨hs, hc, hm⟩
  refine ⟨⟨r.service, r.capability, some ""⟩, ⟨hs, hc, hsome⟩, ?_, ?_⟩
  · rw [writeOpt_unfit hm]
    simp [Request.frame, optFrame, Sink.octets, List.append_assoc]
  · rw [writeOpt_unfit hm]
    simp [Request.frame, optFrame, strFrame, beU16, Sink.octets, List.append_assoc]

/-- What a host says to a stream it answers: one known response, of which a deadline may keep back the end. -/
structure Said (dial : Dial D) (out : Outcome D) (response : Response) : Prop where
  known : response.Known
  begins : out.octets <+: response.frame
  whole : dial.deadlineFires = none → out.octets = response.frame
  serves : response = .ok ↔ out.serve.isSome = true

theorem answer_frame (response : Response) (h : response.Known) : answer response = response.frame :=
  (response.write_wrote h).octets

theorem underDeadline_begins (dial : Dial D) (admitted : AdmittedStream D) (octets : List UInt8) :
    underDeadline dial admitted octets <+: octets := by
  unfold underDeadline
  split
  · exact List.take_prefix _ _
  · exact List.prefix_rfl
  · exact List.prefix_rfl

theorem underDeadline_none {dial : Dial D} (h : dial.deadlineFires = none) (admitted : AdmittedStream D)
    (octets : List UInt8) : underDeadline dial admitted octets = octets := by
  unfold underDeadline
  rw [h]
  cases admitted.proven <;> rfl

theorem wireRefusal_known (refusal : HostRefusal D) : (Response.refused (wireRefusal refusal)).Known := by
  cases refusal with
  | Gate cause => cases cause <;> trivial
  | _ => trivial

theorem dispatch_refusal_known {serving : Serving D} {dial : Dial D} {peer : SessionPeer}
    {chains : Option (AdmittedChains D)} {service : D.Service} {admitted : AdmittedStream D}
    {refusal : Refusal} (h : dispatch serving dial peer chains service admitted = .error refusal) :
    (Response.refused refusal).Known := by
  rcases dispatch_error h with rfl | ⟨_, _, _, _, _, _, _, _, rfl⟩
  · trivial
  · trivial

/-- A stream from its name on is always answered. -/
theorem serveNamed_said (serving : Serving D) (dial : Dial D) (pools : Pools) (session : PublicSession)
    (peer : SessionPeer) (chains : Option (AdmittedChains D)) (request : Request) (requested : D.Service) :
    ∃ response,
      Said dial (serveNamed serving dial pools session peer chains request requested) response := by
  have hserved : ∀ (admitted : AdmittedStream D) (response : Response), response.Known →
      underDeadline dial admitted (answer response) <+: response.frame ∧
        (dial.deadlineFires = none → underDeadline dial admitted (answer response) = response.frame) := by
    intro admitted response hknown
    rw [answer_frame response hknown]
    exact ⟨underDeadline_begins _ _ _, fun h => underDeadline_none h _ _⟩
  unfold serveNamed
  simp only
  generalize serving.services.resolveSingleService requested = service
  cases hruling : (admitRequest serving dial.moment dial.now pools session peer request.capability
      request.membership service).result with
  | error refusal =>
    have hframe := answer_frame _ (wireRefusal_known refusal)
    exact ⟨.refused (wireRefusal refusal), wireRefusal_known refusal, hframe ▸ List.prefix_rfl, fun _ => hframe,
      by simp⟩
  | ok admitted =>
    simp only
    cases hdispatch : dispatch serving dial peer chains service admitted with
    | error refusal =>
      have hknown := dispatch_refusal_known hdispatch
      exact ⟨.refused refusal, hknown, (hserved admitted _ hknown).1, (hserved admitted _ hknown).2, by simp⟩
    | ok served =>
      exact ⟨.ok, trivial, (hserved admitted .ok trivial).1, (hserved admitted .ok trivial).2, by simp⟩

/-- One handshake, seen from both ends. `heard` is what the dialer gets of the host's octets, and `payload`
what the service writes once its success is whole. -/
structure Exchange (D : Deps) (α : Type) where
  path : Path α
  request : Request
  security : Security
  serving : Serving D
  dial : Dial D
  pools : Pools
  session : PublicSession
  peer : SessionPeer
  chains : Option (AdmittedChains D)
  heard : List UInt8
  payload : List UInt8
  reaches : ∀ input, dial.input = some input → input <+: (handshake path request security heard).octets
  answers : heard <+: (serveRequest serving dial pools session peer chains).octets ++ payload
  follows : payload ≠ [] → (serveRequest serving dial pools session peer chains).serve.isSome = true ∧
    (serveRequest serving dial pools session peer chains).octets = Response.ok.frame

namespace Exchange

def dialed (e : Exchange D α) : Dialed α := handshake e.path e.request e.security e.heard

def outcome (e : Exchange D α) : Outcome D :=
  serveRequest e.serving e.dial e.pools e.session e.peer e.chains

/-- The host as it was, with nothing said. -/
def untouched (e : Exchange D α) : Outcome D := ⟨[], none, none, e.pools, e.session, e.chains⟩

variable {e : Exchange D α}

theorem dialed_heard (hcovered : ¬ e.request.Exposed e.security) (hfits : e.request.Fits) :
    e.dialed = match Response.read.run e.heard with
      | (.error error, _) => ⟨1, e.request.frame, none, .error (e.path.onRead error)⟩
      | (.ok (.refused refusal), _) => ⟨1, e.request.frame, none, .error (e.path.onRefused refusal)⟩
      | (.ok .ok, rest) =>
        ⟨1, e.request.frame ++ e.path.payload, if e.path.keeps then some rest else none, e.path.onOk⟩ :=
  handshake_fits hcovered hfits

theorem dialed_octets (hcovered : ¬ e.request.Exposed e.security) (hfits : e.request.Fits) :
    e.dialed.octets <+: e.request.frame ++ e.path.payload := by
  rw [dialed_heard hcovered hfits]
  split
  · exact List.prefix_append _ _
  · exact List.prefix_append _ _
  · exact List.prefix_rfl

/-- The host was asked, and by this dialer's request. -/
structure Asked (e : Exchange D α) (left : List UInt8) (response : Response) : Prop where
  covered : ¬ e.request.Exposed e.security
  fits : e.request.Fits
  input : e.dial.input = some (e.request.frame ++ left)
  left_begins : left <+: e.path.payload
  said : Said e.dial e.outcome response
  named : ∀ requested, parseService D e.request.service = .ok requested →
    e.outcome = serveNamed e.serving e.dial e.pools e.session e.peer e.chains e.request requested

theorem outcome_silent {input : List UInt8} (hinput : e.dial.input = some input)
    (h : Row.read D input = .silent) : e.outcome = e.untouched := by
  have hrow := serveRequest_row e.serving e.dial e.pools e.session e.peer e.chains input hinput
  rw [h] at hrow
  exact hrow

theorem outcome_asked (hcovered : ¬ e.request.Exposed e.security) (hfits : e.request.Fits)
    {left : List UInt8} (hinput : e.dial.input = some (e.request.frame ++ left))
    (hleft : left <+: e.path.payload) : ∃ response, e.Asked left response := by
  have hread := Request.read_exact.reads hfits left
  have hrow := serveRequest_row e.serving e.dial e.pools e.session e.peer e.chains _ hinput
  cases hparse : parseService D e.request.service with
  | error error =>
    have hmisnamed : Row.read D (e.request.frame ++ left) = .misnamed e.request := by
      simp [Row.read, hread, hparse]
    rw [hmisnamed] at hrow
    obtain ⟨detail, hdetail⟩ : ∃ detail, detail = D.bounded ("invalid service name " ++ D.debugText e.request.service) :=
      ⟨_, rfl⟩
    have hframe : e.outcome.octets = (Response.refused (.badRequest detail)).frame := by
      rw [outcome, hrow, hdetail]
      exact answer_frame (.refused (.badRequest _)) trivial
    refine ⟨.refused (.badRequest detail), hcovered, hfits, hinput, hleft,
      ⟨trivial, hframe ▸ List.prefix_rfl, fun _ => hframe, ?_⟩, fun _ h => ?_⟩
    · rw [outcome, hrow]
      simp
    · cases hparse.symm.trans h
  | ok requested =>
    have hnamed : Row.read D (e.request.frame ++ left) = .named e.request requested := by
      simp [Row.read, hread, hparse]
    rw [hnamed] at hrow
    obtain ⟨response, hsaid⟩ :=
      serveNamed_said e.serving e.dial e.pools e.session e.peer e.chains e.request requested
    refine ⟨response, hcovered, hfits, hinput, hleft, ?_, fun other h => ?_⟩
    · rw [outcome, hrow]
      exact hsaid
    · cases hparse.symm.trans h
      exact hrow

/-- A host that heard less than this dialer's whole frame did nothing. -/
theorem host_cases (e : Exchange D α) : e.outcome = e.untouched ∨ ∃ left response, e.Asked left response := by
  cases hinput : e.dial.input with
  | none =>
    left
    simp only [outcome, serveRequest, hinput]
    rfl
  | some input =>
    have hreaches : input <+: e.dialed.octets := e.reaches input hinput
    by_cases hexposed : e.request.Exposed e.security
    · rw [dialed, handshake_exposed hexposed] at hreaches
      obtain rfl := List.prefix_nil.mp hreaches
      have hshort : Table D [] .silent := .short (by decide)
      exact .inl (outcome_silent hinput hshort.row)
    · by_cases hfits : e.request.Fits
      · rcases row_of_begun hfits (hreaches.trans (dialed_octets hexposed hfits)) with hsilent | ⟨left, rfl, hleft⟩
        · exact .inl (outcome_silent hinput hsilent.1)
        · obtain ⟨response, hasked⟩ := outcome_asked hexposed hfits hinput hleft
          exact .inr ⟨left, response, hasked⟩
      · obtain ⟨error, hdialed⟩ := handshake_unfit e.path e.heard hexposed hfits
        rw [dialed, hdialed] at hreaches
        obtain ⟨other, hother, hbegins, hshort⟩ := e.request.octets_of_unfit hfits
        have hmore : input <+: other.frame ++ [] := by
          rw [List.append_nil]
          exact hreaches.trans hbegins
        rcases row_of_begun (D := D) hother hmore with hsilent | ⟨left, rfl, hleft⟩
        · exact .inl (outcome_silent hinput hsilent.1)
        · have hframe : other.frame <+: e.request.write.octets := (List.prefix_append _ _).trans hreaches
          exact absurd (hbegins.eq_of_length_le hframe.length_le) hshort

/-- How the two ends of a handshake can leave it. -/
inductive Agreed (e : Exchange D α) : Prop where
  /-- The credential was kept back. -/
  | withheld (hexposed : e.request.Exposed e.security)
      (hdialer : e.dialed = ⟨1, [], none, .error (e.path.onWrite (.Insecure e.security.peer))⟩)
      (hhost : e.outcome = e.untouched)
  /-- The wire has no frame for the request. -/
  | unwritten (error : IoError) (hunfit : ¬ e.request.Fits)
      (hdialer : e.dialed = ⟨1, e.request.write.octets, none, .error (e.path.onWrite (.Io error))⟩)
      (hhost : e.outcome = e.untouched)
  | served (s : Serve D) (left rest : List UInt8) (hasked : e.Asked left .ok)
      (hhost : e.outcome.serve = some s) (hrest : rest <+: e.payload)
      (hdialer : e.dialed = ⟨1, e.request.frame ++ e.path.payload, if e.path.keeps then some rest else none,
        e.path.onOk⟩)
  | refused (refusal : Refusal) (left : List UInt8) (hasked : e.Asked left (.refused refusal))
      (hhost : e.outcome.serve = none) (hwhole : e.outcome.octets = (Response.refused refusal).frame)
      (hdialer : e.dialed = ⟨1, e.request.frame, none, .error (e.path.onRefused refusal)⟩)
  /-- The dialer heard less than a response. -/
  | cut (error : IoError)
      (hshort : ∀ (response : Response) (rest : List UInt8), response.Known → e.heard ≠ response.frame ++ rest)
      (hdialer : e.dialed = ⟨1, e.request.frame, none, .error (e.path.onRead error)⟩)

/-- A whole response the dialer heard is the one the host said, and what follows it is the payload's. -/
theorem heard_said {left rest : List UInt8} {response other : Response} (hasked : e.Asked left response)
    (hknown : other.Known) (hheard : e.heard = other.frame ++ rest) :
    other = response ∧ e.outcome.octets = response.frame ∧ rest <+: e.payload := by
  have hanswers : other.frame ++ rest <+: e.outcome.octets ++ e.payload := hheard ▸ e.answers
  have hsame : ∀ {said : Response}, said.Known → e.outcome.octets = said.frame →
      other = said ∧ rest <+: e.payload := by
    intro said hsaid hframe
    rw [hframe] at hanswers
    have hother : other.frame <+: said.frame ++ e.payload := (List.prefix_append _ _).trans hanswers
    have heq : other = said := by
      rcases List.prefix_or_prefix_of_prefix hother (List.prefix_append said.frame e.payload) with h | h
      · exact Response.read_exact.prefix_free hknown hsaid h
      · exact (Response.read_exact.prefix_free hsaid hknown h).symm
    subst heq
    exact ⟨rfl, (List.prefix_append_right_inj _).mp hanswers⟩
  by_cases hpayload : e.payload = []
  · rw [hpayload, List.append_nil] at hanswers
    have hbegins : other.frame <+: response.frame :=
      ((List.prefix_append _ _).trans hanswers).trans hasked.said.begins
    obtain rfl := Response.read_exact.prefix_free hknown hasked.said.known hbegins
    have hwhole : e.outcome.octets = other.frame :=
      hasked.said.begins.eq_of_length_le ((List.prefix_append _ _).trans hanswers).length_le
    exact ⟨rfl, hwhole, (hsame hknown hwhole).2⟩
  · obtain ⟨hserved, hframe⟩ := e.follows hpayload
    obtain rfl := hasked.said.serves.mpr hserved
    obtain ⟨rfl, hrest⟩ := hsame hasked.said.known hframe
    exact ⟨rfl, hframe, hrest⟩

/-- A host that did nothing is not heard. -/
theorem heard_untouched (h : e.outcome = e.untouched) : e.heard = [] := by
  have hanswers : e.heard <+: e.outcome.octets ++ e.payload := e.answers
  have hpayload : e.payload = [] := by
    by_contra hne
    have hserved : e.outcome.serve.isSome = true := (e.follows hne).1
    rw [h] at hserved
    cases hserved
  rw [h, hpayload] at hanswers
  exact List.prefix_nil.mp hanswers

theorem agreed (e : Exchange D α) : e.Agreed := by
  have hhost := e.host_cases
  by_cases hexposed : e.request.Exposed e.security
  · refine .withheld hexposed (handshake_exposed hexposed) ?_
    rcases hhost with huntouched | ⟨left, response, hasked⟩
    · exact huntouched
    · exact absurd hexposed hasked.covered
  by_cases hfits : e.request.Fits
  swap
  · obtain ⟨error, hdialed⟩ := handshake_unfit e.path e.heard hexposed hfits
    refine .unwritten error hfits hdialed ?_
    rcases hhost with huntouched | ⟨left, response, hasked⟩
    · exact huntouched
    · exact absurd hasked.fits hfits
  have hdialed := dialed_heard hexposed hfits
  rcases hread : Response.read.run e.heard with ⟨res, rest⟩
  rw [hread] at hdialed
  cases res with
  | error error =>
    refine .cut error (fun response tail hknown hheard => ?_) hdialed
    have hreads := Response.read_exact.reads hknown tail
    rw [← hheard, hread] at hreads
    cases hreads
  | ok other =>
    obtain ⟨hknown, hheard⟩ := (Response.read_exact _ _ _).mp hread
    rcases hhost with huntouched | ⟨left, response, hasked⟩
    · rw [heard_untouched huntouched, Response.read] at hread
      cases hread
    obtain ⟨rfl, hwhole, hrest⟩ := heard_said hasked hknown hheard
    cases other with
    | ok =>
      have hserved := hasked.said.serves.mp rfl
      obtain ⟨s, hs⟩ := Option.isSome_iff_exists.mp hserved
      exact .served s left rest hasked hs hrest hdialed
    | refused refusal =>
      have hunserved : e.outcome.serve = none := by
        cases hserve : e.outcome.serve with
        | none => rfl
        | some s => cases hasked.said.serves.mpr (by rw [hserve]; rfl)
      exact .refused refusal left hasked hunserved hwhole hdialed

/-- Both directions came through whole, and no deadline fired. -/
structure Whole (e : Exchange D α) : Prop where
  input : e.dial.input = some e.dialed.octets
  heard : e.heard = e.outcome.octets ++ e.payload
  inTime : e.dial.deadlineFires = none

/-- With nothing cut, the dialer hears all there is. -/
theorem agreed_whole (hwhole : e.Whole) (hcovered : ¬ e.request.Exposed e.security) (hfits : e.request.Fits) :
    (∃ s, e.outcome.serve = some s ∧ e.dialed = ⟨1, e.request.frame ++ e.path.payload,
      if e.path.keeps then some e.payload else none, e.path.onOk⟩) ∨
    ∃ refusal, e.outcome.serve = none ∧ e.outcome.octets = (Response.refused refusal).frame ∧
      e.dialed = ⟨1, e.request.frame, none, .error (e.path.onRefused refusal)⟩ := by
  have hasked : ∃ left response, e.Asked left response := by
    obtain ⟨left, hleft⟩ : e.request.frame <+: e.dialed.octets := by
      rw [dialed_heard hcovered hfits]
      split
      · exact List.prefix_rfl
      · exact List.prefix_rfl
      · exact List.prefix_append _ _
    have hinput := hwhole.input
    rw [← hleft] at hinput
    have hprefix : left <+: e.path.payload := by
      have hbegins := dialed_octets hcovered hfits
      rw [← hleft] at hbegins
      exact (List.prefix_append_right_inj _).mp hbegins
    exact ⟨left, outcome_asked hcovered hfits hinput hprefix⟩
  obtain ⟨left, response, hasked⟩ := hasked
  have hheard : e.heard = response.frame ++ e.payload := by
    rw [hwhole.heard, hasked.said.whole hwhole.inTime]
  have hread := Response.read_exact.reads hasked.said.known e.payload
  rw [← hheard] at hread
  have hdialed := dialed_heard hcovered hfits
  rw [hread] at hdialed
  cases response with
  | ok =>
    obtain ⟨s, hs⟩ := Option.isSome_iff_exists.mp (hasked.said.serves.mp rfl)
    exact .inl ⟨s, hs, hdialed⟩
  | refused refusal =>
    refine .inr ⟨refusal, ?_, hasked.said.whole hwhole.inTime, hdialed⟩
    cases hserve : e.outcome.serve with
    | none => rfl
    | some s => cases hasked.said.serves.mpr (by rw [hserve]; rfl)

end Exchange

/-- Whatever the stream carries of either end, the two ends agree: a dialer is admitted only where the host
serves its own request, and told of no refusal but the one the host wrote; a host acts on no request but one
the dialer put there whole. With nothing cut, the dialer always learns which it was. -/
theorem handshake_agreement (e : Exchange D α) :
    e.Agreed ∧ (e.outcome = e.untouched ∨ ∃ left response, e.Asked left response) ∧
    (e.Whole → ¬ e.request.Exposed e.security → e.request.Fits →
      (∃ s, e.outcome.serve = some s ∧ e.dialed = ⟨1, e.request.frame ++ e.path.payload,
        if e.path.keeps then some e.payload else none, e.path.onOk⟩) ∨
      ∃ refusal, e.outcome.serve = none ∧ e.outcome.octets = (Response.refused refusal).frame ∧
        e.dialed = ⟨1, e.request.frame, none, .error (e.path.onRefused refusal)⟩) :=
  ⟨e.agreed, e.host_cases, Exchange.agreed_whole⟩

/-- A badge for `web`, at a host that serves it and writes back the one octet it was sent. -/
def Exchange.member : Exchange (Deps.small (Vector.replicate 32 0)) Unit where
  path := ⟨.Write, .Io, fun refusal => .Bifrost (.Refused refusal), true, [7], .ok ()⟩
  request := ⟨"web", some "badge", none⟩
  security := ⟨.Proven⟩
  serving := ⟨.rooted (Vector.replicate 32 0), ∅, ∅,
    ⟨AList.singleton "web" ⟨.Handler (.bound .Never .Metered), .Family⟩⟩, fun _ _ => true, none⟩
  dial := ⟨some (Request.frame ⟨"web", some "badge", none⟩ ++ [7]), [], 0, ⟨0⟩, fun _ _ => .ok .Stream, none⟩
  pools := Pools.new
  session := ⟨false⟩
  peer := ⟨⟨.Ed25519, Vector.replicate 32 7⟩, ⟨.Proven⟩⟩
  chains := none
  heard := [0, 7]
  payload := [7]
  reaches := fun _ h => Option.some.inj h ▸ List.prefix_rfl
  answers := List.prefix_rfl
  follows := fun _ => ⟨rfl, rfl⟩

theorem handshake_agreement_member :
    (∃ s, Exchange.member.outcome.serve = some s) ∧ Exchange.member.dialed =
      ⟨1, Request.frame ⟨"web", some "badge", none⟩ ++ [7], some [7], .ok ()⟩ := by
  have hcovered : ¬ Exchange.member.request.Exposed Exchange.member.security := fun h => nomatch h.2
  have hfits : Exchange.member.request.Fits := by
    refine ⟨show (utf8 "web").length ≤ 65535 by decide, ?_, ?_⟩
    · intro text htext
      cases htext
      exact show (utf8 "badge").length ≤ 65535 by decide
    · intro text htext
      cases htext
  rcases (handshake_agreement Exchange.member).2.2 ⟨rfl, rfl, rfl⟩ hcovered hfits with
    ⟨s, hserve, hdialed⟩ | ⟨refusal, hserve, -⟩
  · exact ⟨⟨s, hserve⟩, hdialed⟩
  · cases hserve

/-- A badge for `web`, at a host that serves nothing. -/
def Exchange.badge : Exchange (Deps.small (Vector.replicate 32 0)) Unit where
  path := ⟨.Write, .Io, fun refusal => .Bifrost (.Refused refusal), true, [7], .ok ()⟩
  request := ⟨"web", some "badge", none⟩
  security := ⟨.Proven⟩
  serving := ⟨.rooted (Vector.replicate 32 0), ∅, ∅, ⟨∅⟩, fun _ _ => true, none⟩
  dial := ⟨some (Request.frame ⟨"web", some "badge", none⟩), [], 0, ⟨0⟩, fun _ _ => .ok .Stream, none⟩
  pools := Pools.new
  session := ⟨false⟩
  peer := ⟨⟨.Ed25519, Vector.replicate 32 7⟩, ⟨.Proven⟩⟩
  chains := none
  heard := [1, 0]
  payload := []
  reaches := fun _ h => Option.some.inj h ▸ List.prefix_rfl
  answers := List.prefix_rfl
  follows := fun h => absurd rfl h

example : Exchange.badge.Whole ∧ Exchange.badge.dialed.result = .error (.Bifrost (.Refused .notAdmitted)) :=
  ⟨⟨rfl, rfl, rfl⟩, rfl⟩

end Tightbeam
