import Tightbeam.Admit
import Tightbeam.ResponseExact

/-!
# What the host says before the gate

The published table: one row for each thing the octets of a stream can be, and the one answer each row
has. A row says nothing about how the frame is read, so it holds of the octets as a peer sends them.
-/
namespace Tightbeam

open Octets Octets.Reader

variable {D : Deps}

/-- Octets that are no length-prefixed text. -/
inductive BadText : List UInt8 → Prop where
  | headless {s : List UInt8} (h : s.length < 2) : BadText s
  | short {len : Nat} {s : List UInt8} (hlen : len ≤ 65535) (h : s.length < len) : BadText (beU16 len ++ s)
  | invalid {bytes s : List UInt8} (hlen : bytes.length ≤ 65535) (h : ∀ text, utf8 text ≠ bytes) :
      BadText (beU16 bytes.length ++ bytes ++ s)

/-- Octets that are no credential slot. -/
inductive BadSlot : List UInt8 → Prop where
  | headless : BadSlot []
  | presence {b : UInt8} {s : List UInt8} (h0 : b ≠ 0) (h1 : b ≠ 1) : BadSlot (b :: s)
  | text {s : List UInt8} (h : BadText s) : BadSlot (1 :: s)

/-- Octets that are no request body, by the first field at fault. -/
inductive BadBody : List UInt8 → Prop where
  | service {s : List UInt8} (h : BadText s) : BadBody s
  | capability {service : String} {s : List UInt8} (hs : textFits service) (h : BadSlot s) :
      BadBody (strFrame service ++ s)
  | membership {service : String} {capability : Option String} {s : List UInt8} (hs : textFits service)
      (hc : optFits capability) (h : BadSlot s) : BadBody (strFrame service ++ (optFrame capability ++ s))

theorem fails_readStr (s : List UInt8) : readStr.Fails s ↔ BadText s := by
  simp only [readStr, fails_bind, fails_readU16, fails_exactly, run_exactly_ok]
  constructor
  · rintro (h | ⟨len, mid, hlen, h⟩)
    · exact .headless h
    · obtain ⟨hle, rfl⟩ := (readU16_exact _ _ _ _).mp hlen
      obtain h | ⟨bytes, rest, ⟨rfl, rfl⟩, h⟩ := h
      · exact .short hle h
      · cases hu : fromUtf8? bytes with
        | some text => simp [hu] at h
        | none =>
          rw [← List.append_assoc]
          refine .invalid hle fun text htext => ?_
          simp [(fromUtf8?_eq_some _ _).mpr htext] at hu
  · intro h
    cases h with
    | headless h => exact .inl h
    | short hlen h => exact .inr ⟨_, _, (readU16_exact _).reads hlen _, .inl h⟩
    | @invalid bytes rest hlen h =>
      rw [List.append_assoc]
      refine .inr ⟨bytes.length, bytes ++ rest, (readU16_exact _).reads hlen _,
        .inr ⟨bytes, rest, ⟨rfl, rfl⟩, ?_⟩⟩
      cases hu : fromUtf8? bytes with
      | none => simp
      | some text => exact absurd ((fromUtf8?_eq_some _ _).mp hu) (h text)

theorem fails_readOpt (s : List UInt8) : readOpt.Fails s ↔ BadSlot s := by
  simp only [readOpt, fails_bind, fails_octet, run_octet_ok]
  constructor
  · rintro (rfl | ⟨present, mid, rfl, h⟩)
    · exact .headless
    · by_cases h0 : present = 0
      · simp [h0] at h
      · by_cases h1 : present = 1
        · subst h1
          simp only [show (1 : UInt8) ≠ 0 by decide, ↓reduceIte, fails_bind, fails_pure, and_false,
            exists_false, or_false] at h
          exact .text ((fails_readStr _).mp h)
        · exact .presence h0 h1
  · intro h
    cases h with
    | headless => exact .inl rfl
    | presence h0 h1 => exact .inr ⟨_, _, rfl, by simp [h0, h1]⟩
    | text h =>
      refine .inr ⟨1, _, rfl, ?_⟩
      simp only [show (1 : UInt8) ≠ 0 by decide, ↓reduceIte, fails_bind, fails_pure, and_false,
        exists_false, or_false]
      exact (fails_readStr _).mpr h

/-- The fields of a request, once its preamble is read. -/
def readBody : Reader RequestReadError Request := do
  let service ← Reader.mapError .io readStr
  let capability ← Reader.mapError .io readOpt
  let membership ← Reader.mapError .io readOpt
  pure ⟨service, capability, membership⟩

theorem fails_readBody (s : List UInt8) : readBody.Fails s ↔ BadBody s := by
  simp only [readBody, fails_bind, fails_mapError, run_mapError_ok, fails_readStr, fails_readOpt,
    fails_pure, and_false, exists_false, or_false]
  constructor
  · rintro (h | ⟨service, mid, hs, h | ⟨capability, mid', hc, h⟩⟩)
    · exact .service h
    · obtain ⟨fits, rfl⟩ := (readStr_exact _ _ _).mp hs
      exact .capability fits h
    · obtain ⟨fits, rfl⟩ := (readStr_exact _ _ _).mp hs
      obtain ⟨fitc, rfl⟩ := (readOpt_exact _ _ _).mp hc
      exact .membership fits fitc h
  · intro h
    cases h with
    | service h => exact .inl h
    | capability hs h => exact .inr ⟨_, _, readStr_exact.reads hs _, .inl h⟩
    | membership hs hc h =>
      exact .inr ⟨_, _, readStr_exact.reads hs _, .inr ⟨_, _, readOpt_exact.reads hc _, h⟩⟩

/-- A field that fails says so as an i/o error, which no peer is answered. -/
theorem readBody_error (s : List UInt8) (e : RequestReadError) (h : (readBody.run s).1 = .error e) :
    ∃ cause, e = .io cause := by
  simp only [readBody, bind_error, mapError_error] at h
  obtain ⟨cause, _, rfl⟩ | ⟨_, _, _, ⟨cause, _, rfl⟩ | ⟨_, _, _, ⟨cause, _, rfl⟩ | ⟨_, _, _, h⟩⟩⟩ := h
  · exact ⟨cause, rfl⟩
  · exact ⟨cause, rfl⟩
  · exact ⟨cause, rfl⟩
  · cases h

/-- The maximal leading run of capitals of the first four octets. -/
def identityRun (input : List UInt8) : List UInt8 := (input.take 4).takeWhile isAsciiUppercase

theorem short_or_head (input : List UInt8) :
    input.length < 4 ∨ ∃ a b c d rest, input = a :: b :: c :: d :: rest := by
  match input with
  | [] => exact .inl (by decide)
  | [_] => exact .inl (by simp)
  | [_, _] => exact .inl (by simp)
  | [_, _, _] => exact .inl (by simp)
  | a :: b :: c :: d :: rest => exact .inr ⟨a, b, c, d, rest, rfl⟩

/-- The run is exactly the identity when the third octet ends it. -/
theorem identityRun_eq (a b c d : UInt8) (rest : List UInt8) :
    identityRun (a :: b :: c :: d :: rest) = identity ↔
      [a, b] = identity ∧ isAsciiUppercase c = false := by
  change [a, b, c, d].takeWhile isAsciiUppercase = identity ↔ _
  constructor
  · intro h
    have hbegins : identity <+: [a, b, c, d] := h ▸ List.takeWhile_prefix _
    obtain ⟨tail, htail⟩ := hbegins
    simp only [identity, List.cons_append, List.nil_append, List.cons.injEq] at htail
    obtain ⟨rfl, rfl, _⟩ := htail
    refine ⟨rfl, ?_⟩
    by_contra hc
    rw [Bool.not_eq_false] at hc
    rw [List.takeWhile_cons_of_pos (by decide), List.takeWhile_cons_of_pos (by decide),
      List.takeWhile_cons_of_pos hc] at h
    simp [identity] at h
  · rintro ⟨hid, hc⟩
    simp only [identity, List.cons.injEq, and_true] at hid
    obtain ⟨rfl, rfl⟩ := hid
    have hstop : ¬ isAsciiUppercase c = true := by simp [hc]
    rw [List.takeWhile_cons_of_pos (by decide), List.takeWhile_cons_of_pos (by decide),
      List.takeWhile_cons_of_neg hstop]
    rfl

namespace Request

theorem read_head (a b : UInt8) (s : List UInt8) :
    Request.read.run (a :: b :: s) =
      if [a, b] ≠ identity then (.error .foreign, s)
      else (do
        let peer ← WireVersion.read
        if peer ≠ version then Reader.fail (.version peer) else readBody : Reader _ _).run s := by
  have hexact : (Reader.exactly (RequestReadError.io .unexpectedEof) identity.length).run (a :: b :: s) =
      (.ok [a, b], s) :=
    (run_exactly_ok _ _ _ _ _).mpr ⟨rfl, rfl⟩
  rw [Request.read, run_bind, hexact]
  by_cases h : [a, b] = identity
  · simp only [h, ne_eq, not_true_eq_false, ↓reduceIte]
    rfl
  · simp [h]

theorem read_foreign (a b c d : UInt8) (rest : List UInt8)
    (h : identityRun (a :: b :: c :: d :: rest) ≠ identity) :
    (Request.read.run (a :: b :: c :: d :: rest)).1 = .error .foreign := by
  rw [read_head]
  by_cases hid : [a, b] = identity
  · have hc : isAsciiUppercase c = true := by
      by_contra hc
      exact h ((identityRun_eq _ _ _ _ _).mpr ⟨hid, by simpa using hc⟩)
    have hexact : (Reader.exactly (RequestReadError.io .unexpectedEof) 2).run (c :: d :: rest) =
        (.ok [c, d], rest) :=
      (run_exactly_ok _ _ _ _ _).mpr ⟨rfl, rfl⟩
    simp [hid, run_bind, WireVersion.read, hexact, hc]
  · simp [hid]

/-- Fewer than four octets are either foreign already or no whole preamble. -/
theorem read_short (input : List UInt8) (h : input.length < 4) :
    (Request.read.run input).1 = .error .foreign ∨
      ∃ cause, (Request.read.run input).1 = .error (.io cause) := by
  match input with
  | [] => exact .inr ⟨.unexpectedEof, rfl⟩
  | [a] => exact .inr ⟨.unexpectedEof, rfl⟩
  | a :: b :: s =>
    rw [read_head]
    by_cases hid : [a, b] = identity
    · have hs : s.length < 2 := by simp only [List.length_cons] at h; omega
      have hexact : (Reader.exactly (RequestReadError.io .unexpectedEof) 2).run s =
          (.error (.io .unexpectedEof), []) := by
        change (if 2 ≤ s.length then _ else _) = _
        exact if_neg (by omega)
      exact .inr ⟨.unexpectedEof, by simp [hid, run_bind, WireVersion.read, hexact]⟩
    · exact .inl (by simp [hid])

/-- Once the identity run ends, the version half is the next two octets, whatever they are. -/
theorem read_after_identity (peer : WireVersion) (rest : List UInt8)
    (h : isAsciiUppercase peer.first = false) :
    Request.read.run (identity ++ peer.asBytes ++ rest) =
      if peer ≠ version then (.error (.version peer), rest) else readBody.run rest := by
  have hread := (WireVersion.read_ok (peer.asBytes ++ rest) rest peer).mpr ⟨h, rfl⟩
  change Request.read.run (0x54 :: 0x42 :: (peer.asBytes ++ rest)) = _
  rw [read_head]
  simp only [show ([0x54, 0x42] : List UInt8) = identity from rfl, ne_eq, not_true_eq_false, ↓reduceIte,
    run_bind, hread]
  by_cases hv : peer = version
  · simp [hv]
  · simp [hv]

end Request

/-- What a stream's octets come to before the gate. -/
inductive Row (D : Deps) where
  | silent
  | otherVersion (peer : WireVersion)
  | misnamed (request : Request)
  | named (request : Request) (requested : D.Service)

/-- The published table, read off the octets alone. -/
inductive Table (D : Deps) : List UInt8 → Row D → Prop where
  | short {input : List UInt8} (h : input.length < 4) : Table D input .silent
  | foreign {input : List UInt8} (h : identityRun input ≠ identity) : Table D input .silent
  | body {body : List UInt8} (h : BadBody body) : Table D (identity ++ version.asBytes ++ body) .silent
  | otherVersion {peer : WireVersion} {rest : List UInt8}
      (hrun : identityRun (identity ++ peer.asBytes ++ rest) = identity) (h : peer ≠ version) :
      Table D (identity ++ peer.asBytes ++ rest) (.otherVersion peer)
  | misnamed {request : Request} {rest : List UInt8} (hfits : request.Fits)
      (h : ¬ D.validName request.service) : Table D (request.frame ++ rest) (.misnamed request)
  | named {request : Request} {rest : List UInt8} {requested : D.Service} (hfits : request.Fits)
      (h : request.service = requested.val) : Table D (request.frame ++ rest) (.named request requested)

/-- The same by the code's own reader. -/
def Row.read (D : Deps) (input : List UInt8) : Row D :=
  match (Request.read.run input).1 with
  | .error (.version peer) => .otherVersion peer
  | .error _ => .silent
  | .ok request => match parseService D request.service with
    | .error _ => .misnamed request
    | .ok requested => .named request requested

theorem Row.read_silent {input : List UInt8}
    (h : (Request.read.run input).1 = .error .foreign ∨
      ∃ cause, (Request.read.run input).1 = .error (.io cause)) : Row.read D input = .silent := by
  obtain h | ⟨cause, h⟩ := h
  · simp [Row.read, h]
  · simp [Row.read, h]

theorem Row.read_body {body : List UInt8} (h : BadBody body) :
    Row.read D (identity ++ version.asBytes ++ body) = .silent := by
  have hread := Request.read_after_identity version body (by decide)
  obtain ⟨e, he⟩ := (fails_readBody body).mpr h
  obtain ⟨cause, rfl⟩ := readBody_error body e he
  refine Row.read_silent (.inr ⟨cause, ?_⟩)
  rw [hread]
  simpa using he

theorem Table.row {input : List UInt8} {row : Row D} (h : Table D input row) :
    Row.read D input = row := by
  cases h with
  | short h => exact Row.read_silent (Request.read_short input h)
  | foreign h =>
    obtain hlen | ⟨a, b, c, d, rest, rfl⟩ := short_or_head input
    · exact Row.read_silent (Request.read_short input hlen)
    · exact Row.read_silent (.inl (Request.read_foreign _ _ _ _ _ h))
  | body h => exact Row.read_body h
  | @otherVersion peer rest hrun h =>
    have hfirst := ((identityRun_eq _ _ _ _ _).mp hrun).2
    have hread := Request.read_after_identity peer rest hfirst
    rw [if_pos h] at hread
    simp only [Row.read, hread]
  | @misnamed request rest hfits h =>
    have hread := Request.read_exact.reads hfits rest
    simp [Row.read, hread, parseService, h]
  | @named request rest requested hfits h =>
    have hread := Request.read_exact.reads hfits rest
    simp [Row.read, hread, h]

/-- Every finite string of octets has a row. -/
theorem Table.total (D : Deps) (input : List UInt8) : ∃ row, Table D input row := by
  obtain hlen | ⟨a, b, c, d, rest, rfl⟩ := short_or_head input
  · exact ⟨_, .short hlen⟩
  by_cases hrun : identityRun (a :: b :: c :: d :: rest) = identity
  swap
  · exact ⟨_, .foreign hrun⟩
  obtain ⟨hid, hfirst⟩ := (identityRun_eq _ _ _ _ _).mp hrun
  simp only [identity, List.cons.injEq, and_true] at hid
  obtain ⟨rfl, rfl⟩ := hid
  by_cases hv : (⟨c, d⟩ : WireVersion) = version
  swap
  · exact ⟨.otherVersion ⟨c, d⟩, .otherVersion hrun hv⟩
  have hread := Request.read_after_identity ⟨c, d⟩ rest hfirst
  rw [hv] at hread
  simp only [ne_eq, not_true_eq_false, ↓reduceIte] at hread
  have hversion : 0x54 :: 0x42 :: c :: d :: rest = identity ++ version.asBytes ++ rest := by
    rw [← hv]
    rfl
  rw [hversion]
  rcases hbody : readBody.run rest with ⟨res, left⟩
  cases res with
  | error e => exact ⟨_, .body ((fails_readBody rest).mp ⟨e, by rw [hbody]⟩)⟩
  | ok request =>
    rw [hbody] at hread
    obtain ⟨hfits, hframe⟩ := (Request.read_exact _ _ _).mp hread
    rw [hframe]
    by_cases hname : D.validName request.service
    · exact ⟨.named request ⟨request.service, hname⟩, .named hfits rfl⟩
    · exact ⟨_, .misnamed hfits hname⟩

/-- A stream from the parsed name on: what is left of it once nothing of its frame can be refused. -/
def serveNamed (serving : Serving D) (dial : Dial D) (pools : Pools) (session : PublicSession)
    (peer : SessionPeer) (chains : Option (AdmittedChains D)) (request : Request)
    (requested : D.Service) : Outcome D :=
  let service := serving.services.resolveSingleService requested
  let ruling := admitRequest serving dial.moment dial.now pools session peer request.capability
    request.membership service
  match ruling.result with
  | .error refusal =>
    ⟨answer (.refused (wireRefusal refusal)), none, none, ruling.pools, ruling.session, chains⟩
  | .ok admitted => match dispatch serving dial peer chains service admitted with
    | .error refusal =>
      ⟨underDeadline dial admitted (answer (.refused refusal)), none, some admitted, ruling.pools,
        ruling.session, chains⟩
    | .ok (serve, chains) =>
      ⟨underDeadline dial admitted (answer .ok), some serve, some admitted, ruling.pools,
        ruling.session, chains⟩

/-- What the host writes before the gate, if anything. -/
def Row.response : Row D → Option Response
  | .silent => none
  | .otherVersion peer => some (.refused (.badRequest (D.bounded (RequestReadError.version peer).display)))
  | .misnamed request =>
    some (.refused (.badRequest (D.bounded ("invalid service name " ++ D.debugText request.service))))
  | .named _ _ => none

theorem serveRequest_row (serving : Serving D) (dial : Dial D) (pools : Pools) (session : PublicSession)
    (peer : SessionPeer) (chains : Option (AdmittedChains D)) (input : List UInt8)
    (harrived : dial.input = some input) :
    serveRequest serving dial pools session peer chains =
      match Row.read D input with
      | .named request requested =>
        serveNamed serving dial pools session peer chains request requested
      | row => ⟨(row.response.map answer).getD [], none, none, pools, session, chains⟩ := by
  unfold serveRequest Row.read
  simp only [harrived]
  cases (Request.read.run input).1 with
  | error e =>
    cases e with
    | foreign => rfl
    | version peer => rfl
    | io cause => rfl
  | ok request =>
    cases hparse : parseService D request.service with
    | error e => simp [hparse, Row.response]
    | ok requested =>
      simp only [hparse]
      rfl

theorem escapeAscii_length_le (b : UInt8) : (utf8 (escapeAscii b)).length ≤ 10 := by
  have hone : (utf8 (String.ofList [Char.ofNat b.toNat])).length ≤ 4 := utf8_ofList_length_le _
  have htwo : (utf8 (hexDigits b)).length ≤ 8 := utf8_ofList_length_le _
  have hx : (utf8 "\\x").length = 2 := by decide
  unfold escapeAscii
  split_ifs
  all_goals first
    | decide
    | omega
    | (rw [utf8_append, List.length_append]; omega)

theorem WireVersion.display_length_le (v : WireVersion) : (utf8 v.display).length ≤ 40 := by
  have h0 := escapeAscii_length_le 0x54
  have h1 := escapeAscii_length_le 0x42
  have h2 := escapeAscii_length_le v.first
  have h3 := escapeAscii_length_le v.second
  simp only [display, identity, asBytes, List.cons_append, List.nil_append, List.map_cons, List.map_nil,
    String.join_cons, String.join_nil, utf8_append, List.length_append]
  have hnil : (utf8 "").length = 0 := by decide
  omega

/-- The version answer is never long enough to be cut. -/
theorem RequestReadError.display_length_le (peer : WireVersion) :
    (utf8 (RequestReadError.version peer).display).length ≤ 1024 := by
  have hpeer := peer.display_length_le
  have hown := Tightbeam.version.display_length_le
  have h0 : (utf8 "tightbeam wire version mismatch: the request is ").length = 48 := by decide +kernel
  have h1 : (utf8 ", this host speaks ").length = 19 := by decide +kernel
  have h2 : (utf8 "; run the same release at both ends").length = 35 := by decide +kernel
  have hparts : ∀ a b c d e : String,
      (utf8 a).length + (utf8 b).length + (utf8 c).length + (utf8 d).length + (utf8 e).length ≤ 1024 →
      (utf8 (a ++ b ++ c ++ d ++ e)).length ≤ 1024 := by
    intro a b c d e h
    simpa only [utf8_append, List.length_append] using h
  exact hparts _ _ _ _ _ (by omega)

/-- One frame, whole, and nothing of the host behind it. -/
structure Told (out : Outcome D) (pools : Pools) (session : PublicSession)
    (chains : Option (AdmittedChains D)) (detail : RefusalDetail) : Prop where
  outcome : out = ⟨answer (.refused (.badRequest detail)), none, none, pools, session, chains⟩
  decodes : Response.read.run out.octets = (.ok (.refused (.badRequest detail)), [])
  short : out.octets.length ≤ 1028

theorem Told.of_outcome {out : Outcome D} {pools : Pools} {session : PublicSession}
    {chains : Option (AdmittedChains D)} {detail : RefusalDetail}
    (h : out = ⟨answer (.refused (.badRequest detail)), none, none, pools, session, chains⟩) :
    Told out pools session chains detail := by
  have hframe : answer (.refused (.badRequest detail)) =
      (Response.refused (.badRequest detail)).frame :=
    (Response.write_wrote (.refused (.badRequest detail)) trivial).octets
  have hknown : (Response.refused (.badRequest detail)).Known := trivial
  have hread := Response.read_exact.reads hknown []
  rw [List.append_nil] at hread
  refine ⟨h, ?_, ?_⟩
  · rw [h]
    change Response.read.run (answer (.refused (.badRequest detail))) = _
    rw [hframe]
    exact hread
  · rw [h]
    change (answer (.refused (.badRequest detail))).length ≤ 1028
    rw [hframe]
    exact Response.frame_length_le _

/-- Every finite stream has one row of the table, and the host's answer before the gate is that row's:
silence, one frame that names both versions, one frame for a name outside the grammar, or nothing and
the decoded fields handed on. `hwhole` is that a text within the cap is bounded to itself. -/
theorem pre_gate_table (hwhole : ∀ text, (utf8 text).length ≤ 1024 → (D.bounded text).text = text)
    (serving : Serving D) (dial : Dial D) (pools : Pools) (session : PublicSession) (peer : SessionPeer)
    (chains : Option (AdmittedChains D)) (input : List UInt8) (harrived : dial.input = some input) :
    (∃! row, Table D input row) ∧
    ∀ row, Table D input row →
      match row with
      | .silent => serveRequest serving dial pools session peer chains =
          ⟨[], none, none, pools, session, chains⟩
      | .otherVersion other => ∃ detail,
          Told (serveRequest serving dial pools session peer chains) pools session chains detail ∧
          detail.text = "tightbeam wire version mismatch: the request is " ++ other.display ++
            ", this host speaks " ++ version.display ++ "; run the same release at both ends"
      | .misnamed _ => ∃ detail,
          Told (serveRequest serving dial pools session peer chains) pools session chains detail
      | .named request requested => serveRequest serving dial pools session peer chains =
          serveNamed serving dial pools session peer chains request requested := by
  constructor
  · obtain ⟨row, hrow⟩ := Table.total D input
    exact ⟨row, hrow, fun other hother => hother.row.symm.trans hrow.row⟩
  · intro row hrow
    have hout := serveRequest_row serving dial pools session peer chains input harrived
    rw [hrow.row] at hout
    cases row with
    | silent => exact hout
    | otherVersion other => exact ⟨_, .of_outcome hout, hwhole _ (RequestReadError.display_length_le other)⟩
    | misnamed request => exact ⟨_, .of_outcome hout⟩
    | named request requested => exact hout

theorem pre_gate_table_next_release :
    let D := Deps.small (Vector.replicate 32 0)
    let serving : Serving D := ⟨.rooted (Vector.replicate 32 0), ∅, ∅, ⟨∅⟩, fun _ _ => true, none⟩
    let dial : Dial D := ⟨some [0x54, 0x42, 0x30, 0x35], [], 0, ⟨0⟩, fun _ _ => .ok .Stream, none⟩
    let peer : SessionPeer := ⟨⟨.Ed25519, Vector.replicate 32 7⟩, ⟨.Proven⟩⟩
    ∃ detail, Told (serveRequest serving dial Pools.new ⟨false⟩ peer none) Pools.new ⟨false⟩ none detail ∧
      detail.text = "tightbeam wire version mismatch: the request is TB05, this host speaks TB04; " ++
        "run the same release at both ends" := by
  intro D serving dial peer
  have hwhole : ∀ text, (utf8 text).length ≤ 1024 → (D.bounded text).text = text := by
    intro text h
    simp [D, Deps.small, h]
  have hrow : Table D [0x54, 0x42, 0x30, 0x35] (.otherVersion ⟨0x30, 0x35⟩) :=
    @Table.otherVersion D ⟨0x30, 0x35⟩ [] (by decide) (by decide)
  obtain ⟨detail, htold, htext⟩ :=
    (pre_gate_table hwhole serving dial Pools.new ⟨false⟩ peer none _ rfl).2 _ hrow
  exact ⟨detail, htold, htext.trans (by decide +kernel)⟩

end Tightbeam
