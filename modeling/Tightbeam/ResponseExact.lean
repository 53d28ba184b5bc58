import Tightbeam.ProtocolExact

/-!
# The response frame is exact

Like the request frame, a response is read from one encoding only, and the read stops where the frame
does: the payload of a served stream begins at the very next octet. Every other beginning fails, and
says why.
-/
namespace Tightbeam

open Octets Octets.Reader

def detailFrame (detail : RefusalDetail) : List UInt8 := strFrame detail.text

theorem RefusalDetail.fits (detail : RefusalDetail) : textFits detail.text :=
  le_trans detail.bounded (by decide)

theorem writeDetail_wrote (detail : RefusalDetail) :
    Sink.Wrote (writeDetail detail) (detailFrame detail) := by
  have hfits : (utf8 detail.text).length ≤ 65535 := detail.fits
  simp only [writeDetail, if_pos hfits]
  exact (Sink.wrote_all _).bind (Sink.wrote_all _)

/-- Only octets that spell a text of at most 1024 octets are a detail. -/
theorem RefusalDetail.tryFrom_eq_some (bytes : List UInt8) (detail : RefusalDetail) :
    RefusalDetail.tryFrom bytes = some detail ↔ utf8 detail.text = bytes := by
  unfold RefusalDetail.tryFrom
  constructor
  · intro h
    cases hu : fromUtf8? bytes with
    | none => simp [hu] at h
    | some text =>
      simp only [hu, Option.dite_none_right_eq_some, Option.some.injEq] at h
      obtain ⟨_, rfl⟩ := h
      exact (fromUtf8?_eq_some _ _).mp hu
  · intro h
    have hu : fromUtf8? bytes = some detail.text := (fromUtf8?_eq_some _ _).mpr h
    simp [hu, detail.bounded]

theorem readDetail_exact : Exact readDetail (fun _ => True) detailFrame := by
  intro s detail rest
  simp only [readDetail, run_bind_ok, true_and]
  constructor
  · rintro ⟨len, mid, hlen, h⟩
    obtain ⟨_, rfl⟩ := (readU16_exact _ _ _ _).mp hlen
    by_cases hcap : RefusalDetail.maxLen < len
    · simp [hcap] at h
    · simp only [hcap, ↓reduceIte, run_bind_ok, run_exactly_ok] at h
      obtain ⟨bytes, mid', ⟨hbytes, rfl⟩, h⟩ := h
      cases ht : RefusalDetail.tryFrom bytes with
      | none => simp [ht] at h
      | some found =>
        simp only [ht, run_pure_ok] at h
        obtain ⟨rfl, rfl⟩ := h
        have hutf := (RefusalDetail.tryFrom_eq_some _ _).mp ht
        subst hutf
        simp [detailFrame, strFrame, hbytes]
  · rintro rfl
    have hcap : ¬ RefusalDetail.maxLen < (utf8 detail.text).length := Nat.not_lt.mpr detail.bounded
    have ht := (RefusalDetail.tryFrom_eq_some (utf8 detail.text) detail).mpr rfl
    refine ⟨(utf8 detail.text).length, utf8 detail.text ++ rest, ?_, ?_⟩
    · rw [detailFrame, strFrame, List.append_assoc]
      exact (readU16_exact _).reads detail.fits _
    · simp only [hcap, ↓reduceIte, run_bind_ok, run_exactly_ok]
      exact ⟨_, rest, ⟨rfl, rfl⟩, by simp [ht]⟩

namespace Response

/-- The classes this build has a code for. -/
def Known : Response → Prop
  | .refused (.unnamed _) => False
  | _ => True

def frame : Response → List UInt8
  | .ok => [0]
  | .refused .notAdmitted => [1, 0]
  | .refused (.badRequest detail) => [1, 1] ++ detailFrame detail
  | .refused (.unavailable detail) => [1, 2] ++ detailFrame detail
  | .refused (.unnamed _) => []

theorem write_wrote (r : Response) (h : r.Known) : Sink.Wrote r.write r.frame := by
  match r with
  | .ok => exact Sink.wrote_all _
  | .refused .notAdmitted => exact (Sink.wrote_all [1, 0]).bind (Sink.wrote_all [])
  | .refused (.badRequest detail) => exact (Sink.wrote_all [1, 1]).bind (writeDetail_wrote detail)
  | .refused (.unavailable detail) => exact (Sink.wrote_all [1, 2]).bind (writeDetail_wrote detail)
  | .refused (.unnamed _) => exact h.elim

theorem frame_length_le (r : Response) : r.frame.length ≤ 1028 := by
  have hdetail : ∀ detail : RefusalDetail, (detailFrame detail).length ≤ 1026 := by
    intro detail
    have hb := detail.bounded
    simp only [detailFrame, strFrame, List.length_append, beU16_length]
    omega
  cases r with
  | ok => decide
  | refused refusal =>
    cases refusal with
    | notAdmitted => decide
    | badRequest detail =>
      have h := hdetail detail
      simp only [frame, List.length_append, List.length_cons, List.length_nil]
      omega
    | unavailable detail =>
      have h := hdetail detail
      simp only [frame, List.length_append, List.length_cons, List.length_nil]
      omega
    | unnamed text => exact Nat.zero_le _

theorem read_exact : Exact Response.read Response.Known Response.frame := by
  intro s r rest
  simp only [Response.read, run_bind_ok, run_octet_ok]
  constructor
  · rintro ⟨tag, mid, rfl, h⟩
    by_cases h0 : tag = 0
    · simp only [h0, ↓reduceIte, run_pure_ok] at h
      obtain ⟨rfl, rfl⟩ := h
      exact ⟨trivial, by simp [frame, h0]⟩
    · by_cases h1 : tag = 1
      · subst h1
        simp only [show (1 : UInt8) ≠ 0 by decide, ↓reduceIte, run_bind_ok, run_octet_ok] at h
        obtain ⟨code, mid', rfl, h⟩ := h
        by_cases hc0 : code = 0
        · simp only [hc0, ↓reduceIte, run_pure_ok] at h
          obtain ⟨rfl, rfl⟩ := h
          exact ⟨trivial, by simp [frame, hc0]⟩
        · by_cases hc1 : code = 1
          · subst hc1
            simp only [show (1 : UInt8) ≠ 0 by decide, ↓reduceIte, run_bind_ok, run_pure_ok] at h
            obtain ⟨detail, mid₂, hd, rfl, rfl⟩ := h
            obtain ⟨_, rfl⟩ := (readDetail_exact _ _ _).mp hd
            exact ⟨trivial, by simp [frame]⟩
          · by_cases hc2 : code = 2
            · subst hc2
              simp only [show (2 : UInt8) ≠ 0 by decide, show (2 : UInt8) ≠ 1 by decide, ↓reduceIte,
                run_bind_ok, run_pure_ok] at h
              obtain ⟨detail, mid₂, hd, rfl, rfl⟩ := h
              obtain ⟨_, rfl⟩ := (readDetail_exact _ _ _).mp hd
              exact ⟨trivial, by simp [frame]⟩
            · simp [hc0, hc1, hc2] at h
      · simp [h0, h1] at h
  · rintro ⟨hknown, rfl⟩
    match r with
    | .ok => exact ⟨0, rest, rfl, by simp⟩
    | .refused .notAdmitted =>
      refine ⟨1, 0 :: rest, rfl, ?_⟩
      simp only [show (1 : UInt8) ≠ 0 by decide, ↓reduceIte, run_bind_ok, run_octet_ok]
      exact ⟨0, rest, rfl, by simp⟩
    | .refused (.badRequest detail) =>
      refine ⟨1, 1 :: (detailFrame detail ++ rest), rfl, ?_⟩
      simp only [show (1 : UInt8) ≠ 0 by decide, ↓reduceIte, run_bind_ok, run_octet_ok]
      refine ⟨1, _, rfl, ?_⟩
      simp only [show (1 : UInt8) ≠ 0 by decide, ↓reduceIte, run_bind_ok, run_pure_ok]
      exact ⟨detail, rest, readDetail_exact.reads trivial rest, rfl, rfl⟩
    | .refused (.unavailable detail) =>
      refine ⟨1, 2 :: (detailFrame detail ++ rest), rfl, ?_⟩
      simp only [show (1 : UInt8) ≠ 0 by decide, ↓reduceIte, run_bind_ok, run_octet_ok]
      refine ⟨2, _, rfl, ?_⟩
      simp only [show (2 : UInt8) ≠ 0 by decide, show (2 : UInt8) ≠ 1 by decide, ↓reduceIte,
        run_bind_ok, run_pure_ok]
      exact ⟨detail, rest, readDetail_exact.reads trivial rest, rfl, rfl⟩
    | .refused (.unnamed _) => exact hknown.elim

/-- Another tag than a success's or a refusal's. -/
theorem read_tag (tag : UInt8) (s : List UInt8) (h0 : tag ≠ 0) (h1 : tag ≠ 1) :
    Response.read.run (tag :: s) = (.error (.other ("unknown response tag " ++ hexOctet tag)), s) := by
  rw [Response.read, run_bind, run_octet_cons]
  simp [h0, h1]

theorem read_refused (code : UInt8) (s : List UInt8) :
    Response.read.run (1 :: code :: s) =
      (if code = 0 then pure (.refused .notAdmitted)
        else if code = 1 then readDetail >>= fun detail => pure (.refused (.badRequest detail))
        else if code = 2 then readDetail >>= fun detail => pure (.refused (.unavailable detail))
        else Reader.fail (.other ("unknown refusal code " ++ hexOctet code)) :
          Reader IoError Response).run s := by
  rw [Response.read, run_bind, run_octet_cons]
  rfl

theorem read_code (code : UInt8) (s : List UInt8) (h0 : code ≠ 0) (h1 : code ≠ 1) (h2 : code ≠ 2) :
    Response.read.run (1 :: code :: s) =
      (.error (.other ("unknown refusal code " ++ hexOctet code)), s) := by
  rw [read_refused]
  simp [h0, h1, h2]

/-- What a detail fails with, its refusal fails with, at the same place. -/
theorem read_detail (code : UInt8) (s rest : List UInt8) (e : IoError) (hcode : code = 1 ∨ code = 2)
    (h : readDetail.run s = (.error e, rest)) :
    Response.read.run (1 :: code :: s) = (.error e, rest) := by
  rw [read_refused]
  obtain rfl | rfl := hcode
  · simp [run_bind, h]
  · simp [run_bind, h]

end Response

theorem readDetail_over (len : Nat) (s : List UInt8) (hlen : len ≤ 65535) (hcap : 1024 < len) :
    readDetail.run (beU16 len ++ s) = (.error (.other "refusal detail too long"), s) := by
  have hread := (readU16_exact IoError.unexpectedEof).reads hlen s
  have hover : RefusalDetail.maxLen < len := hcap
  rw [readDetail, run_bind, hread]
  simp [hover]

theorem readDetail_invalid (bytes s : List UInt8) (hcap : bytes.length ≤ 1024)
    (hutf : ∀ text, utf8 text ≠ bytes) :
    readDetail.run (beU16 bytes.length ++ bytes ++ s) = (.error .refusalDetail, s) := by
  have hlen : bytes.length ≤ 65535 := by omega
  have hread := (readU16_exact IoError.unexpectedEof).reads hlen (bytes ++ s)
  have hunder : ¬ RefusalDetail.maxLen < bytes.length := Nat.not_lt.mpr hcap
  have hbytes := (run_exactly_ok IoError.unexpectedEof bytes.length (bytes ++ s) bytes s).mpr ⟨rfl, rfl⟩
  have ht : RefusalDetail.tryFrom bytes = none := by
    cases ht : RefusalDetail.tryFrom bytes with
    | none => rfl
    | some detail => exact absurd ((RefusalDetail.tryFrom_eq_some _ _).mp ht) (hutf detail.text)
  rw [readDetail, run_bind, List.append_assoc, hread]
  simp [hunder, run_bind, hbytes, ht]

/-- Write and read undo each other before any tail, and every other tag, code or detail is an error:
a detail above the cap before its octets are read. -/
theorem response_codec_exact :
    (∀ (r : Response) (tail : List UInt8), r.Known →
      r.write.1 = .ok () ∧ Response.read.run (r.write.octets ++ tail) = (.ok r, tail)) ∧
    (∀ (s rest : List UInt8) (r : Response), Response.read.run s = (.ok r, rest) →
      r.Known ∧ r.write.1 = .ok () ∧ s = r.write.octets ++ rest) ∧
    (∀ (tag : UInt8) (s : List UInt8), tag ≠ 0 → tag ≠ 1 → Response.read.run (tag :: s) =
      (.error (.other ("unknown response tag " ++ hexOctet tag)), s)) ∧
    (∀ (code : UInt8) (s : List UInt8), code ≠ 0 → code ≠ 1 → code ≠ 2 →
      Response.read.run (1 :: code :: s) =
        (.error (.other ("unknown refusal code " ++ hexOctet code)), s)) ∧
    (∀ (code : UInt8) (len : Nat) (s : List UInt8), code = 1 ∨ code = 2 → 1024 < len → len ≤ 65535 →
      Response.read.run (1 :: code :: (beU16 len ++ s)) =
        (.error (.other "refusal detail too long"), s)) ∧
    (∀ (code : UInt8) (bytes s : List UInt8), code = 1 ∨ code = 2 → bytes.length ≤ 1024 →
      (∀ text, utf8 text ≠ bytes) →
        Response.read.run (1 :: code :: (beU16 bytes.length ++ bytes ++ s)) =
          (.error .refusalDetail, s)) := by
  refine ⟨?_, ?_, Response.read_tag, Response.read_code, ?_, ?_⟩
  · intro r tail h
    refine ⟨(r.write_wrote h).ok, ?_⟩
    rw [(r.write_wrote h).octets]
    exact Response.read_exact.reads h tail
  · intro s rest r h
    obtain ⟨hknown, rfl⟩ := (Response.read_exact _ _ _).mp h
    exact ⟨hknown, (r.write_wrote hknown).ok, by rw [(r.write_wrote hknown).octets]⟩
  · intro code len s hcode hcap hlen
    exact Response.read_detail _ _ _ _ hcode (readDetail_over len s hlen hcap)
  · intro code bytes s hcode hcap hutf
    exact Response.read_detail _ _ _ _ hcode (readDetail_invalid bytes s hcap hutf)

end Tightbeam
