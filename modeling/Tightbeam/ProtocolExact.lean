import Tightbeam.Protocol

/-!
# The request frame is exact

Every field's reader accepts one encoding of each value, so the whole frame does: what a read
consumed is what a write of the value puts, and no frame is the beginning of another.
-/
namespace Tightbeam

open Octets Octets.Reader

def textFits (text : String) : Prop := (utf8 text).length ≤ 65535

def optFits (value : Option String) : Prop := ∀ text ∈ value, textFits text

def strFrame (text : String) : List UInt8 := beU16 (utf8 text).length ++ utf8 text

def optFrame : Option String → List UInt8
  | some text => 1 :: strFrame text
  | none => [0]

theorem readStr_exact : Exact readStr textFits strFrame := by
  intro s text rest
  simp only [readStr, run_bind_ok, run_exactly_ok]
  constructor
  · rintro ⟨len, mid, hlen, bytes, mid', ⟨hbytes, rfl⟩, htext⟩
    obtain ⟨hle, rfl⟩ := (readU16_exact _ _ _ _).mp hlen
    cases hu : fromUtf8? bytes with
    | none => simp [hu] at htext
    | some t =>
      simp only [hu, run_pure_ok] at htext
      obtain ⟨rfl, rfl⟩ := htext
      have hutf : utf8 t = bytes := (fromUtf8?_eq_some _ _).mp hu
      subst hutf
      exact ⟨by unfold textFits; omega, by simp [strFrame, hbytes]⟩
  · rintro ⟨hfit, rfl⟩
    have hu : fromUtf8? (utf8 text) = some text := (fromUtf8?_eq_some _ _).mpr rfl
    refine ⟨_, utf8 text ++ rest, ?_, utf8 text, rest, ⟨rfl, rfl⟩, by simp [hu]⟩
    rw [strFrame, List.append_assoc]
    exact (readU16_exact _).reads hfit _

theorem readOpt_exact : Exact readOpt optFits optFrame := by
  intro s value rest
  simp only [readOpt, run_bind_ok, run_octet_ok]
  constructor
  · rintro ⟨present, mid, rfl, h⟩
    by_cases h0 : present = 0
    · simp only [h0, ↓reduceIte, run_pure_ok] at h
      obtain ⟨rfl, rfl⟩ := h
      exact ⟨by simp [optFits], by simp [optFrame, h0]⟩
    · by_cases h1 : present = 1
      · simp only [h1, show (1 : UInt8) ≠ 0 by decide, ↓reduceIte, run_bind_ok, run_pure_ok] at h
        obtain ⟨text, mid', htext, rfl, rfl⟩ := h
        obtain ⟨hfit, rfl⟩ := (readStr_exact _ _ _).mp htext
        exact ⟨by simpa [optFits] using hfit, by simp [optFrame, h1]⟩
      · simp [h0, h1] at h
  · rintro ⟨hfit, rfl⟩
    cases value with
    | none => exact ⟨0, rest, rfl, by simp⟩
    | some text =>
      have htext : textFits text := hfit text rfl
      refine ⟨1, strFrame text ++ rest, rfl, ?_⟩
      simp only [show (1 : UInt8) ≠ 0 by decide, ↓reduceIte, run_bind_ok, run_pure_ok]
      exact ⟨text, rest, readStr_exact.reads htext rest, rfl, rfl⟩

theorem writeStr_wrote (text : String) (h : textFits text) :
    Sink.Wrote (writeStr text) (strFrame text) := by
  unfold textFits at h
  simp only [writeStr, h, ↓reduceIte]
  exact (Sink.wrote_all _).bind (Sink.wrote_all _)

theorem writeOpt_wrote (value : Option String) (h : optFits value) :
    Sink.Wrote (writeOpt value) (optFrame value) := by
  cases value with
  | none => exact Sink.wrote_all _
  | some text => exact (Sink.wrote_all _).bind (writeStr_wrote text (h text rfl))

/-- A text the length field cannot count fails its write. -/
theorem textFits_of_writeStr_ok (text : String) (h : (writeStr text).1 = .ok ()) : textFits text := by
  by_cases hfit : (utf8 text).length ≤ 65535
  · exact hfit
  · simp only [writeStr, hfit, ↓reduceIte] at h
    cases h

theorem optFits_of_writeOpt_ok (value : Option String) (h : (writeOpt value).1 = .ok ()) :
    optFits value := by
  cases value with
  | none => simp [optFits]
  | some text =>
    simp only [writeOpt, Sink.bind_ok] at h
    have hfit := textFits_of_writeStr_ok text h.2
    simpa [optFits] using hfit

theorem strFrame_length_le (text : String) (h : textFits text) : (strFrame text).length ≤ 65537 := by
  unfold textFits at h
  simp only [strFrame, List.length_append, beU16_length]
  omega

theorem optFrame_length_le (value : Option String) (h : optFits value) :
    (optFrame value).length ≤ 65538 := by
  cases value with
  | none => simp [optFrame]
  | some text =>
    have hs := strFrame_length_le text (h text rfl)
    simp only [optFrame, List.length_cons]
    omega

namespace Request

/-- All three texts are within the wire's length field. -/
structure Fits (r : Request) : Prop where
  service : textFits r.service
  capability : optFits r.capability
  membership : optFits r.membership

def frame (r : Request) : List UInt8 :=
  identity ++ version.asBytes ++ strFrame r.service ++ optFrame r.capability ++ optFrame r.membership

theorem write_wrote (r : Request) (h : r.Fits) : Sink.Wrote r.write r.frame := by
  have hbody := (writeStr_wrote _ h.service).bind
    (k := fun _ => writeOpt r.capability >>= fun _ => writeOpt r.membership)
    ((writeOpt_wrote _ h.capability).bind (writeOpt_wrote _ h.membership))
  have hall : Sink.Wrote r.write (identity ++ (version.asBytes ++ (strFrame r.service ++
      (optFrame r.capability ++ optFrame r.membership)))) :=
    (Sink.wrote_all _).bind ((Sink.wrote_all _).bind hbody)
  simpa only [frame, List.append_assoc] using hall

/-- The write finishes on no other request. -/
theorem fits_of_write_ok (r : Request) (h : r.write.1 = .ok ()) : r.Fits := by
  simp only [write, Sink.bind_ok] at h
  obtain ⟨_, _, hs, hc, hm⟩ := h
  exact ⟨textFits_of_writeStr_ok _ hs, optFits_of_writeOpt_ok _ hc, optFits_of_writeOpt_ok _ hm⟩

theorem frame_length_le (r : Request) (h : r.Fits) : r.frame.length ≤ 196617 := by
  have hs := strFrame_length_le _ h.service
  have hc := optFrame_length_le _ h.capability
  have hm := optFrame_length_le _ h.membership
  simp only [frame, List.length_append, identity, WireVersion.asBytes, List.length_cons,
    List.length_nil]
  omega

end Request

theorem WireVersion.read_ok (s rest : List UInt8) (v : WireVersion) :
    WireVersion.read.run s = (.ok v, rest) ↔
      isAsciiUppercase v.first = false ∧ s = v.asBytes ++ rest := by
  simp only [WireVersion.read, run_bind_ok, run_exactly_ok]
  constructor
  · rintro ⟨bytes, mid, ⟨hlen, rfl⟩, h⟩
    match bytes, hlen with
    | [a, b], _ =>
      by_cases hu : isAsciiUppercase a = true
      · simp [hu] at h
      · simp only [hu, Bool.false_eq_true, ↓reduceIte, run_pure_ok] at h
        obtain ⟨rfl, rfl⟩ := h
        exact ⟨by simpa using hu, rfl⟩
  · rintro ⟨hu, rfl⟩
    exact ⟨v.asBytes, rest, ⟨rfl, rfl⟩, by simp [WireVersion.asBytes, hu]⟩

theorem Request.read_exact : Exact Request.read Request.Fits Request.frame := by
  intro s r rest
  simp only [Request.read, run_bind_ok, run_exactly_ok]
  constructor
  · rintro ⟨head, mid, ⟨hlen, rfl⟩, h⟩
    by_cases hid : head = identity
    · subst hid
      simp only [ne_eq, not_true_eq_false, ↓reduceIte, run_bind_ok, WireVersion.read_ok] at h
      obtain ⟨peer, mid₁, ⟨_, rfl⟩, h⟩ := h
      by_cases hv : peer = version
      · subst hv
        simp only [not_true_eq_false, ↓reduceIte, run_bind_ok, run_mapError_ok, run_pure_ok] at h
        obtain ⟨service, mid₂, hs, capability, mid₃, hc, membership, mid₄, hm, rfl, rfl⟩ := h
        obtain ⟨fs, rfl⟩ := (readStr_exact _ _ _).mp hs
        obtain ⟨fc, rfl⟩ := (readOpt_exact _ _ _).mp hc
        obtain ⟨fm, rfl⟩ := (readOpt_exact _ _ _).mp hm
        exact ⟨⟨fs, fc, fm⟩, by simp [Request.frame]⟩
      · simp [hv] at h
    · simp [hid] at h
  · rintro ⟨hfit, rfl⟩
    refine ⟨identity, version.asBytes ++ (strFrame r.service ++ (optFrame r.capability ++
      (optFrame r.membership ++ rest))), ⟨rfl, by simp [Request.frame]⟩, ?_⟩
    simp only [ne_eq, not_true_eq_false, ↓reduceIte, run_bind_ok, WireVersion.read_ok]
    refine ⟨version, _, ⟨by decide, rfl⟩, ?_⟩
    simp only [not_true_eq_false, ↓reduceIte, run_bind_ok, run_mapError_ok, run_pure_ok]
    exact ⟨r.service, _, readStr_exact.reads hfit.service _, r.capability, _,
      readOpt_exact.reads hfit.capability _, r.membership, _,
      readOpt_exact.reads hfit.membership _, rfl, rfl⟩

/-- Write and read undo each other octet for octet, in both directions and before any tail: no two
frames decode alike, no frame begins another, and none is above 196617 octets. -/
theorem request_codec_exact :
    (∀ (r : Request) (tail : List UInt8), r.Fits →
      r.write.1 = .ok () ∧ Request.read.run (r.write.octets ++ tail) = (.ok r, tail)) ∧
    (∀ (s rest : List UInt8) (r : Request), Request.read.run s = (.ok r, rest) →
      r.write.1 = .ok () ∧ s = r.write.octets ++ rest) ∧
    (∀ (s t : List UInt8) (r : Request), Request.read.run s = (.ok r, []) →
      Request.read.run t = (.ok r, []) → s = t) ∧
    (∀ (s t : List UInt8) (r q : Request), Request.read.run s = (.ok r, []) →
      Request.read.run t = (.ok q, []) → s <+: t → s = t) ∧
    (∀ r : Request, r.write.1 = .ok () → r.write.octets.length ≤ 196617) := by
  have hwrote : ∀ r : Request, r.Fits → r.write.1 = .ok () ∧ r.write.octets = r.frame := fun r h =>
    ⟨(r.write_wrote h).ok, (r.write_wrote h).octets⟩
  have hframe : ∀ (s : List UInt8) (r : Request), Request.read.run s = (.ok r, []) →
      r.Fits ∧ s = r.frame := by
    intro s r h
    simpa using (Request.read_exact _ _ _).mp h
  refine ⟨?_, ?_, ?_, ?_, ?_⟩
  · intro r tail h
    refine ⟨(hwrote r h).1, ?_⟩
    rw [(hwrote r h).2]
    exact Request.read_exact.reads h tail
  · intro s rest r h
    obtain ⟨hfit, rfl⟩ := (Request.read_exact _ _ _).mp h
    exact ⟨(hwrote r hfit).1, by rw [(hwrote r hfit).2]⟩
  · intro s t r hs ht
    rw [(hframe s r hs).2, (hframe t r ht).2]
  · intro s t r q hs ht hpre
    obtain ⟨hr, rfl⟩ := hframe s r hs
    obtain ⟨hq, rfl⟩ := hframe t q ht
    rw [Request.read_exact.prefix_free hr hq hpre]
  · intro r h
    have hfit := r.fits_of_write_ok h
    rw [(hwrote r hfit).2]
    exact r.frame_length_le hfit

end Tightbeam
