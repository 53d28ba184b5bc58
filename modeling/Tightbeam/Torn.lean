import Tightbeam.Connector

/-!
# Torn frames

A frame is torn when its write fails with some of it already put: a peer then blocks behind it. A
response is settled before an octet moves. A request is not: a text the length field cannot count is
found only when its turn comes.
-/
namespace Tightbeam

open Octets

/-- Every octet of the frame was put, or none was, for a reason. -/
def Untorn {ε : Type} (w : Sink ε Unit) (frame : List UInt8) (reason : Prop) : Prop :=
  w.Wrote frame ∨ reason ∧ ∃ error, w = Sink.fail error

theorem Untorn.of_octets {ε : Type} {w : Sink ε Unit} {frame : List UInt8} {reason : Prop}
    (h : Untorn w frame reason) (hsome : w.octets ≠ []) : w.Wrote frame := by
  rcases h with hwrote | ⟨-, error, hfail⟩
  · exact hwrote
  · rw [hfail] at hsome
    exact absurd rfl hsome

/-- The preamble goes out before any text is looked at. -/
theorem Request.write_octets (r : Request) : ∃ sent, r.write.octets = identity ++ sent := by
  rw [Request.write, Sink.writeAll_bind]
  exact ⟨_, rfl⟩

theorem Request.write_untorn (r : Request) : Untorn r.write r.frame (¬ r.Fits) ↔ r.Fits := by
  constructor
  · intro h
    obtain ⟨sent, hsent⟩ := r.write_octets
    have hwrote : r.write.Wrote r.frame := h.of_octets (by simp [hsent, identity])
    exact r.fits_of_write_ok hwrote.ok
  · intro h
    exact .inl (r.write_wrote h)

theorem Request.writeChecked_untorn (r : Request) (security : Security) :
    Untorn (r.writeChecked security) r.frame (¬ r.Fits ∨ r.Exposed security) ↔
      r.Fits ∨ r.Exposed security := by
  by_cases hexposed : r.Exposed security
  · rw [writeChecked_exposed hexposed]
    simp [Untorn, hexposed]
  · rw [writeChecked_covered hexposed]
    constructor
    · intro h
      obtain ⟨sent, hsent⟩ := r.write_octets
      have hsome : (Sink.mapError RequestWriteError.Io r.write).octets ≠ [] := by
        change r.write.octets ≠ []
        simp [hsent, identity]
      have hwrote : r.write.Wrote r.frame := Sink.wrote_mapError.mp (h.of_octets hsome)
      exact .inl (r.fits_of_write_ok hwrote.ok)
    · intro h
      rcases h with hfits | hother
      · exact .inl (Sink.wrote_mapError.mpr (r.write_wrote hfits))
      · exact absurd hother hexposed

theorem Response.write_untorn (r : Response) : Untorn r.write r.frame (¬ r.Known) := by
  by_cases hknown : r.Known
  · exact .inl (r.write_wrote hknown)
  · refine .inr ⟨hknown, ?_⟩
    cases r with
    | ok => exact absurd trivial hknown
    | refused refusal =>
      cases refusal with
      | unnamed text => exact ⟨_, rfl⟩
      | _ => exact absurd trivial hknown

/-- A request's frame is never torn exactly when its texts fit, written plainly, or by the checked writer
where that one writes at all. No response's ever is. -/
theorem frames_untorn (request : Request) (security : Security) (response : Response) :
    (Untorn request.write request.frame (¬ request.Fits) ↔ request.Fits) ∧
    (Untorn (request.writeChecked security) request.frame
      (¬ request.Fits ∨ request.Exposed security) ↔ request.Fits ∨ request.Exposed security) ∧
    Untorn response.write response.frame (¬ response.Known) :=
  ⟨request.write_untorn, request.writeChecked_untorn security, response.write_untorn⟩

/-- A badge too long is found when all before it is put. -/
theorem Request.write_membership {badge : String} (h : ¬ textFits badge) :
    Request.write ⟨"", none, some badge⟩ =
      (.error (.other "string too long"), [0x54, 0x42, 0x30, 0x34, 0, 0, 0, 1]) := by
  have hbadge : writeStr badge = Sink.fail (.other "string too long") := if_neg h
  have hopt : writeOpt (some badge) = (.error (.other "string too long"), [1]) := by
    rw [writeOpt, Sink.writeAll_bind, hbadge]
    rfl
  simp only [Request.write, hopt]
  rfl

theorem frame_torn :
    Request.write ⟨"", none, some (String.ofList (List.replicate 65536 'a'))⟩ =
      (.error (.other "string too long"), [0x54, 0x42, 0x30, 0x34, 0, 0, 0, 1]) := by
  apply Request.write_membership
  have hlen := length_le_utf8_ofList (List.replicate 65536 'a')
  rw [List.length_replicate] at hlen
  exact Nat.not_le_of_lt hlen

end Tightbeam
