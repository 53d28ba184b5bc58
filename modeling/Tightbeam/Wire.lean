import Tightbeam.Handler

/-!
# Typed frames

The control frame a typed service's callers open with, and the adapter that reads one and hands the
service the rest of the stream. A wire is any fixed head with a count of what follows it; how much memory
a frame takes is not modelled.
-/
namespace Tightbeam

open Octets

inductive WireError (ε : Type) where
  | TooLong (declared max : Nat)
  | Malformed (cause : ε)
  | Io (error : IoError)
  deriving DecidableEq

/-- A control frame as a pure codec. The cap leaves room for the head, and a count fits a `usize`. -/
structure Frame (usizeMax : Nat) (α ε : Type) where
  max : Nat
  head : Nat
  rest : List UInt8 → Nat
  encode : α → List UInt8
  decode : List UInt8 → Except (WireError ε) α
  bounds : head ≤ max
  rest_le : ∀ octets, rest octets ≤ usizeMax

namespace Frame

variable {usizeMax : Nat} {α ε : Type}

def saturatingAdd (usizeMax a b : Nat) : Nat := min (a + b) usizeMax

/-- The octets a read hands to `decode`. A stream that runs out ends as `ended` says. -/
def whole (F : Frame usizeMax α ε) (ended : IoError) : Reader (WireError ε) (List UInt8) := do
  let frame ← Reader.exactly (.Io ended) F.head
  let whole := saturatingAdd usizeMax F.head (F.rest frame)
  if F.max < whole then Reader.fail (.TooLong whole F.max)
  else do
    let body ← Reader.exactly (.Io ended) (whole - F.head)
    pure (frame ++ body)

def readFrame (F : Frame usizeMax α ε) (ended : IoError) : Reader (WireError ε) α := do
  let frame ← F.whole ended
  match F.decode frame with
  | .ok value => pure value
  | .error error => Reader.fail error

def writeFrame (F : Frame usizeMax α ε) (frame : α) : Sink (WireError ε) Unit :=
  let out := F.encode frame
  if F.max < out.length then Sink.fail (.TooLong out.length F.max) else Sink.writeAll out

/-- A frame that `decode` reads back and whose length its own head names. -/
structure Lawful (F : Frame usizeMax α ε) : Prop where
  decode_encode : ∀ value, F.decode (F.encode value) = .ok value
  length_encode : ∀ value, (F.encode value).length = F.head + F.rest ((F.encode value).take F.head)

end Frame

/-- A service whose callers open with a frame: its ceiling, its metering, and what it does with one
request, the proof, and the octets behind the frame. -/
structure Service (K α E A : Type) where
  exposure : Exposure
  metering : Metering
  respond : Served K exposure → α → List UInt8 → Except E A

/-- What the adapter fails with: the source's `ServeError::Io` over the frame's own error, or whatever the
service answers. -/
inductive ServeFailure (ε E : Type) where
  | Io (error : WireError ε)
  | service (error : E)

/-- The adapter's `serve`: read the one frame, and hand on what is left of the stream. -/
def Serve.serve {usizeMax : Nat} {K α ε E A : Type} (service : Service K α E A)
    (F : Frame usizeMax α ε) (ended : IoError) (served : Served K service.exposure)
    (stream : List UInt8) : Except (ServeFailure ε E) A :=
  match (F.readFrame ended).run stream with
  | (.error error, _) => .error (.Io error)
  | (.ok request, reader) => (service.respond served request reader).mapError .service

namespace Frame

variable {usizeMax : Nat} {α ε : Type} {F : Frame usizeMax α ε} {ended : IoError}

/-- Below the largest count a saturated sum is the sum. -/
theorem saturatingAdd_le {max a b : Nat} (h : max < usizeMax) :
    saturatingAdd usizeMax a b ≤ max ↔ a + b ≤ max := by
  unfold saturatingAdd
  omega

theorem whole_ok (hmax : F.max < usizeMax) (s bytes tail : List UInt8) :
    (F.whole ended).run s = (.ok bytes, tail) ↔
      s = bytes ++ tail ∧ bytes.length = F.head + F.rest (bytes.take F.head) ∧ bytes.length ≤ F.max := by
  rw [whole, Reader.run_bind_ok]
  constructor
  · intro h
    obtain ⟨frame, mid, hframe, hrest⟩ := h
    obtain ⟨hlen, rfl⟩ := (Reader.run_exactly_ok _ _ _ _ _).mp hframe
    by_cases hlong : F.max < saturatingAdd usizeMax F.head (F.rest frame)
    · simp [hlong] at hrest
    · have hfits : F.head + F.rest frame ≤ F.max := (saturatingAdd_le hmax).mp (by omega)
      have hsum : saturatingAdd usizeMax F.head (F.rest frame) = F.head + F.rest frame := by
        unfold saturatingAdd
        omega
      rw [if_neg hlong, hsum, Reader.run_bind_ok] at hrest
      obtain ⟨body, left, hbody, hpure⟩ := hrest
      obtain ⟨hbodyLen, rfl⟩ := (Reader.run_exactly_ok _ _ _ _ _).mp hbody
      obtain ⟨rfl, rfl⟩ := (Reader.run_pure_ok _ _ _ _).mp hpure
      have htake : (frame ++ body).take F.head = frame := by rw [← hlen, List.take_left]
      rw [htake, List.length_append]
      exact ⟨by rw [List.append_assoc], by omega, by omega⟩
  · intro h
    obtain ⟨rfl, hlen, hfits⟩ := h
    have hframe : (bytes.take F.head).length = F.head := by
      rw [List.length_take]
      omega
    have hsum : saturatingAdd usizeMax F.head (F.rest (bytes.take F.head)) = bytes.length := by
      unfold saturatingAdd
      omega
    refine ⟨bytes.take F.head, bytes.drop F.head ++ tail, ?_, ?_⟩
    · rw [Reader.run_exactly_ok]
      exact ⟨hframe, by rw [← List.append_assoc, List.take_append_drop]⟩
    · rw [hsum, if_neg (by omega), Reader.run_bind_ok]
      refine ⟨bytes.drop F.head, tail, ?_, ?_⟩
      · rw [Reader.run_exactly_ok]
        exact ⟨List.length_drop, rfl⟩
      · rw [Reader.run_pure_ok]
        exact ⟨List.take_append_drop F.head bytes, rfl⟩

theorem whole_tooLong (hmax : F.max < usizeMax) {s : List UInt8} (hhead : F.head ≤ s.length)
    (hlong : F.max < F.head + F.rest (s.take F.head)) :
    (F.whole ended).run s =
      (.error (.TooLong (saturatingAdd usizeMax F.head (F.rest (s.take F.head))) F.max), s.drop F.head) := by
  have hframe : (Reader.exactly (WireError.Io ended) F.head : Reader (WireError ε) (List UInt8)).run s =
      (.ok (s.take F.head), s.drop F.head) := by
    rw [Reader.run_exactly_ok]
    exact ⟨List.length_take_of_le hhead, (List.take_append_drop F.head s).symm⟩
  have hover : F.max < saturatingAdd usizeMax F.head (F.rest (s.take F.head)) := by
    unfold saturatingAdd
    omega
  rw [whole, Reader.run_bind, hframe]
  simp only [hover, if_true]
  rfl

/-- What `decode` makes of the octets handed to it is what the read ends with, and it is handed none
otherwise. -/
theorem readFrame_run (s : List UInt8) :
    (F.readFrame ended).run s = match (F.whole ended).run s with
      | (.ok bytes, tail) => (F.decode bytes, tail)
      | (.error error, tail) => (.error error, tail) := by
  rw [readFrame, Reader.run_bind]
  rcases (F.whole ended).run s with ⟨_ | bytes, tail⟩
  · rfl
  · cases hdecode : F.decode bytes <;> simp [hdecode]

theorem Lawful.whole (h : F.Lawful) (hmax : F.max < usizeMax) (value : α) (tail : List UInt8)
    (hfits : (F.encode value).length ≤ F.max) :
    (F.whole ended).run (F.encode value ++ tail) = (.ok (F.encode value), tail) :=
  (whole_ok hmax _ _ _).mpr ⟨rfl, h.length_encode value, hfits⟩

theorem Lawful.whole_tooLong (h : F.Lawful) (hmax : F.max < usizeMax) (value : α) (tail : List UInt8)
    (hlong : F.max < (F.encode value).length) :
    (F.whole ended).run (F.encode value ++ tail) =
      (.error (.TooLong (min (F.encode value).length usizeMax) F.max),
        (F.encode value).drop F.head ++ tail) := by
  have hlen := h.length_encode value
  have hhead : F.head ≤ (F.encode value).length := by omega
  have htake : (F.encode value ++ tail).take F.head = (F.encode value).take F.head :=
    List.take_append_of_le_length hhead
  have hdrop : (F.encode value ++ tail).drop F.head = (F.encode value).drop F.head ++ tail :=
    List.drop_append_of_le_length hhead
  have hover : F.head ≤ (F.encode value ++ tail).length := by
    rw [List.length_append]
    omega
  rw [Frame.whole_tooLong hmax hover (by rw [htake]; omega), htake, hdrop, saturatingAdd, ← hlen]

theorem writeFrame_fits {value : α} (h : (F.encode value).length ≤ F.max) :
    (F.writeFrame value).Wrote (F.encode value) := by
  rw [writeFrame, if_neg (by omega)]
  exact Sink.wrote_all _

theorem writeFrame_tooLong {value : α} (h : F.max < (F.encode value).length) :
    F.writeFrame value = Sink.fail (.TooLong (F.encode value).length F.max) := by
  rw [writeFrame, if_pos h]

/-- The adapter hands a service the request and what the frame left of the stream. -/
theorem serve_readFrame {K E A : Type} (service : Service K α E A) (served : Served K service.exposure)
    {stream reader : List UInt8} {request : α}
    (h : (F.readFrame ended).run stream = (.ok request, reader)) :
    Serve.serve service F ended served stream =
      (service.respond served request reader).mapError .service := by
  rw [Serve.serve, h]

end Frame

/-- A read hands `decode` whole frames under the cap and no other octets, and refuses a head that names
more with only the head taken. Where a wire is lawful, what a writer puts reads back with the rest of
the stream untouched, and what it refuses to put the reader refuses too. -/
theorem frame_exact {usizeMax : Nat} {α ε : Type} (F : Frame usizeMax α ε) (hmax : F.max < usizeMax)
    (ended : IoError) :
    (∀ s bytes tail, (F.whole ended).run s = (.ok bytes, tail) ↔
      s = bytes ++ tail ∧ bytes.length = F.head + F.rest (bytes.take F.head) ∧ bytes.length ≤ F.max) ∧
    (∀ s bytes tail, (F.whole ended).run s = (.ok bytes, tail) →
      (F.readFrame ended).run s = (F.decode bytes, tail)) ∧
    (∀ s error tail, (F.whole ended).run s = (.error error, tail) →
      (F.readFrame ended).run s = (.error error, tail)) ∧
    (∀ s, F.head ≤ s.length → F.max < F.head + F.rest (s.take F.head) →
      (F.readFrame ended).run s =
        (.error (.TooLong (min (F.head + F.rest (s.take F.head)) usizeMax) F.max), s.drop F.head)) ∧
    (F.Lawful → ∀ value tail,
      ((F.encode value).length ≤ F.max →
        F.writeFrame value = (.ok (), F.encode value) ∧
        (F.readFrame ended).run (F.encode value ++ tail) = (.ok value, tail) ∧
        ∀ (K E A : Type) (service : Service K α E A) (served : Served K service.exposure),
          Serve.serve service F ended served (F.encode value ++ tail) =
            (service.respond served value tail).mapError .service) ∧
      (F.max < (F.encode value).length →
        F.writeFrame value = (.error (.TooLong (F.encode value).length F.max), []) ∧
        (F.readFrame ended).run (F.encode value ++ tail) =
          (.error (.TooLong (min (F.encode value).length usizeMax) F.max),
            (F.encode value).drop F.head ++ tail))) := by
  refine ⟨Frame.whole_ok hmax, ?_, ?_, ?_, ?_⟩
  · intro s bytes tail h
    rw [Frame.readFrame_run, h]
  · intro s error tail h
    rw [Frame.readFrame_run, h]
  · intro s hhead hlong
    rw [Frame.readFrame_run, Frame.whole_tooLong hmax hhead hlong]
    rfl
  · intro hlawful value tail
    constructor
    · intro hfits
      have hread : (F.readFrame ended).run (F.encode value ++ tail) = (.ok value, tail) := by
        rw [Frame.readFrame_run, hlawful.whole hmax value tail hfits]
        simp only [hlawful.decode_encode]
      refine ⟨Frame.writeFrame_fits hfits, hread, ?_⟩
      intro K E A service served
      exact Frame.serve_readFrame service served hread
    · intro hlong
      refine ⟨Frame.writeFrame_tooLong hlong, ?_⟩
      rw [Frame.readFrame_run, hlawful.whole_tooLong hmax value tail hlong]

/-- A count of one octet and then as many, under a cap of three. -/
def countedFrame : Frame 255 { body : List UInt8 // body.length ≤ 254 } Unit where
  max := 3
  head := 1
  rest := fun octets => (octets.head?.map UInt8.toNat).getD 0
  encode := fun value => UInt8.ofNat value.val.length :: value.val
  decode := fun octets =>
    if h : octets.tail.length ≤ 254 then .ok ⟨octets.tail, h⟩ else .error (.Malformed ())
  bounds := by decide
  rest_le := by
    intro octets
    cases octets with
    | nil => simp
    | cons b rest => exact Nat.le_of_lt_succ b.toNat_lt

theorem countedFrame_lawful : countedFrame.Lawful where
  decode_encode := by
    intro value
    exact dif_pos value.property
  length_encode := by
    intro value
    have hlen : value.val.length < 256 := Nat.lt_succ_of_le (Nat.le_succ_of_le value.property)
    have hcount : (UInt8.ofNat value.val.length).toNat = value.val.length := by
      rw [UInt8.toNat_ofNat']
      omega
    change value.val.length + 1 = 1 + (UInt8.ofNat value.val.length).toNat
    omega

theorem frame_exact_counted :
    countedFrame.writeFrame ⟨[7, 8], by decide⟩ = (.ok (), [2, 7, 8]) ∧
      (countedFrame.readFrame .unexpectedEof).run [2, 7, 8, 9] = (.ok ⟨[7, 8], by decide⟩, [9]) ∧
      (countedFrame.readFrame .unexpectedEof).run [255, 9] = (.error (.TooLong 255 3), [9]) := by
  obtain ⟨-, -, -, hlong, hlawful⟩ := frame_exact countedFrame (by decide) .unexpectedEof
  obtain ⟨hwrite, hread, -⟩ := (hlawful countedFrame_lawful ⟨[7, 8], by decide⟩ [9]).1 (by decide)
  exact ⟨hwrite, hread, hlong [255, 9] (by decide) (by decide)⟩

end Tightbeam
