import Tightbeam.Seat
import Tightbeam.Library.Window

/-!
# The lossy fan-out

One source pumped into one bounded ring, and any number of cursors that read the ring at their own
pace. A slow cursor loses the oldest octets and never holds the pump. Every subtraction of offsets is
checked, so that an underflow is a result of its own.
-/
namespace Tightbeam

/-- The ring's ceiling. -/
@[irreducible] def ringBytes : Nat := 1 <<< 20

/-- A subtraction of unsigned integers. -/
def checkedSub (a b : Nat) : Option Nat := if b ≤ a then some (a - b) else none

@[simp] theorem checkedSub_eq_some {a b c : Nat} : checkedSub a b = some c ↔ b ≤ a ∧ a - b = c := by
  simp [checkedSub]

theorem checkedSub_of_le {a b : Nat} (h : b ≤ a) : checkedSub a b = some (a - b) := if_pos h

/-- The bounded buffer: `buf`'s first octet is the octet of the source at the absolute offset `base`. -/
structure Ring where
  buf : List UInt8
  base : Nat
  closed : Bool
  deriving DecidableEq, Repr

namespace Ring

def new : Ring := ⟨[], 0, false⟩

/-- The live edge: one past the last buffered octet. -/
def head (ring : Ring) : Nat := ring.base + ring.buf.length

/-- Append under a ceiling, dropping the oldest octets first so that it holds throughout. An append
longer than the whole ring keeps its newest octets. -/
def appendWithin (ceiling : Nat) (ring : Ring) (bytes : List UInt8) : Option Ring := do
  let overflow := ring.buf.length + bytes.length - ceiling
  let fromBuffer := min overflow ring.buf.length
  let drained : Ring :=
    if 0 < fromBuffer then { ring with buf := ring.buf.drop fromBuffer, base := ring.base + fromBuffer }
    else ring
  let skipped ← checkedSub overflow fromBuffer
  -- The slice from `skipped` on is checked as well.
  let _ ← checkedSub bytes.length skipped
  pure { drained with buf := drained.buf ++ bytes.drop skipped, base := drained.base + skipped }

def append (ring : Ring) (bytes : List UInt8) : Option Ring := ring.appendWithin ringBytes bytes

end Ring

/-- When a pump lets go of its source. -/
inductive Lifetime where
  | UntilEof
  | WhileWatched
  deriving DecidableEq, Repr

/-- The lifecycle half of a fan-out: the source until the pump takes it, and the live cursors' count. -/
structure Life where
  source : Option BoxRead
  consumers : Nat
  lifetime : Lifetime
  deriving DecidableEq, Repr

def Life.released (life : Life) : Bool :=
  match life.lifetime with
  | .UntilEof => false
  | .WhileWatched => life.consumers == 0

/-- One consumer's position, and whether it is inside a lag episode. -/
structure Cursor where
  pos : Nat
  lagged : Bool
  deriving DecidableEq, Repr

/-- Copy `remaining` octets from `offset` on, across slices that follow one another. -/
def copySlices : List (List UInt8) → Nat → Nat → Option (List UInt8)
  | [], _, _ => some []
  | slice :: rest, offset, remaining =>
    if remaining = 0 then some []
    else if slice.length ≤ offset then do
      let offset ← checkedSub offset slice.length
      copySlices rest offset remaining
    else do
      let left ← checkedSub slice.length offset
      let taken := min remaining left
      let remaining ← checkedSub remaining taken
      let copied ← copySlices rest 0 remaining
      pure ((slice.drop offset).take taken ++ copied)

/-- A deque's two backing slices, `front` and then `back`. -/
def copyFromDeque (front back : List UInt8) (start n : Nat) : Option (List UInt8) :=
  copySlices [front, back] start n

namespace Cursor

/-- Fall forward to the oldest octet still held. An episode of lag is warned about once. -/
def catchUp (c : Cursor) (ring : Ring) : Option (Cursor × Option Nat) :=
  if c.pos < ring.base then
    if c.lagged then some ({ c with pos := ring.base }, none)
    else do
      let dropped ← checkedSub ring.base c.pos
      pure (⟨ring.base, true⟩, some dropped)
  else some (c, none)

/-- One locked look at the ring by a read with `room` left in its buffer: the cursor it leaves, the
octets a lag warning names, and what the poll found. The deque's storage is split after `split` octets,
wherever that is. -/
def pollRead (c : Cursor) (ring : Ring) (split room : Nat) :
    Option (Cursor × Option Nat × Poll (List UInt8)) := do
  let (c, warned) ← c.catchUp ring
  if c.pos < ring.head then
    let start ← checkedSub c.pos ring.base
    let available ← checkedSub ring.buf.length start
    let n := min available room
    let copied ← copyFromDeque (ring.buf.take split) (ring.buf.drop split) start n
    let pos := c.pos + n
    pure (⟨pos, if pos = ring.head then false else c.lagged⟩, warned, .Ready copied)
  else if ring.closed then pure ({ c with lagged := false }, warned, .Ready [])
  else pure ({ c with lagged := false }, warned, .Pending)

end Cursor

/-- What overflows leaves from the front: first of the buffer, and then of the octets appended. -/
theorem Ring.appendWithin_eq {ceiling : Nat} {ring : Ring} {bytes : List UInt8}
    (hlen : ring.buf.length ≤ ceiling) :
    ring.appendWithin ceiling bytes = some
      { ring with
        buf := ring.buf.drop (ring.buf.length + bytes.length - ceiling) ++
          bytes.drop (ring.buf.length + bytes.length - ceiling - ring.buf.length)
        base := ring.base + (ring.buf.length + bytes.length - ceiling) } := by
  obtain ⟨buf, base, closed⟩ := ring
  simp only at hlen
  simp only [appendWithin]
  generalize hover : buf.length + bytes.length - ceiling = overflow
  by_cases hle : overflow ≤ buf.length
  · have hmin : min overflow buf.length = overflow := Nat.min_eq_left hle
    have hskipped : overflow - buf.length = 0 := by omega
    by_cases hpos : 0 < overflow
    · simp [hmin, hpos, hskipped, checkedSub_of_le]
    · have hzero : overflow = 0 := by omega
      simp [hzero, checkedSub_of_le]
  · have hmin : min overflow buf.length = buf.length := Nat.min_eq_right (by omega)
    have hfront : checkedSub overflow buf.length = some (overflow - buf.length) := checkedSub_of_le (by omega)
    have hslice : checkedSub bytes.length (overflow - buf.length) =
        some (bytes.length - (overflow - buf.length)) := checkedSub_of_le (by omega)
    have hdrop : buf.drop overflow = [] := List.drop_of_length_le (by omega)
    have hbase : base + buf.length + (overflow - buf.length) = base + overflow := by omega
    rw [hmin, hfront, hdrop]
    by_cases hpos : 0 < buf.length
    · simp [hpos, hslice, hbase]
    · have hnil : buf.length = 0 := by omega
      have hempty : buf = [] := List.length_eq_zero_iff.1 hnil
      rw [hnil] at hslice hbase
      simp only [hnil, Nat.lt_irrefl, if_false, Option.bind_eq_bind, Option.bind_some, hslice]
      simp [hempty]

/-- However the deque is split, the copy is the run from `offset`. -/
theorem copySlices_eq (slices : List (List UInt8)) (offset n : Nat) :
    copySlices slices offset n = some ((slices.flatten.drop offset).take n) := by
  induction slices generalizing offset n with
  | nil => simp [copySlices]
  | cons slice rest ih =>
    by_cases hzero : n = 0
    · simp [copySlices, hzero]
    · rw [copySlices, if_neg hzero]
      by_cases hpast : slice.length ≤ offset
      · rw [if_pos hpast, checkedSub_of_le hpast]
        simp [ih, List.drop_append, List.drop_of_length_le hpast]
      · have hoffset : offset ≤ slice.length := by omega
        rw [if_neg hpast, checkedSub_of_le hoffset]
        have htaken : min n (slice.length - offset) ≤ n := Nat.min_le_left _ _
        have hfront : (slice.drop offset).take (min n (slice.length - offset)) = (slice.drop offset).take n := by
          rw [← List.length_drop, List.take_eq_take_iff]
          omega
        have hback : n - min n (slice.length - offset) = n - (slice.length - offset) := by omega
        simp only [Option.bind_eq_bind, Option.bind_some, checkedSub_of_le htaken, ih, List.flatten_cons,
          List.drop_zero, Option.pure_def, List.drop_append_of_le_length hoffset, List.take_append,
          List.length_drop, hfront, hback]

/-- What a fan-out has been fed: the stream so far, and whether it is over. -/
structure Feed where
  stream : List UInt8
  closed : Bool

/- The ceiling's value plays no part from here on, so it is a parameter. -/
variable (ceiling : Nat)

namespace Feed

/-- The oldest offset the ring still holds. -/
def base (feed : Feed) : Nat := Window.base ceiling feed.stream

/-- The ring a feed leaves behind: the newest octets of its stream. -/
def ring (feed : Feed) : Ring := ⟨Window.retained ceiling feed.stream, feed.base ceiling, feed.closed⟩

def append (feed : Feed) (bytes : List UInt8) : Feed := { feed with stream := feed.stream ++ bytes }

theorem head_ring (feed : Feed) : (feed.ring ceiling).head = feed.stream.length := Window.base_add_length

/-- The ring is a sliding window of the stream, and appending to it never underflows. -/
theorem append_ring (feed : Feed) (bytes : List UInt8) :
    (feed.ring ceiling).appendWithin ceiling bytes = some ((feed.append bytes).ring ceiling) := by
  have hlen : (feed.ring ceiling).buf.length ≤ ceiling := by
    rw [ring, Window.length_retained]
    exact Nat.min_le_left _ _
  rw [Ring.appendWithin_eq hlen]
  simp [ring, append, base, Window.base_append, Window.retained_append]

end Feed

namespace Cursor

/-- Where a read by this cursor starts: where it stands, or the oldest octet still held. -/
def start (c : Cursor) (feed : Feed) : Nat := max c.pos (feed.base ceiling)

/-- Whether the cursor is inside a lag episode once it has caught up. -/
def lags (c : Cursor) (feed : Feed) : Bool := c.lagged || decide (c.pos < feed.base ceiling)

/-- The octets a new lag episode loses. -/
def warning (c : Cursor) (feed : Feed) : Option Nat :=
  if c.pos < feed.base ceiling ∧ c.lagged = false then some (feed.base ceiling - c.pos) else none

theorem catchUp_eq (c : Cursor) (feed : Feed) :
    c.catchUp (feed.ring ceiling) =
      some (⟨c.start ceiling feed, c.lags ceiling feed⟩, c.warning ceiling feed) := by
  obtain ⟨pos, lagged⟩ := c
  have hbase : (feed.ring ceiling).base = feed.base ceiling := rfl
  by_cases hlag : pos < feed.base ceiling
  · have hmax : max pos (feed.base ceiling) = feed.base ceiling := Nat.max_eq_right (by omega)
    have hdropped : checkedSub (feed.base ceiling) pos = some (feed.base ceiling - pos) :=
      checkedSub_of_le (by omega)
    cases lagged with
    | true => simp [catchUp, start, lags, warning, hbase, hlag, hmax]
    | false => simp [catchUp, start, lags, warning, hbase, hlag, hmax, hdropped]
  · have hmax : max pos (feed.base ceiling) = pos := Nat.max_eq_left (by omega)
    simp [catchUp, start, lags, warning, hbase, hlag, hmax]

/-- A read never underflows, wherever its deque is split: it takes the run from its start on, as much
of it as fits, or finds the end or nothing. -/
theorem pollRead_eq (c : Cursor) (feed : Feed) (split room : Nat) :
    c.pollRead (feed.ring ceiling) split room = some
      (if c.start ceiling feed < feed.stream.length then
        let n := min (feed.stream.length - c.start ceiling feed) room
        (⟨c.start ceiling feed + n,
            if c.start ceiling feed + n = feed.stream.length then false else c.lags ceiling feed⟩,
          c.warning ceiling feed, .Ready (Window.run feed.stream (c.start ceiling feed) n))
      else (⟨c.start ceiling feed, false⟩, c.warning ceiling feed,
        if feed.closed then .Ready [] else .Pending)) := by
  have hhead : (feed.ring ceiling).head = feed.stream.length := feed.head_ring ceiling
  have hbase : feed.base ceiling ≤ c.start ceiling feed := Nat.le_max_right _ _
  have hlen : feed.base ceiling + (feed.ring ceiling).buf.length = feed.stream.length :=
    Window.base_add_length
  unfold pollRead
  simp only [catchUp_eq, Option.bind_eq_bind, Option.bind_some, hhead]
  by_cases hbehind : c.start ceiling feed < feed.stream.length
  · have hstart : checkedSub (c.start ceiling feed) (feed.ring ceiling).base =
        some (c.start ceiling feed - feed.base ceiling) := checkedSub_of_le hbase
    have havailable : checkedSub (feed.ring ceiling).buf.length (c.start ceiling feed - feed.base ceiling) =
        some (feed.stream.length - c.start ceiling feed) := by
      rw [checkedSub_eq_some]
      omega
    have hcopy (n : Nat) : copyFromDeque ((feed.ring ceiling).buf.take split)
        ((feed.ring ceiling).buf.drop split) (c.start ceiling feed - feed.base ceiling) n =
        some (Window.run feed.stream (c.start ceiling feed) n) := by
      rw [copyFromDeque, copySlices_eq]
      simp only [List.flatten_cons, List.flatten_nil, List.append_nil, List.take_append_drop]
      exact congrArg some (Window.run_retained hbase)
    simp only [if_pos hbehind, hstart, havailable, hcopy, Option.bind_some, Option.pure_def]
  · have hclosed : (feed.ring ceiling).closed = feed.closed := rfl
    rw [if_neg hbehind, if_neg hbehind, hclosed]
    cases feed.closed with
    | true => rfl
    | false => rfl

end Cursor

end Tightbeam
