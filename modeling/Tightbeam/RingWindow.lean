import Tightbeam.Fanout
import Mathlib.Algebra.Group.Nat.Defs

/-!
# The ring at every moment of an append

`Ring::append` taken apart into the states the ring is in on the way, with the machine's additions
checked as well as its subtractions.
-/
namespace Tightbeam

/-- An addition of 64-bit unsigned integers. -/
def checkedAdd (a b : Nat) : Option Nat := if a + b < 2 ^ 64 then some (a + b) else none

theorem checkedAdd_of_lt {a b : Nat} (h : a + b < 2 ^ 64) : checkedAdd a b = some (a + b) := if_pos h

namespace Ring

/-- The ring after each octet the deque is extended by. -/
def extendMoments (ring : Ring) : List UInt8 → List Ring
  | [] => []
  | byte :: bytes =>
    let longer : Ring := { ring with buf := ring.buf ++ [byte] }
    longer :: longer.extendMoments bytes

/-- The ring once the overflow is drained from its buffer, and once its base has moved past it. -/
def evictMoments (ring : Ring) (fromBuffer : Nat) : Option (Ring × Ring) :=
  if 0 < fromBuffer then do
    let drained : Ring := { ring with buf := ring.buf.drop fromBuffer }
    let base ← checkedAdd drained.base fromBuffer
    pure (drained, { drained with base })
  else some (ring, ring)

/-- The ring as an append finds it, and after each change the append makes. -/
def appendMomentsWithin (ceiling : Nat) (ring : Ring) (bytes : List UInt8) : Option (List Ring) := do
  let total ← checkedAdd ring.buf.length bytes.length
  let overflow := total - ceiling
  let fromBuffer := min overflow ring.buf.length
  let (drained, evicted) ← ring.evictMoments fromBuffer
  let skipped ← checkedSub overflow fromBuffer
  let _ ← checkedSub bytes.length skipped
  let base ← checkedAdd evicted.base skipped
  let trimmed : Ring := { evicted with base }
  pure ([ring, drained, evicted, trimmed] ++ trimmed.extendMoments (bytes.drop skipped))

def appendMoments (ring : Ring) (bytes : List UInt8) : Option (List Ring) :=
  ring.appendMomentsWithin ringBytes bytes

theorem extendMoments_length {ring moment : Ring} {bytes : List UInt8}
    (h : moment ∈ ring.extendMoments bytes) : moment.buf.length ≤ ring.buf.length + bytes.length := by
  induction bytes generalizing ring with
  | nil => cases h
  | cons byte bytes ih =>
    rcases List.mem_cons.1 h with rfl | hlater
    · simp
    · have hle := ih hlater
      simp only [List.length_append, List.length_cons, List.length_nil] at hle ⊢
      omega

theorem extendMoments_last (ring : Ring) (bytes : List UInt8) :
    (ring :: ring.extendMoments bytes).getLast? = some { ring with buf := ring.buf ++ bytes } := by
  induction bytes generalizing ring with
  | nil => simp [extendMoments]
  | cons byte bytes ih =>
    rw [extendMoments, List.getLast?_cons_cons, ih]
    simp

/-- Nothing to drain is the case of draining nothing. -/
theorem evictMoments_eq (ring : Ring) {n : Nat} (h : ring.base + n < 2 ^ 64) :
    ring.evictMoments n = some
      ({ ring with buf := ring.buf.drop n }, { ring with buf := ring.buf.drop n, base := ring.base + n }) := by
  unfold evictMoments
  by_cases hpos : 0 < n
  · simp only [if_pos hpos, checkedAdd_of_lt h, Option.bind_eq_bind, Option.bind_some, Option.pure_def]
  · have hzero : n = 0 := by omega
    simp [hzero]

theorem evicted_eq (ring : Ring) (n : Nat) :
    (if 0 < n then { ring with buf := ring.buf.drop n, base := ring.base + n } else ring) =
      ({ ring with buf := ring.buf.drop n, base := ring.base + n } : Ring) := by
  by_cases hpos : 0 < n
  · rw [if_pos hpos]
  · have hzero : n = 0 := by omega
    simp [hzero]

/-- No moment of an append is over the ceiling, and its last is what the append leaves. -/
theorem appendMomentsWithin_spec {ceiling : Nat} {ring : Ring} {bytes : List UInt8}
    (hlen : ring.buf.length ≤ ceiling) (htotal : ring.head + bytes.length < 2 ^ 64) :
    ∃ moments, ring.appendMomentsWithin ceiling bytes = some moments ∧
      (∀ moment ∈ moments, moment.buf.length ≤ ceiling) ∧
      moments.getLast? = ring.appendWithin ceiling bytes := by
  have hhead : ring.head = ring.base + ring.buf.length := rfl
  have hsum : checkedAdd ring.buf.length bytes.length = some (ring.buf.length + bytes.length) :=
    checkedAdd_of_lt (by omega)
  simp only [appendMomentsWithin, appendWithin, hsum, Option.bind_eq_bind, Option.bind_some]
  generalize hover : ring.buf.length + bytes.length - ceiling = overflow
  generalize hfront : min overflow ring.buf.length = fromBuffer
  have hevicted := ring.evictMoments_eq (n := fromBuffer) (by omega)
  have hskipped : checkedSub overflow fromBuffer = some (overflow - fromBuffer) :=
    checkedSub_of_le (by omega)
  have hslice : checkedSub bytes.length (overflow - fromBuffer) =
      some (bytes.length - (overflow - fromBuffer)) := checkedSub_of_le (by omega)
  have htrimmed : checkedAdd (ring.base + fromBuffer) (overflow - fromBuffer) =
      some (ring.base + fromBuffer + (overflow - fromBuffer)) := checkedAdd_of_lt (by omega)
  simp only [hevicted, evicted_eq, hskipped, hslice, htrimmed, Option.bind_some, Option.pure_def]
  refine ⟨_, rfl, ?_, ?_⟩
  · intro moment hmoment
    simp only [List.cons_append, List.nil_append, List.mem_cons] at hmoment
    rcases hmoment with rfl | rfl | rfl | rfl | hlater
    · exact hlen
    · simp only [List.length_drop]
      omega
    · simp only [List.length_drop]
      omega
    · simp only [List.length_drop]
      omega
    · have hle := extendMoments_length hlater
      simp only [List.length_drop] at hle
      omega
  · simp only [List.cons_append, List.nil_append, List.getLast?_cons_cons, extendMoments_last]

end Ring

/-- The ring after any appends, none of which underflows. -/
theorem Feed.append_all (ceiling : Nat) (feed : Feed) (slices : List (List UInt8)) :
    slices.foldlM (Ring.appendWithin ceiling) (feed.ring ceiling) =
      some ((feed.append slices.flatten).ring ceiling) := by
  induction slices generalizing feed with
  | nil => simp [append]
  | cons bytes slices ih =>
    rw [List.foldlM_cons, append_ring, Option.bind_eq_bind, Option.bind_some, ih]
    simp [append]

/-- The buffer holds the newest octets of everything appended, at most the ceiling of them, each under
its own offset. -/
structure Ring.Windows (ring : Ring) (stream : List UInt8) : Prop where
  length : ring.buf.length = min stream.length ringBytes
  newest : ring.buf = stream.drop (stream.length - ring.buf.length)
  base : ring.base = stream.length - ring.buf.length
  head : ring.head = stream.length

theorem Feed.ring_windows (feed : Feed) : (feed.ring ringBytes).Windows feed.stream := by
  have hlength : (feed.ring ringBytes).buf.length = min feed.stream.length ringBytes := by
    rw [ring, Window.length_retained, Nat.min_comm]
  have hbase : feed.base ringBytes = feed.stream.length - (feed.ring ringBytes).buf.length := by
    rw [hlength, base, Window.base]
    omega
  refine ⟨hlength, ?_, hbase, feed.head_ring ringBytes⟩
  rw [← hbase]
  rfl

/-- After any appends, one more call has no moment over the ceiling, and its last moment, the ring it
leaves, is the window of everything appended. -/
theorem ring_window (done : List (List UInt8)) (bytes : List UInt8)
    (htotal : (done ++ [bytes]).flatten.length < 2 ^ 64) :
    ∃ ring moments after, done.foldlM Ring.append .new = some ring ∧
      ring.append bytes = some after ∧
      ring.appendMoments bytes = some moments ∧ moments.getLast? = some after ∧
      (∀ moment ∈ moments, moment.buf.length ≤ ringBytes) ∧
      after.Windows (done ++ [bytes]).flatten := by
  have hnew : Ring.new = (Feed.mk [] false).ring ringBytes := by
    simp [Ring.new, Feed.ring, Feed.base, Window.retained, Window.base]
  have hdone := Feed.append_all ringBytes ⟨[], false⟩ done
  have hcall := Feed.append_ring ringBytes ((Feed.mk [] false).append done.flatten) bytes
  rw [← hnew] at hdone
  generalize hfeed : (Feed.mk [] false).append done.flatten = feed at hdone hcall
  have hstream : (feed.append bytes).stream = (done ++ [bytes]).flatten := by simp [← hfeed, Feed.append]
  have hlen : (feed.ring ringBytes).buf.length ≤ ringBytes := by
    rw [Feed.ring, Window.length_retained]
    exact Nat.min_le_left _ _
  have hbound : (feed.ring ringBytes).head + bytes.length < 2 ^ 64 := by
    rw [feed.head_ring, ← List.length_append]
    exact (congrArg List.length hstream).trans_lt htotal
  obtain ⟨moments, hmoments, hwithin, hlast⟩ := Ring.appendMomentsWithin_spec hlen hbound
  refine ⟨_, moments, _, hdone, hcall, hmoments, hlast.trans hcall, hwithin, ?_⟩
  rw [← hstream]
  exact (feed.append bytes).ring_windows

theorem ring_window_three :
    ∃ ring moments after, [[1, 2]].foldlM Ring.append .new = some ring ∧ ring.append [3] = some after ∧
      ring.appendMoments [3] = some moments ∧ moments.getLast? = some after ∧
      (∀ moment ∈ moments, moment.buf.length ≤ ringBytes) ∧ after.Windows [1, 2, 3] :=
  ring_window [[1, 2]] [3] (by decide)

end Tightbeam
