import Tightbeam.Cut
import Mathlib.Data.List.Perm.Basic

/-!
# The session loop

`serveSession` waits on three arms at once: the next stream, any stream in flight, and the sweep of a
wired cut. An arm is waited on only under its guard, and when no arm is left the loop breaks. The
guards are read at the start of a wait; the sweep's own pattern can also take its arm out of the one
wait it fails in.
-/
namespace Tightbeam

def maxStreamsPerSession : Nat := 256

/-- How a session's loop returned. -/
inductive SessionEnd where
  | Drained
  | Cut (why : Tightbeam.Cut)
  deriving DecidableEq, Repr

/-- The loop between two events. `waiting` is the transport's own queue, which dropping an unfinished
accept leaves as it was. The last four fields are history. -/
structure SessionLoop where
  accepting : Bool
  waiting : List Nat
  pipes : List Nat
  /-- Whether the sweep's arm is out of this wait: it resolved, and not to `true`. -/
  unswept : Bool
  ended : Option SessionEnd
  arrived : List Nat
  accepted : List Nat
  completed : List Nat
  dropped : List Nat
  deriving DecidableEq, Repr

/-- What can happen to a session, in any order: a stream reaches the transport, an arm resolves, or the
node's sweep turns out to be gone. A sweep carries what the cut rules at that instant. -/
inductive LoopEvent where
  | arrives (stream : Nat)
  | accepts
  | acceptFails
  | completes (stream : Nat)
  | sweeps (why : Option Cut)
  | sweepGone
  deriving DecidableEq, Repr

namespace SessionLoop

def start : SessionLoop := ⟨true, [], [], false, none, [], [], [], []⟩

def acceptArm (s : SessionLoop) : Bool := s.accepting && decide (s.pipes.length < maxStreamsPerSession)

def pipeArm (s : SessionLoop) : Bool := !s.pipes.isEmpty

def sweepArm (s : SessionLoop) : Bool := (s.accepting || !s.pipes.isEmpty) && !s.unswept

/-- A wait with no arm left takes `else`. -/
def select (s : SessionLoop) : SessionLoop :=
  if s.acceptArm = false ∧ s.pipeArm = false ∧ s.sweepArm = false then { s with ended := some .Drained }
  else s

/-- A handler ran, and the loop waits again with every guard read anew. -/
def next (s : SessionLoop) : SessionLoop := select { s with unswept := false }

/-- One event. An arm out of its guard is not polled, so it does not resolve; nor does the sweep of a
session with no cut wired. -/
def step (wired : Bool) (s : SessionLoop) (event : LoopEvent) : SessionLoop :=
  if s.ended.isSome then s
  else match event with
    | .arrives stream => { s with waiting := s.waiting ++ [stream], arrived := s.arrived ++ [stream] }
    | .accepts =>
      if s.acceptArm then match s.waiting with
        | [] => s
        | stream :: rest =>
          next { s with waiting := rest, pipes := s.pipes ++ [stream], accepted := s.accepted ++ [stream] }
      else s
    | .acceptFails => if s.acceptArm then next { s with accepting := false } else s
    | .completes stream =>
      if s.pipeArm ∧ stream ∈ s.pipes then
        next { s with pipes := s.pipes.erase stream, completed := s.completed ++ [stream] }
      else s
    | .sweeps why =>
      if wired ∧ s.sweepArm then match why with
        | some why => { s with pipes := [], dropped := s.pipes, ended := some (.Cut why) }
        | none => next s
      else s
    | .sweepGone => if wired ∧ s.sweepArm then select { s with unswept := true } else s

def run (wired : Bool) (s : SessionLoop) (events : List LoopEvent) : SessionLoop := events.foldl (step wired) s

/-- With the two arms that make progress out of their guards, so is the sweep's. -/
theorem drained_iff (s : SessionLoop) :
    (s.acceptArm = false ∧ s.pipeArm = false ∧ s.sweepArm = false) ↔ s.accepting = false ∧ s.pipes = [] := by
  constructor
  · rintro ⟨haccept, hpipe, -⟩
    have hpipes : s.pipes = [] := by simpa [pipeArm] using hpipe
    refine ⟨?_, hpipes⟩
    simpa [acceptArm, hpipes, maxStreamsPerSession] using haccept
  · rintro ⟨haccepting, hpipes⟩
    simp [acceptArm, pipeArm, sweepArm, haccepting, hpipes]

theorem select_eq (s : SessionLoop) :
    s.select = if s.accepting = false ∧ s.pipes = [] then { s with ended := some .Drained } else s := by
  unfold select
  simp only [drained_iff]

/-- Everything one event can do to a loop, with the guard it did it under. -/
inductive Stepped (s : SessionLoop) : SessionLoop → Prop where
  | stays : Stepped s s
  | arrives (stream : Nat) : Stepped s { s with waiting := s.waiting ++ [stream], arrived := s.arrived ++ [stream] }
  | accepts (stream : Nat) (rest : List Nat) (hnone : s.ended = none) (harm : s.acceptArm = true)
      (hwaiting : s.waiting = stream :: rest) :
      Stepped s (next { s with waiting := rest, pipes := s.pipes ++ [stream], accepted := s.accepted ++ [stream] })
  | acceptFails (hnone : s.ended = none) : Stepped s (next { s with accepting := false })
  | completes (stream : Nat) (hnone : s.ended = none) (hmem : stream ∈ s.pipes) :
      Stepped s (next { s with pipes := s.pipes.erase stream, completed := s.completed ++ [stream] })
  | cut (why : Tightbeam.Cut) (hnone : s.ended = none) :
      Stepped s { s with pipes := [], dropped := s.pipes, ended := some (.Cut why) }
  | swept (hnone : s.ended = none) : Stepped s s.next
  | sweepGone (hnone : s.ended = none) : Stepped s (select { s with unswept := true })

theorem step_stepped (wired : Bool) (s : SessionLoop) (event : LoopEvent) : Stepped s (s.step wired event) := by
  unfold step
  by_cases hended : s.ended.isSome
  · rw [if_pos hended]
    exact .stays
  rw [if_neg hended]
  have hnone : s.ended = none := by simpa using hended
  cases event with
  | arrives stream => exact .arrives stream
  | accepts =>
    by_cases harm : s.acceptArm = true
    · simp only [if_pos harm]
      cases hwaiting : s.waiting with
      | nil => exact .stays
      | cons stream rest => exact .accepts stream rest hnone harm hwaiting
    · simp only [if_neg harm]
      exact .stays
  | acceptFails =>
    by_cases harm : s.acceptArm = true
    · simp only [if_pos harm]
      exact .acceptFails hnone
    · simp only [if_neg harm]
      exact .stays
  | completes stream =>
    by_cases harm : s.pipeArm = true ∧ stream ∈ s.pipes
    · simp only [if_pos harm]
      exact .completes stream hnone harm.2
    · simp only [if_neg harm]
      exact .stays
  | sweeps why =>
    by_cases harm : wired = true ∧ s.sweepArm = true
    · simp only [if_pos harm]
      cases why with
      | none => exact .swept hnone
      | some why => exact .cut why hnone
    · simp only [if_neg harm]
      exact .stays
  | sweepGone =>
    by_cases harm : wired = true ∧ s.sweepArm = true
    · simp only [if_pos harm]
      exact .sweepGone hnone
    · simp only [if_neg harm]
      exact .stays

/-- What holds of a session's loop whatever happened to it. -/
structure Sound (s : SessionLoop) : Prop where
  bounded : s.pipes.length ≤ maxStreamsPerSession
  queued : s.arrived = s.accepted ++ s.waiting
  kept : s.accepted.Perm (s.completed ++ (s.pipes ++ s.dropped))
  cut : s.dropped ≠ [] → ∃ why, s.ended = some (.Cut why)
  returns : s.accepting = false → s.pipes = [] → s.ended ≠ none
  drained : s.ended = some .Drained → s.accepting = false ∧ s.pipes = []

theorem Sound.start : Sound start where
  bounded := by decide
  queued := rfl
  kept := .nil
  cut := by simp [SessionLoop.start]
  returns := by simp [SessionLoop.start]
  drained := by simp [SessionLoop.start]

/-- All but the two facts about the end, of a loop that has not ended. The next wait adds those. -/
structure Running (s : SessionLoop) : Prop where
  bounded : s.pipes.length ≤ maxStreamsPerSession
  queued : s.arrived = s.accepted ++ s.waiting
  kept : s.accepted.Perm (s.completed ++ s.pipes)
  whole : s.dropped = []
  unended : s.ended = none

theorem Running.select {s : SessionLoop} (h : Running s) : Sound s.select := by
  rw [select_eq]
  have hkept : s.accepted.Perm (s.completed ++ (s.pipes ++ s.dropped)) := by
    rw [h.whole, List.append_nil]
    exact h.kept
  by_cases hdrained : s.accepting = false ∧ s.pipes = []
  · rw [if_pos hdrained]
    exact ⟨h.bounded, h.queued, hkept, fun hdropped => absurd h.whole hdropped, by simp, fun _ => hdrained⟩
  · rw [if_neg hdrained]
    refine ⟨h.bounded, h.queued, hkept, fun hdropped => absurd h.whole hdropped, ?_, ?_⟩
    · intro haccepting hpipes
      exact absurd ⟨haccepting, hpipes⟩ hdrained
    · intro hended
      rw [h.unended] at hended
      cases hended

theorem Running.next {s : SessionLoop} (h : Running s) : Sound s.next :=
  Running.select ⟨h.bounded, h.queued, h.kept, h.whole, h.unended⟩

theorem Sound.running {s : SessionLoop} (h : Sound s) (hended : s.ended = none) : Running s := by
  have hwhole : s.dropped = [] := by
    by_contra hdropped
    obtain ⟨why, hwhy⟩ := h.cut hdropped
    rw [hended] at hwhy
    cases hwhy
  have hkept := h.kept
  rw [hwhole, List.append_nil] at hkept
  exact ⟨h.bounded, h.queued, hkept, hwhole, hended⟩

theorem Sound.step {s : SessionLoop} (h : Sound s) (wired : Bool) (event : LoopEvent) :
    Sound (s.step wired event) := by
  have hstep := step_stepped wired s event
  generalize s.step wired event = t at hstep ⊢
  cases hstep with
  | stays => exact h
  | arrives stream => exact ⟨h.bounded, by simp [h.queued], h.kept, h.cut, h.returns, h.drained⟩
  | accepts stream rest hnone harm hwaiting =>
    have hrunning := h.running hnone
    have hroom : s.pipes.length < maxStreamsPerSession := by
      simp only [acceptArm, Bool.and_eq_true, decide_eq_true_eq] at harm
      exact harm.2
    refine Running.next ⟨?_, ?_, ?_, hrunning.whole, hnone⟩
    · simp only [List.length_append, List.length_cons, List.length_nil]
      omega
    · simp [hrunning.queued, hwaiting]
    · simp only
      rw [← List.append_assoc]
      exact hrunning.kept.append_right [stream]
  | acceptFails hnone =>
    have hrunning := h.running hnone
    exact Running.next ⟨hrunning.bounded, hrunning.queued, hrunning.kept, hrunning.whole, hnone⟩
  | completes stream hnone hmem =>
    have hrunning := h.running hnone
    have hmoved : (s.completed ++ s.pipes).Perm (s.completed ++ [stream] ++ s.pipes.erase stream) := by
      rw [List.append_assoc]
      exact (List.perm_cons_erase hmem).append_left s.completed
    refine Running.next ⟨?_, hrunning.queued, hrunning.kept.trans hmoved, hrunning.whole, hnone⟩
    exact le_trans List.length_erase_le hrunning.bounded
  | cut why hnone =>
    have hkept := (h.running hnone).kept
    exact ⟨Nat.zero_le _, h.queued, by simpa using hkept, fun _ => ⟨why, rfl⟩, by simp, by simp⟩
  | swept hnone => exact (h.running hnone).next
  | sweepGone hnone =>
    have hrunning := h.running hnone
    exact Running.select ⟨hrunning.bounded, hrunning.queued, hrunning.kept, hrunning.whole, hnone⟩

theorem Sound.run {s : SessionLoop} (h : Sound s) (wired : Bool) (events : List LoopEvent) :
    Sound (s.run wired events) := by
  induction events generalizing s with
  | nil => exact h
  | cons event rest ih => exact ih (h.step wired event)

/-- The two fields a failed accept freezes. -/
def Frozen (s t : SessionLoop) : Prop := t.accepting = false ∧ t.accepted = s.accepted

theorem select_frozen (s t : SessionLoop) (h : Frozen s t) : Frozen s t.select := by
  unfold select
  split_ifs
  · exact h
  · exact h

/-- Once accept has failed its arm is out of every later wait. -/
theorem step_frozen (wired : Bool) (s t : SessionLoop) (h : Frozen s t) (event : LoopEvent) :
    Frozen s (t.step wired event) := by
  have hstep := step_stepped wired t event
  generalize t.step wired event = u at hstep ⊢
  cases hstep with
  | stays => exact h
  | arrives stream => exact h
  | accepts stream rest hnone harm hwaiting =>
    simp only [acceptArm, h.1, Bool.false_and] at harm
    cases harm
  | acceptFails hnone => exact select_frozen s _ ⟨rfl, h.2⟩
  | completes stream hnone hmem => exact select_frozen s _ h
  | cut why hnone => exact h
  | swept hnone => exact select_frozen s _ h
  | sweepGone hnone => exact select_frozen s _ h

theorem run_frozen (wired : Bool) (s t : SessionLoop) (h : Frozen s t) (events : List LoopEvent) :
    Frozen s (t.run wired events) := by
  induction events generalizing t with
  | nil => exact h
  | cons event rest ih => exact ih _ (step_frozen wired s t h event)

/-- A handler that ran leaves the loop waiting, or drained. -/
theorem next_eq (s : SessionLoop) :
    s.next = { s with
      unswept := false, ended := if s.accepting = false ∧ s.pipes = [] then some .Drained else s.ended } := by
  unfold next
  rw [select_eq]
  split_ifs <;> rfl

theorem next_accepting (s : SessionLoop) : s.next.accepting = s.accepting := by rw [next_eq]

theorem select_accepting (s : SessionLoop) : s.select.accepting = s.accepting := by
  rw [select_eq]
  split_ifs <;> rfl

section Events

variable {s : SessionLoop} {wired : Bool}

/-- Only a failed accept ends accepting. -/
theorem step_accepting {event : LoopEvent} (hfails : event ≠ .acceptFails) :
    (s.step wired event).accepting = s.accepting := by
  unfold step
  by_cases hended : s.ended.isSome
  · rw [if_pos hended]
  rw [if_neg hended]
  cases event with
  | arrives stream => rfl
  | accepts =>
    by_cases harm : s.acceptArm = true
    · simp only [if_pos harm]
      cases s.waiting with
      | nil => rfl
      | cons stream rest => exact next_accepting _
    · simp only [if_neg harm]
  | acceptFails => exact absurd rfl hfails
  | completes stream =>
    by_cases harm : s.pipeArm = true ∧ stream ∈ s.pipes
    · simp only [if_pos harm]
      exact next_accepting _
    · simp only [if_neg harm]
  | sweeps why =>
    by_cases harm : wired = true ∧ s.sweepArm = true
    · simp only [if_pos harm]
      cases why with
      | none => exact next_accepting s
      | some why => rfl
    · simp only [if_neg harm]
  | sweepGone =>
    by_cases harm : wired = true ∧ s.sweepArm = true
    · simp only [if_pos harm]
      exact select_accepting _
    · simp only [if_neg harm]

theorem run_accepting {events : List LoopEvent} (hfails : .acceptFails ∉ events) :
    (s.run wired events).accepting = s.accepting := by
  induction events generalizing s with
  | nil => rfl
  | cons event rest ih =>
    rw [List.mem_cons, not_or] at hfails
    exact (ih hfails.2).trans (step_accepting (Ne.symm hfails.1))

theorem step_accepts (hnone : s.ended = none) (harm : s.acceptArm = true) {stream : Nat} {rest : List Nat}
    (hwaiting : s.waiting = stream :: rest) : s.step wired .accepts =
      next { s with waiting := rest, pipes := s.pipes ++ [stream], accepted := s.accepted ++ [stream] } := by
  simp [step, hnone, harm, hwaiting]

theorem step_acceptFails (hnone : s.ended = none) (harm : s.acceptArm = true) :
    s.step wired .acceptFails = next { s with accepting := false } := by
  simp [step, hnone, harm]

theorem step_completes (hnone : s.ended = none) {stream : Nat} (hmem : stream ∈ s.pipes) :
    s.step wired (.completes stream) =
      next { s with pipes := s.pipes.erase stream, completed := s.completed ++ [stream] } := by
  have harm : s.pipeArm = true := by
    cases hpipes : s.pipes with
    | nil => simp [hpipes] at hmem
    | cons other rest => simp [pipeArm, hpipes]
  simp [step, hnone, harm, hmem]

/-- What the loop does of each event that an arm it waits on resolves with. A failed accept ends accepting for
good, and the loop is over once nothing is in flight. -/
structure Handles (wired : Bool) (s : SessionLoop) : Prop where
  accepts : s.acceptArm = true → ∀ stream rest, s.waiting = stream :: rest →
    (s.step wired .accepts).pipes = s.pipes ++ [stream] ∧
      (s.step wired .accepts).accepted = s.accepted ++ [stream] ∧ (s.step wired .accepts).waiting = rest
  fails : s.acceptArm = true → ∀ later, let t := (s.step wired .acceptFails).run wired later
    t.accepted = s.accepted ∧ t.acceptArm = false ∧ (t.pipes = [] → t.ended ≠ none)
  drains : s.acceptArm = true → s.pipes = [] → (s.step wired .acceptFails).ended = some .Drained
  completes : ∀ stream ∈ s.pipes, (s.step wired (.completes stream)).pipes = s.pipes.erase stream ∧
    (s.step wired (.completes stream)).completed = s.completed ++ [stream] ∧
      (s.accepting = false → s.pipes = [stream] → (s.step wired (.completes stream)).ended = some .Drained)

theorem Sound.handles (h : Sound s) (hnone : s.ended = none) : Handles wired s where
  accepts := by
    intro harm stream rest hwaiting
    rw [step_accepts hnone harm hwaiting, next_eq]
    exact ⟨rfl, rfl, rfl⟩
  fails := by
    intro harm later
    have hfrozen : Frozen s (s.step wired .acceptFails) := by
      rw [step_acceptFails hnone harm, next_eq]
      exact ⟨rfl, rfl⟩
    have hlater := run_frozen wired s _ hfrozen later
    have hsound := (h.step wired .acceptFails).run wired later
    exact ⟨hlater.2, by simp [acceptArm, hlater.1], hsound.returns hlater.1⟩
  drains := by
    intro harm hpipes
    rw [step_acceptFails hnone harm, next_eq]
    simp [hpipes]
  completes := by
    intro stream hmem
    rw [step_completes hnone hmem, next_eq]
    refine ⟨rfl, rfl, fun hfailed hpipes => ?_⟩
    simp [hfailed, hpipes]

end Events

end SessionLoop

open SessionLoop

/-- Every order of events, with or without a cut wired: at most 256 streams are in flight; a stream is
accepted in arrival order and then completes, is in flight, or was dropped by the cut; an accept error the loop
hears, in whatever state, ends accepting in every later run, and nothing is accepted after it; the loop has
returned as soon as accept failed and nothing is in flight, and drains in no other state; and until it returns
accept or a stream in flight is waited on, and whatever either resolves with is handled. -/
theorem session_loop_drains (wired : Bool) (events : List LoopEvent) :
    let s := start.run wired events
    s.pipes.length ≤ 256 ∧
    s.arrived = s.accepted ++ s.waiting ∧
    s.accepted.Perm (s.completed ++ (s.pipes ++ s.dropped)) ∧
    (s.dropped ≠ [] → ∃ why, s.ended = some (.Cut why)) ∧
    (s.accepting = false → .acceptFails ∈ events ∧ ∀ later, (s.run wired later).accepted = s.accepted) ∧
    (s.accepting = false → s.pipes = [] → s.ended ≠ none) ∧
    (s.ended = some .Drained → s.accepting = false ∧ s.pipes = [] ∧ s.accepted.Perm s.completed) ∧
    (s.ended = none → Handles wired s ∧ (s.acceptArm = true ∨ s.pipeArm = true)) := by
  intro s
  have hsound : Sound s := Sound.start.run wired events
  refine ⟨hsound.bounded, hsound.queued, hsound.kept, hsound.cut, ?_, hsound.returns, ?_, ?_⟩
  · intro hfailed
    refine ⟨?_, fun later => (run_frozen wired s s ⟨hfailed, rfl⟩ later).2⟩
    by_contra hnever
    cases (run_accepting hnever).symm.trans hfailed
  · intro hdrained
    obtain ⟨hfailed, hpipes⟩ := hsound.drained hdrained
    have hdropped : s.dropped = [] := by
      by_contra hne
      obtain ⟨why, hwhy⟩ := hsound.cut hne
      rw [hdrained] at hwhy
      cases hwhy
    have hkept := hsound.kept
    rw [hpipes, hdropped] at hkept
    exact ⟨hfailed, hpipes, by simpa using hkept⟩
  · intro hunended
    refine ⟨hsound.handles hunended, ?_⟩
    by_contra hstuck
    simp only [not_or, Bool.not_eq_true] at hstuck
    have hpipes : s.pipes = [] := by simpa [pipeArm] using hstuck.2
    have hfailed : s.accepting = false := by
      simpa [acceptArm, hpipes, maxStreamsPerSession] using hstuck.1
    exact hsound.returns hfailed hpipes hunended

end Tightbeam
