import Tightbeam.Connector
import Mathlib.Data.List.Perm.Basic
import Mathlib.Data.List.Induction

/-!
# The forward's loop

`PortForward::run` accepts local connections and carries each one over a stream of its own. It waits on four
arms at once: the end of its session, the pause after a failed accept, the next connection while there is
room, and any connection in flight.
-/
namespace Tightbeam

def maxPipes : Nat := 128

/-- In milliseconds. -/
def acceptRetry : Nat := 100

/-- Why a session ended, as one poll of an open on it said. -/
inductive LostCause where
  | Cause (cause : StreamCause)
  | Other (error : BifrostError)
  deriving DecidableEq

structure ConnectionLost where
  source : Option LostCause
  deriving DecidableEq

/-- The open is asked once and never awaited. -/
def ConnectionLost.of : Option (Except BifrostError Unit) → ConnectionLost
  | some (.error (.Stream cause)) => ⟨some (.Cause cause)⟩
  | some (.error other) => ⟨some (.Other other)⟩
  | some (.ok _) => ⟨none⟩
  | none => ⟨none⟩

/-- A line of the forward's log. -/
inductive ForwardLine where
  | AcceptFailed
  | ConnectionFailed (report : Report)
  deriving DecidableEq

/-- An accept that resolved: when, and whether it failed. -/
structure Attempt where
  time : Nat
  failed : Bool
  deriving DecidableEq

/-- The loop between two events. `backlog` is the kernel's own queue. The last six fields are history. -/
structure ForwardLoop where
  now : Nat
  backlog : List Nat
  pipes : List Nat
  paused : Bool
  retry : Nat
  closed : Bool
  ended : Option ConnectionLost
  arrived : List Nat
  accepted : List Nat
  completed : List Nat
  dropped : List Nat
  attempts : List Attempt
  log : List ForwardLine

inductive ForwardEvent where
  /-- Time passes, a connection reaches the kernel, or the session closes. -/
  | passes (time : Nat)
  | arrives (conn : Nat)
  | closes
  /-- An arm resolves. -/
  | accepts
  | acceptFails
  | retries
  | completes (conn : Nat) (result : Except Report Unit)
  | lost (openBi : Option (Except BifrostError Unit))

namespace ForwardLoop

def start : ForwardLoop := ⟨0, [], [], false, 0, false, none, [], [], [], [], [], []⟩

def acceptArm (s : ForwardLoop) : Bool := !s.paused && decide (s.pipes.length < maxPipes)

def retryArm (s : ForwardLoop) : Bool := s.paused && decide (s.retry ≤ s.now)

/-- What a pipe that ended leaves in the log. -/
def line : Except Report Unit → List ForwardLine
  | .ok _ => []
  | .error report => [.ConnectionFailed report]

/-- One event. An arm out of its guard is not polled, so it does not resolve. -/
def step (s : ForwardLoop) (event : ForwardEvent) : ForwardLoop :=
  if s.ended.isSome then s
  else match event with
    | .passes time => { s with now := s.now + time }
    | .arrives conn => { s with backlog := s.backlog ++ [conn], arrived := s.arrived ++ [conn] }
    | .closes => { s with closed := true }
    | .accepts =>
      if s.acceptArm then match s.backlog with
        | [] => s
        | conn :: rest =>
          { s with
            backlog := rest
            pipes := s.pipes ++ [conn]
            accepted := s.accepted ++ [conn]
            attempts := s.attempts ++ [⟨s.now, false⟩] }
      else s
    | .acceptFails =>
      if s.acceptArm then
        { s with
          paused := true
          retry := s.now + acceptRetry
          attempts := s.attempts ++ [⟨s.now, true⟩]
          log := s.log ++ [.AcceptFailed] }
      else s
    | .retries => if s.retryArm then { s with paused := false } else s
    | .completes conn result =>
      if conn ∈ s.pipes then
        { s with
          pipes := s.pipes.erase conn
          completed := s.completed ++ [conn]
          log := s.log ++ line result }
      else s
    | .lost openBi =>
      if s.closed then { s with pipes := [], dropped := s.pipes, ended := some (.of openBi) } else s

def run (s : ForwardLoop) (events : List ForwardEvent) : ForwardLoop := events.foldl step s

/-- Everything one event can do to a loop, with the guard it did it under. -/
inductive Stepped (s : ForwardLoop) : ForwardLoop → Prop where
  | stays : Stepped s s
  | passes (time : Nat) (hnone : s.ended = none) : Stepped s { s with now := s.now + time }
  | arrives (conn : Nat) (hnone : s.ended = none) :
      Stepped s { s with backlog := s.backlog ++ [conn], arrived := s.arrived ++ [conn] }
  | closes (hnone : s.ended = none) : Stepped s { s with closed := true }
  | accepts (conn : Nat) (rest : List Nat) (hnone : s.ended = none) (hpaused : s.paused = false)
      (hroom : s.pipes.length < maxPipes) (hbacklog : s.backlog = conn :: rest) :
      Stepped s { s with
        backlog := rest, pipes := s.pipes ++ [conn], accepted := s.accepted ++ [conn],
        attempts := s.attempts ++ [⟨s.now, false⟩] }
  | fails (hnone : s.ended = none) (hpaused : s.paused = false) :
      Stepped s { s with
        paused := true, retry := s.now + acceptRetry, attempts := s.attempts ++ [⟨s.now, true⟩],
        log := s.log ++ [.AcceptFailed] }
  | retries (hnone : s.ended = none) (hdue : s.retry ≤ s.now) : Stepped s { s with paused := false }
  | completes (conn : Nat) (lines : List ForwardLine) (hnone : s.ended = none) (hmem : conn ∈ s.pipes) :
      Stepped s { s with
        pipes := s.pipes.erase conn, completed := s.completed ++ [conn], log := s.log ++ lines }
  | lost (why : ConnectionLost) (hnone : s.ended = none) (hclosed : s.closed = true) :
      Stepped s { s with pipes := [], dropped := s.pipes, ended := some why }

theorem step_stepped (s : ForwardLoop) (event : ForwardEvent) : Stepped s (s.step event) := by
  unfold step
  by_cases hended : s.ended.isSome
  · rw [if_pos hended]
    exact .stays
  rw [if_neg hended]
  have hnone : s.ended = none := by simpa using hended
  cases event with
  | passes time => exact .passes time hnone
  | arrives conn => exact .arrives conn hnone
  | closes => exact .closes hnone
  | accepts =>
    by_cases harm : s.acceptArm = true
    · simp only [if_pos harm]
      simp only [acceptArm, Bool.and_eq_true, Bool.not_eq_true', decide_eq_true_eq] at harm
      cases hbacklog : s.backlog with
      | nil => exact .stays
      | cons conn rest => exact .accepts conn rest hnone harm.1 harm.2 hbacklog
    · simp only [if_neg harm]
      exact .stays
  | acceptFails =>
    by_cases harm : s.acceptArm = true
    · simp only [if_pos harm]
      simp only [acceptArm, Bool.and_eq_true, Bool.not_eq_true'] at harm
      exact .fails hnone harm.1
    · simp only [if_neg harm]
      exact .stays
  | retries =>
    by_cases harm : s.retryArm = true
    · simp only [if_pos harm]
      simp only [retryArm, Bool.and_eq_true, decide_eq_true_eq] at harm
      exact .retries hnone harm.2
    · simp only [if_neg harm]
      exact .stays
  | completes conn result =>
    by_cases hmem : conn ∈ s.pipes
    · simp only [if_pos hmem]
      exact .completes conn (line result) hnone hmem
    · simp only [if_neg hmem]
      exact .stays
  | lost openBi =>
    by_cases hclosed : s.closed = true
    · simp only [if_pos hclosed]
      exact .lost _ hnone hclosed
    · simp only [if_neg hclosed]
      exact .stays

/-- Nothing is accepted for a while after an accept that failed. -/
def Spaced (attempts : List Attempt) : Prop :=
  attempts.Pairwise fun a b => a.failed = true → a.time + acceptRetry ≤ b.time

/-- What every loop keeps: each connection is accounted for once, and a failed accept holds the next one
back. -/
structure Inv (s : ForwardLoop) : Prop where
  bounded : s.pipes.length ≤ maxPipes
  order : s.accepted ++ s.backlog = s.arrived
  accounts : (s.completed ++ s.pipes ++ s.dropped).Perm s.accepted
  running : s.ended = none → s.dropped = []
  isOver : s.ended.isSome = true → s.closed = true
  spaced : Spaced s.attempts
  due : ∀ a ∈ s.attempts, a.failed = true →
    a.time + acceptRetry ≤ s.now ∨ (s.paused = true ∧ a.time + acceptRetry ≤ s.retry)
  pause : s.paused = true → s.retry ≤ s.now + acceptRetry

theorem inv_start : start.Inv where
  bounded := Nat.zero_le _
  order := rfl
  accounts := List.Perm.refl _
  running := fun _ => rfl
  isOver := by
    intro h
    cases h
  spaced := List.Pairwise.nil
  due := by
    intro a hmem
    cases hmem
  pause := by
    intro h
    cases h

/-- An attempt while the loop is not paused is late enough after every failed one. -/
theorem Inv.spaced_snoc {s : ForwardLoop} (h : s.Inv) (hpaused : s.paused = false) (failed : Bool) :
    Spaced (s.attempts ++ [⟨s.now, failed⟩]) := by
  refine List.pairwise_append.mpr ⟨h.spaced, List.pairwise_singleton _ _, fun a hmem b hb hfailed => ?_⟩
  obtain rfl := List.mem_singleton.mp hb
  rcases h.due a hmem hfailed with hnow | ⟨hpause, -⟩
  · exact hnow
  · rw [hpaused] at hpause
    cases hpause

theorem Inv.stepped {s t : ForwardLoop} (h : s.Inv) (hstep : Stepped s t) : t.Inv := by
  cases hstep with
  | stays => exact h
  | passes time hnone =>
    refine { h with due := fun a hmem hfailed => ?_, pause := fun hpaused => ?_ }
    · rcases h.due a hmem hfailed with hnow | hretry
      · exact .inl (Nat.le_add_right_of_le hnow)
      · exact .inr hretry
    · have hretry := h.pause hpaused
      change s.retry ≤ s.now + time + acceptRetry
      omega
  | arrives conn hnone =>
    refine { h with order := ?_ }
    rw [← List.append_assoc, h.order]
  | closes hnone => exact { h with isOver := fun _ => rfl }
  | accepts conn rest hnone hpaused hroom hbacklog =>
    refine
      { bounded := ?_
        order := ?_
        accounts := ?_
        running := h.running
        isOver := h.isOver
        spaced := h.spaced_snoc hpaused false
        due := fun a hmem hfailed => ?_
        pause := h.pause }
    · rw [List.length_append]
      exact hroom
    · rw [List.append_assoc, List.singleton_append, ← hbacklog]
      exact h.order
    · have hdropped := h.running hnone
      have haccounts := h.accounts
      simp only [hdropped, List.append_nil] at haccounts ⊢
      rw [← List.append_assoc]
      exact haccounts.append_right [conn]
    · rcases List.mem_append.mp hmem with hold | hnew
      · exact h.due a hold hfailed
      · obtain rfl := List.mem_singleton.mp hnew
        cases hfailed
  | fails hnone hpaused =>
    refine
      { h with
        spaced := h.spaced_snoc hpaused true
        due := fun a hmem hfailed => ?_
        pause := fun _ => Nat.le_refl _ }
    rcases List.mem_append.mp hmem with hold | hnew
    · rcases h.due a hold hfailed with hnow | ⟨hpause, -⟩
      · exact .inl hnow
      · rw [hpaused] at hpause
        cases hpause
    · obtain rfl := List.mem_singleton.mp hnew
      exact .inr ⟨rfl, Nat.le_refl _⟩
  | retries hnone hdue =>
    refine { h with due := fun a hmem hfailed => ?_, pause := fun hpaused => by cases hpaused }
    rcases h.due a hmem hfailed with hnow | ⟨-, hretry⟩
    · exact .inl hnow
    · exact .inl (hretry.trans hdue)
  | completes conn lines hnone hmem =>
    have hdropped := h.running hnone
    refine { h with bounded := ?_, accounts := ?_ }
    · exact (List.length_erase_le).trans h.bounded
    · have haccounts := h.accounts
      simp only [hdropped, List.append_nil] at haccounts ⊢
      rw [List.append_assoc, List.singleton_append]
      exact ((List.perm_cons_erase hmem).symm.append_left s.completed).trans haccounts
  | lost why hnone hclosed =>
    have hdropped := h.running hnone
    refine
      { h with
        bounded := Nat.zero_le _
        accounts := ?_
        running := fun hnot => by cases hnot
        isOver := fun _ => hclosed }
    have haccounts := h.accounts
    simpa only [hdropped, List.append_nil] using haccounts

theorem inv_run (events : List ForwardEvent) : (run start events).Inv := by
  induction events using List.reverseRecOn with
  | nil => exact inv_start
  | append_singleton events event ih =>
    rw [run, List.foldl_append]
    exact ih.stepped (step_stepped _ event)

/-- The instants at which accepts failed in a span of time. -/
def failures (s : ForwardLoop) (first last : Nat) : List Nat :=
  (s.attempts.filter fun a => a.failed && decide (first ≤ a.time) && decide (a.time ≤ last)).map Attempt.time

/-- Instants this far apart are few in any span. -/
theorem spaced_count {apart : Nat} {times : List Nat} (h : times.Pairwise fun a b => a + apart ≤ b)
    {first last : Nat} (hspan : ∀ time ∈ times, first ≤ time ∧ time ≤ last) :
    times.length * apart ≤ last - first + apart := by
  induction times generalizing first with
  | nil => simp
  | cons time rest ih =>
    obtain ⟨hfirst, hlast⟩ := hspan time List.mem_cons_self
    obtain ⟨hlater, hrest⟩ := List.pairwise_cons.mp h
    cases rest with
    | nil => simp
    | cons next more =>
      have hspan' : ∀ other ∈ next :: more, time + apart ≤ other ∧ other ≤ last := fun other hmem =>
        ⟨hlater other hmem, (hspan other (List.mem_cons_of_mem time hmem)).2⟩
      have hcount := ih hrest hspan'
      have hroom := hspan' next List.mem_cons_self
      rw [List.length_cons, Nat.add_mul, Nat.one_mul]
      omega

theorem Inv.failures_few {s : ForwardLoop} (h : s.Inv) (first last : Nat) :
    (s.failures first last).length * acceptRetry ≤ last - first + acceptRetry := by
  apply spaced_count
  · rw [failures, List.pairwise_map]
    refine (h.spaced.filter _).imp_of_mem fun ha _ hspaced => hspaced ?_
    simp only [List.mem_filter, Bool.and_eq_true] at ha
    exact ha.2.1.1
  · intro time hmem
    obtain ⟨a, ha, rfl⟩ := List.mem_map.mp hmem
    simp only [List.mem_filter, Bool.and_eq_true, decide_eq_true_eq] at ha
    exact ⟨ha.2.1.2, ha.2.2⟩

/-- The pause after a failed accept ends by itself. -/
theorem Inv.unpauses {s : ForwardLoop} (h : s.Inv) (hnone : s.ended = none) :
    ∃ events : List ForwardEvent, events.length ≤ 2 ∧
      run s events = { s with now := (run s events).now, paused := false } ∧
      (run s events).now ≤ s.now + acceptRetry := by
  cases hpaused : s.paused with
  | false =>
    refine ⟨[], Nat.zero_le _, ?_, Nat.le_add_right _ _⟩
    cases s
    cases hpaused
    rfl
  | true =>
    have hretry := h.pause hpaused
    have hdue : s.retry ≤ s.now + (s.retry - s.now) := by omega
    have hrun : run s [.passes (s.retry - s.now), .retries] =
        { s with now := s.now + (s.retry - s.now), paused := false } := by
      simp [run, step, retryArm, hnone, hpaused, hdue]
    refine ⟨[.passes (s.retry - s.now), .retries], Nat.le_refl _, ?_, ?_⟩
    · rw [hrun]
    · rw [hrun]
      change s.now + (s.retry - s.now) ≤ s.now + acceptRetry
      omega

/-- The oldest connection waiting in the kernel is the next one carried: after a pause that ends by itself,
and after one connection in flight where the forward is full. -/
theorem Inv.carries_next {s : ForwardLoop} (h : s.Inv) (hnone : s.ended = none) {conn : Nat} {rest : List Nat}
    (hbacklog : s.backlog = conn :: rest) :
    ∃ events : List ForwardEvent, events.length ≤ 4 ∧ (run s events).now ≤ s.now + acceptRetry ∧
      (run s events).accepted = s.accepted ++ [conn] ∧ conn ∈ (run s events).pipes ∧
      (run s events).completed.length ≤ s.completed.length + 1 := by
  obtain ⟨events, hlength, hrun, hnow⟩ := h.unpauses hnone
  obtain ⟨t, ht⟩ : ∃ t, t = run s events := ⟨_, rfl⟩
  rw [← ht] at hrun hnow
  have hshape : t.ended = none ∧ t.paused = false ∧ t.backlog = conn :: rest ∧ t.pipes = s.pipes ∧
      t.accepted = s.accepted ∧ t.completed = s.completed := by
    rw [hrun]
    exact ⟨hnone, rfl, hbacklog, rfl, rfl, rfl⟩
  obtain ⟨htnone, htpaused, htbacklog, htpipes, htaccepted, htcompleted⟩ := hshape
  by_cases hroom : s.pipes.length < maxPipes
  · refine ⟨events ++ [.accepts], ?_, ?_⟩
    · simp only [List.length_append, List.length_singleton]
      omega
    · have hlast : run s (events ++ [.accepts]) = t.step .accepts := by
        rw [run, List.foldl_append, ht]
        rfl
      rw [hlast]
      simp [step, acceptArm, htnone, htpaused, htbacklog, htpipes, htaccepted, htcompleted, hroom, hnow]
  · have hne : s.pipes ≠ [] := by
      intro hnil
      simp [hnil, maxPipes] at hroom
    obtain ⟨full, others, hfull⟩ := List.exists_cons_of_ne_nil hne
    have hbounded := h.bounded
    have hcompletes : t.step (.completes full (.ok ())) =
        { t with pipes := others, completed := s.completed ++ [full] } := by
      simp [step, htnone, htpipes, hfull, htcompleted, line]
    have hothers : others.length < maxPipes := by
      rw [hfull, List.length_cons] at hbounded
      exact hbounded
    refine ⟨events ++ [.completes full (.ok ()), .accepts], ?_, ?_⟩
    · simp only [List.length_append, List.length_cons, List.length_nil]
      omega
    · have hlast : run s (events ++ [.completes full (.ok ()), .accepts]) =
          (t.step (.completes full (.ok ()))).step .accepts := by
        rw [run, List.foldl_append, ht]
        rfl
      rw [hlast, hcompletes]
      simp [step, acceptArm, htnone, htpaused, htbacklog, htaccepted, hothers, hnow]

end ForwardLoop

/-- Along every run of a forward: it holds at most its cap of connections at once and takes them in the order
they arrived; each one taken is carried until it ends by itself or the forward does, whatever accepts fail in
between. After a failed accept nothing is accepted for a while, so failures are few in any span of time. The
forward returns only when its session is closed; until then the next connection can always be carried, after
one such pause and one connection's end at most. -/
theorem forward_loop (events : List ForwardEvent) :
    let s := ForwardLoop.run .start events
    s.pipes.length ≤ maxPipes ∧ s.accepted ++ s.backlog = s.arrived ∧
    (s.completed ++ s.pipes ++ s.dropped).Perm s.accepted ∧ (s.ended = none → s.dropped = []) ∧
    ForwardLoop.Spaced s.attempts ∧
    (∀ first last, (s.failures first last).length * acceptRetry ≤ last - first + acceptRetry) ∧
    (s.ended.isSome = true → s.closed = true) ∧
    (s.ended = none → s.closed = true → ∀ openBi, (s.step (.lost openBi)).ended = some (.of openBi)) ∧
    (s.ended = none → ∀ conn rest, s.backlog = conn :: rest →
      ∃ more : List ForwardEvent, more.length ≤ 4 ∧ (s.run more).now ≤ s.now + acceptRetry ∧
        (s.run more).accepted = s.accepted ++ [conn] ∧ conn ∈ (s.run more).pipes ∧
        (s.run more).completed.length ≤ s.completed.length + 1) := by
  intro s
  have hinv : s.Inv := ForwardLoop.inv_run events
  refine ⟨hinv.bounded, hinv.order, hinv.accounts, hinv.running, hinv.spaced, hinv.failures_few, hinv.isOver, ?_,
    fun hnone conn rest hbacklog => hinv.carries_next hnone hbacklog⟩
  intro hnone hclosed openBi
  simp [ForwardLoop.step, hnone, hclosed]

end Tightbeam
