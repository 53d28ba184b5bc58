import Tightbeam.Seat

/-!
# The stall meter against its rule

The documented rule is an automaton with a timer: its window closes at an instant, whether or not
anything is looking. The meter runs no timer and looks only when it is written to or dialed, so it
keeps a window that has closed, and counts into it. Both answer every dial alike.
-/
namespace Tightbeam

open Gauge

/-- The refusals a holder's writer has met, as far as the rule asks. -/
inductive LastRefusal where
  | never
  | ongoing
  | ended (clear : Nat)
  deriving DecidableEq, Repr

/-- The rule's automaton at one instant. -/
structure StallRule where
  clock : Nat
  refusal : LastRefusal
  window : Option Window
  deriving DecidableEq, Repr

namespace StallRule

def new : StallRule := ⟨0, .never, none⟩

/-- The next nanosecond. A window closes at the very instant `stallClear` after the last refusal ended. -/
def tick (rule : StallRule) : StallRule :=
  { rule with
    clock := rule.clock + 1
    window := match rule.refusal with
      | .ended clear => if rule.clock + 1 = clear + stallClear then none else rule.window
      | .ongoing => rule.window
      | .never => rule.window }

def elapse (rule : StallRule) : Nat → StallRule
  | 0 => rule
  | n + 1 => (rule.elapse n).tick

/-- The automaton at a later instant. -/
def upTo (rule : StallRule) (now : Nat) : StallRule := rule.elapse (now - rule.clock)

/-- One write's outcome, at the clock's instant. -/
def write (rule : StallRule) (polled : Poll (Except Unit Nat)) : StallRule :=
  match polled with
  | .Pending => { rule with refusal := .ongoing, window := rule.window.or (some ⟨rule.clock, 0⟩) }
  | .Ready (.ok taken) =>
    { rule with
      refusal := if rule.refusal = .ongoing then .ended rule.clock else rule.refusal
      window := rule.window.map fun window =>
        if stallMinBytes ≤ window.taken + taken then ⟨rule.clock, 0⟩
        else { window with taken := window.taken + taken } }
  | .Ready (.error _) => rule

def preemptible (rule : StallRule) : Bool :=
  match rule.window with
  | some window => decide (window.opened + stallWindow ≤ rule.clock)
  | none => false

/-- Every outcome of a history in turn, each at its own instant. -/
def run (rule : StallRule) (history : List (Nat × Poll (Except Unit Nat))) : StallRule :=
  history.foldl (fun rule event => (rule.upTo event.1).write event.2) rule

end StallRule

/-- The same history through the meter. -/
def Gauge.run (gauge : Gauge) (history : List (Nat × Poll (Except Unit Nat))) : Gauge :=
  history.foldl (fun gauge event => gauge.record event.2 event.1) gauge

/-- What the meter holds for each state of the rule. After a refusal ended it keeps the window, and the
clock alone says whether the rule still has it. -/
inductive Tracks : StallRule → Gauge → Prop where
  | never (clock : Nat) : Tracks ⟨clock, .never, none⟩ ⟨.Unrefused, none⟩
  | ongoing (clock : Nat) (window : Window) : Tracks ⟨clock, .ongoing, some window⟩ ⟨.Refused, some window⟩
  | ended (clock clear : Nat) (window : Window) (held : Option Window) (h : clear ≤ clock)
      (hopen : clock < clear + stallClear → held = some window)
      (hclosed : clear + stallClear ≤ clock → held = none) :
      Tracks ⟨clock, .ended clear, held⟩ ⟨.ClearSince clear, some window⟩

theorem stallClear_pos : 0 < stallClear := by decide

theorem stallWindow_pos : 0 < stallWindow := by decide

/-- A saturated difference reaches a positive length exactly when the sum is reached. -/
theorem decide_le_sub {length : Nat} (h : 0 < length) (now start : Nat) :
    decide (length ≤ now - start) = decide (start + length ≤ now) := by
  refine decide_eq_decide.mpr ?_
  omega

namespace Tracks

variable {rule : StallRule} {gauge : Gauge}

theorem tick (h : Tracks rule gauge) : Tracks rule.tick gauge := by
  cases h with
  | never clock => exact .never (clock + 1)
  | ongoing clock window => exact .ongoing (clock + 1) window
  | ended clock clear window held hle hopen hclosed =>
    refine .ended (clock + 1) clear window _ (by omega) ?_ ?_
    · intro hbefore
      have hnot : clock + 1 ≠ clear + stallClear := by omega
      exact (if_neg hnot).trans (hopen (by omega))
    · intro hafter
      by_cases hnow : clock + 1 = clear + stallClear
      · exact if_pos hnow
      · exact (if_neg hnow).trans (hclosed (by omega))

theorem elapse (h : Tracks rule gauge) (n : Nat) : Tracks (rule.elapse n) gauge := by
  induction n with
  | zero => exact h
  | succ n ih => exact ih.tick

theorem upTo (h : Tracks rule gauge) (now : Nat) : Tracks (rule.upTo now) gauge := h.elapse _

end Tracks

theorem StallRule.elapse_clock (rule : StallRule) (n : Nat) : (rule.elapse n).clock = rule.clock + n := by
  induction n with
  | zero => rfl
  | succ n ih =>
    simp only [elapse, tick, ih]
    omega

theorem StallRule.upTo_clock (rule : StallRule) (now : Nat) (h : rule.clock ≤ now) :
    (rule.upTo now).clock = now := by
  rw [upTo, elapse_clock]
  omega

@[simp] theorem StallRule.write_clock (rule : StallRule) (polled : Poll (Except Unit Nat)) :
    (rule.write polled).clock = rule.clock := by
  match polled with
  | .Pending => rfl
  | .Ready (.ok _) => rfl
  | .Ready (.error _) => rfl

namespace Tracks

variable {rule : StallRule} {gauge : Gauge}

/-- A window the meter still calls open is one the rule still has. -/
theorem isOpen_ended (clock clear : Nat) (window : Window) (h : clear ≤ clock) :
    (⟨.ClearSince clear, some window⟩ : Gauge).isOpen clock = decide (clock < clear + stallClear) := by
  have hpos := stallClear_pos
  have hiff : clock - clear < stallClear ↔ clock < clear + stallClear := by omega
  simp only [isOpen, hiff]

theorem write (h : Tracks rule gauge) (polled : Poll (Except Unit Nat)) :
    Tracks (rule.write polled) (gauge.record polled rule.clock) := by
  have hpos := stallClear_pos
  match polled with
  | .Ready (.error _) => exact h
  | .Pending =>
    cases h with
    | never clock => exact .ongoing clock ⟨clock, 0⟩
    | ongoing clock window => exact .ongoing clock window
    | ended clock clear window held hle hopen hclosed =>
      have hlapsed := isOpen_ended clock clear window hle
      by_cases hbefore : clock < clear + stallClear
      · have hkept := Tracks.ongoing clock window
        rw [hopen hbefore]
        simpa [StallRule.write, record, hlapsed, hbefore] using hkept
      · have hfresh := Tracks.ongoing clock ⟨clock, 0⟩
        rw [hclosed (Nat.not_lt.mp hbefore)]
        simpa [StallRule.write, record, hlapsed, hbefore] using hfresh
  | .Ready (.ok taken) =>
    cases h with
    | never clock => exact .never clock
    | ongoing clock window =>
      exact .ended clock clock _ _ (le_refl clock) (fun _ => rfl) fun hafter => by omega
    | ended clock clear window held hle hopen hclosed =>
      refine .ended clock clear _ _ hle ?_ ?_
      · intro hbefore
        rw [hopen hbefore]
        rfl
      · intro hafter
        rw [hclosed hafter]
        rfl

theorem preemptible (h : Tracks rule gauge) : gauge.preemptible rule.clock = rule.preemptible := by
  cases h with
  | never clock => rfl
  | ongoing clock window =>
    unfold Gauge.preemptible StallRule.preemptible isOpen
    simp only [Bool.true_and]
    exact decide_le_sub stallWindow_pos clock window.opened
  | ended clock clear window held hle hopen hclosed =>
    have hlapsed := isOpen_ended clock clear window hle
    unfold Gauge.preemptible
    by_cases hbefore : clock < clear + stallClear
    · rw [hopen hbefore]
      simp only [hlapsed, hbefore, decide_true, Bool.true_and]
      exact decide_le_sub stallWindow_pos clock window.opened
    · rw [hclosed (Nat.not_lt.mp hbefore)]
      simp only [hlapsed, hbefore, decide_false, Bool.false_and]
      rfl

/-- A whole history: the two stay together, and the rule's clock is at its last outcome. -/
theorem run (history : List (Nat × Poll (Except Unit Nat)))
    (hordered : history.Pairwise fun a b => a.1 ≤ b.1) (h : Tracks rule gauge)
    (hstart : ∀ event ∈ history, rule.clock ≤ event.1) {later : Nat} (hclock : rule.clock ≤ later)
    (hlater : ∀ event ∈ history, event.1 ≤ later) :
    Tracks (rule.run history) (gauge.run history) ∧ (rule.run history).clock ≤ later := by
  induction history generalizing rule gauge with
  | nil => exact ⟨h, hclock⟩
  | cons event rest ih =>
    obtain ⟨hfirst, hrest⟩ := List.pairwise_cons.mp hordered
    have hnow : (rule.upTo event.1).clock = event.1 :=
      rule.upTo_clock event.1 (hstart event (by simp))
    have hstep := (h.upTo event.1).write event.2
    rw [hnow] at hstep
    refine ih hrest hstep ?_ ?_ fun e he => hlater e (by simp [he])
    · intro e he
      rw [StallRule.write_clock, hnow]
      exact hfirst e he
    · rw [StallRule.write_clock, hnow]
      exact hlater event (by simp)

end Tracks

/-- A window never holds a full floor of bytes, so the count a write adds to is small. -/
theorem Gauge.run_taken (history : List (Nat × Poll (Except Unit Nat))) (gauge : Gauge)
    (h : ∀ window ∈ gauge.window, window.taken < stallMinBytes) :
    ∀ window ∈ (gauge.run history).window, window.taken < stallMinBytes := by
  have hzero : (0 : Nat) < stallMinBytes := by decide
  induction history generalizing gauge with
  | nil => exact h
  | cons event rest ih =>
    refine ih _ ?_
    obtain ⟨now, polled⟩ := event
    match polled with
    | .Ready (.error _) => exact h
    | .Pending =>
      intro window hwindow
      simp only [record] at hwindow
      split_ifs at hwindow with hrefused hopen
      · exact h window hwindow
      · exact h window hwindow
      · cases hwindow
        exact hzero
    | .Ready (.ok taken) =>
      intro window hwindow
      simp only [record, Option.mem_def, Option.map_eq_some_iff] at hwindow
      obtain ⟨held, _, rfl⟩ := hwindow
      split_ifs with hfull
      · exact hzero
      · exact Nat.not_le.mp hfull

namespace StallRule

/-- A whole history from the seating: the meter tracks the rule, whose clock is within any later instant. -/
theorem new_tracks {history : List (Nat × Poll (Except Unit Nat))} {later : Nat}
    (hordered : history.Pairwise fun a b => a.1 ≤ b.1) (hlater : ∀ event ∈ history, event.1 ≤ later) :
    Tracks (new.run history) (Gauge.new.run history) ∧ (new.run history).clock ≤ later := by
  have hnew : Tracks new Gauge.new := .never 0
  exact hnew.run history hordered (fun _ _ => Nat.zero_le _) (Nat.zero_le later) hlater

/-- The meter answers a dial as the rule does at that instant. -/
theorem preemptible_run {history : List (Nat × Poll (Except Unit Nat))} {dial : Nat}
    (hordered : history.Pairwise fun a b => a.1 ≤ b.1) (hdial : ∀ event ∈ history, event.1 ≤ dial) :
    (Gauge.new.run history).preemptible dial = ((new.run history).upTo dial).preemptible := by
  obtain ⟨hrun, hclock⟩ := new_tracks hordered hdial
  have hthen := (hrun.upTo dial).preemptible
  rwa [(new.run history).upTo_clock dial hclock] at hthen

end StallRule

/-- For every history of outcomes at non-decreasing instants and every later dial, the meter answers
what the rule answers at that instant. What it counts into stays below the floor, so no addition can
overflow that the one write's own count does not. -/
theorem lazy_meter_exact (history : List (Nat × Poll (Except Unit Nat))) (dial : Nat)
    (hordered : history.Pairwise fun a b => a.1 ≤ b.1) (hdial : ∀ event ∈ history, event.1 ≤ dial) :
    (Gauge.new.run history).preemptible dial = ((StallRule.new.run history).upTo dial).preemptible ∧
      ∀ window ∈ (Gauge.new.run history).window, window.taken < stallMinBytes :=
  ⟨StallRule.preemptible_run hordered hdial, Gauge.run_taken history Gauge.new (by simp [Gauge.new])⟩

/-- A trickle below the floor: refused at the start, a little taken, refused again within the clear, and
the rule gives the seat up a window after the first refusal. -/
theorem lazy_meter_exact_trickle :
    ((StallRule.new.run [(0, .Pending), (secs 1, .Ready (.ok 4096)), (secs 1, .Pending)]).upTo (secs 90)).preemptible
      = true := by
  have h := lazy_meter_exact [(0, .Pending), (secs 1, .Ready (.ok 4096)), (secs 1, .Pending)] (secs 90)
    (by decide) (by decide)
  rw [← h.1]
  decide

end Tightbeam
