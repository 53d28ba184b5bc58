import Tightbeam.StallMeter

/-!
# Who the displacement floor protects

The rule counts bytes into windows that restart where the writes fall, and forgets what it counted
before. A holder that takes its floor in every window of the clock keeps the seat all the same, and one
that has taken less since its window last restarted loses it, however its grants were cut.
-/
namespace Tightbeam

open Gauge

/-- The bytes one write took. -/
def bytesTaken : Poll (Except Unit Nat) → Nat
  | .Ready (.ok taken) => taken
  | .Ready (.error _) => 0
  | .Pending => 0

def totalTaken : List (Nat × Poll (Except Unit Nat)) → Nat
  | [] => 0
  | event :: history => bytesTaken event.2 + totalTaken history

/-- The bytes taken strictly between two instants. -/
def takenBetween (history : List (Nat × Poll (Except Unit Nat))) (start stop : Nat) : Nat :=
  totalTaken (history.filter fun event => decide (start < event.1 ∧ event.1 < stop))

/-- Every window of the clock since the seating, over by `now`, sees the floor taken. -/
def ReadsFloor (history : List (Nat × Poll (Except Unit Nat))) (seated now : Nat) : Prop :=
  ∀ start, seated ≤ start → start + stallWindow ≤ now →
    stallMinBytes ≤ takenBetween history start (start + stallWindow)

/-- Over these outcomes and up to a dial, the writer is never `stallClear` past the end of its last
refusal. -/
def StallRule.NeverClear (rule : StallRule) (after : List (Nat × Poll (Except Unit Nat))) (dial : Nat) : Prop :=
  ∀ earlier later clear, after = earlier ++ later → (rule.run earlier).refusal = .ended clear →
    (later.map Prod.fst).headD dial < clear + stallClear

@[simp] theorem totalTaken_nil : totalTaken [] = 0 := rfl

@[simp] theorem totalTaken_cons (event : Nat × Poll (Except Unit Nat)) (history : List (Nat × Poll (Except Unit Nat))) :
    totalTaken (event :: history) = bytesTaken event.2 + totalTaken history := rfl

@[simp] theorem totalTaken_append (first second : List (Nat × Poll (Except Unit Nat))) :
    totalTaken (first ++ second) = totalTaken first + totalTaken second := by
  induction first with
  | nil => simp
  | cons event first ih =>
    rw [List.cons_append, totalTaken_cons, totalTaken_cons, ih]
    omega

theorem totalTaken_filter_le (keep : Nat × Poll (Except Unit Nat) → Bool)
    (history : List (Nat × Poll (Except Unit Nat))) : totalTaken (history.filter keep) ≤ totalTaken history := by
  induction history with
  | nil => exact le_refl _
  | cons event rest ih =>
    rw [List.filter_cons]
    split
    · simpa using ih
    · rw [totalTaken_cons]
      omega

namespace StallRule

variable {rule : StallRule}

theorem run_append (rule : StallRule) (first second : List (Nat × Poll (Except Unit Nat))) :
    rule.run (first ++ second) = (rule.run first).run second := List.foldl_append

theorem tick_window {window : Window} (h : rule.tick.window = some window) : rule.window = some window := by
  cases hrefusal : rule.refusal with
  | never => simpa [tick, hrefusal] using h
  | ongoing => simpa [tick, hrefusal] using h
  | ended clear =>
    simp only [tick, hrefusal] at h
    split_ifs at h with hnow
    exact h

/-- Time alone opens no window. -/
theorem of_elapse_window {window : Window} {n : Nat} (h : (rule.elapse n).window = some window) :
    rule.window = some window := by
  induction n with
  | zero => exact h
  | succ n ih => exact ih (tick_window h)

/-- Time alone closes none that is not clear. -/
theorem elapse_window (n : Nat) (h : ∀ clear, rule.refusal = .ended clear → rule.clock + n < clear + stallClear) :
    (rule.elapse n).window = rule.window ∧ (rule.elapse n).refusal = rule.refusal := by
  induction n with
  | zero => exact ⟨rfl, rfl⟩
  | succ n ih =>
    obtain ⟨hwindow, hrefusal⟩ := ih fun clear hended => by
      have hlate := h clear hended
      omega
    refine ⟨?_, hrefusal⟩
    cases hended : rule.refusal with
    | never => simp [elapse, tick, hrefusal, hended, hwindow]
    | ongoing => simp [elapse, tick, hrefusal, hended, hwindow]
    | ended clear =>
      have hlate := h clear hended
      have hnot : (rule.elapse n).clock + 1 ≠ clear + stallClear := by
        rw [elapse_clock]
        omega
      simp [elapse, tick, hrefusal, hended, hwindow, hnot]

/-- Where a window stands in its history: the outcome it last opened or restarted at, and what was taken
after that one. -/
structure Since (before : List (Nat × Poll (Except Unit Nat))) (opening : Nat × Poll (Except Unit Nat))
    (mid : List (Nat × Poll (Except Unit Nat))) : Prop where
  opens : (new.run (before ++ [opening])).window = some ⟨opening.1, 0⟩
  stands : (new.run (before ++ opening :: mid)).window = some ⟨opening.1, totalTaken mid⟩

variable {history : List (Nat × Poll (Except Unit Nat))}

theorem run_snoc (history : List (Nat × Poll (Except Unit Nat))) (event : Nat × Poll (Except Unit Nat)) :
    new.run (history ++ [event]) = ((new.run history).upTo event.1).write event.2 := by
  rw [run_append]
  rfl

/-- After an ordered history every window of the rule stands somewhere in it. -/
theorem run_since (hordered : history.Pairwise fun a b => a.1 ≤ b.1) {window : Window}
    (hwindow : (new.run history).window = some window) :
    ∃ before opening mid, history = before ++ opening :: mid ∧ Since before opening mid := by
  induction history using List.reverseRecOn generalizing window with
  | nil => cases hwindow
  | append_singleton history event ih =>
    obtain ⟨hbegins, -, hlast⟩ := List.pairwise_append.mp hordered
    have hclock : (new.run history).clock ≤ event.1 :=
      (new_tracks hbegins fun earlier hmem => hlast earlier hmem event (by simp)).2
    have hnow : ((new.run history).upTo event.1).clock = event.1 := upTo_clock _ _ hclock
    have hopened : (new.run (history ++ [event])).window = some ⟨event.1, 0⟩ →
        ∃ before opening mid, history ++ [event] = before ++ opening :: mid ∧ Since before opening mid :=
      fun hfresh => ⟨history, event, [], rfl, hfresh, hfresh⟩
    have hkept : ∀ held, ((new.run history).upTo event.1).window = some held →
        (new.run (history ++ [event])).window = some ⟨held.opened, held.taken + bytesTaken event.2⟩ →
        ∃ before opening mid, history ++ [event] = before ++ opening :: mid ∧ Since before opening mid := by
      intro held hheld hthen
      obtain ⟨before, opening, mid, rfl, hsince⟩ := ih hbegins (of_elapse_window hheld)
      cases (of_elapse_window hheld).symm.trans hsince.stands
      refine ⟨before, opening, mid ++ [event], by simp, hsince.opens, ?_⟩
      rw [show before ++ opening :: (mid ++ [event]) = before ++ opening :: mid ++ [event] by simp, hthen]
      simp
    rw [run_snoc] at hopened hkept hwindow
    cases hheld : ((new.run history).upTo event.1).window with
    | none =>
      apply hopened
      cases hpolled : event.2 with
      | Pending => simp [write, hheld, hnow]
      | Ready result => cases result <;> simp [write, hpolled, hheld] at hwindow
    | some held =>
      cases hpolled : event.2 with
      | Pending => exact hkept held hheld (by simp [write, hpolled, hheld, bytesTaken])
      | Ready result =>
        cases result with
        | error _ => exact hkept held hheld (by simp [write, hpolled, hheld, bytesTaken])
        | ok taken =>
          by_cases hfull : stallMinBytes ≤ held.taken + taken
          · exact hopened (by simp [write, hpolled, hheld, hfull, hnow])
          · exact hkept held hheld (by simp [write, hpolled, hheld, hfull, bytesTaken])

/-- A window that time does not close takes every byte, until it has its floor. -/
theorem run_unclear {opened taken dial : Nat} {after : List (Nat × Poll (Except Unit Nat))}
    (hwindow : rule.window = some ⟨opened, taken⟩) (hordered : after.Pairwise fun a b => a.1 ≤ b.1)
    (hstart : ∀ event ∈ after, rule.clock ≤ event.1) (hclock : rule.clock ≤ dial)
    (hdial : ∀ event ∈ after, event.1 ≤ dial) (hclear : rule.NeverClear after dial)
    (hfew : taken + totalTaken after < stallMinBytes) :
    ((rule.run after).upTo dial).window = some ⟨opened, taken + totalTaken after⟩ := by
  induction after generalizing rule taken with
  | nil =>
    have hlate : ∀ clear, rule.refusal = .ended clear → rule.clock + (dial - rule.clock) < clear + stallClear := by
      intro clear hended
      have hbefore := hclear [] [] clear rfl hended
      simp only [List.map_nil, List.headD_nil] at hbefore
      omega
    exact (elapse_window _ hlate).1.trans hwindow
  | cons event rest ih =>
    obtain ⟨hfirst, hrest⟩ := List.pairwise_cons.mp hordered
    have hbegun := hstart event List.mem_cons_self
    have hnow : (rule.upTo event.1).clock = event.1 := rule.upTo_clock event.1 hbegun
    have hlate : ∀ clear, rule.refusal = .ended clear → rule.clock + (event.1 - rule.clock) < clear + stallClear := by
      intro clear hended
      have hbefore := hclear [] (event :: rest) clear rfl hended
      simp only [List.map_cons, List.headD_cons] at hbefore
      omega
    have hheld : (rule.upTo event.1).window = some ⟨opened, taken⟩ := (elapse_window _ hlate).1.trans hwindow
    rw [totalTaken_cons] at hfew ⊢
    have hstep : ((rule.upTo event.1).write event.2).window = some ⟨opened, taken + bytesTaken event.2⟩ := by
      match hpolled : event.2 with
      | .Pending => simp [write, hheld, bytesTaken]
      | .Ready (.error _) => simp [write, hheld, bytesTaken]
      | .Ready (.ok n) =>
        have hbelow : ¬ stallMinBytes ≤ taken + n := by
          rw [hpolled, bytesTaken] at hfew
          omega
        simp [write, hheld, bytesTaken, hbelow]
    rw [← Nat.add_assoc]
    refine ih hstep hrest ?_ ?_ (fun later hmem => hdial later (List.mem_cons_of_mem event hmem)) ?_ (by omega)
    · intro later hmem
      rw [write_clock, hnow]
      exact hfirst later hmem
    · rw [write_clock, hnow]
      exact hdial event List.mem_cons_self
    · intro earlier later clear hsplit hended
      exact hclear (event :: earlier) later clear (by rw [hsplit]; rfl) hended

/-- Only what came after an outcome is taken strictly between it and a lapse that a dial has seen. -/
theorem takenBetween_le {before mid future : List (Nat × Poll (Except Unit Nat))}
    {opening : Nat × Poll (Except Unit Nat)} {dial : Nat}
    (hordered : (before ++ opening :: mid).Pairwise fun a b => a.1 ≤ b.1) (hlapsed : opening.1 + stallWindow ≤ dial)
    (hfuture : ∀ event ∈ future, dial ≤ event.1) :
    takenBetween (before ++ opening :: mid ++ future) opening.1 (opening.1 + stallWindow) ≤ totalTaken mid := by
  obtain ⟨-, -, hbefore⟩ := List.pairwise_append.mp hordered
  -- What came before the window opened is not after its first instant.
  have hearly : (before ++ [opening]).filter
      (fun event => decide (opening.1 < event.1 ∧ event.1 < opening.1 + stallWindow)) = [] := by
    rw [List.filter_eq_nil_iff]
    intro event hevent
    have hle : event.1 ≤ opening.1 := by
      rcases List.mem_append.mp hevent with hmem | hmem
      · exact hbefore event hmem opening List.mem_cons_self
      · rw [List.mem_singleton.mp hmem]
    simp only [decide_eq_true_eq]
    omega
  have hlate : future.filter
      (fun event => decide (opening.1 < event.1 ∧ event.1 < opening.1 + stallWindow)) = [] := by
    rw [List.filter_eq_nil_iff]
    intro event hevent
    have hle := hfuture event hevent
    simp only [decide_eq_true_eq]
    omega
  have hsplit : before ++ opening :: mid ++ future = (before ++ [opening]) ++ (mid ++ future) := by simp
  rw [takenBetween, hsplit, List.filter_append, hearly, List.nil_append, List.filter_append, hlate, List.append_nil]
  exact totalTaken_filter_le _ mid

end StallRule

/-- A window the rule still has is the meter's own. -/
theorem Tracks.window {rule : StallRule} {gauge : Gauge} (h : Tracks rule gauge) {window : Window}
    (hwindow : rule.window = some window) : gauge.window = some window := by
  cases h with
  | never clock => cases hwindow
  | ongoing clock held => exact hwindow
  | ended clock clear held kept hle hopen hclosed =>
    by_cases hbefore : clock < clear + stallClear
    · exact (hopen hbefore).symm.trans hwindow
    · cases (hclosed (Nat.not_lt.mp hbefore)).symm.trans hwindow

/-- A holder that takes its floor in every window of the clock is never preemptible. -/
theorem ReadsFloor.kept {past future : List (Nat × Poll (Except Unit Nat))} {seated now dial : Nat}
    (h : ReadsFloor (past ++ future) seated now) (hordered : past.Pairwise fun a b => a.1 ≤ b.1)
    (hseated : ∀ event ∈ past, seated ≤ event.1) (hpast : ∀ event ∈ past, event.1 ≤ dial)
    (hfuture : ∀ event ∈ future, dial ≤ event.1) (hdial : dial ≤ now) :
    (Gauge.new.run past).preemptible dial = false := by
  obtain ⟨htracks, hclock⟩ := StallRule.new_tracks hordered hpast
  rw [StallRule.preemptible_run hordered hpast]
  cases hwindow : ((StallRule.new.run past).upTo dial).window with
  | none => simp [StallRule.preemptible, hwindow]
  | some window =>
    simp only [StallRule.preemptible, hwindow, StallRule.upTo_clock _ _ hclock, decide_eq_false_iff_not]
    intro hlapsed
    have hheld := StallRule.of_elapse_window hwindow
    obtain ⟨before, opening, mid, rfl, hsince⟩ := StallRule.run_since hordered hheld
    cases hheld.symm.trans hsince.stands
    have hlapsed : opening.1 + stallWindow ≤ dial := hlapsed
    have hbelow := Gauge.run_taken _ Gauge.new (by simp [Gauge.new]) _ (htracks.window hheld)
    have hfloor := h opening.1 (hseated opening (by simp)) (by omega)
    have htaken := StallRule.takenBetween_le hordered hlapsed hfuture
    simp only at hbelow
    omega

/-- A writer that was refused, and has not been clear since, loses the seat a window after its window last
restarted, when it took less than the floor in it. -/
theorem refused_preemptible {before mid after : List (Nat × Poll (Except Unit Nat))}
    {opening : Nat × Poll (Except Unit Nat)} {dial : Nat} (hsince : StallRule.Since before opening mid)
    (hordered : (before ++ opening :: mid ++ after).Pairwise fun a b => a.1 ≤ b.1)
    (hdial : ∀ event ∈ before ++ opening :: mid ++ after, event.1 ≤ dial)
    (hclear : (StallRule.new.run (before ++ opening :: mid)).NeverClear after dial)
    (hfew : totalTaken (mid ++ after) < stallMinBytes) (hlapsed : opening.1 + stallWindow ≤ dial) :
    (Gauge.new.run (before ++ opening :: mid ++ after)).preemptible dial = true := by
  obtain ⟨hpast, hafter, hacross⟩ := List.pairwise_append.mp hordered
  obtain ⟨-, hclock⟩ := StallRule.new_tracks hpast fun event hmem => hdial event (List.mem_append_left _ hmem)
  obtain ⟨-, hend⟩ := StallRule.new_tracks hordered hdial
  have hstart : ∀ event ∈ after, (StallRule.new.run (before ++ opening :: mid)).clock ≤ event.1 :=
    fun event hmem => (StallRule.new_tracks hpast fun earlier hearly => hacross earlier hearly event hmem).2
  rw [totalTaken_append] at hfew
  have hwindow := StallRule.run_unclear hsince.stands hafter hstart hclock
    (fun event hmem => hdial event (List.mem_append_right _ hmem)) hclear hfew
  rw [← StallRule.run_append] at hwindow
  rw [StallRule.preemptible_run hordered hdial]
  simpa only [StallRule.preemptible, hwindow, StallRule.upTo_clock _ _ hend, decide_eq_true_eq] using hlapsed

/-- A refusal leaves a window that stands somewhere in its history. -/
theorem refused_since {past : List (Nat × Poll (Except Unit Nat))} {refused : Nat}
    (hordered : past.Pairwise fun a b => a.1 ≤ b.1) (hrefused : past.getLast? = some (refused, .Pending)) :
    ∃ before opening mid, past = before ++ opening :: mid ∧ StallRule.Since before opening mid := by
  obtain ⟨history, rfl⟩ := List.getLast?_eq_some_iff.mp hrefused
  cases hwindow : (StallRule.new.run (history ++ [(refused, .Pending)])).window with
  | some window => exact StallRule.run_since hordered hwindow
  | none =>
    rw [StallRule.run_snoc] at hwindow
    cases hheld : ((StallRule.new.run history).upTo refused).window with
    | none => simp [StallRule.write, hheld] at hwindow
    | some held => simp [StallRule.write, hheld] at hwindow

namespace Seat

/-- A dial that is refused leaves the seat as it was. -/
theorem take_refused {s : Seat} {dialer : NodeId} {now : Nat} {refusal : SeatRefusal}
    (h : (s.take dialer now).2 = .Refused refusal) : (s.take dialer now).1 = s := by
  cases hcell : s.cell with
  | Armed reader => simp [take, hcell, seat] at h
  | Spent => simp [take, hcell]
  | Handing handoff => simp [take, hcell]
  | Held holder =>
    by_cases hkept : holder.peer = dialer ∨ (s.gauges holder.link).preemptible now = false
    · simp [take, hcell, hkept]
    · simp [take, hcell, hkept] at h

/-- Only a holder is displaced, by another peer, once it is preemptible. -/
theorem take_displaced {s : Seat} {dialer : NodeId} {now : Nat}
    (h : (s.take dialer now).1.preempted ≠ s.preempted ∨ ∃ grant, (s.take dialer now).2 = .Waiting grant) :
    ∃ holder, s.cell = .Held holder ∧ (s.gauges holder.link).preemptible now = true ∧ holder.peer ≠ dialer := by
  cases hcell : s.cell with
  | Armed reader => simp [take, hcell, seat] at h
  | Spent => simp [take, hcell] at h
  | Handing handoff => simp [take, hcell] at h
  | Held holder =>
    by_cases hkept : holder.peer = dialer ∨ (s.gauges holder.link).preemptible now = false
    · simp [take, hcell, hkept] at h
    · simp only [not_or, Bool.not_eq_false] at hkept
      exact ⟨holder, rfl, hkept.2, hkept.1⟩

/-- A peer is seated under a fresh meter. -/
theorem take_seated {s : Seat} {dialer : NodeId} {now : Nat} {seated : Seated}
    (h : (s.take dialer now).2 = .Seated seated) : (s.take dialer now).1.gauges seated.link = Gauge.new := by
  cases hcell : s.cell with
  | Armed reader =>
    simp only [take, hcell, seat, Take.Seated.injEq] at h ⊢
    subst h
    exact if_pos rfl
  | Spent => simp [take, hcell] at h
  | Handing handoff => simp [take, hcell] at h
  | Held holder =>
    by_cases hkept : holder.peer = dialer ∨ (s.gauges holder.link).preemptible now = false
    · simp [take, hcell, hkept] at h
    · simp [take, hcell, hkept] at h

end Seat

/-- The floor protects the readers that keep to it and no others: one that takes it in every window of the
clock is never preemptible, one that was refused and has taken less since its window last restarted is,
and a dial displaces a holder under a meter that says so, or changes nothing. -/
theorem displacement_floor :
    (∀ (past future : List (Nat × Poll (Except Unit Nat))) (seated now dial : Nat),
      past.Pairwise (fun a b => a.1 ≤ b.1) → (∀ event ∈ past, seated ≤ event.1 ∧ event.1 ≤ dial) →
      (∀ event ∈ future, dial ≤ event.1) → dial ≤ now → ReadsFloor (past ++ future) seated now →
        (Gauge.new.run past).preemptible dial = false) ∧
    (∀ (past after : List (Nat × Poll (Except Unit Nat))) (refused dial : Nat),
      (past ++ after).Pairwise (fun a b => a.1 ≤ b.1) → (∀ event ∈ past ++ after, event.1 ≤ dial) →
      past.getLast? = some (refused, .Pending) → (StallRule.new.run past).NeverClear after dial →
        ∃ before opening mid, past = before ++ opening :: mid ∧ StallRule.Since before opening mid ∧
          (totalTaken (mid ++ after) < stallMinBytes → opening.1 + stallWindow ≤ dial →
            (Gauge.new.run (past ++ after)).preemptible dial = true)) ∧
    ∀ (s : Seat) (dialer : NodeId) (now : Nat),
      (∀ seated, (s.take dialer now).2 = .Seated seated →
        (s.take dialer now).1.gauges seated.link = Gauge.new) ∧
      ((s.take dialer now).1.preempted ≠ s.preempted ∨ (∃ grant, (s.take dialer now).2 = .Waiting grant) →
        ∃ holder, s.cell = .Held holder ∧ (s.gauges holder.link).preemptible now = true ∧
          holder.peer ≠ dialer) ∧
      (∀ refusal, (s.take dialer now).2 = .Refused refusal → (s.take dialer now).1 = s) := by
  refine ⟨?_, ?_, ?_⟩
  · intro past future seated now dial hordered hpast hfuture hdial hfloor
    exact hfloor.kept hordered (fun event hmem => (hpast event hmem).1) (fun event hmem => (hpast event hmem).2)
      hfuture hdial
  · intro past after refused dial hordered hdial hrefused hclear
    obtain ⟨before, opening, mid, rfl, hsince⟩ := refused_since (List.pairwise_append.mp hordered).1 hrefused
    exact ⟨before, opening, mid, rfl, hsince, refused_preemptible hsince hordered hdial hclear⟩
  · intro s dialer now
    exact ⟨fun _ => Seat.take_seated, Seat.take_displaced, fun _ => Seat.take_refused⟩

/-- A reader that takes its floor keeps the seat to the end of its first window, and one that dribbles an octet
between two refusals loses it there. -/
theorem displacement_floor_trickle :
    (Gauge.new.run [(0, .Pending), (1, .Ready (.ok stallMinBytes))]).preemptible stallWindow = false ∧
      (Gauge.new.run [(0, .Pending), (1, .Ready (.ok 1)), (1, .Pending)]).preemptible stallWindow = true := by
  obtain ⟨hkept, hlost, -⟩ := displacement_floor
  constructor
  · refine hkept [(0, .Pending), (1, .Ready (.ok stallMinBytes))] [] 0 stallWindow stallWindow (by simp) ?_ (by simp)
      (le_refl _) ?_
    · intro event hmem
      rcases List.mem_pair.1 hmem with rfl | rfl <;> exact ⟨by decide, by decide⟩
    · intro start _ hends
      have hstart : start = 0 := by omega
      rw [hstart]
      decide
  · have hclear : (StallRule.new.run [(0, .Pending)]).NeverClear [(1, .Ready (.ok 1)), (1, .Pending)] stallWindow := by
      rintro (_ | ⟨first, _ | ⟨second, earlier⟩⟩) later clear hafter hended
      · cases hended
      · cases hafter
        cases hended
        decide
      · simp only [List.cons_append, List.cons.injEq, List.nil_eq, List.append_eq_nil_iff] at hafter
        obtain ⟨rfl, rfl, rfl, -⟩ := hafter
        cases hended
    obtain ⟨before, opening, mid, hsplit, -, hloses⟩ :=
      hlost [(0, .Pending)] _ 0 stallWindow (by simp) (by decide) rfl hclear
    obtain ⟨rfl, rfl, rfl⟩ : before = [] ∧ opening = (0, .Pending) ∧ mid = [] := by
      rcases before with _ | ⟨first, before⟩
      · simpa [eq_comm] using hsplit
      · simp at hsplit
    exact hloses (by decide) (by decide)

end Tightbeam
