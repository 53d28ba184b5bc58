import Tightbeam.Seat
import Tightbeam.Library.Places
import Tightbeam.Library.Checked

/-!
# The seat's one reader over a whole run

Dialers claim, time out and cancel, guards read and drop, grants are delivered and received, in any
order. The reader is carried through as the list of every place that has it, which is always one.
-/
namespace Tightbeam

open Places

/-- The seat, the guards its holders have, and every poll the reader has answered. -/
structure SeatWorld where
  seat : Seat
  guards : List Seated
  answered : List Read

/-- One atomic step. A guard or a waiting dialer is named by its place in the list. -/
inductive SeatEvent where
  | claim (dialer : NodeId) (now : Nat)
  /-- The dialer receives what was sent to it. -/
  | received (waiter : Nat)
  /-- The dialer times out or is cancelled, and what was sent to it is dropped with its receiver. -/
  | abandoned (waiter : Nat)
  | read (guard : Nat) (read : Read)
  /-- The splice ends: its peer left, a write failed, it was cancelled, or it was displaced. -/
  | dropped (guard : Nat)
  | wrote (guard : Nat) (polled : Poll (Except Unit Nat)) (now : Nat)

namespace SeatWorld

def new (fd : Nat) : SeatWorld := ⟨.new ⟨fd, []⟩, [], []⟩

def claim (w : SeatWorld) (dialer : NodeId) (now : Nat) : SeatWorld :=
  match w.seat.take dialer now with
  | (seat, .Seated seated) => { w with seat, guards := seated :: w.guards }
  | (seat, .Waiting _) => { w with seat }
  | (seat, .Refused _) => { w with seat }

def received (w : SeatWorld) (i : Nat) : SeatWorld :=
  match w.seat.waiting[i]? with
  | none => w
  | some waiter =>
    let seat := { w.seat with waiting := w.seat.waiting.eraseIdx i }
    match waiter.inbox with
    | none => w
    | some (.Seated seated) => { w with seat, guards := seated :: w.guards }
    | some .Spent => { w with seat }

def abandoned (w : SeatWorld) (i : Nat) : SeatWorld :=
  match w.seat.waiting[i]? with
  | none => w
  | some waiter =>
    let seat := { w.seat with waiting := w.seat.waiting.eraseIdx i }
    match waiter.inbox with
    | some (.Seated seated) => { w with seat := seat.dropReader seated.reader }
    | some .Spent => { w with seat }
    | none => { w with seat }

def read (w : SeatWorld) (i : Nat) (read : Read) : SeatWorld :=
  match w.guards[i]? with
  | none => w
  | some guard =>
    let (seat, reader) := w.seat.pollRead guard.reader read
    { seat
      guards := w.guards.set i { guard with reader }
      answered := if guard.reader.lent.isSome then w.answered ++ [read] else w.answered }

def dropped (w : SeatWorld) (i : Nat) : SeatWorld :=
  match w.guards[i]? with
  | none => w
  | some guard => { w with seat := w.seat.dropReader guard.reader, guards := w.guards.eraseIdx i }

def wrote (w : SeatWorld) (i : Nat) (polled : Poll (Except Unit Nat)) (now : Nat) : SeatWorld :=
  match w.guards[i]? with
  | none => w
  | some guard =>
    { w with seat := { w.seat with gauges := fun link =>
        if link = guard.link then (w.seat.gauges link).record polled now else w.seat.gauges link } }

def step (w : SeatWorld) : SeatEvent → SeatWorld
  | .claim dialer now => w.claim dialer now
  | .received waiter => w.received waiter
  | .abandoned waiter => w.abandoned waiter
  | .read guard read => w.read guard read
  | .dropped guard => w.dropped guard
  | .wrote guard polled now => w.wrote guard polled now

def run (fd : Nat) (events : List SeatEvent) : SeatWorld := events.foldl step (new fd)

end SeatWorld

/-- The readable reader of a guard. -/
def SeatReader.readable (reader : SeatReader) : List BoxRead :=
  match reader.lent with
  | some (.Reading source) => [source]
  | some .Ended => []
  | none => []

@[simp] theorem SeatReader.readable_reading (source : BoxRead) :
    (SeatReader.mk (some (.Reading source))).readable = [source] := rfl

/-- The readable reader of a grant that was sent and not received. -/
def Waiter.undelivered (waiter : Waiter) : List BoxRead :=
  match waiter.inbox with
  | some (.Seated seated) => seated.reader.readable
  | some .Spent => []
  | none => []

/-- Every lent reader: the guards', and the undelivered grants'. -/
def SeatWorld.lent (w : SeatWorld) : List BoxRead :=
  w.guards.flatMap (fun guard => guard.reader.readable) ++ w.seat.waiting.flatMap Waiter.undelivered

def Cell.armed : Cell → List BoxRead
  | .Armed reader => [reader]
  | .Held _ => []
  | .Handing _ => []
  | .Spent => []

/-- Every place the reader can be: the armed cell, a lent guard, or dropped for good. -/
def SeatWorld.places (w : SeatWorld) : List BoxRead := w.seat.cell.armed ++ w.lent ++ w.seat.gone

theorem deliver_ok {grant : Nat} {value : Grant} {waiting waiting' : List Waiter}
    (h : deliver grant value waiting = .ok waiting') :
    ∃ before waiter after, waiting = before ++ waiter :: after ∧ waiter.grant = grant ∧
      waiting' = before ++ { waiter with inbox := some value } :: after := by
  induction waiting generalizing waiting' with
  | nil => cases h
  | cons waiter rest ih =>
    by_cases hgrant : waiter.grant = grant
    · rw [deliver, if_pos hgrant] at h
      cases h
      exact ⟨[], waiter, rest, rfl, hgrant, rfl⟩
    · rw [deliver, if_neg hgrant] at h
      obtain ⟨rest', hrest, rfl⟩ := Checked.map_ok.1 h
      obtain ⟨before, found, after, rfl, hfound, rfl⟩ := ih hrest
      exact ⟨waiter :: before, found, after, rfl, hfound, rfl⟩

theorem deliver_error {grant : Nat} {value back : Grant} {waiting : List Waiter}
    (h : deliver grant value waiting = .error back) :
    back = value ∧ ∀ waiter ∈ waiting, waiter.grant ≠ grant := by
  induction waiting with
  | nil =>
    cases h
    simp
  | cons waiter rest ih =>
    by_cases hgrant : waiter.grant = grant
    · rw [deliver, if_pos hgrant] at h
      cases h
    · rw [deliver, if_neg hgrant] at h
      cases hrest : deliver grant value rest with
      | ok rest' =>
        rw [hrest] at h
        cases h
      | error found =>
        rw [hrest] at h
        cases h
        obtain ⟨hvalue, hothers⟩ := ih hrest
        refine ⟨hvalue, ?_⟩
        intro other hother
        cases List.mem_cons.1 hother with
        | inl heq =>
          rw [heq]
          exact hgrant
        | inr hmem => exact hothers other hmem

/-- Who waits, and for what: a dialer that was sent nothing is the one the seat is being handed to, and
a seat that was sent and not received still reads. -/
structure Seat.Waits (s : Seat) : Prop where
  inboxes : ∀ waiter ∈ s.waiting,
    waiter.inbox = none ↔ ∃ handoff, s.cell = .Handing handoff ∧ handoff.grant = waiter.grant
  delivered : ∀ waiter ∈ s.waiting, ∀ seated, waiter.inbox = some (.Seated seated) →
    seated.reader.readable ≠ []
  grants : (s.waiting.map Waiter.grant).Nodup
  fresh : ∀ waiter ∈ s.waiting, waiter.grant < s.next
  strays : .Stray ∉ s.log

namespace Seat.Waits

variable {s s' : Seat}

/-- A step that starts and ends no hand-off leaves the waiting dialers as they were. -/
theorem unmoved (h : s.Waits) (hwaiting : s'.waiting = s.waiting) (hnext : s.next ≤ s'.next)
    (hcell : ∀ handoff, s'.cell = .Handing handoff ↔ s.cell = .Handing handoff)
    (hlog : .Stray ∉ s'.log) : s'.Waits := by
  refine ⟨?_, ?_, ?_, ?_, hlog⟩
  · intro waiter hmem
    rw [hwaiting] at hmem
    simp only [hcell]
    exact h.inboxes waiter hmem
  · rw [hwaiting]
    exact h.delivered
  · rw [hwaiting]
    exact h.grants
  · intro waiter hmem
    rw [hwaiting] at hmem
    have hlt := h.fresh waiter hmem
    omega

theorem erased {before after : List Waiter} {waiter : Waiter} (h : s.Waits)
    (hwaiting : s.waiting = before ++ waiter :: after) :
    ({ s with waiting := before ++ after } : Seat).Waits := by
  have hsub : List.Sublist (before ++ after) s.waiting := by
    rw [hwaiting]
    exact List.Sublist.append_left (List.sublist_cons_self _ _) before
  refine ⟨?_, ?_, ?_, ?_, h.strays⟩
  · intro other hmem
    exact h.inboxes other (hsub.subset hmem)
  · intro other hmem
    exact h.delivered other (hsub.subset hmem)
  · exact h.grants.sublist (hsub.map _)
  · intro other hmem
    exact h.fresh other (hsub.subset hmem)

/-- A value sent to the one dialer the seat is being handed to. -/
theorem sent {handoff : Handoff} {value : Grant} {waiting' : List Waiter} (h : s.Waits)
    (hcell : s.cell = .Handing handoff) (hdeliver : deliver handoff.grant value s.waiting = .ok waiting')
    (hvalue : ∀ seated, value = .Seated seated → seated.reader.readable ≠ [])
    (hwaiting : s'.waiting = waiting') (hnext : s.next ≤ s'.next)
    (hcell' : ∀ handoff, s'.cell ≠ .Handing handoff) (hlog : .Stray ∉ s'.log) : s'.Waits := by
  obtain ⟨before, waiter, after, hsplit, hgrant, rfl⟩ := deliver_ok hdeliver
  have hnames : (before ++ { waiter with inbox := some value } :: after).map Waiter.grant =
      s.waiting.map Waiter.grant := by
    rw [hsplit]
    simp
  have hmem (other : Waiter) (hother : other ∈ s'.waiting) :
      (other ∈ s.waiting ∧ other.grant ≠ handoff.grant) ∨ other = { waiter with inbox := some value } := by
    have hnodup := h.grants
    rw [hsplit, List.map_append, List.map_cons, List.nodup_middle, List.nodup_cons, List.mem_append] at hnodup
    rw [hwaiting, List.mem_append, List.mem_cons] at hother
    rcases hother with hother | hother | hother
    · refine .inl ⟨by simp [hsplit, hother], ?_⟩
      intro heq
      exact hnodup.1 (.inl (List.mem_map.2 ⟨other, hother, by rw [heq, hgrant]⟩))
    · exact .inr hother
    · refine .inl ⟨by simp [hsplit, hother], ?_⟩
      intro heq
      exact hnodup.1 (.inr (List.mem_map.2 ⟨other, hother, by rw [heq, hgrant]⟩))
  refine ⟨?_, ?_, ?_, ?_, hlog⟩
  · intro other hother
    have hnot : ¬ ∃ handoff, s'.cell = .Handing handoff ∧ handoff.grant = other.grant := by
      rintro ⟨found, hfound, -⟩
      exact hcell' found hfound
    simp only [hnot, iff_false]
    rcases hmem other hother with ⟨hold, hne⟩ | rfl
    · rw [h.inboxes other hold]
      rintro ⟨found, hfound, heq⟩
      rw [hcell] at hfound
      cases hfound
      exact hne heq.symm
    · simp
  · intro other hother seated hinbox
    rcases hmem other hother with ⟨hold, -⟩ | rfl
    · exact h.delivered other hold seated hinbox
    · exact hvalue seated (Option.some.inj hinbox)
  · rw [hwaiting, hnames]
    exact h.grants
  · intro other hother
    have hnamed : other.grant ∈ s.waiting.map Waiter.grant := by
      rw [← hnames, ← hwaiting]
      exact List.mem_map_of_mem hother
    obtain ⟨old, hold, heq⟩ := List.mem_map.1 hnamed
    have hlt := h.fresh old hold
    omega

/-- A hand-off whose dialer is gone. -/
theorem unclaimed {handoff : Handoff} (h : s.Waits) (hcell : s.cell = .Handing handoff)
    (hgone : ∀ waiter ∈ s.waiting, waiter.grant ≠ handoff.grant) (hwaiting : s'.waiting = s.waiting)
    (hnext : s.next ≤ s'.next) (hcell' : ∀ handoff, s'.cell ≠ .Handing handoff)
    (hlog : .Stray ∉ s'.log) : s'.Waits := by
  refine ⟨?_, ?_, ?_, ?_, hlog⟩
  · intro waiter hmem
    rw [hwaiting] at hmem
    have hnot : ¬ ∃ handoff, s'.cell = .Handing handoff ∧ handoff.grant = waiter.grant := by
      rintro ⟨found, hfound, -⟩
      exact hcell' found hfound
    simp only [hnot, iff_false]
    rw [h.inboxes waiter hmem]
    rintro ⟨found, hfound, heq⟩
    rw [hcell] at hfound
    cases hfound
    exact hgone waiter hmem heq.symm
  · rw [hwaiting]
    exact h.delivered
  · rw [hwaiting]
    exact h.grants
  · intro waiter hmem
    rw [hwaiting] at hmem
    have hlt := h.fresh waiter hmem
    omega

/-- A holder gives way, and the dialer that displaced it waits under a new grant. -/
theorem displaced {holder : Holder} (h : s.Waits) (hcell : s.cell = .Held holder) (dialer : NodeId) :
    ({ s with
        cell := .Handing ⟨dialer, s.next⟩
        preempted := holder.link :: s.preempted
        waiting := ⟨dialer, s.next, none⟩ :: s.waiting
        next := s.next + 1
        log := s.log ++ [.Displaced holder.peer dialer] } : Seat).Waits := by
  refine ⟨?_, ?_, ?_, ?_, ?_⟩
  · intro waiter hwaiter
    rcases List.mem_cons.1 hwaiter with rfl | hwaiter
    · simp
    · have hold := h.inboxes waiter hwaiter
      have hlt := h.fresh waiter hwaiter
      simp only [hcell] at hold
      rw [hold]
      simp
      omega
  · intro waiter hwaiter seated hinbox
    rcases List.mem_cons.1 hwaiter with rfl | hwaiter
    · cases hinbox
    · exact h.delivered waiter hwaiter seated hinbox
  · simp only [List.map_cons, List.nodup_cons]
    refine ⟨?_, h.grants⟩
    intro hmem
    obtain ⟨waiter, hwaiter, heq⟩ := List.mem_map.1 hmem
    have hlt := h.fresh waiter hwaiter
    omega
  · intro waiter hwaiter
    rcases List.mem_cons.1 hwaiter with rfl | hwaiter
    · exact Nat.lt_succ_self _
    · exact Nat.lt_succ_of_lt (h.fresh waiter hwaiter)
  · simpa using h.strays

end Seat.Waits

theorem sent_undelivered {grant : Nat} {value : Grant} {waiting waiting' : List Waiter}
    (hdeliver : deliver grant value waiting = .ok waiting')
    (hnone : waiting.flatMap Waiter.undelivered = []) :
    ∃ waiter ∈ waiting', waiting'.flatMap Waiter.undelivered = waiter.undelivered ∧ waiter.inbox = some value := by
  obtain ⟨before, waiter, after, rfl, hgrant, rfl⟩ := deliver_ok hdeliver
  simp only [List.flatMap_append, List.flatMap_cons, List.append_eq_nil_iff] at hnone
  obtain ⟨hbefore, hwaiter, hafter⟩ := hnone
  exact ⟨{ waiter with inbox := some value }, by simp, by simp [hbefore, hafter], rfl⟩

/-- A seat that is lent: some peer holds it, or it is being handed over. -/
def Cell.lent : Cell → Prop
  | .Armed _ => False
  | .Held _ => True
  | .Handing _ => True
  | .Spent => False

theorem Cell.lent.ne_spent {cell : Cell} (h : cell.lent) : cell ≠ .Spent := by
  intro heq
  rw [heq] at h
  cases h

namespace Seat.Waits

variable {s : Seat}

/-- The end of input retires a lent seat, and is sent to the dialer that waits for it. -/
theorem putBack_ended (h : s.Waits) (hlent : s.cell.lent)
    (hnone : s.waiting.flatMap Waiter.undelivered = []) :
    (s.putBack .Ended).Waits ∧ (s.putBack .Ended).cell = .Spent ∧ (s.putBack .Ended).gone = s.gone ∧
      (s.putBack .Ended).waiting.flatMap Waiter.undelivered = [] := by
  have hlog : SeatLine.Stray ∉ s.log ++ [.EndOfInput] := by
    simpa using h.strays
  cases hcell : s.cell with
  | Armed reader =>
    rw [hcell] at hlent
    cases hlent
  | Spent =>
    rw [hcell] at hlent
    cases hlent
  | Held holder =>
    have hback : s.putBack .Ended = { s with cell := .Spent, log := s.log ++ [.EndOfInput] } := by
      simp [putBack, hcell]
    rw [hback]
    refine ⟨h.unmoved rfl (le_refl _) ?_ hlog, rfl, rfl, hnone⟩
    simp [hcell]
  | Handing handoff =>
    cases hdeliver : deliver handoff.grant .Spent s.waiting with
    | ok waiting' =>
      have hback : s.putBack .Ended =
          { s with cell := .Spent, log := s.log ++ [.EndOfInput], waiting := waiting' } := by
        simp [putBack, hcell, hdeliver]
      rw [hback]
      refine ⟨h.sent hcell hdeliver (by simp) rfl (le_refl _) (by simp) hlog, rfl, rfl, ?_⟩
      obtain ⟨waiter, -, hundelivered, hinbox⟩ := sent_undelivered hdeliver hnone
      change waiting'.flatMap Waiter.undelivered = []
      rw [hundelivered, Waiter.undelivered, hinbox]
    | error back =>
      have hback : s.putBack .Ended = { s with cell := .Spent, log := s.log ++ [.EndOfInput] } := by
        simp [putBack, hcell, hdeliver]
      rw [hback]
      exact ⟨h.unclaimed hcell (deliver_error hdeliver).2 rfl (le_refl _) (by simp) hlog, rfl, rfl, hnone⟩

/-- A reader that still reads arms the seat again, or goes straight to the dialer that waits for it. -/
theorem putBack_reading (h : s.Waits) (hlent : s.cell.lent)
    (hnone : s.waiting.flatMap Waiter.undelivered = []) (reader : BoxRead) :
    (s.putBack (.Reading reader)).Waits ∧ (s.putBack (.Reading reader)).gone = s.gone ∧
      (((s.putBack (.Reading reader)).cell = .Armed reader ∧
          (s.putBack (.Reading reader)).waiting.flatMap Waiter.undelivered = []) ∨
        ((∃ holder, (s.putBack (.Reading reader)).cell = .Held holder) ∧
          (s.putBack (.Reading reader)).waiting.flatMap Waiter.undelivered = [reader])) := by
  cases hcell : s.cell with
  | Armed reader =>
    rw [hcell] at hlent
    cases hlent
  | Spent =>
    rw [hcell] at hlent
    cases hlent
  | Held holder =>
    have hback : s.putBack (.Reading reader) = { s with cell := .Armed reader } := by
      simp [putBack, hcell]
    rw [hback]
    refine ⟨h.unmoved rfl (le_refl _) ?_ h.strays, rfl, .inl ⟨rfl, hnone⟩⟩
    simp [hcell]
  | Handing handoff =>
    cases hdeliver : deliver handoff.grant (.Seated (s.seat handoff.dialer reader).2.2) s.waiting with
    | ok waiting' =>
      have hback : s.putBack (.Reading reader) =
          { (s.seat handoff.dialer reader).1 with
            cell := .Held (s.seat handoff.dialer reader).2.1, waiting := waiting' } := by
        simp only [seat] at hdeliver
        simp [putBack, hcell, seat, hdeliver]
      rw [hback]
      refine ⟨h.sent hcell hdeliver ?_ rfl (Nat.le_succ _) (by simp) h.strays, rfl, .inr ⟨⟨_, rfl⟩, ?_⟩⟩
      · intro seated hseated
        cases hseated
        simp [seat, SeatReader.readable]
      · obtain ⟨waiter, -, hundelivered, hinbox⟩ := sent_undelivered hdeliver hnone
        change waiting'.flatMap Waiter.undelivered = [reader]
        rw [hundelivered, Waiter.undelivered, hinbox]
        rfl
    | error back =>
      obtain ⟨rfl, hgone⟩ := deliver_error hdeliver
      have hback : s.putBack (.Reading reader) =
          { (s.seat handoff.dialer reader).1 with cell := .Armed reader } := by
        simp only [seat] at hdeliver
        simp [putBack, hcell, seat, hdeliver]
      rw [hback]
      exact ⟨h.unclaimed hcell hgone rfl (Nat.le_succ _) (by simp) h.strays, rfl, .inl ⟨rfl, hnone⟩⟩

end Seat.Waits

namespace SeatWorld

variable {fd : Nat}

/-- Where the reader is, by what the cell says. -/
def Placed (fd : Nat) (w : SeatWorld) : Prop :=
  match w.seat.cell with
  | .Armed reader => reader = ⟨fd, w.answered⟩ ∧ w.lent = [] ∧ w.seat.gone = []
  | .Held _ => w.lent = [⟨fd, w.answered⟩] ∧ w.seat.gone = []
  | .Handing _ => w.lent = [⟨fd, w.answered⟩] ∧ w.seat.gone = []
  | .Spent => w.lent = [] ∧ w.seat.gone = [⟨fd, w.answered⟩]

/-- One reader in one place, whose polls are all the seat has answered, and none of them its end until
it is gone. -/
structure Sound (fd : Nat) (w : SeatWorld) : Prop where
  waits : w.seat.Waits
  whole : ∀ guard ∈ w.guards, guard.reader.lent ≠ some .Ended
  placed : w.Placed fd
  reading : w.seat.cell ≠ .Spent → ∀ read ∈ w.answered, read.ended = false
  finished : w.seat.cell = .Spent → ∃ init last, w.answered = init ++ [last] ∧ last.ended = true

/-- The three places: the armed cell, one lent guard, or gone. -/
theorem Placed.three {w : SeatWorld} (h : w.Placed fd) :
    (w.seat.cell = .Armed ⟨fd, w.answered⟩ ∧ w.lent = [] ∧ w.seat.gone = []) ∨
      (w.seat.cell.lent ∧ w.lent = [⟨fd, w.answered⟩] ∧ w.seat.gone = []) ∨
      (w.seat.cell = .Spent ∧ w.lent = [] ∧ w.seat.gone = [⟨fd, w.answered⟩]) := by
  unfold Placed at h
  cases hcell : w.seat.cell with
  | Armed reader =>
    rw [hcell] at h
    obtain ⟨rfl, hrest⟩ := h
    exact .inl ⟨rfl, hrest⟩
  | Held holder =>
    rw [hcell] at h
    exact .inr (.inl ⟨trivial, h⟩)
  | Handing handoff =>
    rw [hcell] at h
    exact .inr (.inl ⟨trivial, h⟩)
  | Spent =>
    rw [hcell] at h
    exact .inr (.inr ⟨rfl, h⟩)

theorem Placed.of_lent {w : SeatWorld} (h : w.Placed fd) (hlent : w.lent ≠ []) :
    w.seat.cell.lent ∧ w.lent = [⟨fd, w.answered⟩] ∧ w.seat.gone = [] := by
  rcases h.three with ⟨-, hnil, -⟩ | hlends | ⟨-, hnil, -⟩
  · exact absurd hnil hlent
  · exact hlends
  · exact absurd hnil hlent

theorem Placed.lends {w : SeatWorld} (h : w.Placed fd) (hcell : w.seat.cell.lent) :
    w.lent = [⟨fd, w.answered⟩] ∧ w.seat.gone = [] := by
  rcases h.three with ⟨harmed, -⟩ | ⟨-, hlends⟩ | ⟨hspent, -⟩
  · rw [harmed] at hcell
    cases hcell
  · exact hlends
  · exact absurd hspent hcell.ne_spent

theorem placed_of_lends {w : SeatWorld} (hcell : w.seat.cell.lent) (hlent : w.lent = [⟨fd, w.answered⟩])
    (hgone : w.seat.gone = []) : w.Placed fd := by
  unfold Placed
  cases hcase : w.seat.cell with
  | Armed reader =>
    rw [hcase] at hcell
    cases hcell
  | Held holder => exact ⟨hlent, hgone⟩
  | Handing handoff => exact ⟨hlent, hgone⟩
  | Spent =>
    rw [hcase] at hcell
    cases hcell

theorem new_sound (fd : Nat) : (new fd).Sound fd := by
  refine ⟨⟨?_, ?_, ?_, ?_, ?_⟩, ?_, ?_, ?_, ?_⟩
  all_goals simp [new, Seat.new, Placed, lent]

/-- A lent reader that comes back still reading, when it was the only one lent. -/
theorem sound_putBack {seat : Seat} {guards : List Seated} {answered : List Read} (hwaits : seat.Waits)
    (hcell : seat.cell.lent) (hwhole : ∀ guard ∈ guards, guard.reader.lent ≠ some .Ended)
    (hguards : guards.flatMap (fun guard => guard.reader.readable) = [])
    (hwaiting : seat.waiting.flatMap Waiter.undelivered = []) (hgone : seat.gone = [])
    (hreading : ∀ read ∈ answered, read.ended = false) :
    Sound fd ⟨seat.putBack (.Reading ⟨fd, answered⟩), guards, answered⟩ := by
  obtain ⟨hwaits', hgone', hback⟩ := hwaits.putBack_reading hcell hwaiting ⟨fd, answered⟩
  rcases hback with ⟨harmed, hnone⟩ | ⟨⟨holder, hheld⟩, hone⟩
  · refine ⟨hwaits', hwhole, ?_, fun _ => hreading, ?_⟩
    · simp [Placed, harmed, lent, hguards, hnone, hgone', hgone]
    · intro hspent
      rw [harmed] at hspent
      cases hspent
  · refine ⟨hwaits', hwhole, ?_, fun _ => hreading, ?_⟩
    · simp [Placed, hheld, lent, hguards, hone, hgone', hgone]
    · intro hspent
      rw [hheld] at hspent
      cases hspent

/-- A claim takes a seat at rest, or displaces its holder, or does nothing. -/
theorem claim_cases (w : SeatWorld) (dialer : NodeId) (now : Nat) :
    w.claim dialer now = w ∨
    (∃ reader, w.seat.cell = .Armed reader ∧ w.claim dialer now =
      { w with
        seat := { (w.seat.seat dialer reader).1 with cell := .Held ⟨dialer, w.seat.next⟩ }
        guards := (w.seat.seat dialer reader).2.2 :: w.guards }) ∨
    ∃ holder, w.seat.cell = .Held holder ∧ w.claim dialer now =
      { w with
        seat :=
          { w.seat with
            cell := .Handing ⟨dialer, w.seat.next⟩
            preempted := holder.link :: w.seat.preempted
            waiting := ⟨dialer, w.seat.next, none⟩ :: w.seat.waiting
            next := w.seat.next + 1
            log := w.seat.log ++ [.Displaced holder.peer dialer] } } := by
  cases hcell : w.seat.cell with
  | Armed reader => exact .inr (.inl ⟨reader, rfl, by simp [claim, Seat.take, hcell, Seat.seat]⟩)
  | Spent => exact .inl (by simp [claim, Seat.take, hcell])
  | Handing handoff => exact .inl (by simp [claim, Seat.take, hcell])
  | Held holder =>
    by_cases hkept : holder.peer = dialer ∨ (w.seat.gauges holder.link).preemptible now = false
    · exact .inl (by simp [claim, Seat.take, hcell, hkept])
    · exact .inr (.inr ⟨holder, rfl, by simp [claim, Seat.take, hcell, hkept]⟩)

theorem claim_sound {w : SeatWorld} (h : w.Sound fd) (dialer : NodeId) (now : Nat) :
    (w.claim dialer now).Sound fd := by
  obtain hsame | ⟨reader, hcell, hclaim⟩ | ⟨holder, hcell, hclaim⟩ := claim_cases w dialer now
  · rw [hsame]
    exact h
  · obtain ⟨hwaits, hwhole, hplaced, hreading, hover⟩ := h
    simp only [Placed, hcell, lent, List.append_eq_nil_iff] at hplaced
    obtain ⟨rfl, ⟨hguards, hwaiting⟩, hgone⟩ := hplaced
    rw [hclaim]
    refine ⟨?_, ?_, ?_, fun _ => hreading (by simp [hcell]), by simp⟩
    · exact hwaits.unmoved rfl (Nat.le_succ _) (by simp [hcell]) hwaits.strays
    · intro guard hguard
      rcases List.mem_cons.1 hguard with rfl | hguard
      · simp [Seat.seat]
      · exact hwhole guard hguard
    · simp [Placed, lent, Seat.seat, hguards, hwaiting, hgone]
  · obtain ⟨hwaits, hwhole, hplaced, hreading, hover⟩ := h
    obtain ⟨hlent, hgone⟩ := hplaced.lends (by simp [hcell, Cell.lent])
    rw [hclaim]
    refine ⟨hwaits.displaced hcell dialer, hwhole, ?_, fun _ => hreading (by simp [hcell]), by simp⟩
    refine placed_of_lends trivial ?_ hgone
    simpa [lent, Waiter.undelivered] using hlent

/-- A waiting dialer that leaves with nothing in hand takes no reader with it. -/
theorem erased_sound {w : SeatWorld} {before after : List Waiter} {waiter : Waiter} (h : w.Sound fd)
    (hwaiting : w.seat.waiting = before ++ waiter :: after) (hempty : waiter.undelivered = []) :
    Sound fd { w with seat := { w.seat with waiting := before ++ after } } := by
  obtain ⟨hwaits, hwhole, hplaced, hreading, hover⟩ := h
  have hlent : lent { w with seat := { w.seat with waiting := before ++ after } } = w.lent := by
    simp [lent, hwaiting, hempty]
  refine ⟨hwaits.erased hwaiting, hwhole, ?_, hreading, hover⟩
  unfold Placed at hplaced ⊢
  rw [hlent]
  exact hplaced

/-- An undelivered seat is the one lent reader. -/
theorem undelivered_alone {w : SeatWorld} {before after : List Waiter} {waiter : Waiter} {seated : Seated}
    (h : w.Sound fd) (hwaiting : w.seat.waiting = before ++ waiter :: after)
    (hinbox : waiter.inbox = some (.Seated seated)) :
    seated.reader = ⟨some (.Reading ⟨fd, w.answered⟩)⟩ ∧ w.seat.cell.lent ∧ w.seat.gone = [] ∧
      w.guards.flatMap (fun guard => guard.reader.readable) = [] ∧
      (before ++ after).flatMap Waiter.undelivered = [] := by
  have hsome := h.waits.delivered waiter (by simp [hwaiting]) seated hinbox
  have hundelivered : waiter.undelivered = seated.reader.readable := by
    simp [Waiter.undelivered, hinbox]
  have hlent : w.lent = (w.guards.flatMap (fun guard => guard.reader.readable) ++
      before.flatMap Waiter.undelivered) ++ (seated.reader.readable ++ after.flatMap Waiter.undelivered) := by
    simp [lent, hwaiting, hundelivered]
  have hne : w.lent ≠ [] := by
    rw [hlent]
    simp [hsome]
  obtain ⟨hcell, hone, hgone⟩ := h.placed.of_lent hne
  rw [hlent] at hone
  obtain ⟨hothers, hreader, hafter⟩ := single_at hsome hone
  obtain ⟨hguards, hbefore⟩ := List.append_eq_nil_iff.1 hothers
  refine ⟨?_, hcell, hgone, hguards, by simp [hbefore, hafter]⟩
  obtain ⟨reader, link⟩ := seated
  obtain ⟨held⟩ := reader
  cases held with
  | none => cases hreader
  | some held =>
    cases held with
    | Ended => cases hreader
    | Reading source =>
      cases hreader
      rfl

theorem received_sound {w : SeatWorld} (h : w.Sound fd) (i : Nat) : (w.received i).Sound fd := by
  unfold received
  cases hat : w.seat.waiting[i]? with
  | none => exact h
  | some waiter =>
    obtain ⟨before, after, hwaiting, herase, -⟩ := split_at hat
    cases hinbox : waiter.inbox with
    | none =>
      simp only [hinbox]
      exact h
    | some grant =>
      simp only [herase, hinbox]
      cases grant with
      | Spent => exact erased_sound h hwaiting (by simp [Waiter.undelivered, hinbox])
      | Seated seated =>
        obtain ⟨hreader, hcell, hgone, hguards, hothers⟩ := undelivered_alone h hwaiting hinbox
        obtain ⟨hwaits, hwhole, hplaced, hreading, hover⟩ := h
        refine ⟨hwaits.erased hwaiting, ?_, placed_of_lends hcell ?_ hgone, hreading, hover⟩
        · intro guard hguard
          rcases List.mem_cons.1 hguard with rfl | hguard
          · simp [hreader]
          · exact hwhole guard hguard
        · simp [lent, hguards, hothers, hreader]

theorem abandoned_sound {w : SeatWorld} (h : w.Sound fd) (i : Nat) : (w.abandoned i).Sound fd := by
  unfold abandoned
  cases hat : w.seat.waiting[i]? with
  | none => exact h
  | some waiter =>
    obtain ⟨before, after, hwaiting, herase, -⟩ := split_at hat
    simp only [herase]
    cases hinbox : waiter.inbox with
    | none => exact erased_sound h hwaiting (by simp [Waiter.undelivered, hinbox])
    | some grant =>
      cases grant with
      | Spent => exact erased_sound h hwaiting (by simp [Waiter.undelivered, hinbox])
      | Seated seated =>
        obtain ⟨hreader, hcell, hgone, hguards, hothers⟩ := undelivered_alone h hwaiting hinbox
        simp only [Seat.dropReader, hreader]
        exact sound_putBack (h.waits.erased hwaiting) hcell h.whole hguards hothers hgone
          (h.reading hcell.ne_spent)

/-- A guard that can still be read is the one lent reader. -/
theorem guard_alone {w : SeatWorld} {before after : List Seated} {guard : Seated} {source : BoxRead}
    (h : w.Sound fd) (hguards : w.guards = before ++ guard :: after)
    (hsource : guard.reader.lent = some (.Reading source)) :
    source = ⟨fd, w.answered⟩ ∧ w.seat.cell.lent ∧ w.seat.gone = [] ∧
      (before ++ after).flatMap (fun guard => guard.reader.readable) = [] ∧
      w.seat.waiting.flatMap Waiter.undelivered = [] := by
  have hreadable : guard.reader.readable = [source] := by
    simp [SeatReader.readable, hsource]
  have hlent : w.lent = before.flatMap (fun guard => guard.reader.readable) ++
      ([source] ++ (after.flatMap (fun guard => guard.reader.readable) ++
        w.seat.waiting.flatMap Waiter.undelivered)) := by
    simp [lent, hguards, hreadable]
  have hne : w.lent ≠ [] := by
    rw [hlent]
    simp
  obtain ⟨hcell, hone, hgone⟩ := h.placed.of_lent hne
  rw [hlent] at hone
  obtain ⟨hbefore, hreader, hrest⟩ := single_at (by simp) hone
  obtain ⟨hafter, hwaiting⟩ := List.append_eq_nil_iff.1 hrest
  exact ⟨List.singleton_inj.1 hreader, hcell, hgone, by simp [hbefore, hafter], hwaiting⟩

theorem dropped_sound {w : SeatWorld} (h : w.Sound fd) (i : Nat) : (w.dropped i).Sound fd := by
  unfold dropped
  cases hat : w.guards[i]? with
  | none => exact h
  | some guard =>
    obtain ⟨before, after, hguards, herase, -⟩ := split_at hat
    have hwhole : ∀ other ∈ before ++ after, other.reader.lent ≠ some .Ended := by
      intro other hother
      apply h.whole other
      rw [hguards, List.mem_append, List.mem_cons]
      cases List.mem_append.1 hother with
      | inl hbefore => exact .inl hbefore
      | inr hafter => exact .inr (.inr hafter)
    simp only [herase, Seat.dropReader]
    cases hheld : guard.reader.lent with
    | none =>
      have hlent : lent { w with guards := before ++ after } = w.lent := by
        simp [lent, hguards, SeatReader.readable, hheld]
      refine ⟨h.waits, hwhole, ?_, h.reading, h.finished⟩
      have hplaced := h.placed
      unfold Placed at hplaced ⊢
      rw [hlent]
      exact hplaced
    | some held =>
      cases held with
      | Ended => exact absurd hheld (h.whole guard (by simp [hguards]))
      | Reading source =>
        obtain ⟨rfl, hcell, hgone, hothers, hwaiting⟩ := guard_alone h hguards hheld
        exact sound_putBack h.waits hcell hwhole hothers hwaiting hgone (h.reading hcell.ne_spent)

theorem read_ended {w : SeatWorld} {before after : List Seated} {guard : Seated} {source : BoxRead}
    {read : Read} (h : w.Sound fd) (hguards : w.guards = before ++ guard :: after)
    (hsource : guard.reader.lent = some (.Reading source)) (hended : read.ended = true) :
    Sound fd
      ⟨({ w.seat with gone := w.seat.gone ++ [source.answer read] } : Seat).putBack .Ended,
        before ++ { guard with reader := ⟨none⟩ } :: after, w.answered ++ [read]⟩ := by
  obtain ⟨rfl, hcell, hgone, hothers, hwaiting⟩ := guard_alone h hguards hsource
  let dropped : Seat := { w.seat with gone := w.seat.gone ++ [BoxRead.answer ⟨fd, w.answered⟩ read] }
  have hdropped : dropped.Waits := h.waits.unmoved rfl (le_refl _) (fun _ => Iff.rfl) h.waits.strays
  obtain ⟨hwaits, hspent, hkept, hnone⟩ := hdropped.putBack_ended hcell hwaiting
  obtain ⟨hbefore, hafter⟩ := List.append_eq_nil_iff.1 (List.flatMap_append.symm.trans hothers)
  refine ⟨hwaits, ?_, ?_, ?_, ?_⟩
  · intro other hother
    rcases List.mem_append.1 hother with hmem | hmem
    · exact h.whole other (by simp [hguards, hmem])
    · rcases List.mem_cons.1 hmem with rfl | hmem
      · simp
      · exact h.whole other (by simp [hguards, hmem])
  · have hgone' : (dropped.putBack .Ended).gone = [⟨fd, w.answered ++ [read]⟩] := by
      rw [hkept]
      simp [dropped, hgone, BoxRead.answer]
    have hnil : (SeatReader.mk none).readable = [] := rfl
    change SeatWorld.Placed fd ⟨dropped.putBack .Ended, _, _⟩
    simp [Placed, hspent, lent, hbefore, hafter, hnil, hnone, hgone']
  · intro hne
    exact absurd hspent hne
  · intro _
    exact ⟨w.answered, read, rfl, hended⟩

theorem read_on {w : SeatWorld} {before after : List Seated} {guard : Seated} {source : BoxRead}
    {read : Read} (h : w.Sound fd) (hguards : w.guards = before ++ guard :: after)
    (hsource : guard.reader.lent = some (.Reading source)) (hon : read.ended = false) :
    Sound fd
      ⟨w.seat, before ++ { guard with reader := ⟨some (.Reading (source.answer read))⟩ } :: after,
        w.answered ++ [read]⟩ := by
  obtain ⟨rfl, hcell, hgone, hothers, hwaiting⟩ := guard_alone h hguards hsource
  obtain ⟨hbefore, hafter⟩ := List.append_eq_nil_iff.1 (List.flatMap_append.symm.trans hothers)
  refine ⟨h.waits, ?_, placed_of_lends hcell ?_ hgone, ?_, ?_⟩
  · intro other hother
    rcases List.mem_append.1 hother with hmem | hmem
    · exact h.whole other (by simp [hguards, hmem])
    · rcases List.mem_cons.1 hmem with rfl | hmem
      · simp
      · exact h.whole other (by simp [hguards, hmem])
  · simp [lent, hbefore, hafter, hwaiting, BoxRead.answer]
  · intro hne other hother
    rcases List.mem_append.1 hother with hmem | hmem
    · exact h.reading hne other hmem
    · rw [List.mem_singleton.1 hmem]
      exact hon
  · intro hspent
    exact absurd hspent hcell.ne_spent

theorem read_sound {w : SeatWorld} (h : w.Sound fd) (i : Nat) (read : Read) : (w.read i read).Sound fd := by
  unfold SeatWorld.read
  cases hat : w.guards[i]? with
  | none => exact h
  | some guard =>
    obtain ⟨before, after, hguards, -, hset⟩ := split_at hat
    simp only [hset]
    cases hheld : guard.reader.lent with
    | none =>
      simp only [Seat.pollRead, hheld, Option.isSome_none, Bool.false_eq_true, if_false]
      rw [← hguards]
      exact h
    | some held =>
      cases held with
      | Ended => exact absurd hheld (h.whole guard (by simp [hguards]))
      | Reading source =>
        simp only [Seat.pollRead, hheld, Option.isSome_some, if_true]
        cases hended : read.ended with
        | true => exact read_ended h hguards hheld hended
        | false => exact read_on h hguards hheld hended

theorem wrote_sound {w : SeatWorld} (h : w.Sound fd) (i : Nat) (polled : Poll (Except Unit Nat)) (now : Nat) :
    (w.wrote i polled now).Sound fd := by
  unfold wrote
  cases w.guards[i]? with
  | none => exact h
  | some guard =>
    refine ⟨?_, h.whole, h.placed, h.reading, h.finished⟩
    exact h.waits.unmoved rfl (le_refl _) (fun _ => Iff.rfl) h.waits.strays

theorem step_sound {w : SeatWorld} (h : w.Sound fd) (event : SeatEvent) : (w.step event).Sound fd := by
  cases event with
  | claim dialer now => exact claim_sound h dialer now
  | received waiter => exact received_sound h waiter
  | abandoned waiter => exact abandoned_sound h waiter
  | read guard read => exact read_sound h guard read
  | dropped guard => exact dropped_sound h guard
  | wrote guard polled now => exact wrote_sound h guard polled now

theorem run_sound (fd : Nat) (events : List SeatEvent) : (run fd events).Sound fd := by
  apply List.foldlRecOn events step (new_sound fd)
  intro w h event _
  exact step_sound h event

/-- A reader that comes back still reading never spends the seat. -/
theorem putBack_ne_spent {seat : Seat} (hwaits : seat.Waits) (hcell : seat.cell.lent)
    (hwaiting : seat.waiting.flatMap Waiter.undelivered = []) (reader : BoxRead) :
    (seat.putBack (.Reading reader)).cell ≠ .Spent := by
  intro hspent
  obtain ⟨-, -, hback⟩ := hwaits.putBack_reading hcell hwaiting reader
  rcases hback with ⟨harmed, -⟩ | ⟨⟨holder, hheld⟩, -⟩
  · rw [harmed] at hspent
    cases hspent
  · rw [hheld] at hspent
    cases hspent

/-- This event is a read of the lent reader that reached its end. -/
def EndsAt (w : SeatWorld) (event : SeatEvent) : Prop :=
  ∃ i read guard source, event = .read i read ∧ read.ended = true ∧ w.guards[i]? = some guard ∧
    guard.reader.lent = some (.Reading source)

/-- What one step does to the cell: nothing, a move that neither leaves nor reaches the end, or the end. -/
theorem Sound.step_cell {w : SeatWorld} (h : w.Sound fd) (event : SeatEvent) :
    (w.step event).seat.cell = w.seat.cell ∨
      (w.seat.cell ≠ .Spent ∧ (w.step event).seat.cell ≠ .Spent) ∨
      (w.seat.cell ≠ .Spent ∧ w.EndsAt event) := by
  cases event with
  | claim dialer now =>
    obtain hsame | ⟨reader, hcell, hclaim⟩ | ⟨holder, hcell, hclaim⟩ := claim_cases w dialer now
    · exact .inl (by rw [step, hsame])
    · exact .inr (.inl ⟨by simp [hcell], by simp [step, hclaim]⟩)
    · exact .inr (.inl ⟨by simp [hcell], by simp [step, hclaim]⟩)
  | received i =>
    left
    simp only [step, received]
    cases w.seat.waiting[i]? with
    | none => rfl
    | some waiter =>
      cases hinbox : waiter.inbox with
      | none => simp only [hinbox]
      | some grant => cases grant <;> simp only [hinbox]
  | abandoned i =>
    simp only [step, abandoned]
    cases hat : w.seat.waiting[i]? with
    | none => exact .inl rfl
    | some waiter =>
      obtain ⟨before, after, hwaiting, herase, -⟩ := split_at hat
      simp only [herase]
      cases hinbox : waiter.inbox with
      | none => exact .inl rfl
      | some grant =>
        cases grant with
        | Spent => exact .inl rfl
        | Seated seated =>
          obtain ⟨hreader, hcell, -, -, hothers⟩ := undelivered_alone h hwaiting hinbox
          simp only [Seat.dropReader, hreader]
          exact .inr (.inl ⟨hcell.ne_spent, putBack_ne_spent (h.waits.erased hwaiting) hcell hothers _⟩)
  | read i read =>
    simp only [step, SeatWorld.read]
    cases hat : w.guards[i]? with
    | none => exact .inl rfl
    | some guard =>
      obtain ⟨before, after, hguards, -, -⟩ := split_at hat
      cases hheld : guard.reader.lent with
      | none => exact .inl (by simp only [Seat.pollRead, hheld])
      | some held =>
        cases held with
        | Ended => exact absurd hheld (h.whole guard (by simp [hguards]))
        | Reading source =>
          obtain ⟨-, hcell, -⟩ := guard_alone h hguards hheld
          cases hended : read.ended with
          | true => exact .inr (.inr ⟨hcell.ne_spent, i, read, guard, source, rfl, hended, hat, hheld⟩)
          | false => exact .inl (by simp only [Seat.pollRead, hheld, hended, Bool.false_eq_true, if_false])
  | dropped i =>
    simp only [step, dropped]
    cases hat : w.guards[i]? with
    | none => exact .inl rfl
    | some guard =>
      obtain ⟨before, after, hguards, -, -⟩ := split_at hat
      cases hheld : guard.reader.lent with
      | none => exact .inl (by simp only [Seat.dropReader, hheld])
      | some held =>
        cases held with
        | Ended => exact absurd hheld (h.whole guard (by simp [hguards]))
        | Reading source =>
          obtain ⟨-, hcell, -, -, hwaiting⟩ := guard_alone h hguards hheld
          simp only [Seat.dropReader, hheld]
          exact .inr (.inl ⟨hcell.ne_spent, putBack_ne_spent h.waits hcell hwaiting _⟩)
  | wrote i polled now =>
    left
    simp only [step, wrote]
    cases w.guards[i]? with
    | none => rfl
    | some guard => rfl

theorem Sound.places {w : SeatWorld} (h : w.Sound fd) : w.places = [⟨fd, w.answered⟩] := by
  unfold SeatWorld.places
  rcases h.placed.three with ⟨hcell, hlent, hgone⟩ | ⟨hcell, hlent, hgone⟩ | ⟨hcell, hlent, hgone⟩
  · simp [hcell, Cell.armed, hlent, hgone]
  · have harmed : w.seat.cell.armed = [] := by
      cases hcase : w.seat.cell with
      | Armed reader =>
        rw [hcase] at hcell
        cases hcell
      | Held holder => rfl
      | Handing handoff => rfl
      | Spent => rfl
    simp [harmed, hlent, hgone]
  · simp [hcell, Cell.armed, hlent, hgone]

theorem Sound.armed {w : SeatWorld} (h : w.Sound fd) {reader : BoxRead}
    (hcell : w.seat.cell = .Armed reader) : w.lent = [] := by
  rcases h.placed.three with ⟨-, hlent, -⟩ | ⟨hlent, -⟩ | ⟨-, hlent, -⟩
  · exact hlent
  · rw [hcell] at hlent
    cases hlent
  · exact hlent

theorem Sound.spent {w : SeatWorld} (h : w.Sound fd) (hcell : w.seat.cell = .Spent) :
    w.lent = [] ∧ w.seat.gone = [⟨fd, w.answered⟩] := by
  rcases h.placed.three with ⟨harmed, -⟩ | ⟨hlent, -⟩ | ⟨-, hspent⟩
  · rw [harmed] at hcell
    cases hcell
  · exact absurd hcell hlent.ne_spent
  · exact hspent

theorem Sound.live {w : SeatWorld} (h : w.Sound fd) (hcell : w.seat.cell ≠ .Spent) : w.seat.gone = [] := by
  rcases h.placed.three with ⟨-, -, hgone⟩ | ⟨-, -, hgone⟩ | ⟨hspent, -⟩
  · exact hgone
  · exact hgone
  · exact absurd hspent hcell

/-- A reader that is armed or lent has not ended. -/
theorem Sound.unended {w : SeatWorld} (h : w.Sound fd) {reader : BoxRead}
    (hreader : reader ∈ w.seat.cell.armed ++ w.lent) : ∀ read ∈ reader.answered, read.ended = false := by
  have hcell : w.seat.cell ≠ .Spent := by
    intro hspent
    simp [hspent, Cell.armed, (h.spent hspent).1] at hreader
  have hone := h.places
  rw [SeatWorld.places, h.live hcell, List.append_nil] at hone
  rw [hone, List.mem_singleton] at hreader
  rw [hreader]
  exact h.reading hcell

/-- A reader that is gone ended with its last poll. -/
theorem Sound.ended {w : SeatWorld} (h : w.Sound fd) {reader : BoxRead} (hreader : reader ∈ w.seat.gone) :
    ∃ init last, reader.answered = init ++ [last] ∧ last.ended = true := by
  have hcell : w.seat.cell = .Spent := by
    by_contra hcell
    rw [h.live hcell] at hreader
    cases hreader
  rw [(h.spent hcell).2, List.mem_singleton] at hreader
  rw [hreader]
  exact h.finished hcell

/-- With no guard and no waiting dialer nothing is lent. -/
theorem Sound.idle {w : SeatWorld} (h : w.Sound fd) (hguards : w.guards = []) (hwaiting : w.seat.waiting = []) :
    ¬ w.seat.cell.lent := by
  intro hcell
  have hlent := (h.placed.lends hcell).1
  simp [SeatWorld.lent, hguards, hwaiting] at hlent

/-- The end reaches every dialer that still waits. -/
theorem Sound.told {w : SeatWorld} (h : w.Sound fd) (hcell : w.seat.cell = .Spent) {waiter : Waiter}
    (hwaiter : waiter ∈ w.seat.waiting) : waiter.inbox = some .Spent := by
  cases hinbox : waiter.inbox with
  | none =>
    obtain ⟨handoff, hhanding, -⟩ := (h.waits.inboxes waiter hwaiter).1 hinbox
    rw [hcell] at hhanding
    cases hhanding
  | some grant =>
    cases grant with
    | Spent => rfl
    | Seated seated =>
      obtain ⟨before, after, hwaiting⟩ := List.append_of_mem hwaiter
      have halone := undelivered_alone h hwaiting hinbox
      exact absurd hcell halone.2.1.ne_spent

end SeatWorld

/-- In every run the reader is in one place, with every poll it ever answered: armed, lent to one guard,
or gone at its end. Only a read that ends spends the seat, for good; the end reaches every dialer still
waiting; and no reader comes back to a seat nobody held. -/
theorem one_reader (fd : Nat) (events : List SeatEvent) :
    let w := SeatWorld.run fd events
    w.places = [⟨fd, w.answered⟩] ∧
    (∀ reader, w.seat.cell = .Armed reader → w.lent = []) ∧
    (∀ holder, w.seat.cell = .Held holder → w.lent = [⟨fd, w.answered⟩]) ∧
    (∀ handoff, w.seat.cell = .Handing handoff → w.lent = [⟨fd, w.answered⟩]) ∧
    (∀ reader ∈ w.seat.cell.armed ++ w.lent, ∀ read ∈ reader.answered, read.ended = false) ∧
    (∀ reader ∈ w.seat.gone, ∃ init last, reader.answered = init ++ [last] ∧ last.ended = true) ∧
    (∀ event, w.seat.cell = .Spent → (w.step event).seat.cell = .Spent) ∧
    (∀ event, w.seat.cell ≠ .Spent → (w.step event).seat.cell = .Spent → w.EndsAt event) ∧
    .Stray ∉ w.seat.log ∧
    (w.guards = [] → w.seat.waiting = [] →
      (∃ reader, w.seat.cell = .Armed reader) ∨ w.seat.cell = .Spent) ∧
    (w.seat.cell = .Spent → ∀ waiter ∈ w.seat.waiting, claimed waiter.inbox = .error .Spent) := by
  intro w
  have h : w.Sound fd := SeatWorld.run_sound fd events
  refine ⟨h.places, fun reader => h.armed, ?_, ?_, fun reader => h.unended, fun reader => h.ended, ?_, ?_,
    h.waits.strays, ?_, ?_⟩
  · intro holder hcell
    exact (h.placed.lends (by simp [hcell, Cell.lent])).1
  · intro handoff hcell
    exact (h.placed.lends (by simp [hcell, Cell.lent])).1
  · intro event hspent
    rcases h.step_cell event with hsame | ⟨hcell, -⟩ | ⟨hcell, -⟩
    · rw [hsame, hspent]
    · exact absurd hspent hcell
    · exact absurd hspent hcell
  · intro event hcell hspent
    rcases h.step_cell event with hsame | ⟨-, hnot⟩ | ⟨-, hends⟩
    · rw [hsame] at hspent
      exact absurd hspent hcell
    · exact absurd hspent hnot
    · exact hends
  · intro hguards hwaiting
    have hidle := h.idle hguards hwaiting
    cases hcell : w.seat.cell with
    | Armed reader => exact .inl ⟨reader, rfl⟩
    | Spent => exact .inr rfl
    | Held holder => exact absurd (by simp [hcell, Cell.lent]) hidle
    | Handing handoff => exact absurd (by simp [hcell, Cell.lent]) hidle
  · intro hspent waiter hwaiter
    rw [h.told hspent hwaiter]
    rfl

/-- A holder that took nothing for a whole window loses the seat to the peer that dials. -/
example :
    let viewer : NodeId := ⟨.Ed25519, Vector.replicate 32 1⟩
    let dialer : NodeId := ⟨.Ed25519, Vector.replicate 32 2⟩
    let w := SeatWorld.run 0 [.claim viewer 0, .wrote 0 .Pending 0, .claim dialer stallWindow, .dropped 0]
    w.seat.cell = .Held ⟨dialer, 2⟩ ∧ w.seat.waiting.length = 1 ∧ w.guards = [] := by
  decide

end Tightbeam
