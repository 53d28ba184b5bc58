import Tightbeam.Lossy
import Tightbeam.Wakeups

/-!
# What one step of a lossy source can do

The cases of a step under the async mutex and beside it, once, and what they keep: the opener or the
fan-out is there, and a session knows the calls that have their cursors.
-/
namespace Tightbeam

namespace FanoutWorld

variable {ceiling : Nat} {w w' : FanoutWorld} {event : FanoutEvent}

/-- What is no part of an open leaves the source and the open in progress alone. -/
theorem Step.apart (hopens : event.opens = false) (hstep : w.Step event w') :
    w'.joining = w.joining ∧ w'.life.source = w.life.source := by
  cases hstep with
  | started | joined | attached => cases hopens
  | quiet | stayed | letGo | fed | ended | released | closed => exact ⟨rfl, rfl⟩

/-- A closed ring stays closed, and a source that was taken stays taken. -/
theorem Step.refused (hstep : w.Step event w') (hsource : w.life.source = none)
    (hclosed : w.ring.closed = true) : w'.life.source = none ∧ w'.ring.closed = true := by
  cases hstep with
  | started id hheld => cases hsource.symm.trans hheld
  | joined id hnone hopen => cases hclosed.symm.trans hopen
  | fed byte bytes ring source' trace hpump hsame => exact ⟨hsource, hsame.trans hclosed⟩
  | quiet | attached | stayed | letGo | ended | released => exact ⟨hsource, hclosed⟩
  | closed => exact ⟨hsource, rfl⟩

/-- An open that is not refused is in progress once it has counted itself. -/
theorem opening_joins {id : Nat} (hidle : w.joining = none) (hnew : w.views id = none)
    (hopen : w.life.source = none → w.ring.closed = false) :
    (w.opening id).joining = some id ∧ (w.opening id).views = w.views := by
  have hready : ¬ (w.joining.isSome = true ∨ (w.views id).isSome = true) := by simp [hidle, hnew]
  unfold opening
  rw [if_neg hready]
  cases hsource : w.life.source with
  | some source => exact ⟨rfl, rfl⟩
  | none =>
    simp only [hopen hsource, Bool.false_eq_true, if_false, and_self]

end FanoutWorld

namespace LossySession

variable {s s' : LossySession} {event : FanoutEvent}

/-- What the pump and the cursors of a session make of it, with no open. -/
def Goes (s s' : LossySession) : Prop :=
  ∃ events : List FanoutEvent, (∀ event ∈ events, event.opens = false) ∧ events.foldlM step s = some s'

theorem step_fanout (h : s.step event = some s') :
    s.fanout.stepWithin ringBytes event = some s'.fanout := by
  obtain ⟨fanout, hfanout, rfl⟩ := Option.map_eq_some_iff.1 h
  exact hfanout

theorem Goes.refl (s : LossySession) : s.Goes s := ⟨[], by simp, rfl⟩

theorem Goes.snoc {t : LossySession} (h : s.Goes s') (hopens : event.opens = false)
    (hstep : s'.step event = some t) : s.Goes t := by
  obtain ⟨events, hevents, hrun⟩ := h
  refine ⟨events ++ [event], ?_, ?_⟩
  · intro other hother
    rcases List.mem_append.1 hother with hold | hnew
    · exact hevents other hold
    · rw [List.mem_singleton.1 hnew]
      exact hopens
  · rw [Runs.foldlM_snoc, hrun]
    exact hstep

theorem refuses_iff : s.refuses = true ↔ s.fanout.life.source = none ∧ s.fanout.ring.closed = true := by
  rw [refuses, Bool.and_eq_true, Option.isNone_iff_eq_none]

theorem refuses_step (h : s.refuses = true) (hstep : s.step event = some s') : s'.refuses = true := by
  rw [refuses_iff] at h ⊢
  exact (FanoutWorld.step_cases (step_fanout hstep)).refused h.1 h.2

/-- A session that is over stays over. -/
theorem Goes.refuses (hgoes : s.Goes s') (h : s.refuses = true) : s'.refuses = true := by
  obtain ⟨events, -, hrun⟩ := hgoes
  have hkeeps (t : LossySession) (event : FanoutEvent) (t' : LossySession) (ht : t.refuses = true)
      (hstep : t.step event = some t') : t'.refuses = true := refuses_step ht hstep
  exact Runs.foldlM_keeps hkeeps h hrun

end LossySession

namespace LossyWorld

variable {opener : Opener} {w w' : LossyWorld} {event : LossyEvent}

/-- The opener is there exactly while there is no fan-out, and a source that is no path has one session.
Past its arming an open has a fan-out to attach to. -/
structure Armed (opener : Opener) (w : LossyWorld) : Prop where
  path : w.fifo = (new opener).fifo
  armed : w.opener = if w.fanout.isNone then some opener else none
  past : w.fifo = none → w.past = []
  origin : ∀ reader session, opener = .Ready reader → w.fanout = some session →
    ∃ events, List.foldlM LossySession.step (.new reader .UntilEof) events = some session
  ready : ∀ id, w.phase = .Armed id ∨ w.phase = .Attaching id → w.fanout ≠ none

/-- The event is a move of the call at this point. -/
def expects (w : LossyWorld) (event : LossyEvent) : Bool :=
  match event, w.phase with
  | .lock, .Free => true
  | .arm _, .Looping _ => true
  | .writer _, .Waiting _ _ => true
  | .cancel, .Waiting _ _ => true
  | .opening, .Armed _ => true
  | .attach, .Attaching _ => true
  | _, _ => false

/-- What one step does, under the lock and beside it. -/
inductive Move (w : LossyWorld) : LossyEvent → LossyWorld → Prop where
  | still (event : LossyEvent) (hunexpected : w.expects event = false) : Move w event w
  | locked (hphase : w.phase = .Free) :
    Move w .lock { w with phase := .Looping w.calls, calls := w.calls + 1 }
  | met {id : Nat} {session : LossySession} (opened : Except Unit Nat) (hphase : w.phase = .Looping id)
    (hfanout : w.fanout = some session) : Move w (.arm opened) { w with phase := .Armed id }
  | openFailed {id : Nat} {path : String} (e : Unit) (hphase : w.phase = .Looping id) (hfanout : w.fanout = none)
    (hopener : w.opener = some (.Fifo path)) : Move w (.arm (.error e)) { w with phase := .Free }
  | opened {id : Nat} {path : String} (fd : Nat) (hphase : w.phase = .Looping id) (hfanout : w.fanout = none)
    (hopener : w.opener = some (.Fifo path)) : Move w (.arm (.ok fd)) { w with phase := .Waiting id ⟨fd, []⟩ }
  | taken {id : Nat} {reader : BoxRead} (opened : Except Unit Nat) (hphase : w.phase = .Looping id)
    (hfanout : w.fanout = none) (hopener : w.opener = some (.Ready reader)) :
    Move w (.arm opened) { w with opener := none, fanout := some (.new reader .UntilEof), phase := .Armed id }
  | waitFailed {id : Nat} {reader : BoxRead} (e : Unit) (hphase : w.phase = .Waiting id reader) :
    Move w (.writer (.error e)) { w with phase := .Free }
  | written {id : Nat} {reader : BoxRead} (hphase : w.phase = .Waiting id reader) :
    Move w (.writer (.ok ()))
      { w with opener := none, fanout := some (.new reader .WhileWatched), phase := .Armed id }
  | cancelled {id : Nat} {reader : BoxRead} (hphase : w.phase = .Waiting id reader) :
    Move w .cancel { w with phase := .Free }
  | discarded {id : Nat} {session : LossySession} {path : String} (hphase : w.phase = .Armed id)
    (hfanout : w.fanout = some session) (hover : session.refuses = true) (hfifo : w.fifo = some path) :
    Move w .opening
      { w with
        opener := some (.Fifo path), fanout := none, past := session :: w.past, phase := .Looping id }
  | spent {id : Nat} {session : LossySession} (hphase : w.phase = .Armed id) (hfanout : w.fanout = some session)
    (hover : session.refuses = true) (hfifo : w.fifo = none) : Move w .opening { w with phase := .Free }
  | attaching {id : Nat} {session session' : LossySession} (hphase : w.phase = .Armed id)
    (hfanout : w.fanout = some session) (hlive : session.refuses = false)
    (hstep : session.step (.opening id) = some session') :
    Move w .opening { w with fanout := some session', phase := .Attaching id }
  | handed {id : Nat} {session session' : LossySession} (hphase : w.phase = .Attaching id)
    (hfanout : w.fanout = some session) (hstep : session.step .attach = some session') :
    Move w .attach { w with fanout := some session', phase := .Free }
  | went {session session' : LossySession} {event : FanoutEvent} (hfanout : w.fanout = some session)
    (hopens : event.opens = false) (hstep : session.step event = some session') :
    Move w (.current event) { w with fanout := some session' }
  | wentEarlier {index : Nat} {session session' : LossySession} {event : FanoutEvent}
    (hpast : w.past[index]? = some session) (hopens : event.opens = false)
    (hstep : session.step event = some session') :
    Move w (.earlier index event) { w with past := w.past.set index session' }

theorem arm_move (h : w.Armed opener) (opened : Except Unit Nat) : w.Move (.arm opened) (w.arm opened) := by
  unfold arm
  cases hphase : w.phase with
  | Free | Waiting id reader | Armed id | Attaching id =>
    exact .still _ (by simp [expects, hphase])
  | Looping id =>
    simp only
    cases hfanout : w.fanout with
    | some session => simpa [hfanout] using Move.met opened hphase hfanout
    | none =>
      have hopener := h.armed
      rw [hfanout, Option.isNone_none, if_pos rfl] at hopener
      simp only [hopener, Option.isNone_none, if_true]
      cases opener with
      | Ready reader => exact .taken opened hphase hfanout hopener
      | Fifo path =>
        cases opened with
        | error e => simpa [hfanout, hopener] using Move.openFailed e hphase hfanout hopener
        | ok fd => simpa [hfanout, hopener] using Move.opened fd hphase hfanout hopener

theorem opening_move (h : w.Armed opener) (hopening : w.opening = some w') : w.Move .opening w' := by
  unfold opening at hopening
  cases hphase : w.phase with
  | Free | Looping id | Waiting id reader | Attaching id =>
    simp only [hphase, Option.some.injEq] at hopening
    subst hopening
    exact .still _ (by simp [expects, hphase])
  | Armed id =>
    simp only [hphase] at hopening
    cases hfanout : w.fanout with
    | none => exact absurd hfanout (h.ready id (.inl hphase))
    | some session =>
      simp only [hfanout] at hopening
      cases hover : session.refuses with
      | true =>
        rw [hover, if_pos rfl] at hopening
        cases hfifo : w.fifo with
        | some path =>
          simp only [hfifo, Option.some.injEq] at hopening
          subst hopening
          simpa only [hfifo] using Move.discarded hphase hfanout hover hfifo
        | none =>
          simp only [hfifo, Option.some.injEq] at hopening
          subst hopening
          simpa only [hfanout, hfifo] using Move.spent hphase hfanout hover hfifo
      | false =>
        rw [hover, if_neg Bool.false_ne_true] at hopening
        obtain ⟨session', hstep, rfl⟩ := Option.map_eq_some_iff.1 hopening
        exact .attaching hphase hfanout hover hstep

theorem attach_move (h : w.Armed opener) (hattach : w.attach = some w') : w.Move .attach w' := by
  unfold attach at hattach
  cases hphase : w.phase with
  | Free | Looping id | Waiting id reader | Armed id =>
    simp only [hphase, Option.some.injEq] at hattach
    subst hattach
    exact .still _ (by simp [expects, hphase])
  | Attaching id =>
    cases hfanout : w.fanout with
    | none => exact absurd hfanout (h.ready id (.inr hphase))
    | some session =>
      simp only [hphase, hfanout] at hattach
      obtain ⟨session', hstep, rfl⟩ := Option.map_eq_some_iff.1 hattach
      exact .handed hphase hfanout hstep

theorem current_move {event : FanoutEvent} (hcurrent : w.current event = some w') :
    w.Move (.current event) w' := by
  unfold current at hcurrent
  cases hfanout : w.fanout with
  | none =>
    simp only [hfanout, Option.some.injEq] at hcurrent
    subst hcurrent
    exact .still _ rfl
  | some session =>
    simp only [hfanout] at hcurrent
    cases hopens : event.opens with
    | true =>
      rw [hopens, if_pos rfl, Option.some.injEq] at hcurrent
      subst hcurrent
      exact .still _ rfl
    | false =>
      rw [hopens, if_neg Bool.false_ne_true] at hcurrent
      obtain ⟨session', hstep, rfl⟩ := Option.map_eq_some_iff.1 hcurrent
      exact .went hfanout hopens hstep

theorem earlier_move {index : Nat} {event : FanoutEvent} (hearlier : w.earlier index event = some w') :
    w.Move (.earlier index event) w' := by
  unfold earlier at hearlier
  cases hpast : w.past[index]? with
  | none =>
    simp only [hpast, Option.some.injEq] at hearlier
    subst hearlier
    exact .still _ rfl
  | some session =>
    simp only [hpast] at hearlier
    cases hopens : event.opens with
    | true =>
      rw [hopens, if_pos rfl, Option.some.injEq] at hearlier
      subst hearlier
      exact .still _ rfl
    | false =>
      rw [hopens, if_neg Bool.false_ne_true] at hearlier
      obtain ⟨session', hstep, rfl⟩ := Option.map_eq_some_iff.1 hearlier
      exact .wentEarlier hpast hopens hstep

/-- What one step can do. -/
theorem step_move (h : w.Armed opener) (hstep : w.step event = some w') : w.Move event w' := by
  cases event with
  | lock =>
    cases hstep
    unfold lock
    cases hphase : w.phase with
    | Free => exact .locked hphase
    | Looping id | Waiting id reader | Armed id | Attaching id =>
      exact .still _ (by simp [expects, hphase])
  | arm opened =>
    cases hstep
    exact arm_move h opened
  | writer readable =>
    cases hstep
    unfold writer
    cases hphase : w.phase with
    | Free | Looping id | Armed id | Attaching id =>
      exact .still _ (by simp [expects, hphase])
    | Waiting id reader =>
      cases readable with
      | error e => exact .waitFailed e hphase
      | ok _ => exact .written hphase
  | cancel =>
    cases hstep
    unfold cancel
    cases hphase : w.phase with
    | Free | Looping id | Armed id | Attaching id =>
      exact .still _ (by simp [expects, hphase])
    | Waiting id reader => exact .cancelled hphase
  | opening => exact opening_move h hstep
  | attach => exact attach_move h hstep
  | current event => exact current_move hstep
  | earlier index event => exact earlier_move hstep

/-- Where nobody holds the lock, only the call that takes it changes that. -/
theorem Move.idle (hmove : w.Move event w') (hfree : w.phase = .Free) :
    (event = .lock ∧ w' = { w with phase := .Looping w.calls, calls := w.calls + 1 }) ∨
      (event ≠ .lock ∧ w'.phase = .Free) := by
  cases hmove with
  | still event hunexpected =>
    refine .inr ⟨?_, hfree⟩
    rintro rfl
    simp [expects, hfree] at hunexpected
  | locked hphase => exact .inl ⟨rfl, rfl⟩
  | met opened hphase => cases hphase.symm.trans hfree
  | openFailed e hphase => cases hphase.symm.trans hfree
  | opened fd hphase => cases hphase.symm.trans hfree
  | taken opened hphase => cases hphase.symm.trans hfree
  | waitFailed e hphase => cases hphase.symm.trans hfree
  | written hphase => cases hphase.symm.trans hfree
  | cancelled hphase => cases hphase.symm.trans hfree
  | discarded hphase => cases hphase.symm.trans hfree
  | spent hphase => cases hphase.symm.trans hfree
  | attaching hphase => cases hphase.symm.trans hfree
  | handed hphase => cases hphase.symm.trans hfree
  | went hfanout hopens hstep => exact .inr ⟨by simp, hfree⟩
  | wentEarlier hpast hopens hstep => exact .inr ⟨by simp, hfree⟩

theorem new_armed (opener : Opener) : (new opener).Armed opener where
  path := rfl
  armed := rfl
  past := fun _ => rfl
  origin := by
    intro reader session _ hfanout
    cases hfanout
  ready := by
    intro id hphase
    rcases hphase with hphase | hphase <;> cases hphase

/-- A move of the call alone. -/
theorem Armed.moved (h : w.Armed opener) (phase : LossyPhase) (calls : Nat)
    (hready : ∀ id, phase = .Armed id ∨ phase = .Attaching id → w.fanout ≠ none) :
    ({ w with phase, calls } : LossyWorld).Armed opener := ⟨h.path, h.armed, h.past, h.origin, hready⟩

/-- A step of the session there is. -/
theorem Armed.stepped {session session' : LossySession} {event : FanoutEvent} (h : w.Armed opener)
    (hfanout : w.fanout = some session) (hstep : session.step event = some session') (phase : LossyPhase) :
    ({ w with fanout := some session', phase } : LossyWorld).Armed opener := by
  have harmed := h.armed
  rw [hfanout, Option.isNone_some] at harmed
  refine ⟨h.path, harmed, h.past, ?_, fun _ _ => by simp⟩
  intro reader other hready hother
  obtain ⟨events, hevents⟩ := h.origin reader session hready hfanout
  cases hother
  refine ⟨events ++ [event], ?_⟩
  rw [Runs.foldlM_snoc, hevents]
  exact hstep

theorem Armed.move (h : w.Armed opener) (hkept : w.Kept) (hmove : w.Move event w') : w'.Armed opener := by
  cases hmove with
  | still => exact h
  | locked hphase =>
    apply h.moved
    simp
  | met opened hphase hfanout =>
    apply h.moved
    simp [hfanout]
  | openFailed e hphase hfanout hopener =>
    apply h.moved
    simp
  | opened fd hphase hfanout hopener =>
    apply h.moved
    simp
  | @taken id reader opened hphase hfanout hopener =>
    have harmed := h.armed
    rw [hfanout, hopener] at harmed
    cases harmed
    refine ⟨h.path, rfl, h.past, ?_, fun _ _ => by simp⟩
    intro other session hready hsession
    cases hready
    cases hsession
    exact ⟨[], rfl⟩
  | waitFailed e hphase =>
    apply h.moved
    simp
  | @written id reader hphase =>
    obtain ⟨hfanout, path, hopener⟩ := hkept.waiting _ _ hphase
    have harmed := h.armed
    rw [hfanout, hopener] at harmed
    cases harmed
    refine ⟨h.path, rfl, h.past, ?_, fun _ _ => by simp⟩
    intro other session hready
    cases hready
  | cancelled hphase =>
    apply h.moved
    simp
  | @discarded id session path hphase hfanout hover hfifo =>
    have hpath := h.path
    rw [hfifo] at hpath
    refine ⟨h.path, ?_, ?_, ?_, ?_⟩
    · cases opener with
      | Fifo other =>
        cases hpath
        rfl
      | Ready reader => cases hpath
    · intro hnone
      cases hfifo.symm.trans hnone
    · intro reader other _ hother
      cases hother
    · simp
  | spent hphase hfanout hover hfifo =>
    apply h.moved
    simp
  | attaching hphase hfanout hlive hstep => exact h.stepped hfanout hstep _
  | handed hphase hfanout hstep => exact h.stepped hfanout hstep _
  | went hfanout hopens hstep => exact h.stepped hfanout hstep _
  | wentEarlier hpast hopens hstep =>
    refine ⟨h.path, h.armed, ?_, h.origin, h.ready⟩
    intro hnone
    rw [h.past hnone, List.set_nil]

end LossyWorld

/-- The call that holds the lock. -/
def LossyPhase.caller : LossyPhase → Option Nat
  | .Free => none
  | .Looping id => some id
  | .Waiting id _ => some id
  | .Armed id => some id
  | .Attaching id => some id

/-- The call inside `Fanout::open`. -/
def LossyPhase.joiner : LossyPhase → Option Nat
  | .Attaching id => some id
  | _ => none

namespace LossyWorld

variable {opener : Opener} {w w' : LossyWorld} {event : LossyEvent}

/-- An open is in progress in the session exactly between its count and its cursor, and the session knows
no call that has not got its cursor yet. -/
structure Seated (w : LossyWorld) : Prop where
  named : ∀ id, w.phase.caller = some id → id < w.calls
  joining : ∀ session, w.fanout = some session → session.fanout.joining = w.phase.joiner
  unknown : ∀ session id, w.fanout = some session → w.phase.caller = some id ∨ w.calls ≤ id →
    session.fanout.views id = none

theorem new_seated (opener : Opener) : (new opener).Seated where
  named := by simp [new, LossyPhase.caller]
  joining := by simp [new]
  unknown := by simp [new]

/-- The call goes on elsewhere, or ends, outside of the fan-out. -/
theorem Seated.moved (h : w.Seated) (phase : LossyPhase) (hcaller : phase.caller = none ∨ phase.caller = w.phase.caller)
    (hbefore : w.phase.joiner = none) (hafter : phase.joiner = none) : ({ w with phase } : LossyWorld).Seated where
  named := by
    intro id hid
    rcases hcaller with hnone | hsame
    · cases hnone.symm.trans hid
    · exact h.named id (hsame.symm.trans hid)
  joining := by
    intro session hfanout
    rw [hafter, h.joining session hfanout, hbefore]
  unknown := by
    intro session id hfanout hid
    apply h.unknown session id hfanout
    rcases hcaller with hnone | hsame
    · exact .inr (hid.resolve_left (by simp [hnone]))
    · rw [← hsame]
      exact hid

/-- A new fan-out knows nobody. -/
theorem Seated.started (h : w.Seated) {id : Nat} (hcaller : w.phase.caller = some id) (source : BoxRead)
    (lifetime : Lifetime) : ({ w with
      opener := none, fanout := some (.new source lifetime), phase := .Armed id } : LossyWorld).Seated where
  named := by
    intro other hother
    cases hother
    exact h.named id hcaller
  joining := by
    intro session hsession
    cases hsession
    rfl
  unknown := by
    intro session other hsession _
    cases hsession
    rfl

/-- The next call takes the lock. -/
theorem Seated.locked (h : w.Seated) (hphase : w.phase = .Free) :
    ({ w with phase := .Looping w.calls, calls := w.calls + 1 } : LossyWorld).Seated := by
  refine ⟨?_, ?_, ?_⟩
  · intro id hid
    cases hid
    exact Nat.lt_succ_self _
  · intro session hfanout
    rw [h.joining session hfanout, hphase]
    rfl
  · intro session id hfanout hid
    apply h.unknown session id hfanout
    right
    rcases hid with hself | hlater
    · cases hself
      exact le_refl _
    · exact Nat.le_of_succ_le hlater

/-- The call that is counted in is the one open in progress. -/
theorem Seated.attaching (h : w.Seated) {id : Nat} {session session' : LossySession}
    (hphase : w.phase = .Armed id) (hfanout : w.fanout = some session) (hlive : session.refuses = false)
    (hstep : session.step (.opening id) = some session') :
    ({ w with fanout := some session', phase := .Attaching id } : LossyWorld).Seated := by
  have hcaller : w.phase.caller = some id := by rw [hphase]; rfl
  have hidle : session.fanout.joining = none := by
    rw [h.joining session hfanout, hphase]
    rfl
  have hopen : session.fanout.life.source = none → session.fanout.ring.closed = false := by
    intro hsource
    by_contra hclosed
    have hrefuses := LossySession.refuses_iff.2 ⟨hsource, by simpa using hclosed⟩
    rw [hlive] at hrefuses
    cases hrefuses
  have hjoins := FanoutWorld.opening_joins hidle (h.unknown session id hfanout (.inl hcaller)) hopen
  have hfanout' : session'.fanout = session.fanout.opening id :=
    (Option.some.inj (LossySession.step_fanout hstep)).symm
  refine ⟨?_, ?_, ?_⟩
  · intro other hother
    cases hother
    exact h.named id hcaller
  · intro other hother
    cases hother
    rw [hfanout']
    exact hjoins.1
  · intro other found hother hfound
    cases hother
    rw [hfanout', hjoins.2]
    apply h.unknown session found hfanout
    rw [hcaller]
    exact hfound

/-- The call that has its cursor lets the lock go. -/
theorem Seated.attached (h : w.Seated) {id : Nat} {session session' : LossySession}
    (hphase : w.phase = .Attaching id) (hfanout : w.fanout = some session)
    (hstep : session.step .attach = some session') :
    ({ w with fanout := some session', phase := .Free } : LossyWorld).Seated := by
  have hstep' := LossySession.step_fanout hstep
  refine ⟨?_, ?_, ?_⟩
  · intro other hother
    cases hother
  · intro other hother
    cases hother
    rw [← Option.some.inj hstep']
    exact FanoutWorld.attach_joining _
  · intro other found hother hfound
    cases hother
    have hlater := hfound.resolve_left (by simp [LossyPhase.caller])
    apply FanoutWorld.step_unknown hstep' (h.unknown session found hfanout (.inr hlater))
    intro _ hjoining
    rw [h.joining session hfanout, hphase] at hjoining
    cases hjoining
    exact absurd (h.named _ (by rw [hphase]; rfl)) (Nat.not_lt.2 hlater)

/-- The session goes on beside the call. -/
theorem Seated.went (h : w.Seated) {session session' : LossySession} {event : FanoutEvent}
    (hfanout : w.fanout = some session) (hopens : event.opens = false) (hstep : session.step event = some session') :
    ({ w with fanout := some session' } : LossyWorld).Seated := by
  have hstep' := LossySession.step_fanout hstep
  have hsame := ((FanoutWorld.step_cases hstep').apart hopens).1
  refine ⟨h.named, ?_, ?_⟩
  · intro other hother
    cases hother
    rw [hsame]
    exact h.joining session hfanout
  · intro other found hother hfound
    cases hother
    apply FanoutWorld.step_unknown hstep' (h.unknown session found hfanout hfound)
    rintro rfl
    cases hopens

theorem Seated.move (h : w.Seated) (hmove : w.Move event w') : w'.Seated := by
  cases hmove with
  | still => exact h
  | locked hphase => exact h.locked hphase
  | met opened hphase hfanout => exact h.moved _ (.inr (by rw [hphase]; rfl)) (by rw [hphase]; rfl) rfl
  | openFailed e hphase => exact h.moved _ (.inl rfl) (by rw [hphase]; rfl) rfl
  | opened fd hphase => exact h.moved _ (.inr (by rw [hphase]; rfl)) (by rw [hphase]; rfl) rfl
  | taken opened hphase => exact h.started (by rw [hphase]; rfl) _ _
  | waitFailed e hphase => exact h.moved _ (.inl rfl) (by rw [hphase]; rfl) rfl
  | written hphase => exact h.started (by rw [hphase]; rfl) _ _
  | cancelled hphase => exact h.moved _ (.inl rfl) (by rw [hphase]; rfl) rfl
  | discarded hphase =>
    refine ⟨?_, ?_, ?_⟩
    · intro id hid
      cases hid
      exact h.named _ (by rw [hphase]; rfl)
    · intro session hsession
      cases hsession
    · intro session id hsession
      cases hsession
  | spent hphase => exact h.moved _ (.inl rfl) (by rw [hphase]; rfl) rfl
  | attaching hphase hfanout hlive hstep => exact h.attaching hphase hfanout hlive hstep
  | handed hphase hfanout hstep => exact h.attached hphase hfanout hstep
  | went hfanout hopens hstep => exact h.went hfanout hopens hstep
  | wentEarlier => exact ⟨h.named, h.joining, h.unknown⟩

/-- The attach hands its call a cursor. -/
theorem Seated.handed (h : w.Seated) {id : Nat} {session session' : LossySession}
    (hphase : w.phase = .Attaching id) (hfanout : w.fanout = some session)
    (hstep : session.step .attach = some session') :
    ∃ view, session'.fanout.views id = some view ∧ view.cursor.isSome = true := by
  have hjoining := h.joining session hfanout
  rw [hphase, LossyPhase.joiner] at hjoining
  have hstep' : session.fanout.attach = session'.fanout :=
    Option.some.inj (LossySession.step_fanout hstep)
  rw [← hstep', FanoutWorld.attach, hjoining]
  exact ⟨_, Function.update_self .., rfl⟩

end LossyWorld

end Tightbeam
