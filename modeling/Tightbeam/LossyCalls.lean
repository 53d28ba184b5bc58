import Tightbeam.LossyMoves

/-!
# Calls of a lossy open

The opens of a lossy source one by one: the state each found when it took the lock, the times it went
round its loop, how it ended, and the state it left.
-/
namespace Tightbeam

/-- The state under the async mutex. -/
structure LossyState where
  opener : Option Opener
  fifo : Option String
  fanout : Option LossySession

def notArmed : String := "lossy source not armed"

def sessionEnded : String := "this lossy source's live session has ended"

/-- How a call of `Lossy::open` ends: with a cursor, with the error of its guarded open, dropped at its
await, or refused. -/
inductive LossyEnd where
  | Cursor
  | OpenFailed
  | Cancelled
  | Refused (message : String)
  deriving DecidableEq

/-- A call that holds the lock. -/
structure LossyTry where
  id : Nat
  found : LossyState
  loops : Nat

/-- A call that has ended. -/
structure LossyCall where
  tried : LossyTry
  ended : LossyEnd
  left : LossyState

namespace LossyWorld

def state (w : LossyWorld) : LossyState := ⟨w.opener, w.fifo, w.fanout⟩

/-- Whether an event is the top of the loop. -/
def loops (w : LossyWorld) (event : LossyEvent) : Nat :=
  match event, w.phase with
  | .arm _, .Looping _ => 1
  | _, _ => 0

/-- How an event ends the call that holds the lock, when it does. -/
def ends (w : LossyWorld) (event : LossyEvent) : Option LossyEnd :=
  match event, w.phase with
  | .arm (.error _), .Looping _ =>
    match w.fanout, w.opener with
    | none, some (.Fifo _) => some .OpenFailed
    | _, _ => none
  | .writer (.error _), .Waiting _ _ => some .OpenFailed
  | .cancel, .Waiting _ _ => some .Cancelled
  | .opening, .Armed _ =>
    match w.fanout with
    | none => some (.Refused notArmed)
    | some session => if session.refuses ∧ w.fifo = none then some (.Refused sessionEnded) else none
  | .attach, .Attaching _ => w.fanout.map fun _ => .Cursor
  | _, _ => none

end LossyWorld

/-- A run of a lossy source with the calls of its open. -/
structure LossyRun where
  world : LossyWorld
  current : Option LossyTry
  calls : List LossyCall

namespace LossyRun

def new (opener : Opener) : LossyRun := ⟨.new opener, none, []⟩

/-- What a step makes of the call that holds the lock. -/
def record (r : LossyRun) (event : LossyEvent) (world : LossyWorld) : LossyRun :=
  match r.current with
  | none =>
    match event, r.world.phase with
    | .lock, .Free => ⟨world, some ⟨r.world.calls, r.world.state, 0⟩, r.calls⟩
    | _, _ => ⟨world, none, r.calls⟩
  | some tried =>
    let tried := { tried with loops := tried.loops + r.world.loops event }
    match r.world.ends event with
    | none => ⟨world, some tried, r.calls⟩
    | some ended => ⟨world, none, r.calls ++ [⟨tried, ended, world.state⟩]⟩

def step (r : LossyRun) (event : LossyEvent) : Option LossyRun :=
  (r.world.step event).map (r.record event)

def run (opener : Opener) (events : List LossyEvent) : Option LossyRun :=
  events.foldlM step (new opener)

theorem record_world (r : LossyRun) (event : LossyEvent) (world : LossyWorld) :
    (r.record event world).world = world := by
  unfold record
  split
  · split <;> rfl
  · split <;> rfl

/-- The records change nothing of the run. -/
theorem run_world (r : LossyRun) (events : List LossyEvent) :
    (events.foldlM step r).map LossyRun.world = events.foldlM LossyWorld.step r.world := by
  induction events generalizing r with
  | nil => rfl
  | cons event events ih =>
    simp only [List.foldlM_cons, step, Option.bind_eq_bind]
    cases r.world.step event with
    | none => rfl
    | some world =>
      have hnext := ih (r.record event world)
      rw [record_world] at hnext
      exact hnext

end LossyRun

/-- The state a call found, but for what the session's own pump and cursors have done since. -/
structure LossyState.Same (found state : LossyState) : Prop where
  opener : state.opener = found.opener
  fifo : state.fifo = found.fifo
  fanout : (found.fanout = none ∧ state.fanout = none) ∨
    ∃ session session', found.fanout = some session ∧ state.fanout = some session' ∧ session.Goes session'

/-- The state a call found, less its session, which was over; its path is armed again. -/
structure LossyState.Discarded (found state : LossyState) : Prop where
  opener : ∃ path, found.fifo = some path ∧ state.opener = some (.Fifo path)
  fifo : state.fifo = found.fifo
  fanout : state.fanout = none
  ended : ∃ session session', found.fanout = some session ∧ session.Goes session' ∧ session'.refuses = true

/-- The state a call found, but for a session it discarded. -/
inductive LossyState.Kept (found : LossyState) : Nat → LossyState → Prop where
  | same {state : LossyState} (h : found.Same state) : Kept found 0 state
  | discarded {state : LossyState} (h : found.Discarded state) : Kept found 1 state

theorem LossyState.Same.refl (state : LossyState) : state.Same state := by
  refine ⟨rfl, rfl, ?_⟩
  cases hfanout : state.fanout with
  | none => exact .inl ⟨rfl, rfl⟩
  | some session => exact .inr ⟨session, session, rfl, rfl, .refl session⟩

/-- The session goes on under the call. -/
theorem LossyState.Same.goes {found state : LossyState} {session session' : LossySession} {event : FanoutEvent}
    (h : found.Same state) (hfanout : state.fanout = some session) (hopens : event.opens = false)
    (hstep : session.step event = some session') : found.Same { state with fanout := some session' } := by
  refine ⟨h.opener, h.fifo, .inr ?_⟩
  rcases h.fanout with ⟨-, hnone⟩ | ⟨before, after, hbefore, hafter, hgoes⟩
  · cases hnone.symm.trans hfanout
  · cases hafter.symm.trans hfanout
    exact ⟨before, session', hbefore, rfl, hgoes.snoc hopens hstep⟩

namespace LossyState.Kept

variable {found state : LossyState} {discards : Nat}

theorem le (h : found.Kept discards state) : discards ≤ 1 := by
  cases h with
  | same h => exact Nat.zero_le _
  | discarded h => exact le_refl _

/-- With no session to discard, the call found none, or has discarded it. -/
theorem spent (h : found.Kept discards state) (hnone : state.fanout = none) {session : LossySession}
    (hfound : found.fanout = some session) : found.Discarded state := by
  cases h with
  | same h =>
    rcases h.fanout with ⟨hbefore, -⟩ | ⟨before, after, hbefore, hafter, -⟩
    · cases hbefore.symm.trans hfound
    · cases hnone.symm.trans hafter
  | discarded h => exact h

theorem goes {session session' : LossySession} {event : FanoutEvent} (h : found.Kept discards state)
    (hfanout : state.fanout = some session) (hopens : event.opens = false)
    (hstep : session.step event = some session') :
    found.Kept discards { state with fanout := some session' } := by
  cases h with
  | same h => exact .same (h.goes hfanout hopens hstep)
  | discarded h => cases h.fanout.symm.trans hfanout

end LossyState.Kept

namespace LossyWorld

variable {w : LossyWorld} {event : LossyEvent}

/-- What is no move of the call neither ends it nor takes it round its loop. -/
theorem unexpected (h : w.expects event = false) : w.ends event = none ∧ w.loops event = 0 := by
  cases event with
  | lock | current event | earlier index event => exact ⟨rfl, rfl⟩
  | arm opened =>
    cases hphase : w.phase with
    | Looping id => simp [expects, hphase] at h
    | Free | Waiting id reader | Armed id | Attaching id => cases opened <;> simp [ends, loops, hphase]
  | writer readable =>
    cases hphase : w.phase with
    | Waiting id reader => simp [expects, hphase] at h
    | Free | Looping id | Armed id | Attaching id => cases readable <;> simp [ends, loops, hphase]
  | cancel =>
    cases hphase : w.phase with
    | Waiting id reader => simp [expects, hphase] at h
    | Free | Looping id | Armed id | Attaching id => simp [ends, loops, hphase]
  | opening =>
    cases hphase : w.phase with
    | Armed id => simp [expects, hphase] at h
    | Free | Looping id | Waiting id reader | Attaching id => simp [ends, loops, hphase]
  | attach =>
    cases hphase : w.phase with
    | Attaching id => simp [expects, hphase] at h
    | Free | Looping id | Waiting id reader | Armed id => simp [ends, loops, hphase]

end LossyWorld

/-- A fan-out that has not yet handed out a cursor. -/
def LossyWorld.Fresh (w : LossyWorld) : Prop :=
  ∃ session, w.fanout = some session ∧ session.fanout.life.source.isSome = true

/-- Where no path can be armed again, the session the call found was not over. -/
def LossyTry.Open (tried : LossyTry) (w : LossyWorld) : Prop :=
  w.fifo = none → ∀ session, tried.found.fanout = some session → session.refuses = false

/-- The state a call has kept so far, by where it stands. -/
def LossyTry.Stands (tried : LossyTry) (w : LossyWorld) : Prop :=
  match w.phase with
  | .Free => False
  | .Looping id => id = tried.id ∧ tried.found.Kept tried.loops w.state
  | .Waiting id _ => id = tried.id ∧ ∃ discards, tried.loops = discards + 1 ∧ tried.found.Kept discards w.state
  | .Armed id => id = tried.id ∧
    ((tried.loops = 1 ∧ tried.found.Same w.state) ∨ (tried.loops ≤ 2 ∧ w.Fresh ∧ tried.Open w))
  | .Attaching id => id = tried.id ∧ tried.loops ≤ 2 ∧ tried.Open w

theorem LossyTry.Stands.loops {tried : LossyTry} {w : LossyWorld} (h : tried.Stands w) : tried.loops ≤ 2 := by
  unfold LossyTry.Stands at h
  split at h
  · cases h
  · exact h.2.le.trans (by omega)
  · obtain ⟨-, discards, hloops, hkept⟩ := h
    have hle := hkept.le
    omega
  · rcases h.2 with ⟨hloops, -⟩ | ⟨hloops, -⟩
    · omega
    · exact hloops
  · exact h.2.1

/-- What holds of a call that has ended. -/
structure LossyCall.Sound (fifo : Option String) (call : LossyCall) : Prop where
  loops : call.tried.loops ≤ 2
  refused : ∀ message, call.ended = .Refused message → message = sessionEnded ∧ fifo = none
  kept : call.ended ≠ .Cursor → ∃ discards, call.tried.found.Kept discards call.left
  spent : fifo = none → ∀ session, call.tried.found.fanout = some session → session.refuses = true →
    call.ended = .Refused sessionEnded
  handed : call.ended = .Cursor → ∃ session view, call.left.fanout = some session ∧
    session.fanout.views call.tried.id = some view ∧ view.cursor.isSome = true

/-- A guarded open that fails or is dropped was over a path. -/
theorem LossyCall.Sound.failed {fifo : Option String} {tried : LossyTry} {ended : LossyEnd} {left : LossyState}
    {discards : Nat} (hended : ended = .OpenFailed ∨ ended = .Cancelled) (hloops : tried.loops = discards + 1)
    (hkept : tried.found.Kept discards left) (hfifo : fifo ≠ none) : (LossyCall.mk tried ended left).Sound fifo where
  loops := by
    have hle := hkept.le
    simp only
    omega
  refused := by rcases hended with rfl | rfl <;> simp
  kept := fun _ => ⟨discards, hkept⟩
  spent := fun hnone => absurd hnone hfifo
  handed := by rcases hended with rfl | rfl <;> simp

namespace LossyWorld

variable {opener : Opener} {w w' : LossyWorld} {event : LossyEvent}

/-- An opener that is a path is the one the source was made over. -/
theorem Armed.fifo_some (h : w.Armed opener) {path : String} (hopener : w.opener = some (.Fifo path)) :
    (new opener).fifo = some path := by
  have harmed := h.armed
  rw [hopener] at harmed
  split at harmed
  · cases harmed
    rfl
  · cases harmed

/-- A session that has handed out no cursor yet is not over. -/
theorem fresh_live (h : w.Fresh) {session : LossySession} (hfanout : w.fanout = some session) :
    session.refuses = false := by
  obtain ⟨fresh, hfresh, hheld⟩ := h
  cases hfresh.symm.trans hfanout
  by_contra hover
  rw [(LossySession.refuses_iff.1 (by simpa using hover)).1] at hheld
  cases hheld

theorem stands_looping {tried : LossyTry} {id : Nat} (hstands : tried.Stands w) (hphase : w.phase = .Looping id) :
    id = tried.id ∧ tried.found.Kept tried.loops w.state := by
  simpa only [LossyTry.Stands, hphase] using hstands

theorem stands_waiting {tried : LossyTry} {id : Nat} {reader : BoxRead} (hstands : tried.Stands w)
    (hphase : w.phase = .Waiting id reader) :
    id = tried.id ∧ ∃ discards, tried.loops = discards + 1 ∧ tried.found.Kept discards w.state := by
  simpa only [LossyTry.Stands, hphase] using hstands

theorem stands_armed {tried : LossyTry} {id : Nat} (hstands : tried.Stands w) (hphase : w.phase = .Armed id) :
    id = tried.id ∧ ((tried.loops = 1 ∧ tried.found.Same w.state) ∨
      (tried.loops ≤ 2 ∧ w.Fresh ∧ tried.Open w)) := by
  simpa only [LossyTry.Stands, hphase] using hstands

theorem stands_attaching {tried : LossyTry} {id : Nat} (hstands : tried.Stands w) (hphase : w.phase = .Attaching id) :
    id = tried.id ∧ tried.loops ≤ 2 ∧ tried.Open w := by
  simpa only [LossyTry.Stands, hphase] using hstands

/-- A session that is not over is not one the call found over. -/
theorem same_open {tried : LossyTry} {session : LossySession} (hsame : tried.found.Same w.state)
    (hfanout : w.fanout = some session) (hlive : session.refuses = false) : tried.Open w := by
  intro _ found hfound
  rcases hsame.fanout with ⟨hnone, -⟩ | ⟨before, after, hbefore, hafter, hgoes⟩
  · cases hnone.symm.trans hfound
  · cases hbefore.symm.trans hfound
    cases hafter.symm.trans hfanout
    by_contra hover
    have hrefuses := hgoes.refuses (by simpa using hover)
    rw [hlive] at hrefuses
    cases hrefuses

/-- What a step makes of the call that holds the lock: it stands where the step leaves it, or has ended there
as it must. -/
inductive Carried (w : LossyWorld) (fifo : Option String) (tried : LossyTry) (event : LossyEvent) (w' : LossyWorld) :
    Prop where
  | goes (hends : w.ends event = none)
    (hstands : ({ tried with loops := tried.loops + w.loops event } : LossyTry).Stands w') :
    Carried w fifo tried event w'
  | ends (ended : LossyEnd) (hends : w.ends event = some ended) (hfree : w'.phase = .Free)
    (hsound : (LossyCall.mk { tried with loops := tried.loops + w.loops event } ended w'.state).Sound fifo) :
    Carried w fifo tried event w'

variable {tried : LossyTry} {fifo : Option String} {id : Nat} {session session' : LossySession}
  {reader : BoxRead} {opened : Except Unit Nat} {path : String}

theorem loops_arm (hphase : w.phase = .Looping id) : w.loops (.arm opened) = 1 := by
  simp [loops, hphase]

/-- At the top of the loop the call meets the session, as it found it. -/
theorem met_carried (hstands : tried.Stands w) (hphase : w.phase = .Looping id) (hfanout : w.fanout = some session) :
    w.Carried fifo tried (.arm opened) { w with phase := .Armed id } := by
  obtain ⟨hid, hfound⟩ := stands_looping hstands hphase
  refine .goes (by cases opened <;> simp [ends, hphase, hfanout]) ?_
  rw [loops_arm hphase]
  generalize hrounds : tried.loops = rounds at hfound
  cases hfound with
  | same hsame => exact ⟨hid, .inl ⟨by simp, hsame⟩⟩
  | discarded hdiscarded => cases hdiscarded.fanout.symm.trans hfanout

/-- The guarded open fails, or hands over a descriptor to wait on. -/
theorem openFailed_carried (hfifo : fifo ≠ none) (hstands : tried.Stands w) (hphase : w.phase = .Looping id)
    (hfanout : w.fanout = none) (hopener : w.opener = some (.Fifo path)) (e : Unit) :
    w.Carried fifo tried (.arm (.error e)) { w with phase := .Free } := by
  obtain ⟨-, hfound⟩ := stands_looping hstands hphase
  refine .ends .OpenFailed (by simp [ends, hphase, hfanout, hopener]) rfl ?_
  rw [loops_arm hphase]
  exact .failed (.inl rfl) rfl hfound hfifo

theorem opened_carried (hstands : tried.Stands w) (hphase : w.phase = .Looping id) (fd : Nat) :
    w.Carried fifo tried (.arm (.ok fd)) { w with phase := .Waiting id ⟨fd, []⟩ } := by
  obtain ⟨hid, hfound⟩ := stands_looping hstands hphase
  refine .goes (by simp [ends]) ?_
  rw [loops_arm hphase]
  exact ⟨hid, tried.loops, rfl, hfound⟩

/-- A ready reader is there to be taken because the call found no session. -/
theorem taken_carried (hstands : tried.Stands w) (hphase : w.phase = .Looping id) (hfanout : w.fanout = none)
    (hopener : w.opener = some (.Ready reader)) : w.Carried fifo tried (.arm opened)
      { w with opener := none, fanout := some (.new reader .UntilEof), phase := .Armed id } := by
  obtain ⟨hid, hfound⟩ := stands_looping hstands hphase
  refine .goes (by cases opened <;> simp [ends, hphase, hfanout, hopener]) ?_
  rw [loops_arm hphase]
  have hle := hfound.le
  refine ⟨hid, .inr ⟨by simp only; omega, ⟨_, rfl, rfl⟩, ?_⟩⟩
  intro _ session hsession
  obtain ⟨path, -, hpath⟩ := (hfound.spent hfanout hsession).opener
  cases hopener.symm.trans hpath

/-- A wait that fails or is dropped leaves the state as the call has kept it. -/
theorem waiting_fails {ended : LossyEnd} (hfifo : fifo ≠ none) (hstands : tried.Stands w)
    (hphase : w.phase = .Waiting id reader) (hended : ended = .OpenFailed ∨ ended = .Cancelled)
    (hends : w.ends event = some ended) (hloops : w.loops event = 0) :
    w.Carried fifo tried event { w with phase := .Free } := by
  obtain ⟨-, discards, hrounds, hfound⟩ := stands_waiting hstands hphase
  refine .ends ended hends rfl ?_
  rw [hloops]
  exact .failed hended hrounds hfound hfifo

theorem written_carried (hfifo : w.fifo ≠ none) (hstands : tried.Stands w) (hphase : w.phase = .Waiting id reader) :
    w.Carried fifo tried (.writer (.ok ()))
      { w with opener := none, fanout := some (.new reader .WhileWatched), phase := .Armed id } := by
  obtain ⟨hid, discards, hrounds, hfound⟩ := stands_waiting hstands hphase
  have hle := hfound.le
  refine .goes (by simp [ends]) ⟨hid, .inr ⟨by simp only [loops]; omega, ⟨_, rfl, rfl⟩, ?_⟩⟩
  intro hnone
  exact absurd hnone hfifo

/-- A session that is over goes, and its path is armed again: one the call has just made is not over. -/
theorem discarded_carried (hstands : tried.Stands w) (hphase : w.phase = .Armed id)
    (hfanout : w.fanout = some session) (hover : session.refuses = true) (hfifo : w.fifo = some path) :
    w.Carried fifo tried .opening { w with
      opener := some (.Fifo path), fanout := none, past := session :: w.past, phase := .Looping id } := by
  obtain ⟨hid, ⟨hrounds, hsame⟩ | ⟨-, hfresh, -⟩⟩ := stands_armed hstands hphase
  · refine .goes (by simp [ends, hphase, hfanout, hfifo]) ⟨hid, ?_⟩
    have hstate : tried.found.Discarded ⟨some (.Fifo path), w.fifo, none⟩ := by
      refine ⟨⟨path, hsame.fifo.symm.trans hfifo, rfl⟩, hsame.fifo, rfl, ?_⟩
      rcases hsame.fanout with ⟨-, hnone⟩ | ⟨before, after, hbefore, hafter, hgoes⟩
      · cases hnone.symm.trans hfanout
      · cases hafter.symm.trans hfanout
        exact ⟨before, session, hbefore, hgoes, hover⟩
    simp only [hrounds, loops]
    exact .discarded hstate
  · cases (fresh_live hfresh hfanout).symm.trans hover

theorem spent_carried (hnone : fifo = none) (hstands : tried.Stands w) (hphase : w.phase = .Armed id)
    (hfanout : w.fanout = some session) (hover : session.refuses = true) (hfifo : w.fifo = none) :
    w.Carried fifo tried .opening { w with phase := .Free } := by
  obtain ⟨hid, ⟨hrounds, hsame⟩ | ⟨-, hfresh, -⟩⟩ := stands_armed hstands hphase
  · refine .ends (.Refused sessionEnded) (by simp [ends, hphase, hfanout, hover, hfifo]) rfl ?_
    constructor
    · simp [hrounds, loops]
    · intro message hmessage
      exact ⟨(LossyEnd.Refused.inj hmessage).symm, hnone⟩
    · intro _
      exact ⟨0, .same hsame⟩
    · intro _ _ _ _
      rfl
    · intro hcursor
      cases hcursor
  · cases (fresh_live hfresh hfanout).symm.trans hover

theorem attaching_carried (hstands : tried.Stands w) (hphase : w.phase = .Armed id)
    (hfanout : w.fanout = some session) (hlive : session.refuses = false) :
    w.Carried fifo tried .opening { w with fanout := some session', phase := .Attaching id } := by
  obtain ⟨hid, hwhich⟩ := stands_armed hstands hphase
  refine .goes (by simp [ends, hphase, hfanout, hlive]) ⟨hid, ?_⟩
  rcases hwhich with ⟨hrounds, hsame⟩ | ⟨hrounds, -, hopen⟩
  · have hopen := same_open hsame hfanout hlive
    exact ⟨by simp [hrounds, loops], hopen⟩
  · exact ⟨by simpa [loops] using hrounds, hopen⟩

theorem handed_carried (hfifo : w.fifo = fifo) (hseated : w.Seated) (hstands : tried.Stands w)
    (hphase : w.phase = .Attaching id) (hfanout : w.fanout = some session)
    (hstep : session.step .attach = some session') :
    w.Carried fifo tried .attach { w with fanout := some session', phase := .Free } := by
  obtain ⟨hid, hrounds, hopen⟩ := stands_attaching hstands hphase
  refine .ends .Cursor (by simp [ends, hphase, hfanout]) rfl ?_
  constructor
  · simpa [loops] using hrounds
  · intro message hmessage
    cases hmessage
  · intro hnot
    exact absurd rfl hnot
  · intro hnone found hfound hrefuses
    have hlive := hopen (hfifo.trans hnone) found hfound
    rw [hrefuses] at hlive
    cases hlive
  · intro _
    obtain ⟨view, hview, hcursor⟩ := hseated.handed hphase hfanout hstep
    rw [hid] at hview
    exact ⟨session', view, rfl, hview, hcursor⟩

/-- The session goes on beside the call, which stands where it stood. -/
theorem went_carried {event : FanoutEvent} (hkept : w.Kept) (hstands : tried.Stands w)
    (hfanout : w.fanout = some session) (hopens : event.opens = false) (hstep : session.step event = some session') :
    w.Carried fifo tried (.current event) { w with fanout := some session' } := by
  refine .goes rfl ?_
  cases hphase : w.phase with
  | Free => simp only [LossyTry.Stands, hphase] at hstands
  | Looping id =>
    obtain ⟨hid, hfound⟩ := stands_looping hstands hphase
    simp only [LossyTry.Stands]
    exact ⟨hid, hfound.goes hfanout hopens hstep⟩
  | Waiting id reader => cases hfanout.symm.trans (hkept.waiting id reader hphase).1
  | Armed id =>
    obtain ⟨hid, hwhich⟩ := stands_armed hstands hphase
    simp only [LossyTry.Stands]
    rcases hwhich with ⟨hrounds, hsame⟩ | ⟨hrounds, ⟨fresh, hfresh, hheld⟩, hopen⟩
    · exact ⟨hid, .inl ⟨hrounds, hsame.goes hfanout hopens hstep⟩⟩
    · cases hfresh.symm.trans hfanout
      have hsource := ((FanoutWorld.step_cases (LossySession.step_fanout hstep)).apart hopens).2
      exact ⟨hid, .inr ⟨hrounds, ⟨session', rfl, by rw [hsource]; exact hheld⟩, hopen⟩⟩
  | Attaching id =>
    obtain ⟨hid, hrounds, hopen⟩ := stands_attaching hstands hphase
    simp only [LossyTry.Stands]
    exact ⟨hid, hrounds, hopen⟩

/-- A call goes on, or ends as it must. -/
theorem Armed.carries (h : w.Armed opener) (hkept : w.Kept) (hseated : w.Seated) (hstands : tried.Stands w)
    (hmove : w.Move event w') : w.Carried (new opener).fifo tried event w' := by
  have hpath : ∀ {path}, w.opener = some (.Fifo path) → (new opener).fifo ≠ none := by
    intro path hopener
    rw [h.fifo_some hopener]
    simp
  cases hmove with
  | still event hunexpected =>
    obtain ⟨hends, hloops⟩ := unexpected hunexpected
    refine .goes hends ?_
    rw [hloops]
    exact hstands
  | locked hphase => simp only [LossyTry.Stands, hphase] at hstands
  | met opened hphase hfanout => exact met_carried hstands hphase hfanout
  | openFailed e hphase hfanout hopener => exact openFailed_carried (hpath hopener) hstands hphase hfanout hopener e
  | opened fd hphase hfanout hopener => exact opened_carried hstands hphase fd
  | taken opened hphase hfanout hopener => exact taken_carried hstands hphase hfanout hopener
  | waitFailed e hphase =>
    obtain ⟨-, path, hopener⟩ := hkept.waiting _ _ hphase
    exact waiting_fails (hpath hopener) hstands hphase (.inl rfl) (by simp [ends, hphase]) rfl
  | written hphase =>
    obtain ⟨-, path, hopener⟩ := hkept.waiting _ _ hphase
    exact written_carried (h.path ▸ hpath hopener) hstands hphase
  | cancelled hphase =>
    obtain ⟨-, path, hopener⟩ := hkept.waiting _ _ hphase
    exact waiting_fails (hpath hopener) hstands hphase (.inr rfl) (by simp [ends, hphase]) rfl
  | discarded hphase hfanout hover hfifo => exact discarded_carried hstands hphase hfanout hover hfifo
  | spent hphase hfanout hover hfifo =>
    exact spent_carried (h.path.symm.trans hfifo) hstands hphase hfanout hover hfifo
  | attaching hphase hfanout hlive hstep => exact attaching_carried hstands hphase hfanout hlive
  | handed hphase hfanout hstep => exact handed_carried h.path hseated hstands hphase hfanout hstep
  | went hfanout hopens hstep => exact went_carried hkept hstands hfanout hopens hstep
  | wentEarlier hpast hopens hstep => exact .goes rfl hstands

end LossyWorld

namespace LossyRun

/-- The invariant of a run. -/
structure Inv (opener : Opener) (r : LossyRun) : Prop where
  kept : r.world.Kept
  armed : r.world.Armed opener
  seated : r.world.Seated
  idle : r.current = none ↔ r.world.phase = .Free
  stands : ∀ tried, r.current = some tried → tried.Stands r.world
  calls : ∀ call ∈ r.calls, call.Sound (LossyWorld.new opener).fifo

theorem new_inv (opener : Opener) : (new opener).Inv opener where
  kept := LossyWorld.new_kept opener
  armed := LossyWorld.new_armed opener
  seated := LossyWorld.new_seated opener
  idle := by simp [new, LossyWorld.new]
  stands := by simp [new]
  calls := by simp [new]

variable {opener : Opener} {r r' : LossyRun} {event : LossyEvent}

theorem record_locked (hnone : r.current = none) (hfree : r.world.phase = .Free) (world : LossyWorld) :
    r.record .lock world = ⟨world, some ⟨r.world.calls, r.world.state, 0⟩, r.calls⟩ := by
  simp only [record, hnone, hfree]

theorem record_idle (hnone : r.current = none) (hlock : event ≠ .lock) (world : LossyWorld) :
    r.record event world = ⟨world, none, r.calls⟩ := by
  simp only [record, hnone]
  split
  · exact absurd rfl hlock
  · rfl

theorem record_goes {tried : LossyTry} (htried : r.current = some tried) (hends : r.world.ends event = none)
    (world : LossyWorld) : r.record event world =
      ⟨world, some { tried with loops := tried.loops + r.world.loops event }, r.calls⟩ := by
  simp only [record, htried, hends]

theorem record_ends {tried : LossyTry} {ended : LossyEnd} (htried : r.current = some tried)
    (hends : r.world.ends event = some ended) (world : LossyWorld) : r.record event world =
      ⟨world, none, r.calls ++ [⟨{ tried with loops := tried.loops + r.world.loops event }, ended, world.state⟩]⟩ := by
  simp only [record, htried, hends]

theorem Inv.step (h : r.Inv opener) (event : LossyEvent) :
    ∃ r', r.step event = some r' ∧ r'.Inv opener ∧ r.world.Move event r'.world := by
  obtain ⟨world, hworld, hkept⟩ := LossyWorld.step_kept h.kept event
  have hmove := LossyWorld.step_move h.armed hworld
  have harmed := h.armed.move h.kept hmove
  have hseated := h.seated.move hmove
  refine ⟨r.record event world, by rw [LossyRun.step, hworld]; rfl, ?_, by rw [record_world]; exact hmove⟩
  cases hcurrent : r.current with
  | none =>
    have hfree := h.idle.1 hcurrent
    rcases hmove.idle hfree with ⟨rfl, rfl⟩ | ⟨hlock, hstill⟩
    · rw [record_locked hcurrent hfree]
      refine ⟨hkept, harmed, hseated, by simp, ?_, h.calls⟩
      intro tried htried
      cases htried
      exact ⟨rfl, .same (.refl r.world.state)⟩
    · rw [record_idle hcurrent hlock]
      refine ⟨hkept, harmed, hseated, by simp [hstill], ?_, h.calls⟩
      intro tried htried
      cases htried
  | some tried =>
    have hcarried := h.armed.carries h.kept h.seated (h.stands tried hcurrent) hmove
    cases hcarried with
    | goes hends hstands =>
      rw [record_goes hcurrent hends]
      refine ⟨hkept, harmed, hseated, ?_, ?_, h.calls⟩
      · have hheld : world.phase ≠ .Free := by
          intro hfree
          simp only [LossyTry.Stands, hfree] at hstands
        simp [hheld]
      · intro other hother
        cases hother
        exact hstands
    | ends ended hends hfree hsound =>
      rw [record_ends hcurrent hends]
      refine ⟨hkept, harmed, hseated, by simp [hfree], ?_, ?_⟩
      · intro other hother
        cases hother
      · intro call hcall
        rcases List.mem_append.1 hcall with hold | hnew
        · exact h.calls call hold
        · rw [List.mem_singleton.1 hnew]
          exact hsound

theorem run_inv (opener : Opener) (events : List LossyEvent) :
    ∃ r, run opener events = some r ∧ r.Inv opener := by
  apply Runs.foldlM_total _ (new_inv opener) events
  intro r event h
  obtain ⟨r', hstep, hinv, -⟩ := h.step event
  exact ⟨r', hstep, hinv⟩

/-- A step under the lock ends the call that holds it, and no other. -/
theorem Inv.held (h : r.Inv opener) (hheld : r.world.phase ≠ .Free) (event : LossyEvent) :
    ∃ r', r.step event = some r' ∧ r'.Inv opener ∧ r.world.Move event r'.world ∧
      (r.world.ends event = none → r'.calls = r.calls) ∧
      ∀ ended, r.world.ends event = some ended → ∃ call, r'.calls = r.calls ++ [call] ∧ call.ended = ended := by
  obtain ⟨r', hstep, hinv, hmove⟩ := h.step event
  refine ⟨r', hstep, hinv, hmove, ?_⟩
  obtain ⟨world, -, rfl⟩ := Option.map_eq_some_iff.1 hstep
  cases hcurrent : r.current with
  | none => exact absurd (h.idle.1 hcurrent) hheld
  | some tried =>
    constructor
    · intro hends
      rw [record_goes hcurrent hends]
    · intro ended hends
      rw [record_ends hcurrent hends]
      exact ⟨_, rfl, rfl⟩

end LossyRun

/-- A move of a call whose guarded opens succeed. -/
def LossyEvent.succeeds : LossyEvent → Bool
  | .lock => true
  | .arm (.ok _) => true
  | .writer (.ok _) => true
  | .opening => true
  | .attach => true
  | _ => false

namespace LossyRun

variable {opener : Opener} {r r' : LossyRun} {event : LossyEvent}

/-- What a call alone brings a run to, where its guarded opens succeed. -/
def Succeeds (r r' : LossyRun) : Prop :=
  ∃ events : List LossyEvent, (∀ event ∈ events, event.succeeds = true) ∧ events.foldlM step r = some r'

theorem Succeeds.single (hevent : event.succeeds = true) (hstep : r.step event = some r') : r.Succeeds r' := by
  refine ⟨[event], by simpa using hevent, ?_⟩
  rw [List.foldlM_cons, hstep]
  rfl

theorem Succeeds.trans {t : LossyRun} (h : r.Succeeds r') (hrest : r'.Succeeds t) : r.Succeeds t := by
  obtain ⟨events, hevents, hrun⟩ := h
  obtain ⟨rest, hlater, hlast⟩ := hrest
  refine ⟨events ++ rest, ?_, ?_⟩
  · intro event hmem
    exact (List.mem_append.1 hmem).elim (hevents event) (hlater event)
  · rw [List.foldlM_append, hrun]
    exact hlast

/-- One call's end, and nobody holds the lock. -/
def Ends (r r' : LossyRun) (ended : LossyEnd) : Prop :=
  r.Succeeds r' ∧ r'.world.phase = .Free ∧ ∃ call, r'.calls = r.calls ++ [call] ∧ call.ended = ended

theorem Succeeds.ends {t : LossyRun} {ended : LossyEnd} (h : r.Succeeds r') (hcalls : r'.calls = r.calls)
    (hends : r'.Ends t ended) : r.Ends t ended := by
  obtain ⟨hrest, hfree, hcall⟩ := hends
  rw [hcalls] at hcall
  exact ⟨h.trans hrest, hfree, hcall⟩

/-- A call inside `Fanout::open` gets its cursor. -/
theorem Inv.attaching (h : r.Inv opener) {id : Nat} (hphase : r.world.phase = .Attaching id) :
    ∃ r', r.Ends r' .Cursor := by
  obtain ⟨r', hstep, hinv, hmove, -, hended⟩ := h.held (by simp [hphase]) .attach
  obtain ⟨session, hfanout⟩ := Option.ne_none_iff_exists'.1 (h.armed.ready id (.inr hphase))
  have hends : r.world.ends .attach = some .Cursor := by simp [LossyWorld.ends, hphase, hfanout]
  refine ⟨r', .single rfl hstep, ?_, hended _ hends⟩
  generalize r'.world = after at hmove ⊢
  cases hmove with
  | still event hunexpected => simp [LossyWorld.expects, hphase] at hunexpected
  | handed => rfl

/-- A call past its arming gets a cursor, is refused where nothing is left to arm, or goes round. -/
theorem Inv.past_arming (h : r.Inv opener) {id : Nat} (hphase : r.world.phase = .Armed id) :
    ∃ session, r.world.fanout = some session ∧
      ((session.refuses = false ∧ ∃ r', r.Ends r' .Cursor) ∨
        (session.refuses = true ∧ r.world.fifo = none ∧ ∃ r', r.Ends r' (.Refused sessionEnded)) ∨
        (session.refuses = true ∧ r.world.fifo ≠ none ∧ ∃ r', r.Succeeds r' ∧ r'.calls = r.calls ∧
          r'.Inv opener ∧ r'.world.phase = .Looping id ∧ r'.world.fanout = none)) := by
  obtain ⟨session, hfanout⟩ := Option.ne_none_iff_exists'.1 (h.armed.ready id (.inl hphase))
  refine ⟨session, hfanout, ?_⟩
  obtain ⟨r', hstep, hinv, hmove, hcalls, hended⟩ := h.held (by simp [hphase]) .opening
  generalize hafter : r'.world = after at hmove
  cases hmove with
  | still event hunexpected => simp [LossyWorld.expects, hphase] at hunexpected
  | @discarded other found path hother hfound hover hfifo =>
    cases hphase.symm.trans hother
    cases hfanout.symm.trans hfound
    refine .inr (.inr ⟨hover, by simp [hfifo], r', .single rfl hstep, hcalls ?_, hinv, by rw [hafter], by rw [hafter]⟩)
    simp [LossyWorld.ends, hphase, hfanout, hfifo]
  | spent hother hfound hover hfifo =>
    cases hfanout.symm.trans hfound
    refine .inr (.inl ⟨hover, hfifo, r', .single rfl hstep, by rw [hafter], hended _ ?_⟩)
    simp [LossyWorld.ends, hphase, hfanout, hover, hfifo]
  | attaching hother hfound hlive hattach =>
    cases hfanout.symm.trans hfound
    have hcalls' : r'.calls = r.calls := by
      apply hcalls
      simp [LossyWorld.ends, hphase, hfanout, hlive]
    obtain ⟨last, hlast⟩ := hinv.attaching (by rw [hafter])
    exact .inl ⟨hlive, last, (Succeeds.single rfl hstep).ends hcalls' hlast⟩

/-- A call over a fan-out that has handed out no cursor yet gets the first. -/
theorem Inv.first (h : r.Inv opener) {id : Nat} (hphase : r.world.phase = .Armed id) (hfresh : r.world.Fresh) :
    ∃ r', r.Ends r' .Cursor := by
  obtain ⟨session, hfanout, ⟨-, hcursor⟩ | ⟨hover, -⟩ | ⟨hover, -⟩⟩ := h.past_arming hphase
  · exact hcursor
  · cases (LossyWorld.fresh_live hfresh hfanout).symm.trans hover
  · cases (LossyWorld.fresh_live hfresh hfanout).symm.trans hover

/-- With no session there, a call whose guarded open succeeds arms one and gets its first cursor. -/
theorem Inv.arms (h : r.Inv opener) {id : Nat} (hphase : r.world.phase = .Looping id)
    (hnone : r.world.fanout = none) : ∃ r', r.Ends r' .Cursor := by
  obtain ⟨r', hstep, hinv, hmove, hcalls, -⟩ := h.held (by simp [hphase]) (.arm (.ok 0))
  have hcalls' := hcalls (by simp [LossyWorld.ends])
  have hsucceeds : r.Succeeds r' := .single rfl hstep
  generalize hafter : r'.world = after at hmove
  cases hmove with
  | still event hunexpected => simp [LossyWorld.expects, hphase] at hunexpected
  | met opened hother hfound => cases hnone.symm.trans hfound
  | @taken other reader opened hother hfound hopener =>
    have harmed : r'.world.phase = .Armed other := by rw [hafter]
    obtain ⟨last, hlast⟩ := hinv.first harmed (by rw [hafter]; exact ⟨_, rfl, rfl⟩)
    exact ⟨last, hsucceeds.ends hcalls' hlast⟩
  | @opened other path fd hother hfound hopener =>
    have hwaiting : r'.world.phase = .Waiting other ⟨0, []⟩ := by rw [hafter]
    obtain ⟨t, hnext, hinv', hmove', hcalls', -⟩ := hinv.held (by simp [hwaiting]) (.writer (.ok ()))
    have hsame : t.calls = r'.calls := hcalls' (by simp [LossyWorld.ends])
    generalize hlast : t.world = later at hmove'
    cases hmove' with
    | still event hunexpected => simp [LossyWorld.expects, hwaiting] at hunexpected
    | @written named reader hnamed =>
      have harmed : t.world.phase = .Armed named := by rw [hlast]
      obtain ⟨last, hcursor⟩ := hinv'.first harmed (by rw [hlast]; exact ⟨_, rfl, rfl⟩)
      have hboth := hsucceeds.trans (.single rfl hnext)
      exact ⟨last, hboth.ends (hsame.trans ‹_›) hcursor⟩

end LossyRun

/-- The one session of a source that is no path is over. -/
def LossyWorld.Over (w : LossyWorld) : Prop :=
  w.fifo = none ∧ ∃ session, w.fanout = some session ∧ session.refuses = true

namespace LossyRun

variable {opener : Opener} {r r' : LossyRun}

/-- A call whose guarded opens succeed ends: refused where the source is over, with a cursor elsewhere. -/
theorem Inv.looping (h : r.Inv opener) {id : Nat} (hphase : r.world.phase = .Looping id) :
    (r.world.Over → ∃ r', r.Ends r' (.Refused sessionEnded)) ∧ (¬ r.world.Over → ∃ r', r.Ends r' .Cursor) := by
  cases hfanout : r.world.fanout with
  | none =>
    constructor
    · intro hover
      obtain ⟨-, session, hsession, -⟩ := hover
      cases hfanout.symm.trans hsession
    · intro _
      exact h.arms hphase hfanout
  | some session =>
    obtain ⟨r', hstep, hinv, hmove, hcalls, -⟩ := h.held (by simp [hphase]) (.arm (.ok 0))
    have hcalls' := hcalls (by simp [LossyWorld.ends])
    have hsucceeds : r.Succeeds r' := .single rfl hstep
    generalize hafter : r'.world = after at hmove
    cases hmove with
    | still event hunexpected => simp [LossyWorld.expects, hphase] at hunexpected
    | opened fd hother hnone => cases hfanout.symm.trans hnone
    | taken opened hother hnone => cases hfanout.symm.trans hnone
    | @met other found opened hother hfound =>
      cases hfanout.symm.trans hfound
      have harmed : r'.world.phase = .Armed other := by rw [hafter]
      obtain ⟨held, hheld, hwhich⟩ := hinv.past_arming harmed
      have hfifo : r'.world.fifo = r.world.fifo := by rw [hafter]
      have hsame : held = session := by
        rw [hafter] at hheld
        exact Option.some.inj (hheld.symm.trans hfanout)
      subst hsame
      rw [hfifo] at hwhich
      constructor
      · intro hover
        obtain ⟨hnone, spent, hmem, hrefuses⟩ := hover
        cases hfanout.symm.trans hmem
        rcases hwhich with ⟨hlive, -⟩ | ⟨-, -, last, hlast⟩ | ⟨-, hsome, -⟩
        · rw [hrefuses] at hlive
          cases hlive
        · exact ⟨last, hsucceeds.ends hcalls' hlast⟩
        · exact absurd hnone hsome
      · intro hnot
        rcases hwhich with ⟨-, last, hlast⟩ | ⟨hover, hnone, -⟩ | ⟨-, -, round, hround, hcalls, hinv', hlooping, hnone⟩
        · exact ⟨last, hsucceeds.ends hcalls' hlast⟩
        · exact absurd ⟨hnone, held, hfanout, hover⟩ hnot
        · obtain ⟨last, hlast⟩ := hinv'.arms hlooping hnone
          exact ⟨last, (hsucceeds.trans hround).ends (hcalls.trans hcalls') hlast⟩

/-- The next call, if its guarded opens succeed. -/
theorem Inv.next (h : r.Inv opener) (hfree : r.world.phase = .Free) :
    (r.world.Over → ∃ r', r.Ends r' (.Refused sessionEnded)) ∧ (¬ r.world.Over → ∃ r', r.Ends r' .Cursor) := by
  obtain ⟨r', hstep, hinv, hmove⟩ := h.step .lock
  have hsucceeds : r.Succeeds r' := .single rfl hstep
  have hcalls : r'.calls = r.calls := by
    obtain ⟨world, -, rfl⟩ := Option.map_eq_some_iff.1 hstep
    rw [record_locked (h.idle.2 hfree) hfree]
  rcases hmove.idle hfree with ⟨-, hworld⟩ | ⟨hlock, -⟩
  · have hloops : r'.world.phase = .Looping r.world.calls := by rw [hworld]
    have hnext := hinv.looping hloops
    have hover : r'.world.Over ↔ r.world.Over := by
      rw [hworld]
      rfl
    rw [hover] at hnext
    constructor
    · intro hyes
      obtain ⟨last, hlast⟩ := hnext.1 hyes
      exact ⟨last, hsucceeds.ends hcalls hlast⟩
    · intro hno
      obtain ⟨last, hlast⟩ := hnext.2 hno
      exact ⟨last, hsucceeds.ends hcalls hlast⟩
  · exact absurd rfl hlock

end LossyRun

/-- Over any run of a lossy source's opens, pumps and cursors: the opener or the fan-out is there whenever
the lock is free, and never both; each call goes round at most twice, is never refused as not armed, and
unless it has a cursor to return leaves the state it found, but for a session that was over; the next call
whose guarded opens succeed gets a cursor, unless the source is no path and its session is over; and such
a source has one session, over its reader, and refuses every open after it. -/
theorem never_disarmed (opener : Opener) (events : List LossyEvent) :
    ∃ r, LossyRun.run opener events = some r ∧ LossyWorld.run opener events = some r.world ∧
      (r.world.phase = .Free → (r.world.opener.isSome = true ↔ r.world.fanout = none)) ∧
      (∀ tried, r.current = some tried → tried.loops ≤ 2) ∧
      (∀ call ∈ r.calls, call.tried.loops ≤ 2 ∧ call.ended ≠ .Refused notArmed ∧
        (call.ended = .Cursor → ∃ session view, call.left.fanout = some session ∧
          session.fanout.views call.tried.id = some view ∧ view.cursor.isSome = true) ∧
        (call.ended ≠ .Cursor → call.tried.found.Same call.left ∨ call.tried.found.Discarded call.left)) ∧
      (∀ path, opener = .Fifo path →
        (∀ call ∈ r.calls, ∀ message, call.ended ≠ .Refused message) ∧
        (r.world.phase = .Free → ∃ r', r.Ends r' .Cursor)) ∧
      ∀ reader, opener = .Ready reader →
        (∀ session ∈ r.world.sessions, r.world.sessions = [session] ∧
          ∃ events, List.foldlM LossySession.step (.new reader .UntilEof) events = some session) ∧
        (∀ call ∈ r.calls, ∀ session, call.tried.found.fanout = some session → session.refuses = true →
          call.ended = .Refused sessionEnded) ∧
        (r.world.phase = .Free → (∃ session ∈ r.world.sessions, session.refuses = true) →
          ∃ r', r.Ends r' (.Refused sessionEnded)) := by
  obtain ⟨r, hrun, h⟩ := LossyRun.run_inv opener events
  have hworld := LossyRun.run_world (.new opener) events
  rw [← LossyRun.run, hrun, Option.map_some] at hworld
  refine ⟨r, hrun, hworld.symm, ?_, ?_, ?_, ?_, ?_⟩
  · intro _
    rw [h.armed.armed]
    cases r.world.fanout with
    | none => simp
    | some session => simp
  · intro tried htried
    exact (h.stands tried htried).loops
  · intro call hcall
    have hsound := h.calls call hcall
    refine ⟨hsound.loops, ?_, hsound.handed, ?_⟩
    · intro hrefused
      exact absurd (hsound.refused _ hrefused).1 (by decide)
    · intro hended
      obtain ⟨discards, hkept⟩ := hsound.kept hended
      cases hkept with
      | same hsame => exact .inl hsame
      | discarded hdiscarded => exact .inr hdiscarded
  · rintro path rfl
    constructor
    · intro call hcall message hrefused
      cases ((h.calls call hcall).refused message hrefused).2
    · intro hfree
      apply (h.next hfree).2
      intro hover
      cases h.armed.path.symm.trans hover.1
  · rintro reader rfl
    have hfifo : r.world.fifo = none := h.armed.path
    have hpast := h.armed.past hfifo
    have hsessions : r.world.sessions = r.world.fanout.toList := by
      rw [LossyWorld.sessions, hpast, List.append_nil]
    refine ⟨?_, ?_, ?_⟩
    · intro session hmem
      rw [hsessions] at hmem ⊢
      have hfanout := Option.mem_toList.1 hmem
      refine ⟨?_, h.armed.origin reader session rfl hfanout⟩
      rw [hfanout]
      rfl
    · intro call hcall
      exact (h.calls call hcall).spent rfl
    · intro hfree hover
      apply (h.next hfree).1
      obtain ⟨session, hmem, hrefuses⟩ := hover
      rw [hsessions] at hmem
      exact ⟨hfifo, session, Option.mem_toList.1 hmem, hrefuses⟩

end Tightbeam
