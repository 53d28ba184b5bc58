import Tightbeam.FanoutStep

/-!
# One reader for each lossy source

A lossy source is opened by the first consumer and read by all through one fan-out; a `fifo:` source is
opened again once a session of it is over. The whole of an open runs under one async mutex, and the
pumps and the cursors go on under it. Readers are counted wherever one may be held.
-/
namespace Tightbeam

/-- What a lossy source opens on its first consumer. -/
inductive Opener where
  | Fifo (path : String)
  | Ready (reader : BoxRead)

/-- One fan-out from the arming on: the times its source was taken and a pump started over it, and the
readers it has dropped, each with every read it answered. -/
structure LossySession where
  fanout : FanoutWorld
  pumps : Nat
  dropped : List BoxRead

namespace LossySession

def new (source : BoxRead) (lifetime : Lifetime) : LossySession := ⟨.new source lifetime, 0, []⟩

def step (s : LossySession) (event : FanoutEvent) : Option LossySession :=
  (s.fanout.stepWithin ringBytes event).map fun fanout =>
    ⟨fanout, s.pumps + (if s.fanout.spawns event then 1 else 0), s.dropped ++ s.fanout.drops event⟩

/-- `Fanout::open` would return no cursor. -/
def refuses (s : LossySession) : Bool := s.fanout.life.source.isNone && s.fanout.ring.closed

end LossySession

/-- Where the holder of the async mutex stands: at the top of its loop, waiting for a writer with its
reader open, past the arming, or inside `Fanout::open` before its cursor. -/
inductive LossyPhase where
  | Free
  | Looping (id : Nat)
  | Waiting (id : Nat) (reader : BoxRead)
  | Armed (id : Nat)
  | Attaching (id : Nat)

/-- A lossy source and the sessions before the current one, whose cursors may outlive it. Each call of
`open` is a consumer of its own, by the order of the locks taken. -/
structure LossyWorld where
  opener : Option Opener
  fifo : Option String
  fanout : Option LossySession
  past : List LossySession
  phase : LossyPhase
  calls : Nat

/-- The moves of an open, the outcome of each guarded open, its cancellation, and what the pumps and the
cursors of the sessions do. -/
inductive LossyEvent where
  | lock
  | arm (opened : Except Unit Nat)
  | writer (readable : Except Unit Unit)
  | cancel
  | opening
  | attach
  | current (event : FanoutEvent)
  | earlier (index : Nat) (event : FanoutEvent)

/-- The events of a fan-out that are no part of an open. -/
def FanoutEvent.opens : FanoutEvent → Bool
  | .opening _ => true
  | .attach => true
  | _ => false

namespace LossyWorld

def new (opener : Opener) : LossyWorld :=
  ⟨some opener,
    match opener with
    | .Fifo path => some path
    | .Ready _ => none,
    none, [], .Free, 0⟩

/-- The lock is taken. -/
def lock (w : LossyWorld) : LossyWorld :=
  match w.phase with
  | .Free => { w with phase := .Looping w.calls, calls := w.calls + 1 }
  | _ => w

/-- The loop's arming. A `fifo:` path is opened at once and waits for a writer, and the opener stays
armed meanwhile; a ready reader is taken. -/
def arm (w : LossyWorld) (opened : Except Unit Nat) : LossyWorld :=
  match w.phase with
  | .Looping id =>
    if w.fanout.isNone then
      match w.opener with
      | some (.Fifo _) =>
        match opened with
        | .error _ => { w with phase := .Free }
        | .ok fd => { w with phase := .Waiting id ⟨fd, []⟩ }
      | some (.Ready reader) =>
        { w with opener := none, fanout := some (.new reader .UntilEof), phase := .Armed id }
      | none => { w with phase := .Armed id }
    else { w with phase := .Armed id }
  | _ => w

/-- The wait ends. A failure drops the reader and returns. -/
def writer (w : LossyWorld) (readable : Except Unit Unit) : LossyWorld :=
  match w.phase with
  | .Waiting id reader =>
    match readable with
    | .error _ => { w with phase := .Free }
    | .ok _ => { w with opener := none, fanout := some (.new reader .WhileWatched), phase := .Armed id }
  | _ => w

/-- A dropped open drops its reader before its lock. -/
def cancel (w : LossyWorld) : LossyWorld :=
  match w.phase with
  | .Waiting _ _ => { w with phase := .Free }
  | _ => w

/-- `Fanout::open`, up to the count: no cursor of a `fifo:` session arms it again and loops. -/
def opening (w : LossyWorld) : Option LossyWorld :=
  match w.phase with
  | .Armed id =>
    match w.fanout with
    | none => some { w with phase := .Free }
    | some session =>
      if session.refuses then
        match w.fifo with
        | some path =>
          some { w with
            opener := some (.Fifo path)
            fanout := none
            past := session :: w.past
            phase := .Looping id }
        | none => some { w with phase := .Free }
      else (session.step (.opening id)).map fun session =>
        { w with fanout := some session, phase := .Attaching id }
  | _ => some w

def attach (w : LossyWorld) : Option LossyWorld :=
  match w.phase, w.fanout with
  | .Attaching _, some session =>
    (session.step .attach).map fun session => { w with fanout := some session, phase := .Free }
  | _, _ => some w

def current (w : LossyWorld) (event : FanoutEvent) : Option LossyWorld :=
  match w.fanout with
  | some session =>
    if event.opens then some w
    else (session.step event).map fun session => { w with fanout := some session }
  | none => some w

def earlier (w : LossyWorld) (index : Nat) (event : FanoutEvent) : Option LossyWorld :=
  match w.past[index]? with
  | some session =>
    if event.opens then some w
    else (session.step event).map fun session => { w with past := w.past.set index session }
  | none => some w

def step (w : LossyWorld) : LossyEvent → Option LossyWorld
  | .lock => some w.lock
  | .arm opened => some (w.arm opened)
  | .writer readable => some (w.writer readable)
  | .cancel => some w.cancel
  | .opening => w.opening
  | .attach => w.attach
  | .current event => w.current event
  | .earlier index event => w.earlier index event

def run (opener : Opener) (events : List LossyEvent) : Option LossyWorld :=
  events.foldlM step (new opener)

def sessions (w : LossyWorld) : List LossySession := w.fanout.toList ++ w.past

end LossyWorld

/-- The reader a pump holds. -/
def Pump.reader : Pump → Option BoxRead
  | .Top source => some source
  | .Reading source => some source
  | .Left source => some source
  | _ => none

def FanoutWorld.readers (w : FanoutWorld) : List BoxRead := w.life.source.toList ++ w.pump.reader.toList

def Opener.reader : Opener → Option BoxRead
  | .Fifo _ => none
  | .Ready reader => some reader

def LossyPhase.reader : LossyPhase → Option BoxRead
  | .Waiting _ reader => some reader
  | _ => none

/-- The live readers of the underlying source, wherever they are held. -/
def LossyWorld.readers (w : LossyWorld) : List BoxRead :=
  (w.opener.bind Opener.reader).toList ++ w.phase.reader.toList ++
    w.sessions.flatMap fun session => session.fanout.readers

/-- One of its reads found the end or failed. -/
def BoxRead.spent (reader : BoxRead) : Bool := reader.answered.any Read.ended

namespace FanoutWorld

variable {w w' : FanoutWorld} {event : FanoutEvent}

/-- A source is taken once, by the step that starts the pump. -/
theorem Step.pumps (hstep : w.Step event w') :
    w'.life.source.toList.length + (if w.spawns event then 1 else 0) = w.life.source.toList.length := by
  cases hstep with
  | quiet event consumers views trace hspawns hdrops hviews => simp [hspawns]
  | started id hsource hidle hnew => simp [spawns, hsource, hidle, hnew]
  | joined id hsource hopen hidle hnew => simp [spawns, hsource]
  | attached hjoining => rfl
  | stayed hpump hidle hwatched => rfl
  | letGo hpump hidle hreleased => rfl
  | fed byte bytes ring source' trace hpump hclosed => rfl
  | ended hpump hread => rfl
  | released hpump => rfl
  | closed trace hpump => rfl

/-- A step keeps every reader but those it drops. -/
theorem Step.readers (hstaged : w.Staged) (hstep : w.Step event w') :
    w'.readers.length + (w.drops event).length = w.readers.length := by
  cases hstep with
  | quiet event consumers views trace hspawns hdrops hviews => simp [FanoutWorld.readers, hdrops]
  | started id hsource hidle hnew =>
    have hunstarted := hstaged.source.1 (by simp [hsource])
    simp [FanoutWorld.readers, hsource, hunstarted, Pump.reader, drops]
  | joined id hsource hopen hidle hnew => simp [FanoutWorld.readers, hsource, drops]
  | attached hjoining => rfl
  | stayed hpump hidle hwatched => simp [FanoutWorld.readers, hpump, Pump.reader, drops]
  | letGo hpump hidle hreleased => simp [FanoutWorld.readers, hpump, Pump.reader, drops]
  | fed byte bytes ring source' trace hpump hclosed => simp [FanoutWorld.readers, hpump, Pump.reader, drops]
  | ended hpump hread => simp [FanoutWorld.readers, hpump, Pump.reader, drops]
  | released hpump => simp [FanoutWorld.readers, hpump, Pump.reader, drops]
  | closed trace hpump => simp [FanoutWorld.readers, hpump, Pump.reader, drops]

theorem Step.lifetime (hstep : w.Step event w') : w'.life.lifetime = w.life.lifetime := by
  cases hstep <;> rfl

/-- A pump that is done stays done: no source is left to start another. -/
theorem Step.done (hstaged : w.Staged) (hdone : w.pump = .Done) (hstep : w.Step event w') :
    w'.pump = .Done := by
  cases hstep with
  | quiet event consumers views trace hspawns hdrops hviews => exact hdone
  | started id hsource hidle hnew =>
    have hunstarted := hstaged.source.1 (by simp [hsource])
    cases hunstarted.symm.trans hdone
  | joined id hsource hopen hidle hnew => exact hdone
  | attached hjoining => exact hdone
  | stayed hpump hidle hwatched => cases hpump.symm.trans hdone
  | letGo hpump hidle hreleased => cases hpump.symm.trans hdone
  | fed byte bytes ring source' trace hpump hclosed => cases hpump.symm.trans hdone
  | ended hpump hread => cases hpump.symm.trans hdone
  | released hpump => cases hpump.symm.trans hdone
  | closed trace hpump => rfl

/-- A pump that has left its loop has spent its reader. -/
def Spent (w : FanoutWorld) : Prop := ∀ source, w.pump = .Left source → source.spent = true

theorem spent_answer {reader : BoxRead} {read : Except Unit (List UInt8)}
    (hread : ∀ byte bytes, read ≠ .ok (byte :: bytes)) :
    (reader.answer ⟨pumpChunk, .Ready (read.map List.length)⟩).spent = true := by
  have hended : (Read.mk pumpChunk (.Ready (read.map List.length))).ended = true := by
    cases read with
    | error e => rfl
    | ok bytes =>
      cases bytes with
      | nil => decide
      | cons byte bytes => exact absurd rfl (hread byte bytes)
  rw [BoxRead.spent, BoxRead.answer, List.any_append, List.any_cons, hended, Bool.true_or, Bool.or_true]

/-- An until-EOF pump leaves its loop at the source's end only, however the viewers come and go. -/
theorem Spent.step (h : w.Spent) (heof : w.life.lifetime = .UntilEof) (hstep : w.Step event w') :
    w'.Spent := by
  intro source hleft
  cases hstep with
  | quiet event consumers views trace hspawns hdrops hviews => exact h source hleft
  | started id hsource hidle hnew => cases hleft
  | joined id hsource hopen hidle hnew => exact h source hleft
  | attached hjoining => exact h source hleft
  | stayed hpump hidle hwatched => cases hleft
  | letGo hpump hidle hreleased => simp [Life.released, heof] at hreleased
  | fed byte bytes ring source' trace hpump hclosed => cases hleft
  | ended hpump hread =>
    cases hleft
    exact spent_answer hread
  | released hpump => cases hleft
  | closed trace hpump => cases hleft

theorem Spent.drops (h : w.Spent) : ∀ reader ∈ w.drops event, reader.spent = true := by
  intro reader hreader
  cases event with
  | release =>
    cases hpump : w.pump with
    | Left source =>
      simp only [FanoutWorld.drops, hpump, List.mem_singleton] at hreader
      subst hreader
      exact h _ hpump
    | Unstarted | Top source | Reading source | Dropped | Done =>
      simp [FanoutWorld.drops, hpump] at hreader
  | opening id | attach | poll id split room | drop id | check | pumpRead read | close => cases hreader

end FanoutWorld

namespace LossySession

/-- A session's one reader is live or dropped, its one source held or taken, and an until-EOF session
lets go of a spent reader only. -/
structure Kept (s : LossySession) : Prop where
  sound : s.fanout.Sound ringBytes
  staged : s.fanout.Staged
  pumps : s.fanout.life.source.toList.length + s.pumps = 1
  readers : s.fanout.readers.length + s.dropped.length = 1
  spent : s.fanout.life.lifetime = .UntilEof → s.fanout.Spent ∧ ∀ reader ∈ s.dropped, reader.spent = true

theorem new_kept (source : BoxRead) (lifetime : Lifetime) : (new source lifetime).Kept where
  sound := FanoutWorld.new_sound source lifetime
  staged := FanoutWorld.new_staged source lifetime
  pumps := rfl
  readers := rfl
  spent := by
    intro heof
    constructor
    · intro reader hleft
      cases hleft
    · simp [new]

variable {s : LossySession}

theorem Kept.step (h : s.Kept) (event : FanoutEvent) :
    ∃ s', s.step event = some s' ∧ s'.Kept ∧ (s.fanout.pump = .Done → s'.fanout.pump = .Done) := by
  obtain ⟨fanout, hfanout, hsound⟩ := FanoutWorld.step_sound h.sound ringBytes_pos event
  have hstep := FanoutWorld.step_cases hfanout
  have hpumps := hstep.pumps
  have hreaders := hstep.readers h.staged
  refine ⟨_, by rw [LossySession.step, hfanout]; rfl, ?_, fun hdone => hstep.done h.staged hdone⟩
  constructor
  · exact hsound
  · exact h.staged.step hstep
  · have hone := h.pumps
    simp only
    omega
  · have hone := h.readers
    simp only [List.length_append]
    omega
  · intro heof
    have hbefore : s.fanout.life.lifetime = .UntilEof := hstep.lifetime.symm.trans heof
    obtain ⟨hspent, hdropped⟩ := h.spent hbefore
    constructor
    · exact hspent.step hbefore hstep
    · intro reader hreader
      rcases List.mem_append.1 hreader with hold | hnew
      · exact hdropped reader hold
      · exact hspent.drops reader hnew

/-- A session whose pump is done has dropped its reader. -/
theorem Kept.done (h : s.Kept) (hdone : s.fanout.pump = .Done) :
    s.fanout.readers = [] ∧ ∃ reader, s.dropped = [reader] := by
  have hsource : s.fanout.life.source = none := by
    by_contra hheld
    have hunstarted := h.staged.source.1 (Option.isSome_iff_ne_none.2 hheld)
    cases hunstarted.symm.trans hdone
  have hnone : s.fanout.readers = [] := by simp [FanoutWorld.readers, hsource, hdone, Pump.reader]
  have hone := h.readers
  rw [hnone, List.length_nil, Nat.zero_add, List.length_eq_one_iff] at hone
  exact ⟨hnone, hone⟩

theorem Kept.refuses (h : s.Kept) (hrefuses : s.refuses = true) : s.fanout.pump = .Done := by
  simp only [LossySession.refuses, Bool.and_eq_true] at hrefuses
  exact h.staged.closed.1 hrefuses.2

end LossySession

namespace LossyWorld

/-- The sessions before the current one are done. An armed source has no opener left, and an open waits
over a `fifo:` path that is not armed yet. -/
structure Kept (w : LossyWorld) : Prop where
  sessions : ∀ session ∈ w.sessions, session.Kept
  past : ∀ session ∈ w.past, session.fanout.pump = .Done
  armed : ∀ session, w.fanout = some session → w.opener = none
  waiting : ∀ id reader, w.phase = .Waiting id reader →
    w.fanout = none ∧ ∃ path, w.opener = some (.Fifo path)

variable {w : LossyWorld}

theorem new_kept (opener : Opener) : (new opener).Kept := by
  constructor
  · intro session hsession
    cases hsession
  · intro session hsession
    cases hsession
  · intro session hsession
    cases hsession
  · intro id reader hwaiting
    cases hwaiting

/-- A move of the mutex's holder alone. -/
theorem Kept.moved (h : w.Kept) (phase : LossyPhase) (calls : Nat) (hphase : phase.reader = none) :
    ({ w with phase, calls } : LossyWorld).Kept := by
  refine ⟨h.sessions, h.past, h.armed, ?_⟩
  rintro id reader rfl
  cases hphase

/-- A new fan-out over the source, which is armed no longer. -/
theorem Kept.started (h : w.Kept) (source : BoxRead) (lifetime : Lifetime) (id : Nat) :
    ({ w with opener := none, fanout := some (.new source lifetime), phase := .Armed id } : LossyWorld).Kept := by
  have hpast (session : LossySession) (hsession : session ∈ w.past) : session.Kept :=
    h.sessions session (List.mem_append_right _ hsession)
  constructor
  · intro session hsession
    rcases List.mem_append.1 hsession with hnew | hold
    · simp only [Option.toList_some, List.mem_singleton] at hnew
      subst hnew
      exact LossySession.new_kept source lifetime
    · exact hpast session hold
  · exact h.past
  · intro session hsession
    rfl
  · intro id reader hwaiting
    cases hwaiting

/-- The current session after a step of it. -/
theorem Kept.stepped {session session' : LossySession} (h : w.Kept) (hfanout : w.fanout = some session)
    (hkept : session'.Kept) (phase : LossyPhase) (hphase : phase.reader = none) :
    ({ w with fanout := some session', phase } : LossyWorld).Kept := by
  constructor
  · intro other hother
    rcases List.mem_append.1 hother with hnew | hold
    · simp only [Option.toList_some, List.mem_singleton] at hnew
      subst hnew
      exact hkept
    · exact h.sessions other (List.mem_append_right _ hold)
  · exact h.past
  · intro other hother
    exact h.armed session hfanout
  · rintro id reader rfl
    cases hphase

/-- A session that is over makes room for the next one of its path. -/
theorem Kept.rearmed {session : LossySession} (h : w.Kept) (hfanout : w.fanout = some session)
    (hdone : session.fanout.pump = .Done) (path : String) (id : Nat) :
    ({ w with
        opener := some (.Fifo path), fanout := none, past := session :: w.past
        phase := .Looping id } : LossyWorld).Kept := by
  constructor
  · intro other hother
    apply h.sessions
    simpa [LossyWorld.sessions, hfanout] using hother
  · intro other hother
    rcases List.mem_cons.1 hother with rfl | hold
    · exact hdone
    · exact h.past other hold
  · intro other hother
    cases hother
  · intro id reader hwaiting
    cases hwaiting

theorem lock_kept (h : w.Kept) : w.lock.Kept := by
  unfold lock
  cases w.phase with
  | Free => exact h.moved _ _ rfl
  | Looping id | Waiting id reader | Armed id | Attaching id => exact h

theorem arm_kept (h : w.Kept) (opened : Except Unit Nat) : (w.arm opened).Kept := by
  unfold arm
  cases w.phase with
  | Free | Waiting id reader | Armed id | Attaching id => exact h
  | Looping id =>
    simp only
    by_cases hnone : w.fanout.isNone = true
    · rw [if_pos hnone]
      rw [Option.isNone_iff_eq_none] at hnone
      cases hopener : w.opener with
      | none => simpa only [hopener] using h.moved (.Armed id) w.calls rfl
      | some opener =>
        cases opener with
        | Ready reader => exact h.started reader .UntilEof id
        | Fifo path =>
          cases opened with
          | error e => simpa only [hopener] using h.moved .Free w.calls rfl
          | ok fd =>
            refine ⟨h.sessions, h.past, ?_, ?_⟩
            · intro session hsession
              cases hnone.symm.trans hsession
            · intro id reader hwaiting
              exact ⟨hnone, path, rfl⟩
    · rw [if_neg hnone]
      exact h.moved _ _ rfl

theorem writer_kept (h : w.Kept) (readable : Except Unit Unit) : (w.writer readable).Kept := by
  unfold writer
  cases w.phase with
  | Free | Looping id | Armed id | Attaching id => exact h
  | Waiting id reader =>
    cases readable with
    | error e => exact h.moved _ _ rfl
    | ok _ => exact h.started reader .WhileWatched id

theorem cancel_kept (h : w.Kept) : w.cancel.Kept := by
  unfold cancel
  cases w.phase with
  | Waiting id reader => exact h.moved _ _ rfl
  | Free | Looping id | Armed id | Attaching id => exact h

theorem Kept.session {session : LossySession} (h : w.Kept) (hfanout : w.fanout = some session) :
    session.Kept := by
  apply h.sessions
  simp [LossyWorld.sessions, hfanout]

theorem opening_kept (h : w.Kept) : ∃ w', w.opening = some w' ∧ w'.Kept := by
  unfold opening
  cases w.phase with
  | Free | Looping id | Waiting id reader | Attaching id => exact ⟨w, rfl, h⟩
  | Armed id =>
    cases hfanout : w.fanout with
    | none => exact ⟨_, rfl, by simpa only [hfanout] using h.moved .Free w.calls rfl⟩
    | some session =>
      have hsession := h.session hfanout
      simp only
      by_cases hrefuses : session.refuses = true
      · rw [if_pos hrefuses]
        cases hfifo : w.fifo with
        | some path =>
          exact ⟨_, rfl, by simpa only [hfifo] using h.rearmed hfanout (hsession.refuses hrefuses) path id⟩
        | none => exact ⟨_, rfl, by simpa only [hfanout, hfifo] using h.moved .Free w.calls rfl⟩
      · rw [if_neg hrefuses]
        obtain ⟨session', hstep, hkept, -⟩ := hsession.step (.opening id)
        rw [hstep]
        exact ⟨_, rfl, h.stepped hfanout hkept (.Attaching id) rfl⟩

theorem attach_kept (h : w.Kept) : ∃ w', w.attach = some w' ∧ w'.Kept := by
  unfold attach
  cases w.phase with
  | Free | Looping id | Waiting id reader | Armed id => exact ⟨w, rfl, h⟩
  | Attaching id =>
    cases hfanout : w.fanout with
    | none => exact ⟨w, rfl, h⟩
    | some session =>
      obtain ⟨session', hstep, hkept, -⟩ := (h.session hfanout).step .attach
      simp only [hstep]
      exact ⟨_, rfl, h.stepped hfanout hkept .Free rfl⟩

theorem current_kept (h : w.Kept) (event : FanoutEvent) : ∃ w', w.current event = some w' ∧ w'.Kept := by
  unfold current
  cases hfanout : w.fanout with
  | none => exact ⟨w, rfl, h⟩
  | some session =>
    simp only
    by_cases hopens : event.opens = true
    · rw [if_pos hopens]
      exact ⟨w, rfl, h⟩
    · rw [if_neg hopens]
      obtain ⟨session', hstep, hkept, -⟩ := (h.session hfanout).step event
      rw [hstep]
      refine ⟨_, rfl, ?_⟩
      cases hphase : w.phase with
      | Waiting id reader => cases hfanout.symm.trans (h.waiting id reader hphase).1
      | Free | Looping id | Armed id | Attaching id =>
        simpa only [hphase] using h.stepped hfanout hkept w.phase (by rw [hphase]; rfl)

/-- A cursor or a pump of an earlier session starts no pump there. -/
theorem earlier_kept (h : w.Kept) (index : Nat) (event : FanoutEvent) :
    ∃ w', w.earlier index event = some w' ∧ w'.Kept := by
  unfold earlier
  cases hsession : w.past[index]? with
  | none => exact ⟨w, rfl, h⟩
  | some session =>
    have hmem : session ∈ w.past := List.mem_of_getElem? hsession
    simp only
    by_cases hopens : event.opens = true
    · rw [if_pos hopens]
      exact ⟨w, rfl, h⟩
    · rw [if_neg hopens]
      obtain ⟨session', hstep, hkept, hdone⟩ := (h.sessions session (List.mem_append_right _ hmem)).step event
      rw [hstep]
      refine ⟨_, rfl, ?_, ?_, h.armed, h.waiting⟩
      · intro other hother
        rcases List.mem_append.1 hother with hcurrent | hset
        · exact h.sessions other (List.mem_append_left _ hcurrent)
        · rcases List.mem_or_eq_of_mem_set hset with hold | rfl
          · exact h.sessions other (List.mem_append_right _ hold)
          · exact hkept
      · intro other hother
        rcases List.mem_or_eq_of_mem_set hother with hold | rfl
        · exact h.past other hold
        · exact hdone (h.past session hmem)

theorem step_kept (h : w.Kept) (event : LossyEvent) : ∃ w', w.step event = some w' ∧ w'.Kept := by
  cases event with
  | lock => exact ⟨_, rfl, lock_kept h⟩
  | arm opened => exact ⟨_, rfl, arm_kept h opened⟩
  | writer readable => exact ⟨_, rfl, writer_kept h readable⟩
  | cancel => exact ⟨_, rfl, cancel_kept h⟩
  | opening => exact opening_kept h
  | attach => exact attach_kept h
  | current event => exact current_kept h event
  | earlier index event => exact earlier_kept h index event

theorem run_kept (opener : Opener) (events : List LossyEvent) :
    ∃ w, run opener events = some w ∧ w.Kept :=
  Runs.foldlM_total (fun _ event h => step_kept h event) (new_kept opener) events

/-- The opener, the waiting open and the current session exclude one another, and the earlier sessions
hold nothing. -/
theorem Kept.readers (h : w.Kept) : w.readers.length ≤ 1 := by
  have hpast : (w.past.flatMap fun session => session.fanout.readers) = [] := by
    rw [List.flatMap_eq_nil_iff]
    intro session hsession
    exact ((h.sessions session (List.mem_append_right _ hsession)).done (h.past session hsession)).1
  cases hfanout : w.fanout with
  | some session =>
    -- An armed source: what is live is what its session holds.
    have hopener := h.armed session hfanout
    have hphase : w.phase.reader = none := by
      cases hphase : w.phase with
      | Waiting id reader => cases hfanout.symm.trans (h.waiting id reader hphase).1
      | Free | Looping id | Armed id | Attaching id => rfl
    have hone := (h.session hfanout).readers
    have hreaders : w.readers = session.fanout.readers := by
      simp [LossyWorld.readers, LossyWorld.sessions, hfanout, hopener, hphase, hpast]
    rw [hreaders]
    omega
  | none =>
    -- An open that waits does so over a path, so a ready reader and a waiting one are never both there.
    have hreaders : w.readers = (w.opener.bind Opener.reader).toList ++ w.phase.reader.toList := by
      simp [LossyWorld.readers, LossyWorld.sessions, hfanout, hpast]
    rw [hreaders, List.length_append]
    cases hphase : w.phase with
    | Waiting id reader =>
      obtain ⟨-, path, hopener⟩ := h.waiting id reader hphase
      simp [hopener, Opener.reader, LossyPhase.reader]
    | Free | Looping id | Armed id | Attaching id =>
      simp [LossyPhase.reader]

end LossyWorld

/-- However the opens, the pumps and the cursors of every session interleave, one reader of the source
at most is live. Each fan-out starts one pump at most, refuses an open only once its reader is dropped,
and, until EOF, is closed only after a read that found the end or failed. -/
theorem one_live_reader (opener : Opener) (events : List LossyEvent) :
    ∃ w, LossyWorld.run opener events = some w ∧ w.readers.length ≤ 1 ∧
      ∀ session ∈ w.sessions, session.pumps ≤ 1 ∧
        (session.refuses = true → session.fanout.readers = [] ∧ ∃ reader, session.dropped = [reader]) ∧
        (session.fanout.life.lifetime = .UntilEof → session.fanout.ring.closed = true →
          ∃ reader, session.dropped = [reader] ∧ reader.spent = true) := by
  obtain ⟨w, hrun, hkept⟩ := LossyWorld.run_kept opener events
  refine ⟨w, hrun, hkept.readers, ?_⟩
  intro session hmem
  have hsession := hkept.sessions session hmem
  refine ⟨?_, ?_, ?_⟩
  · have hone := hsession.pumps
    omega
  · intro hrefuses
    exact hsession.done (hsession.refuses hrefuses)
  · intro heof hclosed
    obtain ⟨-, reader, hdropped⟩ := hsession.done (hsession.staged.closed.1 hclosed)
    refine ⟨reader, hdropped, (hsession.spent heof).2 reader ?_⟩
    rw [hdropped]
    exact List.mem_singleton_self reader

end Tightbeam
