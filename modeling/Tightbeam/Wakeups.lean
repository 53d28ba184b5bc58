import Tightbeam.FanoutStep
import Tightbeam.Library.Waiting

/-!
# Cursors that park

The fan-out again, with the pump's wake after each change of the ring as a step of its own and each
consumer's `poll_read` taken apart: it makes or keeps its future, polls it, looks at the ring under its
lock, and returns or goes round again.
-/
namespace Tightbeam

open Waiting

/-- The pump has just changed the ring, and calls `notify_waiters` next. -/
def FanoutWorld.announces (w : FanoutWorld) : FanoutEvent → Bool
  | .pumpRead (.ok (_ :: _)) =>
    match w.pump with
    | .Reading _ => true
    | _ => false
  | .close =>
    match w.pump with
    | .Dropped => true
    | _ => false
  | _ => false

/-- A fan-out, whether its pump stands before a wake, and where each consumer's poll stands. -/
structure WakeWorld where
  fanout : FanoutWorld
  owed : Bool
  parkers : Nat → Parker

/-- One locked section or move of the pump, the pump's wake, or the next step of a consumer's poll. -/
inductive WakeEvent where
  | fanout (event : FanoutEvent)
  | notify (made : Nat → Bool)
  | advance (id split room : Nat)

/-- A step of this consumer's own poll. -/
def WakeEvent.moves (id : Nat) : WakeEvent → Bool
  | .advance other _ _ => other == id
  | .fanout _ => false
  | .notify _ => false

def Poll.isReady {α : Type} : Poll α → Bool
  | .Ready _ => true
  | .Pending => false

namespace WakeWorld

def new (source : BoxRead) (lifetime : Lifetime) : WakeWorld :=
  ⟨.new source lifetime, false, fun _ => .new⟩

/-- The pump goes on only after its wake. A consumer looks at the ring in its poll alone, and its cursor is
dropped only between polls. -/
def allows (w : WakeWorld) : FanoutEvent → Bool
  | .opening _ => true
  | .attach => true
  | .poll _ _ _ => false
  | .drop id => (w.parkers id).stage.isOut
  | .check => !w.owed
  | .pumpRead _ => !w.owed
  | .release => !w.owed
  | .close => !w.owed

def notify (w : WakeWorld) (made : Nat → Bool) : WakeWorld :=
  if w.owed then { w with owed := false, parkers := fun id => (w.parkers id).notified (made id) } else w

def setParker (w : WakeWorld) (id : Nat) (parker : Parker) : WakeWorld :=
  { w with parkers := Function.update w.parkers id parker }

/-- The next step of a live cursor's poll: its look at the ring, or one that touches its own future only. -/
def advance (ceiling : Nat) (w : WakeWorld) (id split room : Nat) : Option WakeWorld :=
  match (w.fanout.views id).bind View.cursor with
  | none => some w
  | some c =>
    match (w.parkers id).stage with
    | .Registered _ => do
      let (_, _, polled) ← c.pollRead w.fanout.ring split room
      let fanout ← w.fanout.stepWithin ceiling (.poll id split room)
      pure (setParker { w with fanout } id ((w.parkers id).advance polled.isReady))
    | _ => some (w.setParker id ((w.parkers id).advance false))

def stepWithin (ceiling : Nat) (w : WakeWorld) : WakeEvent → Option WakeWorld
  | .fanout event =>
    if w.allows event then
      (w.fanout.stepWithin ceiling event).map fun fanout =>
        { w with fanout, owed := w.owed || w.fanout.announces event }
    else some w
  | .notify made => some (w.notify made)
  | .advance id split room => w.advance ceiling id split room

def runWithin (ceiling : Nat) (source : BoxRead) (lifetime : Lifetime) (events : List WakeEvent) :
    Option WakeWorld :=
  events.foldlM (stepWithin ceiling) (new source lifetime)

/-- A run under the code's own ceiling. -/
def run (source : BoxRead) (lifetime : Lifetime) (events : List WakeEvent) : Option WakeWorld :=
  runWithin ringBytes source lifetime events

end WakeWorld

/-- Nothing to read: the head of a ring that is not closed. -/
def Cursor.AtEdge (c : Cursor) (ring : Ring) : Prop := c.pos = ring.head ∧ ring.closed = false

variable {ceiling : Nat}

namespace FanoutWorld

variable {w w' : FanoutWorld} {event : FanoutEvent}

/-- Only what a wake follows changes the ring. -/
theorem step_ring (h : w.stepWithin ceiling event = some w') (hquiet : w.announces event = false) :
    w'.ring = w.ring := by
  cases step_cases h with
  | fed byte bytes ring source' trace hpump hclosed => simp [announces, hpump] at hquiet
  | closed trace hpump => simp [announces, hpump] at hquiet
  | quiet | started | joined | attached | stayed | letGo | ended | released => rfl

/-- A consumer's session changes in its own attach, look and drop alone. -/
theorem step_views (h : w.stepWithin ceiling event = some w') {id : Nat}
    (hattach : event = .attach → w.joining ≠ some id) (hpoll : ∀ split room, event ≠ .poll id split room)
    (hdrop : event ≠ .drop id) : w'.views id = w.views id := by
  cases event with
  | opening other =>
    cases h
    unfold opening
    split
    · rfl
    · split
      · rfl
      · split <;> rfl
  | attach =>
    cases h
    unfold attach
    cases hjoining : w.joining with
    | none => rfl
    | some other =>
      have hne : id ≠ other := fun heq => hattach rfl (heq ▸ hjoining)
      exact Function.update_of_ne hne ..
  | poll other split room =>
    have hne : id ≠ other := fun heq => hpoll split room (by rw [heq])
    simp only [stepWithin, poll] at h
    cases hother : w.views other with
    | none =>
      simp only [hother, Option.some.injEq] at h
      rw [h]
    | some found =>
      simp only [hother, Option.map_eq_some_iff] at h
      obtain ⟨found', -, rfl⟩ := h
      exact Function.update_of_ne hne ..
  | drop other =>
    have hne : id ≠ other := fun heq => hdrop (by rw [heq])
    cases h
    unfold dropCursor
    split
    · split
      · exact Function.update_of_ne hne ..
      · rfl
    · rfl
  | check =>
    cases h
    unfold check
    split <;> rfl
  | pumpRead read =>
    simp only [stepWithin, pumpRead] at h
    cases hpump : w.pump with
    | Reading source =>
      simp only [hpump] at h
      cases read with
      | error e =>
        cases h
        rfl
      | ok bytes =>
        cases bytes with
        | nil =>
          cases h
          rfl
        | cons byte bytes =>
          simp only [Option.map_eq_some_iff] at h
          obtain ⟨ring, -, rfl⟩ := h
          rfl
    | Unstarted | Top source | Left source | Dropped | Done =>
      simp only [hpump, Option.some.injEq] at h
      rw [h]
  | release =>
    cases h
    unfold release
    split <;> rfl
  | close =>
    cases h
    unfold close
    split <;> rfl

/-- A drop leaves a cursor that is still live where it was. -/
theorem dropCursor_live {id : Nat} {view : View} {c : Cursor} (hview : (w.dropCursor id).views id = some view)
    (hcursor : view.cursor = some c) : w.views id = some view := by
  unfold dropCursor at hview
  split at hview
  · split at hview
    · simp only [setView, Function.update_self, Option.some.injEq] at hview
      subst hview
      cases hcursor
    · exact hview
  · exact hview

/-- A consumer that was opened stays known. -/
theorem step_known (h : w.stepWithin ceiling event = some w') {id : Nat} {view : View}
    (hview : w.views id = some view) : ∃ view', w'.views id = some view' := by
  have hsome : w'.views = w.views → ∃ view', w'.views id = some view' := fun hsame => ⟨view, by rw [hsame, hview]⟩
  cases step_cases h with
  | quiet event consumers views trace hspawns hdrops hviews =>
    obtain ⟨view', hview', -⟩ := hviews id view hview
    exact ⟨view', hview'⟩
  | attached hjoining =>
    simp only [setView, Function.update_apply]
    split
    · exact ⟨_, rfl⟩
    · exact ⟨view, hview⟩
  | started | joined | stayed | letGo | fed | ended | released | closed => exact hsome rfl

theorem attach_joining (w : FanoutWorld) : w.attach.joining = none := by
  unfold attach
  cases hjoining : w.joining with
  | none => exact hjoining
  | some id => rfl

/-- An open in progress was so before, or has just begun for a consumer with no cursor. -/
theorem step_joining (h : w.stepWithin ceiling event = some w') {id : Nat} (hjoining : w'.joining = some id) :
    (event ≠ .attach ∧ w.joining = some id) ∨ (w.views id = none ∧ w'.views = w.views) := by
  by_cases hattach : event = .attach
  · subst hattach
    cases h
    cases (attach_joining w).symm.trans hjoining
  · cases step_cases h with
    | started other hsource hidle hnew =>
      cases hjoining
      exact .inr ⟨hnew, rfl⟩
    | joined other hsource hopen hidle hnew =>
      cases hjoining
      exact .inr ⟨hnew, rfl⟩
    | attached hbefore => exact absurd rfl hattach
    | quiet | stayed | letGo | fed | ended | released | closed => exact .inl ⟨hattach, hjoining⟩

/-- A consumer with no cursor gets one by its own attach alone. -/
theorem step_unknown (h : w.stepWithin ceiling event = some w') {id : Nat} (hnone : w.views id = none)
    (hattach : event = .attach → w.joining ≠ some id) : w'.views id = none := by
  by_cases hpoll : ∃ split room, event = .poll id split room
  · obtain ⟨split, room, rfl⟩ := hpoll
    simp only [stepWithin, poll, hnone, Option.some.injEq] at h
    rw [← h]
    exact hnone
  · by_cases hdrop : event = .drop id
    · subst hdrop
      cases h
      unfold dropCursor
      split
      · rename_i hview
        cases hnone.symm.trans hview
      · exact hnone
    · rw [step_views h hattach (fun split room heq => hpoll ⟨split, room, heq⟩) hdrop]
      exact hnone

/-- The consumer of an open in progress has no cursor yet. -/
def JoinerNew (w : FanoutWorld) : Prop := ∀ id, w.joining = some id → w.views id = none

theorem JoinerNew.step (hnew : w.JoinerNew) (h : w.stepWithin ceiling event = some w') : w'.JoinerNew := by
  intro id hjoining
  rcases step_joining h hjoining with ⟨hattach, hbefore⟩ | ⟨hnone, hviews⟩
  · exact step_unknown h (hnew id hbefore) fun heq => absurd heq hattach
  · rw [hviews]
    exact hnone

end FanoutWorld

namespace Cursor

/-- A look that finds nothing leaves the cursor at the head of an open ring. -/
theorem pollRead_pending {c c' : Cursor} {feed : Feed} {split room : Nat} {warned : Option Nat}
    (hpos : c.pos ≤ feed.stream.length)
    (h : c.pollRead (feed.ring ceiling) split room = some (c', warned, .Pending)) : c'.AtEdge (feed.ring ceiling) := by
  rw [pollRead_eq] at h
  have hbase : feed.base ceiling ≤ feed.stream.length := Nat.sub_le _ _
  by_cases hbehind : c.start ceiling feed < feed.stream.length
  · simp [hbehind] at h
  · have hstart : c.start ceiling feed = feed.stream.length :=
      le_antisymm (max_le hpos hbase) (Nat.not_lt.mp hbehind)
    cases hclosed : feed.closed with
    | true => simp [hbehind, hclosed] at h
    | false =>
      simp only [hbehind, hclosed, if_false, Option.some.injEq, Prod.mk.injEq] at h
      obtain ⟨rfl, -, -⟩ := h
      exact ⟨hstart.trans (feed.head_ring ceiling).symm, hclosed⟩

end Cursor

namespace WakeWorld

variable {w w' : WakeWorld}

/-- What holds in every state: a poll in progress has its cursor, and each cursor's waiting is safe. -/
structure Sound (ceiling : Nat) (w : WakeWorld) : Prop where
  fanout : w.fanout.Sound ceiling
  joiner : w.fanout.JoinerNew
  unknown : ∀ id, w.fanout.views id = none → w.parkers id = .new
  live : ∀ id, (w.parkers id).stage.isOut = false →
    ∃ view c, w.fanout.views id = some view ∧ view.cursor = some c
  safe : ∀ id view c, w.fanout.views id = some view → view.cursor = some c →
    (w.parkers id).Safe (w.owed = true) (c.AtEdge w.fanout.ring)

theorem new_sound (source : BoxRead) (lifetime : Lifetime) : (new source lifetime).Sound ceiling where
  fanout := FanoutWorld.new_sound source lifetime
  joiner := by
    intro id hjoining
    cases hjoining
  unknown := fun _ _ => rfl
  live := by
    intro id hpolling
    cases hpolling
  safe := by
    intro id view c hview
    cases hview

theorem fanout_sound (hceiling : 0 < ceiling) (h : w.Sound ceiling) (event : FanoutEvent) :
    ∃ w', w.stepWithin ceiling (.fanout event) = some w' ∧ w'.Sound ceiling ∧ w'.parkers = w.parkers := by
  by_cases hallowed : w.allows event = true
  · obtain ⟨fanout, hstep, hsound⟩ := FanoutWorld.step_sound h.fanout hceiling event
    have hpoll : ∀ id split room, event ≠ .poll id split room := by
      rintro id split room rfl
      cases hallowed
    have hviews : ∀ id view, w.fanout.views id = some view → event ≠ .drop id →
        fanout.views id = w.fanout.views id := by
      intro id view hview hdrop
      refine FanoutWorld.step_views hstep ?_ (hpoll id) hdrop
      intro hattach hjoining
      cases (h.joiner id hjoining).symm.trans hview
    refine ⟨{ w with fanout, owed := w.owed || w.fanout.announces event }, ?_, ⟨hsound, h.joiner.step hstep, ?_, ?_, ?_⟩, rfl⟩
    · simp [stepWithin, hallowed, hstep]
    · intro id hnone
      cases hview : w.fanout.views id with
      | none => exact h.unknown id hview
      | some view =>
        obtain ⟨view', hview'⟩ := FanoutWorld.step_known hstep hview
        cases hnone.symm.trans hview'
    · intro id hpolling
      obtain ⟨view, c, hview, hcursor⟩ := h.live id hpolling
      refine ⟨view, c, (hviews id view hview ?_).trans hview, hcursor⟩
      rintro rfl
      exact absurd (hallowed.symm.trans hpolling) (by simp)
    · intro id view c hview hcursor
      have hbefore : w.fanout.views id = some view ∨ w.fanout.views id = none := by
        cases hknown : w.fanout.views id with
        | none => exact .inr rfl
        | some before =>
          by_cases hdrop : event = .drop id
          · subst hdrop
            cases hstep
            exact .inl (hknown.symm.trans (FanoutWorld.dropCursor_live hview hcursor))
          · exact .inl (hknown.symm.trans ((hviews id before hknown hdrop).symm.trans hview))
      rcases hbefore with hbefore | hnone
      · refine (h.safe id view c hbefore hcursor).mono ?_
        rintro (hedge | howed)
        · cases hannounced : w.fanout.announces event with
          | true => exact .inr (by simp)
          | false =>
            refine .inl ?_
            simp only [FanoutWorld.step_ring hstep hannounced]
            exact hedge
        · exact .inr (by simp [howed])
      · simp only [h.unknown id hnone]
        exact Parker.new_safe
  · exact ⟨w, if_neg hallowed, h, rfl⟩

theorem notify_sound (h : w.Sound ceiling) (made : Nat → Bool) : (w.notify made).Sound ceiling := by
  unfold notify
  split
  · refine ⟨h.fanout, h.joiner, ?_, ?_, ?_⟩
    · intro id hnone
      simp only [h.unknown id hnone]
      exact Parker.notified_none _ rfl
    · intro id hpolling
      rw [Parker.notified_stage] at hpolling
      exact h.live id hpolling
    · intro id view c hview hcursor
      exact (h.safe id view c hview hcursor).notified (made id)
  · exact h

/-- A move of one consumer's poll that leaves the fan-out as it is. -/
theorem Sound.setParker (h : w.Sound ceiling) {id : Nat} {parker : Parker} {view : View} {c : Cursor}
    (hview : w.fanout.views id = some view) (hcursor : view.cursor = some c)
    (hsafe : parker.Safe (w.owed = true) (c.AtEdge w.fanout.ring)) : (w.setParker id parker).Sound ceiling := by
  refine ⟨h.fanout, h.joiner, ?_, ?_, ?_⟩
  · intro other hnone
    have hne : other ≠ id := by
      rintro rfl
      cases hnone.symm.trans hview
    exact (Function.update_of_ne hne ..).trans (h.unknown other hnone)
  · intro other hpolling
    by_cases heq : other = id
    · subst heq
      exact ⟨view, c, hview, hcursor⟩
    · simp only [WakeWorld.setParker, Function.update_of_ne heq] at hpolling
      exact h.live other hpolling
  · intro other view' c' hview' hcursor'
    by_cases heq : other = id
    · subst heq
      cases hview.symm.trans hview'
      cases hcursor.symm.trans hcursor'
      simpa only [WakeWorld.setParker, Function.update_self] using hsafe
    · simp only [WakeWorld.setParker, Function.update_of_ne heq]
      exact h.safe other view' c' hview' hcursor'

/-- A consumer's look at the ring, before its own stage moves on. -/
theorem Sound.looked (h : w.Sound ceiling) {fanout : FanoutWorld} {id split room : Nat} {view view' : View} {c c' : Cursor}
    (hstep : w.fanout.stepWithin ceiling (.poll id split room) = some fanout) (hfanout : fanout.Sound ceiling)
    (hview : w.fanout.views id = some view) (hcursor : view.cursor = some c)
    (hview' : fanout.views id = some view') (hcursor' : view'.cursor = some c') {fired : Bool}
    (hstage : (w.parkers id).stage = .Registered fired) : Sound ceiling { w with fanout } := by
  have hring : fanout.ring = w.fanout.ring := FanoutWorld.step_ring hstep rfl
  have hothers : ∀ other, other ≠ id → fanout.views other = w.fanout.views other := by
    intro other hne
    refine FanoutWorld.step_views hstep (by simp) ?_ (by simp)
    intro split' room' heq
    cases heq
    exact hne rfl
  refine ⟨hfanout, h.joiner.step hstep, ?_, ?_, ?_⟩
  · intro other hnone
    have hne : other ≠ id := by
      rintro rfl
      cases hnone.symm.trans hview'
    exact h.unknown other ((hothers other hne).symm.trans hnone)
  · intro other hpolling
    by_cases heq : other = id
    · subst heq
      exact ⟨view', c', hview', hcursor'⟩
    · obtain ⟨found, cursor, hfound, hlive⟩ := h.live other hpolling
      exact ⟨found, cursor, (hothers other heq).trans hfound, hlive⟩
  · intro other found cursor hfound hlive
    by_cases heq : other = id
    · subst heq
      exact (h.safe other view c hview hcursor).unlooked hstage
    · simp only [hring]
      exact h.safe other found cursor ((hothers other heq).symm.trans hfound) hlive

theorem advance_unlooked (w : WakeWorld) {id : Nat} {view : View} {c : Cursor}
    (hview : w.fanout.views id = some view) (hcursor : view.cursor = some c)
    (hunlooked : ∀ fired, (w.parkers id).stage ≠ .Registered fired) (split room : Nat) :
    w.advance ceiling id split room = some (w.setParker id ((w.parkers id).advance false)) := by
  simp only [advance, hview, hcursor, Option.bind_some]

theorem advance_sound (hceiling : 0 < ceiling) (h : w.Sound ceiling) (id split room : Nat) :
    ∃ w', w.advance ceiling id split room = some w' ∧ w'.Sound ceiling ∧
      (∀ other, other ≠ id → w'.parkers other = w.parkers other) ∧
      ((w.parkers id).stage.isOut = false → ∃ found, w'.parkers id = (w.parkers id).advance found) := by
  cases hview : w.fanout.views id with
  | none =>
    refine ⟨w, by simp [advance, hview], h, fun _ _ => rfl, ?_⟩
    intro hpolling
    obtain ⟨view, c, hknown, -⟩ := h.live id hpolling
    cases hview.symm.trans hknown
  | some view =>
    cases hcursor : view.cursor with
    | none =>
      refine ⟨w, by simp [advance, hview, hcursor], h, fun _ _ => rfl, ?_⟩
      intro hpolling
      obtain ⟨found, c, hknown, hlive⟩ := h.live id hpolling
      cases hview.symm.trans hknown
      cases hcursor.symm.trans hlive
    | some c =>
      have hsafe := h.safe id view c hview hcursor
      have hquiet : (∀ fired, (w.parkers id).stage ≠ .Registered fired) →
          (w.setParker id ((w.parkers id).advance false)).Sound ceiling := fun hstage =>
        h.setParker hview hcursor (hsafe.advance fun fired hfired => absurd hfired (hstage fired))
      have hothers : ∀ (w₁ : WakeWorld) parker, w₁.parkers = w.parkers → ∀ other, other ≠ id →
          (w₁.setParker id parker).parkers other = w.parkers other := by
        intro w₁ parker hsame other hne
        exact (Function.update_of_ne hne ..).trans (congrFun hsame other)
      cases hstage : (w.parkers id).stage with
      | Registered fired =>
        have hcontract := h.fanout.views id view hview
        have hpos : c.pos ≤ w.fanout.feed.stream.length := by
          rw [hcontract.placed c hcursor]
          exact hcontract.attached
        obtain ⟨⟨c', warned, polled⟩, hlook⟩ : ∃ looked, c.pollRead (w.fanout.feed.ring ceiling) split room = some looked :=
          ⟨_, Cursor.pollRead_eq ceiling c w.fanout.feed split room⟩
        have hlook' : c.pollRead w.fanout.ring split room = some (c', warned, polled) := by
          rw [h.fanout.ring]
          exact hlook
        obtain ⟨fanout, hstep, hfanout⟩ := FanoutWorld.step_sound h.fanout hceiling (.poll id split room)
        obtain ⟨view', hview', hcursor'⟩ : ∃ view', fanout.views id = some view' ∧ view'.cursor = some c' := by
          simp only [FanoutWorld.stepWithin, FanoutWorld.poll, hview, Option.map_eq_some_iff] at hstep
          obtain ⟨view', hpolled, rfl⟩ := hstep
          refine ⟨view', Function.update_self .., ?_⟩
          simp only [View.pollRead, hcursor, hlook', Option.bind_eq_bind, Option.bind_some] at hpolled
          cases polled with
          | Ready bytes =>
            cases hpolled
            rfl
          | Pending =>
            cases hpolled
            rfl
        have hring : fanout.ring = w.fanout.ring := FanoutWorld.step_ring hstep rfl
        have hlooked := h.looked hstep hfanout hview hcursor hview' hcursor' hstage
        refine ⟨_, by simp [advance, hview, hcursor, hstage, hlook', hstep], hlooked.setParker hview' hcursor' ?_,
          hothers _ _ rfl, fun _ => ⟨polled.isReady, Function.update_self ..⟩⟩
        refine (hlooked.safe id view' c' hview' hcursor').advance ?_
        intro _ _ hnothing
        cases polled with
        | Ready bytes => cases hnothing
        | Pending =>
          simp only [hring, h.fanout.ring]
          exact Cursor.pollRead_pending hpos hlook
      | Out _ | Top | Made | Looked _ =>
        have hunlooked : ∀ fired, (w.parkers id).stage ≠ .Registered fired := by simp [hstage]
        exact ⟨_, advance_unlooked w hview hcursor hunlooked split room, hquiet hunlooked, hothers w _ rfl,
          fun _ => ⟨false, Function.update_self ..⟩⟩

theorem step_sound (hceiling : 0 < ceiling) (h : w.Sound ceiling) (event : WakeEvent) :
    ∃ w', w.stepWithin ceiling event = some w' ∧ w'.Sound ceiling := by
  cases event with
  | fanout event =>
    obtain ⟨w', hstep, hsound, -⟩ := fanout_sound hceiling h event
    exact ⟨w', hstep, hsound⟩
  | notify made => exact ⟨_, rfl, notify_sound h made⟩
  | advance id split room =>
    obtain ⟨w', hstep, hsound, -⟩ := advance_sound hceiling h id split room
    exact ⟨w', hstep, hsound⟩

/-- Where no wake comes, each step of a poll in progress brings its end nearer, and no other step puts it
off. -/
theorem step_left (hceiling : 0 < ceiling) (h : w.Sound ceiling) {event : WakeEvent}
    (hquiet : ∀ made, event ≠ .notify made) {id : Nat} (hpolling : (w.parkers id).stage.isOut = false) :
    ∃ w', w.stepWithin ceiling event = some w' ∧ w'.Sound ceiling ∧
      (w'.parkers id).left + [event].countP (WakeEvent.moves id) ≤ (w.parkers id).left := by
  cases event with
  | fanout event =>
    obtain ⟨w', hstep, hsound, hsame⟩ := fanout_sound hceiling h event
    exact ⟨w', hstep, hsound, by simp [hsame, WakeEvent.moves]⟩
  | notify made => exact absurd rfl (hquiet made)
  | advance other split room =>
    obtain ⟨w', hstep, hsound, hothers, hown⟩ := advance_sound hceiling h other split room
    refine ⟨w', hstep, hsound, ?_⟩
    by_cases heq : other = id
    · subst heq
      obtain ⟨found, hadvanced⟩ := hown hpolling
      obtain ⟨view, c, hview, hcursor⟩ := h.live other hpolling
      have hless := (h.safe other view c hview hcursor).advance_left hpolling found
      have hone : [WakeEvent.advance other split room].countP (WakeEvent.moves other) = 1 := by
        simp [WakeEvent.moves]
      rw [hadvanced, hone]
      exact hless
    · have hne : (other == id) = false := by simpa using heq
      simp [hothers id (Ne.symm heq), WakeEvent.moves, hne]

/-- A poll in progress is over once its consumer has taken the steps that were left, unless a wake came. -/
theorem poll_ends (hceiling : 0 < ceiling) (h : w.Sound ceiling) {id : Nat} {later : List WakeEvent}
    (hquiet : ∀ made, .notify made ∉ later) (hsteps : (w.parkers id).left ≤ later.countP (WakeEvent.moves id)) :
    ∃ earlier, earlier <+: later ∧ ∃ w', earlier.foldlM (stepWithin ceiling) w = some w' ∧
      (w'.parkers id).stage.isOut = true := by
  induction later generalizing w with
  | nil => exact ⟨[], List.nil_prefix, w, rfl, Parker.left_eq_zero.mp (Nat.le_zero.mp hsteps)⟩
  | cons event later ih =>
    by_cases hpolling : (w.parkers id).stage.isOut = true
    · exact ⟨[], List.nil_prefix, w, rfl, hpolling⟩
    · have hnot : ∀ made, event ≠ .notify made := fun made heq => hquiet made (by simp [heq])
      obtain ⟨next, hstep, hsound, hleft⟩ := step_left hceiling h hnot (Bool.not_eq_true _ ▸ hpolling)
      have hcount : (event :: later).countP (WakeEvent.moves id) =
          [event].countP (WakeEvent.moves id) + later.countP (WakeEvent.moves id) := by
        rw [← List.countP_append]
        rfl
      obtain ⟨earlier, hbegins, last, hrun, hout⟩ :=
        ih hsound (fun made hmem => hquiet made (List.mem_cons_of_mem _ hmem)) (by omega)
      refine ⟨event :: earlier, List.cons_prefix_cons.mpr ⟨rfl, hbegins⟩, last, ?_, hout⟩
      rw [List.foldlM_cons, hstep]
      exact hrun

end WakeWorld

/-- In every state of every run, a cursor whose poll returned pending and was not woken since stands at the
head of an open ring, or the pump stands before the wake that wakes it. A poll ends within two turns of its
loop, unless a wake comes. -/
theorem no_lost_wakeup (source : BoxRead) (lifetime : Lifetime) (events : List WakeEvent) :
    ∃ w, WakeWorld.run source lifetime events = some w ∧
      (∀ id view c, w.fanout.views id = some view → view.cursor = some c →
        (w.parkers id).stage = .Out true → (w.parkers id).woken = false →
          c.AtEdge w.fanout.ring ∨
            w.owed = true ∧ ∀ made, ((w.notify made).parkers id).woken = true) ∧
      ∀ id later, (∀ made, .notify made ∉ later) → 8 ≤ later.countP (WakeEvent.moves id) →
        ∃ earlier, earlier <+: later ∧ ∃ w', WakeWorld.run source lifetime (events ++ earlier) = some w' ∧
          (w'.parkers id).stage.isOut = true := by
  obtain ⟨w, hrun, hsound⟩ : ∃ w, WakeWorld.run source lifetime events = some w ∧ w.Sound ringBytes :=
    Runs.foldlM_total (fun _ event h => WakeWorld.step_sound ringBytes_pos h event)
      (WakeWorld.new_sound source lifetime) events
  refine ⟨w, hrun, ?_, ?_⟩
  · intro id view c hview hcursor hpending hasleep
    rcases (hsound.safe id view c hview hcursor).asleep hpending hasleep with hedge | ⟨howed, hwakes⟩
    · exact .inl hedge
    · refine .inr ⟨howed, fun made => ?_⟩
      simpa only [WakeWorld.notify, howed, if_true] using hwakes (made id)
  · intro id later hquiet hsteps
    obtain ⟨earlier, hbegins, w', hlater, hout⟩ :=
      WakeWorld.poll_ends ringBytes_pos hsound hquiet (le_trans (Parker.left_le _) hsteps)
    refine ⟨earlier, hbegins, w', ?_, hout⟩
    rw [WakeWorld.run, WakeWorld.runWithin, List.foldlM_append, ← WakeWorld.runWithin, ← WakeWorld.run, hrun]
    exact hlater

/-- A consumer parks at an open head, and the pump's wake after its next append finds it. -/
example :
    (WakeWorld.runWithin 4 ⟨0, []⟩ .UntilEof
      [.fanout (.opening 0), .fanout .attach, .advance 0 0 9, .advance 0 0 9, .advance 0 0 9, .advance 0 0 9,
        .advance 0 0 9, .fanout .check, .fanout (.pumpRead (.ok [7]))]).map (fun w =>
          ((w.parkers 0).stage, w.owed, (w.parkers 0).woken, ((w.notify fun _ => false).parkers 0).woken)) =
      some (.Out true, true, false, true) := by
  decide

end Tightbeam
