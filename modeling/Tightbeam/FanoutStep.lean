import Tightbeam.FanoutRun

/-!
# What one step of a fan-out can do

The cases of a step, once: what becomes of the source, the pump, the open in progress and the stream.
What holds of a fan-out over a whole run is read off them.
-/
namespace Tightbeam

theorem View.pollRead_attached {view view' : View} {ring : Ring} {split room : Nat}
    (h : view.pollRead ring split room = some view') : view'.attached = view.attached := by
  unfold View.pollRead at h
  cases hcursor : view.cursor with
  | none =>
    simp only [hcursor, Option.some.injEq] at h
    rw [h]
  | some c =>
    simp only [hcursor, Option.bind_eq_bind, Option.bind_eq_some_iff] at h
    obtain ⟨⟨c', warned, polled⟩, -, hview⟩ := h
    cases polled with
    | Ready bytes =>
      cases hview
      rfl
    | Pending =>
      cases hview
      rfl

namespace FanoutWorld

/-- The step takes the source, and so starts a pump. -/
def spawns (w : FanoutWorld) : FanoutEvent → Bool
  | .opening id => w.joining.isNone && (w.views id).isNone && w.life.source.isSome
  | _ => false

/-- The readers a step drops. -/
def drops (w : FanoutWorld) : FanoutEvent → List BoxRead
  | .release =>
    match w.pump with
    | .Left source => [source]
    | _ => []
  | _ => []

/-- What one step can do to the source, the pump, the open in progress and the stream. -/
inductive Step (w : FanoutWorld) : FanoutEvent → FanoutWorld → Prop where
  | quiet (event : FanoutEvent) (consumers : Nat) (views : Nat → Option View) (trace : List RingEvent)
    (hspawns : w.spawns event = false) (hdrops : w.drops event = [])
    (hviews : ∀ id view, w.views id = some view →
      ∃ view', views id = some view' ∧ view'.attached = view.attached) :
    Step w event { w with life := { w.life with consumers }, views, trace }
  | started {source : BoxRead} (id : Nat) (hsource : w.life.source = some source) (hidle : w.joining = none)
    (hnew : w.views id = none) :
    Step w (.opening id)
      { w with
        life := { w.life with source := none, consumers := w.life.consumers + 1 }
        pump := .Top source
        joining := some id }
  | joined (id : Nat) (hsource : w.life.source = none) (hopen : w.ring.closed = false)
    (hidle : w.joining = none) (hnew : w.views id = none) :
    Step w (.opening id)
      { w with life := { w.life with consumers := w.life.consumers + 1 }, joining := some id }
  | attached {id : Nat} (hjoining : w.joining = some id) :
    Step w .attach
      ({ w with joining := none }.setView id ⟨some ⟨w.ring.head, false⟩, w.ring.head, []⟩ (.attached id))
  | stayed {source : BoxRead} (hpump : w.pump = .Top source) (hidle : w.joining = none)
    (hwatched : w.life.released = false) : Step w .check { w with pump := .Reading source }
  | letGo {source : BoxRead} (hpump : w.pump = .Top source) (hidle : w.joining = none)
    (hreleased : w.life.released = true) : Step w .check { w with pump := .Left source }
  | fed {source : BoxRead} (byte : UInt8) (bytes : List UInt8) (ring : Ring) (source' : BoxRead)
    (trace : List RingEvent) (hpump : w.pump = .Reading source) (hclosed : ring.closed = w.ring.closed) :
    Step w (.pumpRead (.ok (byte :: bytes)))
      { w with ring, pump := .Top source', stream := w.stream ++ byte :: bytes, trace }
  | ended {source : BoxRead} {read : Except Unit (List UInt8)} (hpump : w.pump = .Reading source)
    (hread : ∀ byte bytes, read ≠ .ok (byte :: bytes)) :
    Step w (.pumpRead read)
      { w with pump := .Left (source.answer ⟨pumpChunk, .Ready (read.map List.length)⟩) }
  | released {source : BoxRead} (hpump : w.pump = .Left source) : Step w .release { w with pump := .Dropped }
  | closed (trace : List RingEvent) (hpump : w.pump = .Dropped) :
    Step w .close { w with ring := { w.ring with closed := true }, pump := .Done, trace }

variable {ceiling : Nat} {w w' : FanoutWorld} {event : FanoutEvent}

theorem Step.unmoved (hspawns : w.spawns event = false) (hdrops : w.drops event = []) : w.Step event w :=
  .quiet event w.life.consumers w.views w.trace hspawns hdrops fun _ view hview => ⟨view, hview, rfl⟩

/-- A new view under a consumer's name, attached where its old one was. -/
theorem Step.viewed {id : Nat} {view view' : View} (consumers : Nat) (trace : List RingEvent)
    (hspawns : w.spawns event = false) (hdrops : w.drops event = []) (hview : w.views id = some view)
    (hattached : view'.attached = view.attached) :
    w.Step event { w with
      life := { w.life with consumers }, views := Function.update w.views id (some view'), trace } := by
  refine .quiet event consumers _ trace hspawns hdrops ?_
  intro other found hfound
  by_cases heq : other = id
  · subst heq
    cases hview.symm.trans hfound
    exact ⟨view', Function.update_self .., hattached⟩
  · exact ⟨found, (Function.update_of_ne heq ..).trans hfound, rfl⟩

theorem opening_step (w : FanoutWorld) (id : Nat) : w.Step (.opening id) (w.opening id) := by
  unfold opening
  by_cases hbusy : w.joining.isSome = true ∨ (w.views id).isSome = true
  · rw [if_pos hbusy]
    refine .unmoved ?_ rfl
    rcases hbusy with hjoining | hview
    · rw [spawns, Option.isNone_eq_false_iff.2 hjoining]
      rfl
    · rw [spawns, Option.isNone_eq_false_iff.2 hview, Bool.and_false]
      rfl
  · rw [if_neg hbusy]
    simp only [not_or, Bool.not_eq_true, Option.isSome_eq_false_iff, Option.isNone_iff_eq_none] at hbusy
    obtain ⟨hidle, hnew⟩ := hbusy
    cases hsource : w.life.source with
    | some source => exact .started id hsource hidle hnew
    | none =>
      simp only
      by_cases hclosed : w.ring.closed = true
      · rw [if_pos hclosed]
        exact .unmoved (by simp [spawns, hsource]) rfl
      · rw [if_neg hclosed]
        have hjoined : w.Step (.opening id) { w with
            life := { w.life with consumers := w.life.consumers + 1 }, joining := some id } :=
          .joined id hsource (by simpa using hclosed) hidle hnew
        simpa only [hsource] using hjoined

theorem append_closed {ring ring' : Ring} {bytes : List UInt8}
    (h : ring.appendWithin ceiling bytes = some ring') : ring'.closed = ring.closed := by
  simp only [Ring.appendWithin, Option.bind_eq_bind, Option.bind_eq_some_iff, Option.pure_def,
    Option.some.injEq] at h
  obtain ⟨skipped, -, -, -, rfl⟩ := h
  simp only
  split_ifs <;> rfl

theorem pumpRead_step {read : Except Unit (List UInt8)} (h : w.pumpRead ceiling read = some w') :
    w.Step (.pumpRead read) w' := by
  unfold pumpRead at h
  cases hpump : w.pump with
  | Reading source =>
    simp only [hpump] at h
    cases read with
    | error e =>
      cases h
      exact .ended hpump (by simp)
    | ok bytes =>
      cases bytes with
      | nil =>
        cases h
        exact .ended hpump (by simp)
      | cons byte bytes =>
        simp only [Option.map_eq_some_iff] at h
        obtain ⟨ring, happend, rfl⟩ := h
        exact .fed byte bytes ring _ _ hpump (append_closed happend)
  | Unstarted | Top source | Left source | Dropped | Done =>
    simp only [hpump, Option.some.injEq] at h
    subst h
    exact .unmoved rfl rfl

theorem check_step (w : FanoutWorld) : w.Step .check w.check := by
  unfold check
  cases hpump : w.pump with
  | Top source =>
    cases hidle : w.joining with
    | some joiner => exact .unmoved rfl rfl
    | none =>
      simp only
      cases hreleased : w.life.released with
      | true => simpa [hidle] using Step.letGo hpump hidle hreleased
      | false => simpa [hidle] using Step.stayed hpump hidle hreleased
  | Unstarted | Reading source | Left source | Dropped | Done => exact .unmoved rfl rfl

theorem dropCursor_step (w : FanoutWorld) (id : Nat) : w.Step (.drop id) (w.dropCursor id) := by
  unfold dropCursor
  cases hidle : w.joining with
  | some joiner => exact .unmoved rfl rfl
  | none =>
    cases hview : w.views id with
    | none => exact .unmoved rfl rfl
    | some view =>
      simp only
      split_ifs with hlive
      · have hattached : ({ view with cursor := none } : View).attached = view.attached := rfl
        have hspawns : w.spawns (.drop id) = false := rfl
        have hleft := Step.viewed (w.life.consumers - 1) (w.trace ++ [.dropped id]) hspawns rfl hview hattached
        simpa only [hidle, setView] using hleft
      · exact .unmoved rfl rfl

/-- What one step can do. -/
theorem step_cases (h : w.stepWithin ceiling event = some w') : w.Step event w' := by
  cases event with
  | opening id =>
    cases h
    exact opening_step w id
  | attach =>
    cases h
    unfold attach
    cases hjoining : w.joining with
    | none => exact .unmoved rfl rfl
    | some id => exact .attached hjoining
  | poll id split room =>
    simp only [stepWithin, poll] at h
    cases hview : w.views id with
    | none =>
      simp only [hview, Option.some.injEq] at h
      subst h
      exact .unmoved rfl rfl
    | some view =>
      simp only [hview, Option.map_eq_some_iff] at h
      obtain ⟨view', hpoll, rfl⟩ := h
      exact .viewed w.life.consumers _ rfl rfl hview (View.pollRead_attached hpoll)
  | drop id =>
    cases h
    exact dropCursor_step w id
  | check =>
    cases h
    exact check_step w
  | pumpRead read => exact pumpRead_step h
  | release =>
    cases h
    unfold release
    cases hpump : w.pump with
    | Left source => exact .released hpump
    | Unstarted | Top source | Reading source | Dropped | Done => exact .unmoved rfl (by simp [drops, hpump])
  | close =>
    cases h
    unfold close
    cases hpump : w.pump with
    | Dropped => exact .closed _ hpump
    | Unstarted | Top source | Reading source | Left source | Done => exact .unmoved rfl rfl

/-- The source is held until the pump starts, and the ring is closed exactly when the pump is done. -/
structure Staged (w : FanoutWorld) : Prop where
  source : w.life.source.isSome = true ↔ w.pump = .Unstarted
  closed : w.ring.closed = true ↔ w.pump = .Done

theorem new_staged (source : BoxRead) (lifetime : Lifetime) : (new source lifetime).Staged := by
  refine ⟨?_, ?_⟩
  · simp [new]
  · simp [new, Ring.new]

/-- A move of a pump that runs, under a ring that stays as it is marked. -/
theorem Staged.moved (h : w.Staged) (hsource : w'.life.source = w.life.source)
    (hclosed : w'.ring.closed = w.ring.closed) (hbefore : w.pump ≠ .Unstarted ∧ w.pump ≠ .Done)
    (hafter : w'.pump ≠ .Unstarted ∧ w'.pump ≠ .Done) : w'.Staged := by
  refine ⟨?_, ?_⟩
  · rw [hsource, h.source]
    exact iff_of_false hbefore.1 hafter.1
  · rw [hclosed, h.closed]
    exact iff_of_false hbefore.2 hafter.2

theorem Staged.step (h : w.Staged) (hstep : w.Step event w') : w'.Staged := by
  cases hstep with
  | quiet event consumers views trace hspawns hdrops hviews => exact ⟨h.source, h.closed⟩
  | started id hsource hidle hnew =>
    have hunstarted : w.pump = .Unstarted := h.source.1 (by simp [hsource])
    refine ⟨by simp, ?_⟩
    have hopen : w.ring.closed ≠ true := by
      rw [ne_eq, h.closed, hunstarted]
      simp
    simpa using hopen
  | joined id hsource hopen hidle hnew => exact ⟨h.source, h.closed⟩
  | attached hjoining => exact ⟨h.source, h.closed⟩
  | stayed hpump hidle hwatched => exact h.moved rfl rfl (by simp [hpump]) (by simp)
  | letGo hpump hidle hreleased => exact h.moved rfl rfl (by simp [hpump]) (by simp)
  | fed byte bytes ring source' trace hpump hclosed => exact h.moved rfl hclosed (by simp [hpump]) (by simp)
  | ended hpump hread => exact h.moved rfl rfl (by simp [hpump]) (by simp)
  | released hpump => exact h.moved rfl rfl (by simp [hpump]) (by simp)
  | closed trace hpump =>
    refine ⟨?_, by simp⟩
    rw [h.source, hpump]
    simp

theorem runWithin_snoc (source : BoxRead) (lifetime : Lifetime) (events : List FanoutEvent)
    (event : FanoutEvent) :
    runWithin ceiling source lifetime (events ++ [event]) =
      (runWithin ceiling source lifetime events).bind fun w => w.stepWithin ceiling event :=
  Runs.foldlM_snoc _ events event

theorem run_staged {source : BoxRead} {lifetime : Lifetime} {events : List FanoutEvent}
    (hrun : runWithin ceiling source lifetime events = some w) : w.Staged :=
  Runs.foldlM_keeps (fun _ _ _ h hstep => Staged.step h (step_cases hstep)) (new_staged source lifetime) hrun

end FanoutWorld

end Tightbeam
