import Tightbeam.FanoutStep

/-!
# Who attaches to a live session

A pump leaves its loop first and marks its ring closed later, and an open asks the ring alone. So an
open that falls between the two hands out a cursor on a stream that is over. What follows says which
steps fall there, and that no other step does any harm.
-/
namespace Tightbeam

namespace Pump

/-- The pump is in its read loop: it may still read. -/
def looping : Pump → Bool
  | .Top _ => true
  | .Reading _ => true
  | _ => false

/-- The pump has left its loop, and the ring is not yet marked closed. -/
def leaving : Pump → Bool
  | .Left _ => true
  | .Dropped => true
  | _ => false

/-- The pump was started, and is out of its loop. -/
def gone : Pump → Bool
  | .Done => true
  | pump => pump.leaving

end Pump

/-- A step that does not fall into the gap: no open looks at the ring once the pump has left its loop
and before the ring is closed, and the source does not end under an open that has looked at it. -/
def FanoutEvent.Timely (w : FanoutWorld) : FanoutEvent → Prop
  | .opening id => w.joining = none → w.views id = none → w.pump.leaving = false
  | .pumpRead read => ∀ source joiner, w.pump = .Reading source → w.joining = some joiner →
    ∃ byte bytes, read = .ok (byte :: bytes)
  | _ => True

theorem follows_pos {edge : Nat} {reads : List Delivery} (h : Follows edge reads) :
    ∀ d ∈ reads, edge ≤ d.pos := by
  induction reads generalizing edge with
  | nil => simp
  | cons first rest ih =>
    obtain ⟨hpos, hrest⟩ := h
    intro d hd
    rcases List.mem_cons.1 hd with rfl | hmem
    · omega
    · have hle := ih hrest d hmem
      omega

namespace FanoutWorld

variable {ceiling : Nat} {w w' : FanoutWorld} {event : FanoutEvent}

/-- While an open is in progress the pump is in its loop. -/
def Attended (w : FanoutWorld) : Prop := ∀ id, w.joining = some id → w.pump.looping = true

theorem Staged.looping (h : w.Staged) (hsource : w.life.source = none) (hopen : w.ring.closed = false)
    (hleaving : w.pump.leaving = false) : w.pump.looping = true := by
  cases hpump : w.pump with
  | Unstarted =>
    have hheld := h.source.2 hpump
    simp [hsource] at hheld
  | Top source => rfl
  | Reading source => rfl
  | Left source => simp [hpump, Pump.leaving] at hleaving
  | Dropped => simp [hpump, Pump.leaving] at hleaving
  | Done => simp [h.closed.2 hpump] at hopen

/-- A timely step keeps every open in progress with a pump in its loop. -/
theorem Attended.step (h : w.Attended) (hstaged : w.Staged) (htimely : event.Timely w)
    (hstep : w.Step event w') : w'.Attended := by
  intro joiner hjoiner
  cases hstep with
  | quiet event consumers views trace hspawns hdrops hviews => exact h joiner hjoiner
  | started id hsource hidle hnew => rfl
  | joined id hsource hopen hidle hnew => exact hstaged.looping hsource hopen (htimely hidle hnew)
  | attached hjoining => cases hjoiner
  | stayed hpump hidle hwatched => rfl
  | letGo hpump hidle hreleased => cases hidle.symm.trans hjoiner
  | fed byte bytes ring source' trace hpump hclosed => rfl
  | ended hpump hread =>
    obtain ⟨byte, bytes, hfed⟩ := htimely _ joiner hpump hjoiner
    exact absurd hfed (hread byte bytes)
  | released hpump =>
    have hlooping := h joiner hjoiner
    simp [hpump, Pump.looping] at hlooping
  | closed trace hpump =>
    have hlooping := h joiner hjoiner
    simp [hpump, Pump.looping] at hlooping

/-- Every step of the run is timely where it is taken. -/
def Timely (source : BoxRead) (lifetime : Lifetime) (events : List FanoutEvent) : Prop :=
  ∀ before event after w, events = before ++ event :: after → run source lifetime before = some w →
    event.Timely w

theorem run_attended {source : BoxRead} {lifetime : Lifetime} {events after : List FanoutEvent}
    (htimely : Timely source lifetime (events ++ after)) (hrun : run source lifetime events = some w) :
    w.Attended := by
  induction events using List.reverseRecOn generalizing w after with
  | nil =>
    cases hrun
    intro joiner hjoiner
    cases hjoiner
  | append_singleton events event ih =>
    rw [run, runWithin_snoc, Option.bind_eq_some_iff] at hrun
    obtain ⟨earlier, hearlier, hstep⟩ := hrun
    rw [List.append_assoc] at htimely
    have hattended := ih htimely hearlier
    exact hattended.step (run_staged hearlier) (htimely events event after earlier rfl hearlier)
      (step_cases hstep)

/-- The pump is out of its loop, and the consumer was attached where the stream ends. -/
structure Lost (id edge : Nat) (w : FanoutWorld) : Prop where
  gone : w.pump.gone = true
  ends : w.stream.length = edge
  view : ∃ view, w.views id = some view ∧ view.attached = edge

theorem Pump.leaving_gone {pump : Pump} (h : pump.leaving = true) : pump.gone = true := by
  cases pump <;> first | rfl | cases h

theorem Pump.gone_not_looping {pump : Pump} (h : pump.gone = true) : pump.looping = false := by
  cases pump <;> first | rfl | cases h

/-- A stream that is over stays over, and a consumer attached at its end stays there. -/
theorem Lost.step {id edge : Nat} (h : w.Lost id edge) (hsound : w.Sound ceiling) (hstaged : w.Staged)
    (hstep : w.Step event w') : w'.Lost id edge := by
  have hlooping := Pump.gone_not_looping h.gone
  cases hstep with
  | quiet event consumers views trace hspawns hdrops hviews =>
    obtain ⟨view, hview, hattached⟩ := h.view
    obtain ⟨view', hview', hattached'⟩ := hviews id view hview
    exact ⟨h.gone, h.ends, view', hview', hattached'.trans hattached⟩
  | started joiner hsource hidle hnew =>
    have hunstarted := hstaged.source.1 (by simp [hsource])
    have hgone := h.gone
    rw [hunstarted] at hgone
    cases hgone
  | joined joiner hsource hopen hidle hnew => exact ⟨h.gone, h.ends, h.view⟩
  | @attached joiner hjoining =>
    refine ⟨h.gone, h.ends, ?_⟩
    by_cases heq : id = joiner
    · subst heq
      have hhead : w.ring.head = w.stream.length := by
        rw [hsound.ring]
        exact w.feed.head_ring ceiling
      exact ⟨_, Function.update_self .., hhead.trans h.ends⟩
    · obtain ⟨view, hview, hattached⟩ := h.view
      exact ⟨view, (Function.update_of_ne heq ..).trans hview, hattached⟩
  | stayed hpump hidle hwatched => simp [hpump, Pump.looping] at hlooping
  | letGo hpump hidle hreleased => simp [hpump, Pump.looping] at hlooping
  | fed byte bytes ring source' trace hpump hclosed => simp [hpump, Pump.looping] at hlooping
  | ended hpump hread => simp [hpump, Pump.looping] at hlooping
  | released hpump => exact ⟨rfl, h.ends, h.view⟩
  | closed trace hpump => exact ⟨rfl, h.ends, h.view⟩

/-- A consumer attached where a stream ends has received nothing. -/
theorem Lost.received {id edge : Nat} (h : w.Lost id edge) (hsound : w.Sound ceiling) :
    ∃ view, w.views id = some view ∧ view.received = [] := by
  obtain ⟨view, hview, hattached⟩ := h.view
  refine ⟨view, hview, ?_⟩
  have hcontract := hsound.views id view hview
  have hends : w.feed.stream.length = edge := h.ends
  rw [View.received, List.flatMap_eq_nil_iff]
  intro d hd
  have hpos := follows_pos hcontract.follows d hd
  have hle := (hcontract.runs d hd).2
  rw [← List.length_eq_zero_iff]
  omega

theorem Lost.run {id edge : Nat} (h : w.Lost id edge) (hsound : w.Sound ceiling) (hstaged : w.Staged)
    (hceiling : 0 < ceiling) (later : List FanoutEvent) :
    ∃ last view, later.foldlM (stepWithin ceiling) w = some last ∧ last.views id = some view ∧
      view.received = [] := by
  have hstep (w : FanoutWorld) (event : FanoutEvent) (hw : w.Lost id edge ∧ w.Sound ceiling ∧ w.Staged) :
      ∃ w', w.stepWithin ceiling event = some w' ∧ w'.Lost id edge ∧ w'.Sound ceiling ∧ w'.Staged := by
    obtain ⟨hlost, hsound, hstaged⟩ := hw
    obtain ⟨w', hw', hsound'⟩ := step_sound hsound hceiling event
    have hcases := step_cases hw'
    exact ⟨w', hw', hlost.step hsound hstaged hcases, hsound', hstaged.step hcases⟩
  obtain ⟨last, hlast, hlost, hsound', -⟩ := Runs.foldlM_total hstep ⟨h, hsound, hstaged⟩ later
  obtain ⟨view, hview, hreceived⟩ := hlost.received hsound'
  exact ⟨last, view, hlast, hview, hreceived⟩

/-- An open in progress over a pump out of its loop hands out a lost cursor. -/
theorem attach_lost {id : Nat} (hjoining : w.joining = some id) (hgone : w.pump.gone = true)
    (hsound : w.Sound ceiling) : w.attach.Lost id w.stream.length := by
  have hhead : w.ring.head = w.stream.length := by
    rw [hsound.ring]
    exact w.feed.head_ring ceiling
  unfold attach
  simp only [hjoining]
  exact ⟨hgone, rfl, _, Function.update_self .., hhead⟩

theorem pumpRead_ended (ceiling : Nat) {source : BoxRead} {read : Except Unit (List UInt8)}
    (hpump : w.pump = .Reading source) (hread : ∀ byte bytes, read ≠ .ok (byte :: bytes)) :
    ∃ source', w.pumpRead ceiling read = some { w with pump := .Left source' } := by
  unfold pumpRead
  simp only [hpump]
  cases read with
  | error e => exact ⟨_, rfl⟩
  | ok bytes =>
    cases bytes with
    | nil => exact ⟨_, rfl⟩
    | cons byte bytes => exact absurd rfl (hread byte bytes)

/-- A step that is not timely leaves an open in progress over a pump out of its loop. -/
theorem untimely (ceiling : Nat) (hstaged : w.Staged) (huntimely : ¬ event.Timely w) :
    ∃ w' id, w.stepWithin ceiling event = some w' ∧ w'.joining = some id ∧ w'.pump.gone = true := by
  cases event with
  | opening id =>
    simp only [FanoutEvent.Timely, Classical.not_imp, Bool.not_eq_false] at huntimely
    obtain ⟨hidle, hnew, hleaving⟩ := huntimely
    have hsource : w.life.source = none := by
      by_contra hheld
      have hunstarted := hstaged.source.1 (Option.isSome_iff_ne_none.2 hheld)
      simp [hunstarted, Pump.leaving] at hleaving
    have hopen : w.ring.closed ≠ true := by
      intro hclosed
      simp [hstaged.closed.1 hclosed, Pump.leaving] at hleaving
    have hopening : w.opening id =
        { w with life := { w.life with consumers := w.life.consumers + 1 }, joining := some id } := by
      simp [opening, hidle, hnew, hsource, hopen]
    exact ⟨_, id, congrArg some hopening, rfl, Pump.leaving_gone hleaving⟩
  | pumpRead read =>
    simp only [FanoutEvent.Timely, not_forall] at huntimely
    obtain ⟨source, joiner, hpump, hjoiner, hread⟩ := huntimely
    obtain ⟨source', hended⟩ := pumpRead_ended ceiling hpump fun byte bytes hfed => hread ⟨byte, bytes, hfed⟩
    exact ⟨_, joiner, hended, hjoiner, rfl⟩
  | attach => exact absurd trivial huntimely
  | poll id split room => exact absurd trivial huntimely
  | drop id => exact absurd trivial huntimely
  | check => exact absurd trivial huntimely
  | release => exact absurd trivial huntimely
  | close => exact absurd trivial huntimely

end FanoutWorld

open FanoutWorld in
/-- In a run of timely steps every cursor is handed out while the pump is in its loop, whatever its
lifetime. A step that is not timely is followed by a cursor that never reads an octet. -/
theorem joiners_live (source : BoxRead) (lifetime : Lifetime) (events : List FanoutEvent) :
    (Timely source lifetime events → ∀ before after w id, events = before ++ .attach :: after →
      run source lifetime before = some w → w.joining = some id → w.pump.looping = true) ∧
    ∀ w event, run source lifetime events = some w → ¬ event.Timely w →
      ∃ w' id, run source lifetime (events ++ [event]) = some w' ∧ w'.joining = some id ∧
        w'.pump.looping = false ∧
        ∀ later, ∃ last view, run source lifetime (events ++ event :: .attach :: later) = some last ∧
          last.views id = some view ∧ view.received = [] := by
  refine ⟨?_, ?_⟩
  · rintro htimely before after w id rfl hrun hjoining
    exact run_attended htimely hrun id hjoining
  · intro w event hrun huntimely
    have hstaged := run_staged hrun
    obtain ⟨w', id, hw', hjoining, hgone⟩ := untimely ringBytes hstaged huntimely
    obtain ⟨sound, hsoundRun, hsound⟩ := run_sound ringBytes_pos source lifetime (events ++ [event])
    have hrun' : run source lifetime (events ++ [event]) = some w' := by
      rw [run, runWithin_snoc, ← run, hrun]
      exact hw'
    cases hsoundRun.symm.trans hrun'
    refine ⟨w', id, hrun', hjoining, Pump.gone_not_looping hgone, ?_⟩
    intro later
    have hattach : w'.stepWithin ringBytes .attach = some w'.attach := rfl
    have hstaged' := (hstaged.step (step_cases hw')).step (step_cases hattach)
    obtain ⟨last, view, hlast, hview⟩ := (attach_lost hjoining hgone hsound).run (attach_sound hsound)
      hstaged' ringBytes_pos later
    refine ⟨last, view, ?_, hview⟩
    have hsplit : events ++ event :: .attach :: later = events ++ [event] ++ .attach :: later := by simp
    rw [hsplit, run, runWithin, List.foldlM_append, ← runWithin, ← run, hrun']
    exact hlast

/-- A consumer that comes as the pump waits for octets joins a live session, and one that comes as the source
has ended does not. -/
theorem joiners_live_second :
    (∃ w, FanoutWorld.run ⟨0, []⟩ .UntilEof [.opening 0, .attach, .check, .opening 1] = some w ∧
      w.joining = some 1 ∧ w.pump.looping = true) ∧
    ∃ w id, FanoutWorld.run ⟨0, []⟩ .UntilEof
        [.opening 0, .attach, .check, .pumpRead (.ok []), .opening 1] = some w ∧ w.joining = some id ∧
      w.pump.looping = false := by
  constructor
  · have htimely : FanoutWorld.Timely ⟨0, []⟩ .UntilEof [.opening 0, .attach, .check, .opening 1, .attach] := by
      intro before event after w hsplit hrun
      rcases before with _ | ⟨_, _ | ⟨_, _ | ⟨_, _ | ⟨_, _ | ⟨_, before⟩⟩⟩⟩⟩
      · cases hsplit
        cases hrun
        exact fun _ _ => rfl
      · cases hsplit
        trivial
      · cases hsplit
        trivial
      · cases hsplit
        cases hrun
        exact fun _ _ => rfl
      · cases hsplit
        trivial
      · simp at hsplit
    have hrun : FanoutWorld.run ⟨0, []⟩ .UntilEof [.opening 0, .attach, .check, .opening 1] = some _ := rfl
    exact ⟨_, hrun, rfl, (joiners_live ⟨0, []⟩ .UntilEof _).1 htimely _ [] _ 1 rfl hrun rfl⟩
  · have hrun : FanoutWorld.run ⟨0, []⟩ .UntilEof
        [.opening 0, .attach, .check, .pumpRead (.ok [])] = some _ := rfl
    obtain ⟨w, id, hopened, hjoining, hloop, -⟩ :=
      (joiners_live ⟨0, []⟩ .UntilEof _).2 _ (.opening 1) hrun fun htimely => nomatch htimely rfl rfl
    exact ⟨w, id, hopened, hjoining, hloop⟩

/-- A source ends, and before the ring is closed another consumer opens it: its cursor's first read is
the end. The same befalls a consumer that comes as the last one's departure lets the pump go. -/
theorem joiners_not_live :
    (∃ w, FanoutWorld.run ⟨0, []⟩ .UntilEof [.opening 0, .attach, .check, .pumpRead (.ok []), .opening 1] =
      some w ∧ w.joining = some 1 ∧ w.pump.looping = false) ∧
    (∃ w, FanoutWorld.run ⟨0, []⟩ .WhileWatched [.opening 0, .attach, .drop 0, .check, .opening 1] =
      some w ∧ w.joining = some 1 ∧ w.pump.looping = false) ∧
    (FanoutWorld.run ⟨0, []⟩ .UntilEof [.opening 0, .attach, .check, .pumpRead (.ok []), .opening 1,
      .attach, .release, .close, .poll 1 0 10]).map (fun w => (w.views 1).map fun view =>
        view.reads.map Delivery.bytes) = some (some [[]]) :=
  ⟨⟨_, rfl, rfl, rfl⟩, ⟨_, rfl, rfl, rfl⟩, by decide⟩

end Tightbeam
