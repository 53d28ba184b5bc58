import Tightbeam.Splice

/-!
# The stdio bridge's output

A bridge between this process's stdio and a stream is done when its peer is. `downstream` copies the peer's
half to stdout. If stdin ends first, `select!` drops that copy with what its buffer held, and a second copy
drains what the peer still has to say.
-/
namespace Tightbeam

/-- `drain` is the copy begun once stdin's half was closed toward the peer. -/
structure StdioBridge (ε : Type) where
  downstream : Copier UInt8 ε
  drain : Option (Copier UInt8 ε)
  result : Option (Except (Copier.Error ε) Unit)

inductive StdioEvent (ε : Type) where
  /-- A poll of the copy under way, which flushes stdout to finish it. -/
  | down (event : Copier.Event UInt8 ε)
  /-- Stdin's half is done: it was closed, or a read of stdin or a write toward the peer failed. -/
  | upstream (result : Except (Copier.Error ε) Unit)

namespace StdioBridge

variable {ε : Type}

def new : StdioBridge ε := ⟨.new, none, none⟩

def step (b : StdioBridge ε) (event : StdioEvent ε) : Option (StdioBridge ε) :=
  match b.result, b.drain, event with
  | some _, _, _ => none
  | none, none, .down event =>
    (b.downstream.step copyBuffer event).map fun copy => { b with downstream := copy, result := copy.result }
  | none, some drain, .down event =>
    -- The half that has ended once gives nothing more.
    if b.downstream.ended && event.gives then none
    else (drain.step copyBuffer event).map fun copy => { b with drain := some copy, result := copy.result }
  | none, none, .upstream (.ok _) => some { b with drain := some .new }
  | none, none, .upstream (.error error) => some { b with result := some (.error error) }
  | none, some _, .upstream _ => none

/-- The copy under way. -/
def copying (b : StdioBridge ε) : Copier UInt8 ε := b.drain.getD b.downstream

def drained (b : StdioBridge ε) : List UInt8 :=
  match b.drain with
  | some drain => drain.sunk
  | none => []

/-- What stdout was given. -/
def out (b : StdioBridge ε) : List UInt8 := b.downstream.sunk ++ b.drained

/-- What was read of the peer's half. -/
def read (b : StdioBridge ε) : List UInt8 :=
  match b.drain with
  | some drain => b.downstream.source ++ drain.source
  | none => b.downstream.source

/-- What the first copy held when it was dropped. -/
def lost (b : StdioBridge ε) : List UInt8 :=
  match b.drain with
  | some _ => b.downstream.held
  | none => []

/-- The peer's half was seen to end. -/
def ended (b : StdioBridge ε) : Bool := b.downstream.ended || b.copying.ended

variable {b b' : StdioBridge ε} {event : StdioEvent ε}

inductive Moves (b : StdioBridge ε) : StdioBridge ε → Prop where
  | first {copy : Copier UInt8 ε} (hlive : b.result = none) (hdrain : b.drain = none)
      (h : b.downstream.Moves copyBuffer copy) : Moves b { b with downstream := copy, result := copy.result }
  | drain {drain copy : Copier UInt8 ε} (hlive : b.result = none) (hdrain : b.drain = some drain)
      (hsilent : b.downstream.ended = true → copy.source = drain.source)
      (h : drain.Moves copyBuffer copy) : Moves b { b with drain := some copy, result := copy.result }
  | handover (hlive : b.result = none) (hdrain : b.drain = none) : Moves b { b with drain := some .new }
  | failed (error : Copier.Error ε) (hlive : b.result = none) (hdrain : b.drain = none) :
      Moves b { b with result := some (.error error) }

theorem step_moves (h : b.step event = some b') : Moves b b' := by
  unfold step at h
  split at h
  · cases h
  · rename_i event hlive hdrain
    obtain ⟨copy, hcopy, rfl⟩ := Option.map_eq_some_iff.mp h
    exact .first hlive hdrain (Copier.step_moves hcopy)
  · rename_i drain event hlive hdrain
    split at h
    · cases h
    · rename_i hguard
      obtain ⟨copy, hcopy, rfl⟩ := Option.map_eq_some_iff.mp h
      refine .drain hlive hdrain (fun hended => ?_) (Copier.step_moves hcopy)
      exact Copier.source_of_silent (by simpa [hended] using hguard) hcopy
  · rename_i hlive hdrain
    cases h
    exact .handover hlive hdrain
  · rename_i error hlive hdrain
    cases h
    exact .failed error hlive hdrain
  · cases h

/-- What a bridge keeps. `handed` is of one whose stdin has ended. -/
structure Inv (b : StdioBridge ε) : Prop where
  downstream : b.downstream.Inv copyBuffer
  first : b.drain = none → ∀ result, b.downstream.result = some result → b.result = some result
  handed : ∀ drain, b.drain = some drain → drain.Inv copyBuffer ∧ b.downstream.result = none ∧
    b.result = drain.result ∧ (b.downstream.ended = true → drain.source = [])
  done : b.result = some (.ok ()) → b.copying.result = some (.ok ())

theorem inv_new : (new : StdioBridge ε).Inv where
  downstream := Copier.inv_new
  first := by
    intro _ result h
    cases h
  handed := by
    intro drain h
    cases h
  done := by
    intro h
    cases h

theorem Inv.live (h : b.Inv) (hlive : b.result = none) : b.copying.result = none := by
  cases hdrain : b.drain with
  | some drain =>
    have hhanded := h.handed drain hdrain
    simpa [copying, hdrain, hhanded.2.2.1] using hlive
  | none =>
    simp only [copying, hdrain, Option.getD_none]
    cases hres : b.downstream.result with
    | none => rfl
    | some result => cases hlive.symm.trans (h.first hdrain result hres)

theorem Inv.moves (h : b.Inv) (hmoves : Moves b b') : b'.Inv := by
  cases hmoves with
  | @first copy hlive hdrain hcopy =>
    refine ⟨h.downstream.moves hcopy, fun _ _ hres => hres, fun drain hsome => ?_, fun hdone => ?_⟩
    · cases hdrain.symm.trans hsome
    · simpa [copying, hdrain] using hdone
  | @drain drain copy hlive hdrain hsilent hcopy =>
    obtain ⟨hinv, hfirst, hres, hnone⟩ := h.handed drain hdrain
    refine ⟨h.downstream, fun hgone => ?_, fun other hsome => ?_, fun hdone => hdone⟩
    · cases hgone
    · cases hsome
      exact ⟨hinv.moves hcopy, hfirst, rfl, fun hended => (hsilent hended).trans (hnone hended)⟩
  | handover hlive hdrain =>
    refine ⟨h.downstream, fun hgone => ?_, fun other hsome => ?_, fun hdone => ?_⟩
    · cases hgone
    · cases hsome
      have hcopying := h.live hlive
      simp only [copying, hdrain, Option.getD_none] at hcopying
      exact ⟨Copier.inv_new, hcopying, hlive, fun _ => rfl⟩
    · cases hlive.symm.trans hdone
  | failed error hlive hdrain =>
    refine ⟨h.downstream, fun _ result hres => ?_, fun drain hsome => ?_, fun hdone => ?_⟩
    · cases hlive.symm.trans (h.first hdrain result hres)
    · cases hdrain.symm.trans hsome
    · cases hdone

theorem inv_run {events : List (StdioEvent ε)} (hrun : events.foldlM step new = some b) : b.Inv :=
  Runs.foldlM_keeps (fun _ _ _ hinv hstep => hinv.moves (step_moves hstep)) inv_new hrun

/-- What was read is what was written, with what was lost where stdin's end fell, and what is still held. -/
theorem Inv.accounts (h : b.Inv) : b.read = b.downstream.sunk ++ b.lost ++ b.drained ++ b.copying.held := by
  cases hdrain : b.drain with
  | none => simpa [read, lost, drained, copying, hdrain] using h.downstream.carried
  | some drain =>
    have hinv := (h.handed drain hdrain).1
    simp [read, lost, drained, copying, hdrain, h.downstream.carried, hinv.carried]

/-- Until stdin ends, the bridge runs as its copy does. -/
theorem lift_first (hdrain : b.drain = none) (hsame : b.result = b.downstream.result)
    {events : List (Copier.Event UInt8 ε)} {q : Copier UInt8 ε}
    (hrun : events.foldlM (Copier.step copyBuffer) b.downstream = some q) :
    (events.map .down).foldlM step b = some { b with downstream := q, result := q.result } := by
  induction events generalizing b with
  | nil =>
    cases hrun
    rw [← hsame]
    rfl
  | cons event events ih =>
    rw [List.foldlM_cons] at hrun
    obtain ⟨p, hp, hrest⟩ := Option.bind_eq_some_iff.mp hrun
    have hlive : b.result = none := hsame.trans (Copier.step_moves hp).live
    have hstep : b.step (.down event) = some { b with downstream := p, result := p.result } := by
      simp [step, hlive, hdrain, hp]
    rw [List.map_cons, List.foldlM_cons, hstep]
    exact ih (b := { b with downstream := p, result := p.result }) hdrain rfl hrest

/-- After it, as the second copy does, of a half that gives nothing after its end. -/
theorem lift_drain {drain q : Copier UInt8 ε} (hdrain : b.drain = some drain) (hsame : b.result = drain.result)
    {events : List (Copier.Event UInt8 ε)}
    (hallowed : ∀ event ∈ events, b.downstream.ended = true → event.gives = false)
    (hrun : events.foldlM (Copier.step copyBuffer) drain = some q) :
    (events.map .down).foldlM step b = some { b with drain := some q, result := q.result } := by
  induction events generalizing b drain with
  | nil =>
    cases hrun
    rw [← hsame, ← hdrain]
    rfl
  | cons event events ih =>
    rw [List.foldlM_cons] at hrun
    obtain ⟨p, hp, hrest⟩ := Option.bind_eq_some_iff.mp hrun
    have hlive : b.result = none := hsame.trans (Copier.step_moves hp).live
    have hguard : (b.downstream.ended && event.gives) = false := by
      cases hended : b.downstream.ended with
      | false => rfl
      | true => exact hallowed event List.mem_cons_self hended
    have hstep : b.step (.down event) = some { b with drain := some p, result := p.result } := by
      simp [step, hlive, hdrain, hguard, hp]
    rw [List.map_cons, List.foldlM_cons, hstep]
    exact ih (b := { b with drain := some p, result := p.result }) rfl rfl
      (fun other hmem => hallowed other (List.mem_cons_of_mem event hmem)) hrest

/-- With nothing more of stdin, a live bridge can drain whatever its peer has yet to say. -/
theorem Inv.can_drain (h : b.Inv) (hlive : b.result = none) (more : List UInt8) (hmore : b.ended = true → more = []) :
    ∃ (events : List (Copier.Event UInt8 ε)) (t : StdioBridge ε),
      (events.map .down).foldlM step b = some t ∧ t.result = some (.ok ()) ∧
        t.out = b.out ++ b.copying.held ++ more := by
  cases hdrain : b.drain with
  | none =>
    have hcopying := h.live hlive
    simp only [copying, hdrain, Option.getD_none] at hcopying
    have hended : b.downstream.ended = true → more = [] := by
      intro hend
      exact hmore (by simp [ended, hend])
    obtain ⟨q, ⟨events, -, hrun⟩, hdone, hsunk⟩ := h.downstream.leads_done (fun _ => True) (by decide)
      (fun _ _ => trivial) hcopying more (fun _ _ => trivial) hended
    refine ⟨events, _, lift_first hdrain (hlive.trans hcopying.symm) hrun, hdone, ?_⟩
    simp [out, drained, copying, hdrain, hsunk, h.downstream.carried]
  | some drain =>
    obtain ⟨hinv, hfirst, hres, hnone⟩ := h.handed drain hdrain
    have hended : drain.ended = true → more = [] := by
      intro hend
      exact hmore (by simp [ended, copying, hdrain, hend])
    obtain ⟨q, ⟨events, hevents, hrun⟩, hdone, hsunk⟩ := hinv.leads_done
      (fun event => b.downstream.ended = true → event.gives = false) (by decide)
      (fun _ hgives _ => hgives) (hres.symm.trans hlive) more
      (fun item hmem hend => by simp [hmore (by simp [ended, hend])] at hmem) hended
    refine ⟨events, _, lift_drain hdrain hres hevents hrun, hdone, ?_⟩
    simp [out, drained, copying, hdrain, hsunk, hinv.carried]

end StdioBridge

/-- Along every run of a bridge, stdout gets what the peer said, in order, but for what the first copy held
when stdin's end dropped it: at most one buffer, in one place, and nothing while stdin lasts. A bridge that
returns well has seen its peer's end and flushed all the rest, so stdout is whole exactly where nothing was
held then. Stdin's end ends no bridge: what the peer has yet to say can still be drained. -/
theorem stdio_output {ε : Type} (events : List (StdioEvent ε)) (b : StdioBridge ε)
    (hrun : events.foldlM StdioBridge.step StdioBridge.new = some b) :
    b.out = b.downstream.sunk ++ b.drained ∧
    b.read = b.downstream.sunk ++ b.lost ++ b.drained ++ b.copying.held ∧
    b.lost.length ≤ copyBuffer ∧ b.copying.held.length ≤ copyBuffer ∧
    (b.drain = none → b.lost = []) ∧
    (b.result = some (.ok ()) → b.ended = true ∧ b.copying.held = [] ∧ b.copying.flushed = true ∧
      (b.out = b.read ↔ b.lost = [])) ∧
    (b.result = none → ∀ more : List UInt8, (b.ended = true → more = []) →
      ∃ (rest : List (Copier.Event UInt8 ε)) (t : StdioBridge ε),
        (rest.map .down).foldlM StdioBridge.step b = some t ∧ t.result = some (.ok ()) ∧
          t.out = b.out ++ b.copying.held ++ more) := by
  have hinv := StdioBridge.inv_run hrun
  have hcopying : b.copying.Inv copyBuffer := by
    cases hdrain : b.drain with
    | none => simpa [StdioBridge.copying, hdrain] using hinv.downstream
    | some drain => simpa [StdioBridge.copying, hdrain] using (hinv.handed drain hdrain).1
  refine ⟨rfl, hinv.accounts, ?_, hcopying.bounded, fun hdrain => ?_, fun hdone => ?_, hinv.can_drain⟩
  · unfold StdioBridge.lost
    split
    · exact hinv.downstream.bounded
    · exact Nat.zero_le _
  · simp [StdioBridge.lost, hdrain]
  · have hcopied := hcopying.done (hinv.done hdone)
    have hheld : b.copying.held = [] := by
      have hcarried := hcopying.carried
      rw [hcopied.sunk] at hcarried
      exact List.self_eq_append_right.mp hcarried
    refine ⟨by simp [StdioBridge.ended, hcopied.ended], hheld, hcopied.flushed, ?_⟩
    rw [hinv.accounts, hheld, StdioBridge.out, List.append_nil, List.append_assoc, List.append_right_inj,
      List.self_eq_append_left]

theorem stdio_output_dropped : ∃ b : StdioBridge Unit, b.result = some (.ok ()) ∧ b.out = [] ∧ b.lost = [7] ∧
    b.read = b.downstream.sunk ++ b.lost ++ b.drained ++ b.copying.held := by
  have hrun := @stdio_output Unit
    [.down (.read (.ok [7])), .upstream (.ok ()), .down (.read (.ok [])), .down (.flush (.ok ())),
      .down (.finish (.ok ()))] _ rfl
  exact ⟨_, rfl, rfl, rfl, hrun.2.1⟩

end Tightbeam
