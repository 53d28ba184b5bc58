import Tightbeam.Library.Copier

/-!
# The splice

Once a stream is served, both ends copy octets both ways: the dialer between a local connection and the
stream, the host between the stream and its target. A splice is two copies run together, and a tunnel is
a splice at each end of one stream.
-/
namespace Tightbeam

/-- The octets of tokio's copy buffer. -/
def copyBuffer : Nat := 8 * 1024

/-- `splice_halves`: `up` copies the local reader to the stream, `down` the stream to the local writer. A
splice may be dropped where it stands. -/
structure Splice (ε : Type) where
  up : Copier UInt8 ε
  down : Copier UInt8 ε
  dropped : Bool

inductive SpliceEvent (ε : Type) where
  | up (event : Copier.Event UInt8 ε)
  | down (event : Copier.Event UInt8 ε)
  | drop

namespace Splice

variable {ε : Type}

def new : Splice ε := ⟨.new, .new, false⟩

/-- `try_join!`: the first error, or both halves done. -/
def result (s : Splice ε) : Option (Except (Copier.Error ε) Unit) :=
  match s.up.result, s.down.result with
  | some (.error error), _ => some (.error error)
  | _, some (.error error) => some (.error error)
  | some (.ok _), some (.ok _) => some (.ok ())
  | _, _ => none

def live (s : Splice ε) : Bool := !s.dropped && s.result.isNone

def step (s : Splice ε) (event : SpliceEvent ε) : Option (Splice ε) :=
  if s.live = false then none
  else match event with
    | .up event => (s.up.step copyBuffer event).map fun up => { s with up }
    | .down event => (s.down.step copyBuffer event).map fun down => { s with down }
    | .drop => some { s with dropped := true }

/-- The stream's writer is shut down, or gone with the splice. -/
def closed (s : Splice ε) : Bool :=
  match s.up.result with
  | some (.ok _) => true
  | _ => !s.live

variable {s s' : Splice ε} {event : SpliceEvent ε}

/-- One half moves at a time, in a live splice only. -/
inductive Moves (s : Splice ε) : Splice ε → Prop where
  | up {p : Copier UInt8 ε} (hlive : s.live = true) (h : s.up.Moves copyBuffer p) : Moves s { s with up := p }
  | down {p : Copier UInt8 ε} (hlive : s.live = true) (h : s.down.Moves copyBuffer p) : Moves s { s with down := p }
  | dropped (hlive : s.live = true) : Moves s { s with dropped := true }

theorem step_moves (h : s.step event = some s') : Moves s s' := by
  unfold step at h
  split at h
  · cases h
  · rename_i hlive
    rw [Bool.not_eq_false] at hlive
    cases event with
    | up event =>
      obtain ⟨p, hp, rfl⟩ := Option.map_eq_some_iff.mp h
      exact .up hlive (Copier.step_moves hp)
    | down event =>
      obtain ⟨p, hp, rfl⟩ := Option.map_eq_some_iff.mp h
      exact .down hlive (Copier.step_moves hp)
    | drop =>
      cases h
      exact .dropped hlive

/-- Once the local reader has ended, nothing more is read of it. -/
theorem step_ended (h : s.step event = some s') (hended : s.up.ended = true) :
    s'.up.source = s.up.source ∧ s'.up.ended = true := by
  unfold step at h
  split at h
  · cases h
  · cases event with
    | up event =>
      obtain ⟨p, hp, rfl⟩ := Option.map_eq_some_iff.mp h
      exact (Copier.step_grows hp).2 hended
    | down event =>
      obtain ⟨p, hp, rfl⟩ := Option.map_eq_some_iff.mp h
      exact ⟨rfl, hended⟩
    | drop =>
      cases h
      exact ⟨rfl, hended⟩

structure Inv (s : Splice ε) : Prop where
  up : s.up.Inv copyBuffer
  down : s.down.Inv copyBuffer

theorem inv_new : (new : Splice ε).Inv := ⟨Copier.inv_new, Copier.inv_new⟩

theorem Inv.moves (h : s.Inv) (hmoves : Moves s s') : s'.Inv := by
  cases hmoves with
  | up hlive hup => exact ⟨h.up.moves hup, h.down⟩
  | down hlive hdown => exact ⟨h.up, h.down.moves hdown⟩
  | dropped hlive => exact ⟨h.up, h.down⟩

theorem inv_run {events : List (SpliceEvent ε)} (hrun : events.foldlM step new = some s) : s.Inv :=
  Runs.foldlM_keeps (fun _ _ _ hinv hstep => hinv.moves (step_moves hstep)) inv_new hrun

theorem result_ok : s.result = some (.ok ()) ↔ s.up.result = some (.ok ()) ∧ s.down.result = some (.ok ()) := by
  unfold result
  split <;> simp_all

theorem result_error {error : Copier.Error ε} (h : s.result = some (.error error)) :
    s.up.result = some (.error error) ∨ s.down.result = some (.error error) := by
  unfold result at h
  split at h <;> simp_all

theorem live_halves (h : s.live = true) : s.dropped = false ∧ (∀ error, s.up.result ≠ some (.error error)) ∧
    (∀ error, s.down.result ≠ some (.error error)) := by
  simp only [live, Bool.and_eq_true, Bool.not_eq_true', Option.isNone_iff_eq_none] at h
  refine ⟨h.1, fun error hup => ?_, fun error hdown => ?_⟩
  · simp [result, hup] at h
  · cases hup : s.up.result with
    | none => simp [result, hup, hdown] at h
    | some res => cases res <;> simp [result, hup, hdown] at h

/-- A splice with a half still to go, and no failed one, is live. -/
theorem live_of_up (hdropped : s.dropped = false) (hup : s.up.result = none)
    (hdown : ∀ error, s.down.result ≠ some (.error error)) : s.live = true := by
  cases hres : s.down.result with
  | none => simp [live, result, hdropped, hup, hres]
  | some res =>
    cases res with
    | error error => exact absurd hres (hdown error)
    | ok _ => simp [live, result, hdropped, hup, hres]

theorem live_of_down (hdropped : s.dropped = false) (hdown : s.down.result = none)
    (hup : ∀ error, s.up.result ≠ some (.error error)) : s.live = true := by
  cases hres : s.up.result with
  | none => simp [live, result, hdropped, hdown, hres]
  | some res =>
    cases res with
    | error error => exact absurd hres (hup error)
    | ok _ => simp [live, result, hdropped, hdown, hres]

/-- A half moves as it would alone, whatever the other one has come to. -/
theorem step_up (hdropped : s.dropped = false) (hdown : ∀ error, s.down.result ≠ some (.error error))
    {p p' : Copier UInt8 ε} {event : Copier.Event UInt8 ε} (hstep : p.step copyBuffer event = some p') :
    step { s with up := p } (.up event) = some { s with up := p' } := by
  have hlive : live { s with up := p } = true := live_of_up hdropped (Copier.step_moves hstep).live hdown
  simp [step, hlive, hstep]

theorem step_down (hdropped : s.dropped = false) (hup : ∀ error, s.up.result ≠ some (.error error))
    {p p' : Copier UInt8 ε} {event : Copier.Event UInt8 ε} (hstep : p.step copyBuffer event = some p') :
    step { s with down := p } (.down event) = some { s with down := p' } := by
  have hlive : live { s with down := p } = true := live_of_down hdropped (Copier.step_moves hstep).live hup
  simp [step, hlive, hstep]

theorem lift_up (hdropped : s.dropped = false) (hdown : ∀ error, s.down.result ≠ some (.error error))
    {events : List (Copier.Event UInt8 ε)} {p : Copier UInt8 ε} (hrun : events.foldlM (Copier.step copyBuffer) s.up = some p) :
    (events.map .up).foldlM step s = some { s with up := p } :=
  Runs.foldlM_lift (fun p => { s with up := p }) SpliceEvent.up
    (fun _ _ _ _ hstep _ => step_up hdropped hdown hstep) hrun

theorem lift_down (hdropped : s.dropped = false) (hup : ∀ error, s.up.result ≠ some (.error error))
    {events : List (Copier.Event UInt8 ε)} {p : Copier UInt8 ε} (hrun : events.foldlM (Copier.step copyBuffer) s.down = some p) :
    (events.map .down).foldlM step s = some { s with down := p } :=
  Runs.foldlM_lift (fun p => { s with down := p }) SpliceEvent.down
    (fun _ _ _ _ hstep _ => step_down hdropped hup hstep) hrun

/-- A half that has not failed is done, or can be, with whatever its source still has. -/
theorem half_done {p : Copier UInt8 ε} (h : p.Inv copyBuffer) (hfine : ∀ error, p.result ≠ some (.error error))
    (more : List UInt8) (hmore : p.ended = true → more = []) :
    ∃ q : Copier UInt8 ε, Copier.Leads copyBuffer (fun _ => True) p q ∧ q.result = some (.ok ()) ∧ q.sunk = p.source ++ more := by
  obtain ⟨q, hleads, hsource, hsunk, -, hdone⟩ :=
    h.leads_on (by decide) hfine more true fun hended => ⟨hmore hended, rfl⟩
  exact ⟨q, hleads, hdone, hsunk.trans hsource⟩

theorem Inv.can_finish (h : s.Inv) (hlive : s.live = true) (moreUp moreDown : List UInt8)
    (hup : s.up.ended = true → moreUp = []) (hdown : s.down.ended = true → moreDown = []) :
    ∃ (events : List (SpliceEvent ε)) (t : Splice ε), events.foldlM step s = some t ∧ t.result = some (.ok ()) ∧
      t.up.sunk = s.up.source ++ moreUp ∧ t.down.sunk = s.down.source ++ moreDown := by
  obtain ⟨hdropped, hupFine, hdownFine⟩ := live_halves hlive
  obtain ⟨p, ⟨ups, -, hups⟩, hpdone, hpsunk⟩ := half_done h.up hupFine moreUp hup
  obtain ⟨q, ⟨downs, -, hdowns⟩, hqdone, hqsunk⟩ := half_done h.down hdownFine moreDown hdown
  have hfirst : (ups.map .up).foldlM step s = some { s with up := p } := lift_up hdropped hdownFine hups
  have hpFine : ∀ error, p.result ≠ some (.error error) := by
    intro error herror
    cases hpdone.symm.trans herror
  have hsecond : (downs.map .down).foldlM step { s with up := p } = some { s with up := p, down := q } :=
    lift_down (s := { s with up := p }) hdropped hpFine hdowns
  refine ⟨ups.map .up ++ downs.map .down, { s with up := p, down := q }, ?_, ?_, hpsunk, hqsunk⟩
  · rw [List.foldlM_append, hfirst]
    exact hsecond
  · exact result_ok.mpr ⟨hpdone, hqdone⟩

/-- What one half of a splice has done: nothing lost, added or put in another order, no more than a buffer
held back, and its writer finished after its source's end only. -/
structure Faithful (p : Copier UInt8 ε) : Prop where
  carried : p.source = p.sunk ++ p.held
  bounded : p.held.length ≤ copyBuffer
  finished : p.result = some (.ok ()) → p.ended = true ∧ p.sunk = p.source ∧ p.flushed = true

theorem faithful {p : Copier UInt8 ε} (h : p.Inv copyBuffer) : Faithful p :=
  ⟨h.carried, h.bounded, fun hdone => ⟨(h.done hdone).ended, (h.done hdone).sunk, (h.done hdone).flushed⟩⟩

end Splice

/-- Along every run of a splice each direction carries exactly what its reader gave. It returns once both
are done, or with the error of one, and then nothing moves. While it runs, one direction that is done
leaves the other free to carry all that its reader still has. -/
theorem splice_exact {ε : Type} (events : List (SpliceEvent ε)) (s : Splice ε)
    (hrun : events.foldlM Splice.step Splice.new = some s) :
    Splice.Faithful s.up ∧ Splice.Faithful s.down ∧
    (s.result = some (.ok ()) ↔ s.up.result = some (.ok ()) ∧ s.down.result = some (.ok ())) ∧
    (∀ error, s.result = some (.error error) →
      s.up.result = some (.error error) ∨ s.down.result = some (.error error)) ∧
    (s.live = false → ∀ event, s.step event = none) ∧
    (s.live = true → ∀ moreUp moreDown : List UInt8, (s.up.ended = true → moreUp = []) →
      (s.down.ended = true → moreDown = []) →
      ∃ (rest : List (SpliceEvent ε)) (t : Splice ε), rest.foldlM Splice.step s = some t ∧
        t.result = some (.ok ()) ∧ t.up.sunk = s.up.source ++ moreUp ∧ t.down.sunk = s.down.source ++ moreDown) := by
  have hinv := Splice.inv_run hrun
  refine ⟨Splice.faithful hinv.up, Splice.faithful hinv.down, Splice.result_ok, fun _ => Splice.result_error, ?_,
    hinv.can_finish⟩
  intro hover event
  simp [Splice.step, hover]

theorem splice_exact_half : ∃ s : Splice Unit, s.up.result = some (.ok ()) ∧ s.live = true ∧
    Splice.Faithful s.up := by
  have hrun := @splice_exact Unit
    [.down (.read (.ok [7, 8])), .up (.read (.ok [])), .up (.flush (.ok ())), .down (.write (.ok 1)),
      .up (.finish (.ok ()))] _ rfl
  exact ⟨_, rfl, rfl, hrun.1⟩

end Tightbeam
