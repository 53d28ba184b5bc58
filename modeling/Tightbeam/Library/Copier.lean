import Tightbeam.Library.Runs

/-!
# A copy through a bounded buffer

A copy reads what its buffer has room for, writes what the buffer holds, and is done once its source has
ended and everything is written and flushed; then it finishes its writer. What the source gives, what the
writer takes and where either one fails are events, so that any readers and writers at all are some run.
-/
namespace Copier

/-- Why a copy failed: the reader or the writer did, or the writer took nothing. -/
inductive Error (ε : Type) where
  | Io (error : ε)
  | WriteZero
  deriving DecidableEq

inductive Phase (ε : Type) where
  | Copying
  | Finishing
  | Done (result : Except (Error ε) Unit)

/-- A read that gave nothing is the end of the source. -/
inductive Event (α ε : Type) where
  | read (got : Except ε (List α))
  | write (took : Except ε Nat)
  | flush (polled : Except ε Unit)
  | finish (polled : Except ε Unit)

/-- A read that gave something. -/
def Event.gives {α ε : Type} : Event α ε → Bool
  | .read (.ok items) => !items.isEmpty
  | _ => false

end Copier

/-- A copy under way. `source` is all that was read and `sunk` all that was written. -/
structure Copier (α ε : Type) where
  source : List α
  held : List α
  sunk : List α
  ended : Bool
  flushed : Bool
  phase : Copier.Phase ε

namespace Copier

variable {α ε : Type}

def new : Copier α ε := ⟨[], [], [], false, true, .Copying⟩

def fail (p : Copier α ε) (error : Error ε) : Copier α ε := { p with phase := .Done (.error error) }

def result (p : Copier α ε) : Option (Except (Error ε) Unit) :=
  match p.phase with
  | .Done result => some result
  | _ => none

/-- The source gave this much: nothing, at its end. -/
def take (p : Copier α ε) (items : List α) : Copier α ε :=
  { p with source := p.source ++ items, held := p.held ++ items, ended := items.isEmpty }

/-- The writer took this much of what is held. -/
def put (p : Copier α ε) (n : Nat) : Copier α ε :=
  { p with sunk := p.sunk ++ p.held.take n, held := p.held.drop n, flushed := false }

/-- One poll of a copy whose buffer is this large, where there is such a poll. -/
def step (size : Nat) (p : Copier α ε) (event : Event α ε) : Option (Copier α ε) :=
  match p.phase, event with
  | .Copying, .read got =>
    if p.ended = false ∧ p.held.length < size then
      match got with
      | .ok items => if p.held.length + items.length ≤ size then some (p.take items) else none
      | .error error => some (p.fail (.Io error))
    else none
  | .Copying, .write took =>
    if p.held = [] then none
    else match took with
      | .ok 0 => some (p.fail .WriteZero)
      | .ok n => if n ≤ p.held.length then some (p.put n) else none
      | .error error => some (p.fail (.Io error))
  | .Copying, .flush polled =>
    -- Also while the source has nothing yet, so that a reader which waits on the writer is not starved.
    if p.held = [] then
      match polled with
      | .ok _ => some { p with flushed := true, phase := if p.ended then .Finishing else .Copying }
      | .error error => some (p.fail (.Io error))
    else none
  | .Finishing, .finish polled =>
    match polled with
    | .ok _ => some { p with phase := .Done (.ok ()) }
    | .error error => some (p.fail (.Io error))
  | _, _ => none

variable {size : Nat} {p p' : Copier α ε} {event : Event α ε}

/-- Everything a poll can do. -/
inductive Moves (size : Nat) (p : Copier α ε) : Copier α ε → Prop where
  | took (items : List α) (hphase : p.phase = .Copying) (hopen : p.ended = false)
      (hroom : p.held.length + items.length ≤ size) : Moves size p (p.take items)
  | put (n : Nat) (hphase : p.phase = .Copying) (hpos : 0 < n) (hheld : n ≤ p.held.length) :
      Moves size p (p.put n)
  | flushed (hphase : p.phase = .Copying) (hheld : p.held = []) :
      Moves size p { p with flushed := true, phase := if p.ended then .Finishing else .Copying }
  | finished (hphase : p.phase = .Finishing) : Moves size p { p with phase := .Done (.ok ()) }
  | failed (error : Error ε) (hlive : p.result = none) : Moves size p (p.fail error)

theorem result_copying (h : p.phase = .Copying) : p.result = none := by
  rw [result, h]

theorem result_finishing (h : p.phase = .Finishing) : p.result = none := by
  rw [result, h]

theorem step_moves (h : p.step size event = some p') : Moves size p p' := by
  unfold step at h
  split at h
  · rename_i got hphase
    split at h
    · rename_i hguard
      split at h
      · rename_i items
        split at h
        · rename_i hroom
          cases h
          exact .took items hphase hguard.1 hroom
        · cases h
      · cases h
        exact .failed _ (result_copying hphase)
    · cases h
  · rename_i took hphase
    split at h
    · cases h
    · split at h
      · cases h
        exact .failed _ (result_copying hphase)
      · rename_i n hzero
        split at h
        · rename_i hheld
          cases h
          exact .put n hphase (Nat.pos_of_ne_zero fun heq => hzero (by rw [heq])) hheld
        · cases h
      · cases h
        exact .failed _ (result_copying hphase)
  · rename_i polled hphase
    split at h
    · rename_i hheld
      split at h
      · cases h
        exact .flushed hphase hheld
      · cases h
        exact .failed _ (result_copying hphase)
    · cases h
  · rename_i polled hphase
    split at h
    · cases h
      exact .finished hphase
    · cases h
      exact .failed _ (result_finishing hphase)
  · cases h

/-- Only a read adds to what was read, or sees its end. -/
theorem step_source (h : p.step size event = some p') :
    (∃ items, event = .read (.ok items) ∧ p.ended = false ∧ p' = p.take items) ∨
      p'.source = p.source ∧ p'.ended = p.ended := by
  unfold step at h
  split at h
  · split at h
    · rename_i hguard
      split at h
      · rename_i items
        split at h
        · cases h
          exact .inl ⟨items, rfl, hguard.1, rfl⟩
        · cases h
      · cases h
        exact .inr ⟨rfl, rfl⟩
    · cases h
  · split at h
    · cases h
    · split at h
      · cases h
        exact .inr ⟨rfl, rfl⟩
      · split at h
        · cases h
          exact .inr ⟨rfl, rfl⟩
        · cases h
      · cases h
        exact .inr ⟨rfl, rfl⟩
  · split at h
    · split at h
      · cases h
        exact .inr ⟨rfl, rfl⟩
      · cases h
        exact .inr ⟨rfl, rfl⟩
    · cases h
  · split at h
    · cases h
      exact .inr ⟨rfl, rfl⟩
    · cases h
      exact .inr ⟨rfl, rfl⟩
  · cases h

/-- A copy reads while it is copying, has not seen the end and has room. -/
theorem read_open {got : Except ε (List α)} (h : p.step size (.read got) = some p') :
    p.phase = .Copying ∧ p.ended = false ∧ p.held.length < size := by
  cases hphase : p.phase with
  | Copying =>
    simp only [step, hphase, Option.ite_none_right_eq_some] at h
    exact ⟨rfl, h.1⟩
  | Finishing => simp [step, hphase] at h
  | Done outcome => simp [step, hphase] at h

theorem read_fits {items : List α} (h : p.step size (.read (.ok items)) = some p') :
    p.held.length + items.length ≤ size ∧ p' = p.take items := by
  obtain ⟨hphase, hopen⟩ := read_open h
  simp only [step, hphase, if_pos hopen, Option.ite_none_right_eq_some, Option.some.injEq] at h
  exact ⟨h.1, h.2.symm⟩

theorem step_read {items : List α} (h : p.step size (.read (.ok items)) = some p') : p' = p.take items :=
  (read_fits h).2

theorem read_fails {error : ε} (h : p.step size (.read (.error error)) = some p') : p' = p.fail (.Io error) := by
  obtain ⟨hphase, hopen⟩ := read_open h
  simp only [step, hphase, if_pos hopen, Option.some.injEq] at h
  exact h.symm

theorem source_of_silent (hgives : event.gives = false) (h : p.step size event = some p') :
    p'.source = p.source := by
  rcases step_source h with ⟨items, rfl, hopen, rfl⟩ | ⟨hsource, -⟩
  · have hnil : items = [] := by simpa [Event.gives] using hgives
    simp [take, hnil]
  · exact hsource

theorem step_grows (h : p.step size event = some p') :
    p.source <+: p'.source ∧ (p.ended = true → p'.source = p.source ∧ p'.ended = true) := by
  rcases step_source h with ⟨items, rfl, hopen, rfl⟩ | ⟨hsource, hended⟩
  · refine ⟨List.prefix_append _ _, fun hended => ?_⟩
    rw [hopen] at hended
    cases hended
  · rw [hsource, hended]
    exact ⟨List.prefix_rfl, fun hended => ⟨rfl, hended⟩⟩

/-- What was read stays read, and after the end there is no more. -/
theorem run_grows {events : List (Event α ε)} (hrun : events.foldlM (Copier.step size) p = some p') :
    p.source <+: p'.source ∧ (p.ended = true → p'.source = p.source ∧ p'.ended = true) := by
  induction events generalizing p with
  | nil =>
    cases hrun
    exact ⟨List.prefix_rfl, fun hended => ⟨rfl, hended⟩⟩
  | cons event events ih =>
    rw [List.foldlM_cons] at hrun
    obtain ⟨q, hq, hrest⟩ := Option.bind_eq_some_iff.mp hrun
    obtain ⟨hgrows, hended⟩ := step_grows hq
    obtain ⟨hgrows', hended'⟩ := ih hrest
    refine ⟨hgrows.trans hgrows', fun hover => ?_⟩
    obtain ⟨hsame, hover'⟩ := hended hover
    rw [← hsame]
    exact hended' hover'

/-- A copy that is over stays as it is. -/
theorem run_over {outcome : Except (Error ε) Unit} (hover : p.result = some outcome) {events : List (Event α ε)}
    (hrun : events.foldlM (Copier.step size) p = some p') : p' = p := by
  cases events with
  | nil =>
    cases hrun
    rfl
  | cons event events =>
    rw [List.foldlM_cons] at hrun
    obtain ⟨q, hq, -⟩ := Option.bind_eq_some_iff.mp hrun
    cases hphase : p.phase with
    | Copying => simp [result, hphase] at hover
    | Finishing => simp [result, hphase] at hover
    | Done outcome => simp [Copier.step, hphase] at hq

theorem Moves.sunk_grows (h : Moves size p p') : p.sunk <+: p'.sunk := by
  cases h with
  | put n hphase hpos hheld => exact List.prefix_append _ _
  | took items hphase hopen hroom => exact List.prefix_rfl
  | flushed hphase hheld => exact List.prefix_rfl
  | finished hphase => exact List.prefix_rfl
  | failed error hlive => exact List.prefix_rfl

theorem Moves.live (h : Moves size p p') : p.result = none := by
  cases h with
  | took items hphase hopen hroom => exact result_copying hphase
  | put n hphase hpos hheld => exact result_copying hphase
  | flushed hphase hheld => exact result_copying hphase
  | finished hphase => exact result_finishing hphase
  | failed error hlive => exact hlive

/-- The source has ended, and all of it was written and flushed. -/
structure Copied (p : Copier α ε) : Prop where
  ended : p.ended = true
  sunk : p.sunk = p.source
  flushed : p.flushed = true

/-- What a copy keeps: what was read and is not written is held, and the writer is finished after the end
only. -/
structure Inv (size : Nat) (p : Copier α ε) : Prop where
  carried : p.source = p.sunk ++ p.held
  bounded : p.held.length ≤ size
  finishing : p.phase = .Finishing → p.Copied
  done : p.result = some (.ok ()) → p.Copied

theorem inv_new : Inv size (new : Copier α ε) where
  carried := rfl
  bounded := Nat.zero_le _
  finishing := by
    intro h
    cases h
  done := by
    intro h
    cases h

theorem Inv.moves (h : Inv size p) (hmoves : Moves size p p') : Inv size p' := by
  cases hmoves with
  | took items hphase hopen hroom =>
    have hlive : (p.take items).result = none := result_copying hphase
    refine ⟨?_, by simpa [take] using hroom, fun hfinishing => ?_, fun hdone => ?_⟩
    · simp only [take, h.carried, List.append_assoc]
    · cases hphase.symm.trans hfinishing
    · cases hlive.symm.trans hdone
  | put n hphase hpos hheld =>
    have hlive : (p.put n).result = none := result_copying hphase
    refine ⟨?_, ?_, fun hfinishing => ?_, fun hdone => ?_⟩
    · simp only [Copier.put, List.append_assoc, List.take_append_drop]
      exact h.carried
    · have hbounded := h.bounded
      simp only [Copier.put, List.length_drop]
      omega
    · cases hphase.symm.trans hfinishing
    · cases hlive.symm.trans hdone
  | flushed hphase hheld =>
    have hsunk : p.sunk = p.source := by rw [h.carried, hheld, List.append_nil]
    refine ⟨h.carried, h.bounded, fun hfinishing => ?_, fun hdone => ?_⟩
    · cases hended : p.ended with
      | true => exact ⟨rfl, hsunk, rfl⟩
      | false => simp [hended] at hfinishing
    · cases hended : p.ended <;> simp [result, hended] at hdone
  | finished hphase =>
    have hcopied := h.finishing hphase
    refine ⟨h.carried, h.bounded, fun hfinishing => ?_, fun _ => ⟨hcopied.ended, hcopied.sunk, hcopied.flushed⟩⟩
    cases hfinishing
  | failed error hlive =>
    refine ⟨h.carried, h.bounded, fun hfinishing => ?_, fun hdone => ?_⟩
    · cases hfinishing
    · cases hdone

theorem Inv.step (h : Inv size p) (hstep : p.step size event = some p') : Inv size p' := h.moves (step_moves hstep)

/-- What was written stays written, and begins what was read. -/
theorem Inv.sunk_begins (h : Inv size p) : p.sunk <+: p.source := by
  rw [h.carried]
  exact List.prefix_append _ _

section Progress

variable {allowed : Event α ε → Prop} {q : Copier α ε}

/-- Some run of such polls leads from one copy to the other. -/
def Leads (size : Nat) (allowed : Event α ε → Prop) (p q : Copier α ε) : Prop :=
  ∃ events : List (Event α ε), (∀ event ∈ events, allowed event) ∧ events.foldlM (Copier.step size) p = some q

theorem Leads.refl : Leads size allowed p p := by
  refine ⟨[], fun event hmem => ?_, rfl⟩
  cases hmem

theorem Leads.step (hallowed : allowed event) (hstep : p.step size event = some p')
    (h : Leads size allowed p' q) : Leads size allowed p q := by
  obtain ⟨events, hevents, hrun⟩ := h
  refine ⟨event :: events, fun other hmem => ?_, ?_⟩
  · rcases List.mem_cons.mp hmem with rfl | hmem
    · exact hallowed
    · exact hevents other hmem
  · rw [List.foldlM_cons, hstep]
    exact hrun

theorem Leads.trans (h : Leads size allowed p p') (h' : Leads size allowed p' q) : Leads size allowed p q := by
  obtain ⟨events, hevents, hrun⟩ := h
  obtain ⟨more, hmore, hlast⟩ := h'
  refine ⟨events ++ more, fun event hmem => ?_, ?_⟩
  · rcases List.mem_append.mp hmem with hmem | hmem
    · exact hevents event hmem
    · exact hmore event hmem
  · rw [List.foldlM_append, hrun]
    exact hlast

/-- A copy that holds nothing and could go on. -/
structure Ready (p : Copier α ε) : Prop where
  phase : p.phase = .Copying
  held : p.held = []

/-- The writer can take all that is held. -/
theorem leads_ready (size : Nat) (hquiet : ∀ event : Event α ε, event.gives = false → allowed event)
    (hphase : p.phase = .Copying) :
    ∃ q : Copier α ε, Leads size allowed p q ∧ q.Ready ∧ q.source = p.source ∧ q.ended = p.ended := by
  by_cases hheld : p.held = []
  · exact ⟨p, .refl, ⟨hphase, hheld⟩, rfl, rfl⟩
  · obtain ⟨n, hn⟩ := Nat.exists_eq_succ_of_ne_zero (fun h => hheld (List.length_eq_zero_iff.mp h))
    have hstep : p.step size (.write (.ok (n + 1))) = some (p.put (n + 1)) := by
      simp [step, hphase, hheld, hn]
    exact ⟨_, .step (hquiet _ rfl) hstep .refl, ⟨hphase, by simp [Copier.put, hn]⟩, rfl, rfl⟩

/-- Whatever the source still has, it can be read and written, an item at a time. -/
theorem leads_more (hsize : 0 < size) (hquiet : ∀ event : Event α ε, event.gives = false → allowed event)
    (more : List α) (hmore : ∀ item ∈ more, allowed (.read (.ok [item]))) (hready : p.Ready)
    (hopen : p.ended = false) :
    ∃ q : Copier α ε, Leads size allowed p q ∧ q.Ready ∧ q.source = p.source ++ more ∧ q.ended = false := by
  induction more generalizing p with
  | nil => exact ⟨p, .refl, hready, by rw [List.append_nil], hopen⟩
  | cons item more ih =>
    have hread : p.step size (.read (.ok [item])) = some (p.take [item]) := by
      have hroom : 1 ≤ size := hsize
      simp [step, hready.phase, hready.held, hopen, hsize, hroom]
    have hwrite : (p.take [item]).step size (.write (.ok 1)) = some ((p.take [item]).put 1) := by
      simp [step, take, hready.phase, hready.held]
    have hheld : ((p.take [item]).put 1).Ready :=
      ⟨hready.phase, by simp [take, Copier.put, hready.held]⟩
    obtain ⟨q, hleads, hq, hsource, hended⟩ :=
      ih (fun other hmem => hmore other (List.mem_cons_of_mem item hmem)) hheld rfl
    refine ⟨q, .step (hmore item List.mem_cons_self) hread (.step (hquiet _ rfl) hwrite hleads), hq, ?_, hended⟩
    rw [hsource]
    simp [take, Copier.put, List.append_assoc]

theorem leads_done (size : Nat) (hquiet : ∀ event : Event α ε, event.gives = false → allowed event)
    (hready : p.Ready) (hended : p.ended = true) :
    ∃ q : Copier α ε, Leads size allowed p q ∧ q.result = some (.ok ()) ∧ q.source = p.source := by
  have hflush : p.step size (.flush (.ok ())) = some { p with flushed := true, phase := .Finishing } := by
    simp [step, hready.phase, hready.held, hended]
  obtain ⟨q, hq⟩ : ∃ q : Copier α ε, q = { p with flushed := true, phase := .Finishing } := ⟨_, rfl⟩
  have hfinish : q.step size (.finish (.ok ())) = some { q with phase := .Done (.ok ()) } := by
    rw [hq]
    rfl
  rw [← hq] at hflush
  refine ⟨_, .step (hquiet _ rfl) hflush (.step (hquiet _ rfl) hfinish .refl), rfl, ?_⟩
  rw [hq]

theorem Inv.leads (h : Inv size p) (hleads : Leads size allowed p q) : Inv size q := by
  obtain ⟨events, -, hrun⟩ := hleads
  exact Runs.foldlM_keeps (fun _ _ _ hinv hstep => hinv.step hstep) h hrun

/-- Whatever the source of a copy still has can be written, and no more is read than that. -/
theorem Inv.leads_written (allowed : Event α ε → Prop) (h : Inv size p) (hsize : 0 < size)
    (hquiet : ∀ event : Event α ε, event.gives = false → allowed event) (hlive : p.result = none) (more : List α)
    (hmore : ∀ item ∈ more, allowed (.read (.ok [item]))) (hopen : p.ended = false) :
    ∃ q : Copier α ε, Leads size allowed p q ∧ q.Ready ∧ q.source = p.source ++ more ∧ q.ended = false := by
  cases hphase : p.phase with
  | Done outcome => simp [result, hphase] at hlive
  | Finishing => cases hopen.symm.trans (h.finishing hphase).ended
  | Copying =>
    obtain ⟨q, hleads, hq, hsource, hsame⟩ := leads_ready size hquiet hphase
    obtain ⟨t, ht, htready, htsource, htopen⟩ := leads_more hsize hquiet more hmore hq (hsame.trans hopen)
    exact ⟨t, hleads.trans ht, htready, by rw [htsource, hsource], htopen⟩

/-- And then the copy can end well. -/
theorem Inv.leads_done (allowed : Event α ε → Prop) (h : Inv size p) (hsize : 0 < size)
    (hquiet : ∀ event : Event α ε, event.gives = false → allowed event) (hlive : p.result = none) (more : List α)
    (hmore : ∀ item ∈ more, allowed (.read (.ok [item]))) (hended : p.ended = true → more = []) :
    ∃ q : Copier α ε, Leads size allowed p q ∧ q.result = some (.ok ()) ∧ q.sunk = p.source ++ more := by
  suffices hsuffices : ∃ q : Copier α ε, Leads size allowed p q ∧ q.result = some (.ok ()) ∧
      q.source = p.source ++ more by
    obtain ⟨q, hleads, hdone, hsource⟩ := hsuffices
    exact ⟨q, hleads, hdone, ((h.leads hleads).done hdone).sunk.trans hsource⟩
  cases hopen : p.ended with
  | false =>
    obtain ⟨t, ht, htready, htsource, htopen⟩ := h.leads_written allowed hsize hquiet hlive more hmore hopen
    have hend : t.step size (.read (.ok [])) = some (t.take []) := by
      simp [Copier.step, htready.phase, htready.held, htopen, hsize]
    have hready : (t.take []).Ready := ⟨htready.phase, by simp [take, htready.held]⟩
    obtain ⟨u, hu, hdone, hlast⟩ := Copier.leads_done size hquiet hready rfl
    refine ⟨u, ht.trans (.step (hquiet _ rfl) hend hu), hdone, ?_⟩
    rw [hlast, ← htsource]
    simp [take]
  | true =>
    rw [hended hopen, List.append_nil]
    cases hphase : p.phase with
    | Done outcome => simp [result, hphase] at hlive
    | Finishing =>
      have hstep : p.step size (.finish (.ok ())) = some { p with phase := .Done (.ok ()) } := by
        simp [Copier.step, hphase]
      exact ⟨_, .step (hquiet _ rfl) hstep .refl, rfl, rfl⟩
    | Copying =>
      obtain ⟨q, hleads, hq, hsource, hsame⟩ := leads_ready size hquiet hphase
      obtain ⟨t, ht, hdone, hlast⟩ := Copier.leads_done size hquiet hq (hsame.trans hopen)
      exact ⟨t, hleads.trans ht, hdone, hlast.trans hsource⟩

/-- A copy that has not failed can write whatever its source still has, and end well or go on, as the source
does. -/
theorem Inv.leads_on (h : Inv size p) (hsize : 0 < size) (hfine : ∀ error, p.result ≠ some (.error error))
    (more : List α) (last : Bool) (hmore : p.ended = true → more = [] ∧ last = true) :
    ∃ q : Copier α ε, Leads size (fun _ => True) p q ∧ q.source = p.source ++ more ∧ q.sunk = q.source ∧
      q.ended = last ∧ q.result = if last then some (.ok ()) else none := by
  cases hlive : p.result with
  | some outcome =>
    cases outcome with
    | error error => exact absurd hlive (hfine error)
    | ok _ =>
      have hcopied := h.done hlive
      obtain ⟨rfl, rfl⟩ := hmore hcopied.ended
      exact ⟨p, .refl, (List.append_nil _).symm, hcopied.sunk, hcopied.ended, hlive⟩
  | none =>
    cases last with
    | true =>
      obtain ⟨q, hleads, hdone, hsunk⟩ := h.leads_done (fun _ => True) hsize (fun _ _ => trivial) hlive more
        (fun _ _ => trivial) (fun hended => (hmore hended).1)
      have hcopied := (h.leads hleads).done hdone
      exact ⟨q, hleads, hcopied.sunk.symm.trans hsunk, hcopied.sunk, hcopied.ended, hdone⟩
    | false =>
      have hopen : p.ended = false := by
        cases hopen : p.ended with
        | false => rfl
        | true => cases (hmore hopen).2
      obtain ⟨q, hleads, hready, hsource, hopen⟩ := h.leads_written (fun _ => True) hsize (fun _ _ => trivial)
        hlive more (fun _ _ => trivial) hopen
      have hcarried := (h.leads hleads).carried
      rw [hready.held, List.append_nil] at hcarried
      exact ⟨q, hleads, hsource, hcarried.symm, hopen, result_copying hready.phase⟩

end Progress

end Copier
