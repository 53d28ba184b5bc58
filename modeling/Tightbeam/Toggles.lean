import Tightbeam.Enabled
import Tightbeam.Library.Runs
import Mathlib.Logic.Function.Basic

/-!
# Toggles while the list is read

A writer that replaces the file by rename or rewrites it in place, between the system calls of one load
and of the checks after it. No two bodies ever wear one stamp. What can go wrong is a rewrite between a
load's read of the body and its stat of the handle.
-/
namespace Tightbeam

open FileDisabledList

/-- A file on disk. Its length is that of its body. -/
structure DiskFile where
  mtime : SystemTime
  body : List UInt8
  deriving DecidableEq

namespace DiskFile

def stamp (file : DiskFile) : Stamp := (file.mtime, file.body.length)
def metadata (file : DiskFile) : Metadata := ⟨some file.mtime, file.body.length⟩
def text (file : DiskFile) : Except FileError String := readToString (.ok file.body)

@[simp] theorem metadata_stamp (file : DiskFile) : file.metadata.stamp = some file.stamp := rfl

end DiskFile

/-- Where the list's code stands: in a load, loaded, or in a check that has had its stat answered. -/
inductive ListPlace (D : Deps) where
  | opening
  | opened (inode : Nat)
  | bodyRead (inode : Nat) (text : String)
  | failed (error : DisabledListError)
  | idle (state : State D)
  | checking (state : State D) (asked now : Nat) (stat : Except FileError Metadata)

def ListPlace.ofLoad {D : Deps} : Except DisabledListError (State D) → ListPlace D
  | .ok state => idle state
  | .error error => failed error

/-- The files by inode, the one the path names, and every stamp a file has had. -/
structure ToggleWorld (D : Deps) where
  files : Nat → Option DiskFile
  path : Option Nat
  seen : Finset Stamp
  list : ListPlace D

inductive ToggleEvent where
  | replace (inode : Nat) (file : DiskFile)
  | rewrite (inode : Nat) (file : DiskFile)
  | remove
  | openList (refused : Option FileError)
  | readBody (refused : Option FileError)
  | statHandle (refused : Option FileError)
  | statPath (asked now : Nat) (refused : Option FileError)
  | readPath (refused : Option FileError)

/-- A system call's answer: what it finds, unless it is refused. -/
def syscall {α : Type} (refused : Option FileError) (found : Except FileError α) : Except FileError α :=
  match refused with
  | some error => .error error
  | none => found

namespace ToggleWorld

variable {D : Deps}

/-- A load about to open a path that names this file, or none. -/
def start (D : Deps) (file : Option DiskFile) : ToggleWorld D where
  files := fun inode => if inode = 0 then file else none
  path := file.map fun _ => 0
  seen := (file.map DiskFile.stamp).toList.toFinset
  list := .opening

def fileAt (world : ToggleWorld D) (inode : Nat) : Except FileError DiskFile :=
  match world.files inode with
  | some file => .ok file
  | none => .error .NotFound

def inodeAt (world : ToggleWorld D) : Except FileError Nat :=
  match world.path with
  | some inode => .ok inode
  | none => .error .NotFound

/-- The file the path names. -/
def current (world : ToggleWorld D) : Except FileError DiskFile := do
  let inode ← world.inodeAt
  world.fileAt inode

def put (world : ToggleWorld D) (inode : Nat) (file : DiskFile) : ToggleWorld D :=
  { world with
    files := Function.update world.files inode (some file)
    seen := insert file.stamp world.seen }

/-- One step of the writer or of the list's code. A check that asks for no read ignores the answer. -/
def step (world : ToggleWorld D) : ToggleEvent → Option (ToggleWorld D)
  | .replace inode file =>
    if world.files inode = none ∧ file.stamp ∉ world.seen then
      some { world.put inode file with path := some inode }
    else none
  | .rewrite inode file =>
    if world.files inode ≠ none ∧ file.stamp ∉ world.seen then some (world.put inode file) else none
  | .remove => some { world with path := none }
  | .openList refused =>
    match world.list with
    | .opening =>
      match syscall refused world.inodeAt with
      | .ok inode => some { world with list := .opened inode }
      | .error error => some { world with list := .ofLoad (load D (.error error)) }
    | _ => none
  | .readBody refused =>
    match world.list with
    | .opened inode =>
      match syscall refused (world.fileAt inode >>= DiskFile.text) with
      | .ok text => some { world with list := .bodyRead inode text }
      | .error error => some { world with list := .ofLoad (load D (.ok ⟨.error error, .error error⟩)) }
    | _ => none
  | .statHandle refused =>
    match world.list with
    | .bodyRead inode text =>
      let stat := syscall refused ((world.fileAt inode).map DiskFile.metadata)
      some { world with list := .ofLoad (load D (.ok ⟨.ok text, stat⟩)) }
    | _ => none
  | .statPath asked now refused =>
    match world.list with
    | .idle state =>
      let stat := syscall refused (world.current.map DiskFile.metadata)
      some { world with list := .checking state asked now stat }
    | _ => none
  | .readPath refused =>
    match world.list with
    | .checking state asked now stat =>
      let text := syscall refused (world.current >>= DiskFile.text)
      some { world with list := .idle (state.refresh ⟨asked, now, stat, text⟩) }
    | _ => none

/-- The path's file and its text, when it has one. -/
def Readable (world : ToggleWorld D) (file : DiskFile) (text : String) : Prop :=
  world.current = .ok file ∧ file.text = .ok text

/-- A loaded list answers a due check from the path's contents when no writer steps in between, and never
holds other contents under their stamp. -/
structure Current (world : ToggleWorld D) : Prop where
  answers : ∀ state file text, world.list = .idle state → world.Readable file text →
    ∀ asked now, state.Due asked → ∀ service,
      let checked := state.isEnabled ⟨asked, now, .ok file.metadata, .ok text⟩ service
      [.statPath asked now none, .readPath none].foldlM step world =
          some { world with list := .idle checked.2 } ∧
        checked.1 = decide (service ∉ parseNames D text)
  paired : ∀ state file text, world.list = .idle state → world.Readable file text →
    state.stamp = some file.stamp → state.disabled = parseNames D text

/-- As a load stats its handle, what the path names is another file than the opened one, or still has
the names that were read. -/
def Kept (world : ToggleWorld D) (event : ToggleEvent) : Prop :=
  ∀ inode text, event = .statHandle none → world.list = .bodyRead inode text →
    world.path = some inode → ∀ file found, world.Readable file found →
      parseNames D found = parseNames D text

/-- What ties a list to the files: its stamp was some file's, and wherever the path's file wears it the
names are that file's. -/
structure Tied (world : ToggleWorld D) (state : State D) : Prop where
  seen : ∀ stamp, state.stamp = some stamp → stamp ∈ world.seen
  paired : ∀ file text, world.Readable file text → state.stamp = some file.stamp →
    state.disabled = parseNames D text

def ListTied (world : ToggleWorld D) : Prop :=
  match world.list with
  | .idle state => world.Tied state
  | .checking state _ _ stat =>
    world.Tied state ∧ ∀ found stamp, stat = .ok found → found.stamp = some stamp → stamp ∈ world.seen
  | _ => True

structure Inv (world : ToggleWorld D) : Prop where
  stamped : ∀ inode file, world.files inode = some file → file.stamp ∈ world.seen
  distinct : ∀ inode other file found, world.files inode = some file → world.files other = some found →
    file.stamp = found.stamp → inode = other
  tied : world.ListTied

theorem fileAt_ok {world : ToggleWorld D} {inode : Nat} {file : DiskFile} :
    world.fileAt inode = .ok file ↔ world.files inode = some file := by
  unfold fileAt
  cases world.files inode <;> simp

theorem inodeAt_ok {world : ToggleWorld D} {inode : Nat} :
    world.inodeAt = .ok inode ↔ world.path = some inode := by
  unfold inodeAt
  cases world.path <;> simp

theorem current_ok {world : ToggleWorld D} {file : DiskFile} :
    world.current = .ok file ↔ ∃ inode, world.path = some inode ∧ world.files inode = some file := by
  simp only [current, Checked.bind_ok, inodeAt_ok, fileAt_ok]

theorem inv_start (file : Option DiskFile) : (start D file).Inv := by
  have hfiles : ∀ inode found, (start D file).files inode = some found → inode = 0 ∧ file = some found := by
    intro inode found h
    by_cases hzero : inode = 0
    · exact ⟨hzero, by simpa [start, hzero] using h⟩
    · simp [start, hzero] at h
  refine ⟨?_, ?_, trivial⟩
  · intro inode found h
    obtain ⟨-, rfl⟩ := hfiles inode found h
    simp [start]
  · intro inode other found found' h h' _
    rw [(hfiles inode found h).1, (hfiles other found' h').1]

theorem put_files {world : ToggleWorld D} {inode other : Nat} {file found : DiskFile}
    (h : (world.put inode file).files other = some found) :
    other = inode ∧ found = file ∨ other ≠ inode ∧ world.files other = some found := by
  by_cases hsame : other = inode
  · subst hsame
    have hfile : file = found := by simpa [put] using h
    exact .inl ⟨rfl, hfile.symm⟩
  · exact .inr ⟨hsame, by simpa [put, hsame] using h⟩

/-- A tie outlasts the writer: the path's file is as it was, or wears a stamp not seen before. -/
theorem Tied.written {world after : ToggleWorld D} {state : State D} (h : world.Tied state)
    (hseen : world.seen ⊆ after.seen)
    (hpath : ∀ file, after.current = .ok file → file.stamp ∉ world.seen ∨ world.current = .ok file) :
    after.Tied state := by
  constructor
  · intro stamp hstamp
    exact hseen (h.seen stamp hstamp)
  · intro file text hread hstamp
    rcases hpath file hread.1 with hfresh | hold
    · exact absurd (h.seen _ hstamp) hfresh
    · exact h.paired file text ⟨hold, hread.2⟩ hstamp

theorem ListTied.written {world after : ToggleWorld D} (h : world.ListTied)
    (hlist : after.list = world.list) (hseen : world.seen ⊆ after.seen)
    (hpath : ∀ file, after.current = .ok file → file.stamp ∉ world.seen ∨ world.current = .ok file) :
    after.ListTied := by
  unfold ListTied at h ⊢
  rw [hlist]
  cases hplace : world.list with
  | idle state =>
    rw [hplace] at h
    exact Tied.written h hseen hpath
  | checking state asked now stat =>
    rw [hplace] at h
    obtain ⟨htied, hstat⟩ := h
    refine ⟨htied.written hseen hpath, ?_⟩
    intro found stamp hok hstamp
    exact hseen (hstat found stamp hok hstamp)
  | _ => trivial

/-- A body written under a new stamp keeps the stamps of the files apart. -/
theorem Inv.put {world : ToggleWorld D} (h : world.Inv) {inode : Nat} {file : DiskFile}
    (hfresh : file.stamp ∉ world.seen) {path : Option Nat}
    (hpath : path = world.path ∨ path = some inode) :
    ({ world.put inode file with path := path } : ToggleWorld D).Inv := by
  let after : ToggleWorld D := { world.put inode file with path := path }
  have hseen : world.seen ⊆ after.seen := Finset.subset_insert _ _
  have hcurrent : ∀ found, after.current = .ok found →
      found.stamp ∉ world.seen ∨ world.current = .ok found := by
    intro found hfound
    obtain ⟨named, hnamed, hfile⟩ := current_ok.mp hfound
    rcases put_files hfile with ⟨-, rfl⟩ | ⟨hother, hold⟩
    · exact .inl hfresh
    · rcases hpath with rfl | rfl
      · exact .inr (current_ok.mpr ⟨named, hnamed, hold⟩)
      · exact absurd (Option.some.inj hnamed).symm hother
  refine ⟨?_, ?_, h.tied.written rfl hseen hcurrent⟩
  · intro other found hfound
    rcases put_files hfound with ⟨-, rfl⟩ | ⟨-, hold⟩
    · exact Finset.mem_insert_self _ _
    · exact hseen (h.stamped other found hold)
  · intro one other found found' hone hother hstamp
    rcases put_files hone with ⟨rfl, rfl⟩ | ⟨-, hold⟩ <;>
      rcases put_files hother with ⟨rfl, rfl⟩ | ⟨-, hold'⟩
    · rfl
    · exact absurd (hstamp ▸ h.stamped other found' hold') hfresh
    · exact absurd (hstamp ▸ h.stamped one found hold) hfresh
    · exact h.distinct one other found found' hold hold' hstamp

theorem Tied.absent (world : ToggleWorld D) {state : State D} (h : state.stamp = none) :
    world.Tied state := by
  constructor
  · intro stamp hstamp
    rw [h] at hstamp
    cases hstamp
  · intro file text _ hstamp
    rw [h] at hstamp
    cases hstamp

/-- What a load that has read this body makes of its handle's stat. -/
theorem load_text (text : String) (stat : Except FileError Metadata) :
    load D (.ok ⟨.ok text, stat⟩) = .ok ⟨parseNames D text, stat.toOption.bind Metadata.stamp, none⟩ := rfl

theorem load_tied {world : ToggleWorld D} {inode : Nat} {text : String} {refused : Option FileError}
    (h : world.Inv) (hlist : world.list = .bodyRead inode text) (hkept : world.Kept (.statHandle refused)) :
    world.Tied ⟨parseNames D text,
      (syscall refused ((world.fileAt inode).map DiskFile.metadata)).toOption.bind Metadata.stamp, none⟩ := by
  cases refused with
  | some error => exact Tied.absent world rfl
  | none =>
    cases hfile : world.files inode with
    | none =>
      apply Tied.absent
      simp [syscall, fileAt, hfile, Except.map, Except.toOption]
    | some file =>
      have hstat : (syscall none ((world.fileAt inode).map DiskFile.metadata)).toOption.bind Metadata.stamp =
          some file.stamp := by
        simp [syscall, fileAt, hfile, Except.map, Except.toOption]
      rw [hstat]
      constructor
      · intro stamp hstamp
        cases hstamp
        exact h.stamped inode file hfile
      · intro found names hread hstamp
        obtain ⟨named, hnamed, hfound⟩ := current_ok.mp hread.1
        have hsame : inode = named := h.distinct inode named file found hfile hfound (Option.some.inj hstamp)
        subst hsame
        exact (hkept inode text rfl hlist hnamed found names hread).symm

/-- A check leaves a tie behind: what it puts in place it read from the path's file. -/
theorem Tied.refresh {world : ToggleWorld D} {state : State D} (h : world.Tied state) (asked now : Nat)
    {stat : Except FileError Metadata}
    (hstat : ∀ found stamp, stat = .ok found → found.stamp = some stamp → stamp ∈ world.seen)
    (refused : Option FileError) :
    world.Tied (state.refresh ⟨asked, now, stat, syscall refused (world.current >>= DiskFile.text)⟩) := by
  have hcases := state.refreshed ⟨asked, now, stat, syscall refused (world.current >>= DiskFile.text)⟩
  generalize state.bodyRead _ = body at hcases
  generalize state.refresh _ = after at hcases ⊢
  cases hcases with
  | debounced => exact h
  | unseen => exact ⟨h.seen, h.paired⟩
  | unchanged => exact ⟨h.seen, h.paired⟩
  | unread => exact ⟨h.seen, h.paired⟩
  | @replaced found text hdue hfound hstamp htext =>
    constructor
    · intro stamp hnew
      exact hstat found stamp hfound hnew
    · intro file names hread _
      cases refused with
      | some error => cases htext
      | none =>
        have hsame : world.current >>= DiskFile.text = .ok text := htext
        rw [hread.1] at hsame
        have hnames : file.text = .ok text := hsame
        rw [hread.2] at hnames
        cases hnames
        rfl

theorem Inv.moved {world : ToggleWorld D} (h : world.Inv) {list : ListPlace D}
    (htied : ({ world with list := list } : ToggleWorld D).ListTied) :
    ({ world with list := list } : ToggleWorld D).Inv := ⟨h.stamped, h.distinct, htied⟩

theorem ofLoad_tied {world : ToggleWorld D} {loaded : Except DisabledListError (State D)}
    (h : ∀ state, loaded = .ok state → world.Tied state) :
    ({ world with list := .ofLoad loaded } : ToggleWorld D).ListTied := by
  cases loaded with
  | error error => trivial
  | ok state => exact ⟨(h state rfl).seen, (h state rfl).paired⟩

/-- A load that gets no body puts no stamp in place. -/
theorem load_refused {opened : Except FileError Handle} {state : State D}
    (hopened : ∀ file, opened = .ok file → ∃ error, file.text = .error error)
    (h : load D opened = .ok state) : state.stamp = none := by
  obtain ⟨⟨disabled, stamp⟩, hread, hstate⟩ := Checked.bind_ok.mp h
  cases Checked.pure_ok.mp hstate
  cases opened with
  | error error =>
    cases error <;> cases hread
    rfl
  | ok file =>
    obtain ⟨error, herror⟩ := hopened file rfl
    obtain ⟨text, htext, -⟩ := Checked.bind_ok.mp hread
    rw [Checked.mapError_ok, herror] at htext
    cases htext

/-- A stat of the path answers with a stamp that some file wore. -/
theorem Inv.stat_seen {world : ToggleWorld D} (h : world.Inv) {refused : Option FileError} {found : Metadata}
    {stamp : Stamp} (hfound : syscall refused (world.current.map DiskFile.metadata) = .ok found)
    (hstamp : found.stamp = some stamp) : stamp ∈ world.seen := by
  cases refused with
  | some error => cases hfound
  | none =>
    obtain ⟨file, hfile, rfl⟩ := Checked.map_ok.mp hfound
    obtain ⟨inode, -, hinode⟩ := current_ok.mp hfile
    cases hstamp
    exact h.stamped inode file hinode

theorem step_inv {world after : ToggleWorld D} {event : ToggleEvent} (h : world.Inv)
    (hkept : world.Kept event) (hstep : world.step event = some after) : after.Inv := by
  cases event with
  | replace inode file =>
    obtain ⟨⟨-, hfresh⟩, hafter⟩ := Option.ite_none_right_eq_some.mp hstep
    cases hafter
    exact h.put hfresh (.inr rfl)
  | rewrite inode file =>
    obtain ⟨⟨-, hfresh⟩, hafter⟩ := Option.ite_none_right_eq_some.mp hstep
    cases hafter
    exact h.put hfresh (.inl rfl)
  | remove =>
    cases hstep
    refine ⟨h.stamped, h.distinct, h.tied.written rfl (Finset.Subset.refl _) ?_⟩
    intro file hfile
    obtain ⟨inode, hnone, -⟩ := current_ok.mp hfile
    cases hnone
  | openList refused =>
    cases hlist : world.list with
    | opening =>
      simp only [step, hlist] at hstep
      cases hanswer : syscall refused world.inodeAt with
      | ok inode =>
        simp only [hanswer, Option.some.injEq] at hstep
        cases hstep
        exact h.moved trivial
      | error error =>
        simp only [hanswer, Option.some.injEq] at hstep
        cases hstep
        apply h.moved
        apply ofLoad_tied
        intro state hload
        exact Tied.absent world (load_refused (by simp) hload)
    | _ => simp [step, hlist] at hstep
  | readBody refused =>
    cases hlist : world.list with
    | opened inode =>
      simp only [step, hlist] at hstep
      cases hanswer : syscall refused (world.fileAt inode >>= DiskFile.text) with
      | ok text =>
        simp only [hanswer, Option.some.injEq] at hstep
        cases hstep
        exact h.moved trivial
      | error error =>
        simp only [hanswer, Option.some.injEq] at hstep
        cases hstep
        exact h.moved trivial
    | _ => simp [step, hlist] at hstep
  | statHandle refused =>
    cases hlist : world.list with
    | bodyRead inode text =>
      simp only [step, hlist, Option.some.injEq] at hstep
      cases hstep
      apply h.moved
      apply ofLoad_tied
      intro state hload
      rw [load_text] at hload
      cases hload
      exact load_tied h hlist hkept
    | _ => simp [step, hlist] at hstep
  | statPath asked now refused =>
    cases hlist : world.list with
    | idle state =>
      simp only [step, hlist, Option.some.injEq] at hstep
      cases hstep
      have htied : world.Tied state := by simpa [ListTied, hlist] using h.tied
      apply h.moved
      exact ⟨⟨htied.seen, htied.paired⟩, fun _ _ hfound hstamp => h.stat_seen hfound hstamp⟩
    | _ => simp [step, hlist] at hstep
  | readPath refused =>
    cases hlist : world.list with
    | checking state asked now stat =>
      simp only [step, hlist, Option.some.injEq] at hstep
      cases hstep
      have htied := h.tied
      simp only [ListTied, hlist] at htied
      have hafter := htied.1.refresh asked now htied.2 refused
      exact h.moved ⟨hafter.seen, hafter.paired⟩
    | _ => simp [step, hlist] at hstep

/-- A due check that is answered from one file holds that file's names, unless the list already wore
the file's stamp. -/
theorem refresh_due {state : State D} {asked : Nat} (hdue : state.Due asked) (now : Nat) (file : DiskFile)
    (text : String) :
    (state.refresh ⟨asked, now, .ok file.metadata, .ok text⟩).disabled =
      if state.stamp = some file.stamp then state.disabled else parseNames D text := by
  have hcases := state.refreshed ⟨asked, now, .ok file.metadata, .ok text⟩
  generalize state.bodyRead _ = body at hcases
  generalize state.refresh _ = after at hcases ⊢
  cases hcases with
  | debounced hnot => exact absurd hdue hnot
  | unseen _ hstat => cases hstat
  | unchanged _ hstat hsame =>
    cases hstat
    have hstamp : state.stamp = some file.stamp := hsame.symm
    rw [if_pos hstamp]
  | unread _ _ _ htext => cases htext
  | replaced _ hstat hnew htext =>
    cases hstat
    cases htext
    have hstamp : state.stamp ≠ some file.stamp := fun h => hnew h.symm
    rw [if_neg hstamp]

/-- A check that no writer steps into has both of its calls answered from one file. -/
theorem check_steps {world : ToggleWorld D} {state : State D} {file : DiskFile} {text : String}
    (hlist : world.list = .idle state) (hread : world.Readable file text) (asked now : Nat) :
    [.statPath asked now none, .readPath none].foldlM step world =
      some { world with list := .idle (state.refresh ⟨asked, now, .ok file.metadata, .ok text⟩) } := by
  obtain ⟨hcurrent, htext⟩ := hread
  have hstat : world.step (.statPath asked now none) =
      some { world with list := .checking state asked now (.ok file.metadata) } := by
    simp only [step, hlist, hcurrent]
    rfl
  have hfound : world.current >>= DiskFile.text = .ok text := by
    rw [hcurrent]
    exact htext
  rw [List.foldlM_cons, hstat, Option.bind_eq_bind, Option.bind_some, List.foldlM_cons]
  change some { world with list := .idle (state.refresh
    ⟨asked, now, .ok file.metadata, syscall none (world.current >>= DiskFile.text)⟩) } = _
  rw [hfound]
  rfl

theorem Inv.current {world : ToggleWorld D} (h : world.Inv) : world.Current := by
  have hpaired : ∀ state file text, world.list = .idle state → world.Readable file text →
      state.stamp = some file.stamp → state.disabled = parseNames D text := by
    intro state file text hlist hread hstamp
    have htied : world.Tied state := by simpa [ListTied, hlist] using h.tied
    exact htied.paired file text hread hstamp
  refine ⟨?_, hpaired⟩
  intro state file text hlist hread asked now hdue service
  have hnames : (state.refresh ⟨asked, now, .ok file.metadata, .ok text⟩).disabled = parseNames D text := by
    rw [refresh_due hdue]
    split
    · exact hpaired state file text hlist hread (by assumption)
    · rfl
  refine ⟨check_steps hlist hread asked now, ?_⟩
  simp only [State.isEnabled, hnames]

/-- A load whose stat misses a rewrite of its body holds old names under the new stamp. -/
theorem kept_of_current {world after : ToggleWorld D} {event : ToggleEvent}
    (hstep : world.step event = some after) (h : after.Current) : world.Kept event := by
  intro inode text hevent hlist hpath file found hread
  subst hevent
  simp only [step, hlist, Option.some.injEq] at hstep
  subst hstep
  obtain ⟨named, hnamed, hfile⟩ := current_ok.mp hread.1
  have hsame : named = inode := Option.some.inj (hnamed.symm.trans hpath)
  subst hsame
  have hstat : syscall none ((world.fileAt named).map DiskFile.metadata) = .ok file.metadata := by
    simp [syscall, fileAt, hfile, Except.map]
  have hpaired := h.paired ⟨parseNames D text, some file.stamp, none⟩ file found
    (by simp only [hstat]; rfl) hread rfl
  exact hpaired.symm

end ToggleWorld

open ToggleWorld

/-- Over any interleaving of a writer with one load and its checks, a loaded list always answers from the
path's contents and never holds others under their stamp, exactly when no load's stat of its handle
misses a rewrite that changed the names it had read. -/
theorem toggles_current_iff (D : Deps) (file : Option DiskFile) (events : List ToggleEvent)
    (last : ToggleWorld D) (hrun : events.foldlM step (start D file) = some last) :
    (∀ done rest world, events = done ++ rest → done.foldlM step (start D file) = some world →
      world.Current) ↔
    ∀ done event rest world, events = done ++ event :: rest →
      done.foldlM step (start D file) = some world → world.Kept event := by
  constructor
  · intro hcurrent done event rest world hsplit hworld
    have hwhole : ((done ++ [event]) ++ rest).foldlM step (start D file) = some last := by
      simpa [hsplit] using hrun
    obtain ⟨after, hafter, -⟩ := Runs.foldlM_begun hwhole
    have hstep : world.step event = some after := by
      rw [Runs.foldlM_snoc, hworld] at hafter
      exact hafter
    exact kept_of_current hstep (hcurrent (done ++ [event]) rest after (by simp [hsplit]) hafter)
  · intro hkept done rest world hsplit hworld
    have hinv : world.Inv := by
      apply Runs.foldlM_keeps_while (fun _ _ _ => step_inv) (inv_start file) hworld
      intro earlier event between middle hdone hmiddle
      exact hkept earlier event (between ++ rest) middle (by simp [hsplit, hdone]) hmiddle
    exact hinv.current

theorem toggles_current_iff_replaced :
    let D := Deps.small (Vector.replicate 32 0)
    let events : List ToggleEvent :=
      [.openList none, .replace 1 ⟨2, [120]⟩, .readBody none, .statHandle none]
    ∃ last, events.foldlM step (start D (some ⟨1, [121]⟩)) = some last ∧ last.Current := by
  intro D events
  have hrun : ∃ last, events.foldlM step (start D (some ⟨1, [121]⟩)) = some last :=
    Option.isSome_iff_exists.mp (by decide)
  obtain ⟨last, hlast⟩ := hrun
  have hiff := toggles_current_iff D (some ⟨1, [121]⟩) events last hlast
  refine ⟨last, hlast, hiff.mpr ?_ events [] last (List.append_nil events).symm hlast⟩
  intro done event rest world hsplit hworld inode text hevent hlist hpath
  subst hevent
  have hdone : done = [.openList none, .replace 1 ⟨2, [120]⟩, .readBody none] := by
    rcases done with _ | ⟨a, _ | ⟨b, _ | ⟨c, _ | ⟨d, more⟩⟩⟩⟩ <;> simp_all [events]
  subst hdone
  cases hworld
  cases hlist
  cases hpath

/-- A name written to the opened file after its empty body was read: no check finds it while the file
stays as it is. -/
theorem toggles_frozen :
    let D := Deps.small (Vector.replicate 32 0)
    let speed : D.Service := ⟨"speed", rfl⟩
    let file : DiskFile := ⟨2, Octets.utf8 "speed"⟩
    let events : List ToggleEvent := [.openList none, .readBody none, .rewrite 0 file, .statHandle none]
    ∃ world state, events.foldlM step (start D (some ⟨1, []⟩)) = some world ∧ world.list = .idle state ∧
      world.Readable file "speed" ∧ speed ∈ parseNames D "speed" ∧
      ∀ asked now, (state.isEnabled ⟨asked, now, .ok file.metadata, .ok "speed"⟩ speed).1 = true := by
  intro D speed file events
  refine ⟨_, ⟨∅, some file.stamp, none⟩, rfl, rfl, ?_, by decide, ?_⟩
  · exact ⟨rfl, by decide⟩
  · intro asked now
    have hstate : (State.refresh ⟨∅, some file.stamp, none⟩
        ⟨asked, now, .ok file.metadata, .ok "speed"⟩ : State D).disabled = ∅ := by
      rw [refresh_due (by simp [State.Due]), if_pos rfl]
    simp only [State.isEnabled, hstate]
    rfl

end Tightbeam
