import Tightbeam.Library.Checked
import Tightbeam.Library.Texts
import Tightbeam.Nauthy

/-!
# The list of disabled names

The file-backed list a gate consults per stream: what a load makes of an opened file, and what a check
does with a clock, a stat and a read. A check makes its system calls one by one and each may be answered
in any way, so the answers are arguments: the file may be another one at each of them.
-/
namespace Tightbeam

open Octets

/-- What the file system refuses with. Only whether nothing was there is asked of it. -/
inductive FileError where
  | NotFound
  | InvalidData
  | other (errno : Int)
  deriving DecidableEq, Repr

/-- A stat's answer. A platform may report no modification time. -/
structure Metadata where
  modified : Option SystemTime
  len : Nat
  deriving DecidableEq

abbrev Stamp := SystemTime × Nat

def Metadata.stamp (stat : Metadata) : Option Stamp := stat.modified.map fun mtime => (mtime, stat.len)

/-- A whole body as the standard library reads one to a string. -/
def readToString (body : Except FileError (List UInt8)) : Except FileError String :=
  match body with
  | .error error => .error error
  | .ok octets =>
    match fromUtf8? octets with
    | some text => .ok text
    | none => .error .InvalidData

/-- Nanoseconds. -/
def statDebounce : Nat := 100000000

namespace FileDisabledList

/-- A name per line, trimmed. A line that is no name is dropped. -/
def parseNames (D : Deps) (text : String) : Finset D.Service :=
  ((((Texts.lines text).map Texts.trim).filter fun line => line ≠ "").filterMap fun line =>
    (parseService D line).toOption).toFinset

structure State (D : Deps) where
  disabled : Finset D.Service
  stamp : Option Stamp
  lastStat : Option Nat

/-- An opened file, as its handle answers: the read of its body, then its stat. -/
structure Handle where
  text : Except FileError String
  stat : Except FileError Metadata

inductive DisabledListError where
  | Io (error : FileError)
  deriving DecidableEq, Repr

def readNamesFrom (D : Deps) (file : Handle) :
    Except DisabledListError (Finset D.Service × Option Stamp) := do
  let text ← file.text.mapError .Io
  pure (parseNames D text, file.stat.toOption.bind Metadata.stamp)

def readNames (D : Deps) (opened : Except FileError Handle) :
    Except DisabledListError (Finset D.Service × Option Stamp) :=
  match opened with
  | .ok file => readNamesFrom D file
  | .error .NotFound => .ok (∅, none)
  | .error error => .error (.Io error)

def load (D : Deps) (opened : Except FileError Handle) : Except DisabledListError (State D) := do
  let (disabled, stamp) ← readNames D opened
  pure ⟨disabled, stamp, none⟩

/-- The answers one check gets: the clock as it asks how long ago the last stat was, the clock as it
notes this one, the stat, and the read that may follow. -/
structure Answers where
  asked : Nat
  now : Nat
  stat : Except FileError Metadata
  text : Except FileError String

variable {D : Deps}

namespace State

/-- The last stat is not within the debounce. -/
def Due (state : State D) (asked : Nat) : Prop :=
  ∀ last, state.lastStat = some last → ¬ asked - last < statDebounce

instance (state : State D) (asked : Nat) : Decidable (state.Due asked) :=
  match h : state.lastStat with
  | none => .isTrue (by simp [Due, h])
  | some last => decidable_of_iff (¬ asked - last < statDebounce) (by simp [Due, h])

def refresh (state : State D) (answers : Answers) : State D :=
  if state.lastStat.any fun last => decide (answers.asked - last < statDebounce) then state
  else
    let state := { state with lastStat := some answers.now }
    match answers.stat with
    | .error _ => state
    | .ok stat =>
      let current := stat.stamp
      if current = state.stamp then state
      else
        match answers.text with
        | .error _ => state
        | .ok text => { state with disabled := parseNames D text, stamp := current }

/-- Whether a name is enabled, by the list as the check's own refresh left it. -/
def isEnabled (state : State D) (answers : Answers) (service : D.Service) : Bool × State D :=
  (decide (service ∉ (state.refresh answers).disabled), state.refresh answers)

/-- The body a check reads, when it comes to a read and the read is answered. -/
def bodyRead (state : State D) (answers : Answers) : Option String :=
  if state.Due answers.asked then
    match answers.stat with
    | .error _ => none
    | .ok stat => if stat.stamp = state.stamp then none else answers.text.toOption
  else none

/-- Every way a check can go. -/
inductive Refreshed (state : State D) (answers : Answers) : Option String → State D → Prop
  | debounced : ¬ state.Due answers.asked → Refreshed state answers none state
  | unseen {error : FileError} : state.Due answers.asked → answers.stat = .error error →
      Refreshed state answers none { state with lastStat := some answers.now }
  | unchanged {stat : Metadata} : state.Due answers.asked → answers.stat = .ok stat →
      stat.stamp = state.stamp → Refreshed state answers none { state with lastStat := some answers.now }
  | unread {stat : Metadata} {error : FileError} : state.Due answers.asked → answers.stat = .ok stat →
      stat.stamp ≠ state.stamp → answers.text = .error error →
      Refreshed state answers none { state with lastStat := some answers.now }
  | replaced {stat : Metadata} {text : String} : state.Due answers.asked → answers.stat = .ok stat →
      stat.stamp ≠ state.stamp → answers.text = .ok text →
      Refreshed state answers (some text) ⟨parseNames D text, stat.stamp, some answers.now⟩

theorem due_iff (state : State D) (asked : Nat) :
    state.Due asked ↔ (state.lastStat.any fun last => decide (asked - last < statDebounce)) = false := by
  cases hlast : state.lastStat with
  | none => simp [Due, hlast]
  | some last => simp [Due, hlast]

theorem refreshed (state : State D) (answers : Answers) :
    Refreshed state answers (state.bodyRead answers) (state.refresh answers) := by
  by_cases hdue : state.Due answers.asked
  · have hany := (state.due_iff answers.asked).mp hdue
    simp only [bodyRead, refresh, hdue, hany, if_true, Bool.false_eq_true, if_false]
    cases hstat : answers.stat with
    | error error => exact .unseen hdue hstat
    | ok stat =>
      by_cases hsame : stat.stamp = state.stamp
      · simpa only [hsame, if_true] using .unchanged hdue hstat hsame
      · simp only [hsame, if_false]
        cases htext : answers.text with
        | error error => exact .unread hdue hstat hsame htext
        | ok text => exact .replaced hdue hstat hsame htext
  · have hany : (state.lastStat.any fun last => decide (answers.asked - last < statDebounce)) = true := by
      simpa [due_iff] using hdue
    simp only [bodyRead, refresh, hdue, hany, if_true, if_false]
    exact .debounced hdue

theorem refresh_disabled (state : State D) (answers : Answers) :
    (state.refresh answers).disabled = (state.bodyRead answers).elim state.disabled (parseNames D) := by
  have hcases := state.refreshed answers
  generalize state.bodyRead answers = body at hcases ⊢
  generalize state.refresh answers = after at hcases ⊢
  cases hcases <;> rfl

/-- A check that reads nothing leaves the list and its stamp alone. -/
theorem refresh_keeps (state : State D) (answers : Answers) (h : state.bodyRead answers = none) :
    (state.refresh answers).disabled = state.disabled ∧ (state.refresh answers).stamp = state.stamp := by
  have hcases := state.refreshed answers
  rw [h] at hcases
  generalize state.refresh answers = after at hcases ⊢
  cases hcases <;> exact ⟨rfl, rfl⟩

theorem bodyRead_stat_error (state : State D) {answers : Answers} {error : FileError}
    (h : answers.stat = .error error) : state.bodyRead answers = none := by
  simp [bodyRead, h]

theorem bodyRead_text_error (state : State D) {answers : Answers} {error : FileError}
    (h : answers.text = .error error) : state.bodyRead answers = none := by
  unfold bodyRead
  split
  · cases answers.stat with
    | error error => rfl
    | ok stat => simp [h, Except.toOption]
  · rfl

/-- The list after a sequence of checks. -/
def run (state : State D) (calls : List Answers) : State D := calls.foldl refresh state

/-- The bodies a sequence of checks reads, in order. -/
def bodies (state : State D) : List Answers → List String
  | [] => []
  | call :: calls => (state.bodyRead call).toList ++ (state.refresh call).bodies calls

@[simp] theorem run_nil (state : State D) : state.run [] = state := rfl
@[simp] theorem run_cons (state : State D) (call : Answers) (calls : List Answers) :
    state.run (call :: calls) = (state.refresh call).run calls := rfl

theorem run_snoc (state : State D) (calls : List Answers) (call : Answers) :
    state.run (calls ++ [call]) = (state.run calls).refresh call := by
  simp [run]

/-- The names of the last of these bodies, or none before the first. -/
def consulted (D : Deps) (bodies : List String) : Finset D.Service :=
  bodies.getLast?.elim ∅ (parseNames D)

theorem consulted_snoc (before : List String) (body : Option String) :
    consulted D (before ++ body.toList) = body.elim (consulted D before) (parseNames D) := by
  cases body with
  | none => simp
  | some body => simp [consulted]

theorem run_disabled (state : State D) (before : List String) (h : state.disabled = consulted D before)
    (calls : List Answers) : (state.run calls).disabled = consulted D (before ++ state.bodies calls) := by
  induction calls generalizing state before with
  | nil => simpa [bodies] using h
  | cons call calls ih =>
    have hnext : (state.refresh call).disabled = consulted D (before ++ (state.bodyRead call).toList) := by
      rw [refresh_disabled, consulted_snoc, h]
    rw [run_cons, ih _ _ hnext, bodies, List.append_assoc]

/-- A name in the list stays there while every body read has it. -/
theorem run_stays (state : State D) (calls : List Answers) {service : D.Service}
    (h : service ∈ state.disabled) (hbodies : ∀ body ∈ state.bodies calls, service ∈ parseNames D body) :
    service ∈ (state.run calls).disabled := by
  induction calls generalizing state with
  | nil => exact h
  | cons call calls ih =>
    apply ih
    · rw [refresh_disabled]
      cases hbody : state.bodyRead call with
      | none => exact h
      | some body => exact hbodies body (by simp [bodies, hbody])
    · intro body hbody
      exact hbodies body (by simp [bodies, hbody])

end State

/-- The body a load reads, when it comes to a read and the read is answered. -/
def loadedBody (opened : Except FileError Handle) : Option String :=
  match opened with
  | .error _ => none
  | .ok file => file.text.toOption

theorem load_disabled {opened : Except FileError Handle} {state : State D} (h : load D opened = .ok state) :
    state.disabled = State.consulted D (loadedBody opened).toList := by
  obtain ⟨⟨disabled, stamp⟩, hread, hstate⟩ := Checked.bind_ok.mp h
  cases Checked.pure_ok.mp hstate
  cases opened with
  | error error =>
    cases error <;> cases hread
    rfl
  | ok file =>
    obtain ⟨text, htext, hpair⟩ := Checked.bind_ok.mp hread
    rw [Checked.mapError_ok] at htext
    cases Checked.pure_ok.mp hpair
    simp [loadedBody, htext, Except.toOption, State.consulted]

end FileDisabledList

open FileDisabledList

/-- Whatever a load and then any checks are answered, the set consulted is the names of the last body
read, a failed stat or read changes neither set nor stamp, a name disabled stays so while every body read
has it, and a list loaded over an absent file enables every name before its first read. -/
theorem disabled_fails_closed (D : Deps) (opened : Except FileError Handle) (state : State D)
    (hload : load D opened = .ok state) (calls : List Answers) (call : Answers) (service : D.Service) :
    let before := state.run calls
    let after := before.refresh call
    before.isEnabled call service =
      (decide (service ∉ State.consulted D ((loadedBody opened).toList ++ state.bodies (calls ++ [call]))), after) ∧
    (((∃ error, call.stat = .error error) ∨ ∃ error, call.text = .error error) →
      after.disabled = before.disabled ∧ after.stamp = before.stamp) ∧
    (∀ more last, (before.isEnabled call service).1 = false →
      (∀ body ∈ after.bodies (more ++ [last]), service ∈ parseNames D body) →
      ((after.run more).isEnabled last service).1 = false) ∧
    (opened = .error .NotFound → state.bodies (calls ++ [call]) = [] →
      (before.isEnabled call service).1 = true) := by
  intro before after
  have hrun : state.run (calls ++ [call]) = after := state.run_snoc calls call
  have hset : after.disabled =
      State.consulted D ((loadedBody opened).toList ++ state.bodies (calls ++ [call])) := by
    rw [← hrun]
    exact state.run_disabled _ (load_disabled hload) (calls ++ [call])
  have hanswer : before.isEnabled call service = (decide (service ∉ after.disabled), after) := rfl
  refine ⟨by rw [hanswer, hset], ?_, ?_, ?_⟩
  · intro hfails
    apply before.refresh_keeps
    rcases hfails with ⟨error, hstat⟩ | ⟨error, htext⟩
    · exact before.bodyRead_stat_error hstat
    · exact before.bodyRead_text_error htext
  · intro more last hdisabled hbodies
    have hmem : service ∈ after.disabled := by simpa [hanswer] using hdisabled
    have hstays := after.run_stays (more ++ [last]) hmem hbodies
    rw [State.run_snoc] at hstays
    simpa [State.isEnabled] using hstays
  · intro habsent hnone
    rw [hanswer, hset, habsent, hnone]
    simp [loadedBody, State.consulted]

theorem disabled_fails_closed_gone :
    let D := Deps.small (Vector.replicate 32 0)
    let state : State D := ⟨parseNames D "speed\n", some (5, 6), none⟩
    let gone : Answers := ⟨0, 0, .error .NotFound, .error .NotFound⟩
    load D (.ok ⟨.ok "speed\n", .ok ⟨some 5, 6⟩⟩) = .ok state ∧
      (state.refresh gone).disabled = parseNames D "speed\n" ∧
      (state.refresh gone).stamp = some (5, 6) := by
  intro D state gone
  have hclosed := disabled_fails_closed D (.ok ⟨.ok "speed\n", .ok ⟨some 5, 6⟩⟩) state rfl [] gone
    ⟨"speed", rfl⟩
  exact ⟨rfl, hclosed.2.1 (.inl ⟨.NotFound, rfl⟩)⟩

/-! ## What the path leads to -/

/-- What answers an open, the read of its body, and a stat. -/
structure FileObject where
  access : Except FileError Unit
  body : Except FileError (List UInt8)
  stat : Except FileError Metadata

/-- A path's final component. A symbolic link leads to an object, or to an error. -/
inductive PathEntry where
  | missing (error : FileError)
  | file (object : FileObject)
  | symlink (target : Except FileError FileObject)

namespace PathEntry

/-- The object a path name stands for when links are followed. -/
def follow : PathEntry → Except FileError FileObject
  | missing error => .error error
  | file object => .ok object
  | symlink target => target

/-- `std::fs::metadata`. -/
def metadata (entry : PathEntry) : Except FileError Metadata := do
  let object ← entry.follow
  object.stat

/-- `std::fs::read_to_string`. -/
def text (entry : PathEntry) : Except FileError String := do
  let object ← entry.follow
  object.access
  readToString object.body

/-- The source's `open_readonly` on unix, where `O_NOFOLLOW` refuses a link with `ELOOP`. -/
def openReadonly : PathEntry → Except FileError Handle
  | missing error => .error error
  | symlink _ => .error (.other 40)
  | file object => do
    object.access
    pure ⟨readToString object.body, object.stat⟩

/-- The answers a check gets from what the path is at its stat and at its read. -/
def answers (asked now : Nat) (seen found : PathEntry) : Answers := ⟨asked, now, seen.metadata, found.text⟩

def IsSymlink (entry : PathEntry) : Prop := ∃ target, entry = symlink target

theorem load_symlink {D : Deps} {entry : PathEntry} (h : entry.IsSymlink) (loaded : State D) :
    load D entry.openReadonly ≠ .ok loaded := by
  obtain ⟨target, rfl⟩ := h
  intro hload
  cases hload

/-- Where the path is no link, a load reads what a read by name does. -/
theorem load_file {D : Deps} {entry : PathEntry} (h : ¬ entry.IsSymlink) {body : String}
    (htext : entry.text = .ok body) :
    ∃ loaded, load D entry.openReadonly = .ok loaded ∧ loaded.disabled = parseNames D body := by
  cases entry with
  | missing error => cases htext
  | symlink target => exact absurd ⟨target, rfl⟩ h
  | file object =>
    obtain ⟨found, hfollow, hread⟩ := Checked.bind_ok.mp htext
    cases hfollow
    obtain ⟨_, haccess, hbody⟩ := Checked.bind_ok.mp hread
    refine ⟨⟨parseNames D body, object.stat.toOption.bind Metadata.stamp, none⟩, ?_, rfl⟩
    have hopen : openReadonly (.file object) = .ok ⟨.ok body, object.stat⟩ := by
      simp only [openReadonly, haccess, hbody]
      rfl
    rw [hopen]
    rfl

end PathEntry

namespace FileDisabledList.State

variable {D : Deps}

theorem bodyRead_eq_some (state : State D) (answers : Answers) (body : String) :
    state.bodyRead answers = some body ↔
      state.Due answers.asked ∧ (∃ stat, answers.stat = .ok stat ∧ stat.stamp ≠ state.stamp) ∧
        answers.text = .ok body := by
  unfold bodyRead
  split
  · rename_i hdue
    cases answers.stat with
    | error error => simp
    | ok stat =>
      by_cases hsame : stat.stamp = state.stamp
      · simp [hsame]
      · cases answers.text <;> simp [hdue, hsame, Except.toOption]
  · rename_i hdue
    simp [hdue]

theorem refresh_replaced (state : State D) {answers : Answers} {body : String}
    (h : state.bodyRead answers = some body) : (state.refresh answers).disabled = parseNames D body := by
  rw [refresh_disabled, h]
  rfl

end FileDisabledList.State

/-- Whatever the path is at a check's stat and at its read, a set the check puts in place is the one a
load of the path would come to, and a link puts none in place: exactly when a due check does not read a
changed body through a link. -/
theorem reload_agrees (D : Deps) (state : State D) (asked now : Nat) (seen found : PathEntry) :
    let answers := PathEntry.answers asked now seen found
    ((∀ body, state.bodyRead answers = some body →
      ∃ loaded, load D found.openReadonly = .ok loaded ∧
        loaded.disabled = (state.refresh answers).disabled) ∧
      (found.IsSymlink → state.bodyRead answers = none)) ↔
    ¬ (found.IsSymlink ∧ state.Due asked ∧
      (∃ stat, seen.metadata = .ok stat ∧ stat.stamp ≠ state.stamp) ∧
      ∃ body, found.text = .ok body) := by
  intro answers
  have hreads : (∃ body, state.bodyRead answers = some body) ↔ state.Due asked ∧
      (∃ stat, seen.metadata = .ok stat ∧ stat.stamp ≠ state.stamp) ∧ ∃ body, found.text = .ok body := by
    simp only [State.bodyRead_eq_some, exists_and_left]
    rfl
  rw [← hreads]
  constructor
  · intro hagrees hplanted
    obtain ⟨hlink, body, hbody⟩ := hplanted
    obtain ⟨loaded, hload, -⟩ := hagrees.1 body hbody
    exact PathEntry.load_symlink hlink loaded hload
  · intro hplain
    have hnone : found.IsSymlink → state.bodyRead answers = none := by
      intro hlink
      rw [Option.eq_none_iff_forall_ne_some]
      intro body hbody
      exact hplain ⟨hlink, body, hbody⟩
    refine ⟨?_, hnone⟩
    intro body hbody
    have hfile : ¬ found.IsSymlink := by
      intro hlink
      rw [hnone hlink] at hbody
      cases hbody
    have htext : found.text = .ok body := ((state.bodyRead_eq_some answers body).mp hbody).2.2
    obtain ⟨loaded, hload, hset⟩ := PathEntry.load_file hfile htext
    exact ⟨loaded, hload, by rw [hset, state.refresh_replaced hbody]⟩

/-- A link to an empty device over the list: a load refuses it, and a check enables every name by it. -/
theorem reload_disagrees :
    let D := Deps.small (Vector.replicate 32 0)
    let state : State D := ⟨{⟨"speed", rfl⟩}, some (5, 6), none⟩
    let null : FileObject := ⟨.ok (), .ok [], .ok ⟨some 9, 0⟩⟩
    let planted : PathEntry := .symlink (.ok null)
    let answers := PathEntry.answers 0 0 planted planted
    load D planted.openReadonly = .error (.Io (.other 40)) ∧
      state.bodyRead answers = some "" ∧ (state.refresh answers).disabled = ∅ := by
  refine ⟨rfl, ?_, ?_⟩ <;> decide

end Tightbeam
