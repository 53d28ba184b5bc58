import Tightbeam.Library.Runs
import Mathlib.Logic.Function.Basic

/-!
# The identity's key file

A node is reached and verified at one key, which it keeps in one file. Every process that needs the key loads
that file and mints a fresh key only where nothing is there; `write` puts a given key there. The file's format
and the calls that read and write it are the store's own.
-/
namespace Tightbeam

/-- What a key file that loads holds. -/
inductive Stored (Seed : Type) where
  | Plain (seed : Seed)
  | Locked

/-- What the code calls of the store. Each call is one step: the store's writes are atomic. -/
structure Keystore where
  Seed : Type
  File : Type
  Error : Type
  load : File → Except Error (Option (Stored Seed))
  write : File → Seed → Except Error Unit × File
  adopt : File → Seed → Except Error Unit × File
  /-- The refusal of a path that names no file. -/
  notAFile : Error → Bool

variable {K : Keystore}

def Keystore.Absent (K : Keystore) (file : K.File) : Prop := K.load file = .ok none

def Keystore.Holds (K : Keystore) (file : K.File) (seed : K.Seed) : Prop := K.load file = .ok (some (.Plain seed))

/-- What the code relies on of the store. A write into absence lands the whole key or nothing, and what is
there is never replaced by an adoption, which a different key at the path refuses. Of a `write` over a file
that is there nothing is said. -/
structure Keystore.Lawful (K : Keystore) : Prop where
  write_ok : ∀ file seed, K.Absent file → (K.write file seed).1 = .ok () → K.Holds (K.write file seed).2 seed
  write_error : ∀ file seed error, K.Absent file → (K.write file seed).1 = .error error →
    (K.write file seed).2 = file
  adopt_ok : ∀ file seed, (K.adopt file seed).1 = .ok () →
    K.Holds (K.adopt file seed).2 seed ∨ K.load file = .ok (some .Locked)
  adopt_error : ∀ file seed error, (K.adopt file seed).1 = .error error → (K.adopt file seed).2 = file
  adopt_kept : ∀ file seed, ¬ K.Absent file → (K.adopt file seed).2 = file

inductive IdentityError (K : Keystore) where
  | NoHome
  | Directory (path : String)
  | Sealed (path : String)
  | CreateDir (path : String)
  | Entropy
  | Key (error : K.Error)

/-- The variables of a process that name a key file. -/
structure KeyEnv where
  tightbeamKey : Option String
  home : Option String

/-- The standard library's `join`, of a relative part. -/
def joinPath (base part : String) : String :=
  if base = "" ∨ base.endsWith "/" then base ++ part else base ++ "/" ++ part

def defaultPath (env : KeyEnv) : Except (IdentityError K) String :=
  match env.tightbeamKey with
  | some path => .ok path
  | none => match env.home with
    | none => .error .NoHome
    | some home => .ok (joinPath (joinPath (joinPath home ".config") "tightbeam") "identity.key")

def keyFile (explicit : Option String) (env : KeyEnv) : Except (IdentityError K) String :=
  match explicit with
  | some path => .ok path
  | none => defaultPath env

/-- `open`: the key the file holds, or none only when nothing is there. -/
def openKey (path : String) (isDir : Bool) (file : K.File) : Except (IdentityError K) (Option K.Seed) :=
  match K.load file with
  | .ok none => .ok none
  | .ok (some (.Plain seed)) => .ok (some seed)
  | .ok (some .Locked) => .error (.Sealed path)
  | .error error => if K.notAFile error ∧ isDir then .error (.Directory path) else .error (.Key error)

/-- A process before it asks for the key, between its look and its write, and with its answer. -/
inductive KeyProc (K : Keystore) where
  | Idle
  | Minting (path : String) (seed : K.Seed)
  | Done (result : Except (IdentityError K) Unit)

/-- The machine's files and the processes at them. `held` is every key a `load` returned and where, and
`adopted` every key a `write` put or found there. -/
structure KeyWorld (K : Keystore) where
  files : String → K.File
  procs : Nat → KeyProc K
  held : List (String × K.Seed)
  adopted : List (String × K.Seed)

def KeyWorld.start (files : String → K.File) : KeyWorld K := ⟨files, fun _ => .Idle, [], []⟩

/-- A `load` up to its write, with the key it would mint, if the system has one, and the directory it could not
create; that write; and a `write`. -/
inductive KeyEvent (K : Keystore) where
  | loads (pid : Nat) (explicit : Option String) (env : KeyEnv) (isDir : Bool) (drawn : Option K.Seed)
      (uncreated : Option String)
  | mints (pid : Nat)
  | writes (pid : Nat) (explicit : Option String) (env : KeyEnv) (seed : K.Seed) (uncreated : Option String)

namespace KeyWorld

def turn (world : KeyWorld K) (pid : Nat) (proc : KeyProc K) : KeyWorld K :=
  { world with procs := Function.update world.procs pid proc }

def put (world : KeyWorld K) (path : String) (file : K.File) : KeyWorld K :=
  { world with files := Function.update world.files path file }

def load (world : KeyWorld K) (pid : Nat) (isDir : Bool) (drawn : Option K.Seed) (uncreated : Option String)
    (path : String) : KeyWorld K :=
  match openKey path isDir (world.files path) with
  | .error error => world.turn pid (.Done (.error error))
  | .ok (some seed) => { world.turn pid (.Done (.ok ())) with held := world.held ++ [(path, seed)] }
  | .ok none => match drawn with
    | none => world.turn pid (.Done (.error .Entropy))
    | some seed => match uncreated with
      | some directory => world.turn pid (.Done (.error (.CreateDir directory)))
      | none => world.turn pid (.Minting path seed)

def mint (world : KeyWorld K) (pid : Nat) (path : String) (seed : K.Seed) : KeyWorld K :=
  let after := world.put path (K.write (world.files path) seed).2
  match (K.write (world.files path) seed).1 with
  | .error error => after.turn pid (.Done (.error (.Key error)))
  | .ok _ => { after.turn pid (.Done (.ok ())) with held := world.held ++ [(path, seed)] }

def write (world : KeyWorld K) (pid : Nat) (seed : K.Seed) (uncreated : Option String) (path : String) :
    KeyWorld K :=
  match uncreated with
  | some directory => world.turn pid (.Done (.error (.CreateDir directory)))
  | none =>
    let after := world.put path (K.adopt (world.files path) seed).2
    match (K.adopt (world.files path) seed).1 with
    | .error error => after.turn pid (.Done (.error (.Key error)))
    | .ok _ => { after.turn pid (.Done (.ok ())) with adopted := world.adopted ++ [(path, seed)] }

def step (world : KeyWorld K) : KeyEvent K → Option (KeyWorld K)
  | .loads pid explicit env isDir drawn uncreated =>
    match world.procs pid with
    | .Idle => match keyFile explicit env with
      | .error error => some (world.turn pid (.Done (.error error)))
      | .ok path => some (world.load pid isDir drawn uncreated path)
    | _ => none
  | .mints pid =>
    match world.procs pid with
    | .Minting path seed => some (world.mint pid path seed)
    | _ => none
  | .writes pid explicit env seed uncreated =>
    match world.procs pid with
    | .Idle => match keyFile explicit env with
      | .error error => some (world.turn pid (.Done (.error error)))
      | .ok path => some (world.write pid seed uncreated path)
    | _ => none

end KeyWorld

/-- The path a process looks at or writes anew. -/
def KeyEvent.path : KeyEvent K → Option String
  | .loads _ explicit env _ _ _ => (keyFile (K := K) explicit env).toOption
  | .mints _ => none
  | .writes _ explicit env _ _ => (keyFile (K := K) explicit env).toOption

namespace KeyWorld

variable {world last : KeyWorld K} {event : KeyEvent K} {pid : Nat} {path : String} {seed : K.Seed}
  {files : String → K.File}

/-- Everything a step can do. -/
inductive Steps (world : KeyWorld K) (event : KeyEvent K) : KeyWorld K → Prop where
  | ends (pid : Nat) (result : Except (IdentityError K) Unit) : Steps world event (world.turn pid (.Done result))
  | holds (pid : Nat) (path : String) (seed : K.Seed) (hholds : K.Holds (world.files path) seed) :
      Steps world event { world.turn pid (.Done (.ok ())) with held := world.held ++ [(path, seed)] }
  | looks (pid : Nat) (path : String) (seed : K.Seed) (hpath : event.path = some path)
      (habsent : K.Absent (world.files path)) : Steps world event (world.turn pid (.Minting path seed))
  | mints (pid : Nat) (path : String) (seed : K.Seed) (hproc : world.procs pid = .Minting path seed) :
      Steps world event (world.mint pid path seed)
  | adopts (pid : Nat) (path : String) (seed : K.Seed) (hpath : event.path = some path) :
      Steps world event (world.write pid seed none path)

theorem load_steps {isDir : Bool} {drawn : Option K.Seed} {uncreated : Option String}
    (hpath : event.path = some path) : Steps world event (world.load pid isDir drawn uncreated path) := by
  unfold load openKey
  cases hload : K.load (world.files path) with
  | error error =>
    by_cases hdir : K.notAFile error = true ∧ isDir = true
    · simp only [if_pos hdir]
      exact .ends pid _
    · simp only [if_neg hdir]
      exact .ends pid _
  | ok stored =>
    rcases stored with _ | _ | _
    · cases drawn with
      | none => exact .ends pid _
      | some seed =>
        cases uncreated with
        | some directory => exact .ends pid _
        | none => exact .looks pid path seed hpath hload
    · exact .holds pid path _ hload
    · exact .ends pid _

theorem step_steps (h : world.step event = some last) : Steps world event last := by
  cases event with
  | loads pid explicit env isDir drawn uncreated =>
    simp only [step] at h
    split at h
    · split at h
      · cases h
        exact .ends pid _
      · rename_i path hpath
        cases h
        exact load_steps (by simp [KeyEvent.path, hpath, Except.toOption])
    · cases h
  | mints pid =>
    simp only [step] at h
    split at h
    · rename_i path seed hproc
      cases h
      exact .mints pid path seed hproc
    · cases h
  | writes pid explicit env seed uncreated =>
    simp only [step] at h
    split at h
    · split at h
      · cases h
        exact .ends pid _
      · rename_i path hpath
        cases h
        cases uncreated with
        | some directory => exact .ends pid _
        | none => exact .adopts pid path seed (by simp [KeyEvent.path, hpath, Except.toOption])
    · cases h

theorem turn_files (proc : KeyProc K) : (world.turn pid proc).files = world.files := rfl

theorem put_same (file : K.File) : (world.put path file).files path = file := Function.update_self ..

theorem put_other {other : String} {file : K.File} (h : path ≠ other) :
    (world.put other file).files path = world.files path := Function.update_of_ne h ..

/-- A process that is done is minting nothing, and every other goes on as it was. -/
theorem minting_done {result : Except (IdentityError K) Unit} {other : Nat}
    (h : (world.turn pid (.Done result)).procs other = .Minting path seed) :
    world.procs other = .Minting path seed ∧ other ≠ pid := by
  by_cases heq : other = pid
  · subst heq
    simp [turn] at h
  · refine ⟨?_, heq⟩
    simpa [turn, heq] using h

theorem unminted_done {result : Except (IdentityError K) Unit}
    (h : ∀ pid seed, world.procs pid ≠ .Minting path seed) (other : Nat) (seed : K.Seed) :
    (world.turn pid (.Done result)).procs other ≠ .Minting path seed := by
  intro hother
  exact h other seed (minting_done hother).1

/-- What is true of every key of a path, once a list of keys gains one there or elsewhere. -/
theorem forall_snoc {entries : List (String × K.Seed)} {other : String} {Good : K.Seed → Prop} {added : K.Seed}
    (h : ∀ seed, (path, seed) ∈ entries → Good seed) (hadded : path = other → Good added) :
    ∀ seed, (path, seed) ∈ entries ++ [(other, added)] → Good seed := by
  intro seed hmem
  rcases List.mem_append.1 hmem with hmem | hmem
  · exact h seed hmem
  · rw [List.mem_singleton, Prod.mk.injEq] at hmem
    rw [hmem.2]
    exact hadded hmem.1

/-- A path whose file was there from the start, with no one minting at it. -/
structure Kept (files : String → K.File) (path : String) (world : KeyWorld K) : Prop where
  file : world.files path = files path
  unminted : ∀ pid seed, world.procs pid ≠ .Minting path seed
  held : ∀ seed, (path, seed) ∈ world.held → K.Holds (files path) seed
  adopted : ∀ seed, (path, seed) ∈ world.adopted →
    K.Holds (files path) seed ∨ K.load (files path) = .ok (some .Locked)

theorem step_kept (hK : K.Lawful) (hpresent : ¬ K.Absent (files path)) (h : Kept files path world)
    (hstep : world.step event = some last) : Kept files path last := by
  cases step_steps hstep with
  | ends pid result => exact ⟨h.file, unminted_done h.unminted, h.held, h.adopted⟩
  | holds pid found seed hholds =>
    refine ⟨h.file, unminted_done h.unminted, forall_snoc h.held ?_, h.adopted⟩
    rintro rfl
    rw [← h.file]
    exact hholds
  | looks pid found seed hpath habsent =>
    have hne : found ≠ path := by
      rintro rfl
      rw [h.file] at habsent
      exact hpresent habsent
    refine ⟨h.file, ?_, h.held, h.adopted⟩
    intro other seed' hother
    by_cases heq : other = pid
    · subst heq
      simp only [turn, Function.update_self, KeyProc.Minting.injEq] at hother
      exact hne hother.1
    · simp only [turn, Function.update_of_ne heq] at hother
      exact h.unminted other seed' hother
  | mints pid found seed hproc =>
    have hne : path ≠ found := by
      rintro rfl
      exact h.unminted pid seed hproc
    have hfile : (world.put found (K.write (world.files found) seed).2).files path = files path := by
      rw [put_other hne, h.file]
    unfold mint
    cases hwrite : (K.write (world.files found) seed).1 with
    | error error => exact ⟨hfile, unminted_done h.unminted, h.held, h.adopted⟩
    | ok _ =>
      exact ⟨hfile, unminted_done h.unminted, forall_snoc h.held fun heq => absurd heq hne, h.adopted⟩
  | adopts pid found seed hpath =>
    have hfile : (world.put found (K.adopt (world.files found) seed).2).files path = files path := by
      by_cases heq : path = found
      · subst heq
        have hkept := hK.adopt_kept (world.files path) seed (h.file ▸ hpresent)
        rw [put_same, hkept, h.file]
      · rw [put_other heq, h.file]
    simp only [write]
    cases hadopt : (K.adopt (world.files found) seed).1 with
    | error error => exact ⟨hfile, unminted_done h.unminted, h.held, h.adopted⟩
    | ok _ =>
      refine ⟨hfile, unminted_done h.unminted, h.held, forall_snoc h.adopted ?_⟩
      rintro rfl
      rw [← h.file]
      have hkept := hK.adopt_kept (world.files path) seed (h.file ▸ hpresent)
      rw [← hkept]
      rcases hK.adopt_ok _ _ hadopt with hholds | hlocked
      · exact .inl hholds
      · refine .inr ?_
        rw [hkept]
        exact hlocked

/-- A process that looks or writes anew at this path finds no other between its look there and its write. -/
def Alone (path : String) (world : KeyWorld K) (event : KeyEvent K) : Prop :=
  event.path = some path → ∀ pid seed, world.procs pid ≠ .Minting path seed

/-- A path that first runs had to themselves: one process at most mints there, while there is still nothing,
and every key given out or put there is the one that is there. -/
structure Single (path : String) (world : KeyWorld K) : Prop where
  absent : ∀ pid seed, world.procs pid = .Minting path seed → K.Absent (world.files path)
  one : ∀ pid other seed seed', world.procs pid = .Minting path seed →
    world.procs other = .Minting path seed' → pid = other
  plain : K.Absent (world.files path) ∨ ∃ seed, K.Holds (world.files path) seed
  held : ∀ seed, (path, seed) ∈ world.held → K.Holds (world.files path) seed
  adopted : ∀ seed, (path, seed) ∈ world.adopted → K.Holds (world.files path) seed

namespace Single

variable {result : Except (IdentityError K) Unit} {found : String} {file : K.File} {added : K.Seed}

/-- A process ends and leaves the path's file as it was. -/
theorem ends (h : Single path world) (hsame : path = found → file = world.files path) :
    Single path ((world.put found file).turn pid (.Done result)) := by
  have hfile : (world.put found file).files path = world.files path := by
    by_cases heq : path = found
    · rw [← heq, put_same, hsame heq]
    · exact put_other heq
  refine ⟨?_, ?_, ?_, ?_, ?_⟩
  · intro other seed hother
    rw [turn_files, hfile]
    exact h.absent other seed (minting_done hother).1
  · intro other other' seed seed' hother hother'
    exact h.one other other' seed seed' (minting_done hother).1 (minting_done hother').1
  · rw [turn_files, hfile]
    exact h.plain
  · rw [turn_files, hfile]
    exact h.held
  · rw [turn_files, hfile]
    exact h.adopted

theorem done (h : Single path world) : Single path (world.turn pid (.Done result)) := by
  have hself : world.put path (world.files path) = world := by simp [put]
  rw [← hself]
  exact h.ends fun _ => rfl

theorem gives (h : Single path world) (hadded : path = found → K.Holds (world.files path) added) :
    Single path { world with held := world.held ++ [(found, added)] } :=
  ⟨h.absent, h.one, h.plain, forall_snoc h.held hadded, h.adopted⟩

theorem takes (h : Single path world) (hadded : path = found → K.Holds (world.files path) added) :
    Single path { world with adopted := world.adopted ++ [(found, added)] } :=
  ⟨h.absent, h.one, h.plain, h.held, forall_snoc h.adopted hadded⟩

theorem looks {found : String} (h : Single path world) (hone : path = found → ∀ pid seed,
      world.procs pid ≠ .Minting path seed) (habsent : K.Absent (world.files found)) :
    Single path (world.turn pid (.Minting found seed)) := by
  have hother : ∀ other seed', (world.turn pid (.Minting found seed)).procs other = .Minting path seed' →
      world.procs other = .Minting path seed' ∨ other = pid ∧ path = found := by
    intro other seed' hminting
    by_cases hpid : other = pid
    · subst hpid
      simp only [turn, Function.update_self, KeyProc.Minting.injEq] at hminting
      exact .inr ⟨rfl, hminting.1.symm⟩
    · simp only [turn, Function.update_of_ne hpid] at hminting
      exact .inl hminting
  refine ⟨?_, ?_, h.plain, h.held, h.adopted⟩
  · intro other seed' hminting
    rcases hother other seed' hminting with hbefore | ⟨-, rfl⟩
    · exact h.absent other seed' hbefore
    · exact habsent
  · intro other other' seed' seed'' hminting hminting'
    rcases hother other seed' hminting with hbefore | ⟨rfl, heq⟩
    · rcases hother other' seed'' hminting' with hbefore' | ⟨-, heq⟩
      · exact h.one other other' seed' seed'' hbefore hbefore'
      · exact absurd hbefore (hone heq other seed')
    · rcases hother other' seed'' hminting' with hbefore' | ⟨rfl, -⟩
      · exact absurd hbefore' (hone heq other' seed'')
      · rfl

/-- A path that has its key is no longer minted at. -/
theorem kept (h : Single path world) (hpresent : ¬ K.Absent (world.files path)) :
    Kept world.files path world := by
  refine ⟨rfl, ?_, h.held, fun seed hmem => .inl (h.adopted seed hmem)⟩
  intro pid seed hproc
  exact hpresent (h.absent pid seed hproc)

end Single

end KeyWorld

end Tightbeam
