import Tightbeam.Target
import Mathlib.Data.List.Basic

/-!
# The guarded open

A `file:` or `fifo:` path is opened at each dial, under a name that anyone may have pointed elsewhere since
the last one. The open asks the descriptor it holds what it is, and never the name again; the serve-time
check asks the name.
-/
namespace Tightbeam

namespace Mode

/-- The bits of `st_mode` that tell a file's type, and what they tell. -/
def sIfmt : UInt32 := 0o170000

def sIfblk : UInt32 := 0o060000

def sIfchr : UInt32 := 0o020000

def sIfdir : UInt32 := 0o040000

def sIflnk : UInt32 := 0o120000

def sIfsock : UInt32 := 0o140000

def sIfifo : UInt32 := 0o010000

def sIfreg : UInt32 := 0o100000

end Mode

open Mode

/-- The standard library's reading of `st_mode`. -/
def FileType.ofMode (mode : UInt32) : FileType :=
  let fileType := mode &&& sIfmt
  if fileType = sIfreg then .regular
  else if fileType = sIfifo then .fifo
  else if fileType = sIflnk then .symlink
  else if fileType = sIfdir then .directory
  else if fileType = sIfblk then .blockDevice
  else if fileType = sIfchr then .charDevice
  else if fileType = sIfsock then .socket
  else .unknown

/-- `describe_type`, of the masked mode. -/
def describeType (fileType : UInt32) : String :=
  if fileType = sIfblk then "a block device"
  else if fileType = sIfchr then "a character device"
  else if fileType = sIfdir then "a directory"
  else if fileType = sIflnk then "a symlink"
  else if fileType = sIfsock then "a socket"
  else if fileType = sIfifo then "a FIFO"
  else if fileType = sIfreg then "a regular file"
  else "an unknown type"

/-- What a system call says it failed of. -/
inductive Errno where
  | ENOENT | ELOOP | EAGAIN
  | other (code : Nat)
  deriving DecidableEq, Repr

/-- The file system over a whole history: what each name stands for at each instant, and each file's mode. A
file's type is its own for life; its name is not. `denies` is every other reason the kernel has to refuse an
open, `fstats` a failed `fstat`, and `registers` the reactor's refusal of a descriptor, in its own words. -/
structure Files where
  names : Nat → String → Except Errno Nat
  modes : Nat → Nat → UInt32
  denies : Nat → Nat → Option Errno
  fstats : Nat → Nat → Option Errno
  registers : Nat → Option String
  typed : ∀ k j inode, modes k inode &&& sIfmt = modes j inode &&& sIfmt
  /-- A socket is connected to, and is never opened. -/
  sockets : ∀ k inode, FileType.ofMode (modes k inode) = .socket → ∃ errno, errno ≠ .ELOOP ∧
    denies k inode = some errno

/-- The source's own byte test. -/
def hasNul (path : String) : Bool := path.toUTF8.toList.contains 0

namespace Files

variable (fs : Files)

/-- `symlink_metadata` at an instant. -/
def lstat (k : Nat) (path : String) : Except StatError FileType :=
  if hasNul path then .error .other
  else match fs.names k path with
    | .error .ENOENT => .error .notFound
    | .error _ => .error .other
    | .ok inode => .ok (.ofMode (fs.modes k inode))

/-- The host at an instant. -/
def host (k : Nat) : Host := { Host.empty with lstat := fs.lstat k }

/-- `open(2)` with `O_RDONLY | O_NOFOLLOW | O_NONBLOCK`: a link at the name is refused, and a FIFO with no
writer is not waited for. -/
def openFd (k : Nat) (path : String) : Except Errno Nat :=
  match fs.names k path with
  | .error errno => .error errno
  | .ok inode =>
    if FileType.ofMode (fs.modes k inode) = .symlink then .error .ELOOP
    else match fs.denies k inode with
      | some errno => .error errno
      | none => .ok inode

end Files

namespace Guarded

/-- The descriptor held, and which reader it wants. -/
inductive Opened where
  | Regular (fd : Nat)
  | Fifo (fd : Nat)
  deriving DecidableEq, Repr

def Opened.fd : Opened → Nat
  | .Regular fd => fd
  | .Fifo fd => fd

/-- The open is at one instant and its `fstat` at a later one. -/
def openGuarded (fs : Files) (k later : Nat) (path : String) (kind : Kind) : Except String Opened :=
  if hasNul path then .error s!"path {path} contains a NUL byte"
  else match fs.openFd k path with
    | .error .ELOOP =>
      .error (s!"{path} is a symlink; a `file:`/`fifo:` target is opened with O_NOFOLLOW and will not " ++
        "follow a symlink at the final component")
    | .error _ => .error s!"cannot open {path}"
    | .ok fd =>
      match fs.fstats later fd with
      | some _ => .error s!"cannot stat {path}"
      | none =>
        let fileType := fs.modes later fd &&& sIfmt
        let isReg := fileType = sIfreg
        let isFifo := fileType = sIfifo
        let opened : Opened := if isFifo then .Fifo fd else .Regular fd
        match kind with
        | .File =>
          if isReg ∨ isFifo then .ok opened
          else .error (s!"{path} is not a regular file or a FIFO ({describeType fileType}); a " ++
            "`file:` target refuses devices, directories, and sockets")
        | .Fifo =>
          if isFifo then .ok opened
          else .error (s!"{path} is not a FIFO ({describeType fileType}); a `fifo:` target opens " ++
            "a named pipe (make one with `mkfifo`)")

/-- In seconds. -/
def openTimeout : Nat := 10

/-- One poll of the wait for a writer: when, and what the descriptor's readiness answered. -/
structure Polled where
  now : Nat
  ready : Option (Except Unit Unit)

/-- A boxed reader over a descriptor. -/
inductive PathReader where
  | RegularFile (fd : Nat)
  | Nonblocking (fd : Nat)
  deriving DecidableEq, Repr

/-- The wait of a FIFO's open, begun at `start`, which asks the readiness before the clock. -/
def awaitWriter (path : String) (fd start : Nat) : List Polled → Option (Except String PathReader)
  | [] => none
  | ⟨_, some (.ok _)⟩ :: _ => some (.ok (.Nonblocking fd))
  | ⟨_, some (.error _)⟩ :: _ => some (.error s!"waiting on {path}")
  | ⟨now, none⟩ :: rest =>
    if start + openTimeout ≤ now then
      some (.error s!"opening {path} timed out after {openTimeout}s (a FIFO with no writer?)")
    else awaitWriter path fd start rest

/-- `open_path`, over the polls it is given. -/
def openPath (fs : Files) (k later : Nat) (path : String) (kind : Kind) (start : Nat) (polls : List Polled) :
    Option (Except String PathReader) :=
  match openGuarded fs k later path kind with
  | .error error => some (.error error)
  | .ok (.Regular fd) => some (.ok (.RegularFile fd))
  | .ok (.Fifo fd) =>
    match fs.registers fd with
    | some error => some (.error error)
    | none => awaitWriter path fd start polls

section

variable {mode : UInt32}

theorem ofMode_regular : FileType.ofMode mode = .regular ↔ mode &&& sIfmt = sIfreg := by
  unfold FileType.ofMode
  grind

theorem ofMode_fifo : FileType.ofMode mode = .fifo ↔ mode &&& sIfmt = sIfifo := by
  unfold FileType.ofMode
  have hne : sIfifo ≠ sIfreg := by decide
  grind

/-- Both readings of a mode have the same word for it. -/
theorem describeType_ofMode : describeType (mode &&& sIfmt) = describeMetadataType (.ofMode mode) := by
  unfold FileType.ofMode
  generalize mode &&& sIfmt = fileType
  by_cases hknown : fileType ∈ [sIfreg, sIfifo, sIflnk, sIfdir, sIfblk, sIfchr, sIfsock]
  · simp only [List.mem_cons, List.not_mem_nil, or_false] at hknown
    rcases hknown with rfl | rfl | rfl | rfl | rfl | rfl | rfl <;> decide
  · simp only [List.mem_cons, List.not_mem_nil, or_false, not_or] at hknown
    obtain ⟨hreg, hfifo, hlnk, hdir, hblk, hchr, hsock⟩ := hknown
    simp only [describeType, hreg, hfifo, hlnk, hdir, hblk, hchr, hsock, if_false, describeMetadataType]

end

variable {fs : Files} {j k later start : Nat} {path : String} {kind : Kind} {polls : List Polled}

theorem ofMode_typed (inode : Nat) : FileType.ofMode (fs.modes j inode) = FileType.ofMode (fs.modes k inode) := by
  simp only [FileType.ofMode, fs.typed j k inode]

theorem openFd_ok {fd : Nat} (h : fs.openFd k path = .ok fd) : fs.names k path = .ok fd := by
  unfold Files.openFd at h
  split at h
  · cases h
  · rename_i inode hinode
    split at h
    · cases h
    · split at h
      · cases h
      · cases h
        exact hinode

/-- What an open that went through holds: what the name stood for then, of a type its kind takes. -/
theorem openGuarded_ok {opened : Opened} (h : openGuarded fs k later path kind = .ok opened) :
    fs.names k path = .ok opened.fd ∧
      ((∃ fd, opened = .Regular fd ∧ kind = .File ∧ ∀ j, FileType.ofMode (fs.modes j fd) = .regular) ∨
        ∃ fd, opened = .Fifo fd ∧ ∀ j, FileType.ofMode (fs.modes j fd) = .fifo) := by
  unfold openGuarded at h
  split at h
  · cases h
  · cases hfd : fs.openFd k path with
    | error errno => cases errno <;> simp [hfd] at h
    | ok fd =>
      have hname : fs.names k path = .ok fd := openFd_ok hfd
      simp only [hfd] at h
      split at h
      · cases h
      · by_cases hfifo : fs.modes later fd &&& sIfmt = sIfifo
        · have hopened : opened = .Fifo fd := by
            cases kind <;> simpa [hfifo] using h.symm
          rw [hopened]
          refine ⟨hname, .inr ⟨fd, rfl, fun j => ?_⟩⟩
          rw [ofMode_typed (k := later), ofMode_fifo]
          exact hfifo
        · cases kind with
          | Fifo => simp [hfifo] at h
          | File =>
            simp only [hfifo, or_false] at h
            split at h
            · rename_i hreg
              simp only [if_false, Except.ok.injEq] at h
              rw [← h]
              refine ⟨hname, .inl ⟨fd, rfl, rfl, fun j => ?_⟩⟩
              rw [ofMode_typed (k := later), ofMode_regular]
              exact hreg
            · cases h

/-- A name that stands at the dial for what it stood for at the check is ruled on in the same words. -/
theorem openGuarded_agrees {inode : Nat} (hnul : hasNul path = false) (hchecked : fs.names j path = .ok inode)
    (hdialed : fs.names k path = .ok inode) (hdenies : fs.denies k inode = none)
    (hfstats : fs.fstats later inode = none) :
    (openGuarded fs k later path kind).map (fun _ => ()) = checkOpenPath (fs.host j) path kind := by
  have hlstat : (fs.host j).lstat path = .ok (.ofMode (fs.modes later inode)) := by
    simp [Files.host, Files.lstat, hnul, hchecked, ofMode_typed (j := j) (k := later)]
  by_cases hlink : FileType.ofMode (fs.modes later inode) = .symlink
  · have hfd : fs.openFd k path = .error .ELOOP := by
      simp [Files.openFd, hdialed, ofMode_typed (j := k) (k := later), hlink]
    simp [openGuarded, checkOpenPath, hnul, hfd, hlstat, hlink, Except.map]
  · have hfd : fs.openFd k path = .ok inode := by
      simp [Files.openFd, hdialed, ofMode_typed (j := k) (k := later), hlink, hdenies]
    simp only [openGuarded, checkOpenPath, hnul, hfd, hlstat, hlink, hfstats, describeType_ofMode, ← ofMode_regular,
      ← ofMode_fifo, Bool.false_eq_true, if_false]
    cases kind with
    | File => by_cases hok : FileType.ofMode (fs.modes later inode) = .regular ∨
        FileType.ofMode (fs.modes later inode) = .fifo <;> simp [hok, Except.map]
    | Fifo => by_cases hok : FileType.ofMode (fs.modes later inode) = .fifo <;> simp [hok, Except.map]

/-- Every refusal of the check stands at the dial, if in other words. -/
theorem openGuarded_refuses {inode : Nat} {error : String} (hchecked : fs.names j path = .ok inode)
    (hdialed : fs.names k path = .ok inode) (hcheck : checkOpenPath (fs.host j) path kind = .error error) :
    ∃ error', openGuarded fs k later path kind = .error error' := by
  cases hopen : openGuarded fs k later path kind with
  | error error' => exact ⟨error', rfl⟩
  | ok opened =>
    obtain ⟨hname, htype⟩ := openGuarded_ok hopen
    have hnul : hasNul path = false := by
      cases hnul : hasNul path with
      | false => rfl
      | true => simp [openGuarded, hnul] at hopen
    rw [hdialed] at hname
    cases hname
    have hlstat : (fs.host j).lstat path = .ok (.ofMode (fs.modes j opened.fd)) := by
      simp [Files.host, Files.lstat, hnul, hchecked]
    rcases htype with ⟨fd, rfl, rfl, hregular⟩ | ⟨fd, rfl, hfifo⟩
    · simp [checkOpenPath, hlstat, Opened.fd, hregular] at hcheck
    · cases kind <;> simp [checkOpenPath, hlstat, Opened.fd, hfifo] at hcheck

theorem awaitWriter_ok {fd : Nat} {reader : PathReader}
    (h : awaitWriter path fd start polls = some (.ok reader)) : reader = .Nonblocking fd ∧
      ∃ before poll after, polls = before ++ poll :: after ∧ poll.ready = some (.ok ()) ∧
        ∀ earlier ∈ before, earlier.ready = none ∧ earlier.now < start + openTimeout := by
  induction polls with
  | nil => cases h
  | cons poll polls ih =>
    obtain ⟨now, ready⟩ := poll
    cases ready with
    | some answer =>
      cases answer with
      | ok _ =>
        cases h
        exact ⟨rfl, [], _, polls, rfl, rfl, by simp⟩
      | error error => cases h
    | none =>
      simp only [awaitWriter] at h
      split at h
      · cases h
      · rename_i hearly
        obtain ⟨hreader, before, poll, after, rfl, hready, hbefore⟩ := ih h
        refine ⟨hreader, ⟨now, none⟩ :: before, poll, after, rfl, hready, ?_⟩
        intro earlier hmem
        rcases List.mem_cons.1 hmem with rfl | hmem
        · exact ⟨rfl, Nat.not_le.1 hearly⟩
        · exact hbefore earlier hmem

/-- The wait is over at the first poll past its deadline, whatever the readiness says. -/
theorem awaitWriter_ends {fd : Nat} (h : ∃ poll ∈ polls, start + openTimeout ≤ poll.now) :
    (awaitWriter path fd start polls).isSome = true := by
  induction polls with
  | nil =>
    obtain ⟨poll, hmem, -⟩ := h
    cases hmem
  | cons poll polls ih =>
    obtain ⟨now, ready⟩ := poll
    cases ready with
    | some answer => cases answer <;> rfl
    | none =>
      simp only [awaitWriter]
      split
      · rfl
      · rename_i hearly
        obtain ⟨late, hmem, hlate⟩ := h
        rcases List.mem_cons.1 hmem with rfl | hmem
        · exact absurd hlate hearly
        · exact ih ⟨late, hmem, hlate⟩

/-- What a reader is over: what the name stood for at the open, whatever it has stood for since. -/
theorem openPath_ok {reader : PathReader} (h : openPath fs k later path kind start polls = some (.ok reader)) :
    ∃ inode, fs.names k path = .ok inode ∧
      ((reader = .RegularFile inode ∧ kind = .File ∧ ∀ j, FileType.ofMode (fs.modes j inode) = .regular) ∨
        (reader = .Nonblocking inode ∧ (∀ j, FileType.ofMode (fs.modes j inode) = .fifo) ∧
          ∃ before poll after, polls = before ++ poll :: after ∧ poll.ready = some (.ok ()) ∧
            ∀ earlier ∈ before, earlier.ready = none ∧ earlier.now < start + openTimeout)) := by
  unfold openPath at h
  cases hopen : openGuarded fs k later path kind with
  | error error => simp [hopen] at h
  | ok opened =>
    obtain ⟨hname, ⟨fd, rfl, hkind, hregular⟩ | ⟨fd, rfl, hfifo⟩⟩ := openGuarded_ok hopen
    · refine ⟨fd, hname, .inl ⟨?_, hkind, hregular⟩⟩
      simpa [hopen] using h.symm
    · simp only [hopen] at h
      split at h
      · cases h
      · obtain ⟨hreader, hpolls⟩ := awaitWriter_ok h
        exact ⟨fd, hname, .inr ⟨hreader, hfifo, hpolls⟩⟩

theorem openPath_ends (h : ∃ poll ∈ polls, start + openTimeout ≤ poll.now) :
    (openPath fs k later path kind start polls).isSome = true := by
  unfold openPath
  split
  · rfl
  · rfl
  · split
    · rfl
    · exact awaitWriter_ends h

/-- A socket is refused at both, but `open(2)` has no word for it. -/
theorem openGuarded_socket {inode : Nat} (hnul : hasNul path = false) (hname : fs.names k path = .ok inode)
    (hsocket : FileType.ofMode (fs.modes k inode) = .socket) :
    openGuarded fs k later path kind = .error s!"cannot open {path}" := by
  obtain ⟨errno, hne, hdenies⟩ := fs.sockets k inode hsocket
  have hfd : fs.openFd k path = .error errno := by simp [Files.openFd, hname, hsocket, hdenies]
  simp only [openGuarded, hnul, Bool.false_eq_true, if_false, hfd]

/-- A path's reader is over what the name stood for at the dial, which is for life a regular file, or a FIFO
that a poll has found readable when every poll before it had found it unready and the deadline still to come;
that poll may itself be late, as the readiness is asked before the clock. Where the name still stands for what
the serve-time check found, the dial refuses whatever the check refused, and unless the kernel has a reason of
its own it rules as the check did, word for word; of a socket it always has one. No wait outlasts the first
poll at its deadline. -/
theorem guarded_open (fs : Files) (path : String) (kind : Kind) :
    (∀ k later start polls reader, openPath fs k later path kind start polls = some (.ok reader) →
      ∃ inode, fs.names k path = .ok inode ∧
        ((reader = .RegularFile inode ∧ kind = .File ∧ ∀ j, FileType.ofMode (fs.modes j inode) = .regular) ∨
          (reader = .Nonblocking inode ∧ (∀ j, FileType.ofMode (fs.modes j inode) = .fifo) ∧
            ∃ before poll after, polls = before ++ poll :: after ∧ poll.ready = some (.ok ()) ∧
              ∀ earlier ∈ before, earlier.ready = none ∧ earlier.now < start + openTimeout))) ∧
      (∀ j k later inode error, fs.names j path = .ok inode → fs.names k path = .ok inode →
        checkOpenPath (fs.host j) path kind = .error error →
        ∃ error', openGuarded fs k later path kind = .error error') ∧
      (∀ j k later inode, hasNul path = false → fs.names j path = .ok inode → fs.names k path = .ok inode →
        fs.denies k inode = none → fs.fstats later inode = none →
        (openGuarded fs k later path kind).map (fun _ => ()) = checkOpenPath (fs.host j) path kind) ∧
      (∀ k later inode, hasNul path = false → fs.names k path = .ok inode →
        FileType.ofMode (fs.modes k inode) = .socket →
        openGuarded fs k later path kind = .error s!"cannot open {path}") ∧
      ∀ k later start polls, (∃ poll ∈ polls, start + openTimeout ≤ poll.now) →
        (openPath fs k later path kind start polls).isSome = true := by
  refine ⟨?_, ?_, ?_, ?_, ?_⟩
  · intro k later start polls reader h
    exact openPath_ok h
  · intro j k later inode error hchecked hdialed hcheck
    exact openGuarded_refuses hchecked hdialed hcheck
  · intro j k later inode hnul hchecked hdialed hdenies hfstats
    exact openGuarded_agrees hnul hchecked hdialed hdenies hfstats
  · intro k later inode hnul hname hsocket
    exact openGuarded_socket hnul hname hsocket
  · intro k later start polls hlate
    exact openPath_ends hlate

/-- A socket at one name, and at the other a FIFO that makes way for a regular file. -/
def repointed : Files where
  names k path :=
    if path = "in" then .ok (if k < 2 then 0 else 1)
    else if path = "sock" then .ok 2
    else .error .ENOENT
  modes _ inode := if inode = 0 then 0o010644 else if inode = 1 then 0o100644 else 0o140755
  denies _ inode := if inode < 2 then none else some (.other 6)
  fstats _ _ := none
  registers _ := none
  typed _ _ _ := rfl
  sockets k inode h := by
    by_cases hsocket : inode < 2
    · have hcases : inode = 0 ∨ inode = 1 := by omega
      rcases hcases with rfl | rfl <;> exact absurd h (by decide)
    · exact ⟨.other 6, by decide, if_neg hsocket⟩

theorem guarded_open_repointed :
    (∃ inode, repointed.names 1 "in" = .ok inode ∧ repointed.names 3 "in" ≠ .ok inode ∧
      ∀ j, FileType.ofMode (repointed.modes j inode) = .fifo) ∧
      (openGuarded repointed 1 3 "in" .Fifo).map (fun _ => ()) = checkOpenPath (repointed.host 0) "in" .Fifo ∧
      (∃ error, openGuarded repointed 3 3 "in" .Fifo = .error error) ∧
      openGuarded repointed 3 3 "sock" .File = .error "cannot open sock" ∧
      (openPath repointed 1 3 "in" .Fifo 100 [⟨105, none⟩, ⟨112, none⟩]).isSome = true ∧
      openPath repointed 1 3 "in" .Fifo 100 [⟨105, none⟩, ⟨112, some (.ok ())⟩] = some (.ok (.Nonblocking 0)) := by
  obtain ⟨hread, hrefused, hagrees, -, hends⟩ := guarded_open repointed "in" .Fifo
  obtain ⟨-, -, -, hsocket, -⟩ := guarded_open repointed "sock" .File
  have hin : hasNul "in" = false := by decide +kernel
  have hsock : hasNul "sock" = false := by decide +kernel
  have hopen : openPath repointed 1 3 "in" .Fifo 100 [⟨105, none⟩, ⟨112, some (.ok ())⟩] =
      some (.ok (.Nonblocking 0)) := by decide +kernel
  have hcheck : checkOpenPath (repointed.host 2) "in" .Fifo =
      .error ("in is not a FIFO (a regular file); a `fifo:` target opens a named pipe (make one with " ++
        "`mkfifo`)") := by decide +kernel
  refine ⟨?_, ?_, ?_, ?_, ?_, hopen⟩
  · obtain ⟨inode, hname, ⟨hreader, -, -⟩ | ⟨-, hfifo, -⟩⟩ := hread 1 3 100 _ _ hopen
    · cases hreader
    · cases hname
      exact ⟨0, rfl, by decide, hfifo⟩
  · exact hagrees 0 1 3 0 hin rfl rfl rfl rfl
  · exact hrefused 2 3 3 1 _ rfl rfl hcheck
  · exact hsocket 3 3 2 hsock rfl (by decide)
  · exact hends 1 3 100 _ ⟨⟨112, none⟩, by simp, by decide⟩

end Guarded

end Tightbeam
