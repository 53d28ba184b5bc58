import Tightbeam.Guarded
import Tightbeam.FirstTraffic
import Tightbeam.Library.Interleave

/-!
# Reading an opened path

A FIFO is read once the reactor says it is readable, and the reactor may be wrong: a read that would block
goes round again. A regular file has no readiness to wait on and is read straight through. Others hold the
FIFO for writing, and write, between any two turns of a poll; and others read it, which splits its octets.
-/
namespace Tightbeam

def ReadBuf.unfilled (buf : ReadBuf) : Nat := buf.capacity - buf.filled.length

/-- What `read(2)` returns, which is never more than it was asked for. -/
abbrev Rc (len : Nat) := Except Errno { octets : List UInt8 // octets.length ≤ len }

def ReadBuf.nothing (buf : ReadBuf) : buf.Room := ⟨[], buf.fits⟩

def ReadBuf.advance (buf : ReadBuf) (octets : { octets : List UInt8 // octets.length ≤ buf.unfilled }) :
    buf.Room :=
  ⟨octets.val, by
    have hle := octets.property
    have hfits := buf.fits
    unfold ReadBuf.unfilled at hle
    omega⟩

namespace Guarded

/-- One turn of the loop in `poll_read`, or none to go round again. -/
def NonblockingReader.turn (buf : ReadBuf) (ready : Poll (Except Errno Unit)) (rc : Rc buf.unfilled) :
    Option (Poll (Except Errno Unit) × buf.Room) :=
  match ready with
  | .Pending => some (.Pending, buf.nothing)
  | .Ready (.error error) => some (.Ready (.error error), buf.nothing)
  | .Ready (.ok _) =>
    match rc with
    | .error .EAGAIN => none
    | .error error => some (.Ready (.error error), buf.nothing)
    | .ok octets => some (.Ready (.ok ()), buf.advance octets)

def RegularFileReader.pollRead (buf : ReadBuf) (rc : Rc buf.unfilled) : Poll (Except Errno Unit) × buf.Room :=
  match rc with
  | .error error => (.Ready (.error error), buf.nothing)
  | .ok octets => (.Ready (.ok ()), buf.advance octets)

/-- What the descriptor is of: a file, or a FIFO and how many hold it for writing. -/
inductive Object where
  | File
  | Fifo (writers : Nat)
  deriving DecidableEq, Repr

/-- How the kernel takes one `read(2)`: how much of what is there it gives at most, and a reason of its own
to fail. -/
structure Call where
  gives : Nat
  fault : Option Errno

/-- A path being read. `held` is what `read(2)` has not given yet, `delivered` what the polls put into their
buffers, and `taken` what other readers of the FIFO got. -/
structure Reads where
  object : Object
  held : List UInt8
  delivered : List UInt8
  taken : List UInt8
  polling : Option ReadBuf

/-- As the open leaves it: a file stands at its start. -/
def Reads.opened (object : Object) (contents : List UInt8) : Reads := ⟨object, contents, [], [], none⟩

inductive ReadEvent where
  | opens
  | writes (octets : List UInt8)
  | closes
  | takes (asked : Nat)
  | polls (buf : ReadBuf)
  | turns (ready : Poll (Except Errno Unit)) (call : Call)

/-- What a step adds to what there is to read. -/
def ReadEvent.written : ReadEvent → List UInt8
  | .writes octets => octets
  | _ => []

namespace Reads

variable (world : Reads)

/-- `read(2)`, which blocks for no one: with a writer and nothing to read it fails. -/
def read (call : Call) (len : Nat) : Rc len :=
  match call.fault with
  | none =>
    if world.held = [] ∧ 0 < len ∧ world.object ≠ .File ∧ world.object ≠ .Fifo 0 then .error .EAGAIN
    else .ok ⟨world.held.take (min len (max 1 call.gives)), by
      rw [List.length_take]
      omega⟩
  | some error => .error error

/-- What a turn of the poll answers, if it does not go round. -/
def answer (buf : ReadBuf) (ready : Poll (Except Errno Unit)) (call : Call) :
    Option (Poll (Except Errno Unit) × buf.Room) :=
  let rc := world.read call buf.unfilled
  match world.object with
  | .File => some (RegularFileReader.pollRead buf rc)
  | .Fifo _ => NonblockingReader.turn buf ready rc

/-- What `read(2)` gave in a turn: nothing where the reactor kept the turn from it. -/
def given (buf : ReadBuf) (ready : Poll (Except Errno Unit)) (call : Call) : List UInt8 :=
  match world.object, ready, world.read call buf.unfilled with
  | .File, _, .ok octets => octets.val
  | .Fifo _, .Ready (.ok _), .ok octets => octets.val
  | _, _, _ => []

def step : ReadEvent → Option Reads
  | .opens =>
    match world.object with
    | .Fifo writers => some { world with object := .Fifo (writers + 1) }
    | .File => none
  | .writes octets =>
    -- A file grows at its end.
    if world.object = .Fifo 0 then none
    else some { world with held := world.held ++ octets }
  | .closes =>
    match world.object with
    | .Fifo (writers + 1) => some { world with object := .Fifo writers }
    | _ => none
  | .takes asked =>
    -- Each reader of a file has its own place in it.
    match world.object with
    | .Fifo _ => some { world with held := world.held.drop asked, taken := world.taken ++ world.held.take asked }
    | .File => none
  | .polls buf => if world.polling.isSome then none else some { world with polling := some buf }
  | .turns ready call =>
    match world.polling with
    | none => none
    | some buf =>
      let left := { world with held := world.held.drop (world.given buf ready call).length }
      match world.answer buf ready call with
      | none => some left
      | some (_, put) => some { left with delivered := world.delivered ++ put.val, polling := none }

end Reads

variable {world last : Reads} {buf : ReadBuf} {ready : Poll (Except Errno Unit)} {call : Call} {gives : Nat}

/-- `read(2)` gives the front of what is there, and gives nothing only when there is nothing and no one can
write. -/
theorem read_ok {len : Nat} {octets : { octets : List UInt8 // octets.length ≤ len }}
    (h : world.read call len = .ok octets) :
    octets.val <+: world.held ∧
      (0 < len → octets.val = [] → world.held = [] ∧ (world.object = .File ∨ world.object = .Fifo 0)) := by
  unfold Reads.read at h
  split at h
  · split at h
    · cases h
    · rename_i hblocks
      cases h
      refine ⟨List.take_prefix _ _, ?_⟩
      intro hpos hnone
      have hheld : world.held = [] := by
        rcases List.take_eq_nil_iff.1 hnone with hzero | hheld
        · omega
        · exact hheld
      refine ⟨hheld, ?_⟩
      by_contra hobject
      obtain ⟨hfile, hfifo⟩ := not_or.1 hobject
      exact hblocks ⟨hheld, hpos, hfile, hfifo⟩
  · cases h

theorem read_error {len : Nat} {error : Errno} (h : world.read call len = .error error) :
    call.fault = some error ∨ error = .EAGAIN ∧ world.held = [] ∧ world.object ≠ .File := by
  unfold Reads.read at h
  split at h
  · split at h
    · rename_i hblocks
      cases h
      exact .inr ⟨rfl, hblocks.1, hblocks.2.2.1⟩
    · cases h
  · rename_i hfault
    cases h
    exact .inl hfault

/-- A file's read never waits. -/
theorem read_file (hfile : world.object = .File) (gives len : Nat) :
    ∃ octets, world.read ⟨gives, none⟩ len = .ok octets := by
  cases hread : world.read ⟨gives, none⟩ len with
  | ok octets => exact ⟨octets, rfl⟩
  | error error =>
    rcases read_error hread with hfault | ⟨-, -, hother⟩
    · cases hfault
    · exact absurd hfile hother

theorem given_append : world.given buf ready call ++ world.held.drop (world.given buf ready call).length =
    world.held := by
  have hfront : world.given buf ready call <+: world.held := by
    unfold Reads.given
    split
    · rename_i hread
      exact (read_ok hread).1
    · rename_i hread
      exact (read_ok hread).1
    · exact List.nil_prefix
  exact (List.prefix_iff_eq_append.1 hfront)

/-- What `read(2)` gave is in the buffer, and it gave nothing to a turn that goes round. -/
theorem answer_given : match world.answer buf ready call with
    | some (_, put) => put.val = world.given buf ready call
    | none => world.given buf ready call = [] := by
  unfold Reads.answer Reads.given
  cases world.object with
  | File =>
    cases world.read call buf.unfilled with
    | error error => rfl
    | ok octets => rfl
  | Fifo writers =>
    cases ready with
    | Pending => rfl
    | Ready polled =>
      cases polled with
      | error error => rfl
      | ok _ =>
        cases world.read call buf.unfilled with
        | error error => cases error <;> rfl
        | ok octets => rfl

/-- Others leave a poll and what it delivered alone. -/
theorem step_others {event : ReadEvent} (hstep : world.step event = some last) (hpolls : ∀ buf, event ≠ .polls buf)
    (hturns : ∀ ready call, event ≠ .turns ready call) :
    last.delivered = world.delivered ∧ last.polling = world.polling := by
  cases event with
  | opens | closes | takes _ =>
    simp only [Reads.step] at hstep
    split at hstep
    · cases hstep
      exact ⟨rfl, rfl⟩
    · cases hstep
  | writes octets =>
    simp only [Reads.step, Option.ite_none_left_eq_some, Option.some.injEq] at hstep
    rw [← hstep.2]
    exact ⟨rfl, rfl⟩
  | polls buf => exact absurd rfl (hpolls buf)
  | turns ready call => exact absurd rfl (hturns ready call)

/-- The readers split the beginning of the whole, each octet going to one of them, and what is after it is still
to be read. A file has no others. -/
structure Shares (whole : List UInt8) (world : Reads) : Prop where
  split : ∃ consumed, Interleaves world.delivered world.taken consumed ∧ consumed ++ world.held = whole
  own : world.object = .File → world.taken = []

theorem Shares.whole {whole : List UInt8} (h : Shares whole world) (halone : world.taken = []) :
    world.delivered ++ world.held = whole := by
  obtain ⟨consumed, hsplit, hwhole⟩ := h.split
  rw [halone] at hsplit
  rw [← hsplit.eq_left]
  exact hwhole

theorem shares_opened (object : Object) (contents : List UInt8) : Shares contents (.opened object contents) :=
  ⟨⟨[], .nil, rfl⟩, fun _ => rfl⟩

/-- The whole gains what a step writes, and loses nothing. -/
theorem step_shares {whole : List UInt8} (h : Shares whole world) {event : ReadEvent}
    (hstep : world.step event = some last) : Shares (whole ++ event.written) last := by
  obtain ⟨⟨consumed, hsplit, rfl⟩, hown⟩ := h
  cases event with
  | opens | closes =>
    simp only [Reads.step] at hstep
    split at hstep
    · cases hstep
      refine ⟨⟨consumed, hsplit, (List.append_nil _).symm⟩, fun hfile => ?_⟩
      cases hfile
    · cases hstep
  | writes octets =>
    simp only [Reads.step, Option.ite_none_left_eq_some, Option.some.injEq] at hstep
    rw [← hstep.2]
    exact ⟨⟨consumed, hsplit, (List.append_assoc ..).symm⟩, hown⟩
  | takes asked =>
    simp only [Reads.step] at hstep
    split at hstep
    · rename_i writers hobject
      cases hstep
      refine ⟨⟨consumed ++ world.held.take asked, hsplit.append_right _, ?_⟩, fun hfile => ?_⟩
      · rw [List.append_assoc, List.take_append_drop]
        exact (List.append_nil _).symm
      · cases hobject.symm.trans hfile
    · cases hstep
  | polls buf =>
    simp only [Reads.step, Option.ite_none_left_eq_some, Option.some.injEq] at hstep
    rw [← hstep.2]
    exact ⟨⟨consumed, hsplit, (List.append_nil _).symm⟩, hown⟩
  | turns ready call =>
    simp only [Reads.step] at hstep
    split at hstep
    · cases hstep
    · rename_i buf hpolling
      have hgiven : world.given buf ready call ++ world.held.drop (world.given buf ready call).length =
          world.held := given_append
      have hput := @answer_given world buf ready call
      split at hstep
      · rename_i hanswer
        rw [hanswer] at hput
        cases hstep
        refine ⟨⟨consumed, hsplit, ?_⟩, hown⟩
        simp only [hput, List.length_nil, List.drop_zero, ReadEvent.written, List.append_nil]
      · rename_i poll put hanswer
        rw [hanswer] at hput
        cases hstep
        refine ⟨⟨consumed ++ put.val, hsplit.append_left _, ?_⟩, hown⟩
        calc consumed ++ put.val ++ world.held.drop (world.given buf ready call).length
            = consumed ++ (world.given buf ready call ++
                world.held.drop (world.given buf ready call).length) := by rw [hput, List.append_assoc]
          _ = consumed ++ world.held ++ [] := by rw [hgiven, List.append_nil]

theorem run_shares {whole : List UInt8} (h : Shares whole world) {events : List ReadEvent}
    (hrun : events.foldlM Reads.step world = some last) :
    Shares (whole ++ events.flatMap ReadEvent.written) last := by
  induction events generalizing world whole with
  | nil =>
    cases hrun
    rw [List.flatMap_nil, List.append_nil]
    exact h
  | cons event events ih =>
    rw [List.foldlM_cons, Option.bind_eq_bind, Option.bind_eq_some_iff] at hrun
    obtain ⟨middle, hstep, hrest⟩ := hrun
    rw [List.flatMap_cons, ← List.append_assoc]
    exact ih (step_shares h hstep) hrest

/-- What a poll that read says, `read(2)` said. -/
theorem answer_ok {put : buf.Room} (h : world.answer buf ready call = some (.Ready (.ok ()), put)) :
    ∃ octets, world.read call buf.unfilled = .ok octets ∧ put.val = octets.val := by
  unfold Reads.answer at h
  cases hread : world.read call buf.unfilled with
  | ok octets =>
    refine ⟨octets, rfl, ?_⟩
    cases hobject : world.object with
    | File =>
      simp only [hobject, hread, RegularFileReader.pollRead] at h
      cases h
      rfl
    | Fifo writers =>
      rcases ready with _ | ⟨_ | _⟩ <;> simp only [hobject, hread, NonblockingReader.turn] at h <;> cases h
      rfl
  | error error =>
    exfalso
    cases hobject : world.object with
    | File =>
      simp only [hobject, hread, RegularFileReader.pollRead] at h
      cases h
    | Fifo writers =>
      rcases ready with _ | ⟨_ | _⟩ <;> cases error <;>
        simp only [hobject, hread, NonblockingReader.turn] at h <;> cases h

/-- A poll that fails says what the reactor or `read(2)` said, and a FIFO's never says it would block. -/
theorem answer_error {put : buf.Room} {error : Errno}
    (h : world.answer buf ready call = some (.Ready (.error error), put)) :
    put.val = [] ∧ (ready = .Ready (.error error) ∧ world.object ≠ .File ∨
      call.fault = some error ∧ (world.object ≠ .File → error ≠ .EAGAIN)) := by
  unfold Reads.answer at h
  cases hobject : world.object with
  | File =>
    cases hread : world.read call buf.unfilled with
    | ok octets => simp [hobject, hread, RegularFileReader.pollRead] at h
    | error error =>
      simp only [hobject, hread, RegularFileReader.pollRead] at h
      cases h
      refine ⟨rfl, .inr ⟨?_, by simp⟩⟩
      rcases read_error hread with hfault | ⟨-, -, hfile⟩
      · exact hfault
      · exact absurd hobject hfile
  | Fifo writers =>
    simp only [hobject] at h
    rcases ready with _ | ⟨failed | _⟩
    · simp [NonblockingReader.turn] at h
    · cases h
      exact ⟨rfl, .inl ⟨rfl, by simp⟩⟩
    · cases hread : world.read call buf.unfilled with
      | ok octets => simp [hread, NonblockingReader.turn] at h
      | error failed =>
        have hne : failed ≠ .EAGAIN := by
          rintro rfl
          simp [hread, NonblockingReader.turn] at h
        have hturn : put = buf.nothing ∧ error = failed := by
          cases failed <;> simp_all [NonblockingReader.turn]
        obtain ⟨rfl, rfl⟩ := hturn
        refine ⟨rfl, .inr ⟨?_, fun _ => hne⟩⟩
        rcases read_error hread with hfault | ⟨hagain, -, -⟩
        · exact hfault
        · exact absurd hagain hne

/-- A poll that waits has put nothing. -/
theorem answer_pending {put : buf.Room} (h : world.answer buf ready call = some (.Pending, put)) : put.val = [] := by
  unfold Reads.answer at h
  cases hobject : world.object with
  | File => cases hread : world.read call buf.unfilled <;> simp [hobject, hread, RegularFileReader.pollRead] at h
  | Fifo writers =>
    rcases ready with _ | ⟨_ | _⟩
    · simp only [hobject, NonblockingReader.turn] at h
      cases h
      rfl
    · simp [hobject, NonblockingReader.turn] at h
    · cases hread : world.read call buf.unfilled with
      | ok octets => simp [hobject, hread, NonblockingReader.turn] at h
      | error error => cases error <;> simp [hobject, hread, NonblockingReader.turn] at h

/-- A turn that is let read finds what is there. -/
theorem answer_reads (hroom : buf.filled.length < buf.capacity) (hheld : world.held ≠ []) :
    ∃ put, world.answer buf (.Ready (.ok ())) ⟨gives, none⟩ = some (.Ready (.ok ()), put) ∧
      put.val ≠ [] := by
  have hpos : 0 < buf.unfilled := Nat.sub_pos_of_lt hroom
  cases hread : world.read ⟨gives, none⟩ buf.unfilled with
  | error error =>
    exfalso
    rcases read_error hread with hfault | ⟨-, hnone, -⟩
    · cases hfault
    · exact hheld hnone
  | ok octets =>
    refine ⟨buf.advance octets, ?_, ?_⟩
    · cases hobject : world.object <;>
        simp [Reads.answer, hobject, hread, RegularFileReader.pollRead, NonblockingReader.turn]
    · intro hnone
      exact hheld ((read_ok hread).2 hpos hnone).1

/-- Whoever opens, writes, reads and leaves between the turns, and however often the reactor is wrong, the polls
deliver what there was to read, in its order and once: every octet is delivered, is still there, or went to
another reader of the FIFO. Only a poll with nothing left there meets the end, and of a FIFO only with no
writer there (a file may yet be written), a FIFO's read that would block is no failure, and what is there is
read as soon as a turn is let. -/
theorem path_reads (object : Object) (contents : List UInt8) {events : List ReadEvent}
    (hrun : events.foldlM Reads.step (.opened object contents) = some world) :
    Shares (contents ++ events.flatMap ReadEvent.written) world ∧
      (world.taken = [] → world.delivered ++ world.held = contents ++ events.flatMap ReadEvent.written) ∧
      ∀ buf : ReadBuf, (∀ ready call put, world.answer buf ready call = some (.Ready (.ok ()), put) →
          put.val = [] → buf.filled.length < buf.capacity →
          world.held = [] ∧ (world.object = .File ∨ world.object = .Fifo 0)) ∧
        (∀ ready call put error, world.answer buf ready call = some (.Ready (.error error), put) →
          put.val = [] ∧ (ready = .Ready (.error error) ∧ world.object ≠ .File ∨
            call.fault = some error ∧ (world.object ≠ .File → error ≠ .EAGAIN))) ∧
        (∀ gives, world.held ≠ [] → buf.filled.length < buf.capacity →
          ∃ put, world.answer buf (.Ready (.ok ())) ⟨gives, none⟩ = some (.Ready (.ok ()), put) ∧
            put.val ≠ []) := by
  have hshares := run_shares (shares_opened object contents) hrun
  refine ⟨hshares, hshares.whole, fun buf => ⟨?_, ?_, ?_⟩⟩
  · intro ready call put h hput hroom
    obtain ⟨octets, hread, heq⟩ := answer_ok h
    exact (read_ok hread).2 (Nat.sub_pos_of_lt hroom) (heq ▸ hput)
  · intro ready call put error h
    exact answer_error h
  · intro gives hheld hroom
    exact answer_reads hroom hheld

/-- A writer comes and writes, one turn goes round before it and one after it reads, another reader takes an
octet, and the writer leaves. -/
theorem path_reads_octets : ∃ world : Reads, world.delivered = [7, 8] ∧ world.taken = [9] ∧ world.held = [10] ∧
    Shares ([] ++ [7, 8, 9, 10]) world := by
  have hrun : (([.opens, .polls ⟨[], 2, by decide⟩, .turns (.Ready (.ok ())) ⟨9, none⟩, .writes [7, 8, 9, 10],
      .turns (.Ready (.ok ())) ⟨9, none⟩, .takes 1, .closes] : List ReadEvent).foldlM Reads.step
      (.opened (.Fifo 0) [])) = some ⟨.Fifo 0, [10], [7, 8], [9], none⟩ := rfl
  exact ⟨_, rfl, rfl, rfl, (path_reads (.Fifo 0) [] hrun).1⟩

end Guarded

end Tightbeam
