import Tightbeam.Library.Window
import Mathlib.Data.List.Induction

/-!
# One stdin, many bridges

The process's stdin is read on one thread, started by the first call and never joined, and handed over in
chunks through a channel of one slot. A bridge takes the channel's lock before it takes a chunk, and keeps
it until it ends. What a bridge copies from its peer to stdout is left out, but for how it ends.
-/
namespace Tightbeam

open Window

/-- A message of the channel. -/
abbrev StdinChunk (ε : Type) := Except ε (List UInt8)

def StdinChunk.octets {ε : Type} : StdinChunk ε → List UInt8
  | .ok octets => octets
  | .error _ => []

def StdinChunk.failed {ε : Type} : StdinChunk ε → Bool
  | .ok _ => false
  | .error _ => true

/-- The octets of the thread's buffer. -/
def stdinBuffer : Nat := 16 * 1024

/-- What one `read` of stdin returns: none read is its end. -/
inductive StdinRead (ε : Type) where
  | Read (octets : List UInt8) (fits : octets.length ≤ stdinBuffer)
  | Interrupted
  | Failed (error : ε)

/-- Where the reader thread stands: in a read, or waiting for the channel to take a chunk. -/
inductive StdinThread (ε : Type) where
  | Unstarted
  | Reading
  | Sending (chunk : StdinChunk ε)
  | Returned

def StdinThread.sending {ε : Type} : StdinThread ε → List (StdinChunk ε)
  | .Sending chunk => [chunk]
  | _ => []

inductive BridgeError (ε : Type) where
  | Io (error : ε)
  | WriteZero

/-- How a bridge ends: it returns, or its future is dropped. -/
inductive BridgeEnd (ε : Type) where
  | Returned (result : Except (BridgeError ε) Unit)
  | Dropped

/-- Where a bridge that holds the channel stands: waiting for a chunk, in the middle of writing one toward
its peer, closing that half, or left with the peer's output only. One that has ended keeps what it had
not written. -/
inductive BridgePhase (ε : Type) where
  | Receiving
  | Writing (rest : List UInt8)
  | ShuttingDown
  | Draining
  | Ended (how : BridgeEnd ε) (unwritten : List UInt8)

/-- A bridge that has taken the lock: the call it runs for, the chunks it was handed, the octets its peer's
writer took, and whether it was told that stdin ended. -/
structure Bridge (ε : Type) where
  call : Nat
  received : List (StdinChunk ε)
  written : List UInt8
  sawEnd : Bool
  phase : BridgePhase ε

namespace Bridge

variable {ε : Type}

def new (call : Nat) : Bridge ε := ⟨call, [], [], false, .Receiving⟩

def live (b : Bridge ε) : Bool :=
  match b.phase with
  | .Ended _ _ => false
  | _ => true

/-- What the bridge was handed and has not written. -/
def unwritten (b : Bridge ε) : List UInt8 :=
  match b.phase with
  | .Writing rest => rest
  | .Ended _ rest => rest
  | _ => []

/-- `write_all`, with this much to go. -/
def writeAll (b : Bridge ε) (rest : List UInt8) : Bridge ε :=
  { b with phase := if rest = [] then .Receiving else .Writing rest }

def leave (b : Bridge ε) (how : BridgeEnd ε) : Bridge ε := { b with phase := .Ended how b.unwritten }

/-- Whether the bridge still reads stdin. -/
def reads (b : Bridge ε) : Bool :=
  match b.phase with
  | .Receiving => true
  | .Writing _ => true
  | _ => false

end Bridge

/-- A process's stdin: whether the static holds the channel, the threads started, the thread, the channel's
slot and lock, the calls made and those waiting for the lock, and the bridges in the order they took it.
`read` and `handed` keep what the thread read and what the bridges were handed, in time order. -/
structure StdinWorld (ε : Type) where
  shared : Bool
  started : Nat
  thread : StdinThread ε
  slot : Option (StdinChunk ε)
  locked : Bool
  calls : Nat
  waiting : List Nat
  bridges : List (Bridge ε)
  read : List (StdinChunk ε)
  handed : List (Nat × StdinChunk ε)

inductive StdinEvent (ε : Type) where
  /-- A call of `pipe_stdio_bridge`, and whether a thread could be spawned. -/
  | call (spawned : Bool)
  /-- The lock goes to a call that waits for it, or the call gives up waiting. -/
  | lock (call : Nat)
  | abandon (call : Nat)
  /-- The thread's read returns, or the channel takes its chunk. -/
  | read (result : StdinRead ε)
  | send
  /-- A poll of the bridge's upstream half: its `recv`, a write toward the peer, and its shutdown. -/
  | recv (bridge : Nat)
  | write (bridge : Nat) (polled : Except ε Nat)
  | shutdown (bridge : Nat) (polled : Except ε Unit)
  /-- The peer's half has ended or failed, or the bridge is cancelled. -/
  | finish (bridge : Nat) (result : Except ε Unit)
  | cancel (bridge : Nat)

namespace StdinWorld

variable {ε : Type}

def new : StdinWorld ε := ⟨false, 0, .Unstarted, none, false, 0, [], [], [], []⟩

/-- `stdin_chunks`, under the lock of its static. -/
def stdinChunks (w : StdinWorld ε) (spawned : Bool) : Option (StdinWorld ε) :=
  if w.shared then some w
  else if spawned then
    some { w with shared := true, started := w.started + 1, thread := .Reading, slot := none }
  else none

def call (w : StdinWorld ε) (spawned : Bool) : StdinWorld ε :=
  match w.stdinChunks spawned with
  | some chunks => { chunks with calls := w.calls + 1, waiting := w.waiting ++ [w.calls] }
  | none => { w with calls := w.calls + 1 }

def lock (w : StdinWorld ε) (call : Nat) : StdinWorld ε :=
  if w.locked = false ∧ call ∈ w.waiting then
    { w with locked := true, waiting := w.waiting.erase call, bridges := w.bridges ++ [.new call] }
  else w

/-- One turn of the thread's loop up to its send. -/
def readStdin (w : StdinWorld ε) (result : StdinRead ε) : StdinWorld ε :=
  match w.thread, result with
  | .Reading, .Read octets _ =>
    if octets = [] then { w with thread := .Returned }
    else { w with thread := .Sending (.ok octets), read := w.read ++ [.ok octets] }
  | .Reading, .Interrupted => w
  | .Reading, .Failed error => { w with thread := .Sending (.error error), read := w.read ++ [.error error] }
  | _, _ => w

def send (w : StdinWorld ε) : StdinWorld ε :=
  match w.thread, w.slot with
  | .Sending chunk, none =>
    { w with slot := some chunk, thread := if chunk.failed then .Returned else .Reading }
  | _, _ => w

def setBridge (w : StdinWorld ε) (i : Nat) (b : Bridge ε) : StdinWorld ε :=
  { w with bridges := w.bridges.set i b }

/-- The bridge returns or is dropped, and its guard with it. -/
def leave (w : StdinWorld ε) (i : Nat) (b : Bridge ε) (how : BridgeEnd ε) : StdinWorld ε :=
  { w.setBridge i (b.leave how) with locked := false }

/-- A poll of `recv`: the chunk in the slot, or the end once the thread has dropped its sender. -/
def recv (w : StdinWorld ε) (i : Nat) (b : Bridge ε) : StdinWorld ε :=
  match w.slot with
  | some chunk =>
    let w := { w with slot := none, handed := w.handed ++ [(i, chunk)] }
    let b := { b with received := b.received ++ [chunk] }
    match chunk with
    | .ok octets => w.setBridge i (b.writeAll octets)
    | .error error => w.leave i b (.Returned (.error (.Io error)))
  | none =>
    match w.thread with
    | .Returned => w.setBridge i { b with sawEnd := true, phase := .ShuttingDown }
    | _ => w

/-- One write of `write_all`. -/
def write (w : StdinWorld ε) (i : Nat) (b : Bridge ε) (rest : List UInt8) : Except ε Nat → StdinWorld ε
  | .ok taken =>
    if taken = 0 then w.leave i b (.Returned (.error .WriteZero))
    else if taken ≤ rest.length then
      w.setBridge i ({ b with written := b.written ++ rest.take taken }.writeAll (rest.drop taken))
    -- A writer that takes more than it was given makes `write_all` panic, and the bridge unwinds.
    else w.leave i b .Dropped
  | .error error => w.leave i b (.Returned (.error (.Io error)))

def shutdown (w : StdinWorld ε) (i : Nat) (b : Bridge ε) : Except ε Unit → StdinWorld ε
  | .ok () => w.setBridge i { b with phase := .Draining }
  | .error error => w.leave i b (.Returned (.error (.Io error)))

/-- What happens to a bridge where it stands. -/
def stepBridge (w : StdinWorld ε) (i : Nat) (moves : Bridge ε → StdinWorld ε) : StdinWorld ε :=
  match w.bridges[i]? with
  | some b => if b.live then moves b else w
  | none => w

def step (w : StdinWorld ε) : StdinEvent ε → StdinWorld ε
  | .call spawned => w.call spawned
  | .lock call => w.lock call
  | .abandon call => { w with waiting := w.waiting.erase call }
  | .read result => w.readStdin result
  | .send => w.send
  | .recv i => w.stepBridge i fun b =>
    match b.phase with
    | .Receiving => w.recv i b
    | _ => w
  | .write i polled => w.stepBridge i fun b =>
    match b.phase with
    | .Writing rest => w.write i b rest polled
    | _ => w
  | .shutdown i polled => w.stepBridge i fun b =>
    match b.phase with
    | .ShuttingDown => w.shutdown i b polled
    | _ => w
  | .finish i result => w.stepBridge i fun b => w.leave i b (.Returned (result.mapError .Io))
  | .cancel i => w.stepBridge i fun b => w.leave i b .Dropped

def run (events : List (StdinEvent ε)) : StdinWorld ε := events.foldl step new

/-- All the octets read from stdin so far. -/
def stdin (w : StdinWorld ε) : List UInt8 := w.read.flatMap StdinChunk.octets

end StdinWorld

variable {ε : Type}

namespace Bridge

variable {b b' : Bridge ε}

/-- What a bridge was handed, octet by octet: what it wrote, then what it did not. -/
def share (b : Bridge ε) : List UInt8 := b.written ++ b.unwritten

/-- A bridge's own move, upon these chunks: the octets they carry join its share, and what is left
unwritten is the end of what was or of the chunk. -/
structure Goes (b b' : Bridge ε) (chunks : List (StdinChunk ε)) : Prop where
  live : b.live = true
  received : b'.received = b.received ++ chunks
  share : b'.share = b.share ++ chunks.flatMap StdinChunk.octets
  unwritten : b'.unwritten = [] ∨ (chunks = [] ∧ b'.unwritten <:+ b.unwritten) ∨
    ∃ octets, chunks = [.ok octets] ∧ b'.unwritten <:+ octets
  writing : ∀ rest, b'.phase = .Writing rest → rest ≠ []

@[simp] theorem leave_unwritten (how : BridgeEnd ε) : (b.leave how).unwritten = b.unwritten := rfl

@[simp] theorem leave_live (how : BridgeEnd ε) : (b.leave how).live = false := rfl

@[simp] theorem writeAll_unwritten (rest : List UInt8) : (b.writeAll rest).unwritten = rest := by
  unfold writeAll unwritten
  by_cases hrest : rest = [] <;> simp [hrest]

@[simp] theorem writeAll_live (rest : List UInt8) : (b.writeAll rest).live = true := by
  unfold writeAll live
  by_cases hrest : rest = [] <;> simp [hrest]

theorem writeAll_writing (octets rest : List UInt8) (h : (b.writeAll octets).phase = .Writing rest) :
    rest ≠ [] := by
  unfold writeAll at h
  split at h
  · cases h
  · rename_i hne
    cases h
    exact hne

theorem goes_leave (h : b.live = true) (how : BridgeEnd ε) : b.Goes (b.leave how) [] where
  live := h
  received := (List.append_nil _).symm
  share := by simp [share, leave, unwritten]
  unwritten := .inr (.inl ⟨rfl, List.suffix_rfl⟩)
  writing rest hrest := by cases hrest

end Bridge

namespace StdinWorld

variable {w : StdinWorld ε} {i : Nat} {b b' : Bridge ε}

/-- Everything one step can do. -/
inductive Moves (w : StdinWorld ε) : StdinWorld ε → Prop where
  | queued (calls : Nat) (waiting : List Nat) : Moves w { w with calls, waiting }
  | started (calls : Nat) (waiting : List Nat) (h : w.shared = false) : Moves w
      { w with calls, waiting, shared := true, started := w.started + 1, thread := .Reading, slot := none }
  | locked (call : Nat) (waiting : List Nat) (h : w.locked = false) : Moves w
      { w with waiting, locked := true, bridges := w.bridges ++ [.new call] }
  | read (chunk : StdinChunk ε) (h : w.thread = .Reading) : Moves w
      { w with thread := .Sending chunk, read := w.read ++ [chunk] }
  | returned (h : w.thread = .Reading) : Moves w { w with thread := .Returned }
  | sent (chunk : StdinChunk ε) (h : w.thread = .Sending chunk) (hslot : w.slot = none) : Moves w
      { w with slot := some chunk, thread := if chunk.failed then .Returned else .Reading }
  | took (i : Nat) (b b' : Bridge ε) (chunk : StdinChunk ε) (locked : Bool) (hb : w.bridges[i]? = some b)
      (h : b.Goes b' [chunk]) (hslot : w.slot = some chunk) (hend : b'.sawEnd = b.sawEnd)
      (hlocked : locked = (w.locked && b'.live)) : Moves w
        { w with slot := none, handed := w.handed ++ [(i, chunk)], bridges := w.bridges.set i b', locked }
  | went (i : Nat) (b b' : Bridge ε) (locked : Bool) (hb : w.bridges[i]? = some b) (h : b.Goes b' [])
      (hend : b'.sawEnd = true → b.sawEnd = true ∨ (w.thread = .Returned ∧ w.slot = none ∧ b'.unwritten = []))
      (hlocked : locked = (w.locked && b'.live)) : Moves w { w with bridges := w.bridges.set i b', locked }

theorem moves_none (w : StdinWorld ε) : Moves w w := .queued w.calls w.waiting

theorem leave_moves (hb : w.bridges[i]? = some b) (h : b.live = true) (how : BridgeEnd ε) :
    Moves w (w.leave i b how) :=
  .went i b (b.leave how) false hb (Bridge.goes_leave h how) .inl (by simp)

theorem recv_moves (hb : w.bridges[i]? = some b) (h : b.phase = .Receiving) : Moves w (w.recv i b) := by
  have hlive : b.live = true := by rw [Bridge.live, h]
  have hnone : b.unwritten = [] := by rw [Bridge.unwritten, h]
  have hshare : b.share = b.written := by rw [Bridge.share, hnone, List.append_nil]
  unfold recv
  split
  · rename_i chunk hslot
    cases chunk with
    | ok octets =>
      refine .took i b _ (.ok octets) w.locked hb ⟨hlive, rfl, ?_, .inr (.inr ⟨octets, rfl, ?_⟩), ?_⟩ hslot rfl ?_
      · rw [hshare, Bridge.share, Bridge.writeAll_unwritten]
        simp [Bridge.writeAll, StdinChunk.octets]
      · simp only [Bridge.writeAll_unwritten, List.suffix_rfl]
      · exact Bridge.writeAll_writing octets
      · rw [Bridge.writeAll_live, Bool.and_true]
    | error error =>
      refine .took i b _ (.error error) false hb ⟨hlive, rfl, ?_, .inl ?_, ?_⟩ hslot rfl ?_
      · simp only [List.flatMap_singleton, StdinChunk.octets, List.append_nil]
        rfl
      · rw [Bridge.leave_unwritten]
        exact hnone
      · intro rest hrest
        cases hrest
      · rw [Bridge.leave_live, Bool.and_false]
  · rename_i hslot
    split
    · rename_i hthread
      refine .went i b _ w.locked hb ⟨hlive, (List.append_nil _).symm, ?_, .inl rfl, ?_⟩
        (fun _ => .inr ⟨hthread, hslot, rfl⟩) ?_
      · rw [hshare]
        simp [Bridge.share, Bridge.unwritten]
      · intro rest hrest
        cases hrest
      · simp [Bridge.live]
    · exact moves_none w

theorem write_moves (hb : w.bridges[i]? = some b) {rest : List UInt8} (h : b.phase = .Writing rest)
    (polled : Except ε Nat) : Moves w (w.write i b rest polled) := by
  have hlive : b.live = true := by rw [Bridge.live, h]
  have hrest : b.unwritten = rest := by rw [Bridge.unwritten, h]
  cases polled with
  | error error => exact leave_moves hb hlive _
  | ok taken =>
    simp only [write]
    split
    · exact leave_moves hb hlive _
    · split
      · refine .went i b _ w.locked hb ⟨hlive, (List.append_nil _).symm, ?_, .inr (.inl ⟨rfl, ?_⟩), ?_⟩ .inl ?_
        · simp only [Bridge.share, hrest, Bridge.writeAll_unwritten, List.flatMap_nil, List.append_nil]
          rw [Bridge.writeAll, List.append_assoc, List.take_append_drop]
        · rw [Bridge.writeAll_unwritten, hrest]
          exact List.drop_suffix taken rest
        · exact Bridge.writeAll_writing _
        · rw [Bridge.writeAll_live, Bool.and_true]
      · exact leave_moves hb hlive _

theorem shutdown_moves (hb : w.bridges[i]? = some b) (h : b.phase = .ShuttingDown) (polled : Except ε Unit) :
    Moves w (w.shutdown i b polled) := by
  have hlive : b.live = true := by rw [Bridge.live, h]
  cases polled with
  | error error => exact leave_moves hb hlive _
  | ok =>
    refine .went i b _ w.locked hb ⟨hlive, (List.append_nil _).symm, ?_, .inl rfl, ?_⟩ .inl ?_
    · simp [Bridge.share, Bridge.unwritten, h]
    · intro rest hrest
      cases hrest
    · simp [Bridge.live]

theorem stepBridge_moves (i : Nat) {moves : Bridge ε → StdinWorld ε}
    (h : ∀ b, w.bridges[i]? = some b → b.live = true → Moves w (moves b)) : Moves w (w.stepBridge i moves) := by
  unfold stepBridge
  split
  · rename_i b hb
    split
    · rename_i hlive
      exact h b hb hlive
    · exact moves_none w
  · exact moves_none w

theorem step_moves (w : StdinWorld ε) (event : StdinEvent ε) : Moves w (w.step event) := by
  cases event with
  | call spawned =>
    change Moves w (w.call spawned)
    unfold call stdinChunks
    by_cases hshared : w.shared = true
    · rw [if_pos hshared]
      exact .queued _ _
    · rw [if_neg hshared]
      by_cases hspawned : spawned = true
      · rw [if_pos hspawned]
        exact .started _ _ (by simpa using hshared)
      · rw [if_neg hspawned]
        exact .queued _ _
  | lock call =>
    simp only [step, lock]
    split
    · rename_i h
      exact .locked call _ h.1
    · exact moves_none w
  | abandon call => exact .queued _ _
  | read result =>
    simp only [step, readStdin]
    split
    · rename_i hthread
      split
      · exact .returned hthread
      · exact .read _ hthread
    · exact moves_none w
    · rename_i hthread
      exact .read _ hthread
    · exact moves_none w
  | send =>
    simp only [step, send]
    split
    · rename_i hthread hslot
      exact .sent _ hthread hslot
    · exact moves_none w
  | recv i =>
    apply stepBridge_moves
    intro b hb _
    split
    · rename_i hphase
      exact recv_moves hb hphase
    · exact moves_none w
  | write i polled =>
    apply stepBridge_moves
    intro b hb _
    split
    · rename_i rest hphase
      exact write_moves hb hphase polled
    · exact moves_none w
  | shutdown i polled =>
    apply stepBridge_moves
    intro b hb _
    split
    · rename_i hphase
      exact shutdown_moves hb hphase polled
    · exact moves_none w
  | finish i result =>
    apply stepBridge_moves
    intro b hb hlive
    exact leave_moves hb hlive _
  | cancel i =>
    apply stepBridge_moves
    intro b hb hlive
    exact leave_moves hb hlive _

end StdinWorld

namespace Bridge

variable {b b' : Bridge ε} {chunks : List (StdinChunk ε)}

/-- A bridge's share is what it was handed, and what it has not written is the end of its last chunk. -/
structure Kept (b : Bridge ε) : Prop where
  share : b.share = b.received.flatMap StdinChunk.octets
  unwritten : b.unwritten = [] ∨ ∃ octets, b.received.getLast? = some (.ok octets) ∧ b.unwritten <:+ octets
  writing : ∀ rest, b.phase = .Writing rest → rest ≠ []

theorem kept_new (call : Nat) : (new call : Bridge ε).Kept := ⟨rfl, .inl rfl, fun _ h => by cases h⟩

theorem Goes.kept (h : b.Goes b' chunks) (hb : b.Kept) : b'.Kept where
  share := by rw [h.share, h.received, hb.share, List.flatMap_append]
  unwritten := by
    rcases h.unwritten with hnone | ⟨rfl, hrest⟩ | ⟨octets, rfl, hrest⟩
    · exact .inl hnone
    · rcases hb.unwritten with hnone | ⟨octets, hlast, hsuffix⟩
      · rw [hnone, List.suffix_nil] at hrest
        exact .inl hrest
      · refine .inr ⟨octets, ?_, hrest.trans hsuffix⟩
        rw [h.received, List.append_nil]
        exact hlast
    · refine .inr ⟨octets, ?_, hrest⟩
      rw [h.received, List.getLast?_concat]
  writing := h.writing

/-- Bridge by bridge, the chunks each was handed. -/
def log (bridges : List (Bridge ε)) : List (Nat × StdinChunk ε) :=
  bridges.zipIdx.flatMap fun p => p.1.received.map fun chunk => (p.2, chunk)

theorem log_snoc (front : List (Bridge ε)) (b : Bridge ε) :
    log (front ++ [b]) = log front ++ b.received.map fun chunk => (front.length, chunk) := by
  simp [log, List.zipIdx_append]

theorem log_chunks (bridges : List (Bridge ε)) :
    (log bridges).map Prod.snd = bridges.flatMap Bridge.received := by
  induction bridges using List.reverseRecOn with
  | nil => rfl
  | append_singleton front b ih =>
    have hsnd : (b.received.map fun chunk => (front.length, chunk)).map Prod.snd = b.received := by
      rw [List.map_map]
      exact List.map_id _
    simp only [log_snoc, List.map_append, ih, hsnd, List.flatMap_append, List.flatMap_singleton]

end Bridge

namespace StdinWorld

variable {w w' : StdinWorld ε} {i : Nat} {b b' : Bridge ε}

/-- One thread at most; one live bridge at most, the last to take the lock; every chunk handed out in the
order it was read, bridge by bridge; and the end of stdin told only once all of it is handed out. -/
structure Inv (w : StdinWorld ε) : Prop where
  once : w.started = if w.shared = true then 1 else 0
  fresh : w.shared = false → w.thread = .Unstarted ∧ w.slot = none
  holds : ∀ i b, w.bridges[i]? = some b → b.live = true → w.locked = true ∧ i + 1 = w.bridges.length
  held : w.locked = true → ∃ b ∈ w.bridges, b.live = true
  ledger : w.read = w.handed.map Prod.snd ++ w.slot.toList ++ w.thread.sending
  log : w.handed = Bridge.log w.bridges
  kept : ∀ b ∈ w.bridges, b.Kept
  ends : ∀ b ∈ w.bridges, b.sawEnd = true → w.thread = .Returned ∧ w.slot = none ∧ b.unwritten = []
  failed : ∀ error, w.slot = some (.error error) → w.thread = .Returned

theorem inv_new : Inv (new : StdinWorld ε) where
  once := rfl
  fresh _ := ⟨rfl, rfl⟩
  holds i b hb := by cases hb
  held hlocked := by cases hlocked
  ledger := rfl
  log := rfl
  kept b hb := by cases hb
  ends b hb := by cases hb
  failed error hslot := by cases hslot

/-- A live bridge is the last. -/
theorem Inv.last (h : Inv w) (hb : w.bridges[i]? = some b) (hlive : b.live = true) :
    ∃ front, w.bridges = front ++ [b] ∧ i = front.length := by
  have hlast := (h.holds i b hb hlive).2
  cases hbridges : w.bridges using List.reverseRecOn with
  | nil => simp [hbridges] at hb
  | append_singleton front last =>
    have hi : i = front.length := by
      rw [hbridges, List.length_append, List.length_singleton] at hlast
      omega
    rw [hbridges, hi, List.getElem?_concat_length] at hb
    cases hb
    exact ⟨front, rfl, hi⟩

/-- What a bridge's own move keeps, whatever else it changes. -/
theorem Inv.moved (h : Inv w) {chunks : List (StdinChunk ε)} (hb : w.bridges[i]? = some b)
    (hgoes : b.Goes b' chunks) :
    (∀ j c, (w.bridges.set i b')[j]? = some c → c.live = true →
        (w.locked && b'.live) = true ∧ j + 1 = (w.bridges.set i b').length) ∧
      ((w.locked && b'.live) = true → ∃ c ∈ w.bridges.set i b', c.live = true) ∧
      w.handed ++ chunks.map (fun chunk => (i, chunk)) = Bridge.log (w.bridges.set i b') ∧
      ∀ c ∈ w.bridges.set i b', c.Kept := by
  obtain ⟨hlocked, hlength⟩ := h.holds i b hb hgoes.live
  have hmem : b ∈ w.bridges := List.mem_of_getElem? hb
  obtain ⟨front, hfront, hi⟩ := h.last hb hgoes.live
  have hset : w.bridges.set i b' = front ++ [b'] := by
    rw [hfront, hi, List.set_append_right _ _ (Nat.le_refl _), Nat.sub_self, List.set_cons_zero]
  refine ⟨?_, ?_, ?_, ?_⟩
  · intro j c hc hlive
    have hj : j = i := by
      by_contra hne
      rw [List.getElem?_set_ne (Ne.symm hne)] at hc
      have hlast := (h.holds j c hc hlive).2
      omega
    subst hj
    rw [hset, hi, List.getElem?_concat_length] at hc
    cases hc
    refine ⟨by rw [hlocked, hlive]; rfl, ?_⟩
    rw [List.length_set]
    exact hlength
  · intro hboth
    exact ⟨b', List.mem_set (by omega) b', (Bool.and_eq_true_iff.1 hboth).2⟩
  · rw [h.log, hset, hfront, Bridge.log_snoc, Bridge.log_snoc, hgoes.received, List.map_append, hi, List.append_assoc]
  · intro c hc
    rw [hset, List.mem_append, List.mem_singleton] at hc
    rcases hc with hc | rfl
    · apply h.kept
      rw [hfront]
      exact List.mem_append_left _ hc
    · exact hgoes.kept (h.kept b hmem)

/-- The first call starts the thread: nothing was read, sent or ended before it. -/
theorem Inv.thread_starts (h : Inv w) (hshared : w.shared = false) (calls : Nat) (waiting : List Nat) :
    Inv { w with calls, waiting, shared := true, started := w.started + 1, thread := .Reading, slot := none } := by
  obtain ⟨hthread, hslot⟩ := h.fresh hshared
  refine ⟨?_, ?_, h.holds, h.held, ?_, h.log, h.kept, ?_, ?_⟩
  · simp [h.once, hshared]
  · intro hfalse
    cases hfalse
  · have hledger := h.ledger
    rw [hthread, hslot] at hledger
    exact hledger
  · intro b hb hend
    cases hthread.symm.trans (h.ends b hb hend).1
  · intro error hnone
    cases hnone

/-- A call that takes the free lock is the one live bridge. -/
theorem Inv.bridge_locks (h : Inv w) (hunlocked : w.locked = false) (call : Nat) (waiting : List Nat) :
    Inv { w with waiting, locked := true, bridges := w.bridges ++ [.new call] } := by
  refine ⟨h.once, h.fresh, ?_, fun _ => ⟨.new call, by simp, rfl⟩, h.ledger, ?_, ?_, ?_, h.failed⟩
  · intro i b hb hlive
    refine ⟨rfl, ?_⟩
    rcases Nat.lt_or_ge i w.bridges.length with hlt | hge
    · rw [List.getElem?_append_left hlt] at hb
      have hlocked := (h.holds i b hb hlive).1
      cases hunlocked.symm.trans hlocked
    · have hbound := (List.getElem?_eq_some_iff.1 hb).1
      rw [List.length_append, List.length_singleton] at hbound ⊢
      omega
  · rw [h.log, Bridge.log_snoc]
    exact (List.append_nil _).symm
  · intro b hb
    rw [List.mem_append, List.mem_singleton] at hb
    rcases hb with hb | rfl
    · exact h.kept b hb
    · exact Bridge.kept_new call
  · intro b hb hend
    rw [List.mem_append, List.mem_singleton] at hb
    rcases hb with hb | rfl
    · exact h.ends b hb hend
    · cases hend

/-- A thread that is reading, or sends, has been started. -/
theorem Inv.begun (h : Inv w) (hthread : w.thread ≠ .Unstarted) : w.shared ≠ false := by
  intro hshared
  exact hthread (h.fresh hshared).1

theorem Inv.thread_reads (h : Inv w) (hthread : w.thread = .Reading) (chunk : StdinChunk ε) :
    Inv { w with thread := .Sending chunk, read := w.read ++ [chunk] } := by
  refine ⟨h.once, fun hshared => absurd hshared (h.begun (by simp [hthread])), h.holds, h.held, ?_, h.log, h.kept,
    ?_, ?_⟩
  · have hledger := h.ledger
    rw [hthread] at hledger
    simp only [hledger, StdinThread.sending, List.append_nil]
  · intro b hb hend
    cases hthread.symm.trans (h.ends b hb hend).1
  · intro error hslot
    cases hthread.symm.trans (h.failed error hslot)

theorem Inv.thread_returns (h : Inv w) (hthread : w.thread = .Reading) : Inv { w with thread := .Returned } := by
  refine ⟨h.once, fun hshared => absurd hshared (h.begun (by simp [hthread])), h.holds, h.held, ?_, h.log, h.kept,
    ?_, fun _ _ => rfl⟩
  · have hledger := h.ledger
    rw [hthread] at hledger
    exact hledger
  · intro b hb hend
    exact ⟨rfl, (h.ends b hb hend).2⟩

/-- A chunk passes from the thread to the slot, and an error is the thread's last. -/
theorem Inv.thread_sends (h : Inv w) {chunk : StdinChunk ε} (hthread : w.thread = .Sending chunk)
    (hslot : w.slot = none) :
    Inv { w with slot := some chunk, thread := if chunk.failed then .Returned else .Reading } := by
  refine ⟨h.once, fun hshared => absurd hshared (h.begun (by simp [hthread])), h.holds, h.held, ?_, h.log, h.kept,
    ?_, ?_⟩
  · have hledger := h.ledger
    rw [hthread, hslot] at hledger
    simp only [StdinThread.sending, Option.toList_none, List.append_nil] at hledger
    have hsending : (if chunk.failed = true then (.Returned : StdinThread ε) else .Reading).sending = [] := by
      split <;> rfl
    simp only [hledger, hsending, Option.toList_some, List.append_nil]
  · intro b hb hend
    cases hthread.symm.trans (h.ends b hb hend).1
  · intro error herror
    cases herror
    rfl

/-- A chunk passes from the slot to the live bridge. -/
theorem Inv.bridge_takes (h : Inv w) {chunk : StdinChunk ε} (hb : w.bridges[i]? = some b) (hgoes : b.Goes b' [chunk])
    (hslot : w.slot = some chunk) (hend : b'.sawEnd = b.sawEnd) :
    Inv { w with
      slot := none
      handed := w.handed ++ [(i, chunk)]
      bridges := w.bridges.set i b'
      locked := w.locked && b'.live } := by
  obtain ⟨hholds, hheld, hlog, hkept⟩ := h.moved hb hgoes
  refine ⟨h.once, ?_, hholds, hheld, ?_, hlog, hkept, ?_, ?_⟩
  · intro hshared
    cases hslot.symm.trans (h.fresh hshared).2
  · have hledger := h.ledger
    rw [hslot] at hledger
    simp [hledger]
  · intro c hc hsaw
    rcases List.mem_or_eq_of_mem_set hc with hold | rfl
    · cases hslot.symm.trans (h.ends c hold hsaw).2.1
    · rw [hend] at hsaw
      cases hslot.symm.trans (h.ends b (List.mem_of_getElem? hb) hsaw).2.1
  · intro error hnone
    cases hnone

/-- The live bridge goes on by itself, and may be told of the end once nothing is left to hand out. -/
theorem Inv.bridge_goes (h : Inv w) (hb : w.bridges[i]? = some b) (hgoes : b.Goes b' [])
    (hend : b'.sawEnd = true → b.sawEnd = true ∨ (w.thread = .Returned ∧ w.slot = none ∧ b'.unwritten = [])) :
    Inv { w with bridges := w.bridges.set i b', locked := w.locked && b'.live } := by
  obtain ⟨hholds, hheld, hlog, hkept⟩ := h.moved hb hgoes
  rw [List.map_nil, List.append_nil] at hlog
  refine ⟨h.once, h.fresh, hholds, hheld, h.ledger, hlog, hkept, ?_, h.failed⟩
  intro c hc hsaw
  rcases List.mem_or_eq_of_mem_set hc with hold | rfl
  · exact h.ends c hold hsaw
  · rcases hend hsaw with hsaw | hreturned
    · obtain ⟨hthread, hslot, hnone⟩ := h.ends b (List.mem_of_getElem? hb) hsaw
      refine ⟨hthread, hslot, ?_⟩
      rcases hgoes.unwritten with hwritten | ⟨-, hrest⟩ | ⟨octets, hnil, -⟩
      · exact hwritten
      · rw [hnone, List.suffix_nil] at hrest
        exact hrest
      · cases hnil
    · exact hreturned

theorem Inv.moves (h : Inv w) (hmoves : Moves w w') : Inv w' := by
  cases hmoves with
  | queued calls waiting => exact ⟨h.once, h.fresh, h.holds, h.held, h.ledger, h.log, h.kept, h.ends, h.failed⟩
  | started calls waiting hshared => exact h.thread_starts hshared calls waiting
  | locked call waiting hunlocked => exact h.bridge_locks hunlocked call waiting
  | read chunk hthread => exact h.thread_reads hthread chunk
  | returned hthread => exact h.thread_returns hthread
  | sent chunk hthread hslot => exact h.thread_sends hthread hslot
  | took i b b' chunk locked hb hgoes hslot hend hlocked =>
    subst hlocked
    exact h.bridge_takes hb hgoes hslot hend
  | went i b b' locked hb hgoes hend hlocked =>
    subst hlocked
    exact h.bridge_goes hb hgoes hend

/-- What each bridge was handed, in the order they took the lock. -/
def shares (w : StdinWorld ε) : List (List UInt8) := w.bridges.map Bridge.share

/-- Where in stdin the piece of a bridge starts. -/
def start (w : StdinWorld ε) (i : Nat) : Nat := Window.start w.shares i

/-- The octets read and not handed out: in the channel, or with the thread. -/
def pending (w : StdinWorld ε) : List UInt8 := (w.slot.toList ++ w.thread.sending).flatMap StdinChunk.octets

theorem shares_take (w : StdinWorld ε) (n : Nat) : w.shares.take n = (w.bridges.take n).map Bridge.share :=
  List.map_take.symm

theorem share_at (hb : w.bridges[i]? = some b) : w.shares[i]? = some b.share := by
  rw [shares, List.getElem?_map, hb]
  rfl

/-- Stdin is cut into the bridges' shares, and what is still pending. -/
theorem Inv.stdin (h : Inv w) : w.stdin = w.shares.flatten ++ w.pending := by
  have hshares (bridges : List (Bridge ε)) (hkept : ∀ b ∈ bridges, b.Kept) :
      (bridges.flatMap Bridge.received).flatMap StdinChunk.octets = (bridges.map Bridge.share).flatten := by
    induction bridges with
    | nil => rfl
    | cons b bridges ih =>
      rw [List.flatMap_cons, List.flatMap_append, List.map_cons, List.flatten_cons,
        (hkept b List.mem_cons_self).share, ih fun c hc => hkept c (List.mem_cons_of_mem _ hc)]
  rw [StdinWorld.stdin, h.ledger, h.log, Bridge.log_chunks, List.append_assoc, List.flatMap_append,
    hshares w.bridges h.kept]
  rfl

theorem start_next (hb : w.bridges[i]? = some b) : w.start (i + 1) = w.start i + b.share.length :=
  start_succ (share_at hb)

/-- What lies between the starts of two bridges is the shares from the first to the second. -/
theorem Inv.between (h : Inv w) {j : Nat} (hij : i ≤ j) :
    Window.run w.stdin (w.start i) (w.start j - w.start i) = ((w.shares.take j).drop i).flatten := by
  rw [h.stdin]
  exact run_between w.shares w.pending hij

theorem Inv.start_le (h : Inv w) (n : Nat) : w.start n ≤ w.stdin.length := by
  have hall : w.start n ≤ w.shares.flatten.length := by
    have hsplit := congrArg List.length (congrArg List.flatten (List.take_append_drop n w.shares))
    rw [List.flatten_append, List.length_append] at hsplit
    unfold start Window.start
    omega
  rw [h.stdin, List.length_append]
  omega

/-- The bridges from `i` on, when `i` is one of them, split off the first. -/
theorem shares_from (hb : w.bridges[i]? = some b) {j : Nat} (hij : i < j) :
    ((w.shares.take j).drop i).flatten = b.share ++ ((w.shares.take j).drop (i + 1)).flatten := by
  rw [between_cons (share_at hb) hij, List.flatten_cons]

/-- What a bridge wrote is one piece of stdin. -/
theorem Inv.piece (h : Inv w) (hb : w.bridges[i]? = some b) :
    Window.run w.stdin (w.start i) b.written.length = b.written := by
  have hall := h.between (Nat.le_succ i)
  rw [shares_from hb (Nat.lt_succ_self i), Bridge.share, List.append_assoc] at hall
  exact run_begins hall

/-- What a bridge and those after it left between its piece and the start of a later one. -/
theorem Inv.skipped (h : Inv w) (hb : w.bridges[i]? = some b) {j : Nat} (hij : i < j) :
    Window.run w.stdin (w.start i + b.written.length) (w.start j - (w.start i + b.written.length)) =
      b.unwritten ++ ((w.shares.take j).drop (i + 1)).flatten := by
  have hall := h.between (Nat.le_of_lt hij)
  rw [shares_from hb hij, Bridge.share, List.append_assoc] at hall
  rw [← Nat.sub_sub]
  exact run_rest hall

theorem rests_from (hb : w.bridges[i]? = some b) {j : Nat} (hij : i < j) :
    ((w.bridges.take j).drop i).flatMap Bridge.unwritten =
      b.unwritten ++ ((w.bridges.take j).drop (i + 1)).flatMap Bridge.unwritten := by
  rw [between_cons hb hij, List.flatMap_cons]

/-- Bridges that wrote nothing share only what they left. -/
theorem rests_empty {j : Nat} (h : ∀ k c, i < k → k < j → w.bridges[k]? = some c → c.written = []) :
    ((w.shares.take j).drop (i + 1)).flatten = ((w.bridges.take j).drop (i + 1)).flatMap Bridge.unwritten := by
  rw [shares_take, ← List.map_drop, List.flatMap_def]
  congr 1
  apply List.map_congr_left
  intro c hc
  obtain ⟨k, hk⟩ := List.mem_iff_getElem?.1 hc
  rw [List.getElem?_drop] at hk
  have hlt : i + 1 + k < j := by
    have hbound := (List.getElem?_eq_some_iff.1 hk).1
    rw [List.length_take] at hbound
    omega
  rw [List.getElem?_take_of_lt hlt] at hk
  rw [Bridge.share, h (i + 1 + k) c (by omega) hlt hk, List.nil_append]

/-- The live bridge's stdin: all of it from where its piece starts. -/
theorem Inv.live_rest (h : Inv w) (hb : w.bridges[i]? = some b) (hlive : b.live = true) :
    w.stdin.drop (w.start i) = b.written ++ b.unwritten ++ w.pending := by
  obtain ⟨front, hfront, rfl⟩ := h.last hb hlive
  have hshares : w.shares = front.map Bridge.share ++ [b.share] := by rw [shares, hfront, List.map_append]; rfl
  have hstart : w.start front.length = (front.map Bridge.share).flatten.length := by
    rw [start, Window.start, shares_take, hfront, List.take_left]
  rw [h.stdin, hstart, hshares, List.flatten_append, List.flatten_singleton, List.append_assoc, List.drop_left]
  rfl

/-- Bridges that are over stay as they are, and so do those before any live one. -/
theorem Moves.keeps_over (h : Moves w w') {n : Nat} (hn : n ≤ w.bridges.length)
    (hover : ∀ k c, k < n → w.bridges[k]? = some c → c.live = false) :
    w'.bridges.take n = w.bridges.take n ∧ w.read <+: w'.read := by
  have hset {i : Nat} {b b' : Bridge ε} (hb : w.bridges[i]? = some b) (hlive : b.live = true) :
      (w.bridges.set i b').take n = w.bridges.take n := by
    apply List.take_set_of_le
    by_contra hlt
    cases hlive.symm.trans (hover i b (by omega) hb)
  cases h with
  | queued | started | returned | sent => exact ⟨rfl, List.prefix_rfl⟩
  | locked call waiting hlocked => exact ⟨List.take_append_of_le_length hn, List.prefix_rfl⟩
  | read chunk hthread => exact ⟨rfl, List.prefix_append ..⟩
  | took i b b' chunk locked hb hgoes => exact ⟨hset hb hgoes.live, List.prefix_rfl⟩
  | went i b b' locked hb hgoes => exact ⟨hset hb hgoes.live, List.prefix_rfl⟩

theorem Inv.foldl (h : Inv w) (events : List (StdinEvent ε)) : Inv (events.foldl step w) := by
  induction events generalizing w with
  | nil => exact h
  | cons event events ih => exact ih (h.moves (step_moves w event))

theorem inv_run (events : List (StdinEvent ε)) : Inv (run events) := inv_new.foldl events

/-- The same over a run. -/
theorem Inv.run_over (h : Inv w) {n : Nat} (hn : n ≤ w.bridges.length)
    (hover : ∀ k c, k < n → w.bridges[k]? = some c → c.live = false) (events : List (StdinEvent ε)) :
    (events.foldl step w).bridges.take n = w.bridges.take n ∧ w.read <+: (events.foldl step w).read := by
  induction events generalizing w with
  | nil => exact ⟨rfl, List.prefix_rfl⟩
  | cons event events ih =>
    obtain ⟨htake, hread⟩ := (step_moves w event).keeps_over hn hover
    have hlength : n ≤ (w.step event).bridges.length := by
      have hlengths := congrArg List.length htake
      rw [List.length_take, List.length_take] at hlengths
      omega
    obtain ⟨hrest, hreads⟩ := ih (h.moves (step_moves w event)) hlength (by
      intro k c hk hc
      apply hover k c hk
      rw [← List.getElem?_take_of_lt hk, ← htake, List.getElem?_take_of_lt hk]
      exact hc)
    exact ⟨hrest.trans htake, hread.trans hreads⟩

/-- Every bridge before one there is, is over. -/
theorem Inv.over_before (h : Inv w) (hb : w.bridges[i]? = some b) {k : Nat} {c : Bridge ε} (hk : k < i)
    (hc : w.bridges[k]? = some c) : c.live = false := by
  by_contra hlive
  rw [Bool.not_eq_false] at hlive
  have hlast := (h.holds k c hc hlive).2
  have hbound := (List.getElem?_eq_some_iff.1 hb).1
  omega

theorem start_congr {n : Nat} (h : w'.bridges.take n = w.bridges.take n) : w'.start n = w.start n := by
  rw [start, start, Window.start, Window.start, shares_take, shares_take, h]

theorem stdin_prefix (h : w.read <+: w'.read) : w.stdin <+: w'.stdin := by
  obtain ⟨more, hmore⟩ := h
  rw [StdinWorld.stdin, StdinWorld.stdin, ← hmore, List.flatMap_append]
  exact List.prefix_append ..

/-- Once a bridge is over it stays as it was, and all it was handed had been read by then. -/
theorem Inv.over_read (h : Inv w) (hb : w.bridges[i]? = some b) (hover : b.live = false)
    (events : List (StdinEvent ε)) : (events.foldl step w).bridges[i]? = some b ∧
      w.stdin <+: (events.foldl step w).stdin ∧ (events.foldl step w).start (i + 1) ≤ w.stdin.length := by
  have hbound := (List.getElem?_eq_some_iff.1 hb).1
  have hbefore (k : Nat) (c : Bridge ε) (hk : k < i + 1) (hc : w.bridges[k]? = some c) : c.live = false := by
    rcases Nat.lt_or_ge k i with hlt | hge
    · exact h.over_before hb hlt hc
    · have hki : k = i := by omega
      rw [hki, hb] at hc
      cases hc
      exact hover
  obtain ⟨htake, hread⟩ := h.run_over hbound hbefore events
  refine ⟨?_, stdin_prefix hread, ?_⟩
  · rw [← List.getElem?_take_of_lt (Nat.lt_succ_self i), htake, List.getElem?_take_of_lt (Nat.lt_succ_self i)]
    exact hb
  · rw [start_congr htake]
    exact h.start_le (i + 1)

/-- Steps that read nothing more from stdin. -/
def Leads (w t : StdinWorld ε) : Prop :=
  ∃ events : List (StdinEvent ε), events.foldl step w = t ∧ t.read = w.read

theorem Leads.trans {t u : StdinWorld ε} (h : w.Leads t) (h' : t.Leads u) : w.Leads u := by
  obtain ⟨events, hevents, hread⟩ := h
  obtain ⟨more, hmore, hread'⟩ := h'
  refine ⟨events ++ more, ?_, hread'.trans hread⟩
  rw [List.foldl_append, hevents, hmore]

theorem Leads.inv {t : StdinWorld ε} (h : w.Leads t) (hinv : Inv w) : Inv t := by
  obtain ⟨events, rfl, -⟩ := h
  exact hinv.foldl events

theorem setBridge_at (hb : w.bridges[i]? = some b) (b' : Bridge ε) :
    (w.setBridge i b').bridges[i]? = some b' := by
  obtain ⟨hlt, -⟩ := List.getElem?_eq_some_iff.1 hb
  exact List.getElem?_set_self hlt

/-- A bridge in the middle of a chunk writes the rest of it. -/
theorem Inv.flushes (h : Inv w) (hb : w.bridges[i]? = some b) (hreads : b.reads = true) :
    ∃ t c, w.Leads t ∧ t.bridges[i]? = some c ∧ c.phase = .Receiving ∧ t.slot = w.slot ∧ t.thread = w.thread := by
  cases hphase : b.phase with
  | Receiving => exact ⟨w, b, ⟨[], rfl, rfl⟩, hb, hphase, rfl, rfl⟩
  | Writing rest =>
    have hne := (h.kept b (List.mem_of_getElem? hb)).writing rest hphase
    have hlive : b.live = true := by rw [Bridge.live, hphase]
    let wrote : Bridge ε := { b with written := b.written ++ rest }
    have hstep : w.step (.write i (.ok rest.length)) = w.setBridge i (wrote.writeAll []) := by
      simp [step, stepBridge, hb, hlive, hphase, write, hne, wrote]
    refine ⟨_, wrote.writeAll [], ⟨[.write i (.ok rest.length)], hstep, rfl⟩, setBridge_at hb _, ?_, rfl, rfl⟩
    rw [Bridge.writeAll, if_pos rfl]
  | ShuttingDown => simp [Bridge.reads, hphase] at hreads
  | Draining => simp [Bridge.reads, hphase] at hreads
  | Ended how rest => simp [Bridge.reads, hphase] at hreads

/-- A bridge that waits for a chunk takes the one in the slot, and writes it. -/
theorem Inv.takes (h : Inv w) (hb : w.bridges[i]? = some b) (hphase : b.phase = .Receiving) {octets : List UInt8}
    (hslot : w.slot = some (.ok octets)) :
    ∃ t c, w.Leads t ∧ t.bridges[i]? = some c ∧ c.phase = .Receiving ∧ t.slot = none ∧ t.thread = w.thread := by
  have hlive : b.live = true := by rw [Bridge.live, hphase]
  let handed : StdinWorld ε := { w with slot := none, handed := w.handed ++ [(i, .ok octets)] }
  let took : Bridge ε := { b with received := b.received ++ [.ok octets] }
  have hstep : w.step (.recv i) = handed.setBridge i (took.writeAll octets) := by
    simp only [step, stepBridge, hb, hlive, hphase, recv, hslot, if_true]
    rfl
  have hinv : Inv (w.step (.recv i)) := h.moves (step_moves w _)
  have hleads : w.Leads (w.step (.recv i)) := ⟨[.recv i], rfl, by rw [hstep]; rfl⟩
  rw [hstep] at hinv hleads
  have hreads : (took.writeAll octets).reads = true := by
    unfold Bridge.writeAll Bridge.reads
    by_cases hnil : octets = [] <;> simp [hnil]
  obtain ⟨t, c, hmore, hc, hreceiving, hsame, hthread⟩ := hinv.flushes (setBridge_at (w := handed) hb _) hreads
  exact ⟨t, c, hleads.trans hmore, hc, hreceiving, hsame, hthread⟩

/-- A bridge that reads stdin can write all that was read and not handed out. -/
theorem Inv.drains (h : Inv w) (hb : w.bridges[i]? = some b) (hreads : b.reads = true) :
    ∃ t c, w.Leads t ∧ t.bridges[i]? = some c ∧ c.phase = .Receiving ∧ t.pending = [] := by
  -- The chunk in flight, the chunk in the slot, and then the one the thread holds.
  obtain ⟨flushed, c, hleads, hc, hphase, -, -⟩ := h.flushes hb hreads
  have hinv := hleads.inv h
  have hempties : ∀ u : StdinWorld ε, Inv u → w.Leads u → ∀ c, u.bridges[i]? = some c → c.phase = .Receiving →
      u.slot = none → ∃ t c, w.Leads t ∧ t.bridges[i]? = some c ∧ c.phase = .Receiving ∧ t.pending = [] := by
    intro u hu hwu c hc hphase hslot
    have hnone (hsending : u.thread.sending.flatMap StdinChunk.octets = []) : u.pending = [] := by
      rw [pending, hslot]
      exact hsending
    cases hthread : u.thread with
    | Sending chunk =>
      cases chunk with
      | error error => exact ⟨u, c, hwu, hc, hphase, hnone (by rw [hthread]; rfl)⟩
      | ok octets =>
        have hstep : u.step .send = { u with slot := some (.ok octets), thread := .Reading } := by
          simp [step, send, hthread, hslot, StdinChunk.failed]
        have hsent : Inv (u.step .send) := hu.moves (step_moves u _)
        have huv : u.Leads (u.step .send) := ⟨[.send], rfl, by rw [hstep]⟩
        rw [hstep] at hsent huv
        obtain ⟨t, c, hmore, hc, hphase, hslot, hthread⟩ := hsent.takes (b := c) hc hphase rfl
        refine ⟨t, c, hwu.trans (huv.trans hmore), hc, hphase, ?_⟩
        rw [pending, hslot, hthread]
        rfl
    | Unstarted => exact ⟨u, c, hwu, hc, hphase, hnone (by rw [hthread]; rfl)⟩
    | Reading => exact ⟨u, c, hwu, hc, hphase, hnone (by rw [hthread]; rfl)⟩
    | Returned => exact ⟨u, c, hwu, hc, hphase, hnone (by rw [hthread]; rfl)⟩
  cases hslot : flushed.slot with
  | none => exact hempties flushed hinv hleads c hc hphase hslot
  | some chunk =>
    cases chunk with
    | error error =>
      refine ⟨flushed, c, hleads, hc, hphase, ?_⟩
      rw [pending, hslot, hinv.failed error hslot]
      rfl
    | ok octets =>
      obtain ⟨taken, c, hmore, hc, hphase, hempty, -⟩ := hinv.takes hc hphase hslot
      exact hempties taken (hmore.inv hinv) (hleads.trans hmore) c hc hphase hempty

/-- A bridge that reads stdin can write all of it from where its piece starts. -/
theorem Inv.catches_up (h : Inv w) (hb : w.bridges[i]? = some b) (hreads : b.reads = true) :
    ∃ (more : List (StdinEvent ε)) (c : Bridge ε), (more.foldl step w).read = w.read ∧
      (more.foldl step w).bridges[i]? = some c ∧ c.written = w.stdin.drop (w.start i) := by
  obtain ⟨t, c, ⟨more, rfl, hread⟩, hc, hphase, hpending⟩ := h.drains hb hreads
  refine ⟨more, c, hread, hc, ?_⟩
  have hbound := (List.getElem?_eq_some_iff.1 hb).1
  obtain ⟨htake, -⟩ := h.run_over (Nat.le_of_lt hbound) (fun k c hk hc => h.over_before hb hk hc) more
  have hlive : c.live = true := by rw [Bridge.live, hphase]
  have hnone : c.unwritten = [] := by rw [Bridge.unwritten, hphase]
  have hall := (h.foldl more).live_rest hc hlive
  rw [hnone, hpending, List.append_nil, List.append_nil, start_congr htake, StdinWorld.stdin, hread] at hall
  exact hall.symm

end StdinWorld

/-- One stdin, many bridges. In every run: one thread is started at most, and the lock is held exactly while
a bridge is live, one at most; what the thread read is what was handed out, each chunk once and in order and
bridge by bridge, and then the chunk in the channel and the one it sends; what each bridge wrote is one piece
of stdin, past those before it, and between two pieces lie only the unwritten rests of the bridges from the
first to the second, each the end of one chunk; whatever was read after a bridge was over lies past all it
and those before it were handed; the live bridge has all of stdin from where its piece starts, written, in
flight or coming, and while it reads it can write every octet read; and a bridge that took stdin as ended was
told so once the thread had returned and every chunk was handed out. -/
theorem stdin_bridges (events : List (StdinEvent ε)) :
    let w := StdinWorld.run events
    w.started ≤ 1 ∧
    ((w.locked = true ↔ ∃ b ∈ w.bridges, b.live = true) ∧
      ∀ (i j : Nat) (b c : Bridge ε), w.bridges[i]? = some b → w.bridges[j]? = some c →
        b.live = true → c.live = true → i = j) ∧
    (w.read = w.handed.map Prod.snd ++ w.slot.toList ++ w.thread.sending ∧ w.handed = Bridge.log w.bridges) ∧
    (∀ (i : Nat) (b : Bridge ε), w.bridges[i]? = some b → Window.run w.stdin (w.start i) b.written.length = b.written ∧
      ∀ j, i < j → w.start i + b.written.length ≤ w.start j) ∧
    (∀ (i j : Nat) (b : Bridge ε), i < j → w.bridges[i]? = some b →
      (∀ (k : Nat) (c : Bridge ε), i < k → k < j → w.bridges[k]? = some c → c.written = []) →
      Window.run w.stdin (w.start i + b.written.length) (w.start j - (w.start i + b.written.length)) =
        ((w.bridges.take j).drop i).flatMap Bridge.unwritten) ∧
    (∀ b ∈ w.bridges, b.unwritten = [] ∨
      ∃ octets, b.received.getLast? = some (.ok octets) ∧ b.unwritten <:+ octets) ∧
    (∀ done rest (i : Nat) (b : Bridge ε), events = done ++ rest →
      (StdinWorld.run done).bridges[i]? = some b → b.live = false →
      w.bridges[i]? = some b ∧ (StdinWorld.run done).stdin <+: w.stdin ∧
        w.start (i + 1) ≤ (StdinWorld.run done).stdin.length) ∧
    (∀ (i : Nat) (b : Bridge ε), w.bridges[i]? = some b → b.live = true →
      w.stdin.drop (w.start i) = b.written ++ b.unwritten ++ w.pending) ∧
    (∀ (i : Nat) (b : Bridge ε), w.bridges[i]? = some b → b.reads = true →
      ∃ (more : List (StdinEvent ε)) (c : Bridge ε), (StdinWorld.run (events ++ more)).read = w.read ∧
        (StdinWorld.run (events ++ more)).bridges[i]? = some c ∧ c.written = w.stdin.drop (w.start i)) ∧
    (∀ b ∈ w.bridges, b.sawEnd = true → w.thread = .Returned ∧ w.slot = none ∧
      w.read = w.handed.map Prod.snd ∧ b.unwritten = []) := by
  intro w
  have h : w.Inv := StdinWorld.inv_run events
  refine ⟨?_, ⟨⟨h.held, ?_⟩, ?_⟩, ⟨h.ledger, h.log⟩, ?_, ?_, fun b hb => (h.kept b hb).unwritten, ?_, ?_, ?_, ?_⟩
  · rw [h.once]
    split <;> omega
  · rintro ⟨b, hb, hlive⟩
    obtain ⟨i, hi⟩ := List.mem_iff_getElem?.1 hb
    exact (h.holds i b hi hlive).1
  · intro i j b c hb hc hblive hclive
    have hi := (h.holds i b hb hblive).2
    have hj := (h.holds j c hc hclive).2
    omega
  · intro i b hb
    refine ⟨h.piece hb, ?_⟩
    intro j hij
    have hnext := StdinWorld.start_next hb
    have hlater : w.start (i + 1) ≤ w.start j := Window.start_mono w.shares hij
    rw [Bridge.share, List.length_append] at hnext
    omega
  · intro i j b hij hb hempty
    rw [h.skipped hb hij, StdinWorld.rests_from hb hij, StdinWorld.rests_empty hempty]
  · rintro done rest i b hsplit hb hover
    have hlater := (StdinWorld.inv_run done).over_read hb hover rest
    have hw : w = rest.foldl StdinWorld.step (StdinWorld.run done) := by
      rw [StdinWorld.run, ← List.foldl_append, ← hsplit]
      rfl
    rw [hw]
    exact hlater
  · intro i b hb hlive
    exact h.live_rest hb hlive
  · intro i b hb hreads
    obtain ⟨more, c, hread, hc, hwritten⟩ := h.catches_up hb hreads
    refine ⟨more, c, ?_, ?_, hwritten⟩
    · rw [StdinWorld.run, List.foldl_append]
      exact hread
    · rw [StdinWorld.run, List.foldl_append]
      exact hc
  · intro b hb hend
    obtain ⟨hthread, hslot, hnone⟩ := h.ends b hb hend
    refine ⟨hthread, hslot, ?_, hnone⟩
    rw [h.ledger, hslot, hthread, Option.toList_none, List.append_nil]
    exact List.append_nil _

/-- The first bridge ends in the middle of a chunk, and the second has what is read from then on. -/
example :
    (StdinWorld.run [.call true, .lock 0, .call true, .read (.Read [1, 2, 3] (by decide)), .send, .recv 0,
      .write 0 (.ok 2), .finish 0 (.ok ()), .lock 1, .read (.Read [4] (by decide)), .send, .recv 1, .write 1 (.ok 1),
      .read (.Read [] (by decide)), .recv 1] : StdinWorld Unit).bridges.map (fun b =>
        (b.written, b.unwritten, b.sawEnd)) = [([1, 2], [3], false), ([4], [], true)] := by
  decide

end Tightbeam
