import Tightbeam.Nauthy

/-!
# The stdin seat

One reader that cannot be re-opened, lent to one peer at a time. A dial meets the seat in `take`, a
lent reader comes back through `putBack`, and a dialer that displaces a stalled holder waits on a
one-shot channel for the reader the holder's guard sends it.
-/
namespace Tightbeam

/-- The standard library's poll. -/
inductive Poll (α : Type) where
  | Pending
  | Ready (value : α)
  deriving DecidableEq, Repr

/-- Instants and durations are nanoseconds, and a difference of instants saturates at zero. -/
def secs (n : Nat) : Nat := n * 1000000000

def stallWindow : Nat := secs 90

def stallMinBytes : Nat := 128 * 1024

def stallClear : Nat := secs 1

namespace Gauge

/-- What the holder's writer was last doing. -/
inductive Writer where
  | Unrefused
  | Refused
  | ClearSince (clear : Nat)
  deriving DecidableEq, Repr

/-- When a stall window opened or last restarted, and the bytes taken in it since. -/
structure Window where
  opened : Nat
  taken : Nat
  deriving DecidableEq, Repr

end Gauge

/-- The meter's state. -/
structure Gauge where
  writer : Gauge.Writer
  window : Option Gauge.Window
  deriving DecidableEq, Repr

namespace Gauge

def new : Gauge := ⟨.Unrefused, none⟩

/-- A window has opened, and the writer has not since gone a clean `stallClear` with every write taken. -/
def isOpen (gauge : Gauge) (now : Nat) : Bool :=
  match gauge.window, gauge.writer with
  | none, _ => false
  | some _, .Unrefused => false
  | some _, .Refused => true
  | some _, .ClearSince clear => now - clear < stallClear

/-- Record one write's outcome. A failed write ends the splice, so there is nothing left to judge. -/
def record (gauge : Gauge) (polled : Poll (Except Unit Nat)) (now : Nat) : Gauge :=
  match polled with
  | .Pending =>
    if gauge.writer = .Refused then gauge
    else
      { writer := .Refused
        window := if gauge.isOpen now then gauge.window else some ⟨now, 0⟩ }
  | .Ready (.ok taken) =>
    { writer := if gauge.writer = .Refused then .ClearSince now else gauge.writer
      window := gauge.window.map fun window =>
        if stallMinBytes ≤ window.taken + taken then ⟨now, 0⟩
        else { window with taken := window.taken + taken } }
  | .Ready (.error _) => gauge

/-- Whether a dialer at `now` may displace this holder. -/
def preemptible (gauge : Gauge) (now : Nat) : Bool :=
  match gauge.window with
  | some window => gauge.isOpen now && decide (stallWindow ≤ now - window.opened)
  | none => false

end Gauge

/-- One poll of a reader: the room it was given, and what it put there. -/
structure Read where
  asked : Nat
  polled : Poll (Except Unit Nat)
  deriving DecidableEq, Repr

/-- End of input is a ready read that filled nothing into a buffer that had room; it or an error spends
the reader. -/
def Read.ended (read : Read) : Bool :=
  match read.polled with
  | .Ready (.ok filled) => decide (0 < read.asked) && filled == 0
  | .Ready (.error _) => true
  | .Pending => false

/-- The seat's one source, with every poll it has answered. -/
structure BoxRead where
  fd : Nat
  answered : List Read
  deriving DecidableEq, Repr

def BoxRead.answer (reader : BoxRead) (read : Read) : BoxRead :=
  { reader with answered := reader.answered ++ [read] }

inductive Lent where
  | Reading (reader : BoxRead)
  | Ended
  deriving DecidableEq, Repr

structure SeatReader where
  lent : Option Lent
  deriving DecidableEq, Repr

/-- A seat taken. The link names the meter and the preempt channel it shares with its holder. -/
structure Seated where
  reader : SeatReader
  link : Nat
  deriving DecidableEq, Repr

structure Holder where
  peer : NodeId
  link : Nat
  deriving DecidableEq

/-- A hand-off in flight: the waiting dialer, and the channel its grant goes through. -/
structure Handoff where
  dialer : NodeId
  grant : Nat
  deriving DecidableEq

inductive Grant where
  | Seated (seated : Tightbeam.Seated)
  | Spent
  deriving DecidableEq, Repr

/-- Where the reader is. -/
inductive Cell where
  | Armed (reader : BoxRead)
  | Held (holder : Holder)
  | Handing (handoff : Handoff)
  | Spent
  deriving DecidableEq

inductive SeatRefusal where
  | Held | Spent
  deriving DecidableEq, Repr

inductive Take where
  | Seated (seated : Tightbeam.Seated)
  | Waiting (grant : Nat)
  | Refused (refusal : SeatRefusal)
  deriving DecidableEq, Repr

/-- A dialer parked in `claim`: its receiver, and the grant sent on it and not yet received. -/
structure Waiter where
  dialer : NodeId
  grant : Nat
  inbox : Option Grant
  deriving DecidableEq

/-- A line of the host's log. -/
inductive SeatLine where
  | Displaced (holder dialer : NodeId)
  | EndOfInput
  | Stray
  deriving DecidableEq

/-- The locked cell, and what its transitions reach: the meters and the preempt channels by link, the
receivers still waiting, the names not yet given out, the log, and the readers dropped for good. -/
structure Seat where
  cell : Cell
  gauges : Nat → Gauge
  preempted : List Nat
  waiting : List Waiter
  next : Nat
  log : List SeatLine
  gone : List BoxRead

/-- Send on a one-shot channel, which fails with the value once the receiver is dropped. -/
def deliver (grant : Nat) (value : Grant) : List Waiter → Except Grant (List Waiter)
  | [] => .error value
  | waiter :: rest =>
    if waiter.grant = grant then .ok ({ waiter with inbox := some value } :: rest)
    else (deliver grant value rest).map (waiter :: ·)

namespace Seat

def new (reader : BoxRead) : Seat := ⟨.Armed reader, fun _ => .new, [], [], 0, [], []⟩

/-- Seat `peer` with `reader`: a fresh meter and a fresh preempt channel, under one new link. -/
def seat (s : Seat) (peer : NodeId) (reader : BoxRead) : Seat × Holder × Seated :=
  ({ s with gauges := fun link => if link = s.next then .new else s.gauges link, next := s.next + 1 },
    ⟨peer, s.next⟩, ⟨⟨some (.Reading reader)⟩, s.next⟩)

/-- Decide one dial. -/
def take (s : Seat) (dialer : NodeId) (now : Nat) : Seat × Take :=
  match s.cell with
  | .Armed reader =>
    let (s, holder, seated) := s.seat dialer reader
    ({ s with cell := .Held holder }, .Seated seated)
  | .Spent => (s, .Refused .Spent)
  | .Handing _ => (s, .Refused .Held)
  | .Held holder =>
    if holder.peer = dialer ∨ (s.gauges holder.link).preemptible now = false then (s, .Refused .Held)
    else
      ({ s with
          cell := .Handing ⟨dialer, s.next⟩
          preempted := holder.link :: s.preempted
          waiting := ⟨dialer, s.next, none⟩ :: s.waiting
          next := s.next + 1
          log := s.log ++ [.Displaced holder.peer dialer] }, .Waiting s.next)

/-- Receive the reader back from a guard: re-arm it, hand it to a waiting dialer, or retire the seat. -/
def putBack (s : Seat) (lent : Lent) : Seat :=
  -- A reader coming back to a seat nobody held: the seat stays as it is and the stray is dropped.
  let stray : Seat :=
    { s with
      log := s.log ++ [.Stray]
      gone := match lent with
        | .Reading reader => s.gone ++ [reader]
        | .Ended => s.gone }
  match s.cell with
  | .Armed _ => stray
  | .Spent => stray
  | .Held _ => match lent with
    | .Ended => { s with cell := .Spent, log := s.log ++ [.EndOfInput] }
    | .Reading reader => { s with cell := .Armed reader }
  | .Handing handoff => match lent with
    | .Ended =>
      { s with
        cell := .Spent
        log := s.log ++ [.EndOfInput]
        waiting := match deliver handoff.grant .Spent s.waiting with
          | .ok waiting => waiting
          | .error _ => s.waiting }
    | .Reading reader =>
      let (s, holder, seated) := s.seat handoff.dialer reader
      match deliver handoff.grant (.Seated seated) s.waiting with
      | .ok waiting => { s with cell := .Held holder, waiting }
      -- The dialer gave up: the reader is taken out of the undelivered guard, whose drop then does nothing.
      | .error (.Seated ⟨⟨some (.Reading reader)⟩, _⟩) => { s with cell := .Armed reader }
      | .error _ => { s with cell := .Held holder }

/-- Poll a lent reader. The read that reaches the end drops it and spends the seat at once, and every
later read is end of input too. -/
def pollRead (s : Seat) (reader : SeatReader) (read : Read) : Seat × SeatReader :=
  match reader.lent with
  | some (.Reading source) =>
    if read.ended then
      (({ s with gone := s.gone ++ [source.answer read] } : Seat).putBack .Ended, ⟨none⟩)
    else (s, ⟨some (.Reading (source.answer read))⟩)
  | some .Ended => (s, reader)
  | none => (s, reader)

/-- Drop a guard, however its splice ended. -/
def dropReader (s : Seat) (reader : SeatReader) : Seat :=
  match reader.lent with
  | some lent => s.putBack lent
  | none => s

end Seat

/-- What a claim returns for what it received, or for nothing received in time. -/
def claimed : Option Grant → Except SeatRefusal Seated
  | some (.Seated seated) => .ok seated
  | some .Spent => .error .Spent
  | none => .error .Held

end Tightbeam
