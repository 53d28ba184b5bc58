import Tightbeam.Seat
import Tightbeam.Library.Turns

/-!
# The first-traffic bound

A handler is served over the two halves of its stream, each watched for the first octet it carries, and
races a deadline that asks once whether any moved. What a half answers is its own affair, and so is what
the handler does: both are parameters.
-/
namespace Tightbeam

open Turns

def firstTrafficTimeout : Nat := secs 10

/-- A buffer being read into: what is filled already, and how much it holds. -/
structure ReadBuf where
  filled : List UInt8
  capacity : Nat
  fits : filled.length ≤ capacity

/-- Octets there is room for. -/
abbrev ReadBuf.Room (buf : ReadBuf) := { put : List UInt8 // buf.filled.length + put.length ≤ buf.capacity }

def ReadBuf.put (buf : ReadBuf) (octets : buf.Room) : ReadBuf :=
  ⟨buf.filled ++ octets.val, buf.capacity, by rw [List.length_append]; exact octets.property⟩

/-- A reader: what each poll puts into the buffer, and what it returns. -/
structure AsyncRead (ε R : Type) where
  pollRead : R → (buf : ReadBuf) → (Poll (Except ε Unit) × buf.Room) × R

structure AsyncWrite (ε W : Type) where
  pollWrite : W → List UInt8 → Poll (Except ε Nat) × W
  pollWriteVectored : W → List (List UInt8) → Poll (Except ε Nat) × W
  isWriteVectored : W → Bool
  pollFlush : W → Poll (Except ε Unit) × W
  pollShutdown : W → Poll (Except ε Unit) × W

/-- The bit the two halves of a stream share. -/
structure FirstTraffic where
  set : Bool
  deriving DecidableEq, Repr

def FirstTraffic.new : FirstTraffic := ⟨false⟩

def FirstTraffic.moved (_ : FirstTraffic) : FirstTraffic := ⟨true⟩

/-- Where a deadline on silence stands: not polled yet, its timer set, or never to resolve. -/
inductive SilentPast where
  | Unpolled
  | Sleeping (due : Nat)
  | Parked
  deriving DecidableEq, Repr

/-- One poll of the task: when it comes, and whether the timer driver has completed a sleep that is due. -/
structure Wake where
  now : Nat
  fires : Bool

/-- Poll a sleep, and the bit once it is over. -/
def SilentPast.pollSleep (due : Nat) (traffic : FirstTraffic) (wake : Wake) : Bool × SilentPast :=
  if due ≤ wake.now ∧ wake.fires = true then if traffic.set then (false, .Parked) else (true, .Sleeping due)
  else (false, .Sleeping due)

/-- Poll the deadline: whether it resolves. -/
def SilentPast.poll (deadline : Nat) (traffic : FirstTraffic) (wake : Wake) : SilentPast → Bool × SilentPast
  | .Unpolled => pollSleep (wake.now + deadline) traffic wake
  | .Sleeping due => pollSleep due traffic wake
  | .Parked => (false, .Parked)

namespace Watched

variable {ε R W : Type}

def pollRead (half : AsyncRead ε R) (reader : R) (traffic : FirstTraffic) (buf : ReadBuf) :
    (Poll (Except ε Unit) × buf.Room) × R × FirstTraffic :=
  let before := buf.filled.length
  let (polled, reader) := half.pollRead reader buf
  let traffic := if before < (buf.put polled.2).filled.length then traffic.moved else traffic
  (polled, reader, traffic)

/-- `Poll::Ready(Ok(1..))`. -/
def carried : Poll (Except ε Nat) → Bool
  | .Ready (.ok written) => decide (1 ≤ written)
  | _ => false

def pollWrite (half : AsyncWrite ε W) (writer : W) (traffic : FirstTraffic) (buf : List UInt8) :
    Poll (Except ε Nat) × W × FirstTraffic :=
  let (polled, writer) := half.pollWrite writer buf
  let traffic := if carried polled then traffic.moved else traffic
  (polled, writer, traffic)

def pollWriteVectored (half : AsyncWrite ε W) (writer : W) (traffic : FirstTraffic) (bufs : List (List UInt8)) :
    Poll (Except ε Nat) × W × FirstTraffic :=
  let (polled, writer) := half.pollWriteVectored writer bufs
  let traffic := if carried polled then traffic.moved else traffic
  (polled, writer, traffic)

def isWriteVectored (half : AsyncWrite ε W) (writer : W) : Bool := half.isWriteVectored writer

def pollFlush (half : AsyncWrite ε W) (writer : W) : Poll (Except ε Unit) × W := half.pollFlush writer

def pollShutdown (half : AsyncWrite ε W) (writer : W) : Poll (Except ε Unit) × W := half.pollShutdown writer

end Watched

/-- A call of a handler on one of its halves. -/
inductive HalfCall where
  | read (buf : ReadBuf)
  | write (buf : List UInt8)
  | writeVectored (bufs : List (List UInt8))
  | isWriteVectored
  | flush
  | shutdown

/-- What the call returns; a read also fills its buffer. -/
def HalfCall.Answer (ε : Type) : HalfCall → Type
  | .read buf => Poll (Except ε Unit) × buf.Room
  | .write _ => Poll (Except ε Nat)
  | .writeVectored _ => Poll (Except ε Nat)
  | .isWriteVectored => Bool
  | .flush => Poll (Except ε Unit)
  | .shutdown => Poll (Except ε Unit)

section Halves

variable {ε R W : Type} (reader : AsyncRead ε R) (writer : AsyncWrite ε W)

/-- The two halves as they are. -/
def bareHalves : Object HalfCall (HalfCall.Answer ε) (R × W)
  | .read buf, (r, w) =>
    let (answer, r) := reader.pollRead r buf
    (answer, r, w)
  | .write buf, (r, w) =>
    let (answer, w) := writer.pollWrite w buf
    (answer, r, w)
  | .writeVectored bufs, (r, w) =>
    let (answer, w) := writer.pollWriteVectored w bufs
    (answer, r, w)
  | .isWriteVectored, (r, w) => (writer.isWriteVectored w, r, w)
  | .flush, (r, w) =>
    let (answer, w) := writer.pollFlush w
    (answer, r, w)
  | .shutdown, (r, w) =>
    let (answer, w) := writer.pollShutdown w
    (answer, r, w)

/-- The two halves as a handler gets them, both watched by one bit. -/
def watchedHalves : Object HalfCall (HalfCall.Answer ε) ((R × W) × FirstTraffic)
  | .read buf, ((r, w), traffic) =>
    let (answer, r, traffic) := Watched.pollRead reader r traffic buf
    (answer, (r, w), traffic)
  | .write buf, ((r, w), traffic) =>
    let (answer, w, traffic) := Watched.pollWrite writer w traffic buf
    (answer, (r, w), traffic)
  | .writeVectored bufs, ((r, w), traffic) =>
    let (answer, w, traffic) := Watched.pollWriteVectored writer w traffic bufs
    (answer, (r, w), traffic)
  | .isWriteVectored, ((r, w), traffic) => (Watched.isWriteVectored writer w, (r, w), traffic)
  | .flush, ((r, w), traffic) =>
    let (answer, w) := Watched.pollFlush writer w
    (answer, (r, w), traffic)
  | .shutdown, ((r, w), traffic) =>
    let (answer, w) := Watched.pollShutdown writer w
    (answer, (r, w), traffic)

variable {reader writer}

/-- The octets a call moved, whatever it returned beside them. -/
def octets : Answered HalfCall (HalfCall.Answer ε) → Nat
  | ⟨.read _, (_, put)⟩ => put.val.length
  | ⟨.write _, .Ready (.ok written)⟩ => written
  | ⟨.writeVectored _, .Ready (.ok written)⟩ => written
  | _ => 0

def moved (answer : Answered HalfCall (HalfCall.Answer ε)) : Bool := decide (0 < octets answer)

/-- What the watch notes of an answer. -/
def note (traffic : FirstTraffic) (answer : Answered HalfCall (HalfCall.Answer ε)) : FirstTraffic :=
  ⟨traffic.set || moved answer⟩

theorem note_if (traffic : FirstTraffic) {answer : Answered HalfCall (HalfCall.Answer ε)} {carried : Bool}
    (h : moved answer = carried) : (if carried = true then traffic.moved else traffic) = note traffic answer := by
  rw [note, h]
  cases carried with
  | true => simp [FirstTraffic.moved]
  | false => simp

theorem moved_read (buf : ReadBuf) (answer : Poll (Except ε Unit) × buf.Room) :
    moved (ε := ε) ⟨.read buf, answer⟩ = decide (buf.filled.length < (buf.put answer.2).filled.length) := by
  obtain ⟨polled, put⟩ := answer
  apply decide_eq_decide.2
  simp only [octets, ReadBuf.put, List.length_append]
  omega

theorem moved_write (buf : List UInt8) (polled : Poll (Except ε Nat)) :
    moved (ε := ε) ⟨.write buf, polled⟩ = Watched.carried polled := by
  match polled with
  | .Pending => rfl
  | .Ready (.error _) => rfl
  | .Ready (.ok _) => rfl

theorem moved_writeVectored (bufs : List (List UInt8)) (polled : Poll (Except ε Nat)) :
    moved (ε := ε) ⟨.writeVectored bufs, polled⟩ = Watched.carried polled := by
  match polled with
  | .Pending => rfl
  | .Ready (.error _) => rfl
  | .Ready (.ok _) => rfl

/-- The watched halves answer as the bare ones do, and the bit is set by the first octet either moves. -/
theorem watchedHalves_wraps : Wraps (bareHalves reader writer) (watchedHalves reader writer) note := by
  intro call halves traffic
  obtain ⟨r, w⟩ := halves
  cases call with
  | read buf =>
    have hnote := note_if traffic (moved_read buf (reader.pollRead r buf).1)
    simp only [decide_eq_true_eq] at hnote
    simp only [watchedHalves, bareHalves, Watched.pollRead, hnote]
  | write buf =>
    simp only [watchedHalves, bareHalves, Watched.pollWrite]
    rw [note_if traffic (moved_write buf _)]
  | writeVectored bufs =>
    simp only [watchedHalves, bareHalves, Watched.pollWriteVectored]
    rw [note_if traffic (moved_writeVectored bufs _)]
  | isWriteVectored => simp [watchedHalves, bareHalves, note, moved, octets, Watched.isWriteVectored]
  | flush => simp [watchedHalves, bareHalves, note, moved, octets, Watched.pollFlush]
  | shutdown => simp [watchedHalves, bareHalves, note, moved, octets, Watched.pollShutdown]

end Halves

/-- How the dispatch of a handler ends: with the handler's own result, or with the drop of a silent
stream, which is logged and is no error. -/
inductive ServeEnd (ρ : Type) where
  | Finished (result : ρ)
  | Silent
  deriving DecidableEq

/-- A handler being served over its watched halves, and the deadline it races. -/
structure ServedHandler (ε σ ρ R W : Type) where
  served : σ
  halves : R × W
  traffic : FirstTraffic
  silence : SilentPast
  ended : Option (ServeEnd ρ)
  answers : List (Answered HalfCall (HalfCall.Answer ε))

/-- The same handler over its bare halves, with nothing to race. -/
structure Unbounded (ε σ ρ R W : Type) where
  served : σ
  halves : R × W
  ended : Option ρ
  answers : List (Answered HalfCall (HalfCall.Answer ε))

section Serve

variable {ε σ ρ R W : Type} (handler : σ → Turn HalfCall (HalfCall.Answer ε) σ ρ) (reader : AsyncRead ε R)
  (writer : AsyncWrite ε W)

namespace ServedHandler

/-- The handoff, once the success frame is written. -/
def handoff (served : σ) (halves : R × W) : ServedHandler ε σ ρ R W :=
  ⟨served, halves, .new, .Unpolled, none, []⟩

/-- One poll of the dispatch: the handler first, and the deadline only if the handler is not done. -/
def poll (s : ServedHandler ε σ ρ R W) (wake : Wake) : ServedHandler ε σ ρ R W :=
  match s.ended with
  | some _ => s
  | none =>
    let polled := (handler s.served).run (watchedHalves reader writer) (s.halves, s.traffic)
    let (halves, traffic) := polled.object
    let s := { s with halves, traffic, answers := s.answers ++ polled.answers }
    match polled.last with
    | .inr result => { s with ended := some (.Finished result) }
    | .inl served =>
      let (resolved, silence) := s.silence.poll firstTrafficTimeout traffic wake
      { s with served, silence, ended := if resolved then some .Silent else none }

def run (served : σ) (halves : R × W) (wakes : List Wake) : ServedHandler ε σ ρ R W :=
  wakes.foldl (poll handler reader writer) (handoff served halves)

end ServedHandler

namespace Unbounded

def start (served : σ) (halves : R × W) : Unbounded ε σ ρ R W := ⟨served, halves, none, []⟩

def poll (s : Unbounded ε σ ρ R W) : Unbounded ε σ ρ R W :=
  match s.ended with
  | some _ => s
  | none =>
    let polled := (handler s.served).run (bareHalves reader writer) s.halves
    let s := { s with halves := polled.object, answers := s.answers ++ polled.answers }
    match polled.last with
    | .inr result => { s with ended := some result }
    | .inl served => { s with served }

/-- As many polls. -/
def run (served : σ) (halves : R × W) : Nat → Unbounded ε σ ρ R W
  | 0 => start served halves
  | n + 1 => (run served halves n).poll handler reader writer

end Unbounded

variable {handler reader writer}

theorem foldl_note (traffic : FirstTraffic) (answers : List (Answered HalfCall (HalfCall.Answer ε))) :
    answers.foldl note traffic = ⟨traffic.set || answers.any moved⟩ := by
  induction answers generalizing traffic with
  | nil => simp
  | cons answer answers ih => rw [List.foldl_cons, ih, note, List.any_cons, Bool.or_assoc]

namespace ServedHandler

/-- A run so far that was not dropped: the handler's own, with the bit set by what it moved and the
deadline counted from its first poll. -/
structure Follows (s : ServedHandler ε σ ρ R W) (u : Unbounded ε σ ρ R W) (wakes : List Wake) : Prop where
  served : s.served = u.served
  halves : s.halves = u.halves
  answers : s.answers = u.answers
  ended : s.ended = u.ended.map .Finished
  traffic : s.traffic.set = s.answers.any moved
  unpolled : wakes = [] → s.silence = .Unpolled
  sleeping : ∀ first, s.ended = none → wakes.head? = some first →
    s.silence = .Sleeping (first.now + firstTrafficTimeout) ∨ (s.silence = .Parked ∧ s.traffic.set = true)

/-- The timer set by the first of the polls is over at this one, and the driver has completed it. -/
def Due (wakes : List Wake) (wake : Wake) : Prop :=
  ∃ first, (wakes ++ [wake]).head? = some first ∧ first.now + firstTrafficTimeout ≤ wake.now ∧ wake.fires = true

/-- A run whose last poll dropped the stream. -/
structure Dropped (s : ServedHandler ε σ ρ R W) (u : Unbounded ε σ ρ R W) (wakes : List Wake) (wake : Wake) :
    Prop where
  served : s.served = u.served
  halves : s.halves = u.halves
  answers : s.answers = u.answers
  ended : s.ended = some .Silent
  pending : u.ended = none
  silent : s.answers.any moved = false
  due : Due wakes wake

theorem firstTrafficTimeout_pos : 0 < firstTrafficTimeout := by decide

section Poll

variable {s : ServedHandler ε σ ρ R W} {u : Unbounded ε σ ρ R W} {wakes : List Wake}

/-- One poll of the handler over its bare halves. -/
def bare (handler : σ → Turn HalfCall (HalfCall.Answer ε) σ ρ) (reader : AsyncRead ε R) (writer : AsyncWrite ε W)
    (served : σ) (halves : R × W) : Polled HalfCall (HalfCall.Answer ε) (R × W) σ ρ :=
  (handler served).run (bareHalves reader writer) halves

theorem poll_done (hended : s.ended = none) (wake : Wake) {result : ρ}
    (hlast : (bare handler reader writer s.served s.halves).last = .inr result) :
    s.poll handler reader writer wake =
      { s with
        halves := (bare handler reader writer s.served s.halves).object
        traffic := ⟨s.traffic.set || (bare handler reader writer s.served s.halves).answers.any moved⟩
        answers := s.answers ++ (bare handler reader writer s.served s.halves).answers
        ended := some (.Finished result) } := by
  rw [bare] at hlast
  simp only [poll, hended, watchedHalves_wraps.run, foldl_note, hlast, bare]

theorem poll_yields (hended : s.ended = none) (wake : Wake) {served : σ}
    (hlast : (bare handler reader writer s.served s.halves).last = .inl served) :
    s.poll handler reader writer wake =
      { s with
        served
        halves := (bare handler reader writer s.served s.halves).object
        traffic := ⟨s.traffic.set || (bare handler reader writer s.served s.halves).answers.any moved⟩
        answers := s.answers ++ (bare handler reader writer s.served s.halves).answers
        silence := (s.silence.poll firstTrafficTimeout
          ⟨s.traffic.set || (bare handler reader writer s.served s.halves).answers.any moved⟩ wake).2
        ended := if (s.silence.poll firstTrafficTimeout
          ⟨s.traffic.set || (bare handler reader writer s.served s.halves).answers.any moved⟩ wake).1
          then some .Silent else none } := by
  rw [bare] at hlast
  simp only [poll, hended, watchedHalves_wraps.run, foldl_note, hlast, bare]
  rfl

theorem unbounded_done (hended : u.ended = none) {result : ρ}
    (hlast : (bare handler reader writer u.served u.halves).last = .inr result) :
    u.poll handler reader writer =
      { u with
        halves := (bare handler reader writer u.served u.halves).object
        answers := u.answers ++ (bare handler reader writer u.served u.halves).answers
        ended := some result } := by
  rw [bare] at hlast
  simp only [Unbounded.poll, hended, hlast, bare]

theorem unbounded_yields (hended : u.ended = none) {served : σ}
    (hlast : (bare handler reader writer u.served u.halves).last = .inl served) :
    u.poll handler reader writer =
      { u with
        served
        halves := (bare handler reader writer u.served u.halves).object
        answers := u.answers ++ (bare handler reader writer u.served u.halves).answers } := by
  rw [bare] at hlast
  simp only [Unbounded.poll, hended, hlast, bare]

theorem poll_over {ended : ServeEnd ρ} (hended : s.ended = some ended) (wake : Wake) :
    s.poll handler reader writer wake = s := by
  simp only [poll, hended]

theorem unbounded_over {result : ρ} (hended : u.ended = some result) : u.poll handler reader writer = u := by
  simp only [Unbounded.poll, hended]

/-- Where the deadline stands after a poll that leaves it unresolved. -/
theorem silence_poll (h : s.Follows u wakes) (hended : s.ended = none) (wake : Wake) (traffic : FirstTraffic)
    (hset : s.traffic.set = true → traffic.set = true) :
    ∃ first, (wakes ++ [wake]).head? = some first ∧
      let polled := s.silence.poll firstTrafficTimeout traffic wake
      let due := first.now + firstTrafficTimeout ≤ wake.now ∧ wake.fires = true
      (polled.1 = true ↔ due ∧ traffic.set = false) ∧
        (polled.1 = false → polled.2 = .Sleeping (first.now + firstTrafficTimeout) ∨
          (polled.2 = .Parked ∧ traffic.set = true)) := by
  have hpos := firstTrafficTimeout_pos
  have hsleep (first : Wake) : (SilentPast.pollSleep (first.now + firstTrafficTimeout) traffic wake).1 = true ↔
      (first.now + firstTrafficTimeout ≤ wake.now ∧ wake.fires = true) ∧ traffic.set = false := by
    unfold SilentPast.pollSleep
    split
    · rename_i hdue
      cases hbit : traffic.set <;> simp [hdue]
    · rename_i hdue
      simp [hdue]
  have hstays (first : Wake) : (SilentPast.pollSleep (first.now + firstTrafficTimeout) traffic wake).1 = false →
      (SilentPast.pollSleep (first.now + firstTrafficTimeout) traffic wake).2 =
          .Sleeping (first.now + firstTrafficTimeout) ∨
        ((SilentPast.pollSleep (first.now + firstTrafficTimeout) traffic wake).2 = .Parked ∧ traffic.set = true) := by
    unfold SilentPast.pollSleep
    split
    · cases hbit : traffic.set <;> simp
    · simp
  cases wakes with
  | nil =>
    refine ⟨wake, rfl, ?_⟩
    rw [h.unpolled rfl]
    exact ⟨hsleep wake, hstays wake⟩
  | cons first rest =>
    refine ⟨first, rfl, ?_⟩
    rcases h.sleeping first hended rfl with hsleeping | ⟨hparked, hmoved⟩
    · rw [hsleeping]
      exact ⟨hsleep first, hstays first⟩
    · rw [hparked]
      simp [SilentPast.poll, hset hmoved]

/-- One more poll follows the handler over its bare halves, or drops the stream: it drops one that is due,
silent, and has a handler that is not done. -/
theorem Follows.poll (h : s.Follows u wakes) (wake : Wake) :
    ((s.poll handler reader writer wake).Follows (u.poll handler reader writer) (wakes ++ [wake]) ∧
      ((u.poll handler reader writer).ended = none → Due wakes wake →
        (u.poll handler reader writer).answers.any moved = true)) ∨
      (s.poll handler reader writer wake).Dropped (u.poll handler reader writer) wakes wake := by
  cases hended : u.ended with
  | some result =>
    left
    have hended' : s.ended = some (.Finished result) := by rw [h.ended, hended]; rfl
    rw [poll_over hended', unbounded_over hended]
    refine ⟨⟨h.served, h.halves, h.answers, h.ended, h.traffic, by simp, ?_⟩, ?_⟩
    · intro first hnone
      cases hended'.symm.trans hnone
    · intro hnone
      cases hended.symm.trans hnone
  | none =>
    have hended' : s.ended = none := by rw [h.ended, hended]; rfl
    cases hlast : (bare handler reader writer u.served u.halves).last with
    | inr result =>
      left
      have hlast' : (bare handler reader writer s.served s.halves).last = .inr result := by
        rw [h.served, h.halves]
        exact hlast
      rw [poll_done hended' wake hlast', unbounded_done hended hlast]
      refine ⟨⟨h.served, ?_, ?_, rfl, ?_, by simp, ?_⟩, ?_⟩
      · simp only [h.served, h.halves]
      · simp only [h.served, h.halves, h.answers]
      · simp only [h.traffic, List.any_append]
      · intro first hnone
        cases hnone
      · intro hnone
        cases hnone
    | inl served =>
      have hlast' : (bare handler reader writer s.served s.halves).last = .inl served := by
        rw [h.served, h.halves]
        exact hlast
      rw [poll_yields hended' wake hlast', unbounded_yields hended hlast]
      have hbit : (s.traffic.set || (bare handler reader writer s.served s.halves).answers.any moved) =
          (s.answers ++ (bare handler reader writer s.served s.halves).answers).any moved := by
        rw [h.traffic, List.any_append]
      rw [hbit]
      generalize htraffic : (⟨(s.answers ++ (bare handler reader writer s.served s.halves).answers).any moved⟩ :
        FirstTraffic) = traffic
      have hset : s.traffic.set = true → traffic.set = true := by
        intro hset
        rw [← htraffic, ← hbit, hset, Bool.true_or]
      obtain ⟨first, hfirst, hresolves, hstays⟩ := silence_poll h hended' wake traffic hset
      have hanswers : s.answers ++ (bare handler reader writer s.served s.halves).answers =
          u.answers ++ (bare handler reader writer u.served u.halves).answers := by
        rw [h.answers, h.served, h.halves]
      have hobject : (bare handler reader writer s.served s.halves).object =
          (bare handler reader writer u.served u.halves).object := by rw [h.served, h.halves]
      cases hresolved : (s.silence.poll firstTrafficTimeout traffic wake).1 with
      | true =>
        right
        obtain ⟨hdue, hsilent⟩ := hresolves.1 hresolved
        refine ⟨rfl, hobject, hanswers, rfl, hended, ?_, ⟨first, hfirst, hdue⟩⟩
        rw [← htraffic] at hsilent
        exact hsilent
      | false =>
        left
        refine ⟨⟨rfl, hobject, hanswers, ?_, ?_, by simp, ?_⟩, ?_⟩
        · simp [hended]
        · simp only [← htraffic]
        · intro other _ hother
          cases hfirst.symm.trans hother
          exact hstays hresolved
        · rintro - ⟨other, hother, hdue⟩
          cases hfirst.symm.trans hother
          rw [← hanswers]
          have hset : traffic.set = true := by
            by_contra hunset
            rw [Bool.not_eq_true] at hunset
            rw [hresolves.2 ⟨hdue, hunset⟩] at hresolved
            cases hresolved
          rw [← htraffic] at hset
          exact hset

theorem poll_answers (s : ServedHandler ε σ ρ R W) (wake : Wake) :
    s.answers <+: (s.poll handler reader writer wake).answers := by
  unfold poll
  split
  · exact List.prefix_rfl
  · dsimp only
    split <;> exact List.prefix_append ..

end Poll

variable {served : σ} {halves : R × W}

theorem run_snoc (wakes : List Wake) (wake : Wake) : run handler reader writer served halves (wakes ++ [wake]) =
    (run handler reader writer served halves wakes).poll handler reader writer wake := by
  rw [run, List.foldl_append]
  rfl

/-- What is over stays as it ended. -/
theorem run_over {done : List Wake} {ended : ServeEnd ρ}
    (h : (run handler reader writer served halves done).ended = some ended) (rest : List Wake) :
    run handler reader writer served halves (done ++ rest) = run handler reader writer served halves done := by
  induction rest using List.reverseRecOn with
  | nil => rw [List.append_nil]
  | append_singleton rest wake ih =>
    rw [← List.append_assoc, run_snoc, ih, poll_over h]

theorem run_answers (done rest : List Wake) : (run handler reader writer served halves done).answers <+:
    (run handler reader writer served halves (done ++ rest)).answers := by
  induction rest using List.reverseRecOn with
  | nil => rw [List.append_nil]
  | append_singleton rest wake ih =>
    rw [← List.append_assoc, run_snoc]
    exact ih.trans (poll_answers _ wake)

/-- A run over bare halves that is dropped nowhere, and is right not to be. -/
structure Carries (handler : σ → Turn HalfCall (HalfCall.Answer ε) σ ρ) (reader : AsyncRead ε R)
    (writer : AsyncWrite ε W) (served : σ) (halves : R × W) (wakes : List Wake) : Prop where
  follows : (run handler reader writer served halves wakes).Follows
    (Unbounded.run handler reader writer served halves wakes.length) wakes
  spoke : ∀ done wake rest, wakes = done ++ wake :: rest →
    (Unbounded.run handler reader writer served halves (done.length + 1)).ended = none → Due done wake →
    (Unbounded.run handler reader writer served halves (done.length + 1)).answers.any moved = true

theorem handoff_follows :
    (handoff served halves : ServedHandler ε σ ρ R W).Follows (Unbounded.start served halves) [] where
  served := rfl
  halves := rfl
  answers := rfl
  ended := rfl
  traffic := rfl
  unpolled _ := rfl
  sleeping first _ hfirst := by cases hfirst

/-- A run is the handler's own over its bare halves, all of it or up to the poll that dropped the stream. -/
theorem run_cases (handler : σ → Turn HalfCall (HalfCall.Answer ε) σ ρ) (reader : AsyncRead ε R)
    (writer : AsyncWrite ε W) (served : σ) (halves : R × W) (wakes : List Wake) :
    Carries handler reader writer served halves wakes ∨
      ∃ done wake rest, wakes = done ++ wake :: rest ∧ (run handler reader writer served halves wakes).Dropped
        (Unbounded.run handler reader writer served halves (done.length + 1)) done wake := by
  induction wakes using List.reverseRecOn with
  | nil =>
    left
    refine ⟨handoff_follows, ?_⟩
    intro done wake rest hwakes
    cases done <;> cases hwakes
  | append_singleton wakes wake ih =>
    rcases ih with hcarries | ⟨done, last, rest, rfl, hdropped⟩
    · rw [run_snoc]
      rcases hcarries.follows.poll wake with
        ⟨hfollows, hspoke⟩ | hdropped
      · left
        refine ⟨?_, ?_⟩
        · rw [run_snoc, List.length_append, List.length_singleton]
          exact hfollows
        · intro done last rest hwakes
          cases rest using List.reverseRecOn with
          | nil =>
            obtain ⟨rfl, hlast⟩ := List.append_inj' hwakes rfl
            cases hlast
            exact hspoke
          | append_singleton rest other =>
            rw [← List.cons_append, ← List.append_assoc] at hwakes
            obtain ⟨rfl, -⟩ := List.append_inj' hwakes rfl
            exact hcarries.spoke done last rest rfl
      · right
        exact ⟨wakes, wake, [], rfl, hdropped⟩
    · right
      refine ⟨done, last, rest ++ [wake], by simp, ?_⟩
      rw [run_snoc, poll_over hdropped.ended]
      exact hdropped

theorem not_moved_iff {answers : List (Answered HalfCall (HalfCall.Answer ε))} :
    answers.any moved = false ↔ ∀ answer ∈ answers, octets answer = 0 := by
  rw [List.any_eq_false]
  simp only [moved, decide_eq_true_eq, Nat.not_lt, Nat.le_zero]

theorem Dropped.silent_octets {s : ServedHandler ε σ ρ R W} {u : Unbounded ε σ ρ R W} {wakes : List Wake}
    {wake : Wake} (h : s.Dropped u wakes wake) : ∀ answer ∈ s.answers, octets answer = 0 :=
  not_moved_iff.1 h.silent

theorem Carries.not_silent {wakes : List Wake} (h : Carries handler reader writer served halves wakes) :
    (run handler reader writer served halves wakes).ended ≠ some .Silent := by
  rw [h.follows.ended]
  intro hsilent
  obtain ⟨result, -, hresult⟩ := Option.map_eq_some_iff.1 hsilent
  cases hresult

/-- The octets moved so far are none once a run is dropped. -/
theorem silent_octets {wakes : List Wake} (h : (run handler reader writer served halves wakes).ended = some .Silent) :
    ∀ answer ∈ (run handler reader writer served halves wakes).answers, octets answer = 0 := by
  rcases run_cases handler reader writer served halves wakes with hcarries | ⟨_, _, _, _, hdropped⟩
  · exact absurd h hcarries.not_silent
  · exact hdropped.silent_octets

/-- A handler that finishes in a poll wins it. -/
theorem finished_wins {done : List Wake} (hopen : (run handler reader writer served halves done).ended = none)
    (wake : Wake) (rest : List Wake) {result : ρ}
    (hresult : (Unbounded.run handler reader writer served halves (done.length + 1)).ended = some result) :
    (run handler reader writer served halves (done ++ wake :: rest)).ended = some (.Finished result) := by
  have hlast : (run handler reader writer served halves (done ++ [wake])).ended = some (.Finished result) := by
    rcases run_cases handler reader writer served halves done with hcarries | ⟨_, _, _, _, hdropped⟩
    · rw [run_snoc]
      rcases hcarries.follows.poll wake with
        ⟨hfollows, -⟩ | hdropped
      · rw [hfollows.ended]
        exact congrArg (Option.map ServeEnd.Finished) hresult
      · cases hdropped.pending.symm.trans hresult
    · cases hopen.symm.trans hdropped.ended
  rw [List.append_cons, run_over hlast]
  exact hlast

/-- The bound drops a stream exactly when it is due with the handler not done and nothing moved. -/
theorem silent_iff (wakes : List Wake) : (run handler reader writer served halves wakes).ended = some .Silent ↔
    ∃ done wake rest, wakes = done ++ wake :: rest ∧ Due done wake ∧
      (Unbounded.run handler reader writer served halves (done.length + 1)).ended = none ∧
      ∀ answer ∈ (Unbounded.run handler reader writer served halves (done.length + 1)).answers, octets answer = 0 := by
  constructor
  · intro hsilent
    rcases run_cases handler reader writer served halves wakes with hcarries | ⟨done, wake, rest, hwakes, hdropped⟩
    · exact absurd hsilent hcarries.not_silent
    · refine ⟨done, wake, rest, hwakes, hdropped.due, hdropped.pending, ?_⟩
      rw [← hdropped.answers]
      exact hdropped.silent_octets
  · rintro ⟨done, wake, rest, hwakes, hdue, hpending, hsilent⟩
    rcases run_cases handler reader writer served halves wakes with hcarries | ⟨_, _, _, _, hdropped⟩
    · have hspoke := hcarries.spoke done wake rest hwakes hpending hdue
      rw [not_moved_iff.2 hsilent] at hspoke
      cases hspoke
    · exact hdropped.ended

theorem Due.head {done : List Wake} {wake : Wake} (rest : List Wake) : Due done wake ↔
    ∃ first, (done ++ wake :: rest).head? = some first ∧ first.now + firstTrafficTimeout ≤ wake.now ∧
      wake.fires = true := by
  rw [Due]
  cases done <;> rfl

end ServedHandler

/-- The first-traffic bound fires only on total silence. Whatever the handler does with its halves, and
however they answer, the watched halves answer as bare ones would, and a served run is the bare run, all of
it or up to the poll that dropped the stream. It is dropped in the poll at which the deadline fires, and
only when the handler is not done there and no octet has moved in either direction by then. A handler that
is done in that poll wins, and a stream that has moved an octet is never dropped. -/
theorem first_traffic (handler : σ → Turn HalfCall (HalfCall.Answer ε) σ ρ) (reader : AsyncRead ε R)
    (writer : AsyncWrite ε W) (served : σ) (halves : R × W) (wakes : List Wake) :
    let run := ServedHandler.run handler reader writer served halves
    let bare := Unbounded.run handler reader writer served halves
    (∀ call halves traffic,
      (watchedHalves reader writer call (halves, traffic)).1 = (bareHalves reader writer call halves).1 ∧
      (watchedHalves reader writer call (halves, traffic)).2.1 = (bareHalves reader writer call halves).2) ∧
    (∃ polls ≤ wakes.length, (run wakes).served = (bare polls).served ∧ (run wakes).halves = (bare polls).halves ∧
      (run wakes).answers = (bare polls).answers ∧
      ((run wakes).ended ≠ some .Silent →
        polls = wakes.length ∧ (run wakes).ended = (bare polls).ended.map .Finished)) ∧
    ((run wakes).ended = some .Silent → ∀ answer ∈ (run wakes).answers, octets answer = 0) ∧
    (∀ done rest, wakes = done ++ rest → (∃ answer ∈ (run done).answers, 0 < octets answer) →
      (run wakes).ended ≠ some .Silent) ∧
    (∀ done wake rest result, wakes = done ++ wake :: rest → (run done).ended = none →
      (bare (done.length + 1)).ended = some result → (run wakes).ended = some (.Finished result)) ∧
    ((run wakes).ended = some .Silent ↔ ∃ done wake rest first, wakes = done ++ wake :: rest ∧
      wakes.head? = some first ∧ first.now + firstTrafficTimeout ≤ wake.now ∧ wake.fires = true ∧
      (bare (done.length + 1)).ended = none ∧ ∀ answer ∈ (bare (done.length + 1)).answers, octets answer = 0) := by
  intro run bare
  refine ⟨?_, ?_, ServedHandler.silent_octets, ?_, ?_, ?_⟩
  · intro call halves traffic
    rw [watchedHalves_wraps call halves traffic]
    exact ⟨rfl, rfl⟩
  · rcases ServedHandler.run_cases handler reader writer served halves wakes with
      hcarries | ⟨done, wake, rest, rfl, hdropped⟩
    · have hfollows := hcarries.follows
      exact ⟨wakes.length, le_rfl, hfollows.served, hfollows.halves, hfollows.answers, fun _ => ⟨rfl, hfollows.ended⟩⟩
    · refine ⟨done.length + 1, ?_, hdropped.served, hdropped.halves, hdropped.answers, ?_⟩
      · rw [List.length_append, List.length_cons]
        omega
      · intro hsilent
        exact absurd hdropped.ended hsilent
  · rintro done rest rfl ⟨answer, hanswer, hoctets⟩ hsilent
    have hzero := ServedHandler.silent_octets hsilent answer ((ServedHandler.run_answers done rest).subset hanswer)
    omega
  · rintro done wake rest result rfl hopen hresult
    exact ServedHandler.finished_wins hopen wake rest hresult
  · rw [ServedHandler.silent_iff]
    constructor
    · rintro ⟨done, wake, rest, rfl, hdue, hpending, hsilent⟩
      obtain ⟨first, hfirst, hover, hfires⟩ := (ServedHandler.Due.head rest).1 hdue
      exact ⟨done, wake, rest, first, rfl, hfirst, hover, hfires, hpending, hsilent⟩
    · rintro ⟨done, wake, rest, first, rfl, hfirst, hover, hfires, hpending, hsilent⟩
      exact ⟨done, wake, rest, rfl, (ServedHandler.Due.head rest).2 ⟨first, hfirst, hover, hfires⟩, hpending, hsilent⟩

end Serve

end Tightbeam
