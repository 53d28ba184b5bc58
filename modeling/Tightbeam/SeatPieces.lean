import Tightbeam.SeatRun
import Tightbeam.Splice
import Tightbeam.ResponseExact
import Mathlib

/-!
# What each holder of the seat is sent

A seated peer is served by `Seated::serve`: its `Ok`, and then a splice of the lent reader toward it, until
the splice ends, fails or is dropped where it stands. The one input is cut into pieces, one a holder.
-/
namespace Tightbeam

/-- A seated peer's serve: what its writer has taken of its `Ok`, and its splice. -/
structure SeatServe where
  answered : List UInt8
  splice : Splice Unit

/-- The seat with its octets: every serve under way beside its guard, and those that are over. `given` is all
the input ever gave. -/
structure SeatServes where
  world : SeatWorld
  serves : List SeatServe
  past : List SeatServe
  given : List UInt8

inductive SeatServeEvent where
  | claim (dialer : NodeId) (now : Nat)
  | received (waiter : Nat)
  | abandoned (waiter : Nat)
  /-- The splice polls the lent reader, with room for this much. -/
  | reads (guard asked : Nat) (polled : Poll (Except Unit (List UInt8)))
  /-- The metered writer answers a write, of the `Ok` first. -/
  | writes (guard : Nat) (polled : Poll (Except Unit Nat)) (now : Nat)
  | flushes (guard : Nat) (polled : Except Unit Unit)
  | finishes (guard : Nat) (polled : Except Unit Unit)
  /-- What the peer sends goes to a sink. -/
  | sinks (guard : Nat) (event : Copier.Event UInt8 Unit)
  | dropped (guard : Nat)

namespace SeatServe

def new : SeatServe := ⟨[], .new⟩

/-- The splice begins once the `Ok` is written. -/
def spliced (v : SeatServe) : Bool := decide (v.answered = Response.ok.frame)

/-- All that the peer's writer has taken. -/
def wrote (v : SeatServe) : List UInt8 := v.answered ++ v.splice.up.sunk

/-- Whether the copy toward the peer would poll its reader, with room for this much. -/
def polls (v : SeatServe) (asked : Nat) : Bool :=
  v.spliced && decide (0 < asked) && decide (v.splice.up.held.length + asked ≤ copyBuffer) &&
    (v.splice.step (.up (.read (.ok [])))).isSome

def splices (v : SeatServe) (event : SpliceEvent Unit) : Option SeatServe :=
  if v.spliced then (v.splice.step event).map fun splice => { v with splice } else none

end SeatServe

namespace SeatServes

def new (fd : Nat) : SeatServes := ⟨.new fd, [], [], []⟩

/-- One guard more is a dialer seated, whose serve begins. -/
def joins (s : SeatServes) (world : SeatWorld) : SeatServes :=
  { s with
    world
    serves := if s.world.guards.length < world.guards.length then .new :: s.serves else s.serves }

/-- A serve that is over, however it ended, is dropped with its guard. -/
def leaves (s : SeatServes) (i : Nat) (v : SeatServe) : SeatServes :=
  { s with world := s.world.dropped i, serves := s.serves.eraseIdx i, past := s.past ++ [v] }

/-- A poll of the lent reader, or of a guard that has none left: it is at its end. -/
def reads (s : SeatServes) (i asked : Nat) (v : SeatServe) (reader : SeatReader) :
    Poll (Except Unit (List UInt8)) → Option SeatServes
  | .Pending =>
    if reader.lent.isSome then some { s with world := s.world.read i ⟨asked, .Pending⟩ } else none
  | .Ready (.ok items) =>
    if reader.lent.isSome then
      if items.length ≤ asked then
        (v.splices (.up (.read (.ok items)))).map fun v =>
          { s with
            world := s.world.read i ⟨asked, .Ready (.ok items.length)⟩
            serves := s.serves.set i v
            given := s.given ++ items }
      else none
    else if items = [] then
      (v.splices (.up (.read (.ok [])))).map fun v => { s with serves := s.serves.set i v }
    else none
  | .Ready (.error error) =>
    if reader.lent.isSome then
      (v.splices (.up (.read (.error error)))).map fun v =>
        { s with world := s.world.read i ⟨asked, .Ready (.error error)⟩, serves := s.serves.set i v }
    else none

/-- The `Ok` is one `write_all`, whose failure ends the serve. -/
def writes (s : SeatServes) (i : Nat) (v : SeatServe) (polled : Poll (Except Unit Nat)) (now : Nat) :
    Option SeatServes :=
  let s' := { s with world := s.world.wrote i polled now }
  if v.spliced then match polled with
    | .Pending => if v.splice.live && !v.splice.up.held.isEmpty then some s' else none
    | .Ready took => (v.splices (.up (.write took))).map fun v => { s' with serves := s.serves.set i v }
  else match polled with
    | .Pending => some s'
    | .Ready (.ok 0) => some (s'.leaves i v)
    | .Ready (.ok n) =>
      if v.answered.length + n ≤ Response.ok.frame.length then
        some { s' with serves := s.serves.set i { v with answered := Response.ok.frame.take (v.answered.length + n) } }
      else none
    | .Ready (.error _) => some (s'.leaves i v)

def step (s : SeatServes) : SeatServeEvent → Option SeatServes
  | .claim dialer now => some (s.joins (s.world.claim dialer now))
  | .received i => some (s.joins (s.world.received i))
  | .abandoned i => some { s with world := s.world.abandoned i }
  | .reads i asked polled => match s.world.guards[i]?, s.serves[i]? with
    | some guard, some v => if v.polls asked then s.reads i asked v guard.reader polled else none
    | _, _ => none
  | .writes i polled now => match s.serves[i]? with
    | some v => s.writes i v polled now
    | none => none
  | .flushes i polled => match s.serves[i]? with
    | some v => (v.splices (.up (.flush polled))).map fun v => { s with serves := s.serves.set i v }
    | none => none
  | .finishes i polled => match s.serves[i]? with
    | some v => (v.splices (.up (.finish polled))).map fun v => { s with serves := s.serves.set i v }
    | none => none
  | .sinks i event => match s.serves[i]? with
    | some v => (v.splices (.down event)).map fun v => { s with serves := s.serves.set i v }
    | none => none
  | .dropped i => s.serves[i]?.map (s.leaves i)

end SeatServes

def Read.count (read : Read) : Nat :=
  match read.polled with
  | .Ready (.ok filled) => filled
  | _ => 0

namespace SeatWorld

variable {fd : Nat} {w w' : SeatWorld}

/-- No guard, or the only one, which can still be read unless the seat is spent. -/
def Alone (w : SeatWorld) : Prop :=
  w.guards = [] ∨ ∃ guard, w.guards = [guard] ∧ (guard.reader.lent.isSome = true ∨ w.seat.cell = .Spent)

theorem Alone.length (h : w.Alone) : w.guards.length ≤ 1 := by
  rcases h with hnone | ⟨guard, hone, -⟩
  · simp [hnone]
  · simp [hone]

theorem Sound.spent_stays (h : w.Sound fd) (event : SeatEvent) (hspent : w.seat.cell = .Spent) :
    (w.step event).seat.cell = .Spent := by
  rcases h.step_cell event with hsame | ⟨hcell, -⟩ | ⟨hcell, -⟩
  · rw [hsame, hspent]
  · exact absurd hspent hcell
  · exact absurd hspent hcell

theorem Alone.empty (ha : w.Alone) (h : w.Sound fd)
    (hreadable : w.guards.flatMap (fun guard => guard.reader.readable) = []) (hcell : w.seat.cell ≠ .Spent) :
    w.guards = [] := by
  rcases ha with hnone | ⟨guard, hone, hlent | hspent⟩
  · exact hnone
  · rw [hone] at hreadable
    cases hheld : guard.reader.lent with
    | none => simp [hheld] at hlent
    | some held =>
      cases held with
      | Ended => exact absurd hheld (h.whole guard (by simp [hone]))
      | Reading source => simp [SeatReader.readable, hheld] at hreadable
  · exact absurd hspent hcell

/-- What a dial can do to the guards: nothing, or seat its peer alone. -/
structure Joined (w w' : SeatWorld) : Prop where
  answered : w'.answered = w.answered
  guards : w'.guards = w.guards ∨ w.guards = [] ∧ w.seat.cell ≠ .Spent ∧
    ∃ guard, w'.guards = [guard] ∧ guard.reader.lent.isSome = true

theorem claim_joined (h : w.Sound fd) (ha : w.Alone) (dialer : NodeId) (now : Nat) :
    Joined w (w.claim dialer now) := by
  obtain hsame | ⟨reader, hcell, hclaim⟩ | ⟨holder, hcell, hclaim⟩ := claim_cases w dialer now
  · rw [hsame]
    exact ⟨rfl, .inl rfl⟩
  · have hlent := h.armed hcell
    have hnone : w.guards = [] :=
      ha.empty h (List.append_eq_nil_iff.1 hlent).1 (by simp [hcell])
    rw [hclaim]
    exact ⟨rfl, .inr ⟨hnone, by simp [hcell], _, by rw [hnone], rfl⟩⟩
  · rw [hclaim]
    exact ⟨rfl, .inl rfl⟩

theorem received_joined (h : w.Sound fd) (ha : w.Alone) (i : Nat) : Joined w (w.received i) := by
  unfold received
  cases hat : w.seat.waiting[i]? with
  | none => exact ⟨rfl, .inl rfl⟩
  | some waiter =>
    obtain ⟨before, after, hwaiting, -, -⟩ := Places.split_at hat
    cases hinbox : waiter.inbox with
    | none =>
      simp only [hinbox]
      exact ⟨rfl, .inl rfl⟩
    | some grant =>
      simp only [hinbox]
      cases grant with
      | Spent => exact ⟨rfl, .inl rfl⟩
      | Seated seated =>
        obtain ⟨hreader, hcell, -, hguards, -⟩ := undelivered_alone h hwaiting hinbox
        have hnone := ha.empty h hguards hcell.ne_spent
        exact ⟨rfl, .inr ⟨hnone, hcell.ne_spent, seated, by rw [hnone], by rw [hreader]; rfl⟩⟩

theorem Joined.alone (hj : Joined w w') (ha : w.Alone)
    (hspent : w.seat.cell = .Spent → w'.seat.cell = .Spent) : w'.Alone := by
  rcases hj.guards with hsame | ⟨-, -, guard, hone, hlent⟩
  · rcases ha with hnone | ⟨guard, hone, hlent | hover⟩
    · exact .inl (by rw [hsame, hnone])
    · exact .inr ⟨guard, by rw [hsame, hone], .inl hlent⟩
    · exact .inr ⟨guard, by rw [hsame, hone], .inr (hspent hover)⟩
  · exact .inr ⟨guard, hone, .inl hlent⟩

theorem abandoned_guards (w : SeatWorld) (i : Nat) :
    (w.abandoned i).guards = w.guards ∧ (w.abandoned i).answered = w.answered := by
  unfold abandoned
  cases w.seat.waiting[i]? with
  | none => exact ⟨rfl, rfl⟩
  | some waiter =>
    simp only
    split <;> exact ⟨rfl, rfl⟩

theorem wrote_guards (w : SeatWorld) (i : Nat) (polled : Poll (Except Unit Nat)) (now : Nat) :
    (w.wrote i polled now).guards = w.guards ∧ (w.wrote i polled now).answered = w.answered ∧
      (w.wrote i polled now).seat.cell = w.seat.cell := by
  unfold wrote
  cases w.guards[i]? with
  | none => exact ⟨rfl, rfl, rfl⟩
  | some guard => exact ⟨rfl, rfl, rfl⟩

theorem Alone.same (ha : w.Alone) (hguards : w'.guards = w.guards)
    (hspent : w.seat.cell = .Spent → w'.seat.cell = .Spent) : w'.Alone := by
  rcases ha with hnone | ⟨guard, hone, hlent | hover⟩
  · exact .inl (by rw [hguards, hnone])
  · exact .inr ⟨guard, by rw [hguards, hone], .inl hlent⟩
  · exact .inr ⟨guard, by rw [hguards, hone], .inr (hspent hover)⟩

theorem dropped_guards {guard : Seated} (hone : w.guards = [guard]) :
    (w.dropped 0).guards = [] ∧ (w.dropped 0).answered = w.answered := by
  simp [dropped, hone]

/-- A poll of the lone guard's reader, which is not at its end yet. -/
theorem read_guards {guard : Seated} (h : w.Sound fd) (hone : w.guards = [guard])
    (hlent : guard.reader.lent.isSome = true) (read : Read) :
    ∃ guard', (w.read 0 read).guards = [guard'] ∧ (w.read 0 read).answered = w.answered ++ [read] ∧
      (guard'.reader.lent.isSome = true ∨ (w.read 0 read).seat.cell = .Spent) ∧
      (read.ended = true → (w.read 0 read).seat.cell = .Spent) := by
  cases hheld : guard.reader.lent with
  | none => simp [hheld] at hlent
  | some held =>
    cases held with
    | Ended => exact absurd hheld (h.whole guard (by simp [hone]))
    | Reading source =>
      have hguards : w.guards = [] ++ guard :: [] := hone
      obtain ⟨-, hcell, -⟩ := guard_alone h hguards hheld
      cases hended : read.ended with
      | false => simp [SeatWorld.read, hone, Seat.pollRead, hheld, hended]
      | true =>
        have hspent : (({ w.seat with gone := w.seat.gone ++ [source.answer read] } : Seat).putBack .Ended).cell =
            .Spent := by
          cases hcase : w.seat.cell with
          | Armed reader => simp [hcase, Cell.lent] at hcell
          | Spent => simp [hcase, Cell.lent] at hcell
          | Held holder => simp [Seat.putBack, hcase]
          | Handing handoff => simp [Seat.putBack, hcase]
        simp [SeatWorld.read, hone, Seat.pollRead, hheld, hended, hspent]

end SeatWorld

namespace SeatServe

variable {v v' : SeatServe} {event : SpliceEvent Unit}

/-- What a serve keeps: its `Ok` goes first and whole, then what its splice carries. -/
structure Inv (v : SeatServe) : Prop where
  answered : v.answered <+: Response.ok.frame
  splice : v.splice.Inv
  begun : v.spliced = false → v.splice = .new

theorem inv_new : new.Inv := ⟨List.nil_prefix, Splice.inv_new, fun _ => rfl⟩

theorem splices_some (h : v.splices event = some v') :
    v.spliced = true ∧ v.splice.step event = some v'.splice ∧ v'.answered = v.answered := by
  unfold splices at h
  split at h
  · rename_i hspliced
    obtain ⟨splice, hstep, rfl⟩ := Option.map_eq_some_iff.1 h
    exact ⟨hspliced, hstep, rfl⟩
  · cases h

theorem Inv.splices (hv : v.Inv) (h : v.splices event = some v') : v'.Inv := by
  obtain ⟨hspliced, hstep, hanswered⟩ := splices_some h
  refine ⟨by rw [hanswered]; exact hv.answered, hv.splice.moves (Splice.step_moves hstep), ?_⟩
  intro hnot
  rw [spliced, hanswered] at hnot
  rw [spliced, hnot] at hspliced
  cases hspliced

theorem Inv.answers (hv : v.Inv) (hnot : v.spliced = false) (n : Nat) :
    SeatServe.Inv { v with answered := Response.ok.frame.take n } :=
  ⟨List.take_prefix _ _, hv.splice, fun _ => hv.begun hnot⟩

theorem splices_read {items : List UInt8} (h : v.splices (.up (.read (.ok items))) = some v') :
    v'.splice.up = v.splice.up.take items := by
  obtain ⟨-, hstep, -⟩ := splices_some h
  unfold Splice.step at hstep
  split at hstep
  · cases hstep
  · obtain ⟨p, hp, hsplice⟩ := Option.map_eq_some_iff.1 hstep
    rw [← hsplice]
    exact Copier.step_read hp

/-- Only a read of the copy toward the peer adds to what it read, or sees its end. -/
theorem splices_source (hquiet : ∀ items, event ≠ .up (.read (.ok items))) (h : v.splices event = some v') :
    v'.splice.up.source = v.splice.up.source ∧ v'.splice.up.ended = v.splice.up.ended := by
  obtain ⟨-, hstep, -⟩ := splices_some h
  unfold Splice.step at hstep
  split at hstep
  · cases hstep
  · cases event with
    | up event =>
      obtain ⟨p, hp, hsplice⟩ := Option.map_eq_some_iff.1 hstep
      rw [← hsplice]
      rcases Copier.step_source hp with ⟨items, rfl, -⟩ | hsame
      · exact absurd rfl (hquiet items)
      · exact hsame
    | down event =>
      obtain ⟨p, hp, hsplice⟩ := Option.map_eq_some_iff.1 hstep
      rw [← hsplice]
      exact ⟨rfl, rfl⟩
    | drop =>
      have hsplice := Option.some.inj hstep
      rw [← hsplice]
      exact ⟨rfl, rfl⟩

end SeatServe

namespace SeatServes

variable {fd : Nat} {s s' : SeatServes} {v v' : SeatServe}

def pieces (s : SeatServes) : List SeatServe := s.past ++ s.serves

/-- What the seat keeps of its octets: each one that the input gave is some serve's, in the order they were
seated, and none is seated after one that saw the end. -/
structure Inv (fd : Nat) (s : SeatServes) : Prop where
  sound : s.world.Sound fd
  alone : s.world.Alone
  paired : s.serves.length = s.world.guards.length
  each : ∀ v ∈ s.pieces, v.Inv
  given : s.given = s.pieces.flatMap fun v => v.splice.up.source
  counted : (s.world.answered.map Read.count).sum = s.given.length
  ended : ∀ before v after, s.pieces = before ++ v :: after → v.splice.up.ended = true →
    s.world.seat.cell = .Spent ∧ after = []

theorem inv_new : (new fd).Inv fd := by
  refine ⟨SeatWorld.new_sound fd, .inl rfl, rfl, ?_, rfl, rfl, ?_⟩
  · intro v hmem
    cases hmem
  · intro before v after hpieces
    simp [new, pieces] at hpieces

/-- The one serve under way, and its guard. -/
theorem Inv.one (h : s.Inv fd) {i : Nat} (hat : s.serves[i]? = some v) :
    i = 0 ∧ s.serves = [v] ∧ ∃ guard, s.world.guards = [guard] ∧
      (guard.reader.lent.isSome = true ∨ s.world.seat.cell = .Spent) := by
  have hlength : s.serves.length ≤ 1 := by
    rw [h.paired]
    exact h.alone.length
  obtain ⟨hlt, hget⟩ := List.getElem?_eq_some_iff.1 hat
  have hi : i = 0 := by omega
  subst hi
  obtain ⟨only, honly⟩ := List.length_eq_one_iff.1 (Nat.le_antisymm hlength hlt)
  refine ⟨rfl, ?_, ?_⟩
  · simp only [honly, List.getElem_cons_zero] at hget
    rw [honly, hget]
  · rcases h.alone with hnone | hone
    · have hpaired := h.paired
      rw [hnone, honly] at hpaired
      cases hpaired
    · exact hone

/-- The last piece is another serve, which was given as much and saw no end the seat has not. -/
theorem Inv.turns (h : s.Inv fd) (hone : s.serves = [v]) (hv : v'.Inv) (world : SeatWorld) (items : List UInt8)
    (hsound : world.Sound fd) (halone : world.Alone) (hguards : world.guards.length = s.world.guards.length)
    (hcounted : (world.answered.map Read.count).sum = (s.world.answered.map Read.count).sum + items.length)
    (hsource : v'.splice.up.source = v.splice.up.source ++ items)
    (hspent : s.world.seat.cell = .Spent → world.seat.cell = .Spent)
    (hended : v'.splice.up.ended = true → v.splice.up.ended = true ∨ world.seat.cell = .Spent) :
    Inv fd ⟨world, [v'], s.past, s.given ++ items⟩ := by
  have hpieces : s.pieces = s.past ++ [v] := by rw [pieces, hone]
  have hlast (hv : v.splice.up.ended = true) : world.seat.cell = .Spent :=
    hspent (h.ended s.past v [] hpieces hv).1
  refine ⟨hsound, halone, ?_, ?_, ?_, ?_, ?_⟩
  · rw [hguards, ← h.paired, hone]
    rfl
  · intro other hmem
    rcases List.mem_append.1 hmem with hmem | hmem
    · exact h.each other (List.mem_append_left _ hmem)
    · rw [List.mem_singleton.1 hmem]
      exact hv
  · rw [h.given, hpieces]
    simp [pieces, hsource]
  · rw [hcounted, h.counted, List.length_append]
  · intro before other after hsplit hover
    rcases List.eq_nil_or_concat after with rfl | ⟨middle, last, rfl⟩
    · obtain ⟨-, hothers⟩ := List.append_inj' hsplit rfl
      cases hothers
      refine ⟨?_, rfl⟩
      rcases hended hover with hbefore | hnow
      · exact hlast hbefore
      · exact hnow
    · have hcut : s.past ++ [v'] = (before ++ other :: middle) ++ [last] := by simpa [pieces] using hsplit
      obtain ⟨hpast, -⟩ := List.append_inj' hcut rfl
      have hsplit' : s.pieces = before ++ other :: (middle ++ [v]) := by simp [hpieces, hpast]
      exact absurd (h.ended before other _ hsplit' hover).2 (by simp)

theorem Inv.joins (h : s.Inv fd) {world : SeatWorld} (hsound : world.Sound fd)
    (hjoined : SeatWorld.Joined s.world world) (hspent : s.world.seat.cell = .Spent → world.seat.cell = .Spent) :
    (s.joins world).Inv fd := by
  have halone := hjoined.alone h.alone hspent
  rcases hjoined.guards with hsame | ⟨hnone, hcell, guard, hone, -⟩
  · have hjoins : s.joins world = ⟨world, s.serves, s.past, s.given⟩ := by simp [SeatServes.joins, hsame]
    rw [hjoins]
    refine ⟨hsound, halone, ?_, h.each, h.given, ?_, ?_⟩
    · rw [hsame]
      exact h.paired
    · rw [hjoined.answered]
      exact h.counted
    · intro before v after hsplit hended
      obtain ⟨hover, hafter⟩ := h.ended before v after hsplit hended
      exact ⟨hspent hover, hafter⟩
  · have hserves : s.serves = [] := by
      have hpaired := h.paired
      rw [hnone] at hpaired
      exact List.length_eq_zero_iff.1 hpaired
    have hjoins : s.joins world = ⟨world, [.new], s.past, s.given⟩ := by
      simp [SeatServes.joins, hnone, hone, hserves]
    have hpieces : s.pieces = s.past := by simp [pieces, hserves]
    rw [hjoins]
    refine ⟨hsound, halone, by simp [hone], ?_, ?_, ?_, ?_⟩
    · intro v hmem
      rcases List.mem_append.1 hmem with hmem | hmem
      · exact h.each v (List.mem_append_left _ hmem)
      · rw [List.mem_singleton.1 hmem]
        exact SeatServe.inv_new
    · rw [h.given, hpieces]
      simp [pieces, SeatServe.new, Splice.new, Copier.new]
    · rw [hjoined.answered]
      exact h.counted
    · intro before v after hsplit hended
      rcases List.eq_nil_or_concat after with rfl | ⟨middle, last, rfl⟩
      · obtain ⟨-, hothers⟩ := List.append_inj' hsplit rfl
        cases hothers
        cases hended
      · have hcut : s.past ++ [SeatServe.new] = (before ++ v :: middle) ++ [last] := by
          simpa [pieces] using hsplit
        obtain ⟨hpast, -⟩ := List.append_inj' hcut rfl
        exact absurd (h.ended before v middle (hpieces.trans hpast) hended).1 hcell

/-- A serve that leaves stays a piece, the last one so far. -/
theorem Inv.leaves (h : s.Inv fd) (hone : s.serves = [v]) : (s.leaves 0 v).Inv fd := by
  have hpieces : (s.leaves 0 v).pieces = s.pieces := by simp [SeatServes.leaves, pieces, hone]
  obtain ⟨-, -, guard, hguard, -⟩ := h.one (i := 0) (v := v) (by rw [hone]; rfl)
  obtain ⟨hguards, hanswered⟩ := SeatWorld.dropped_guards hguard
  refine ⟨SeatWorld.dropped_sound h.sound 0, .inl hguards, ?_, ?_, ?_, ?_, ?_⟩
  · simp [SeatServes.leaves, hone, hguards]
  · rw [hpieces]
    exact h.each
  · rw [hpieces]
    exact h.given
  · simp only [SeatServes.leaves, hanswered]
    exact h.counted
  · rw [hpieces]
    intro before other after hsplit hended
    obtain ⟨hspent, hafter⟩ := h.ended before other after hsplit hended
    exact ⟨h.sound.spent_stays (.dropped 0) hspent, hafter⟩

/-- A move of the one serve that reads nothing leaves the input where it was. -/
theorem Inv.moves (h : s.Inv fd) (hone : s.serves = [v]) (hv : v'.Inv)
    (hsource : v'.splice.up.source = v.splice.up.source) (hended : v'.splice.up.ended = v.splice.up.ended) :
    Inv fd { s with serves := s.serves.set 0 v' } := by
  have hturns := h.turns hone hv s.world [] h.sound h.alone rfl rfl (by rw [hsource, List.append_nil]) id
    (fun hnow => .inl (hended.symm.trans hnow))
  rw [List.append_nil] at hturns
  rw [hone]
  exact hturns

theorem Inv.wrote (h : s.Inv fd) (polled : Poll (Except Unit Nat)) (now : Nat) :
    Inv fd { s with world := s.world.wrote 0 polled now } := by
  obtain ⟨hguards, hanswered, hcell⟩ := s.world.wrote_guards 0 polled now
  refine ⟨SeatWorld.wrote_sound h.sound 0 polled now, h.alone.same hguards fun hspent => hcell.trans hspent, ?_,
    h.each, h.given, ?_, ?_⟩
  · simp only [hguards]
    exact h.paired
  · simp only [hanswered]
    exact h.counted
  · intro before v after hsplit hended
    obtain ⟨hspent, hafter⟩ := h.ended before v after hsplit hended
    exact ⟨hcell.trans hspent, hafter⟩

/-- A poll of the lent reader: what it gave goes to the one serve, and its end spends the seat. -/
theorem Inv.read (h : s.Inv fd) (hone : s.serves = [v]) (hv : v'.Inv) {guard : Seated}
    (hguard : s.world.guards = [guard]) (hlent : guard.reader.lent.isSome = true) (read : Read) (items : List UInt8)
    (hcount : read.count = items.length) (hsource : v'.splice.up.source = v.splice.up.source ++ items)
    (hended : v'.splice.up.ended = true → v.splice.up.ended = true ∨ read.ended = true) :
    Inv fd ⟨s.world.read 0 read, [v'], s.past, s.given ++ items⟩ := by
  obtain ⟨guard', hone', hanswered, hlent', hover⟩ := SeatWorld.read_guards h.sound hguard hlent read
  refine h.turns hone hv _ items (SeatWorld.read_sound h.sound 0 read) (.inr ⟨guard', hone', hlent'⟩) ?_ ?_ hsource
    (h.sound.spent_stays (.read 0 read)) ?_
  · rw [hone', hguard]
    rfl
  · simp [hanswered, hcount]
  · intro hnow
    rcases hended hnow with hbefore | hread
    · exact .inl hbefore
    · exact .inr (hover hread)

theorem Inv.reads (h : s.Inv fd) (hone : s.serves = [v]) {guard : Seated} (hguard : s.world.guards = [guard])
    (hopen : guard.reader.lent.isSome = true ∨ s.world.seat.cell = .Spent) {asked : Nat}
    (hpolls : v.polls asked = true) {polled : Poll (Except Unit (List UInt8))}
    (hstep : s.reads 0 asked v guard.reader polled = some s') :
    s'.Inv fd := by
  have hv : v.Inv := h.each v (by simp [pieces, hone])
  have hasked : 0 < asked := by
    simp only [SeatServe.polls, Bool.and_eq_true, decide_eq_true_eq] at hpolls
    exact hpolls.1.1.2
  cases polled with
  | Pending =>
    simp only [SeatServes.reads] at hstep
    split at hstep
    · rename_i hlent
      have hread := h.read hone hv hguard hlent ⟨asked, .Pending⟩ [] rfl (List.append_nil _).symm .inl
      rw [List.append_nil, ← hone] at hread
      rw [← Option.some.inj hstep]
      exact hread
    · cases hstep
  | Ready got =>
    cases got with
    | error error =>
      simp only [SeatServes.reads] at hstep
      split at hstep
      · rename_i hlent
        obtain ⟨v', hsplices, rfl⟩ := Option.map_eq_some_iff.1 hstep
        obtain ⟨hsource, hended⟩ := SeatServe.splices_source (by simp) hsplices
        have hread := h.read hone (hv.splices hsplices) hguard hlent ⟨asked, .Ready (.error error)⟩ [] rfl
          (by rw [hsource, List.append_nil]) (fun hnow => .inl (hended.symm.trans hnow))
        rw [List.append_nil] at hread
        rw [hone]
        exact hread
      · cases hstep
    | ok items =>
      simp only [SeatServes.reads] at hstep
      split at hstep
      · rename_i hlent
        split at hstep
        · obtain ⟨v', hsplices, rfl⟩ := Option.map_eq_some_iff.1 hstep
          have hup := SeatServe.splices_read hsplices
          rw [hone]
          refine h.read hone (hv.splices hsplices) hguard hlent ⟨asked, .Ready (.ok items.length)⟩ items rfl
            (by rw [hup]; rfl) ?_
          intro hnow
          rw [hup] at hnow
          have hnil : items = [] := List.isEmpty_iff.1 hnow
          exact .inr (by simp [Read.ended, hnil, hasked])
        · cases hstep
      · rename_i hlent
        split at hstep
        · obtain ⟨v', hsplices, rfl⟩ := Option.map_eq_some_iff.1 hstep
          have hspent : s.world.seat.cell = .Spent := hopen.resolve_left hlent
          have hup := SeatServe.splices_read hsplices
          have hturns := h.turns hone (hv.splices hsplices) s.world [] h.sound h.alone rfl rfl (by rw [hup]; rfl) id
            (fun _ => .inr hspent)
          rw [List.append_nil] at hturns
          rw [hone]
          exact hturns
        · cases hstep

theorem Inv.writes (h : s.Inv fd) (hone : s.serves = [v]) {polled : Poll (Except Unit Nat)} {now : Nat}
    (hstep : s.writes 0 v polled now = some s') : s'.Inv fd := by
  have hv : v.Inv := h.each v (by simp [pieces, hone])
  have hwrote := h.wrote polled now
  unfold SeatServes.writes at hstep
  simp only at hstep
  split at hstep
  · cases polled with
    | Pending =>
      simp only at hstep
      split at hstep
      · rw [← Option.some.inj hstep]
        exact hwrote
      · cases hstep
    | Ready took =>
      obtain ⟨v', hsplices, rfl⟩ := Option.map_eq_some_iff.1 hstep
      obtain ⟨hsource, hended⟩ := SeatServe.splices_source (by simp) hsplices
      exact hwrote.moves hone (hv.splices hsplices) hsource hended
  · rename_i hnot
    have hnot : v.spliced = false := by simpa using hnot
    split at hstep
    · rw [← Option.some.inj hstep]
      exact hwrote
    · rw [← Option.some.inj hstep]
      exact hwrote.leaves hone
    · split at hstep
      · rw [← Option.some.inj hstep]
        exact hwrote.moves hone (hv.answers hnot _) rfl rfl
      · cases hstep
    · rw [← Option.some.inj hstep]
      exact hwrote.leaves hone

theorem Inv.splices (h : s.Inv fd) {i : Nat} (hat : s.serves[i]? = some v) {event : SpliceEvent Unit}
    (hquiet : ∀ items, event ≠ .up (.read (.ok items))) (hsplices : v.splices event = some v') :
    Inv fd { s with serves := s.serves.set i v' } := by
  obtain ⟨rfl, hone, -⟩ := h.one hat
  have hv : v.Inv := h.each v (by simp [pieces, hone])
  obtain ⟨hsource, hended⟩ := SeatServe.splices_source hquiet hsplices
  exact h.moves hone (hv.splices hsplices) hsource hended

theorem Inv.step (h : s.Inv fd) {event : SeatServeEvent} (hstep : s.step event = some s') : s'.Inv fd := by
  unfold SeatServes.step at hstep
  cases event with
  | claim dialer now =>
    rw [← Option.some.inj hstep]
    exact h.joins (SeatWorld.claim_sound h.sound dialer now) (SeatWorld.claim_joined h.sound h.alone dialer now)
      (h.sound.spent_stays (.claim dialer now))
  | received i =>
    rw [← Option.some.inj hstep]
    exact h.joins (SeatWorld.received_sound h.sound i) (SeatWorld.received_joined h.sound h.alone i)
      (h.sound.spent_stays (.received i))
  | abandoned i =>
    rw [← Option.some.inj hstep]
    obtain ⟨hguards, hanswered⟩ := s.world.abandoned_guards i
    have hspent := h.sound.spent_stays (.abandoned i)
    refine ⟨SeatWorld.abandoned_sound h.sound i, h.alone.same hguards hspent, ?_, h.each, h.given, ?_, ?_⟩
    · simp only [hguards]
      exact h.paired
    · simp only [hanswered]
      exact h.counted
    · intro before v after hsplit hended
      obtain ⟨hover, hafter⟩ := h.ended before v after hsplit hended
      exact ⟨hspent hover, hafter⟩
  | reads i asked polled =>
    simp only at hstep
    split at hstep
    · rename_i guard v hguard hat
      split at hstep
      · rename_i hpolls
        obtain ⟨rfl, hone, guard', hguards, hopen⟩ := h.one hat
        rw [hguards] at hguard
        cases hguard
        exact h.reads hone hguards hopen hpolls hstep
      · cases hstep
    · cases hstep
  | writes i polled now =>
    simp only at hstep
    split at hstep
    · rename_i v hat
      obtain ⟨rfl, hone, -⟩ := h.one hat
      exact h.writes hone hstep
    · cases hstep
  | flushes i polled =>
    simp only at hstep
    split at hstep
    · rename_i v hat
      obtain ⟨v', hsplices, rfl⟩ := Option.map_eq_some_iff.1 hstep
      exact h.splices hat (by simp) hsplices
    · cases hstep
  | finishes i polled =>
    simp only at hstep
    split at hstep
    · rename_i v hat
      obtain ⟨v', hsplices, rfl⟩ := Option.map_eq_some_iff.1 hstep
      exact h.splices hat (by simp) hsplices
    · cases hstep
  | sinks i event =>
    simp only at hstep
    split at hstep
    · rename_i v hat
      obtain ⟨v', hsplices, rfl⟩ := Option.map_eq_some_iff.1 hstep
      exact h.splices hat (by simp) hsplices
    · cases hstep
  | dropped i =>
    obtain ⟨v, hat, rfl⟩ := Option.map_eq_some_iff.1 hstep
    obtain ⟨rfl, hone, -⟩ := h.one hat
    exact h.leaves hone

theorem inv_run {events : List SeatServeEvent} (hrun : events.foldlM step (new fd) = some s) : s.Inv fd :=
  Runs.foldlM_keeps (fun _ _ _ hinv hstep => hinv.step hstep) inv_new hrun

theorem splices_world {i : Nat} {event : SpliceEvent Unit}
    (h : (v.splices event).map (fun v => { s with serves := s.serves.set i v }) = some s') : s'.world = s.world := by
  obtain ⟨v', -, rfl⟩ := Option.map_eq_some_iff.1 h
  rfl

theorem reads_world {i asked : Nat} {reader : SeatReader} {polled : Poll (Except Unit (List UInt8))}
    (h : s.reads i asked v reader polled = some s') :
    s'.world = s.world ∨ ∃ move : SeatEvent, s'.world = s.world.step move := by
  unfold SeatServes.reads at h
  split at h
  · split at h
    · rw [← Option.some.inj h]
      exact .inr ⟨.read i ⟨asked, .Pending⟩, rfl⟩
    · cases h
  · rename_i items
    split at h
    · split at h
      · obtain ⟨v', -, rfl⟩ := Option.map_eq_some_iff.1 h
        exact .inr ⟨.read i ⟨asked, .Ready (.ok items.length)⟩, rfl⟩
      · cases h
    · split at h
      · exact .inl (splices_world h)
      · cases h
  · rename_i error
    split at h
    · obtain ⟨v', -, rfl⟩ := Option.map_eq_some_iff.1 h
      exact .inr ⟨.read i ⟨asked, .Ready (.error error)⟩, rfl⟩
    · cases h

/-- A write that fails drops the guard after it. -/
theorem writes_world {i now : Nat} {polled : Poll (Except Unit Nat)} (h : s.writes i v polled now = some s') :
    s'.world = s.world.step (.wrote i polled now) ∨
      s'.world = (s.world.step (.wrote i polled now)).step (.dropped i) := by
  unfold SeatServes.writes at h
  simp only at h
  split at h
  · split at h
    · split at h
      · rw [← Option.some.inj h]
        exact .inl rfl
      · cases h
    · obtain ⟨v', -, rfl⟩ := Option.map_eq_some_iff.1 h
      exact .inl rfl
  · split at h
    · rw [← Option.some.inj h]
      exact .inl rfl
    · rw [← Option.some.inj h]
      exact .inr rfl
    · split at h
      · rw [← Option.some.inj h]
        exact .inl rfl
      · cases h
    · rw [← Option.some.inj h]
      exact .inr rfl

/-- With its octets forgotten, the seat steps as it did without them. -/
theorem step_world {event : SeatServeEvent} (hstep : s.step event = some s') :
    ∃ moves : List SeatEvent, s'.world = moves.foldl SeatWorld.step s.world := by
  unfold SeatServes.step at hstep
  cases event with
  | claim dialer now =>
    rw [← Option.some.inj hstep]
    exact ⟨[.claim dialer now], rfl⟩
  | received i =>
    rw [← Option.some.inj hstep]
    exact ⟨[.received i], rfl⟩
  | abandoned i =>
    rw [← Option.some.inj hstep]
    exact ⟨[.abandoned i], rfl⟩
  | reads i asked polled =>
    simp only at hstep
    split at hstep
    · split at hstep
      · rcases reads_world hstep with hsame | ⟨move, hmove⟩
        · exact ⟨[], hsame⟩
        · exact ⟨[move], hmove⟩
      · cases hstep
    · cases hstep
  | writes i polled now =>
    simp only at hstep
    split at hstep
    · rcases writes_world hstep with hwrote | hdropped
      · exact ⟨[.wrote i polled now], hwrote⟩
      · exact ⟨[.wrote i polled now, .dropped i], hdropped⟩
    · cases hstep
  | flushes i polled =>
    simp only at hstep
    split at hstep
    · exact ⟨[], splices_world hstep⟩
    · cases hstep
  | finishes i polled =>
    simp only at hstep
    split at hstep
    · exact ⟨[], splices_world hstep⟩
    · cases hstep
  | sinks i event =>
    simp only at hstep
    split at hstep
    · exact ⟨[], splices_world hstep⟩
    · cases hstep
  | dropped i =>
    obtain ⟨v, -, rfl⟩ := Option.map_eq_some_iff.1 hstep
    exact ⟨[.dropped i], rfl⟩

theorem run_world {events : List SeatServeEvent} (hrun : events.foldlM step (new fd) = some s) :
    ∃ moves : List SeatEvent, s.world = SeatWorld.run fd moves := by
  have hkeeps : ∀ (s : SeatServes) (event : SeatServeEvent) (s' : SeatServes),
      (∃ moves, s.world = SeatWorld.run fd moves) → s.step event = some s' →
      ∃ moves, s'.world = SeatWorld.run fd moves := by
    rintro s event s' ⟨moves, hmoves⟩ hstep
    obtain ⟨more, hmore⟩ := step_world hstep
    refine ⟨moves ++ more, ?_⟩
    rw [hmore, hmoves, SeatWorld.run, SeatWorld.run, List.foldl_append]
  exact Runs.foldlM_keeps hkeeps ⟨[], rfl⟩ hrun

/-- The `Ok` goes before any octet of the input. -/
theorem wrote_begins (hv : v.Inv) : v.wrote <+: Response.ok.frame ++ v.splice.up.source ∧
    (v.splice.up.source ≠ [] → Response.ok.frame <+: v.wrote) := by
  cases hspliced : v.spliced with
  | true =>
    have hanswered : v.answered = Response.ok.frame := by simpa [SeatServe.spliced] using hspliced
    rw [SeatServe.wrote, hanswered]
    exact ⟨(List.prefix_append_right_inj _).2 hv.splice.up.sunk_begins, fun _ => List.prefix_append _ _⟩
  | false =>
    rw [SeatServe.wrote, hv.begun hspliced]
    refine ⟨?_, fun hsome => absurd rfl hsome⟩
    exact (List.append_nil v.answered).symm ▸ hv.answered.trans (List.prefix_append _ _)

end SeatServes

/-- The octets of the one input are cut between the peers it was lent to, in the order they were seated: each
is written its `Ok` and then what its turn read of the input, less at most one copy buffer lost at the change.
A copy that returns well was the last. With octets forgotten, the seat runs as it does without them. -/
theorem seat_pieces (fd : Nat) (events : List SeatServeEvent) (s : SeatServes)
    (hrun : events.foldlM SeatServes.step (SeatServes.new fd) = some s) :
    s.given = s.pieces.flatMap (fun v => v.splice.up.sunk ++ v.splice.up.held) ∧
    (s.world.answered.map Read.count).sum = s.given.length ∧
    s.serves.length ≤ 1 ∧
    (∀ v ∈ s.pieces, v.splice.up.held.length ≤ copyBuffer ∧
      v.wrote <+: Response.ok.frame ++ v.splice.up.source ∧
      (v.splice.up.source ≠ [] → Response.ok.frame <+: v.wrote)) ∧
    (∀ before v after, s.pieces = before ++ v :: after → v.splice.up.result = some (.ok ()) →
      v.splice.up.held = [] ∧ s.world.seat.cell = .Spent ∧ after = []) ∧
    ∃ moves : List SeatEvent, s.world = SeatWorld.run fd moves := by
  have h := SeatServes.inv_run hrun
  refine ⟨?_, h.counted, ?_, ?_, ?_, SeatServes.run_world hrun⟩
  · rw [h.given]
    apply List.flatMap_congr
    intro v hmem
    exact (h.each v hmem).splice.up.carried
  · rw [h.paired]
    exact h.alone.length
  · intro v hmem
    have hv := h.each v hmem
    exact ⟨hv.splice.up.bounded, SeatServes.wrote_begins hv⟩
  · intro before v after hsplit hdone
    have hv := h.each v (by simp [hsplit])
    have hcopied := hv.splice.up.done hdone
    refine ⟨?_, h.ended before v after hsplit hcopied.ended⟩
    have hcarried := hv.splice.up.carried
    rw [← hcopied.sunk] at hcarried
    exact List.self_eq_append_right.1 hcarried

/-- A viewer is read three octets and takes two; the next one is given from the fourth on. -/
theorem seat_pieces_pair :
    let viewer : NodeId := ⟨.Ed25519, Vector.replicate 32 1⟩
    let other : NodeId := ⟨.Ed25519, Vector.replicate 32 2⟩
    let events : List SeatServeEvent :=
      [.claim viewer 0, .writes 0 (.Ready (.ok 1)) 0, .reads 0 4 (.Ready (.ok [7, 8, 9])),
        .writes 0 (.Ready (.ok 2)) 0, .dropped 0, .claim other 1, .writes 0 (.Ready (.ok 1)) 1,
        .reads 0 4 (.Ready (.ok [10])), .writes 0 (.Ready (.ok 1)) 1]
    ∃ s : SeatServes, events.foldlM SeatServes.step (SeatServes.new 0) = some s ∧ s.given = [7, 8, 9, 10] ∧
      (s.pieces.map fun v => (v.splice.up.sunk, v.splice.up.held)) = [([7, 8], [9]), ([10], [])] ∧
      s.serves.length ≤ 1 := by
  intro viewer other events
  have hread : ((events.foldlM SeatServes.step (SeatServes.new 0)).map fun s => (s.given,
      s.pieces.map fun v => (v.splice.up.sunk, v.splice.up.held))) =
      some ([7, 8, 9, 10], [([7, 8], [9]), ([10], [])]) := by
    decide +kernel
  obtain ⟨s, hrun, hpieces⟩ := Option.map_eq_some_iff.1 hread
  obtain ⟨hgiven, hpieces⟩ := Prod.mk.inj hpieces
  exact ⟨s, hrun, hgiven, hpieces, (seat_pieces 0 events s hrun).2.2.1⟩

end Tightbeam
