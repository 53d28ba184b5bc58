import Tightbeam.Echo
import Tightbeam.PathReads

/-!
# A served path

A `file:` or `fifo:` service reads the path it opened into the stream, and what the dialer sends goes to a
sink: nothing a dialer does is written to the path.
-/
namespace Tightbeam

open Guarded

/-- The object is at an end when nothing of it is left: no one is waited for. -/
def Guarded.Object.ends (object : Object) : Prop := object = .File ∨ object = .Fifo 0

instance : DecidablePred Object.ends := fun object =>
  inferInstanceAs (Decidable (object = .File ∨ object = .Fifo 0))

namespace Guarded

variable {world : Reads} {buf : ReadBuf}

/-- `read(2)` can give any beginning of what is there that was asked for. -/
theorem read_exact {len : Nat} {items : List UInt8} (hlen : items.length ≤ len) (hitems : items <+: world.held)
    (hends : items = [] → world.held = [] ∧ world.object.ends) :
    world.read ⟨items.length, none⟩ len = .ok ⟨items, hlen⟩ := by
  have hblocks : ¬(world.held = [] ∧ 0 < len ∧ world.object ≠ .File ∧ world.object ≠ .Fifo 0) := by
    rintro ⟨hheld, -, hfile, hfifo⟩
    rw [hheld, List.prefix_nil] at hitems
    rcases (hends hitems).2 with hobject | hobject
    · exact hfile hobject
    · exact hfifo hobject
  have htake : world.held.take (min len (max 1 items.length)) = items := by
    cases items with
    | nil => rw [(hends rfl).1, List.take_nil]
    | cons item items =>
      have hasked : min len (max 1 (item :: items).length) = (item :: items).length := by
        rw [List.length_cons] at hlen ⊢
        omega
      rw [hasked]
      exact (List.prefix_iff_eq_take.mp hitems).symm
  unfold Reads.read
  simp only [if_neg hblocks, htake]

theorem answer_exact {items : List UInt8} (hlen : items.length ≤ buf.unfilled) (hitems : items <+: world.held)
    (hends : items = [] → world.held = [] ∧ world.object.ends) :
    world.answer buf (.Ready (.ok ())) ⟨items.length, none⟩ = some (.Ready (.ok ()), buf.advance ⟨items, hlen⟩) := by
  have hread := read_exact hlen hitems hends
  cases hobject : world.object <;>
    simp [Reads.answer, hobject, hread, RegularFileReader.pollRead, NonblockingReader.turn]

end Guarded

/-- `io::sink()` takes all it is given. -/
def sinks {ε : Type} (held : List UInt8) : Copier.Event UInt8 ε → Bool
  | .read _ => true
  | .write (.ok n) => n == held.length
  | .flush (.ok _) => true
  | .finish (.ok _) => true
  | _ => false

/-- A copy polls its reader while its buffer has room, and gives it that room. -/
def fills {ε : Type} (s : Splice ε) (buf : ReadBuf) : Bool :=
  match s.up.phase with
  | .Copying => s.live && !s.up.ended && s.up.held.isSuffixOf buf.filled &&
      decide (buf.capacity = copyBuffer ∧ buf.filled.length < copyBuffer)
  | _ => false

/-- What the copy hears of a turn of its poll. -/
def heard {ε : Type} {buf : ReadBuf} :
    Option (Poll (Except Errno Unit) × buf.Room) → Option (Copier.Event UInt8 (Errno ⊕ ε))
  | some (.Ready (.ok _), put) => some (.read (.ok put.val))
  | some (.Ready (.error error), _) => some (.read (.error (.inl error)))
  | some (.Pending, _) => none
  | none => none

/-- The raw arm of `serve_ready` behind a dialer: the host's end copies the path's reader to the stream, and
the stream to a sink. An error is the path's or another one. -/
structure PathTunnel (ε : Type) where
  path : Reads
  tunnel : Tunnel (Errno ⊕ ε)

inductive PathEvent (ε : Type) where
  | path (event : ReadEvent)
  | host (event : SpliceEvent (Errno ⊕ ε))
  | dialer (event : SpliceEvent (Errno ⊕ ε))

def PathEvent.written {ε : Type} : PathEvent ε → List UInt8
  | .path event => event.written
  | _ => []

namespace PathTunnel

variable {ε : Type}

def opened (object : Object) (contents : List UInt8) : PathTunnel ε := ⟨.opened object contents, .new⟩

/-- What the host's end can do between two polls of the path's reader. -/
def hostMoves (t : PathTunnel ε) : SpliceEvent (Errno ⊕ ε) → Bool
  | .up (.read _) => false
  | .up _ => true
  | .down event => sinks t.tunnel.far.down.held event
  | .drop => true

def hears (t : PathTunnel ε) (path : Reads) : ReadEvent → Option (PathTunnel ε)
  | .polls buf => if fills t.tunnel.far buf then some { t with path } else none
  | .turns ready call =>
    match t.path.polling with
    | none => none
    | some buf =>
      match heard (t.path.answer buf ready call) with
      | none => some { t with path }
      | some event => (t.tunnel.step (.far (.up event))).map fun tunnel => ⟨path, tunnel⟩
  | _ => some { t with path }

def step (t : PathTunnel ε) : PathEvent ε → Option (PathTunnel ε)
  | .path event => (t.path.step event).bind fun path => t.hears path event
  | .host event =>
    -- A poll under way is the splice's own.
    if t.path.polling.isNone && t.hostMoves event then
      (t.tunnel.step (.far event)).map fun tunnel => { t with tunnel }
    else none
  | .dialer event => (t.tunnel.step (.near event)).map fun tunnel => { t with tunnel }

variable {t t' : PathTunnel ε} {event : PathEvent ε}

/-- What a step does: to the path alone, or between the path and the host's end, or to one end alone. -/
inductive Moves (t : PathTunnel ε) : PathTunnel ε → Prop where
  | path {path : Reads} (hdelivered : path.delivered = t.path.delivered)
      (hpolls : ∀ buf, path.polling = some buf → t.path.polling = some buf ∨ fills t.tunnel.far buf = true) :
      Moves t { t with path }
  | turned {path : Reads} {far : Splice (Errno ⊕ ε)} (got : Except (Errno ⊕ ε) (List UInt8))
      (hfar : t.tunnel.far.step (.up (.read got)) = some far) (hpolling : path.polling = none)
      (hsource : t.tunnel.far.up.source = t.path.delivered → far.up.source = path.delivered)
      (hended : far.up.ended = true → path.held = [] ∧ path.object.ends) :
      Moves t ⟨path, { t.tunnel with far }⟩
  | host {far : Splice (Errno ⊕ ε)} (event : SpliceEvent (Errno ⊕ ε)) (hpolling : t.path.polling = none)
      (hallowed : Tunnel.allowed t.tunnel.far t.tunnel.near event = true)
      (hfar : t.tunnel.far.step event = some far)
      (hsame : far.up.source = t.tunnel.far.up.source ∧ far.up.ended = t.tunnel.far.up.ended) :
      Moves t { t with tunnel := { t.tunnel with far } }
  | dialer {near : Splice (Errno ⊕ ε)} (event : SpliceEvent (Errno ⊕ ε))
      (hallowed : Tunnel.allowed t.tunnel.near t.tunnel.far event = true)
      (hnear : t.tunnel.near.step event = some near) : Moves t { t with tunnel := { t.tunnel with near } }

/-- A host's move of its own reads nothing of the path. -/
theorem hostMoves_same {event : SpliceEvent (Errno ⊕ ε)} {far : Splice (Errno ⊕ ε)}
    (hmoves : t.hostMoves event = true) (hfar : t.tunnel.far.step event = some far) :
    far.up.source = t.tunnel.far.up.source ∧ far.up.ended = t.tunnel.far.up.ended := by
  unfold Splice.step at hfar
  split at hfar
  · cases hfar
  · cases event with
    | up event =>
      obtain ⟨p, hp, rfl⟩ := Option.map_eq_some_iff.mp hfar
      rcases Copier.step_source hp with ⟨items, rfl, -, -⟩ | hsame
      · cases hmoves
      · exact hsame
    | down event =>
      obtain ⟨p, hp, rfl⟩ := Option.map_eq_some_iff.mp hfar
      exact ⟨rfl, rfl⟩
    | drop =>
      cases hfar
      exact ⟨rfl, rfl⟩

/-- A read adds what it gave, and one that failed adds nothing. -/
theorem read_source {got : Except (Errno ⊕ ε) (List UInt8)} {far : Splice (Errno ⊕ ε)}
    (hfar : t.tunnel.far.step (.up (.read got)) = some far) : t.tunnel.far.up.ended = false ∧
      ((∃ items, got = .ok items ∧ far.up = t.tunnel.far.up.take items) ∨
        (∃ error, got = .error error) ∧ far.up.source = t.tunnel.far.up.source ∧ far.up.ended = false) := by
  unfold Splice.step at hfar
  split at hfar
  · cases hfar
  · obtain ⟨p, hp, rfl⟩ := Option.map_eq_some_iff.mp hfar
    have hopen := (Copier.read_open hp).2.1
    refine ⟨hopen, ?_⟩
    rcases Copier.step_source hp with ⟨items, heq, -, htook⟩ | ⟨hsource, hended⟩
    · cases heq
      exact .inl ⟨items, rfl, htook⟩
    · cases got with
      | ok items => exact .inl ⟨items, rfl, Copier.step_read hp⟩
      | error error => exact .inr ⟨⟨error, rfl⟩, hsource, hended.trans hopen⟩

theorem fills_room {s : Splice (Errno ⊕ ε)} {buf : ReadBuf} (h : fills s buf = true) :
    s.up.phase = .Copying ∧ s.live = true ∧ s.up.ended = false ∧ s.up.held.length ≤ buf.filled.length ∧
      buf.capacity = copyBuffer ∧ buf.filled.length < buf.capacity := by
  unfold fills at h
  split at h
  · rename_i hphase
    simp only [Bool.and_eq_true, Bool.not_eq_true', decide_eq_true_eq, List.isSuffixOf_iff_suffix] at h
    obtain ⟨⟨⟨hlive, hopen⟩, hheld⟩, hcapacity, hroom⟩ := h
    exact ⟨hphase, hlive, hopen, hheld.length_le, hcapacity, hcapacity ▸ hroom⟩
  · cases h

/-- A turn of the poll leaves it waiting, or gives the copy what it put. -/
theorem turn_moves {path : Reads} {ready : Poll (Except Errno Unit)} {call : Call}
    (hpolls : ∀ buf, t.path.polling = some buf → fills t.tunnel.far buf = true)
    (hpath : t.path.step (.turns ready call) = some path) (h : t.hears path (.turns ready call) = some t') :
    Moves t t' := by
  cases hpolling : t.path.polling with
  | none => simp [hears, hpolling] at h
  | some buf =>
    simp only [Reads.step, hpolling] at hpath
    simp only [hears, hpolling] at h
    cases hanswer : t.path.answer buf ready call with
    | none =>
      simp only [hanswer, heard, Option.some.injEq] at hpath h
      rw [← h, ← hpath]
      exact .path rfl fun _ hsame => .inl (hpolling ▸ hsame)
    | some answer =>
      obtain ⟨polled, put⟩ := answer
      simp only [hanswer, Option.some.injEq] at hpath
      rcases polled with _ | ⟨error | _⟩
      · simp only [hanswer, heard, Option.some.injEq] at h
        have hput := answer_pending hanswer
        rw [← h, ← hpath]
        refine .path ?_ fun _ hsame => ?_
        · simp [hput]
        · cases hsame
      · simp only [hanswer, heard] at h
        obtain ⟨tunnel, htunnel, rfl⟩ := Option.map_eq_some_iff.mp h
        obtain ⟨far, rfl, -, hfar⟩ := Tunnel.step_far htunnel
        obtain ⟨-, ⟨items, heq, -⟩ | ⟨-, hsource, hopen⟩⟩ := read_source hfar
        · cases heq
        · have hput := (answer_error hanswer).1
          rw [← hpath]
          refine .turned _ hfar rfl (fun hread => ?_) (fun hended => ?_)
          · simp [hsource, hread, hput]
          · cases hopen.symm.trans hended
      · simp only [hanswer, heard] at h
        obtain ⟨tunnel, htunnel, rfl⟩ := Option.map_eq_some_iff.mp h
        obtain ⟨far, rfl, -, hfar⟩ := Tunnel.step_far htunnel
        obtain ⟨-, ⟨items, heq, htook⟩ | ⟨⟨error, heq⟩, -⟩⟩ := read_source hfar
        · cases heq
          rw [← hpath]
          refine .turned _ hfar rfl (fun hread => ?_) (fun hended => ?_)
          · simp [htook, Copier.take, hread]
          · have hput : put.val = [] := by simpa [htook, Copier.take] using hended
            obtain ⟨octets, hread, heq⟩ := answer_ok hanswer
            have hroom := (fills_room (hpolls buf hpolling)).2.2.2.2.2
            obtain ⟨hheld, hobject⟩ := (read_ok hread).2 (Nat.sub_pos_of_lt hroom) (heq ▸ hput)
            exact ⟨by simp [hheld], hobject⟩
        · cases heq

theorem step_moves (hpolls : ∀ buf, t.path.polling = some buf → fills t.tunnel.far buf = true)
    (h : t.step event = some t') : Moves t t' := by
  cases event with
  | path event =>
    obtain ⟨path, hpath, hhears⟩ := Option.bind_eq_some_iff.mp h
    cases event with
    | turns ready call => exact turn_moves hpolls hpath hhears
    | polls buf =>
      simp only [hears, Option.ite_none_right_eq_some, Option.some.injEq] at hhears
      obtain ⟨hfills, rfl⟩ := hhears
      simp only [Reads.step, Option.ite_none_left_eq_some, Option.some.injEq] at hpath
      rw [← hpath.2]
      refine .path rfl fun other hother => .inr ?_
      cases hother
      exact hfills
    | opens | writes _ | closes | takes _ =>
      cases hhears
      obtain ⟨hdelivered, hpolling⟩ := step_others hpath (by simp) (by simp)
      exact .path hdelivered fun _ hpolls => .inl (hpolling ▸ hpolls)
  | host event =>
    simp only [step, Option.ite_none_right_eq_some, Bool.and_eq_true, Option.isNone_iff_eq_none] at h
    obtain ⟨⟨hpolling, hmoves⟩, h⟩ := h
    obtain ⟨tunnel, htunnel, rfl⟩ := Option.map_eq_some_iff.mp h
    obtain ⟨far, rfl, hallowed, hfar⟩ := Tunnel.step_far htunnel
    exact .host event hpolling hallowed hfar (hostMoves_same hmoves hfar)
  | dialer event =>
    obtain ⟨tunnel, htunnel, rfl⟩ := Option.map_eq_some_iff.mp h
    obtain ⟨near, rfl, hallowed, hnear⟩ := Tunnel.step_near htunnel
    exact .dialer event hallowed hnear

/-- What the copy read of the path is what the path's polls delivered, and a poll under way has room. -/
structure Inv (t : PathTunnel ε) : Prop where
  tunnel : t.tunnel.Inv
  read : t.tunnel.far.up.source = t.path.delivered
  polls : ∀ buf, t.path.polling = some buf → fills t.tunnel.far buf = true

theorem inv_opened (object : Object) (contents : List UInt8) : (opened object contents : PathTunnel ε).Inv := by
  refine ⟨Tunnel.inv_new, rfl, fun buf hpolling => ?_⟩
  cases hpolling

theorem Inv.moves (h : t.Inv) (hmoves : Moves t t') : t'.Inv := by
  cases hmoves with
  | path hdelivered hpolls =>
    refine ⟨h.tunnel, h.read.trans hdelivered.symm, fun buf hpolling => ?_⟩
    rcases hpolls buf hpolling with hbefore | hfills
    · exact h.polls buf hbefore
    · exact hfills
  | turned got hfar hpolling hsource hended =>
    refine ⟨(h.tunnel.flip.near_step rfl hfar).flip, hsource h.read, fun buf hpolls => ?_⟩
    cases hpolling.symm.trans hpolls
  | host event hpolling hallowed hfar hsame =>
    refine ⟨(h.tunnel.flip.near_step hallowed hfar).flip, hsame.1.trans h.read, fun buf hpolls => ?_⟩
    cases hpolling.symm.trans hpolls
  | dialer event hallowed hnear => exact ⟨h.tunnel.near_step hallowed hnear, h.read, h.polls⟩

theorem Inv.step (h : t.Inv) (hstep : t.step event = some t') : t'.Inv := h.moves (step_moves h.polls hstep)

theorem Inv.run (h : t.Inv) {events : List (PathEvent ε)} (hrun : events.foldlM PathTunnel.step t = some t') :
    t'.Inv :=
  Runs.foldlM_keeps (fun _ _ _ hinv hstep => hinv.step hstep) h hrun

theorem hears_path {path : Reads} {event : ReadEvent} (h : t.hears path event = some t') : t'.path = path := by
  cases event with
  | polls buf =>
    simp only [hears, Option.ite_none_right_eq_some, Option.some.injEq] at h
    rw [← h.2]
  | turns ready call =>
    simp only [hears] at h
    split at h
    · cases h
    · split at h
      · cases h
        rfl
      · obtain ⟨tunnel, -, rfl⟩ := Option.map_eq_some_iff.mp h
        rfl
  | opens | writes _ | closes | takes _ =>
    cases h
    rfl

/-- Only others write the path: neither end of the tunnel does. -/
theorem step_written {whole : List UInt8} (h : Shares whole t.path) (hstep : t.step event = some t') :
    Shares (whole ++ event.written) t'.path := by
  cases event with
  | path event =>
    obtain ⟨path, hpath, hhears⟩ := Option.bind_eq_some_iff.mp hstep
    rw [hears_path hhears]
    exact step_shares h hpath
  | host event =>
    simp only [step, Option.ite_none_right_eq_some] at hstep
    obtain ⟨tunnel, -, rfl⟩ := Option.map_eq_some_iff.mp hstep.2
    have hsame : whole ++ PathEvent.written (.host event) = whole := List.append_nil whole
    rw [hsame]
    exact h
  | dialer event =>
    obtain ⟨tunnel, -, rfl⟩ := Option.map_eq_some_iff.mp hstep
    have hsame : whole ++ PathEvent.written (.dialer event) = whole := List.append_nil whole
    rw [hsame]
    exact h

theorem run_written {whole : List UInt8} (h : Shares whole t.path) {events : List (PathEvent ε)}
    (hrun : events.foldlM step t = some t') : Shares (whole ++ events.flatMap PathEvent.written) t'.path := by
  induction events generalizing t whole with
  | nil =>
    cases hrun
    rw [List.flatMap_nil, List.append_nil]
    exact h
  | cons event events ih =>
    rw [List.foldlM_cons] at hrun
    obtain ⟨middle, hstep, hrest⟩ := Option.bind_eq_some_iff.mp hrun
    rw [List.flatMap_cons, ← List.append_assoc]
    exact ih (step_written h hstep) hrest

/-- The path's end is seen once, and nothing is read after it. -/
theorem Moves.ended (hmoves : Moves t t') (hended : t.tunnel.far.up.ended = true) :
    t'.tunnel.far.up.source = t.tunnel.far.up.source ∧ t'.tunnel.far.up.ended = true := by
  cases hmoves with
  | path hdelivered hpolls => exact ⟨rfl, hended⟩
  | turned got hfar hpolling hsource hends => exact Splice.step_ended hfar hended
  | host event hpolling hallowed hfar hsame => exact Splice.step_ended hfar hended
  | dialer event hallowed hnear => exact ⟨rfl, hended⟩

theorem Inv.run_ended (h : t.Inv) (hended : t.tunnel.far.up.ended = true) {events : List (PathEvent ε)}
    (hrun : events.foldlM PathTunnel.step t = some t') : t'.tunnel.far.up.source = t.tunnel.far.up.source := by
  induction events generalizing t with
  | nil =>
    cases hrun
    rfl
  | cons event events ih =>
    rw [List.foldlM_cons] at hrun
    obtain ⟨middle, hstep, hrest⟩ := Option.bind_eq_some_iff.mp hrun
    obtain ⟨hsame, hover⟩ := (step_moves h.polls hstep).ended hended
    exact (ih (h.step hstep) hover hrest).trans hsame

/-- The copy has seen the end of a path of which nothing is left. -/
structure Over (t : PathTunnel ε) : Prop where
  ended : t.tunnel.far.up.ended = true
  held : t.path.held = []
  ends : t.path.object.ends

theorem Inv.ends (h : t.Inv) (hopen : t.tunnel.far.up.ended = false) (hstep : t.step event = some t') :
    t'.tunnel.far.up.ended = false ∨ t'.Over := by
  cases hended : t'.tunnel.far.up.ended with
  | false => exact .inl rfl
  | true =>
    cases step_moves h.polls hstep with
    | path hdelivered hpolls => cases hopen.symm.trans hended
    | turned got hfar hpolling hsource hends => exact .inr ⟨hended, (hends hended).1, (hends hended).2⟩
    | host event hpolling hallowed hfar hsame => cases (hsame.2.trans hopen).symm.trans hended
    | dialer event hallowed hnear => cases hopen.symm.trans hended

/-- Where the copy has seen the path's end, what it read and what other readers took by then is all the path had
had. -/
theorem Inv.source_ended (h : t.Inv) {whole : List UInt8} (hshares : Shares whole t.path)
    (hopen : t.tunnel.far.up.ended = false) {events : List (PathEvent ε)}
    (hrun : events.foldlM PathTunnel.step t = some t') (hended : t'.tunnel.far.up.ended = true) :
    ∃ done rest middle, events = done ++ rest ∧ done.foldlM PathTunnel.step t = some middle ∧
      middle.path.object.ends ∧
      Interleaves t'.tunnel.far.up.source middle.path.taken (whole ++ done.flatMap PathEvent.written) := by
  have hstays : ∀ (s : PathTunnel ε) (event : PathEvent ε) (s' : PathTunnel ε), s.Inv →
      s.tunnel.far.up.ended = false → s.step event = some s' → s'.tunnel.far.up.ended = false ∨ s'.Over :=
    fun _ _ _ hinv hopen hstep => hinv.ends hopen hstep
  have huntil := Runs.foldlM_until (fun _ _ _ hinv hstep => Inv.step hinv hstep) hstays h (.inl hopen) hrun
  rcases huntil with hstill | ⟨done, rest, middle, hsplit, hdone, hover⟩
  · cases hstill.symm.trans hended
  · refine ⟨done, rest, middle, hsplit, hdone, hover.ends, ?_⟩
    have hrest : rest.foldlM PathTunnel.step middle = some t' := by
      rw [hsplit, List.foldlM_append, hdone] at hrun
      exact hrun
    have hmiddle := h.run hdone
    obtain ⟨consumed, hconsumed, hall⟩ := (run_written hshares hdone).split
    rw [hover.held, List.append_nil] at hall
    rw [hmiddle.run_ended hover.ended hrest, hmiddle.read, ← hall]
    exact hconsumed

/-- What the copy will still read, if no one writes more. -/
def toCome (t : PathTunnel ε) : List UInt8 := if t.tunnel.far.up.ended then [] else t.path.held

/-- The path's end is seen, or is there to be. -/
def last (t : PathTunnel ε) : Bool := t.tunnel.far.up.ended || decide t.path.object.ends

/-- A run leads from one to the other. -/
def Reaches (t t' : PathTunnel ε) : Prop := ∃ events : List (PathEvent ε), events.foldlM PathTunnel.step t = some t'

theorem Reaches.refl (t : PathTunnel ε) : t.Reaches t := ⟨[], rfl⟩

theorem Reaches.trans {middle : PathTunnel ε} (h : t.Reaches middle) (h' : middle.Reaches t') : t.Reaches t' :=
  Runs.foldlM_trans h h'

theorem Reaches.step {middle : PathTunnel ε} (hstep : t.step event = some middle) (h : middle.Reaches t') :
    t.Reaches t' := by
  have hfirst : [event].foldlM PathTunnel.step t = some middle := by
    rw [List.foldlM_cons, hstep]
    rfl
  exact Reaches.trans ⟨[event], hfirst⟩ h

/-- What a turn put, the copy takes: its buffer has the room the poll was given. -/
theorem turn_read {buf : ReadBuf} {ready : Poll (Except Errno Unit)} {call : Call} {put : buf.Room}
    (hpolling : t.path.polling = some buf) (hfills : fills t.tunnel.far buf = true)
    (hanswer : t.path.answer buf ready call = some (.Ready (.ok ()), put)) :
    t.step (.path (.turns ready call)) =
      some ⟨{ t.path with
          held := t.path.held.drop put.val.length, delivered := t.path.delivered ++ put.val, polling := none },
        { t.tunnel with far := { t.tunnel.far with up := t.tunnel.far.up.take put.val } }⟩ := by
  obtain ⟨hphase, hlive, hopen, hheld, hcapacity, hroom⟩ := fills_room hfills
  have hgiven := @answer_given t.path buf ready call
  simp only [hanswer] at hgiven
  have hput := put.property
  have hfits : t.tunnel.far.up.held.length + put.val.length ≤ copyBuffer := by omega
  have hcopy : t.tunnel.far.up.step copyBuffer (.read (.ok put.val)) = some (t.tunnel.far.up.take put.val) := by
    have hguard : t.tunnel.far.up.ended = false ∧ t.tunnel.far.up.held.length < copyBuffer := ⟨hopen, by omega⟩
    simp only [Copier.step, hphase, if_pos hguard, if_pos hfits]
  have hfar : t.tunnel.step (.far (.up (.read (.ok put.val)))) =
      some { t.tunnel with far := { t.tunnel.far with up := t.tunnel.far.up.take put.val } } := by
    simp [Tunnel.step, Tunnel.allowed, Splice.step, hlive, hcopy]
  simp [step, Reads.step, hears, hpolling, hanswer, heard, hfar, ← hgiven]

/-- A turn that waits ends the poll, and nothing else. -/
theorem turn_waits {buf : ReadBuf} {ready : Poll (Except Errno Unit)} {call : Call} {put : buf.Room}
    (hpolling : t.path.polling = some buf) (hanswer : t.path.answer buf ready call = some (.Pending, put)) :
    t.step (.path (.turns ready call)) = some { t with path := { t.path with polling := none } } := by
  have hgiven := @answer_given t.path buf ready call
  simp only [hanswer, answer_pending hanswer] at hgiven
  simp [step, Reads.step, hears, hpolling, hanswer, heard, ← hgiven, answer_pending hanswer]

theorem step_polls {buf : ReadBuf} (hpolling : t.path.polling = none) (hfills : fills t.tunnel.far buf = true) :
    t.step (.path (.polls buf)) = some { t with path := { t.path with polling := some buf } } := by
  simp [step, Reads.step, hears, hpolling, hfills]

/-- A poll under way can come to its end. -/
theorem Inv.settles (h : t.Inv) (hfar : Tunnel.Up t.tunnel.far) :
    ∃ t' : PathTunnel ε, t.Reaches t' ∧ t'.path.polling = none ∧ t'.tunnel.near = t.tunnel.near ∧
      Tunnel.Up t'.tunnel.far ∧ t'.last = t.last ∧
      t'.tunnel.far.up.source ++ t'.toCome = t.tunnel.far.up.source ++ t.toCome := by
  cases hpolling : t.path.polling with
  | none => exact ⟨t, .refl t, hpolling, rfl, hfar, rfl, rfl⟩
  | some buf =>
    have hfills := h.polls buf hpolling
    obtain ⟨hphase, hlive, hopen, hheld, hcapacity, hroom⟩ := fills_room hfills
    cases hobject : t.path.object with
    | Fifo writers =>
      have hanswer : t.path.answer buf .Pending ⟨0, none⟩ = some (.Pending, buf.nothing) := by
        simp [Reads.answer, hobject, NonblockingReader.turn]
      exact ⟨_, .step (turn_waits hpolling hanswer) (.refl _), rfl, rfl, hfar, rfl, rfl⟩
    | File =>
      obtain ⟨octets, hread⟩ := read_file hobject 0 buf.unfilled
      have hanswer : t.path.answer buf .Pending ⟨0, none⟩ = some (.Ready (.ok ()), buf.advance octets) := by
        simp [Reads.answer, hobject, hread, RegularFileReader.pollRead]
      have hends : t.path.object.ends := .inl hobject
      refine ⟨_, .step (turn_read hpolling hfills hanswer) (.refl _), rfl, rfl, ?_, ?_, ?_⟩
      · refine ⟨hfar.dropped, fun error herror => ?_, hfar.down⟩
        have hlive : (t.tunnel.far.up.take octets.val).result = none := Copier.result_copying hphase
        cases hlive.symm.trans herror
      · simp [last, hends]
      · obtain ⟨hbegins, hnone⟩ := read_ok hread
        have hheld := List.prefix_iff_eq_append.mp hbegins
        cases hoctets : octets.val with
        | nil =>
          have hempty : t.path.held = [] := (hnone (Nat.sub_pos_of_lt hroom) hoctets).1
          simp [toCome, ReadBuf.advance, Copier.take, hoctets, hopen, hempty]
        | cons octet more =>
          rw [hoctets] at hheld
          simpa [toCome, ReadBuf.advance, Copier.take, hoctets, hopen] using hheld

theorem step_host {p : Copier UInt8 (Errno ⊕ ε)} {event : Copier.Event UInt8 (Errno ⊕ ε)}
    (hpolling : t.path.polling = none) (hfar : Tunnel.Up t.tunnel.far) (hquiet : ∀ got, event ≠ .read got)
    (hstep : t.tunnel.far.up.step copyBuffer event = some p) :
    t.step (.host (.up event)) = some { t with tunnel := { t.tunnel with far := { t.tunnel.far with up := p } } } := by
  have hmoves : t.hostMoves (.up event) = true := by
    cases event with
    | read got => exact absurd rfl (hquiet got)
    | write took => rfl
    | flush polled => rfl
    | finish polled => rfl
  have hup := Splice.step_up hfar.dropped hfar.down hstep
  have hstep : t.tunnel.far.step (.up event) = some { t.tunnel.far with up := p } := hup
  simp [step, hpolling, hmoves, Tunnel.step, Tunnel.allowed, hstep]

/-- A copy's buffer, with what it holds moved to its front. -/
def compact (p : Copier UInt8 (Errno ⊕ ε)) (hroom : p.held.length < copyBuffer) : ReadBuf :=
  ⟨p.held, copyBuffer, Nat.le_of_lt hroom⟩

/-- One poll reads any beginning of what is there, and its end where it is there. -/
theorem poll_reads {items : List UInt8} (hpolling : t.path.polling = none) (hlive : t.tunnel.far.live = true)
    (hphase : t.tunnel.far.up.phase = .Copying) (hopen : t.tunnel.far.up.ended = false)
    (hroom : t.tunnel.far.up.held.length < copyBuffer)
    (hfits : t.tunnel.far.up.held.length + items.length ≤ copyBuffer) (hitems : items <+: t.path.held)
    (hends : items = [] → t.path.held = [] ∧ t.path.object.ends) :
    t.Reaches ⟨{ t.path with
        held := t.path.held.drop items.length, delivered := t.path.delivered ++ items, polling := none },
      { t.tunnel with far := { t.tunnel.far with up := t.tunnel.far.up.take items } }⟩ := by
  have hfills : fills t.tunnel.far (compact t.tunnel.far.up hroom) = true := by
    simp [fills, compact, hphase, hlive, hopen, hroom]
  have hasked : items.length ≤ (compact t.tunnel.far.up hroom).unfilled := Nat.le_sub_of_add_le' hfits
  obtain ⟨polled, hpolled⟩ : ∃ polled, polled =
    ({ t with path := { t.path with polling := some (compact t.tunnel.far.up hroom) } } : PathTunnel ε) := ⟨_, rfl⟩
  have hpoll : t.step (.path (.polls (compact t.tunnel.far.up hroom))) = some polled := by
    rw [hpolled]
    exact step_polls hpolling hfills
  have hanswer : polled.path.answer (compact t.tunnel.far.up hroom) (.Ready (.ok ())) ⟨items.length, none⟩ =
      some (.Ready (.ok ()), (compact t.tunnel.far.up hroom).advance ⟨items, hasked⟩) := by
    rw [hpolled]
    exact answer_exact hasked hitems hends
  have hturn := turn_read (by rw [hpolled]) (by rw [hpolled]; exact hfills) hanswer
  rw [hpolled] at hturn hpoll
  exact .step hpoll (.step hturn (.refl _))

/-- The host's end can do with the path what its copy could alone. -/
theorem sends {events : List (Copier.Event UInt8 (Errno ⊕ ε))} {q : Copier UInt8 (Errno ⊕ ε)}
    (hpolling : t.path.polling = none) (hfar : Tunnel.Up t.tunnel.far)
    (hrun : events.foldlM (Copier.step copyBuffer) t.tunnel.far.up = some q)
    (hfine : ∀ error, q.result ≠ some (.error error)) (hbegins : q.source <+: t.tunnel.far.up.source ++ t.path.held)
    (hends : q.ended = true → t.tunnel.far.up.ended = false →
      q.source = t.tunnel.far.up.source ++ t.path.held ∧ t.path.object.ends) :
    ∃ path, t.Reaches ⟨path, { t.tunnel with far := { t.tunnel.far with up := q } }⟩ := by
  induction events generalizing t with
  | nil =>
    cases hrun
    exact ⟨t.path, .refl t⟩
  | cons event events ih =>
    rw [List.foldlM_cons] at hrun
    obtain ⟨p, hstep, hrest⟩ := Option.bind_eq_some_iff.mp hrun
    have hpfine : ∀ error, p.result ≠ some (.error error) := by
      intro error herror
      rw [Copier.run_over herror hrest] at hfine
      exact hfine error herror
    have hlive : t.tunnel.far.live = true :=
      Splice.live_of_up hfar.dropped (Copier.step_moves hstep).live hfar.down
    by_cases hread : ∃ got, event = .read got
    · obtain ⟨got, rfl⟩ := hread
      obtain ⟨hphase, hopen, hroom⟩ := Copier.read_open hstep
      cases got with
      | error error =>
        rw [Copier.read_fails hstep] at hpfine
        exact absurd rfl (hpfine (.Io error))
      | ok items =>
        obtain ⟨hfits, rfl⟩ := Copier.read_fits hstep
        obtain ⟨hgrows, hover⟩ := Copier.run_grows hrest
        have hitems : items <+: t.path.held := (List.prefix_append_right_inj _).mp (hgrows.trans hbegins)
        have hheld := List.prefix_iff_eq_append.mp hitems
        have hend : items = [] → t.path.held = [] ∧ t.path.object.ends := by
          rintro rfl
          obtain ⟨hsource, hended⟩ := hover rfl
          obtain ⟨hall, hobject⟩ := hends hended hopen
          rw [hsource] at hall
          exact ⟨(List.append_cancel_left hall).symm, hobject⟩
        have hpoll := poll_reads hpolling hlive hphase hopen hroom hfits hitems hend
        have hwhole : t.tunnel.far.up.source ++ items ++ t.path.held.drop items.length =
            t.tunnel.far.up.source ++ t.path.held := by rw [List.append_assoc, hheld]
        obtain ⟨path, hreaches⟩ := ih (t := ⟨{ t.path with
            held := t.path.held.drop items.length, delivered := t.path.delivered ++ items, polling := none },
          { t.tunnel with far := { t.tunnel.far with up := t.tunnel.far.up.take items } }⟩) rfl
          ⟨hfar.dropped, hpfine, hfar.down⟩ hrest (hwhole ▸ hbegins) (fun hended _ => hwhole ▸ hends hended hopen)
        exact ⟨path, hpoll.trans hreaches⟩
    · have hquiet : ∀ got, event ≠ .read got := fun got heq => hread ⟨got, heq⟩
      have hsame : p.source = t.tunnel.far.up.source ∧ p.ended = t.tunnel.far.up.ended := by
        rcases Copier.step_source hstep with ⟨items, heq, -, -⟩ | hsame
        · exact absurd heq (hquiet _)
        · exact hsame
      obtain ⟨path, hreaches⟩ := ih (t := { t with tunnel := { t.tunnel with far := { t.tunnel.far with up := p } } })
        hpolling ⟨hfar.dropped, hpfine, hfar.down⟩ hrest (by rw [hsame.1]; exact hbegins)
        (by rw [hsame.1, hsame.2]; exact hends)
      exact ⟨path, .step (step_host hpolling hfar hquiet hstep) hreaches⟩

/-- The dialer's end takes from the stream as it would of a host that does nothing more. -/
theorem takes {events : List (Copier.Event UInt8 (Errno ⊕ ε))} {q : Copier UInt8 (Errno ⊕ ε)}
    (hnear : Tunnel.Up t.tunnel.near) (hrun : events.foldlM (Copier.step copyBuffer) t.tunnel.near.down = some q)
    (hcarried : Tunnel.Carried t.tunnel.far { t.tunnel.near with down := q }) :
    t.Reaches { t with tunnel := { t.tunnel with near := { t.tunnel.near with down := q } } } := by
  refine ⟨events.map fun event => PathEvent.dialer (.down event), ?_⟩
  refine Runs.foldlM_lift (fun p : Copier UInt8 (Errno ⊕ ε) =>
      ({ t with tunnel := { t.tunnel with near := { t.tunnel.near with down := p } } } : PathTunnel ε))
    (fun event => PathEvent.dialer (.down event)) ?_ hrun
  intro p event p' rest hstep hrest
  have hallowed := Tunnel.allowed_first { t.tunnel.near with down := p } hstep hrest
    ⟨hcarried.begins, hcarried.ended⟩
  have hdown := Splice.step_down hnear.dropped hnear.up hstep
  simp [step, Tunnel.step, hallowed, hdown]

/-- Between two polls, all that the path has can reach the dialer, and its end where it is there. -/
theorem Inv.arrives (h : t.Inv) (hpolling : t.path.polling = none) (hnear : Tunnel.Up t.tunnel.near)
    (hfar : Tunnel.Up t.tunnel.far) :
    ∃ t' : PathTunnel ε, t.Reaches t' ∧ t'.tunnel.near.down.sunk = t.tunnel.far.up.source ++ t.toCome ∧
      t'.tunnel.near.down.result = if t.last then some (.ok ()) else none := by
  have hmore : t.tunnel.far.up.ended = true → t.toCome = [] ∧ t.last = true := by
    intro hended
    simp [toCome, last, hended]
  obtain ⟨up, ⟨ups, -, hups⟩, hsource, hsunk, hended, hresult⟩ :=
    h.tunnel.far.up.leads_on (by decide) hfar.up t.toCome t.last hmore
  have hfine : ∀ error, up.result ≠ some (.error error) := by
    intro error herror
    rw [hresult] at herror
    split at herror <;> cases herror
  obtain ⟨path, hsends⟩ : ∃ path, t.Reaches ⟨path, { t.tunnel with far := { t.tunnel.far with up } }⟩ := by
    refine sends hpolling hfar hups hfine ?_ ?_
    · rw [hsource, List.prefix_append_right_inj]
      unfold toCome
      split
      · exact List.nil_prefix
      · exact List.prefix_rfl
    · intro hover hopen
      have hlast : t.last = true := hended.symm.trans hover
      have hends : t.path.object.ends := by simpa [last, hopen] using hlast
      simp [hsource, toCome, hopen, hends]
  obtain ⟨sent, hsent⟩ : ∃ sent : PathTunnel ε, sent = ⟨path, { t.tunnel with far := { t.tunnel.far with up } }⟩ :=
    ⟨_, rfl⟩
  rw [← hsent] at hsends
  have hinv : sent.Inv := by
    obtain ⟨events, hrun⟩ := hsends
    exact h.run hrun
  have hlast : sent.tunnel.near.down.ended = true → t.last = true := by
    intro hover
    have hclosed := (hinv.tunnel.back.ended hover).2
    cases hlast : t.last with
    | true => rfl
    | false =>
      rw [hlast] at hresult
      rw [hsent] at hclosed
      have hlive : Splice.live { t.tunnel.far with up } = true :=
        Splice.live_of_up hfar.dropped hresult hfar.down
      cases hresult.symm.trans (Tunnel.closed_live hclosed hlive)
  have hclosed : t.last = true → sent.tunnel.far.closed = true := by
    intro hlast
    rw [hlast] at hresult
    rw [hsent]
    exact Tunnel.closed_of_done hresult
  have hsentNear : sent.tunnel.near = t.tunnel.near := by rw [hsent]
  obtain ⟨events, q, hrun, hqsunk, hqresult, hcarried⟩ := hinv.tunnel.back.catches_up hinv.tunnel.near.down
    (hsentNear ▸ hnear.down) t.last hlast hclosed
  refine ⟨_, hsends.trans (takes (hsentNear ▸ hnear) hrun hcarried), ?_, hqresult⟩
  rw [hsent] at hqsunk
  exact hqsunk.trans (hsunk.trans hsource)

end PathTunnel

/-- Along every run of a served path, with others that open, write, read and leave it and with either end failing
or dropped at any moment, the path has only what others wrote, whatever the dialer sends; and the dialer is given
the beginning of what the host read of it, which is all that no other reader took. An end it is told of comes
after all that the path had had by some moment, which of a FIFO is one with no writer there (a file may have
been written since), or is the loss of the host's end. While both ends are up all that the path has can still
reach the dialer, with its end where the path is a file or a FIFO with no writer. -/
theorem path_served {ε : Type} (object : Object) (contents : List UInt8) (events : List (PathEvent ε))
    (t : PathTunnel ε) (hrun : events.foldlM PathTunnel.step (.opened object contents) = some t) :
    Shares (contents ++ events.flatMap PathEvent.written) t.path ∧
    t.tunnel.far.up.source = t.path.delivered ∧ t.tunnel.near.down.sunk <+: t.tunnel.far.up.source ∧
    (t.path.taken = [] →
      t.tunnel.far.up.source ++ t.path.held = contents ++ events.flatMap PathEvent.written) ∧
    (t.tunnel.near.down.result = some (.ok ()) →
      (∃ done rest middle, events = done ++ rest ∧
        done.foldlM PathTunnel.step (.opened object contents) = some middle ∧ middle.path.object.ends ∧
        Interleaves t.tunnel.near.down.sunk middle.path.taken (contents ++ done.flatMap PathEvent.written)) ∨
      t.tunnel.far.up.result ≠ some (.ok ()) ∧ t.tunnel.far.live = false) ∧
    (t.tunnel.near.live = true → t.tunnel.far.live = true →
      ∃ (rest : List (PathEvent ε)) (t' : PathTunnel ε), rest.foldlM PathTunnel.step t = some t' ∧
        t'.tunnel.near.down.sunk = t.tunnel.far.up.source ++ t.toCome ∧
        t'.tunnel.near.down.result = if t.last then some (.ok ()) else none) := by
  have h := (PathTunnel.inv_opened object contents).run hrun
  have hopened : Shares contents (PathTunnel.opened object contents : PathTunnel ε).path :=
    shares_opened object contents
  have hshares := PathTunnel.run_written hopened hrun
  have hdelivers := h.tunnel.back.delivers h.tunnel.far h.tunnel.near
  refine ⟨hshares, h.read, hdelivers.begins, fun halone => ?_, fun hdone => ?_, fun hnear hfar => ?_⟩
  · rw [h.read]
    exact hshares.whole halone
  · rcases hdelivers.ended hdone with ⟨hended, hall⟩ | hlost
    · obtain ⟨done, rest, middle, hsplit, hfirst, hends, hsource⟩ :=
        (PathTunnel.inv_opened object contents).source_ended hopened rfl hrun hended
      exact .inl ⟨done, rest, middle, hsplit, hfirst, hends, hall ▸ hsource⟩
    · exact .inr hlost
  · obtain ⟨settled, hsettles, hpolling, hnearSame, hfarUp, hlast, hall⟩ := h.settles (Tunnel.up_of_live hfar)
    have hsettled : settled.Inv := by
      obtain ⟨events, hrun⟩ := hsettles
      exact h.run hrun
    obtain ⟨t', harrives, hsunk, hresult⟩ :=
      hsettled.arrives hpolling (hnearSame ▸ Tunnel.up_of_live hnear) hfarUp
    obtain ⟨rest, hrest⟩ := hsettles.trans harrives
    exact ⟨rest, t', hrest, hsunk.trans hall, hlast ▸ hresult⟩

theorem path_served_octets : ∃ t : PathTunnel Unit, t.tunnel.near.down.result = some (.ok ()) ∧
    t.tunnel.near.down.sunk = [7, 8] ∧ t.path.taken = [9] ∧ Shares ([] ++ [7, 8, 9]) t.path := by
  let poll : List (PathEvent Unit) :=
    [.path (.polls ⟨[], copyBuffer, Nat.zero_le _⟩), .path (.turns (.Ready (.ok ())) ⟨2, none⟩)]
  let ends : List (Copier.Event UInt8 (Errno ⊕ Unit)) := [.flush (.ok ()), .finish (.ok ())]
  have hserved := path_served (.Fifo 0) []
    ([.path .opens, .path (.writes [7, 8, 9])] ++ poll ++ [.path (.takes 4), .host (.up (.write (.ok 2))),
      .dialer (.up (.read (.ok [1]))), .dialer (.up (.write (.ok 1))), .host (.down (.read (.ok [1]))),
      .host (.down (.write (.ok 1))), .dialer (.down (.read (.ok [7, 8]))), .dialer (.down (.write (.ok 2))),
      .path .closes] ++ poll ++ ends.map (.host ∘ .up) ++ [.dialer (.down (.read (.ok [])))] ++
      ends.map (.dialer ∘ .down)) _ rfl
  exact ⟨_, rfl, rfl, rfl, hserved.1⟩

end Tightbeam
