import Tightbeam.Fanout
import Tightbeam.Library.Runs
import Mathlib.Logic.Function.Basic

/-!
# What a fan-out delivers over a whole run

The pump and any number of cursors, interleaved at their locks. Each cursor is compared with a viewer
of the stream itself, which knows nothing of the ring and nothing of the other cursors.
-/
namespace Tightbeam

def pumpChunk : Nat := 64 * 1024

/-- What one read returned: its room, the ring it looked at, and the octets with where they start. -/
structure Delivery where
  room : Nat
  ring : Ring
  pos : Nat
  bytes : List UInt8

/-- One consumer's session: its cursor until it is dropped, the head it was attached at, and its reads. -/
structure View where
  cursor : Option Cursor
  attached : Nat
  reads : List Delivery

/-- Where the pump stands. The reader is live until it is dropped. -/
inductive Pump where
  | Unstarted
  | Top (source : BoxRead)
  | Reading (source : BoxRead)
  | Left (source : BoxRead)
  | Dropped
  | Done

/-- What happens to the ring, and to a consumer's own session. -/
inductive RingEvent where
  | appended (bytes : List UInt8)
  | closed
  | attached (id : Nat)
  | polled (id room : Nat)
  | dropped (id : Nat)

/-- A fan-out and its consumers, by name, with the stream it was fed and what happened to its ring. An
open in progress holds the life lock. -/
structure FanoutWorld where
  ring : Ring
  life : Life
  pump : Pump
  joining : Option Nat
  views : Nat → Option View
  stream : List UInt8
  trace : List RingEvent

/-- One locked section, or one move of the pump. -/
inductive FanoutEvent where
  | opening (id : Nat)
  | attach
  | poll (id split room : Nat)
  | drop (id : Nat)
  | check
  | pumpRead (read : Except Unit (List UInt8))
  | release
  | close

/-- One locked section of a consumer's read. A dropped cursor reads no more. -/
def View.pollRead (view : View) (ring : Ring) (split room : Nat) : Option View :=
  match view.cursor with
  | none => some view
  | some c => do
    let (c, _, polled) ← c.pollRead ring split room
    match polled with
    | .Ready bytes =>
      pure { view with
        cursor := some c, reads := view.reads ++ [⟨room, ring, c.pos - bytes.length, bytes⟩] }
    | .Pending => pure { view with cursor := some c }

namespace FanoutWorld

def new (source : BoxRead) (lifetime : Lifetime) : FanoutWorld :=
  ⟨.new, ⟨some source, 0, lifetime⟩, .Unstarted, none, fun _ => none, [], []⟩

def setView (w : FanoutWorld) (id : Nat) (view : View) (event : RingEvent) : FanoutWorld :=
  { w with views := Function.update w.views id (some view), trace := w.trace ++ [event] }

/-- `Fanout::open` up to the count: the first consumer starts the pump, and a closed ring refuses. -/
def opening (w : FanoutWorld) (id : Nat) : FanoutWorld :=
  if w.joining.isSome ∨ (w.views id).isSome then w
  else match w.life.source with
    | some source =>
      { w with
        life := { w.life with source := none, consumers := w.life.consumers + 1 }
        pump := .Top source
        joining := some id }
    | none =>
      if w.ring.closed then w
      else { w with life := { w.life with consumers := w.life.consumers + 1 }, joining := some id }

/-- The rest of the open: the cursor starts at the live edge, and the life lock is let go. -/
def attach (w : FanoutWorld) : FanoutWorld :=
  match w.joining with
  | none => w
  | some id =>
    { w with joining := none }.setView id ⟨some ⟨w.ring.head, false⟩, w.ring.head, []⟩ (.attached id)

def poll (w : FanoutWorld) (id split room : Nat) : Option FanoutWorld :=
  match w.views id with
  | none => some w
  | some view => (view.pollRead w.ring split room).map fun view => w.setView id view (.polled id room)

def dropCursor (w : FanoutWorld) (id : Nat) : FanoutWorld :=
  match w.joining, w.views id with
  | none, some view =>
    if view.cursor.isSome then
      { w with life := { w.life with consumers := w.life.consumers - 1 } }.setView id
        { view with cursor := none } (.dropped id)
    else w
  | _, _ => w

/-- The top of the pump's loop, under the life lock. -/
def check (w : FanoutWorld) : FanoutWorld :=
  match w.pump, w.joining with
  | .Top source, none => { w with pump := if w.life.released then .Left source else .Reading source }
  | _, _ => w

/-- The source's read returns: octets go to the ring, and the end or an error leaves the loop. -/
def pumpRead (ceiling : Nat) (w : FanoutWorld) (read : Except Unit (List UInt8)) : Option FanoutWorld :=
  match w.pump with
  | .Reading source =>
    let source := source.answer ⟨pumpChunk, .Ready (read.map List.length)⟩
    match read with
    | .ok [] => some { w with pump := .Left source }
    | .ok (byte :: bytes) => (w.ring.appendWithin ceiling (byte :: bytes)).map fun ring =>
      { w with
        ring
        pump := .Top source
        stream := w.stream ++ byte :: bytes
        trace := w.trace ++ [.appended (byte :: bytes)] }
    | .error _ => some { w with pump := .Left source }
  | _ => some w

/-- The reader is dropped before the ring is marked closed. -/
def release (w : FanoutWorld) : FanoutWorld :=
  match w.pump with
  | .Left _ => { w with pump := .Dropped }
  | _ => w

def close (w : FanoutWorld) : FanoutWorld :=
  match w.pump with
  | .Dropped =>
    { w with ring := { w.ring with closed := true }, pump := .Done, trace := w.trace ++ [.closed] }
  | _ => w

def stepWithin (ceiling : Nat) (w : FanoutWorld) : FanoutEvent → Option FanoutWorld
  | .opening id => some (w.opening id)
  | .attach => some w.attach
  | .poll id split room => w.poll id split room
  | .drop id => some (w.dropCursor id)
  | .check => some w.check
  | .pumpRead read => w.pumpRead ceiling read
  | .release => some w.release
  | .close => some w.close

def runWithin (ceiling : Nat) (source : BoxRead) (lifetime : Lifetime) (events : List FanoutEvent) :
    Option FanoutWorld :=
  events.foldlM (stepWithin ceiling) (new source lifetime)

/-- A run under the code's own ceiling; it is `none` once a subtraction underflows. -/
def run (source : BoxRead) (lifetime : Lifetime) (events : List FanoutEvent) : Option FanoutWorld :=
  runWithin ringBytes source lifetime events

end FanoutWorld

/-- Where a consumer stands after its reads: at the end of the last one. -/
def stop (edge : Nat) (reads : List Delivery) : Nat :=
  reads.foldl (fun _ d => d.pos + d.bytes.length) edge

/-- Each read starts where the one before it ended, or at the ring's base once that was evicted. -/
def Follows : Nat → List Delivery → Prop
  | _, [] => True
  | edge, d :: rest => d.pos = max edge d.ring.base ∧ Follows (d.pos + d.bytes.length) rest

/-- At each of its reads the consumer is no further behind the head than the ceiling. -/
def Near (ceiling : Nat) : Nat → List Delivery → Prop
  | _, [] => True
  | edge, d :: rest => d.ring.head ≤ edge + ceiling ∧ Near ceiling (d.pos + d.bytes.length) rest

def View.received (view : View) : List UInt8 := view.reads.flatMap Delivery.bytes

theorem stop_snoc (edge : Nat) (reads : List Delivery) (d : Delivery) :
    stop edge (reads ++ [d]) = d.pos + d.bytes.length := by
  simp [stop]

theorem follows_snoc (edge : Nat) (reads : List Delivery) (d : Delivery) :
    Follows edge (reads ++ [d]) ↔ Follows edge reads ∧ d.pos = max (stop edge reads) d.ring.base := by
  induction reads generalizing edge with
  | nil => simp [Follows, stop]
  | cons first rest ih =>
    simp only [List.cons_append, Follows, ih, and_assoc]
    rfl

theorem follows_le {edge : Nat} {reads : List Delivery} (h : Follows edge reads) : edge ≤ stop edge reads := by
  induction reads generalizing edge with
  | nil => exact le_refl _
  | cons d rest ih =>
    obtain ⟨hpos, hrest⟩ := h
    have hle := ih hrest
    have hstop : stop edge (d :: rest) = stop (d.pos + d.bytes.length) rest := rfl
    omega

/-- What holds of one consumer against the feed it watches. -/
structure View.Contract (ceiling : Nat) (feed : Feed) (view : View) : Prop where
  attached : stop view.attached view.reads ≤ feed.stream.length
  follows : Follows view.attached view.reads
  runs : ∀ d ∈ view.reads, d.bytes = Window.run feed.stream d.pos d.bytes.length ∧
    d.pos + d.bytes.length ≤ feed.stream.length
  room : ∀ d ∈ view.reads, d.bytes.length ≤ d.room
  rings : ∀ d ∈ view.reads, d.ring.base = d.ring.head - ceiling
  ended : ∀ d ∈ view.reads, 0 < d.room → d.bytes = [] → feed.closed = true ∧ d.ring.closed = true ∧
    d.pos = feed.stream.length
  placed : ∀ c, view.cursor = some c → c.pos = stop view.attached view.reads

/-- A consumer that stays near the head receives the stream from where it was attached, without a gap. -/
theorem gapless {ceiling edge : Nat} {stream : List UInt8} {reads : List Delivery}
    (hfollows : Follows edge reads) (hnear : Near ceiling edge reads)
    (hruns : ∀ d ∈ reads, d.bytes = Window.run stream d.pos d.bytes.length)
    (hrings : ∀ d ∈ reads, d.ring.base = d.ring.head - ceiling) :
    reads.flatMap Delivery.bytes = Window.run stream edge (reads.flatMap Delivery.bytes).length ∧
      stop edge reads = edge + (reads.flatMap Delivery.bytes).length := by
  induction reads generalizing edge with
  | nil => simp [Window.run, stop]
  | cons d rest ih =>
    obtain ⟨hpos, hfollows⟩ := hfollows
    obtain ⟨hhead, hnear⟩ := hnear
    have hbase := hrings d List.mem_cons_self
    have hedge : d.pos = edge := by omega
    have hfirst := hruns d List.mem_cons_self
    obtain ⟨hrest, hstop⟩ := ih hfollows hnear (fun other hother => hruns other (List.mem_cons_of_mem d hother))
      (fun other hother => hrings other (List.mem_cons_of_mem d hother))
    have hstop' : stop edge (d :: rest) = stop (d.pos + d.bytes.length) rest := rfl
    rw [hedge] at hfirst hrest hstop hstop'
    rw [List.flatMap_cons, List.length_append, ← Window.run_join, ← hfirst, ← hrest]
    refine ⟨rfl, ?_⟩
    omega

/-- A viewer of the stream itself, under a ceiling: what one locked look at the ring gives it. -/
def View.watch (ceiling : Nat) (feed : Feed) (room : Nat) (view : View) : View :=
  match view.cursor with
  | none => view
  | some c =>
    let start := c.start ceiling feed
    if start < feed.stream.length then
      let n := min (feed.stream.length - start) room
      { view with
        cursor := some ⟨start + n, if start + n = feed.stream.length then false else c.lags ceiling feed⟩
        reads := view.reads ++ [⟨room, feed.ring ceiling, start, Window.run feed.stream start n⟩] }
    else if feed.closed then
      { view with
        cursor := some ⟨start, false⟩
        reads := view.reads ++ [⟨room, feed.ring ceiling, start, []⟩] }
    else { view with cursor := some ⟨start, false⟩ }

variable {ceiling : Nat}

theorem View.pollRead_eq (view : View) (feed : Feed) (split room : Nat) :
    view.pollRead (feed.ring ceiling) split room = some (view.watch ceiling feed room) := by
  unfold View.pollRead View.watch
  cases view.cursor with
  | none => rfl
  | some c =>
    simp only [Cursor.pollRead_eq, Option.bind_eq_bind, Option.bind_some]
    by_cases hbehind : c.start ceiling feed < feed.stream.length
    · have hlength : (Window.run feed.stream (c.start ceiling feed)
          (min (feed.stream.length - c.start ceiling feed) room)).length =
          min (feed.stream.length - c.start ceiling feed) room := by
        rw [Window.length_run]
        omega
      simp only [if_pos hbehind, hlength, Nat.add_sub_cancel, Option.pure_def]
    · simp only [if_neg hbehind]
      cases feed.closed with
      | true => rfl
      | false => rfl

namespace View.Contract

variable {feed : Feed} {view : View}

theorem appended (h : view.Contract ceiling feed) (hopen : feed.closed = false) (bytes : List UInt8) :
    view.Contract ceiling (feed.append bytes) := by
  have hlength : (feed.append bytes).stream.length = feed.stream.length + bytes.length :=
    List.length_append
  refine ⟨?_, h.follows, ?_, h.room, h.rings, ?_, h.placed⟩
  · have hattached := h.attached
    omega
  · intro d hd
    obtain ⟨hrun, hle⟩ := h.runs d hd
    refine ⟨?_, by omega⟩
    rw [Feed.append, Window.run_append hle]
    exact hrun
  · intro d hd hroom hempty
    have hclosed := (h.ended d hd hroom hempty).1
    rw [hopen] at hclosed
    cases hclosed

theorem closed (h : view.Contract ceiling feed) : view.Contract ceiling { feed with closed := true } := by
  refine ⟨h.attached, h.follows, h.runs, h.room, h.rings, ?_, h.placed⟩
  intro d hd hroom hempty
  obtain ⟨-, hring, hpos⟩ := h.ended d hd hroom hempty
  exact ⟨rfl, hring, hpos⟩

theorem fresh (ceiling : Nat) (feed : Feed) :
    (View.mk (some ⟨feed.stream.length, false⟩) feed.stream.length []).Contract ceiling feed := by
  refine ⟨le_refl _, trivial, ?_, ?_, ?_, ?_, ?_⟩
  · simp
  · simp
  · simp
  · simp
  · intro c hc
    cases hc
    rfl

theorem dropped (h : view.Contract ceiling feed) :
    ({ view with cursor := none } : View).Contract ceiling feed := by
  refine ⟨h.attached, h.follows, h.runs, h.room, h.rings, h.ended, ?_⟩
  intro c hc
  cases hc

/-- One more read keeps the contract when it starts where it must and takes what is there. -/
theorem snoc (h : view.Contract ceiling feed) (lagged : Bool) (room : Nat) (bytes : List UInt8) {pos : Nat}
    (hpos : pos = max (stop view.attached view.reads) (feed.base ceiling))
    (hrun : bytes = Window.run feed.stream pos bytes.length) (hle : pos + bytes.length ≤ feed.stream.length)
    (hroom : bytes.length ≤ room)
    (hended : 0 < room → bytes = [] → feed.closed = true ∧ pos = feed.stream.length) :
    (View.mk (some ⟨pos + bytes.length, lagged⟩) view.attached
      (view.reads ++ [⟨room, feed.ring ceiling, pos, bytes⟩])).Contract ceiling feed := by
  have hmem (d : Delivery) (hd : d ∈ view.reads ++ [⟨room, feed.ring ceiling, pos, bytes⟩]) :
      d ∈ view.reads ∨ d = ⟨room, feed.ring ceiling, pos, bytes⟩ := by
    simpa using hd
  refine ⟨?_, ?_, ?_, ?_, ?_, ?_, ?_⟩
  · rw [stop_snoc]
    exact hle
  · exact (follows_snoc _ _ _).2 ⟨h.follows, hpos⟩
  · intro d hd
    rcases hmem d hd with hold | rfl
    · exact h.runs d hold
    · exact ⟨hrun, hle⟩
  · intro d hd
    rcases hmem d hd with hold | rfl
    · exact h.room d hold
    · exact hroom
  · intro d hd
    rcases hmem d hd with hold | rfl
    · exact h.rings d hold
    · rw [feed.head_ring]
      rfl
  · intro d hd hsome hempty
    rcases hmem d hd with hold | rfl
    · exact h.ended d hold hsome hempty
    · obtain ⟨hclosed, hfinal⟩ := hended hsome hempty
      exact ⟨hclosed, hclosed, hfinal⟩
  · intro c hc
    cases hc
    rw [stop_snoc]

theorem watched (h : view.Contract ceiling feed) (hceiling : 0 < ceiling) (room : Nat) :
    (view.watch ceiling feed room).Contract ceiling feed := by
  unfold View.watch
  cases hcursor : view.cursor with
  | none => exact h
  | some c =>
    have hplaced := h.placed c hcursor
    have hattached := h.attached
    have hstart : c.start ceiling feed = max (stop view.attached view.reads) (feed.base ceiling) := by
      rw [Cursor.start, hplaced]
    have hbase : feed.base ceiling = feed.stream.length - ceiling := rfl
    simp only
    generalize c.start ceiling feed = start at hstart ⊢
    by_cases hbehind : start < feed.stream.length
    · simp only [if_pos hbehind]
      have hlength : (Window.run feed.stream start (min (feed.stream.length - start) room)).length =
          min (feed.stream.length - start) room := by
        rw [Window.length_run]
        omega
      have hkept := h.snoc (if start + min (feed.stream.length - start) room = feed.stream.length then false
        else c.lags ceiling feed) room (Window.run feed.stream start (min (feed.stream.length - start) room))
        hstart (by rw [hlength]) (by omega) (by omega) ?_
      · rw [hlength] at hkept
        exact hkept
      · intro hroom hempty
        have hnil := congrArg List.length hempty
        rw [hlength, List.length_nil] at hnil
        omega
    · simp only [if_neg hbehind]
      -- Nothing is left to read, so the cursor stands at the head and has not moved.
      have hhead : start = feed.stream.length := by omega
      have hsame : start = stop view.attached view.reads := by omega
      cases hclosed : feed.closed with
      | true =>
        exact h.snoc false room [] hstart (by simp [Window.run]) (by simp [hhead]) (Nat.zero_le _)
          (fun _ _ => ⟨hclosed, hhead⟩)
      | false =>
        refine ⟨h.attached, h.follows, h.runs, h.room, h.rings, h.ended, ?_⟩
        intro other hother
        cases hother
        exact hsame

end View.Contract

/-- One consumer beside the feed, and nothing else of the fan-out. -/
structure Watch where
  feed : Feed
  view : Option View

/-- What an event is to one consumer. -/
def Watch.act (ceiling id : Nat) (s : Watch) : RingEvent → Watch
  | .appended bytes => { s with feed := s.feed.append bytes }
  | .closed => { s with feed := { s.feed with closed := true } }
  | .attached other =>
    if other = id then
      { s with view := some ⟨some ⟨s.feed.stream.length, false⟩, s.feed.stream.length, []⟩ }
    else s
  | .polled other room =>
    if other = id then { s with view := s.view.map (View.watch ceiling s.feed room) } else s
  | .dropped other =>
    if other = id then { s with view := s.view.map fun view => { view with cursor := none } } else s

def replay (ceiling id : Nat) (trace : List RingEvent) : Watch :=
  trace.foldl (Watch.act ceiling id) ⟨⟨[], false⟩, none⟩

/-- The appends and the close, which every consumer sees, and its own opens, reads and drop. -/
def RingEvent.seenBy (id : Nat) : RingEvent → Bool
  | .appended _ => true
  | .closed => true
  | .attached other => other == id
  | .polled other _ => other == id
  | .dropped other => other == id

/-- A consumer is as it is by what it sees alone. -/
theorem replay_seen (id : Nat) (trace : List RingEvent) :
    replay ceiling id (trace.filter (RingEvent.seenBy id)) = replay ceiling id trace := by
  have hact (s : Watch) (event : RingEvent) :
      (if event.seenBy id = true then s.act ceiling id event else s) = s.act ceiling id event := by
    cases event with
    | appended bytes => rfl
    | closed => rfl
    | attached other => by_cases heq : other = id <;> simp [RingEvent.seenBy, Watch.act, heq]
    | polled other room => by_cases heq : other = id <;> simp [RingEvent.seenBy, Watch.act, heq]
    | dropped other => by_cases heq : other = id <;> simp [RingEvent.seenBy, Watch.act, heq]
  rw [replay, List.foldl_filter]
  simp only [hact]
  rfl

theorem replay_snoc (id : Nat) (trace : List RingEvent) (event : RingEvent) :
    replay ceiling id (trace ++ [event]) = (replay ceiling id trace).act ceiling id event := by
  simp [replay]

/-- The octets that went to the ring. -/
def appended (trace : List RingEvent) : List UInt8 :=
  trace.flatMap fun event => match event with
    | .appended bytes => bytes
    | _ => []

theorem replay_stream (id : Nat) (trace : List RingEvent) :
    (replay ceiling id trace).feed.stream = appended trace := by
  induction trace using List.reverseRecOn with
  | nil => rfl
  | append_singleton trace event ih =>
    rw [replay_snoc, appended, List.flatMap_append, List.flatMap_singleton, ← appended]
    cases event with
    | appended bytes => simp [Watch.act, Feed.append, ih]
    | closed => simp [Watch.act, ih]
    | attached other => by_cases heq : other = id <;> simp [Watch.act, heq, ih]
    | polled other room => by_cases heq : other = id <;> simp [Watch.act, heq, ih]
    | dropped other => by_cases heq : other = id <;> simp [Watch.act, heq, ih]

theorem View.watch_attached (feed : Feed) (room : Nat) (view : View) :
    (view.watch ceiling feed room).attached = view.attached := by
  unfold View.watch
  split
  · rfl
  · simp only
    split_ifs <;> rfl

/-- No event but a consumer's own open says where it was attached. -/
theorem Watch.act_attached {id : Nat} {s : Watch} {event : RingEvent} {view : View}
    (hview : (s.act ceiling id event).view = some view) (hevent : event ≠ .attached id) :
    ∃ before, s.view = some before ∧ before.attached = view.attached := by
  cases event with
  | appended bytes => exact ⟨view, hview, rfl⟩
  | closed => exact ⟨view, hview, rfl⟩
  | attached other =>
    have hne : other ≠ id := fun heq => hevent (by rw [heq])
    rw [Watch.act, if_neg hne] at hview
    exact ⟨view, hview, rfl⟩
  | polled other room =>
    by_cases heq : other = id
    · rw [Watch.act, if_pos heq] at hview
      obtain ⟨before, hbefore, rfl⟩ := Option.map_eq_some_iff.1 hview
      exact ⟨before, hbefore, (View.watch_attached s.feed room before).symm⟩
    · rw [Watch.act, if_neg heq] at hview
      exact ⟨view, hview, rfl⟩
  | dropped other =>
    by_cases heq : other = id
    · rw [Watch.act, if_pos heq] at hview
      obtain ⟨before, hbefore, rfl⟩ := Option.map_eq_some_iff.1 hview
      exact ⟨before, hbefore, rfl⟩
    · rw [Watch.act, if_neg heq] at hview
      exact ⟨view, hview, rfl⟩

/-- A consumer is attached at the end of what had been appended by its own open. -/
theorem replay_attached {id : Nat} {trace : List RingEvent} {view : View}
    (h : (replay ceiling id trace).view = some view) :
    ∃ before after, trace = before ++ .attached id :: after ∧ .attached id ∉ after ∧
      view.attached = (appended before).length := by
  induction trace using List.reverseRecOn generalizing view with
  | nil => cases h
  | append_singleton trace event ih =>
    rw [replay_snoc] at h
    by_cases hevent : event = .attached id
    · subst hevent
      rw [Watch.act, if_pos rfl, Option.some.injEq] at h
      refine ⟨trace, [], rfl, List.not_mem_nil, ?_⟩
      rw [← h, ← replay_stream id trace]
    · obtain ⟨found, hfound, hattached⟩ := Watch.act_attached h hevent
      obtain ⟨before, after, rfl, hlast, hlength⟩ := ih hfound
      refine ⟨before, after ++ [event], by simp, ?_, hattached ▸ hlength⟩
      rw [List.mem_append, List.mem_singleton, not_or]
      exact ⟨hlast, Ne.symm hevent⟩

namespace FanoutWorld

def feed (w : FanoutWorld) : Feed := ⟨w.stream, w.ring.closed⟩

/-- The ring is the window of what was fed, a closed ring has no pump left and a source no pump yet, and
every consumer keeps its contract and is what the viewer of the stream is. -/
structure Sound (ceiling : Nat) (w : FanoutWorld) : Prop where
  ring : w.ring = w.feed.ring ceiling
  done : w.ring.closed = true → w.pump = .Done
  started : ∀ source, w.life.source = some source → w.pump = .Unstarted
  views : ∀ id view, w.views id = some view → view.Contract ceiling w.feed
  replays : ∀ id, replay ceiling id w.trace = ⟨w.feed, w.views id⟩

theorem new_sound (source : BoxRead) (lifetime : Lifetime) : (new source lifetime).Sound ceiling := by
  refine ⟨?_, ?_, fun _ _ => rfl, ?_, fun _ => rfl⟩
  · simp [new, Ring.new, feed, Feed.ring, Feed.base, Window.retained, Window.base]
  · intro hclosed
    cases hclosed
  · intro id view hview
    cases hview

variable {w : FanoutWorld}

/-- A move that touches neither the ring nor a consumer. -/
theorem Sound.moved {w' : FanoutWorld} (h : w.Sound ceiling) (hring : w'.ring = w.ring)
    (hviews : w'.views = w.views) (hstream : w'.stream = w.stream) (htrace : w'.trace = w.trace)
    (hdone : w.pump = .Done → w'.pump = .Done)
    (hstarted : ∀ source, w'.life.source = some source → w'.pump = .Unstarted) : w'.Sound ceiling := by
  have hfeed : w'.feed = w.feed := by
    rw [feed, feed, hring, hstream]
  refine ⟨?_, ?_, hstarted, ?_, ?_⟩
  · rw [hring, hfeed]
    exact h.ring
  · intro hclosed
    rw [hring] at hclosed
    exact hdone (h.done hclosed)
  · rw [hviews, hfeed]
    exact h.views
  · rw [hviews, hfeed, htrace]
    exact h.replays

theorem Sound.setView {id : Nat} {view : View} {event : RingEvent} (h : w.Sound ceiling)
    (hview : view.Contract ceiling w.feed)
    (hown : (Watch.mk w.feed (w.views id)).act ceiling id event = ⟨w.feed, some view⟩)
    (hother : ∀ other, other ≠ id →
      (Watch.mk w.feed (w.views other)).act ceiling other event = ⟨w.feed, w.views other⟩) :
    (w.setView id view event).Sound ceiling := by
  refine ⟨h.ring, h.done, h.started, ?_, ?_⟩
  · intro other found hfound
    by_cases heq : other = id
    · subst heq
      simp only [FanoutWorld.setView, Function.update_self, Option.some.injEq] at hfound
      subst hfound
      exact hview
    · simp only [FanoutWorld.setView, Function.update_of_ne heq] at hfound
      exact h.views other found hfound
  · intro other
    have hreplay := h.replays other
    simp only [FanoutWorld.setView, replay_snoc, hreplay]
    by_cases heq : other = id
    · subst heq
      rw [hown, Function.update_self]
      rfl
    · rw [hother other heq, Function.update_of_ne heq]
      rfl

theorem opening_sound (h : w.Sound ceiling) (id : Nat) : (w.opening id).Sound ceiling := by
  unfold opening
  by_cases hbusy : w.joining.isSome = true ∨ (w.views id).isSome = true
  · rw [if_pos hbusy]
    exact h
  · rw [if_neg hbusy]
    cases hsource : w.life.source with
    | some source =>
      have hunstarted := h.started source hsource
      refine h.moved rfl rfl rfl rfl ?_ ?_
      · intro hdone
        rw [hunstarted] at hdone
        cases hdone
      · intro other hother
        cases hother
    | none =>
      simp only
      split_ifs with hclosed
      · exact h
      · refine h.moved rfl rfl rfl rfl (fun hdone => hdone) ?_
        intro other hother
        cases hother.symm.trans hsource

theorem attach_sound (h : w.Sound ceiling) : w.attach.Sound ceiling := by
  unfold attach
  cases w.joining with
  | none => exact h
  | some id =>
    have hhead : w.ring.head = w.feed.stream.length := by
      rw [h.ring]
      exact w.feed.head_ring ceiling
    have hidle : ({ w with joining := none } : FanoutWorld).Sound ceiling :=
      h.moved rfl rfl rfl rfl (fun hdone => hdone) h.started
    simp only [hhead]
    refine hidle.setView (View.Contract.fresh ceiling w.feed) ?_ ?_
    · simp [Watch.act, feed]
    · intro other hne
      simp [Watch.act, Ne.symm hne]

theorem poll_sound (h : w.Sound ceiling) (hceiling : 0 < ceiling) (id split room : Nat) :
    ∃ w', w.poll id split room = some w' ∧ w'.Sound ceiling := by
  unfold poll
  cases hview : w.views id with
  | none => exact ⟨w, rfl, h⟩
  | some view =>
    have hpoll : view.pollRead w.ring split room = some (view.watch ceiling w.feed room) := by
      rw [h.ring]
      exact view.pollRead_eq w.feed split room
    simp only [hpoll, Option.map_some]
    refine ⟨_, rfl, h.setView ((h.views id view hview).watched hceiling room) ?_ ?_⟩
    · simp [Watch.act, hview]
    · intro other hne
      simp [Watch.act, Ne.symm hne]

theorem dropCursor_sound (h : w.Sound ceiling) (id : Nat) : (w.dropCursor id).Sound ceiling := by
  unfold dropCursor
  cases w.joining with
  | some joiner => exact h
  | none =>
    cases hview : w.views id with
    | none => exact h
    | some view =>
      simp only
      split_ifs with hlive
      · have hleft : ({ w with
            life := { w.life with consumers := w.life.consumers - 1 }, joining := none } : FanoutWorld).Sound
            ceiling := h.moved rfl rfl rfl rfl (fun hdone => hdone) h.started
        refine hleft.setView (h.views id view hview).dropped ?_ ?_
        · simp [Watch.act, hview, feed]
        · intro other hne
          simp [Watch.act, Ne.symm hne]
      · exact h

theorem check_sound (h : w.Sound ceiling) : w.check.Sound ceiling := by
  unfold check
  cases hpump : w.pump with
  | Top source =>
    cases w.joining with
    | some joiner => exact h
    | none =>
      refine h.moved rfl rfl rfl rfl ?_ ?_
      · intro hdone
        rw [hpump] at hdone
        cases hdone
      · intro other hother
        cases hpump.symm.trans (h.started other hother)
  | Unstarted => exact h
  | Reading source => exact h
  | Left source => exact h
  | Dropped => exact h
  | Done => exact h

theorem pumpRead_sound (h : w.Sound ceiling) (read : Except Unit (List UInt8)) :
    ∃ w', w.pumpRead ceiling read = some w' ∧ w'.Sound ceiling := by
  unfold pumpRead
  cases hpump : w.pump with
  | Reading source =>
    have hlive : w.pump ≠ .Done := by
      rw [hpump]
      simp
    have hunsourced (other : BoxRead) : w.life.source ≠ some other := by
      intro hother
      cases hpump.symm.trans (h.started other hother)
    have hleft (pump : Pump) : ({ w with pump } : FanoutWorld).Sound ceiling :=
      h.moved rfl rfl rfl rfl (fun hdone => absurd hdone hlive) fun other hother => absurd hother (hunsourced other)
    cases read with
    | error e => exact ⟨_, rfl, hleft _⟩
    | ok bytes =>
      cases bytes with
      | nil => exact ⟨_, rfl, hleft _⟩
      | cons byte bytes =>
        have hclosed : w.feed.closed = false := by
          by_contra hclosed
          exact hlive (h.done (by simpa [feed] using hclosed))
        have happend : w.ring.appendWithin ceiling (byte :: bytes) =
            some ((w.feed.append (byte :: bytes)).ring ceiling) := by
          rw [h.ring]
          exact w.feed.append_ring ceiling (byte :: bytes)
        simp only [happend, Option.map_some]
        refine ⟨_, rfl, rfl, ?_, fun other hother => absurd hother (hunsourced other), ?_, ?_⟩
        · intro hover
          exact absurd (h.done hover) hlive
        · intro id view hview
          exact (h.views id view hview).appended hclosed (byte :: bytes)
        · intro id
          rw [replay_snoc, h.replays id]
          rfl
  | Unstarted => exact ⟨w, rfl, h⟩
  | Top source => exact ⟨w, rfl, h⟩
  | Left source => exact ⟨w, rfl, h⟩
  | Dropped => exact ⟨w, rfl, h⟩
  | Done => exact ⟨w, rfl, h⟩

theorem release_sound (h : w.Sound ceiling) : w.release.Sound ceiling := by
  unfold release
  cases hpump : w.pump with
  | Left source =>
    refine h.moved rfl rfl rfl rfl ?_ ?_
    · intro hdone
      rw [hpump] at hdone
      cases hdone
    · intro other hother
      cases hpump.symm.trans (h.started other hother)
  | Unstarted => exact h
  | Top source => exact h
  | Reading source => exact h
  | Dropped => exact h
  | Done => exact h

theorem close_sound (h : w.Sound ceiling) : w.close.Sound ceiling := by
  unfold close
  cases hpump : w.pump with
  | Dropped =>
    refine ⟨?_, fun _ => rfl, ?_, ?_, ?_⟩
    · simp only
      rw [h.ring]
      rfl
    · intro other hother
      cases hpump.symm.trans (h.started other hother)
    · intro id view hview
      exact (h.views id view hview).closed
    · intro id
      rw [replay_snoc, h.replays id]
      rfl
  | Unstarted => exact h
  | Top source => exact h
  | Reading source => exact h
  | Left source => exact h
  | Done => exact h

theorem step_sound (h : w.Sound ceiling) (hceiling : 0 < ceiling) (event : FanoutEvent) :
    ∃ w', w.stepWithin ceiling event = some w' ∧ w'.Sound ceiling := by
  cases event with
  | opening id => exact ⟨_, rfl, opening_sound h id⟩
  | attach => exact ⟨_, rfl, attach_sound h⟩
  | poll id split room => exact poll_sound h hceiling id split room
  | drop id => exact ⟨_, rfl, dropCursor_sound h id⟩
  | check => exact ⟨_, rfl, check_sound h⟩
  | pumpRead read => exact pumpRead_sound h read
  | release => exact ⟨_, rfl, release_sound h⟩
  | close => exact ⟨_, rfl, close_sound h⟩

theorem run_sound (hceiling : 0 < ceiling) (source : BoxRead) (lifetime : Lifetime)
    (events : List FanoutEvent) :
    ∃ w, runWithin ceiling source lifetime events = some w ∧ w.Sound ceiling :=
  Runs.foldlM_total (fun _ event h => step_sound h hceiling event) (new_sound source lifetime) events

end FanoutWorld

theorem ringBytes_pos : 0 < ringBytes := by
  rw [ringBytes]
  decide

/-- No run underflows. Each consumer is attached at the end of what had been appended by its own open. Its
reads are runs of the stream, each from where the last one ended or from the ring's base, and the whole
stream from its own start when it stays near the head; a read with room is empty only at the end of a closed
ring; and the others make no difference to it. -/
theorem fanout_delivery (source : BoxRead) (lifetime : Lifetime) (events : List FanoutEvent) :
    ∃ w, FanoutWorld.run source lifetime events = some w ∧ w.stream = appended w.trace ∧
      (∀ id view, w.views id = some view →
        (∃ before after, w.trace = before ++ .attached id :: after ∧ .attached id ∉ after ∧
          view.attached = (appended before).length) ∧
        (∀ d ∈ view.reads, d.bytes = Window.run w.stream d.pos d.bytes.length ∧
          d.pos + d.bytes.length ≤ w.stream.length ∧ d.bytes.length ≤ d.room) ∧
        Follows view.attached view.reads ∧
        (Near ringBytes view.attached view.reads →
          view.received = Window.run w.stream view.attached view.received.length ∧
            ∀ c, view.cursor = some c → c.pos = view.attached + view.received.length) ∧
        (∀ d ∈ view.reads, 0 < d.room → d.bytes = [] → d.ring.closed = true ∧ d.pos = w.ring.head) ∧
        (∀ c, view.cursor = some c → view.attached ≤ c.pos ∧ c.pos ≤ w.ring.head)) ∧
      ∀ source' lifetime' events' w' id, FanoutWorld.run source' lifetime' events' = some w' →
        w'.trace.filter (RingEvent.seenBy id) = w.trace.filter (RingEvent.seenBy id) →
        w'.views id = w.views id := by
  obtain ⟨w, hrun, hsound⟩ := FanoutWorld.run_sound ringBytes_pos source lifetime events
  have hhead : w.ring.head = w.stream.length := by
    rw [hsound.ring]
    exact w.feed.head_ring ringBytes
  refine ⟨w, hrun, ?_, ?_, ?_⟩
  · rw [← replay_stream 0 w.trace, hsound.replays 0]
    rfl
  · intro id view hview
    have hcontract := hsound.views id view hview
    have hreplay : (replay ringBytes id w.trace).view = some view := by
      rw [hsound.replays id]
      exact hview
    refine ⟨replay_attached hreplay, ?_, hcontract.follows, ?_, ?_, ?_⟩
    · intro d hd
      obtain ⟨hbytes, hle⟩ := hcontract.runs d hd
      exact ⟨hbytes, hle, hcontract.room d hd⟩
    · intro hnear
      obtain ⟨hreceived, hstop⟩ :=
        gapless hcontract.follows hnear (fun d hd => (hcontract.runs d hd).1) hcontract.rings
      refine ⟨hreceived, ?_⟩
      intro c hc
      rw [hcontract.placed c hc]
      exact hstop
    · intro d hd hroom hempty
      obtain ⟨-, hclosed, hpos⟩ := hcontract.ended d hd hroom hempty
      rw [hhead]
      exact ⟨hclosed, hpos⟩
    · intro c hc
      rw [hhead, hcontract.placed c hc]
      exact ⟨follows_le hcontract.follows, hcontract.attached⟩
  · intro source' lifetime' events' w' id hrun' hseen
    obtain ⟨last, hlast, hsound'⟩ := FanoutWorld.run_sound ringBytes_pos source' lifetime' events'
    cases hlast.symm.trans hrun'
    have hreplay := hsound.replays id
    have hreplay' := hsound'.replays id
    rw [← replay_seen, hseen, replay_seen, hreplay] at hreplay'
    exact (congrArg Watch.view hreplay').symm

/-- Under a ceiling of four, a cursor two octets too slow reads on from the oldest octet still held. -/
example :
    (FanoutWorld.runWithin 4 ⟨0, []⟩ .UntilEof
      [.opening 0, .attach, .check, .pumpRead (.ok [1, 2, 3, 4, 5, 6]), .poll 0 1 10]).map
        (fun w => (w.views 0).map View.received) = some (some [3, 4, 5, 6]) := by
  decide

end Tightbeam
