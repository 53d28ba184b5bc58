import Tightbeam.RingWindow
import Tightbeam.Library.Runs

/-!
# One log line for each lapse

A ring that is appended to and one cursor that reads it, with the lines its lag warnings write. A lapse
lasts from the first loss after the cursor stood at the live edge until it stands there again.
-/
namespace Tightbeam

/-- A ring and one cursor over it, with the octets its lag warnings have named and the looks that
brought it from behind to the live edge. -/
structure Viewer where
  ring : Ring
  cursor : Cursor
  log : List Nat
  caughtUp : Nat

inductive ViewerEvent where
  | append (bytes : List UInt8)
  | close
  | look (split room : Nat)

def Poll.octets : Poll (List UInt8) → List UInt8
  | .Pending => []
  | .Ready bytes => bytes

namespace Viewer

/-- A cursor starts at the live edge. -/
def attach (ring : Ring) : Viewer := ⟨ring, ⟨ring.head, false⟩, [], 0⟩

/-- One locked look at the ring. -/
def look (v : Viewer) (split room : Nat) : Option Viewer :=
  (v.cursor.pollRead v.ring split room).map fun (cursor, warned, _) =>
    { v with
      cursor
      log := v.log ++ warned.toList
      caughtUp := v.caughtUp + if v.cursor.pos < v.ring.head ∧ cursor.pos = v.ring.head then 1 else 0 }

def stepWithin (ceiling : Nat) (v : Viewer) : ViewerEvent → Option Viewer
  | .append bytes => (v.ring.appendWithin ceiling bytes).map fun ring => { v with ring }
  | .close => some { v with ring := { v.ring with closed := true } }
  | .look split room => v.look split room

/-- A cursor attached once a history is in the ring, and what happens to both from then on. -/
def runWithin (ceiling : Nat) (history : List (List UInt8)) (events : List ViewerEvent) : Option Viewer := do
  let ring ← history.foldlM (Ring.appendWithin ceiling) .new
  events.foldlM (stepWithin ceiling) (attach ring)

def run (history : List (List UInt8)) (events : List ViewerEvent) : Option Viewer :=
  runWithin ringBytes history events

/-- The warning the next look would log. -/
def warning (v : Viewer) (split room : Nat) : Option Nat :=
  (v.cursor.pollRead v.ring split room).bind fun (_, warned, _) => warned

/-- The octets evicted before the cursor read them. -/
def skipped (v : Viewer) : Nat := v.ring.base - v.cursor.pos

def AtHead (v : Viewer) : Prop := v.cursor.pos = v.ring.head

/-- A cursor inside a lapse is behind, and every warning but a lapse's that goes on is of one it caught
up from. -/
structure Inv (ceiling : Nat) (v : Viewer) : Prop where
  ring : ∃ feed : Feed, v.ring = feed.ring ceiling
  placed : v.cursor.pos ≤ v.ring.head
  behind : v.cursor.lagged = true → v.cursor.pos < v.ring.head
  logged : v.log.length ≤ v.caughtUp + if v.cursor.lagged then 1 else 0

variable {ceiling : Nat} {v v' : Viewer}

/-- What a look does to the cursor, and what it logs. -/
theorem Inv.look (h : v.Inv ceiling) (split room : Nat) :
    ∃ cursor polled, v.cursor.pollRead v.ring split room = some (cursor, v.warning split room, polled) ∧
      cursor.pos = v.cursor.pos + v.skipped + polled.octets.length ∧ cursor.pos ≤ v.ring.head ∧
      v.warning split room = (if 0 < v.skipped ∧ v.cursor.lagged = false then some v.skipped else none) ∧
      (cursor.lagged = true ↔ cursor.pos < v.ring.head ∧ (v.cursor.lagged = true ∨ 0 < v.skipped)) := by
  obtain ⟨feed, hring⟩ := h.ring
  have hhead : v.ring.head = feed.stream.length := by
    rw [hring, feed.head_ring]
  have hskipped : v.skipped = feed.base ceiling - v.cursor.pos := by
    rw [skipped, hring]
    rfl
  have hstart : v.cursor.start ceiling feed = v.cursor.pos + v.skipped := by
    rw [Cursor.start, hskipped]
    omega
  have hbase : feed.base ceiling ≤ feed.stream.length := Nat.sub_le _ _
  have hplaced := h.placed
  have hlost : v.cursor.pos < feed.base ceiling ↔ 0 < v.skipped := by omega
  have hlags : v.cursor.lags ceiling feed = true ↔ v.cursor.lagged = true ∨ 0 < v.skipped := by
    rw [Cursor.lags, Bool.or_eq_true, decide_eq_true_iff, hlost]
  have hlook := Cursor.pollRead_eq ceiling v.cursor feed split room
  rw [← hring, hstart] at hlook
  have hwarning : v.cursor.warning ceiling feed =
      if 0 < v.skipped ∧ v.cursor.lagged = false then some v.skipped else none := by
    simp only [Cursor.warning, hlost, hskipped]
  by_cases hbehind : v.cursor.pos + v.skipped < feed.stream.length
  · simp only [if_pos hbehind] at hlook
    have hwarned : v.warning split room = v.cursor.warning ceiling feed := by
      rw [warning, hlook]
      rfl
    refine ⟨_, _, by rw [hwarned]; exact hlook, ?_, ?_, hwarned.trans hwarning, ?_⟩
    · simp only [Poll.octets, Window.length_run]
      omega
    · simp only
      omega
    · simp only [hhead, ← hlags]
      split <;> rename_i hreached
      · simp [hreached]
      · have hshort : v.cursor.pos + v.skipped + min (feed.stream.length - (v.cursor.pos + v.skipped)) room <
            feed.stream.length := by omega
        simp [hshort]
  · simp only [if_neg hbehind] at hlook
    have hwarned : v.warning split room = v.cursor.warning ceiling feed := by
      rw [warning, hlook]
      rfl
    have hnothing : (if feed.closed = true then Poll.Ready [] else Poll.Pending).octets.length = 0 := by
      split <;> rfl
    refine ⟨_, _, by rw [hwarned]; exact hlook, ?_, ?_, hwarned.trans hwarning, ?_⟩
    · simp only
      omega
    · simp only
      omega
    · simp only [Bool.false_eq_true, false_iff, hhead]
      omega

theorem attach_inv (feed : Feed) : (attach (feed.ring ceiling)).Inv ceiling where
  ring := ⟨feed, rfl⟩
  placed := le_refl _
  behind := by simp [attach]
  logged := by simp [attach]

/-- What is logged and what is caught up from keep pace through a look. -/
theorem Inv.looked (h : v.Inv ceiling) {split room : Nat} (hlook : v.look split room = some v') :
    v'.Inv ceiling := by
  obtain ⟨cursor, polled, hpoll, -, hplaced, hwarning, hlagged⟩ := h.look split room
  simp only [Viewer.look, hpoll, Option.map_some, Option.some.injEq] at hlook
  subst hlook
  refine ⟨h.ring, hplaced, fun hlag => (hlagged.1 hlag).1, ?_⟩
  have hlogged := h.logged
  have hskip : 0 < v.skipped → v.cursor.pos < v.ring.head := by
    have hle : v.ring.base ≤ v.ring.head := Nat.le_add_right _ _
    simp only [skipped]
    omega
  -- A look that ends a lapse, or warns of one and ends it at once, brings the cursor to the live edge.
  have hended : v.cursor.lagged = true ∨ 0 < v.skipped → cursor.lagged = false →
      v.cursor.pos < v.ring.head ∧ cursor.pos = v.ring.head := by
    intro hlapse hover
    have hreached : ¬ cursor.pos < v.ring.head := by
      intro hshort
      have hlag := hlagged.2 ⟨hshort, hlapse⟩
      rw [hover] at hlag
      cases hlag
    refine ⟨hlapse.elim h.behind hskip, ?_⟩
    omega
  simp only [hwarning, List.length_append]
  cases hlag : v.cursor.lagged with
  | true =>
    rw [hlag, if_pos rfl] at hlogged
    simp only [Bool.true_eq_false, and_false, if_false, Option.toList_none, List.length_nil]
    cases hlag' : cursor.lagged with
    | true =>
      simp only [if_true]
      omega
    | false =>
      rw [if_pos (hended (.inl hlag) hlag')]
      simp only [Bool.false_eq_true, if_false]
      omega
  | false =>
    rw [hlag] at hlogged
    simp only [Bool.false_eq_true, if_false, Nat.add_zero] at hlogged
    by_cases hlost : 0 < v.skipped
    · simp only [hlost, and_self, if_true, Option.toList_some, List.length_singleton]
      cases hlag' : cursor.lagged with
      | true =>
        simp only [if_true]
        omega
      | false =>
        rw [if_pos (hended (.inr hlost) hlag')]
        simp only [Bool.false_eq_true, if_false]
        omega
    · simp only [hlost, false_and, if_false, Option.toList_none, List.length_nil]
      omega

theorem Inv.step (h : v.Inv ceiling) (event : ViewerEvent) :
    ∃ v', v.stepWithin ceiling event = some v' ∧ v'.Inv ceiling := by
  cases event with
  | append bytes =>
    obtain ⟨feed, hring⟩ := h.ring
    have happend := feed.append_ring ceiling bytes
    have hgrown : v.ring.head ≤ ((feed.append bytes).ring ceiling).head := by
      rw [hring, Feed.head_ring, Feed.head_ring]
      simp [Feed.append]
    rw [← hring] at happend
    refine ⟨{ v with ring := (feed.append bytes).ring ceiling }, by rw [stepWithin, happend]; rfl, ⟨_, rfl⟩,
      h.placed.trans hgrown, ?_, h.logged⟩
    intro hlag
    exact (h.behind hlag).trans_le hgrown
  | close =>
    obtain ⟨feed, hring⟩ := h.ring
    refine ⟨_, rfl, ⟨{ feed with closed := true }, ?_⟩, h.placed, h.behind, h.logged⟩
    simp only [hring]
    rfl
  | look split room =>
    obtain ⟨cursor, polled, hpoll, -⟩ := h.look split room
    have hlook : ∃ v', v.look split room = some v' := by
      simp only [Viewer.look, hpoll]
      exact ⟨_, rfl⟩
    obtain ⟨v', hlook⟩ := hlook
    exact ⟨v', hlook, h.looked hlook⟩

theorem Inv.stepped (h : v.Inv ceiling) {event : ViewerEvent} (hstep : v.stepWithin ceiling event = some v') :
    v'.Inv ceiling := by
  obtain ⟨next, hnext, hinv⟩ := h.step event
  cases hnext.symm.trans hstep
  exact hinv

/-- A lapse lasts until the cursor stands at the live edge. -/
theorem Inv.lasts (h : v.Inv ceiling) {event : ViewerEvent} (hlag : v.cursor.lagged = true)
    (hstep : v.stepWithin ceiling event = some v') : v'.cursor.lagged = true ∨ v'.AtHead := by
  cases event with
  | append bytes =>
    obtain ⟨ring, -, rfl⟩ := Option.map_eq_some_iff.1 hstep
    exact .inl hlag
  | close =>
    cases hstep
    exact .inl hlag
  | look split room =>
    obtain ⟨cursor, polled, hpoll, -, hplaced, -, hlagged⟩ := h.look split room
    simp only [stepWithin, Viewer.look, hpoll, Option.map_some, Option.some.injEq] at hstep
    subst hstep
    rcases hplaced.lt_or_eq with hshort | hreached
    · exact .inl (hlagged.2 ⟨hshort, .inl hlag⟩)
    · exact .inr hreached

/-- A look that loses nothing starts no lapse. -/
theorem Inv.spared (h : v.Inv ceiling) {event : ViewerEvent} (hlag : v.cursor.lagged = false)
    (hkept : ∀ split room, event = .look split room → v.skipped = 0)
    (hstep : v.stepWithin ceiling event = some v') : v'.cursor.lagged = false := by
  cases event with
  | append bytes =>
    obtain ⟨ring, -, rfl⟩ := Option.map_eq_some_iff.1 hstep
    exact hlag
  | close =>
    cases hstep
    exact hlag
  | look split room =>
    have hzero := hkept split room rfl
    obtain ⟨cursor, polled, hpoll, -, -, -, hlagged⟩ := h.look split room
    simp only [stepWithin, Viewer.look, hpoll, Option.map_some, Option.some.injEq] at hstep
    subst hstep
    by_contra hlapse
    have hlost := (hlagged.1 (by simpa using hlapse)).2
    rw [hlag, hzero] at hlost
    simp at hlost

/-- A run goes on from where its beginning ends. -/
theorem run_append {history : List (List UInt8)} {done : List ViewerEvent}
    (hdone : runWithin ceiling history done = some v) (rest : List ViewerEvent) :
    runWithin ceiling history (done ++ rest) = rest.foldlM (stepWithin ceiling) v := by
  obtain ⟨ring, hring, hevents⟩ := Option.bind_eq_some_iff.1 hdone
  rw [runWithin, hring]
  simp only [Option.bind_eq_bind, Option.bind_some, List.foldlM_append, hevents]

theorem run_inv (ceiling : Nat) (history : List (List UInt8)) (events : List ViewerEvent) :
    ∃ v, runWithin ceiling history events = some v ∧ v.Inv ceiling := by
  have hnew : Ring.new = (Feed.mk [] false).ring ceiling := by
    simp [Ring.new, Feed.ring, Feed.base, Window.retained, Window.base]
  have hring := Feed.append_all ceiling ⟨[], false⟩ history
  rw [← hnew] at hring
  rw [runWithin, hring]
  exact Runs.foldlM_total (fun _ event h => h.step event) (attach_inv _) events

theorem ran_inv {history : List (List UInt8)} {events : List ViewerEvent}
    (hrun : runWithin ceiling history events = some v) : v.Inv ceiling := by
  obtain ⟨last, hlast, hinv⟩ := run_inv ceiling history events
  cases hlast.symm.trans hrun
  exact hinv

theorem Inv.at_head (h : v.Inv ceiling) (hhead : v.AtHead) : v.cursor.lagged = false := by
  by_contra hlag
  have hbehind := h.behind (by simpa using hlag)
  exact absurd hhead hbehind.ne

/-- A cursor that has lost nothing since it stood at the live edge is in no lapse. -/
theorem Inv.unlapsed {since : List ViewerEvent} (h : v.Inv ceiling) (hhead : v.AtHead)
    (hrun : since.foldlM (stepWithin ceiling) v = some v')
    (hkept : ∀ first split room rest middle, since = first ++ .look split room :: rest →
      first.foldlM (stepWithin ceiling) v = some middle → middle.skipped = 0) : v'.cursor.lagged = false := by
  have hkeeps (s : Viewer) (event : ViewerEvent) (t : Viewer) (hs : s.Inv ceiling ∧ s.cursor.lagged = false)
      (hmet : ∀ split room, event = .look split room → s.skipped = 0)
      (hstep : s.stepWithin ceiling event = some t) : t.Inv ceiling ∧ t.cursor.lagged = false :=
    ⟨hs.1.stepped hstep, hs.1.spared hs.2 hmet hstep⟩
  have hboth := Runs.foldlM_keeps_while hkeeps ⟨h, h.at_head hhead⟩ hrun (by
    intro done event rest earlier hsplit hdone split room hlook
    subst hlook
    exact hkept done split room rest earlier hsplit hdone)
  exact hboth.2

/-- After a warning, the next one comes only once the cursor has stood at the live edge. -/
theorem Inv.between {between : List ViewerEvent} {split room warned : Nat} (h : v.Inv ceiling)
    (hwarned : v.warning split room = some warned)
    (hrun : (.look split room :: between).foldlM (stepWithin ceiling) v = some v')
    (hfree : v'.cursor.lagged = false) :
    ∃ first rest edge, between = first ++ rest ∧
      (.look split room :: first).foldlM (stepWithin ceiling) v = some edge ∧ edge.AtHead := by
  rw [List.foldlM_cons, Option.bind_eq_bind, Option.bind_eq_some_iff] at hrun
  obtain ⟨looked, hlook, hbetween⟩ := hrun
  obtain ⟨cursor, polled, hpoll, -, hplaced, hwarning, hlagged⟩ := h.look split room
  have hlapse : looked.cursor.lagged = true ∨ looked.AtHead := by
    simp only [stepWithin, Viewer.look, hpoll, Option.map_some, Option.some.injEq] at hlook
    subst hlook
    have hlost : 0 < v.skipped := by
      by_contra hnone
      simp [hwarned, hnone] at hwarning
    rcases hplaced.lt_or_eq with hshort | hreached
    · exact .inl (hlagged.2 ⟨hshort, .inr hlost⟩)
    · exact .inr hreached
  have hlooked := h.stepped hlook
  have hkeeps (s : Viewer) (event : ViewerEvent) (t : Viewer) (hs : s.Inv ceiling)
      (hstep : s.stepWithin ceiling event = some t) : t.Inv ceiling := hs.stepped hstep
  have hlasts (s : Viewer) (event : ViewerEvent) (t : Viewer) (hs : s.Inv ceiling) (hlag : s.cursor.lagged = true)
      (hstep : s.stepWithin ceiling event = some t) : t.cursor.lagged = true ∨ t.AtHead := hs.lasts hlag hstep
  rcases Runs.foldlM_until hkeeps hlasts hlooked hlapse hbetween with
    hstill | ⟨first, rest, edge, hsplit, hfirst, hedge⟩
  · rw [hfree] at hstill
    cases hstill
  · refine ⟨first, rest, edge, hsplit, ?_, hedge⟩
    rw [List.foldlM_cons, hlook]
    exact hfirst

end Viewer

/-- However appends and one cursor's looks interleave: the next look skips what was evicted before the
cursor, and warns of nothing else; the first loss since the cursor was attached or stood at the live edge
is warned of in full; between this warning and any one before it the cursor stood at the live edge; and
no more lines are logged than it caught up from, and one. -/
theorem one_line_per_lapse (history : List (List UInt8)) (events : List ViewerEvent) :
    ∃ v, Viewer.run history events = some v ∧ v.log.length ≤ v.caughtUp + 1 ∧
      ∀ split room, ∃ cursor warned polled, v.cursor.pollRead v.ring split room = some (cursor, warned, polled) ∧
        cursor.pos = v.cursor.pos + v.skipped + polled.octets.length ∧
        (∀ lost, warned = some lost → lost = v.skipped ∧ 0 < lost) ∧
        (∀ before since edge, events = before ++ since → Viewer.run history before = some edge → edge.AtHead →
          (∀ first split room rest middle, since = first ++ .look split room :: rest →
            Viewer.run history (before ++ first) = some middle → middle.skipped = 0) →
          0 < v.skipped → warned = some v.skipped) ∧
        ∀ before split' room' between earlier lost again,
          events = before ++ .look split' room' :: between → Viewer.run history before = some earlier →
          earlier.warning split' room' = some lost → warned = some again →
          ∃ first rest edge, between = first ++ rest ∧
            Viewer.run history (before ++ .look split' room' :: first) = some edge ∧ edge.AtHead := by
  obtain ⟨v, hrun, h⟩ := Viewer.run_inv ringBytes history events
  refine ⟨v, hrun, ?_, ?_⟩
  · have hlogged := h.logged
    split at hlogged <;> omega
  · intro split room
    obtain ⟨cursor, polled, hpoll, hpos, -, hwarning, -⟩ := h.look split room
    refine ⟨cursor, v.warning split room, polled, hpoll, hpos, ?_, ?_, ?_⟩
    · intro lost hlost
      rw [hwarning] at hlost
      split at hlost
      · rename_i hlapse
        cases hlost
        exact ⟨rfl, hlapse.1⟩
      · cases hlost
    · intro before since edge hsplit hedge hhead hkept hlost
      have hinv := Viewer.ran_inv hedge
      have hsince : since.foldlM (Viewer.stepWithin ringBytes) edge = some v := by
        rw [← Viewer.run_append hedge, ← hsplit]
        exact hrun
      have hfree := hinv.unlapsed hhead hsince (by
        intro first split room rest middle hparts hfirst
        apply hkept first split room rest middle hparts
        exact (Viewer.run_append hedge first).trans hfirst)
      rw [hwarning, if_pos ⟨hlost, hfree⟩]
    · intro before split' room' between earlier lost again hsplit hearlier hfirst hsecond
      have hinv := Viewer.ran_inv hearlier
      have hbetween : (.look split' room' :: between).foldlM (Viewer.stepWithin ringBytes) earlier = some v := by
        rw [← Viewer.run_append hearlier, ← hsplit]
        exact hrun
      have hfree : v.cursor.lagged = false := by
        by_contra hlag
        simp [hsecond, hlag] at hwarning
      obtain ⟨first, rest, edge, hparts, hedge, hhead⟩ := hinv.between hfirst hbetween hfree
      exact ⟨first, rest, edge, hparts, (Viewer.run_append hearlier _).trans hedge, hhead⟩

end Tightbeam
