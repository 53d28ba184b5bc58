import Tightbeam.CutRun
import Tightbeam.CutBounds
import Mathlib

/-!
# The node's loop

`Exposer::run` accepts sessions, serves the ones it has and ticks the sweep that has every live session
re-check itself. A watch channel carries the sweep, so a session that was busy through several ticks sees
one. What the stores say and the time are read off one history of instants.
-/
namespace Tightbeam

variable {D : Deps}

def maxSessions : Nat := 256

/-- A session the node took: the version of the sweep it last saw, and whether its loop has returned. -/
structure NodeSession (D : Deps) where
  peer : SessionPeer
  cut : CutSession D
  seen : Nat
  left : Bool

def NodeSession.live (s : NodeSession D) : Bool := !s.left && s.cut.ended.isNone

/-- A dialer whose handshake ended, and whether it is a session now. -/
structure Handshaken where
  peer : SessionPeer
  taken : Bool

/-- The node between two events. `waiting` are the dialers at the transport, `shaking` the one whose handshake
the accept future holds, and `lost` the one whose handshake was dropped with that future. `knocked` are all that
came, and `sessions` all that were taken, in order. -/
structure NodeLoop (D : Deps) where
  instant : Nat
  knocked : List SessionPeer
  waiting : List SessionPeer
  shaking : Option SessionPeer
  lost : Option SessionPeer
  handshaken : List Handshaken
  sessions : List (NodeSession D)
  version : Nat
  stopped : Bool

inductive NodeEvent (D : Deps) where
  /-- Time passes, or a dialer reaches the transport. -/
  | passes
  | knocks (peer : SessionPeer)
  /-- The accept future is polled: it begins a handshake, or ends the one it holds. -/
  | shakes
  | accepts (taken : Bool)
  /-- The sweep's interval ticks. -/
  | ticks
  /-- A session serves a stream, handles a sweep, or returns. -/
  | stream (session : Nat) (dial : Dial D) (pools : Pools) (publicSession : PublicSession)
  | sweeps (session : Nat)
  | leaves (session : Nat)
  /-- The cancel's arm resolves: the loop returns, and drops its accept future and its sessions. -/
  | cancels

namespace NodeLoop

def start (D : Deps) : NodeLoop D := ⟨0, [], [], none, none, [], [], 0, false⟩

def liveSessions (w : NodeLoop D) : Nat := w.sessions.countP NodeSession.live

def acceptArm (w : NodeLoop D) : Bool := decide (w.liveSessions < maxSessions)

section Steps

variable (serving : Serving D) (oracle : LiveCuts D) (instants : Nat → D.Moment × SystemTime)

def stream (dial : Dial D) (pools : Pools) (publicSession : PublicSession) (s : NodeSession D) : NodeSession D :=
  if s.live then { s with cut := s.cut.step serving oracle s.peer (.stream dial pools publicSession) } else s

/-- The session's loop returns, or is dropped with the node's. -/
def leave (s : NodeSession D) : NodeSession D := { s with left := true }

/-- The sweep's arm resolves on a version the session has not seen. -/
def sweep (w : NodeLoop D) (s : NodeSession D) : NodeSession D :=
  if s.live && decide (s.seen < w.version) then
    { s with
      seen := w.version
      cut := s.cut.step serving oracle s.peer (.sweep (instants w.instant).1 (instants w.instant).2) }
  else s

def step (w : NodeLoop D) (event : NodeEvent D) : NodeLoop D :=
  if w.stopped then w
  else match event with
    | .passes => { w with instant := w.instant + 1 }
    | .knocks peer => { w with knocked := w.knocked ++ [peer], waiting := w.waiting ++ [peer] }
    | .shakes =>
      if w.acceptArm then match w.shaking, w.waiting with
        | none, peer :: rest => { w with shaking := some peer, waiting := rest }
        | _, _ => w
      else w
    | .accepts taken =>
      if w.acceptArm then match w.shaking with
        | none => w
        | some peer =>
          { w with
            shaking := none
            handshaken := w.handshaken ++ [⟨peer, taken⟩]
            sessions := if taken then w.sessions ++ [⟨peer, .start D, w.version, false⟩] else w.sessions }
      else w
    | .ticks => { w with version := w.version + 1 }
    | .stream i dial pools publicSession =>
      { w with sessions := w.sessions.modify i (stream serving oracle dial pools publicSession) }
    | .sweeps i => { w with sessions := w.sessions.modify i (sweep serving oracle instants w) }
    | .leaves i => { w with sessions := w.sessions.modify i leave }
    | .cancels => { w with stopped := true, shaking := none, lost := w.shaking, sessions := w.sessions.map leave }

def run (w : NodeLoop D) (events : List (NodeEvent D)) : NodeLoop D :=
  events.foldl (step serving oracle instants) w

/-- Everything an event can do to one session. -/
inductive Turned (w : NodeLoop D) (s : NodeSession D) : NodeSession D → Prop where
  | stays : Turned w s s
  | served (dial : Dial D) (pools : Pools) (publicSession : PublicSession) (hlive : s.live = true) :
      Turned w s { s with cut := s.cut.step serving oracle s.peer (.stream dial pools publicSession) }
  | swept (hlive : s.live = true) (hseen : s.seen < w.version) :
      Turned w s { s with
        seen := w.version
        cut := s.cut.step serving oracle s.peer (.sweep (instants w.instant).1 (instants w.instant).2) }
  | left : Turned w s (leave s)

theorem stream_turned (w : NodeLoop D) (s : NodeSession D) (dial : Dial D) (pools : Pools)
    (publicSession : PublicSession) :
    Turned serving oracle instants w s (stream serving oracle dial pools publicSession s) := by
  unfold stream
  split
  · rename_i hlive
    exact .served dial pools publicSession hlive
  · exact .stays

theorem sweep_turned (w : NodeLoop D) (s : NodeSession D) :
    Turned serving oracle instants w s (sweep serving oracle instants w s) := by
  unfold sweep
  split
  · rename_i hguard
    simp only [Bool.and_eq_true, decide_eq_true_eq] at hguard
    exact .swept hguard.1 hguard.2
  · exact .stays

/-- Everything an event can do to the node: to its clock and its dialers, to its sessions, or to none. -/
inductive Stepped (w : NodeLoop D) : NodeLoop D → Prop where
  | stays : Stepped w w
  | passes : Stepped w { w with instant := w.instant + 1 }
  | knocks (peer : SessionPeer) :
      Stepped w { w with knocked := w.knocked ++ [peer], waiting := w.waiting ++ [peer] }
  | shakes (peer : SessionPeer) (rest : List SessionPeer) (hrunning : w.stopped = false)
      (hshaking : w.shaking = none) (hwaiting : w.waiting = peer :: rest) :
      Stepped w { w with shaking := some peer, waiting := rest }
  | refused (peer : SessionPeer) (hshaking : w.shaking = some peer) :
      Stepped w { w with shaking := none, handshaken := w.handshaken ++ [⟨peer, false⟩] }
  | taken (peer : SessionPeer) (hrunning : w.stopped = false) (hshaking : w.shaking = some peer)
      (hroom : w.liveSessions < maxSessions) : Stepped w { w with
        shaking := none
        handshaken := w.handshaken ++ [⟨peer, true⟩]
        sessions := w.sessions ++ [⟨peer, .start D, w.version, false⟩] }
  | ticks : Stepped w { w with version := w.version + 1 }
  | turns (i : Nat) (f : NodeSession D → NodeSession D) (hturned : ∀ s, Turned serving oracle instants w s (f s)) :
      Stepped w { w with sessions := w.sessions.modify i f }
  | stops (hrunning : w.stopped = false) : Stepped w
      { w with stopped := true, shaking := none, lost := w.shaking, sessions := w.sessions.map leave }

theorem step_stepped (w : NodeLoop D) (event : NodeEvent D) :
    Stepped serving oracle instants w (step serving oracle instants w event) := by
  unfold step
  split
  · exact .stays
  · rename_i hstopped
    have hrunning : w.stopped = false := by simpa using hstopped
    cases event with
    | passes => exact .passes
    | knocks peer => exact .knocks peer
    | shakes =>
      simp only
      split
      · split
        · rename_i peer rest hshaking hwaiting
          exact .shakes peer rest hrunning hshaking hwaiting
        · exact .stays
      · exact .stays
    | accepts taken =>
      simp only
      split
      · rename_i harm
        split
        · exact .stays
        · rename_i peer hshaking
          cases taken with
          | false => exact .refused peer hshaking
          | true => exact .taken peer hrunning hshaking (by simpa [acceptArm] using harm)
      · exact .stays
    | ticks => exact .ticks
    | stream i dial pools publicSession =>
      exact .turns i _ fun s => stream_turned serving oracle instants w s dial pools publicSession
    | sweeps i => exact .turns i _ fun s => sweep_turned serving oracle instants w s
    | leaves i => exact .turns i _ fun _ => .left
    | cancels => exact .stops hrunning

variable {serving oracle instants} {w w' : NodeLoop D} {s s' : NodeSession D}

theorem live_iff : s.live = true ↔ s.left = false ∧ s.cut.ended = none := by
  simp [NodeSession.live]

theorem Turned.peer (h : Turned serving oracle instants w s s') : s'.peer = s.peer := by
  cases h <;> rfl

/-- A session that is over stays as it is, but that its loop may yet return. -/
theorem Turned.live (h : Turned serving oracle instants w s s') (hlive : s'.live = true) : s.live = true := by
  cases h with
  | stays => exact hlive
  | served dial pools publicSession hbefore => exact hbefore
  | swept hbefore hseen => exact hbefore
  | left => cases (live_iff.mp hlive).1

theorem Turned.seen (h : Turned serving oracle instants w s s') (hseen : s.seen ≤ w.version) :
    s'.seen ≤ w.version := by
  cases h with
  | stays => exact hseen
  | served dial pools publicSession hlive => exact hseen
  | swept hlive hbehind => exact le_refl _
  | left => exact hseen

/-- A session's record stays within its cap, whatever it serves. -/
theorem serve_ids_card {peer : SessionPeer} {s : CutSession D} (hids : s.chains.ids.card ≤ 1024) (dial : Dial D)
    (pools : Pools) (publicSession : PublicSession) :
    (s.serve serving peer dial pools publicSession).chains.ids.card ≤ 1024 := by
  cases hserve : (serveRequest serving dial pools publicSession peer (some s.chains)).serve with
  | none =>
    rw [CutSession.serve_refused hserve]
    exact hids
  | some served =>
    obtain ⟨request, -, hdispatched⟩ := serveRequest_serve hserve
    obtain ⟨chains', hrecord, hchains⟩ := Checked.map_ok.1 hdispatched.record
    have hkept : (s.serve serving peer dial pools publicSession).chains = chains' := by
      simp [CutSession.serve, ← hchains]
    rw [hkept]
    unfold recordStream at hrecord
    cases hproven : served.admitted.proven with
    | some proven =>
      simp only [hproven] at hrecord
      cases hrecord
      exact hids
    | none =>
      simp only [hproven] at hrecord
      have hcall := recordAll_allOrNothing s.chains served.admitted.peer served.admitted.ruled
      rw [recordAllInPlace_run, hrecord] at hcall
      have hroom := (hcall.kept.1 rfl).2
      rw [← (hcall.all rfl).ids] at hroom
      exact hroom

theorem Turned.ids_card (h : Turned serving oracle instants w s s') (hids : s.cut.chains.ids.card ≤ 1024) :
    s'.cut.chains.ids.card ≤ 1024 := by
  cases h with
  | stays => exact hids
  | served dial pools publicSession hlive =>
    simp only [CutSession.step, (live_iff.mp hlive).2, Option.isSome_none, Bool.false_eq_true, if_false]
    exact serve_ids_card hids dial pools publicSession
  | swept hlive hseen =>
    simpa [CutSession.step, (live_iff.mp hlive).2] using hids
  | left => exact hids

theorem countP_modify_le {α : Type} {p : α → Bool} {f : α → α} (hf : ∀ a, p (f a) = true → p a = true)
    (xs : List α) (i : Nat) : (xs.modify i f).countP p ≤ xs.countP p := by
  induction xs generalizing i with
  | nil => simp
  | cons x xs ih =>
    cases i with
    | zero =>
      have hx := hf x
      cases hbefore : p x with
      | true =>
        simp only [List.modify_zero_cons, List.countP_cons, hbefore, if_true]
        split <;> omega
      | false =>
        have hafter : p (f x) = false := by
          cases hpf : p (f x) with
          | false => rfl
          | true => exact absurd (hx hpf) (by simp [hbefore])
        simp [hbefore, hafter]
    | succ i =>
      have hrest := ih i
      simp only [List.modify_succ_cons, List.countP_cons]
      omega

theorem map_peer_modify {f : NodeSession D → NodeSession D} (hf : ∀ s, (f s).peer = s.peer)
    (sessions : List (NodeSession D)) (i : Nat) :
    (sessions.modify i f).map (·.peer) = sessions.map (·.peer) := by
  induction sessions generalizing i with
  | nil => simp
  | cons session sessions ih =>
    cases i with
    | zero => simp [hf]
    | succ i => simp [ih]

/-- The sessions after an event: each one the node had, turned, and then the one it took. -/
theorem Stepped.session (h : Stepped serving oracle instants w w') {i : Nat} (hat : w'.sessions[i]? = some s') :
    (∃ s, w.sessions[i]? = some s ∧ Turned serving oracle instants w s s') ∨
      w.sessions.length = i ∧ ∃ peer, s' = ⟨peer, .start D, w.version, false⟩ := by
  cases h with
  | stays => exact .inl ⟨s', hat, .stays⟩
  | passes => exact .inl ⟨s', hat, .stays⟩
  | knocks peer => exact .inl ⟨s', hat, .stays⟩
  | shakes peer rest hrunning hshaking hwaiting => exact .inl ⟨s', hat, .stays⟩
  | refused peer hshaking => exact .inl ⟨s', hat, .stays⟩
  | taken peer hrunning hshaking hroom =>
    rcases Nat.lt_or_ge i w.sessions.length with hold | hnew
    · rw [List.getElem?_append_left hold] at hat
      exact .inl ⟨s', hat, .stays⟩
    · rw [List.getElem?_append_right hnew, List.getElem?_singleton] at hat
      split at hat
      · rename_i hzero
        exact .inr ⟨by omega, peer, (Option.some.inj hat).symm⟩
      · cases hat
  | ticks => exact .inl ⟨s', hat, .stays⟩
  | turns j f hturned =>
    rw [List.getElem?_modify] at hat
    obtain ⟨s, hs, rfl⟩ := Option.map_eq_some_iff.1 hat
    refine .inl ⟨s, hs, ?_⟩
    split
    · exact hturned s
    · exact .stays
  | stops hrunning =>
    rw [List.getElem?_map] at hat
    obtain ⟨s, hs, rfl⟩ := Option.map_eq_some_iff.1 hat
    exact .inl ⟨s, hs, .left⟩

/-- Time, sweeps and sessions only grow. -/
theorem Stepped.grows (h : Stepped serving oracle instants w w') :
    w.instant ≤ w'.instant ∧ w.version ≤ w'.version ∧ w.sessions.length ≤ w'.sessions.length := by
  cases h <;> simp

/-- What holds of the node itself: its cap, its dialers, and the sessions it took of them. -/
structure Sound (w : NodeLoop D) : Prop where
  room : w.liveSessions ≤ maxSessions
  dialers : w.handshaken.map (·.peer) ++ w.lost.toList ++ w.shaking.toList ++ w.waiting = w.knocked
  taken : w.sessions.map (·.peer) = (w.handshaken.filter (·.taken)).map (·.peer)
  stopped : w.stopped = true → w.liveSessions = 0 ∧ w.shaking = none
  running : w.stopped = false → w.lost = none
  each : ∀ s ∈ w.sessions, s.seen ≤ w.version ∧ s.cut.chains.ids.card ≤ 1024

theorem Sound.start : Sound (start D) := by
  constructor <;> simp [NodeLoop.start, liveSessions]

theorem Stepped.each (h : Stepped serving oracle instants w w') (hs : w.Sound) :
    ∀ s ∈ w'.sessions, s.seen ≤ w'.version ∧ s.cut.chains.ids.card ≤ 1024 := by
  intro s' hmem
  obtain ⟨i, hi⟩ := List.getElem?_of_mem hmem
  rcases h.session hi with ⟨s, hbefore, hturned⟩ | ⟨-, peer, rfl⟩
  · obtain ⟨hseen, hids⟩ := hs.each s (List.mem_of_getElem? hbefore)
    exact ⟨Nat.le_trans (hturned.seen hseen) h.grows.2.1, hturned.ids_card hids⟩
  · exact ⟨h.grows.2.1, by simp [CutSession.start, AdmittedChains.empty]⟩

theorem Stepped.sound (h : Stepped serving oracle instants w w') (hs : w.Sound) : w'.Sound := by
  have heach := h.each hs
  cases h with
  | stays => exact hs
  | passes => exact ⟨hs.room, hs.dialers, hs.taken, hs.stopped, hs.running, heach⟩
  | knocks peer =>
    refine ⟨hs.room, ?_, hs.taken, hs.stopped, hs.running, heach⟩
    simp [← hs.dialers]
  | shakes peer rest hrunning hshaking hwaiting =>
    refine ⟨hs.room, ?_, hs.taken, ?_, hs.running, heach⟩
    · simp [← hs.dialers, hshaking, hwaiting]
    · intro hstopped
      cases hrunning.symm.trans hstopped
  | refused peer hshaking =>
    refine ⟨hs.room, ?_, ?_, ?_, hs.running, heach⟩
    · have hdialers := hs.dialers
      cases hrunning : w.stopped with
      | true => cases hshaking.symm.trans (hs.stopped hrunning).2
      | false => simp [← hdialers, hs.running hrunning, hshaking]
    · simp [hs.taken]
    · intro hstopped
      exact ⟨(hs.stopped hstopped).1, rfl⟩
  | taken peer hrunning hshaking hroom =>
    refine ⟨?_, ?_, ?_, ?_, hs.running, heach⟩
    · simp only [liveSessions, List.countP_append, List.countP_singleton] at hroom ⊢
      split <;> omega
    · simp [← hs.dialers, hs.running hrunning, hshaking]
    · simp [hs.taken]
    · intro hstopped
      cases hrunning.symm.trans hstopped
  | ticks => exact ⟨hs.room, hs.dialers, hs.taken, hs.stopped, hs.running, heach⟩
  | turns i f hturned =>
    have hcount : (w.sessions.modify i f).countP NodeSession.live ≤ w.sessions.countP NodeSession.live :=
      countP_modify_le (fun s => (hturned s).live) w.sessions i
    refine ⟨?_, hs.dialers, ?_, ?_, hs.running, heach⟩
    · exact Nat.le_trans hcount hs.room
    · rw [← hs.taken]
      exact map_peer_modify (fun s => (hturned s).peer) w.sessions i
    · intro hstopped
      obtain ⟨hnone, hshaking⟩ := hs.stopped hstopped
      exact ⟨Nat.le_zero.1 (Nat.le_trans hcount (Nat.le_of_eq hnone)), hshaking⟩
  | stops hrunning =>
    have hnone : (w.sessions.map leave).countP NodeSession.live = 0 := by
      simp [List.countP_eq_zero, NodeSession.live, leave]
    refine ⟨?_, ?_, ?_, fun _ => ⟨hnone, rfl⟩, ?_, heach⟩
    · simp only [liveSessions, hnone]
      exact Nat.zero_le _
    · simp [← hs.dialers, hs.running hrunning]
    · rw [← hs.taken]
      simp [leave]
    · intro hstill
      cases hstill

theorem run_sound (w : NodeLoop D) (hs : w.Sound) (events : List (NodeEvent D)) :
    (run serving oracle instants w events).Sound := by
  induction events generalizing w with
  | nil => exact hs
  | cons event events ih => exact ih _ ((step_stepped serving oracle instants w event).sound hs)

theorem run_stopped (w : NodeLoop D) (hstopped : w.stopped = true) (events : List (NodeEvent D)) :
    run serving oracle instants w events = w := by
  induction events with
  | nil => rfl
  | cons event events ih =>
    have hstep : step serving oracle instants w event = w := by simp [step, hstopped]
    rw [run, List.foldl_cons, hstep]
    exact ih

theorem run_version (w : NodeLoop D) (events : List (NodeEvent D)) :
    w.version ≤ (run serving oracle instants w events).version := by
  induction events generalizing w with
  | nil => exact le_refl _
  | cons event events ih => exact (step_stepped serving oracle instants w event).grows.2.1.trans (ih _)

theorem run_append (w : NodeLoop D) (events later : List (NodeEvent D)) :
    run serving oracle instants w (events ++ later) =
      run serving oracle instants (run serving oracle instants w events) later :=
  List.foldl_append

/-- A handshake the node began is still held, or was ended and never begun again, or was dropped by the cancel
with the loop. -/
inductive Carried (w : NodeLoop D) (peer : SessionPeer) (w' : NodeLoop D) : Prop where
  | held (hshaking : w'.shaking = some peer) (hsame : w'.handshaken = w.handshaken)
  | ended (taken : Bool) (hended : w.handshaken ++ [⟨peer, taken⟩] <+: w'.handshaken)
  | dropped (hlost : w'.lost = some peer) (hsame : w'.handshaken = w.handshaken) (hstopped : w'.stopped = true)

theorem Stepped.carried {first : NodeLoop D} {peer : SessionPeer} (h : Stepped serving oracle instants w w')
    (hrunning : w.stopped = false) (hc : Carried first peer w) : Carried first peer w' := by
  cases hc with
  | ended taken hended =>
    refine .ended taken (hended.trans ?_)
    cases h <;> simp
  | dropped hlost hsame hstopped => cases hrunning.symm.trans hstopped
  | held hshaking hsame =>
    cases h with
    | stays => exact .held hshaking hsame
    | passes => exact .held hshaking hsame
    | knocks other => exact .held hshaking hsame
    | shakes other rest hrunning hnone hwaiting =>
      rw [hshaking] at hnone
      cases hnone
    | refused other hother =>
      rw [hshaking] at hother
      cases hother
      exact .ended false (by simp [hsame])
    | taken other hrunning hother hroom =>
      rw [hshaking] at hother
      cases hother
      exact .ended true (by simp [hsame])
    | ticks => exact .held hshaking hsame
    | turns i f hturned => exact .held hshaking hsame
    | stops hrunning => exact .dropped hshaking hsame rfl

theorem run_carried {first : NodeLoop D} {peer : SessionPeer} (w : NodeLoop D) (hc : Carried first peer w)
    (events : List (NodeEvent D)) : Carried first peer (run serving oracle instants w events) := by
  induction events generalizing w with
  | nil => exact hc
  | cons event events ih =>
    cases hstopped : w.stopped with
    | true =>
      rw [run_stopped w hstopped]
      exact hc
    | false => exact ih _ ((step_stepped serving oracle instants w event).carried hstopped hc)

/-- Only a cancel stops the node. -/
theorem step_stopped (w : NodeLoop D) (event : NodeEvent D) :
    (step serving oracle instants w event).stopped = true ↔ w.stopped = true ∨ event = .cancels := by
  unfold step
  cases hstopped : w.stopped with
  | true => simp [hstopped]
  | false =>
    cases event with
    | shakes =>
      simp only [Bool.false_eq_true, ↓reduceIte, reduceCtorEq, or_self, iff_false]
      split
      · split <;> simp [hstopped]
      · simp [hstopped]
    | accepts taken =>
      simp only [Bool.false_eq_true, ↓reduceIte, reduceCtorEq, or_self, iff_false]
      split
      · split <;> simp [hstopped]
      · simp [hstopped]
    | cancels => simp
    | passes | knocks _ | ticks | stream _ _ _ _ | sweeps _ | leaves _ => simp

theorem stopped_iff (w : NodeLoop D) (events : List (NodeEvent D)) :
    (run serving oracle instants w events).stopped = true ↔ w.stopped = true ∨ .cancels ∈ events := by
  induction events generalizing w with
  | nil => simp [run]
  | cons event events ih =>
    have hrest := ih (step serving oracle instants w event)
    rw [step_stopped] at hrest
    rw [run, List.foldl_cons, ← run, hrest, List.mem_cons, or_assoc, eq_comm (a := event)]

/-- The ids all live sessions keep, together. -/
theorem Sound.ids_sum (hs : w.Sound) :
    ((w.sessions.filter NodeSession.live).map fun s => s.cut.chains.ids.card).sum ≤ 256 * 1024 := by
  have hsum := List.sum_le_card_nsmul
    ((w.sessions.filter NodeSession.live).map fun s => s.cut.chains.ids.card) 1024 (by
      intro card hcard
      obtain ⟨s, hmem, rfl⟩ := List.mem_map.1 hcard
      exact (hs.each s (List.mem_filter.1 hmem).1).2)
  have hroom : (w.sessions.filter NodeSession.live).length ≤ 256 := by
    rw [← List.countP_eq_length_filter]
    exact hs.room
  rw [List.length_map, smul_eq_mul] at hsum
  exact hsum.trans (Nat.mul_le_mul_right 1024 hroom)

/-- The loop's return: it holds nothing more, and the dialer in the middle of its handshake is dropped. -/
structure Cancelled (w w' : NodeLoop D) : Prop where
  stopped : w'.stopped = true
  sessions : w'.liveSessions = 0
  shaking : w'.shaking = none
  lost : w'.lost = w.shaking
  same : w'.handshaken = w.handshaken ∧ w'.waiting = w.waiting

theorem cancels_cancelled (w : NodeLoop D) (hrunning : w.stopped = false) :
    Cancelled w (step serving oracle instants w .cancels) := by
  have hnone : (w.sessions.map leave).countP NodeSession.live = 0 := by
    simp [List.countP_eq_zero, NodeSession.live, leave]
  simp only [step, hrunning, Bool.false_eq_true, ↓reduceIte]
  exact ⟨rfl, hnone, rfl, rfl, rfl, rfl⟩

/-- Over every run of the node's loop at most `maxSessions` sessions are live, keeping at most their caps of
ids between them; the dialers are served in the order they came; a begun handshake is ended once, whatever
happens in between and however long the node stays full, or is dropped by the cancel. A cancel ends every
session and the handshake at once, and nothing changes after it; and nothing else stops the node. -/
theorem node_loop (serving : Serving D) (oracle : LiveCuts D) (instants : Nat → D.Moment × SystemTime)
    (events later : List (NodeEvent D)) :
    let w := run serving oracle instants (start D) events
    let w' := run serving oracle instants w later
    w.liveSessions ≤ maxSessions ∧
    ((w.sessions.filter NodeSession.live).map fun s => s.cut.chains.ids.card).sum ≤ 256 * 1024 ∧
    w.handshaken.map (·.peer) ++ w.lost.toList ++ w.shaking.toList ++ w.waiting = w.knocked ∧
    w.sessions.map (·.peer) = (w.handshaken.filter (·.taken)).map (·.peer) ∧
    (∀ peer, w.shaking = some peer → Carried w peer w') ∧
    (w.stopped = true ↔ .cancels ∈ events) ∧
    (w.stopped = false → w.lost = none ∧
      Cancelled w (step serving oracle instants w .cancels) ∧
      run serving oracle instants w (.cancels :: later) = step serving oracle instants w .cancels) ∧
    (w.stopped = true → w.liveSessions = 0 ∧ w.shaking = none ∧ w' = w) := by
  intro w w'
  have hs : w.Sound := run_sound (start D) Sound.start events
  refine ⟨hs.room, hs.ids_sum, hs.dialers, hs.taken, ?_, ?_, ?_, ?_⟩
  · intro peer hshaking
    exact run_carried w (.held hshaking rfl) later
  · have hiff : w.stopped = true ↔ (start D).stopped = true ∨ .cancels ∈ events := stopped_iff (start D) events
    exact hiff.trans (or_iff_right (by simp [start]))
  · intro hrunning
    have hcancelled : Cancelled w (step serving oracle instants w .cancels) := cancels_cancelled w hrunning
    exact ⟨hs.running hrunning, hcancelled, run_stopped _ hcancelled.stopped later⟩
  · intro hstopped
    obtain ⟨hnone, hshaking⟩ := hs.stopped hstopped
    exact ⟨hnone, hshaking, run_stopped w hstopped later⟩

end Steps

section Recall

variable (list : Denylist D) (trusts revokedPeer : D.Moment → D.VerifyKey → Bool)
  (instants : Nat → D.Moment × SystemTime)

/-- Whether one of these streams calls for the cut at an instant of the history. -/
def EndsAt (peer : SessionPeer) (streams : List (AdmittedStream D)) (k : Nat) : Prop :=
  Ends list trusts revokedPeer peer streams (instants k).1 (instants k).2

theorem EndsAt.more {peer : SessionPeer} {streams streams' : List (AdmittedStream D)} {k : Nat}
    (h : EndsAt list trusts revokedPeer instants peer streams k) (hmore : ∀ a ∈ streams, a ∈ streams') :
    EndsAt list trusts revokedPeer instants peer streams' k := by
  obtain ⟨a, ha, hrecalled | huntrusted | ⟨hkeyed, key, hkey, hrevoked⟩ | hexpired⟩ := h
  · exact ⟨a, hmore a ha, .inl hrecalled⟩
  · exact ⟨a, hmore a ha, .inr (.inl huntrusted)⟩
  · refine ⟨a, hmore a ha, .inr (.inr (.inl ⟨hkeyed, key, hkey, ?_⟩))⟩
    rcases hrevoked with hrevoked | ⟨⟨b, hb, hproven⟩, htwin⟩
    · exact .inl hrevoked
    · exact .inr ⟨⟨b, hmore b hb, hproven⟩, htwin⟩
  · exact ⟨a, hmore a ha, .inr (.inr (.inr hexpired))⟩

/-- What a sweep leaves of a live session: its record, ended exactly when that instant calls for it. -/
theorem swept_ended {serving : Serving D} {s : NodeSession D} (hlive : s.live = true)
    (hexact : s.cut.Exact serving s.peer) (k : Nat) :
    let swept := s.cut.step serving ⟨list.cuts, trusts, revokedPeer⟩ s.peer (.sweep (instants k).1 (instants k).2)
    swept.recorded = s.cut.recorded ∧
      (swept.ended ≠ none ↔ EndsAt list trusts revokedPeer instants s.peer s.cut.recorded k) := by
  simp only [CutSession.step, (live_iff.mp hlive).2, Option.isSome_none, Bool.false_eq_true, if_false]
  exact ⟨trivial, Option.isSome_iff_ne_none.symm.trans (hexact.kept.check_iff list trusts revokedPeer _ _)⟩

theorem served_ended (serving : Serving D) {s : NodeSession D} (hlive : s.live = true) (dial : Dial D)
    (pools : Pools) (publicSession : PublicSession) :
    let served := s.cut.step serving ⟨list.cuts, trusts, revokedPeer⟩ s.peer (.stream dial pools publicSession)
    served.ended = none ∧ s.cut.recorded <+: served.recorded := by
  simp [CutSession.step, CutSession.serve, (live_iff.mp hlive).2]

/-- A session's record is its streams', and it was ended only at an instant that called for it. -/
structure Judged (serving : Serving D) (w : NodeLoop D) (s : NodeSession D) : Prop where
  exact : s.cut.Exact serving s.peer
  called : s.cut.ended ≠ none → ∃ k ≤ w.instant, EndsAt list trusts revokedPeer instants s.peer s.cut.recorded k

/-- A session some events after the node was `ticked`: it has not seen that sweep, or some instant since then
does not call for what it had recorded. -/
structure Later (ticked w : NodeLoop D) (s s' : NodeSession D) : Prop where
  peer : s'.peer = s.peer
  recorded : ∀ a ∈ s.cut.recorded, a ∈ s'.cut.recorded
  seen : s'.live = true → s'.seen < ticked.version ∨ ∃ k, ticked.instant ≤ k ∧ k ≤ w.instant ∧
    ¬ EndsAt list trusts revokedPeer instants s.peer s.cut.recorded k

variable {list trusts revokedPeer instants} {serving : Serving D} {ticked w w' : NodeLoop D}
  {s s' s'' : NodeSession D}

/-- Where every instant called for it, a session still live has not seen the tick. -/
theorem Later.unseen (h : Later list trusts revokedPeer instants ticked w s s')
    (hends : ∀ k, ticked.instant ≤ k → k ≤ w.instant → EndsAt list trusts revokedPeer instants s.peer s.cut.recorded k)
    (hlive : s'.live = true) : s'.seen < ticked.version := by
  rcases h.seen hlive with hseen | ⟨k, hfirst, hlast, hnot⟩
  · exact hseen
  · exact absurd (hends k hfirst hlast) hnot

theorem Turned.judged (hD : D.Lawful)
    (h : Turned serving ⟨list.cuts, trusts, revokedPeer⟩ instants w s s') (hinstant : w.instant ≤ w'.instant)
    (hs : Judged list trusts revokedPeer instants serving w s) :
    Judged list trusts revokedPeer instants serving w' s' := by
  have hcalled (hended : s.cut.ended ≠ none) :
      ∃ k ≤ w'.instant, EndsAt list trusts revokedPeer instants s.peer s.cut.recorded k := by
    obtain ⟨k, hk, hends⟩ := hs.called hended
    exact ⟨k, hk.trans hinstant, hends⟩
  cases h with
  | stays => exact ⟨hs.exact, hcalled⟩
  | served dial pools publicSession hlive =>
    have hexact : (s.cut.step serving ⟨list.cuts, trusts, revokedPeer⟩ s.peer
        (.stream dial pools publicSession)).Exact serving s.peer := CutSession.step_exact hD hs.exact _
    constructor
    · exact hexact
    · intro hended
      exact absurd (served_ended list trusts revokedPeer serving hlive dial pools publicSession).1 hended
  | swept hlive hseen =>
    obtain ⟨hrecorded, hiff⟩ := swept_ended list trusts revokedPeer instants hlive hs.exact w.instant
    constructor
    · exact CutSession.step_exact hD hs.exact (.sweep (instants w.instant).1 (instants w.instant).2)
    · intro hended
      refine ⟨w.instant, hinstant, ?_⟩
      rw [hrecorded]
      exact hiff.1 hended
  | left => exact ⟨hs.exact, hcalled⟩

theorem Stepped.judged (hD : D.Lawful) (h : Stepped serving ⟨list.cuts, trusts, revokedPeer⟩ instants w w')
    (hs : ∀ s ∈ w.sessions, Judged list trusts revokedPeer instants serving w s) :
    ∀ s ∈ w'.sessions, Judged list trusts revokedPeer instants serving w' s := by
  intro s' hmem
  obtain ⟨i, hi⟩ := List.getElem?_of_mem hmem
  rcases h.session hi with ⟨s, hbefore, hturned⟩ | ⟨-, peer, rfl⟩
  · exact hturned.judged hD h.grows.1 (hs s (List.mem_of_getElem? hbefore))
  · refine ⟨⟨.empty peer, by simp [CutSession.start]⟩, ?_⟩
    intro hended
    exact absurd rfl hended

/-- A session past the sweep was asked at an instant that let it live, or it is live no more. -/
theorem Turned.later (h : Turned serving ⟨list.cuts, trusts, revokedPeer⟩ instants w s' s'')
    (hinstant : ticked.instant ≤ w.instant ∧ w.instant ≤ w'.instant) (hexact : s'.cut.Exact serving s'.peer)
    (hs : Later list trusts revokedPeer instants ticked w s s') :
    Later list trusts revokedPeer instants ticked w' s s'' := by
  have hlater (hlive : s'.live = true) : s'.seen < ticked.version ∨ ∃ k, ticked.instant ≤ k ∧ k ≤ w'.instant ∧
      ¬ EndsAt list trusts revokedPeer instants s.peer s.cut.recorded k := by
    rcases hs.seen hlive with hseen | ⟨k, hfirst, hlast, hends⟩
    · exact .inl hseen
    · exact .inr ⟨k, hfirst, hlast.trans hinstant.2, hends⟩
  cases h with
  | stays => exact ⟨hs.peer, hs.recorded, hlater⟩
  | served dial pools publicSession hlive =>
    refine ⟨hs.peer, ?_, fun _ => hlater hlive⟩
    intro a ha
    have hgrows := (served_ended list trusts revokedPeer serving hlive dial pools publicSession).2
    exact hgrows.subset (hs.recorded a ha)
  | swept hlive hseen =>
    obtain ⟨hrecorded, hiff⟩ := swept_ended list trusts revokedPeer instants hlive hexact w.instant
    refine ⟨hs.peer, ?_, ?_⟩
    · intro a ha
      rw [hrecorded]
      exact hs.recorded a ha
    · intro hstill
      refine .inr ⟨w.instant, hinstant.1, hinstant.2, ?_⟩
      intro hends
      rw [← hs.peer] at hends
      exact hiff.2 (EndsAt.more list trusts revokedPeer instants hends hs.recorded) (live_iff.mp hstill).2
  | left =>
    refine ⟨hs.peer, hs.recorded, ?_⟩
    intro hstill
    cases (live_iff.mp hstill).1

/-- What a run keeps from the moment the node was `ticked`. -/
structure Since (list : Denylist D) (trusts revokedPeer : D.Moment → D.VerifyKey → Bool)
    (instants : Nat → D.Moment × SystemTime) (serving : Serving D) (ticked w : NodeLoop D) : Prop where
  instant : ticked.instant ≤ w.instant
  length : ticked.sessions.length ≤ w.sessions.length
  judged : ∀ s ∈ w.sessions, Judged list trusts revokedPeer instants serving w s
  later : ∀ (i : Nat) (s s' : NodeSession D), ticked.sessions[i]? = some s → w.sessions[i]? = some s' →
    Later list trusts revokedPeer instants ticked w s s'

theorem Stepped.since (hD : D.Lawful) (h : Stepped serving ⟨list.cuts, trusts, revokedPeer⟩ instants w w')
    (hs : Since list trusts revokedPeer instants serving ticked w) :
    Since list trusts revokedPeer instants serving ticked w' := by
  obtain ⟨hinstant, -, hlength⟩ := h.grows
  refine ⟨hs.instant.trans hinstant, hs.length.trans hlength, h.judged hD hs.judged, ?_⟩
  intro i s s'' hat hat''
  rcases h.session hat'' with ⟨s', hat', hturned⟩ | ⟨hnew, -⟩
  · have hexact := (hs.judged s' (List.mem_of_getElem? hat')).exact
    exact hturned.later ⟨hs.instant, hinstant⟩ hexact (hs.later i s s' hat hat')
  · have hlt := (List.getElem?_eq_some_iff.1 hat).1
    have hle := hs.length
    omega

theorem run_since (hD : D.Lawful) (w : NodeLoop D) (hs : Since list trusts revokedPeer instants serving ticked w)
    (events : List (NodeEvent D)) : Since list trusts revokedPeer instants serving ticked
      (run serving ⟨list.cuts, trusts, revokedPeer⟩ instants w events) := by
  induction events generalizing w with
  | nil => exact hs
  | cons event events ih =>
    exact ih _ ((step_stepped serving ⟨list.cuts, trusts, revokedPeer⟩ instants w event).since hD hs)

/-- A tick leaves no live session that has seen it. -/
theorem ticked_seen {oracle : LiveCuts D} (hs : w.Sound)
    (hmem : s ∈ (step serving oracle instants w .ticks).sessions) (hlive : s.live = true) :
    s.seen < (step serving oracle instants w .ticks).version := by
  unfold step at hmem ⊢
  split at hmem
  · rename_i hstopped
    have hnone := List.countP_eq_zero.1 (hs.stopped hstopped).1 s hmem
    exact absurd hlive hnone
  · rename_i hrunning
    simp only [hrunning, Bool.false_eq_true, if_false]
    exact Nat.lt_succ_of_le (hs.each s hmem).1

/-- A session that sees no sweep behind the node's is not live after one. -/
theorem swept_seen {oracle : LiveCuts D} (hs : w.Sound) {i : Nat} (hat : w.sessions[i]? = some s) :
    ∃ s', (step serving oracle instants w (.sweeps i)).sessions[i]? = some s' ∧
      (s'.live = true → w.version ≤ s'.seen) := by
  cases hstopped : w.stopped with
  | true =>
    have hsame : step serving oracle instants w (.sweeps i) = w := by simp [step, hstopped]
    rw [hsame]
    have hnone := List.countP_eq_zero.1 (hs.stopped hstopped).1 s (List.mem_of_getElem? hat)
    exact ⟨s, hat, fun hlive => absurd hlive hnone⟩
  | false =>
    have hsessions : (step serving oracle instants w (.sweeps i)).sessions[i]? =
        some (sweep serving oracle instants w s) := by simp [step, hstopped, hat]
    refine ⟨_, hsessions, fun hlive => ?_⟩
    unfold sweep at hlive ⊢
    split at hlive
    · rename_i hguard
      rw [if_pos hguard]
    · rename_i hguard
      rw [if_neg hguard]
      simpa [hlive] using hguard

/-- A tick after which every instant calls for what a session had recorded ends it: busy, it may go on until
it sees the sweep, and its next look at the sweep, whenever that is, leaves it over. No session is ended that no
instant of its node called for. -/
theorem node_recall (hD : D.Lawful) (serving : Serving D) (list : Denylist D)
    (trusts revokedPeer : D.Moment → D.VerifyKey → Bool) (instants : Nat → D.Moment × SystemTime)
    (before after : List (NodeEvent D)) :
    let oracle : LiveCuts D := ⟨list.cuts, trusts, revokedPeer⟩
    let endsAt := EndsAt list trusts revokedPeer instants
    let ticked := run serving oracle instants (start D) (before ++ [.ticks])
    let now := run serving oracle instants ticked after
    (∀ (i : Nat) (s : NodeSession D), ticked.sessions[i]? = some s →
      ∃ s', now.sessions[i]? = some s' ∧ s'.peer = s.peer ∧
        ((∀ k, ticked.instant ≤ k → k ≤ now.instant → endsAt s.peer s.cut.recorded k) →
          (s'.live = true → s'.seen < ticked.version) ∧
          ∃ s'', (step serving oracle instants now (.sweeps i)).sessions[i]? = some s'' ∧ s''.live = false)) ∧
    (∀ s' ∈ now.sessions, s'.cut.ended ≠ none → ∃ k ≤ now.instant, endsAt s'.peer s'.cut.recorded k) := by
  intro oracle endsAt ticked now
  have hempty : Since list trusts revokedPeer instants serving (start D) (start D) := by
    constructor <;> simp [start]
  have hbefore := (run_since hD _ hempty (before ++ [.ticks])).judged
  have hsound : (run serving oracle instants (start D) before).Sound := run_sound _ .start before
  have hticked : ticked = step serving oracle instants (run serving oracle instants (start D) before) .ticks := by
    simp only [ticked, run_append]
    rfl
  have hat : Since list trusts revokedPeer instants serving ticked ticked := by
    refine ⟨le_refl _, le_refl _, hbefore, ?_⟩
    intro i s s' hs hs'
    cases hs.symm.trans hs'
    refine ⟨rfl, fun a ha => ha, ?_⟩
    intro hlive
    have hmem := List.mem_of_getElem? hs
    rw [hticked] at hmem ⊢
    exact .inl (ticked_seen hsound hmem hlive)
  have hnow : Since list trusts revokedPeer instants serving ticked now := run_since hD ticked hat after
  have hversion : ticked.version ≤ now.version := run_version ticked after
  refine ⟨?_, ?_⟩
  · intro i s hs
    have hlt := (List.getElem?_eq_some_iff.1 hs).1
    have hbound : i < now.sessions.length := lt_of_lt_of_le hlt hnow.length
    have hs' := List.getElem?_eq_getElem hbound
    have hlater := hnow.later i s _ hs hs'
    refine ⟨_, hs', hlater.peer, ?_⟩
    intro hends
    refine ⟨fun hlive => hlater.unseen hends hlive, ?_⟩
    have hswept := (step_stepped serving oracle instants now (.sweeps i)).since hD hnow
    have hnowSound : now.Sound := run_sound _ (run_sound _ .start _) after
    obtain ⟨s'', hat'', hseen⟩ : ∃ s'', (step serving oracle instants now (.sweeps i)).sessions[i]? = some s'' ∧
        (s''.live = true → now.version ≤ s''.seen) := swept_seen hnowSound hs'
    refine ⟨s'', hat'', ?_⟩
    cases hlive : s''.live with
    | false => rfl
    | true =>
      have hinstant : (step serving oracle instants now (.sweeps i)).instant = now.instant := by
        unfold step
        split <;> rfl
      have hbehind := (hswept.later i s s'' hs hat'').unseen (hinstant ▸ hends) hlive
      exact absurd (hversion.trans (hseen hlive)) (Nat.not_le_of_lt hbehind)
  · intro s' hmem
    exact (hnow.judged s' hmem).called

/-- A slip good through 100 is presented at 100 and swept at 101. -/
theorem node_recall_brief :
    let D := Deps.small (Vector.replicate 32 0)
    let list : Denylist D := ⟨fun _ _ => false, fun _ _ => false⟩
    let oracle : LiveCuts D := ⟨list.cuts, fun _ _ => true, fun _ _ => false⟩
    let peer : SessionPeer := ⟨⟨.Ed25519, Vector.replicate 32 7⟩, ⟨.Proven⟩⟩
    let routes : AList (fun _ : String => Route D) :=
      AList.singleton "shell" (.family (.Handler (.bound .Never .Metered)))
    let serving : Serving D :=
      ⟨.rooted (Vector.replicate 32 0), ∅, ∅, ⟨routes⟩, fun _ _ => true, some oracle⟩
    let dial : Dial D :=
      ⟨some (Request.write ⟨"shell", some "brief", none⟩).2, [], 0, ⟨0⟩, fun _ _ => .ok .Stream, none⟩
    let instants : Nat → D.Moment × SystemTime := fun k => ([], 100 + k)
    let before : List (NodeEvent D) :=
      [.knocks peer, .shakes, .accepts true, .stream 0 dial Pools.new ⟨false⟩, .passes]
    let ticked := run serving oracle instants (start D) (before ++ [.ticks])
    ticked.sessions.map NodeSession.live = [true] ∧
      ∃ s', (run serving oracle instants ticked [.sweeps 0]).sessions[0]? = some s' ∧ s'.live = false := by
  intro D list oracle peer routes serving dial instants before ticked
  have hlive : ticked.sessions.map NodeSession.live = [true] := by decide +kernel
  obtain ⟨s, hat, a, ha, hexpired⟩ : ∃ s, ticked.sessions[0]? = some s ∧ ∃ a ∈ s.cut.recorded, a.expired 101 :=
    ⟨_, rfl, _, List.mem_singleton.2 rfl, _, List.mem_singleton.2 rfl, 100, rfl, by decide⟩
  obtain ⟨hrecall, -⟩ := node_recall (Deps.small_lawful (Vector.replicate 32 0)) serving list (fun _ _ => true)
    (fun _ _ => false) instants before []
  obtain ⟨s', -, -, hover⟩ := hrecall 0 s hat
  have hnone : ∀ w, run serving oracle instants w [] = w := fun _ => rfl
  have hone : ∀ w, run serving oracle instants w [.sweeps 0] = step serving oracle instants w (.sweeps 0) :=
    fun _ => rfl
  have hinstant : ticked.instant = 1 := by decide +kernel
  rw [hnone] at hover
  rw [hone]
  refine ⟨hlive, (hover ?_).2⟩
  intro k hfirst hlast
  have hk : k = 1 := le_antisymm (hlast.trans (le_of_eq hinstant)) ((le_of_eq hinstant.symm).trans hfirst)
  subst hk
  exact ⟨a, ha, .inr (.inr (.inr hexpired))⟩

end Recall

end NodeLoop

end Tightbeam
