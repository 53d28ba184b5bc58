import Tightbeam.Tunnel

/-!
# What a tunnel can still carry

A tunnel whose ends are both up is never stuck: it can still end well, whatever it holds and whatever each
local side still has. The loopback reflector is the host's end that copies a stream back into itself.
-/
namespace Tightbeam

namespace Tunnel

variable {ε : Type}

/-- On the way to a copy that the stream carries, a copy reads only what the stream carries. -/
theorem allowed_first {writer : Splice ε} (reader : Splice ε) {p q : Copier UInt8 ε}
    {event : Copier.Event UInt8 ε} {events : List (Copier.Event UInt8 ε)}
    (hstep : reader.down.step copyBuffer event = some p)
    (hrest : events.foldlM (Copier.step copyBuffer) p = some q) (hcarried : Carried writer { reader with down := q }) :
    allowed reader writer (.down event) = true := by
  obtain ⟨hgrows, hended⟩ := Copier.run_grows hrest
  cases event with
  | read got =>
    cases got with
    | error error => rfl
    | ok items =>
      have htook := Copier.step_read hstep
      rw [htook] at hgrows hended
      cases items with
      | nil =>
        obtain ⟨hsame, hover⟩ := hended rfl
        obtain ⟨hall, hclosed⟩ := hcarried.ended hover
        have hsource : reader.down.source = writer.up.sunk := by
          rw [← hall, hsame]
          simp [Copier.take]
        simp [allowed, carries, hclosed, hsource]
      | cons item items =>
        have hbegins : reader.down.source ++ item :: items <+: writer.up.sunk := hgrows.trans hcarried.begins
        simpa [allowed, carries] using hbegins
  | write took => rfl
  | flush polled => rfl
  | finish polled => rfl

/-- A reader that has not failed can take all that was written for it, and where the writer is closed it can
end well with that. -/
theorem Carried.catches_up {writer reader : Splice ε} (h : Carried writer reader)
    (hreader : reader.down.Inv copyBuffer) (hfine : ∀ error, reader.down.result ≠ some (.error error)) (last : Bool)
    (hlast : reader.down.ended = true → last = true) (hclosed : last = true → writer.closed = true) :
    ∃ (events : List (Copier.Event UInt8 ε)) (q : Copier UInt8 ε),
      events.foldlM (Copier.step copyBuffer) reader.down = some q ∧ q.sunk = writer.up.sunk ∧
      (q.result = if last then some (.ok ()) else none) ∧ Carried writer { reader with down := q } := by
  obtain ⟨rest, hrest⟩ := h.begins
  have hmore : reader.down.ended = true → rest = [] ∧ last = true := by
    intro hended
    rw [← (h.ended hended).1] at hrest
    exact ⟨List.append_right_eq_self.mp hrest, hlast hended⟩
  obtain ⟨q, ⟨events, -, hrun⟩, hsource, hsunk, hended, hresult⟩ :=
    hreader.leads_on (by decide) hfine rest last hmore
  rw [hrest] at hsource
  refine ⟨events, q, hrun, hsunk.trans hsource, hresult, ⟨hsource ▸ List.prefix_rfl, fun hover => ⟨hsource, ?_⟩⟩⟩
  exact hclosed (hended.symm.trans hover)

variable {t : Tunnel ε}

/-- The near end's upward half runs as it would alone. -/
theorem lift_up (hdropped : t.near.dropped = false) (hdown : ∀ error, t.near.down.result ≠ some (.error error))
    {events : List (Copier.Event UInt8 ε)} {q : Copier UInt8 ε}
    (hrun : events.foldlM (Copier.step copyBuffer) t.near.up = some q) :
    (events.map fun event => TunnelEvent.near (.up event)).foldlM step t =
      some { t with near := { t.near with up := q } } := by
  refine Runs.foldlM_lift (fun p : Copier UInt8 ε => ({ t with near := { t.near with up := p } } : Tunnel ε))
    (fun event => TunnelEvent.near (.up event)) ?_ hrun
  intro p event p' rest hstep hrest
  have hnear := Splice.step_up hdropped hdown hstep
  simp [step, allowed, hnear]

/-- And so does its downward half, on its way to a copy that the stream carries. -/
theorem lift_down (hdropped : t.near.dropped = false) (hup : ∀ error, t.near.up.result ≠ some (.error error))
    {events : List (Copier.Event UInt8 ε)} {q : Copier UInt8 ε}
    (hrun : events.foldlM (Copier.step copyBuffer) t.near.down = some q)
    (hcarried : Carried t.far { t.near with down := q }) :
    (events.map fun event => TunnelEvent.near (.down event)).foldlM step t =
      some { t with near := { t.near with down := q } } := by
  refine Runs.foldlM_lift (fun p : Copier UInt8 ε => ({ t with near := { t.near with down := p } } : Tunnel ε))
    (fun event => TunnelEvent.near (.down event)) ?_ hrun
  intro p event p' rest hstep hrest
  have hallowed := allowed_first { t.near with down := p } hstep hrest ⟨hcarried.begins, hcarried.ended⟩
  have hnear := Splice.step_down hdropped hup hstep
  simp [step, hallowed, hnear]

end Tunnel

def TunnelEvent.flip {ε : Type} : TunnelEvent ε → TunnelEvent ε
  | .near event => .far event
  | .far event => .near event

namespace Tunnel

variable {ε : Type} {t t' : Tunnel ε}

theorem step_flip (event : TunnelEvent ε) : t.flip.step event.flip = (t.step event).map flip := by
  cases event with
  | near event =>
    cases hallowed : allowed t.near t.far event with
    | false => simp [TunnelEvent.flip, step, flip, hallowed]
    | true => cases hstep : t.near.step event <;> simp [TunnelEvent.flip, step, flip, hallowed, hstep]
  | far event =>
    cases hallowed : allowed t.far t.near event with
    | false => simp [TunnelEvent.flip, step, flip, hallowed]
    | true => cases hstep : t.far.step event <;> simp [TunnelEvent.flip, step, flip, hallowed, hstep]

theorem run_flip {events : List (TunnelEvent ε)} (hrun : events.foldlM step t = some t') :
    (events.map TunnelEvent.flip).foldlM step t.flip = some t'.flip := by
  induction events generalizing t with
  | nil =>
    cases hrun
    rfl
  | cons event events ih =>
    rw [List.foldlM_cons] at hrun
    obtain ⟨u, hu, hrest⟩ := Option.bind_eq_some_iff.mp hrun
    rw [List.map_cons, List.foldlM_cons, step_flip, hu]
    exact ih hrest

/-- A run leads from one tunnel to another. -/
def Reaches (t t' : Tunnel ε) : Prop := ∃ events : List (TunnelEvent ε), events.foldlM step t = some t'

theorem Reaches.trans {u : Tunnel ε} (h : t.Reaches t') (h' : t'.Reaches u) : t.Reaches u := Runs.foldlM_trans h h'

theorem Reaches.flip (h : t.Reaches t') : t.flip.Reaches t'.flip := by
  obtain ⟨events, hrun⟩ := h
  exact ⟨_, run_flip hrun⟩

theorem Inv.reaches (hinv : t.Inv) (h : t.Reaches t') : t'.Inv := by
  obtain ⟨events, hrun⟩ := h
  exact Runs.foldlM_keeps (fun _ _ _ hinv hstep => hinv.step hstep) hinv hrun

/-- An end that is up, and its upward half. -/
structure Up (s : Splice ε) : Prop where
  dropped : s.dropped = false
  up : ∀ error, s.up.result ≠ some (.error error)
  down : ∀ error, s.down.result ≠ some (.error error)

theorem up_of_live {s : Splice ε} (hlive : s.live = true) : Up s := by
  obtain ⟨hdropped, hup, hdown⟩ := Splice.live_halves hlive
  exact ⟨hdropped, hup, hdown⟩

theorem fine_of_done {p : Copier UInt8 ε} (hdone : p.result = some (.ok ())) :
    ∀ error, p.result ≠ some (.error error) := by
  intro error herror
  cases hdone.symm.trans herror

/-- An end that is up can send all that its local side still has. -/
theorem Inv.sends (hinv : t.Inv) (hnear : Up t.near) (more : List UInt8)
    (hmore : t.near.up.ended = true → more = []) :
    ∃ q : Copier UInt8 ε, t.Reaches { t with near := { t.near with up := q } } ∧ q.result = some (.ok ()) ∧
      q.sunk = t.near.up.source ++ more := by
  obtain ⟨q, ⟨events, -, hrun⟩, hdone, hsunk⟩ := Splice.half_done hinv.near.up hnear.up more hmore
  exact ⟨q, ⟨_, lift_up hnear.dropped hnear.down hrun⟩, hdone, hsunk⟩

/-- An end that is up can take all that a far end which is done has sent. -/
theorem Inv.takes (hinv : t.Inv) (hnear : Up t.near) (hdone : t.far.up.result = some (.ok ())) :
    ∃ q : Copier UInt8 ε, t.Reaches { t with near := { t.near with down := q } } ∧ q.result = some (.ok ()) ∧
      q.sunk = t.far.up.sunk := by
  obtain ⟨events, q, hrun, hsunk, hresult, hcarried⟩ := hinv.back.catches_up hinv.near.down hnear.down true
    (fun _ => rfl) (fun _ => closed_of_done hdone)
  exact ⟨q, ⟨_, lift_down hnear.dropped hnear.up hrun hcarried⟩, hresult, hsunk⟩

end Tunnel

/-- A tunnel is never stuck. While both its ends are up it can end well with everything its two local sides
had and all that either still has, whatever moved before and whatever its buffers hold. -/
theorem tunnel_finishes {ε : Type} (events : List (TunnelEvent ε)) (t : Tunnel ε)
    (hrun : events.foldlM Tunnel.step Tunnel.new = some t) (hnear : t.near.live = true) (hfar : t.far.live = true)
    (moreNear moreFar : List UInt8) (hmoreNear : t.near.up.ended = true → moreNear = [])
    (hmoreFar : t.far.up.ended = true → moreFar = []) :
    ∃ (rest : List (TunnelEvent ε)) (t' : Tunnel ε), rest.foldlM Tunnel.step t = some t' ∧
      t'.near.result = some (.ok ()) ∧ t'.far.result = some (.ok ()) ∧
      t'.far.down.sunk = t.near.up.source ++ moreNear ∧ t'.near.down.sunk = t.far.up.source ++ moreFar := by
  have hinv := Tunnel.inv_run hrun
  have hnear : Tunnel.Up t.near := Tunnel.up_of_live hnear
  have hfar : Tunnel.Up t.far := Tunnel.up_of_live hfar
  obtain ⟨nup, hfirst, hnup, hnupSunk⟩ := hinv.sends hnear moreNear hmoreNear
  have hinv₁ := hinv.reaches hfirst
  obtain ⟨fup, hsecond, hfup, hfupSunk⟩ := hinv₁.flip.sends hfar moreFar hmoreFar
  have hinv₂ := hinv₁.flip.reaches hsecond
  obtain ⟨fdown, hthird, hfdown, hfdownSunk⟩ :=
    hinv₂.takes ⟨hfar.dropped, Tunnel.fine_of_done hfup, hfar.down⟩ hnup
  have hinv₃ := hinv₂.reaches hthird
  obtain ⟨ndown, hfourth, hndown, hndownSunk⟩ :=
    hinv₃.flip.takes ⟨hnear.dropped, Tunnel.fine_of_done hnup, hnear.down⟩ hfup
  obtain ⟨rest, hrest⟩ := hfirst.trans (hsecond.flip.trans (hthird.flip.trans hfourth))
  refine ⟨rest, _, hrest, ?_, ?_, ?_, ?_⟩
  · exact Splice.result_ok.mpr ⟨hnup, hndown⟩
  · exact Splice.result_ok.mpr ⟨hfup, hfdown⟩
  · exact hfdownSunk.trans hnupSunk
  · exact hndownSunk.trans hfupSunk

theorem tunnel_finishes_octets : ∃ (t t' : Tunnel Unit) (rest : List (TunnelEvent Unit)),
    t.near.up.held = [7] ∧ rest.foldlM Tunnel.step t = some t' ∧ t'.far.down.sunk = [7, 8] ∧
      t'.near.down.sunk = [9] := by
  obtain ⟨rest, t', hrun, -, -, hout, hback⟩ := @tunnel_finishes Unit [.near (.up (.read (.ok [7])))] _
    rfl rfl rfl [8] [9] (by intro h; cases h) (by intro h; cases h)
  exact ⟨_, t', rest, rfl, hrun, hout, hback⟩

/-- `Echo::serve` behind a tunnel: the host's end copies the stream back into itself, and shuts it down at its
end. It may be dropped where it stands. -/
structure EchoTunnel (ε : Type) where
  near : Splice ε
  echo : Copier UInt8 ε
  dropped : Bool

inductive EchoEvent (ε : Type) where
  | near (event : SpliceEvent ε)
  | echo (event : Copier.Event UInt8 ε)
  | drop

namespace EchoTunnel

variable {ε : Type}

def new : EchoTunnel ε := ⟨.new, .new, false⟩

/-- The host's end as the stream sees it: what it reads and what it writes are one copy's. -/
def host (t : EchoTunnel ε) : Splice ε := ⟨t.echo, t.echo, t.dropped⟩

def step (t : EchoTunnel ε) : EchoEvent ε → Option (EchoTunnel ε)
  | .near event =>
    if Tunnel.allowed t.near t.host event then (t.near.step event).map fun near => { t with near } else none
  | .echo event =>
    if !t.dropped && Tunnel.allowed t.host t.near (.down event) then
      (t.echo.step copyBuffer event).map fun echo => { t with echo }
    else none
  | .drop => if t.dropped then none else some { t with dropped := true }

structure Inv (t : EchoTunnel ε) : Prop where
  near : t.near.Inv
  echo : t.echo.Inv copyBuffer
  out : Tunnel.Carried t.near t.host
  back : Tunnel.Carried t.host t.near

theorem inv_new : (new : EchoTunnel ε).Inv :=
  ⟨Splice.inv_new, Copier.inv_new, Tunnel.carried_new, Tunnel.carried_new⟩

variable {t t' : EchoTunnel ε}

theorem host_live (hdropped : t.dropped = false) (hecho : t.echo.result = none) : t.host.live = true := by
  simp [host, Splice.live, Splice.result, hdropped, hecho]

theorem Inv.echo_step (h : t.Inv) {event : Copier.Event UInt8 ε} {echo : Copier UInt8 ε}
    (hdropped : t.dropped = false) (hallowed : Tunnel.allowed t.host t.near (.down event) = true)
    (hstep : t.echo.step copyBuffer event = some echo) : Inv { t with echo } := by
  have hmoves := Copier.step_moves hstep
  have hlive := host_live hdropped hmoves.live
  have hdown : t.host.step (.down event) = some { t.host with down := echo } := by
    have hhost : t.host.down.step copyBuffer event = some echo := hstep
    simp [Splice.step, hlive, hhost]
  have hread := h.out.reads hallowed hdown
  -- The one copy moves as the half that reads and as the half that writes.
  have hwrote := h.back.writes (.up hlive hmoves)
  refine ⟨h.near, h.echo.moves hmoves, ⟨hread.begins, hread.ended⟩, ⟨hwrote.begins, fun hended => ?_⟩⟩
  obtain ⟨hsource, hclosed⟩ := hwrote.ended hended
  refine ⟨hsource, ?_⟩
  have hbefore : t.host.down.result = none := hmoves.live
  cases hresult : echo.result with
  | none => simp [Splice.closed, Splice.live, Splice.result, host, hresult, hdropped, hmoves.live] at hclosed
  | some outcome =>
    cases outcome with
    | ok _ => simp [Splice.closed, host, hresult]
    | error error => simp [Splice.closed, Splice.live, Splice.result, host, hresult]

theorem Inv.step (h : t.Inv) {event : EchoEvent ε} (hstep : t.step event = some t') : t'.Inv := by
  cases event with
  | near event =>
    simp only [EchoTunnel.step] at hstep
    split at hstep
    · rename_i hallowed
      obtain ⟨near, hnear, rfl⟩ := Option.map_eq_some_iff.mp hstep
      have hmoves := Splice.step_moves hnear
      exact ⟨h.near.moves hmoves, h.echo, h.out.writes hmoves, h.back.reads hallowed hnear⟩
    · cases hstep
  | echo event =>
    simp only [EchoTunnel.step] at hstep
    split at hstep
    · rename_i hguard
      simp only [Bool.and_eq_true, Bool.not_eq_true'] at hguard
      obtain ⟨echo, hecho, rfl⟩ := Option.map_eq_some_iff.mp hstep
      exact h.echo_step hguard.1 hguard.2 hecho
    · cases hstep
  | drop =>
    simp only [EchoTunnel.step] at hstep
    split at hstep
    · cases hstep
    · rw [← Option.some.inj hstep]
      refine ⟨h.near, h.echo, ⟨h.out.begins, h.out.ended⟩, ⟨h.back.begins, fun hended => ?_⟩⟩
      obtain ⟨hsource, hclosed⟩ := h.back.ended hended
      refine ⟨hsource, ?_⟩
      cases hresult : t.echo.result with
      | none => simp [Splice.closed, Splice.live, host, hresult]
      | some outcome => cases outcome <;> simp [Splice.closed, Splice.live, host, hresult]

theorem inv_run {events : List (EchoEvent ε)} (hrun : events.foldlM step new = some t) : t.Inv :=
  Runs.foldlM_keeps (fun _ _ _ hinv hstep => hinv.step hstep) inv_new hrun

theorem lift_near {event : SpliceEvent ε} {near : Splice ε} (hallowed : Tunnel.allowed t.near t.host event = true)
    (hstep : t.near.step event = some near) : t.step (.near event) = some { t with near } := by
  simp [step, hallowed, hstep]

theorem lift_echo {event : Copier.Event UInt8 ε} {echo : Copier UInt8 ε} (hdropped : t.dropped = false)
    (hallowed : Tunnel.allowed t.host t.near (.down event) = true)
    (hstep : t.echo.step copyBuffer event = some echo) : t.step (.echo event) = some { t with echo } := by
  simp [step, hdropped, hallowed, hstep]

theorem Inv.run (h : t.Inv) {events : List (EchoEvent ε)} (hrun : events.foldlM EchoTunnel.step t = some t') :
    t'.Inv :=
  Runs.foldlM_keeps (fun _ _ _ hinv hstep => hinv.step hstep) h hrun

/-- A dialer that is up can send all that its local side still has. -/
theorem Inv.sends (h : t.Inv) (hnear : Tunnel.Up t.near) (more : List UInt8)
    (hmore : t.near.up.ended = true → more = []) :
    ∃ (events : List (EchoEvent ε)) (up : Copier UInt8 ε),
      events.foldlM EchoTunnel.step t = some { t with near := { t.near with up } } ∧
      up.result = some (.ok ()) ∧ up.sunk = t.near.up.source ++ more := by
  obtain ⟨up, ⟨ups, -, hups⟩, hdone, hsunk⟩ := Splice.half_done h.near.up hnear.up more hmore
  refine ⟨ups.map fun event => EchoEvent.near (.up event), up, ?_, hdone, hsunk⟩
  refine Runs.foldlM_lift (fun p : Copier UInt8 ε => ({ t with near := { t.near with up := p } } : EchoTunnel ε))
    (fun event => EchoEvent.near (.up event)) ?_ hups
  intro p event p' rest hstep hrest
  exact lift_near rfl (Splice.step_up hnear.dropped hnear.down hstep)

/-- The reflector can send back all that a dialer which is done has sent. -/
theorem Inv.reflects (h : t.Inv) (hhost : Tunnel.Up t.host) (hdone : t.near.up.result = some (.ok ())) :
    ∃ (events : List (EchoEvent ε)) (echo : Copier UInt8 ε),
      events.foldlM EchoTunnel.step t = some { t with echo } ∧
      echo.result = some (.ok ()) ∧ echo.sunk = t.near.up.sunk := by
  obtain ⟨events, echo, hrun, hsunk, hresult, hcarried⟩ := h.out.catches_up h.echo hhost.up true
    (fun _ => rfl) (fun _ => Tunnel.closed_of_done hdone)
  refine ⟨events.map EchoEvent.echo, echo, ?_, hresult, hsunk⟩
  refine Runs.foldlM_lift (fun p : Copier UInt8 ε => ({ t with echo := p } : EchoTunnel ε)) EchoEvent.echo ?_ hrun
  intro p event p' rest hstep hrest
  have hallowed := Tunnel.allowed_first (host { t with echo := p }) hstep hrest ⟨hcarried.begins, hcarried.ended⟩
  exact lift_echo hhost.dropped hallowed hstep

/-- And the dialer can take it. -/
theorem Inv.returns (h : t.Inv) (hnear : Tunnel.Up t.near) (hdone : t.echo.result = some (.ok ())) :
    ∃ (events : List (EchoEvent ε)) (down : Copier UInt8 ε),
      events.foldlM EchoTunnel.step t = some { t with near := { t.near with down } } ∧
      down.result = some (.ok ()) ∧ down.sunk = t.echo.sunk := by
  have hclosed : t.host.closed = true := Tunnel.closed_of_done hdone
  obtain ⟨events, down, hrun, hsunk, hresult, hcarried⟩ := h.back.catches_up h.near.down hnear.down true
    (fun _ => rfl) (fun _ => hclosed)
  refine ⟨events.map fun event => EchoEvent.near (.down event), down, ?_, hresult, hsunk⟩
  refine Runs.foldlM_lift (fun p : Copier UInt8 ε => ({ t with near := { t.near with down := p } } : EchoTunnel ε))
    (fun event => EchoEvent.near (.down event)) ?_ hrun
  intro p event p' rest hstep hrest
  have hallowed := Tunnel.allowed_first { t.near with down := p } hstep hrest ⟨hcarried.begins, hcarried.ended⟩
  exact lift_near hallowed (Splice.step_down hnear.dropped hnear.up hstep)

end EchoTunnel

/-- A dialer of the reflector is only ever given back the beginning of what it sent itself, never an octet
more than the host got of it, and the host holds at most one copy buffer. Where both ends return well all of
it came back; and while both are up all of it, with all that the dialer still has, still can. -/
theorem echo_returns {ε : Type} (events : List (EchoEvent ε)) (t : EchoTunnel ε)
    (hrun : events.foldlM EchoTunnel.step EchoTunnel.new = some t) :
    t.near.down.sunk <+: t.near.up.source ∧
    t.echo.sunk.length ≤ t.echo.source.length ∧
    t.echo.source.length ≤ t.echo.sunk.length + copyBuffer ∧
    (t.near.result = some (.ok ()) → t.echo.result = some (.ok ()) → t.near.down.sunk = t.near.up.source) ∧
    (t.near.live = true → t.host.live = true → ∀ more : List UInt8, (t.near.up.ended = true → more = []) →
      ∃ (rest : List (EchoEvent ε)) (t' : EchoTunnel ε), rest.foldlM EchoTunnel.step t = some t' ∧
        t'.near.result = some (.ok ()) ∧ t'.echo.result = some (.ok ()) ∧
        t'.near.down.sunk = t.near.up.source ++ more) := by
  have h := EchoTunnel.inv_run hrun
  have hlength := congrArg List.length h.echo.carried
  rw [List.length_append] at hlength
  have hbounded := h.echo.bounded
  refine ⟨?_, by omega, by omega, ?_, ?_⟩
  · have hback : t.near.down.sunk <+: t.echo.sunk := h.near.down.sunk_begins.trans h.back.begins
    have hout : t.echo.sunk <+: t.near.up.sunk := h.echo.sunk_begins.trans h.out.begins
    exact hback.trans (hout.trans h.near.up.sunk_begins)
  · intro hnear hecho
    obtain ⟨hup, hdown⟩ := Splice.result_ok.mp hnear
    have hsent := h.near.up.done hup
    have hgot := h.near.down.done hdown
    have hreflected := h.echo.done hecho
    have hout : t.echo.source = t.near.up.sunk := (h.out.ended hreflected.ended).1
    have hback : t.near.down.source = t.echo.sunk := (h.back.ended hgot.ended).1
    rw [hgot.sunk, hback, hreflected.sunk, hout, hsent.sunk]
  · intro hnear hhost more hmore
    have hnear : Tunnel.Up t.near := Tunnel.up_of_live hnear
    obtain ⟨first, up, hfirst, hup, hupSunk⟩ := h.sends hnear more hmore
    have h₁ := h.run hfirst
    obtain ⟨second, echo, hsecond, hecho, hechoSunk⟩ := h₁.reflects (Tunnel.up_of_live hhost) hup
    have h₂ := h₁.run hsecond
    obtain ⟨third, down, hthird, hdown, hdownSunk⟩ :=
      h₂.returns ⟨hnear.dropped, Tunnel.fine_of_done hup, hnear.down⟩ hecho
    refine ⟨first ++ (second ++ third), ⟨{ t.near with up, down }, echo, t.dropped⟩, ?_,
      Splice.result_ok.mpr ⟨hup, hdown⟩, hecho, ?_⟩
    · rw [List.foldlM_append, hfirst]
      change (second ++ third).foldlM EchoTunnel.step _ = _
      rw [List.foldlM_append, hsecond]
      exact hthird
    · exact hdownSunk.trans (hechoSunk.trans hupSunk)

theorem echo_returns_octets : ∃ t : EchoTunnel Unit, t.near.down.sunk = [7] ∧ t.near.up.source = [7, 8] ∧
    t.echo.sunk.length ≤ t.echo.source.length := by
  have hrun := @echo_returns Unit
    [.near (.up (.read (.ok [7, 8]))), .near (.up (.write (.ok 2))), .echo (.read (.ok [7, 8])),
      .echo (.write (.ok 1)), .near (.down (.read (.ok [7]))), .near (.down (.write (.ok 1)))] _ rfl
  exact ⟨_, rfl, rfl, hrun.2.1⟩

end Tightbeam
