import Tightbeam.Splice

/-!
# The tunnel

A served stream has a splice at each end: the dialer's, between a local connection and the stream, and the
host's, between the stream and its target. Each direction of the stream hands the one end's octets to the
other in order. It ends where its writer is shut down or dropped, and the two look alike from afar.
-/
namespace Tightbeam

/-- What the reader at one end can be given next, of what the other end's writer was given. -/
def carries {ε : Type} (writer : Splice ε) (got items : List UInt8) : Bool :=
  if items.isEmpty then writer.closed && decide (got = writer.up.sunk)
  else (got ++ items).isPrefixOf writer.up.sunk

/-- Both ends name the half that writes to the stream `up`. -/
structure Tunnel (ε : Type) where
  near : Splice ε
  far : Splice ε

inductive TunnelEvent (ε : Type) where
  | near (event : SpliceEvent ε)
  | far (event : SpliceEvent ε)

namespace Tunnel

variable {ε : Type}

def new : Tunnel ε := ⟨.new, .new⟩

/-- A read from the stream gives what the other end wrote, or fails. Nothing else is bound to it. -/
def allowed (reader writer : Splice ε) : SpliceEvent ε → Bool
  | .down (.read (.ok items)) => carries writer reader.down.source items
  | _ => true

def step (t : Tunnel ε) : TunnelEvent ε → Option (Tunnel ε)
  | .near event =>
    if allowed t.near t.far event then (t.near.step event).map fun near => { t with near } else none
  | .far event =>
    if allowed t.far t.near event then (t.far.step event).map fun far => { t with far } else none

/-- The same tunnel from the other end. -/
def flip (t : Tunnel ε) : Tunnel ε := ⟨t.far, t.near⟩

/-- One direction of the stream: what was read of it was written to it, and its end was seen at its end. -/
structure Carried (writer reader : Splice ε) : Prop where
  begins : reader.down.source <+: writer.up.sunk
  ended : reader.down.ended = true → reader.down.source = writer.up.sunk ∧ writer.closed = true

variable {writer writer' reader reader' : Splice ε} {event : SpliceEvent ε}

/-- What a closed writer's half has put stays all there is. -/
theorem closed_live (hclosed : writer.closed = true) (hlive : writer.live = true) :
    writer.up.result = some (.ok ()) := by
  unfold Splice.closed at hclosed
  split at hclosed
  · rename_i hdone
    exact hdone
  · rw [hlive] at hclosed
    cases hclosed

theorem closed_of_done (h : writer.up.result = some (.ok ())) : writer.closed = true := by
  simp [Splice.closed, h]

theorem Carried.writes (h : Carried writer reader) (hmoves : Splice.Moves writer writer') :
    Carried writer' reader := by
  cases hmoves with
  | up hlive hup =>
    refine ⟨h.begins.trans hup.sunk_grows, fun hended => ?_⟩
    have hdone := closed_live (h.ended hended).2 hlive
    cases hup.live.symm.trans hdone
  | down hlive hdown =>
    refine ⟨h.begins, fun hended => ⟨(h.ended hended).1, ?_⟩⟩
    have hdone := closed_live (h.ended hended).2 hlive
    exact closed_of_done hdone
  | dropped hlive =>
    refine ⟨h.begins, fun hended => ⟨(h.ended hended).1, ?_⟩⟩
    have hdone := closed_live (h.ended hended).2 hlive
    exact closed_of_done hdone

theorem step_reads (h : reader.step event = some reader') :
    (∃ items, event = .down (.read (.ok items)) ∧ reader'.down = reader.down.take items) ∨
      reader'.down.source = reader.down.source ∧ reader'.down.ended = reader.down.ended := by
  unfold Splice.step at h
  split at h
  · cases h
  · cases event with
    | up event =>
      obtain ⟨p, hp, rfl⟩ := Option.map_eq_some_iff.mp h
      exact .inr ⟨rfl, rfl⟩
    | down event =>
      obtain ⟨p, hp, rfl⟩ := Option.map_eq_some_iff.mp h
      rcases Copier.step_source hp with ⟨items, rfl, hopen, rfl⟩ | hsame
      · exact .inl ⟨items, rfl, rfl⟩
      · exact .inr hsame
    | drop =>
      cases h
      exact .inr ⟨rfl, rfl⟩

theorem Carried.reads (h : Carried writer reader) (hallowed : allowed reader writer event = true)
    (hstep : reader.step event = some reader') : Carried writer reader' := by
  rcases step_reads hstep with ⟨items, rfl, hdown⟩ | ⟨hsource, hended⟩
  · simp only [allowed, carries] at hallowed
    cases items with
    | nil =>
      simp only [List.isEmpty_nil, ↓reduceIte, Bool.and_eq_true, decide_eq_true_eq] at hallowed
      have hsource : reader'.down.source = writer.up.sunk := by
        rw [hdown, ← hallowed.2]
        simp [Copier.take]
      exact ⟨hsource ▸ List.prefix_rfl, fun _ => ⟨hsource, hallowed.1⟩⟩
    | cons item items =>
      have hbegins : reader.down.source ++ item :: items <+: writer.up.sunk := by
        simpa using hallowed
      refine ⟨by rwa [hdown], fun hended => ?_⟩
      rw [hdown] at hended
      cases hended
  · refine ⟨by rw [hsource]; exact h.begins, fun hlast => ?_⟩
    rw [hsource]
    exact h.ended (hended.symm.trans hlast)

/-- Either end keeps what a splice keeps, and either direction what the stream does. -/
structure Inv (t : Tunnel ε) : Prop where
  near : t.near.Inv
  far : t.far.Inv
  out : Carried t.near t.far
  back : Carried t.far t.near

theorem carried_new : Carried (Splice.new : Splice ε) Splice.new := by
  refine ⟨List.prefix_rfl, fun hended => ?_⟩
  cases hended

theorem inv_new : (new : Tunnel ε).Inv := ⟨Splice.inv_new, Splice.inv_new, carried_new, carried_new⟩

theorem Inv.flip {t : Tunnel ε} (h : t.Inv) : t.flip.Inv := ⟨h.far, h.near, h.back, h.out⟩

theorem Inv.near_step {t : Tunnel ε} (h : t.Inv) {event : SpliceEvent ε} {near : Splice ε}
    (hallowed : allowed t.near t.far event = true) (hstep : t.near.step event = some near) :
    Inv { t with near } := by
  have hmoves := Splice.step_moves hstep
  exact ⟨h.near.moves hmoves, h.far, h.out.writes hmoves, h.back.reads hallowed hstep⟩

theorem step_near {t t' : Tunnel ε} (h : t.step (.near event) = some t') : ∃ near, t' = { t with near } ∧
    allowed t.near t.far event = true ∧ t.near.step event = some near := by
  simp only [Tunnel.step] at h
  split at h
  · rename_i hallowed
    obtain ⟨near, hnear, rfl⟩ := Option.map_eq_some_iff.mp h
    exact ⟨near, rfl, hallowed, hnear⟩
  · cases h

theorem step_far {t t' : Tunnel ε} (h : t.step (.far event) = some t') : ∃ far, t' = { t with far } ∧
    allowed t.far t.near event = true ∧ t.far.step event = some far := by
  simp only [Tunnel.step] at h
  split at h
  · rename_i hallowed
    obtain ⟨far, hfar, rfl⟩ := Option.map_eq_some_iff.mp h
    exact ⟨far, rfl, hallowed, hfar⟩
  · cases h

theorem Inv.step {t t' : Tunnel ε} (h : t.Inv) {event : TunnelEvent ε} (hstep : t.step event = some t') : t'.Inv := by
  cases event with
  | near event =>
    obtain ⟨near, rfl, hallowed, hnear⟩ := step_near hstep
    exact h.near_step hallowed hnear
  | far event =>
    obtain ⟨far, rfl, hallowed, hfar⟩ := step_far hstep
    exact (h.flip.near_step hallowed hfar).flip

theorem inv_run {events : List (TunnelEvent ε)} {t : Tunnel ε} (hrun : events.foldlM step new = some t) : t.Inv :=
  Runs.foldlM_keeps (fun _ _ _ hinv hstep => hinv.step hstep) inv_new hrun

/-- What one end's local side got of the other end's: its beginning; and, where it was told of the end, all
of it, unless the other end's splice was over before it had seen its own source end. -/
structure Delivers (writer reader : Splice ε) : Prop where
  begins : reader.down.sunk <+: writer.up.source
  ended : reader.down.result = some (.ok ()) →
    (writer.up.ended = true ∧ reader.down.sunk = writer.up.source) ∨
      (writer.up.result ≠ some (.ok ()) ∧ writer.live = false)

theorem Carried.delivers (h : Carried writer reader) (hwriter : writer.Inv) (hreader : reader.Inv) :
    Delivers writer reader := by
  refine ⟨hreader.down.sunk_begins.trans (h.begins.trans hwriter.up.sunk_begins), fun hdone => ?_⟩
  have hcopied := hreader.down.done hdone
  obtain ⟨hsource, hclosed⟩ := h.ended hcopied.ended
  by_cases hup : writer.up.result = some (.ok ())
  · have hsent := hwriter.up.done hup
    exact .inl ⟨hsent.ended, by rw [hcopied.sunk, hsource, hsent.sunk]⟩
  · refine .inr ⟨hup, ?_⟩
    cases hlive : writer.live with
    | false => rfl
    | true => exact absurd (closed_live hclosed hlive) hup

end Tunnel

/-- Along every run of a tunnel, with its two splices moving in any order and either one failing or dropped
at any moment, each local side gets the other one's octets in order and nothing else. An end it is told of
is the other side's own end, after all of its octets, or the loss of the other end's splice, which looks the
same. Where both splices return well, each side got all the other had. -/
theorem tunnel_exact {ε : Type} (events : List (TunnelEvent ε)) (t : Tunnel ε)
    (hrun : events.foldlM Tunnel.step Tunnel.new = some t) :
    Tunnel.Delivers t.near t.far ∧ Tunnel.Delivers t.far t.near ∧
    (t.near.result = some (.ok ()) → t.far.result = some (.ok ()) →
      t.far.down.sunk = t.near.up.source ∧ t.near.down.sunk = t.far.up.source) := by
  have hinv := Tunnel.inv_run hrun
  have hout := hinv.out.delivers hinv.near hinv.far
  have hback := hinv.back.delivers hinv.far hinv.near
  refine ⟨hout, hback, fun hnear hfar => ?_⟩
  obtain ⟨hnearUp, hnearDown⟩ := Splice.result_ok.mp hnear
  obtain ⟨hfarUp, hfarDown⟩ := Splice.result_ok.mp hfar
  constructor
  · rcases hout.ended hfarDown with ⟨-, hall⟩ | ⟨hlost, -⟩
    · exact hall
    · exact absurd hnearUp hlost
  · rcases hback.ended hnearDown with ⟨-, hall⟩ | ⟨hlost, -⟩
    · exact hall
    · exact absurd hfarUp hlost

theorem tunnel_exact_octet : ∃ t : Tunnel Unit, t.far.down.sunk = [7] ∧ t.near.down.sunk = [] ∧
    Tunnel.Delivers t.near t.far := by
  let ends : List (Copier.Event UInt8 Unit) := [.read (.ok []), .flush (.ok ()), .finish (.ok ())]
  have hrun := tunnel_exact
    ([.near (.up (.read (.ok [7]))), .near (.up (.write (.ok 1))), .far (.down (.read (.ok [7]))),
      .far (.down (.write (.ok 1)))] ++ ends.map (.near ∘ .up) ++ ends.map (.far ∘ .down) ++
      ends.map (.far ∘ .up) ++ ends.map (.near ∘ .down)) _ rfl
  exact ⟨_, (hrun.2.2 rfl rfl).1, (hrun.2.2 rfl rfl).2, hrun.1⟩

end Tightbeam
