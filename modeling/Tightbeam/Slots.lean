import Tightbeam.Admit

/-!
# The slots admission does not read

Two requests that differ only in a slot no rule reads are ruled on alike, pools included.
-/
namespace Tightbeam

variable {D : Deps}

/-- A name or a peer ruled on before any slot is read. -/
def Serving.RulesUnread (serving : Serving D) (peer : SessionPeer) (service : D.Service) : Prop :=
  (service.val ∈ serving.publicServices ∨ service.val ∈ serving.publicUnsafe) ∨
    serving.services.proven service.val ≠ none ∨
    (D.wantsCapability serving.gate = true ∧ peerProven peer.security = false)

/-- Slot 1 holds a slip that its badge in slot 2 must vouch for. -/
def AuthorityBound (D : Deps) (capability : Option String) : Prop :=
  ∃ text slip, capability = some text ∧ D.parseCap text = .ok slip ∧ D.isAuthorityBound slip = true

theorem parseMembership_unread {cap : Option D.Cap} (h : ∀ slip ∈ cap, D.isAuthorityBound slip = false)
    (membership : Option String) : parseMembership (D := D) cap membership = .ok none := by
  cases cap with
  | none => rfl
  | some slip => simp [parseMembership, h slip rfl]

theorem parseSlot_unbound {capability : Option String} (h : ¬ AuthorityBound D capability)
    {cap : Option D.Cap} (hcap : parseSlot capability = .ok cap) :
    ∀ slip ∈ cap, D.isAuthorityBound slip = false := by
  intro slip hslip
  cases hslip
  cases capability with
  | none => cases hcap
  | some text =>
    simp only [parseSlot] at hcap
    cases hparse : D.parseCap text with
    | error e =>
      rw [hparse] at hcap
      cases hcap
    | ok found =>
      rw [hparse] at hcap
      cases hcap
      by_contra hbound
      exact h ⟨text, slip, rfl, hparse, by simpa using hbound⟩

theorem admitFamily_unread {gate : Gate D.Base} {m : D.Moment} {peer : SessionPeer} {key : D.VerifyKey}
    {capability : Option String} {service : D.Service} (h : ¬ AuthorityBound D capability)
    (membership membership' : Option String) :
    admitFamily gate m peer key capability membership service =
      admitFamily gate m peer key capability membership' service := by
  unfold admitFamily
  cases hcap : parseSlot (D := D) capability with
  | error e => rfl
  | ok cap =>
    have hunbound := parseSlot_unbound h hcap
    have hleft := parseMembership_unread hunbound membership
    have hright := parseMembership_unread hunbound membership'
    simp only [bind, Except.bind, hleft, hright]

/-- Where no slot is read neither matters, and where slot 1 is no authority-bound slip slot 2 does not:
the ruling, its witness, the caps it is kept under and the pools are the same. So slot 2 on its own
admits nobody. -/
theorem unread_slots (serving : Serving D) (m : D.Moment) (now : SystemTime) (pools : Pools)
    (session : PublicSession) (peer : SessionPeer) (service : D.Service) :
    (serving.RulesUnread peer service → ∀ capability membership capability' membership',
      admitRequest serving m now pools session peer capability membership service =
        admitRequest serving m now pools session peer capability' membership' service) ∧
    (∀ capability, ¬ AuthorityBound D capability → ∀ membership membership',
      admitRequest serving m now pools session peer capability membership service =
        admitRequest serving m now pools session peer capability membership' service) ∧
    ∀ membership admitted,
      (admitRequest serving m now pools session peer none membership service).result = .ok admitted →
        (admitRequest serving m now pools session peer none none service).result = .ok admitted := by
  have hsecond : ∀ capability, ¬ AuthorityBound D capability → ∀ membership membership',
      admitRequest serving m now pools session peer capability membership service =
        admitRequest serving m now pools session peer capability membership' service := by
    intro capability hunbound membership membership'
    simp only [admitRequest, admitFamily_unread hunbound membership membership']
  refine ⟨?_, hsecond, ?_⟩
  · intro hunread capability membership capability' membership'
    unfold admitRequest
    cases hkey : peer.node.verifyKey D with
    | error e => rfl
    | ok key =>
      by_cases hopen : service.val ∈ serving.publicServices ∨ service.val ∈ serving.publicUnsafe
      · simp only [if_pos hopen]
      · simp only [if_neg hopen]
        cases hproven : serving.services.proven service.val with
        | some knows => rfl
        | none =>
          have hwants := (hunread.resolve_left hopen).resolve_left (by simp [hproven])
          simp only [admitFamily, if_pos hwants]
  · intro membership admitted h
    rw [hsecond none ?_ none membership]
    · exact h
    · intro hbound
      obtain ⟨text, slip, hsome, -⟩ := hbound
      cases hsome

theorem unread_slots_slip :
    let root := Vector.replicate 32 0
    let D := Deps.small root
    let web : D.Service := ⟨"web", by decide⟩
    let peer : SessionPeer := ⟨⟨.Ed25519, Vector.replicate 32 7⟩, ⟨.Proven⟩⟩
    let announced : SessionPeer := ⟨⟨.Ed25519, Vector.replicate 32 7⟩, ⟨.Announced⟩⟩
    let serving : Serving D := ⟨.rooted root, ∅, ∅, ⟨∅⟩, fun _ _ => true, none⟩
    admitRequest serving [] 0 Pools.new ⟨false⟩ peer (some "slip") (some "no token") web =
        admitRequest serving [] 0 Pools.new ⟨false⟩ peer (some "slip") none web ∧
      admitRequest serving [] 0 Pools.new ⟨false⟩ announced (some "badge") none web =
        admitRequest serving [] 0 Pools.new ⟨false⟩ announced none (some "badge") web := by
  intro root D web peer announced serving
  have hslip : ¬ AuthorityBound D (some "slip") := by
    intro hbound
    obtain ⟨text, slip, hsome, hparse, hslip⟩ := hbound
    cases hsome
    cases hparse
    cases hslip
  exact ⟨(unread_slots serving [] 0 Pools.new ⟨false⟩ peer web).2.1 (some "slip") hslip _ _,
    (unread_slots serving [] 0 Pools.new ⟨false⟩ announced web).1 (.inr (.inr ⟨rfl, rfl⟩)) _ _ _ _⟩

end Tightbeam
