import Tightbeam.Library.Octets

/-!
# Takers

A taker reads one whole blob through a cursor: it moves the cursor past what it takes and leaves it
where it is when it fails. A taker is exact for an encoding when, wherever it starts, it takes one
frame for each value and nothing else, and it is within a bound when it moves no further than that.
-/
namespace Octets

variable {ε α β : Type}

/-- The largest offset a cursor counts to. -/
def maxOffset : Nat := 18446744073709551615

/-- A taker of a blob, from a cursor: its result, and the cursor as it leaves it. -/
def Taker (ε α : Type) := List UInt8 → Nat → Except ε α × Nat

namespace Taker

def run (t : Taker ε α) (bytes : List UInt8) (cursor : Nat) : Except ε α × Nat := t bytes cursor

protected def pure (a : α) : Taker ε α := fun _ cursor => (.ok a, cursor)

protected def bind (t : Taker ε α) (k : α → Taker ε β) : Taker ε β := fun bytes cursor =>
  match t bytes cursor with
  | (.ok a, cursor) => k a bytes cursor
  | (.error e, cursor) => (.error e, cursor)

instance : Monad (Taker ε) where
  pure := Taker.pure
  bind := Taker.bind

def fail (e : ε) : Taker ε α := fun _ cursor => (.error e, cursor)

/-- A value already computed, or the reason it was not. -/
def lift (value : Except ε α) : Taker ε α := fun _ cursor => (value, cursor)

/-- `len` octets at the cursor. The end is a checked sum, so a blob is never indexed past it. -/
def take (overflow truncated : ε) (len : Nat) : Taker ε (List UInt8) := fun bytes cursor =>
  if maxOffset < cursor + len then (.error overflow, cursor)
  else if bytes.length < cursor + len then (.error truncated, cursor)
  else (.ok ((bytes.drop cursor).take len), cursor + len)

/-- That the whole blob was taken. -/
def done (trailing : ε) : Taker ε Unit := fun bytes cursor =>
  if cursor ≠ bytes.length then (.error trailing, cursor) else (.ok (), cursor)

theorem run_bind (t : Taker ε α) (k : α → Taker ε β) (bytes : List UInt8) (cursor : Nat) :
    (t >>= k).run bytes cursor = match t.run bytes cursor with
      | (.ok a, cursor) => (k a).run bytes cursor
      | (.error e, cursor) => (.error e, cursor) := rfl

@[simp] theorem run_pure (a : α) (bytes : List UInt8) (cursor : Nat) :
    (pure a : Taker ε α).run bytes cursor = (.ok a, cursor) := rfl

@[simp] theorem run_fail (e : ε) (bytes : List UInt8) (cursor : Nat) :
    (fail e : Taker ε α).run bytes cursor = (.error e, cursor) := rfl

theorem run_bind_ok (t : Taker ε α) (k : α → Taker ε β) (bytes : List UInt8) (cursor left : Nat) (b : β) :
    (t >>= k).run bytes cursor = (.ok b, left) ↔
      ∃ a mid, t.run bytes cursor = (.ok a, mid) ∧ (k a).run bytes mid = (.ok b, left) := by
  rw [run_bind]
  rcases ht : t.run bytes cursor with ⟨res, mid⟩
  cases res <;> simp

theorem run_done_ok (trailing : ε) (bytes : List UInt8) (cursor left : Nat) (u : Unit) :
    (done trailing).run bytes cursor = (.ok u, left) ↔ cursor = bytes.length ∧ left = cursor := by
  change (if cursor ≠ bytes.length then ((.error trailing : Except ε Unit), cursor) else (.ok (), cursor)) = _ ↔ _
  split
  · rename_i h
    simp [h]
  · rename_i h
    simp at h
    simp [h, eq_comm]

/-- The taker moves on by at most `n`, stays in the blob, and no checked sum of its fails. -/
structure Within (t : Taker ε α) (overflow : ε) (n : Nat) : Prop where
  onward : ∀ bytes cursor, cursor ≤ (t.run bytes cursor).2 ∧ (t.run bytes cursor).2 ≤ cursor + n
  inside : ∀ bytes cursor, cursor ≤ bytes.length → (t.run bytes cursor).2 ≤ bytes.length
  exact : ∀ bytes cursor, cursor + n ≤ maxOffset → (t.run bytes cursor).1 ≠ .error overflow

namespace Within

variable {overflow : ε} {n m : Nat} {t : Taker ε α} {k : α → Taker ε β}

theorem mono (h : Within t overflow n) (hle : n ≤ m) : Within t overflow m where
  onward := by
    intro bytes cursor
    have ho := h.onward bytes cursor
    omega
  inside := h.inside
  exact := by
    intro bytes cursor hroom
    exact h.exact bytes cursor (by omega)

theorem pure (a : α) : Within (pure a : Taker ε α) overflow 0 where
  onward := fun _ _ => ⟨le_refl _, le_refl _⟩
  inside := fun _ _ h => h
  exact := by
    intro _ _ _ h
    cases h

theorem fail {e : ε} (he : e ≠ overflow) : Within (fail e : Taker ε α) overflow 0 where
  onward := fun _ _ => ⟨le_refl _, le_refl _⟩
  inside := fun _ _ h => h
  exact := by
    intro _ _ _ h
    exact he (by simpa using h)

theorem lift {value : Except ε α} (hv : value ≠ .error overflow) : Within (lift value) overflow 0 where
  onward := fun _ _ => ⟨le_refl _, le_refl _⟩
  inside := fun _ _ h => h
  exact := fun _ _ _ => hv

theorem done {trailing : ε} (he : trailing ≠ overflow) : Within (done trailing) overflow 0 := by
  have hrun : ∀ bytes cursor, (Taker.done trailing).run bytes cursor =
      if cursor ≠ bytes.length then (.error trailing, cursor) else (.ok (), cursor) := fun _ _ => rfl
  refine ⟨?_, ?_, ?_⟩
  · intro bytes cursor
    rw [hrun]
    split <;> exact ⟨le_refl _, le_refl _⟩
  · intro bytes cursor h
    rw [hrun]
    split <;> exact h
  · intro bytes cursor _ h
    rw [hrun] at h
    split at h
    · exact he (by simpa using h)
    · cases h

theorem take {truncated : ε} (he : truncated ≠ overflow) (len : Nat) :
    Within (take overflow truncated len) overflow len := by
  have hrun : ∀ bytes cursor, (Taker.take overflow truncated len).run bytes cursor =
      if maxOffset < cursor + len then (.error overflow, cursor)
      else if bytes.length < cursor + len then (.error truncated, cursor)
      else (.ok ((bytes.drop cursor).take len), cursor + len) := fun _ _ => rfl
  refine ⟨?_, ?_, ?_⟩
  · intro bytes cursor
    rw [hrun]
    split
    · simp
    · split <;> simp
  · intro bytes cursor h
    rw [hrun]
    split
    · exact h
    · split
      · exact h
      · rename_i hin
        exact Nat.not_lt.mp hin
  · intro bytes cursor hroom h
    rw [hrun, if_neg (Nat.not_lt.mpr hroom)] at h
    split at h
    · exact he (by simpa using h)
    · cases h

/-- What the second taker may move by can depend on what the first one took. -/
theorem bind (h : Within t overflow n) (hk : ∀ a, Within (k a) overflow m) :
    Within (t >>= k) overflow (n + m) := by
  refine ⟨?_, ?_, ?_⟩
  · intro bytes cursor
    have ho := h.onward bytes cursor
    rw [run_bind]
    rcases hrun : t.run bytes cursor with ⟨res, mid⟩
    rw [hrun] at ho
    cases res with
    | error e =>
      simp only at ho ⊢
      omega
    | ok a =>
      have hm := (hk a).onward bytes mid
      simp only at ho hm ⊢
      omega
  · intro bytes cursor hin
    have hi := h.inside bytes cursor hin
    rw [run_bind]
    rcases hrun : t.run bytes cursor with ⟨res, mid⟩
    rw [hrun] at hi
    cases res with
    | error e => exact hi
    | ok a => exact (hk a).inside bytes mid hi
  · intro bytes cursor hroom
    have ho := h.onward bytes cursor
    have hx := h.exact bytes cursor (by omega)
    rw [run_bind]
    rcases hrun : t.run bytes cursor with ⟨res, mid⟩
    rw [hrun] at ho hx
    cases res with
    | error e => simpa using hx
    | ok a =>
      simp only at ho
      exact (hk a).exact bytes mid (by omega)

end Within

/-- `t` takes exactly the frames of the values in `P`, from anywhere in a blob. The cursor can count
past every frame it is asked to take. -/
structure Exact (t : Taker ε α) (P : α → Prop) (frame : α → List UInt8) : Prop where
  takes : ∀ before x after, P x → (before ++ frame x).length ≤ maxOffset →
    t.run (before ++ frame x ++ after) before.length = (.ok x, (before ++ frame x).length)
  taken : ∀ before s x left, t.run (before ++ s) before.length = (.ok x, left) →
    P x ∧ ∃ after, s = frame x ++ after ∧ left = (before ++ frame x).length

theorem take_exact (overflow truncated : ε) (len : Nat) :
    Exact (take overflow truncated len) (fun bs => bs.length = len) id := by
  have hrun : ∀ bytes cursor, (Taker.take overflow truncated len).run bytes cursor =
      if maxOffset < cursor + len then (.error overflow, cursor)
      else if bytes.length < cursor + len then (.error truncated, cursor)
      else (.ok ((bytes.drop cursor).take len), cursor + len) := fun _ _ => rfl
  constructor
  · intro before bs after hlen hroom
    subst hlen
    simp only [id, List.length_append] at hroom ⊢
    rw [hrun, if_neg (by omega), if_neg (by simp)]
    simp
  · intro before s bs left h
    rw [hrun] at h
    split at h
    · cases h
    · split at h
      · cases h
      · rename_i _ hin
        simp only [List.length_append] at hin
        simp only [List.drop_left, Prod.mk.injEq, Except.ok.injEq] at h
        obtain ⟨rfl, rfl⟩ := h
        refine ⟨by simp; omega, s.drop len, (List.take_append_drop len s).symm, ?_⟩
        simp
        omega

namespace Exact

variable {P : α → Prop} {f : α → List UInt8} {Q : α → β → Prop} {g : α → β → List UInt8}
  {t : Taker ε α} {k : α → Taker ε β}

/-- A sequence is exact when its value's frame splits in one way into the two frames. -/
theorem bind {R : β → Prop} {frame : β → List UInt8} (ht : Exact t P f) (hk : ∀ a, P a → Exact (k a) (Q a) (g a))
    (hsplit : ∀ b, R b → ∃ a, P a ∧ Q a b ∧ frame b = f a ++ g a b)
    (hjoin : ∀ a b, P a → Q a b → R b ∧ frame b = f a ++ g a b) : Exact (t >>= k) R frame := by
  constructor
  · intro before b after hb hroom
    obtain ⟨a, ha, hq, hframe⟩ := hsplit b hb
    rw [hframe] at hroom ⊢
    have hfirst := ht.takes before a (g a b ++ after) ha (by simp only [List.length_append] at *; omega)
    have hsecond := (hk a ha).takes (before ++ f a) b after hq (by simpa [List.append_assoc] using hroom)
    rw [run_bind_ok]
    refine ⟨a, (before ++ f a).length, ?_, ?_⟩
    · simpa only [List.append_assoc] using hfirst
    · simpa only [List.append_assoc] using hsecond
  · intro before s b left h
    obtain ⟨a, mid, hrun, hrest⟩ := (run_bind_ok _ _ _ _ _ _).mp h
    obtain ⟨ha, after, rfl, rfl⟩ := ht.taken before s a mid hrun
    rw [← List.append_assoc] at hrest
    obtain ⟨hq, last, rfl, rfl⟩ := (hk a ha).taken (before ++ f a) after b left hrest
    obtain ⟨hr, hframe⟩ := hjoin a b ha hq
    exact ⟨hr, last, by rw [hframe, List.append_assoc], by rw [hframe, List.append_assoc]⟩

theorem pure (a : α) : Exact (pure a : Taker ε α) (fun x => x = a) (fun _ => []) := by
  constructor
  · intro before x after hx _
    subst hx
    simp
  · intro before s x left h
    simp only [run_pure, Prod.mk.injEq, Except.ok.injEq] at h
    obtain ⟨rfl, rfl⟩ := h
    exact ⟨rfl, s, rfl, by simp⟩

theorem lift {value : Except ε α} (hv : ∀ x, value = .ok x ↔ P x) : Exact (lift value) P (fun _ => []) := by
  constructor
  · intro before x after hx _
    have hx' := (hv x).mpr hx
    subst hx'
    simp [Taker.lift, run]
  · intro before s x left h
    change (value, before.length) = _ at h
    obtain ⟨hvalue, rfl⟩ := Prod.mk.inj h
    exact ⟨(hv x).mp hvalue, s, rfl, by simp⟩

/-- A taker that only fails takes the frames of nothing. -/
theorem fail (e : ε) (h : ∀ x, ¬ P x) : Exact (fail e) P f := by
  constructor
  · intro _ x _ hx
    exact absurd hx (h x)
  · intro _ _ _ _ hrun
    cases hrun

end Exact

end Taker

end Octets
