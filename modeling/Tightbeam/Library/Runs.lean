import Mathlib.Data.List.Induction

/-!
# Runs of a partial step

A run folds a step that may be undefined over its events. An invariant that every step keeps is kept by
every run, and where it also makes every step defined it makes every run defined.
-/
namespace Runs

variable {σ ε : Type} {step : σ → ε → Option σ} {Inv : σ → Prop}

theorem foldlM_snoc (s : σ) (events : List ε) (event : ε) :
    (events ++ [event]).foldlM step s = (events.foldlM step s).bind fun t => step t event := by
  simp only [List.foldlM_append, List.foldlM_cons, List.foldlM_nil, Option.bind_eq_bind]
  congr 1
  funext t
  cases step t event <;> rfl

/-- Whatever begins a run is a run. -/
theorem foldlM_begun {s t : σ} {done rest : List ε} (hrun : (done ++ rest).foldlM step s = some t) :
    ∃ middle, done.foldlM step s = some middle ∧ rest.foldlM step middle = some t := by
  rw [List.foldlM_append] at hrun
  exact Option.bind_eq_some_iff.mp hrun

theorem foldlM_trans {s t u : σ} (h : ∃ events : List ε, events.foldlM step s = some t)
    (h' : ∃ events : List ε, events.foldlM step t = some u) : ∃ events : List ε, events.foldlM step s = some u := by
  obtain ⟨events, hrun⟩ := h
  obtain ⟨more, hmore⟩ := h'
  refine ⟨events ++ more, ?_⟩
  rw [List.foldlM_append, hrun]
  exact hmore

theorem foldlM_keeps (hstep : ∀ s event t, Inv s → step s event = some t → Inv t) {s t : σ} (h : Inv s)
    {events : List ε} (hrun : events.foldlM step s = some t) : Inv t := by
  induction events using List.reverseRecOn generalizing t with
  | nil =>
    cases hrun
    exact h
  | append_singleton events event ih =>
    rw [foldlM_snoc, Option.bind_eq_some_iff] at hrun
    obtain ⟨earlier, hearlier, hlast⟩ := hrun
    exact hstep earlier event t (ih hearlier) hlast

/-- An invariant kept by the steps that meet a condition is kept by a run that meets it throughout. -/
theorem foldlM_keeps_while {Met : σ → ε → Prop}
    (hstep : ∀ s event t, Inv s → Met s event → step s event = some t → Inv t) {s t : σ} (h : Inv s)
    {events : List ε} (hrun : events.foldlM step s = some t)
    (hmet : ∀ done event rest earlier, events = done ++ event :: rest →
      done.foldlM step s = some earlier → Met earlier event) : Inv t := by
  induction events using List.reverseRecOn generalizing t with
  | nil =>
    cases hrun
    exact h
  | append_singleton events event ih =>
    rw [foldlM_snoc, Option.bind_eq_some_iff] at hrun
    obtain ⟨earlier, hearlier, hlast⟩ := hrun
    have hinv : Inv earlier := by
      apply ih hearlier
      intro done event' rest middle hsplit hmiddle
      exact hmet done event' (rest ++ [event]) middle (by simp [hsplit]) hmiddle
    exact hstep earlier event t hinv (hmet events event [] earlier rfl hearlier) hlast

/-- What a state holds lasts to the end of the run, or to a state on the way that is over with it. -/
theorem foldlM_until {Held Over : σ → Prop}
    (hkeeps : ∀ s event t, Inv s → step s event = some t → Inv t)
    (hstep : ∀ s event t, Inv s → Held s → step s event = some t → Held t ∨ Over t) {s t : σ}
    (h : Inv s) (hheld : Held s ∨ Over s) {events : List ε} (hrun : events.foldlM step s = some t) :
    Held t ∨ ∃ first rest middle, events = first ++ rest ∧ first.foldlM step s = some middle ∧ Over middle := by
  induction events using List.reverseRecOn generalizing t with
  | nil =>
    cases hrun
    rcases hheld with hheld | hover
    · exact .inl hheld
    · exact .inr ⟨[], [], s, rfl, rfl, hover⟩
  | append_singleton events event ih =>
    rw [foldlM_snoc, Option.bind_eq_some_iff] at hrun
    obtain ⟨earlier, hearlier, hlast⟩ := hrun
    rcases ih hearlier with hstill | ⟨first, rest, middle, hsplit, hfirst, hover⟩
    · rcases hstep earlier event t (foldlM_keeps hkeeps h hearlier) hstill hlast with hlasts | hover
      · exact .inl hlasts
      · refine .inr ⟨events ++ [event], [], t, by simp, ?_, hover⟩
        rw [foldlM_snoc, hearlier]
        exact hlast
    · exact .inr ⟨first, rest ++ [event], middle, by simp [hsplit], hfirst, hover⟩

/-- A run is one of a larger system where each of its steps is, on the way to where it ends. -/
theorem foldlM_lift {τ δ : Type} {step' : τ → δ → Option τ} (embed : σ → τ) (inject : ε → δ) {last : σ}
    (hstep : ∀ s event t (rest : List ε), step s event = some t → rest.foldlM step t = some last →
      step' (embed s) (inject event) = some (embed t)) {s : σ} {events : List ε}
    (hrun : events.foldlM step s = some last) : (events.map inject).foldlM step' (embed s) = some (embed last) := by
  induction events generalizing s with
  | nil =>
    cases hrun
    rfl
  | cons event events ih =>
    rw [List.foldlM_cons] at hrun
    obtain ⟨t, ht, hrest⟩ := Option.bind_eq_some_iff.mp hrun
    rw [List.map_cons, List.foldlM_cons, hstep s event t events ht hrest]
    exact ih hrest

theorem foldlM_total (hstep : ∀ s event, Inv s → ∃ t, step s event = some t ∧ Inv t) {s : σ} (h : Inv s)
    (events : List ε) : ∃ t, events.foldlM step s = some t ∧ Inv t := by
  induction events generalizing s with
  | nil => exact ⟨s, rfl, h⟩
  | cons event events ih =>
    obtain ⟨t, hnext, ht⟩ := hstep s event h
    obtain ⟨last, hlast, hinv⟩ := ih ht
    refine ⟨last, ?_, hinv⟩
    rw [List.foldlM_cons, hnext]
    exact hlast

end Runs
