import Mathlib.Order.Lattice
import Batsim.Lib.Runs

/-!
A system in time with timers beside it. A timer goes off once, at its date, and changes the state
of the system; until then it only keeps time from passing its date, and the run from ending.
-/

/-- A system in time. `sleep` lets time pass up to a date at which the system itself does nothing;
time never goes back from the states that are `valid`. -/
structure Timed (σ ι ε D τ : Type) [LinearOrder D] where
  step : σ → ι → Except ε σ
  sleep : σ → D → Except ε σ
  clock : σ → D
  date : τ → D
  fire : τ → σ → σ
  /-- what a choice that no run makes aborts with -/
  impossible : ε
  valid : σ → Prop
  step_valid : ∀ {x x' : σ} {i : ι}, valid x → step x i = .ok x' → valid x'
  sleep_valid : ∀ {x x' : σ} {d : D}, valid x → sleep x d = .ok x' → valid x'
  fire_valid : ∀ {x : σ} (t : τ), valid x → valid (fire t x)
  step_clock : ∀ {x x' : σ} {i : ι}, valid x → step x i = .ok x' → clock x ≤ clock x'
  sleep_clock : ∀ {x x' : σ} {d : D}, sleep x d = .ok x' → clock x ≤ d ∧ clock x' = d
  fire_clock : ∀ (t : τ) (x : σ), clock (fire t x) = clock x

/-- A state of the system with the timers that have not gone off. -/
structure WithTimers (σ τ : Type) where
  state : σ
  timers : List τ

inductive TimerChoice (ι D τ : Type) where
  /-- the system itself goes on -/
  | own (i : ι)
  /-- time passes until a timer goes off -/
  | sleep (d : D)
  | fire (t : τ)

namespace Timed

open StepSystem

variable {σ ι ε D τ : Type} [LinearOrder D] (T : Timed σ ι ε D τ)

/-- The timers that have gone off when time has passed `d`. -/
def early (d : D) (ts : List τ) : List τ := ts.filter fun t => T.date t ≤ d

@[simp] theorem mem_early {d : D} {t : τ} {ts : List τ} :
    t ∈ T.early d ts ↔ t ∈ ts ∧ T.date t ≤ d := by
  simp [early]

variable [DecidableEq τ]

def stepWith (s : WithTimers σ τ) : TimerChoice ι D τ → Except ε (WithTimers σ τ)
  | .own i =>
    match T.step s.state i with
    | .ok x => if ∀ t ∈ s.timers, T.clock x ≤ T.date t then .ok ⟨x, s.timers⟩
        else .error T.impossible
    | .error e => .error e
  | .sleep d =>
    if (∃ t ∈ s.timers, T.date t = d) ∧ ∀ t ∈ s.timers, d ≤ T.date t then
      match T.sleep s.state d with
      | .ok x => .ok ⟨x, s.timers⟩
      | .error e => .error e
    else .error T.impossible
  | .fire t =>
    if t ∈ s.timers ∧ T.date t = T.clock s.state then
      .ok ⟨T.fire t s.state, s.timers.erase t⟩
    else .error T.impossible

variable {T} {s s' r u : WithTimers σ τ} {c : TimerChoice ι D τ} {d : D} {t : τ} {ts us : List τ}

theorem early_erase : T.early d (ts.erase t) = (T.early d ts).erase t :=
  List.erase_filter.symm

/-- What a step of the system beside its timers is. -/
theorem stepWith_cases (h : T.stepWith s c = .ok s') :
    (∃ i x, c = .own i ∧ T.step s.state i = .ok x ∧ (∀ t ∈ s.timers, T.clock x ≤ T.date t) ∧
      s' = ⟨x, s.timers⟩) ∨
    (∃ d x, c = .sleep d ∧ T.sleep s.state d = .ok x ∧ (∃ t ∈ s.timers, T.date t = d) ∧
      (∀ t ∈ s.timers, d ≤ T.date t) ∧ s' = ⟨x, s.timers⟩) ∨
    (∃ t, c = .fire t ∧ t ∈ s.timers ∧ T.date t = T.clock s.state ∧
      s' = ⟨T.fire t s.state, s.timers.erase t⟩) := by
  cases c with
  | own i =>
    simp only [stepWith] at h
    split at h
    · next x hx =>
      split at h
      · next hall =>
        cases h
        exact .inl ⟨i, x, rfl, hx, hall, rfl⟩
      · cases h
    · cases h
  | sleep d =>
    simp only [stepWith] at h
    split at h
    · next hd =>
      split at h
      · next x hx =>
        cases h
        exact .inr (.inl ⟨d, x, rfl, hx, hd.1, hd.2, rfl⟩)
      · cases h
    · cases h
  | fire t =>
    simp only [stepWith] at h
    split at h
    · next ht =>
      cases h
      exact .inr (.inr ⟨t, rfl, ht.1, ht.2, rfl⟩)
    · cases h

theorem stepWith_valid (hv : T.valid s.state) (h : T.stepWith s c = .ok s') :
    T.valid s'.state := by
  obtain ⟨i, x, -, hx, -, rfl⟩ | ⟨d, x, -, hx, -, -, rfl⟩ | ⟨t, -, -, -, rfl⟩ := stepWith_cases h
  · exact T.step_valid hv hx
  · exact T.sleep_valid hv hx
  · exact T.fire_valid t hv

theorem stepWith_clock (hv : T.valid s.state) (h : T.stepWith s c = .ok s') :
    T.clock s.state ≤ T.clock s'.state := by
  obtain ⟨i, x, -, hx, -, rfl⟩ | ⟨d, x, -, hx, -, -, rfl⟩ | ⟨t, -, -, -, rfl⟩ := stepWith_cases h
  · exact T.step_clock hv hx
  · obtain ⟨hle, heq⟩ := T.sleep_clock hx
    exact heq ▸ hle
  · exact (T.fire_clock t s.state).ge

/-- Timers later than the clock reached play no part in a step. -/
theorem stepWith_agrees (h : T.stepWith s c = .ok s') (hd : T.clock s'.state ≤ d)
    (hstate : r.state = s.state) (hearly : T.early d r.timers = T.early d s.timers) :
    ∃ r', T.stepWith r c = .ok r' ∧ r'.state = s'.state ∧
      T.early d r'.timers = T.early d s'.timers := by
  have hmem : ∀ t, T.date t ≤ d → (t ∈ r.timers ↔ t ∈ s.timers) := by
    intro t ht
    have hiff : t ∈ T.early d r.timers ↔ t ∈ T.early d s.timers := by rw [hearly]
    simpa [ht] using hiff
  have hbound : ∀ {e : D}, e ≤ d → (∀ t ∈ s.timers, e ≤ T.date t) →
      ∀ t ∈ r.timers, e ≤ T.date t := by
    intro e he hall t ht
    rcases le_or_gt (T.date t) d with hle | hgt
    · exact hall t ((hmem t hle).mp ht)
    · exact he.trans hgt.le
  obtain ⟨i, x, rfl, hx, hall, rfl⟩ | ⟨e, x, rfl, hx, ⟨t, ht, hte⟩, hall, rfl⟩ |
    ⟨t, rfl, ht, hclock, rfl⟩ := stepWith_cases h
  · refine ⟨⟨x, r.timers⟩, ?_, rfl, hearly⟩
    simp only [stepWith, hstate, hx]
    rw [if_pos (hbound hd hall)]
  · rw [(T.sleep_clock hx).2] at hd
    refine ⟨⟨x, r.timers⟩, ?_, rfl, hearly⟩
    simp only [stepWith, hstate, hx]
    rw [if_pos ⟨⟨t, (hmem t (hte ▸ hd)).mpr ht, hte⟩, hbound hd hall⟩]
  · have hle : T.date t ≤ d := by
      rw [hclock, ← T.fire_clock t]
      exact hd
    refine ⟨⟨T.fire t r.state, r.timers.erase t⟩, ?_, by rw [hstate], ?_⟩
    · simp only [stepWith]
      rw [if_pos ⟨(hmem t hle).mpr ht, by rw [hstate, hclock]⟩]
    · rw [early_erase, early_erase, hearly]

variable {guard : WithTimers σ τ → TimerChoice ι D τ → Prop} {cs : List (TimerChoice ι D τ)}

theorem run_valid (hrun : Runs T.stepWith guard s cs u) (hv : T.valid s.state) :
    T.valid u.state := by
  induction hrun with
  | nil => exact hv
  | cons _ hstep _ ih => exact ih (stepWith_valid hv hstep)

theorem run_clock (hrun : Runs T.stepWith guard s cs u) (hv : T.valid s.state) :
    T.clock s.state ≤ T.clock u.state := by
  induction hrun with
  | nil => exact le_rfl
  | cons _ hstep _ ih => exact (stepWith_clock hv hstep).trans (ih (stepWith_valid hv hstep))

/-- Two systems whose timers agree up to a date take the same runs up to that date. -/
theorem run_agrees (hrun : Runs T.stepWith anyStep s cs u) (hv : T.valid s.state)
    (hd : T.clock u.state ≤ d) (hstate : r.state = s.state)
    (hearly : T.early d r.timers = T.early d s.timers) :
    ∃ v, Runs T.stepWith anyStep r cs v ∧ v.state = u.state ∧
      T.early d v.timers = T.early d u.timers := by
  induction hrun generalizing r with
  | nil s => exact ⟨r, .nil r, hstate, hearly⟩
  | cons _ hstep htail ih =>
    have hv' := stepWith_valid hv hstep
    obtain ⟨r', hr', hstate', hearly'⟩ :=
      stepWith_agrees hstep ((run_clock htail hv').trans hd) hstate hearly
    obtain ⟨v, hrun', hv, hearly''⟩ := ih hv' hd hstate' hearly'
    exact ⟨v, .cons trivial hr' hrun', hv, hearly''⟩

/-- No timer comes in. -/
theorem stepWith_mem (h : T.stepWith s c = .ok s') (ht : t ∈ s'.timers) : t ∈ s.timers := by
  obtain ⟨i, x, -, -, -, rfl⟩ | ⟨d, x, -, -, -, -, rfl⟩ | ⟨t', -, -, -, rfl⟩ := stepWith_cases h
  · exact ht
  · exact ht
  · exact List.mem_of_mem_erase ht

theorem run_mem (hrun : Runs T.stepWith guard s cs u) (ht : t ∈ u.timers) : t ∈ s.timers := by
  induction hrun with
  | nil => exact ht
  | cons _ hstep _ ih => exact stepWith_mem hstep (ih ht)

/-- A timer that is no longer there has gone off, at its date. -/
theorem run_fired (hrun : Runs T.stepWith guard s cs u) (hv : T.valid s.state) (ht : t ∈ s.timers) :
    t ∈ u.timers ∨ T.date t ≤ T.clock u.state := by
  induction hrun with
  | nil => exact .inl ht
  | cons _ hstep htail ih =>
    have hv' := stepWith_valid hv hstep
    obtain ⟨i, x, -, -, -, rfl⟩ | ⟨d, x, -, -, -, -, rfl⟩ | ⟨t', -, -, hclock, rfl⟩ :=
      stepWith_cases hstep
    · exact ih hv' ht
    · exact ih hv' ht
    · by_cases heq : t = t'
      · subst heq
        have hle := run_clock htail hv'
        rw [T.fire_clock] at hle
        exact .inr (hclock ▸ hle)
      · exact ih hv' ((List.mem_erase_of_ne heq).mpr ht)

/-- No timer is later than the date reached if there was none in the beginning. -/
theorem run_until_iff (hrun : Runs T.stepWith guard s cs u) (hv : T.valid s.state) :
    (∀ t ∈ u.timers, T.date t ≤ T.clock u.state) ↔
      ∀ t ∈ s.timers, T.date t ≤ T.clock u.state := by
  constructor
  · intro h t ht
    rcases run_fired hrun hv ht with hmem | hle
    · exact h t hmem
    · exact hle
  · exact fun h t ht => h t (run_mem hrun ht)

/-- The system itself takes no time. -/
def Still (T : Timed σ ι ε D τ) (s : WithTimers σ τ) : TimerChoice ι D τ → Prop
  | .own i => ∀ x, T.step s.state i = .ok x → T.clock x = T.clock s.state
  | _ => True

theorem run_still (hrun : Runs T.stepWith T.Still s cs u)
    (hts : ∀ t ∈ s.timers, T.date t ≤ T.clock s.state) : T.clock u.state = T.clock s.state := by
  induction hrun with
  | nil => rfl
  | cons hg hstep _ ih =>
    obtain ⟨i, x, rfl, hx, -, rfl⟩ | ⟨d, x, rfl, hx, ⟨t, ht, htd⟩, -, rfl⟩ | ⟨t, rfl, -, -, rfl⟩ :=
      stepWith_cases hstep
    · have hclock : T.clock x = T.clock _ := hg x hx
      exact (ih fun t ht => hclock ▸ hts t ht).trans hclock
    · obtain ⟨hle, hclock⟩ := T.sleep_clock hx
      have heq : T.clock x = T.clock _ := hclock.trans (le_antisymm (htd ▸ hts t ht) hle)
      exact (ih fun t ht => heq ▸ hts t ht).trans heq
    · have hclock := T.fire_clock t
      rw [ih fun t' ht' => by rw [hclock]; exact hts t' (List.mem_of_mem_erase ht'), hclock]

theorem still_of_clock (hrun : Runs T.stepWith guard s cs u) (hv : T.valid s.state)
    (h : T.clock u.state = T.clock s.state) : Runs T.stepWith T.Still s cs u := by
  induction hrun with
  | nil s => exact .nil s
  | @cons s s' u c cs hg hstep htail ih =>
    have hv' := stepWith_valid hv hstep
    have hclock : T.clock s'.state = T.clock s.state :=
      le_antisymm (h ▸ run_clock htail hv') (stepWith_clock hv hstep)
    refine .cons ?_ hstep (ih hv' (h.trans hclock.symm))
    obtain ⟨i, x, rfl, hx, -, rfl⟩ | ⟨d, x, rfl, -⟩ | ⟨t, rfl, -⟩ := stepWith_cases hstep
    · intro x' hx'
      cases hx.symm.trans hx'
      exact hclock
    · trivial
    · trivial

/-- A run without timers at the end takes no time exactly if the system itself takes none and no
timer was late. -/
theorem takes_no_time_iff (hrun : Runs T.stepWith guard s cs u) (hv : T.valid s.state)
    (hend : u.timers = []) : T.clock u.state = T.clock s.state ↔
      Runs T.stepWith T.Still s cs u ∧ ∀ t ∈ s.timers, T.date t ≤ T.clock s.state := by
  constructor
  · intro hclock
    refine ⟨still_of_clock hrun hv hclock, fun t ht => ?_⟩
    rcases run_fired hrun hv ht with hmem | hle
    · simp [hend] at hmem
    · exact hclock ▸ hle
  · exact fun h => run_still h.1 h.2

end Timed
