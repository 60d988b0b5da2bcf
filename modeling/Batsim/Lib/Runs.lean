import Mathlib.Data.List.Basic

/-!
Transition systems whose steps may abort, and the states their runs reach.
-/

/-- A start state and a step that takes the choice made by the environment. -/
structure StepSystem (σ ι ε : Type) where
  start : σ
  step : σ → ι → Except ε σ

namespace StepSystem

variable {σ ι ε : Type}

/-- The states reached by the runs whose every step, taken in state `s` under choice `i`,
satisfies `guard s i`. -/
inductive Reaches (sys : StepSystem σ ι ε) (guard : σ → ι → Prop) : σ → Prop
  | start : Reaches sys guard sys.start
  | step {s s' : σ} {i : ι} : Reaches sys guard s → guard s i → sys.step s i = .ok s' →
      Reaches sys guard s'

/-- The guard of the runs without restriction. -/
def anyStep : σ → ι → Prop := fun _ _ => True

instance (s : σ) (i : ι) : Decidable (anyStep s i) := inferInstanceAs (Decidable True)

variable {sys : StepSystem σ ι ε} {guard : σ → ι → Prop}

/-- Invariant rule. The step may use that its source is reached, so invariants proved before
are at hand. -/
theorem Reaches.invariant {P : σ → Prop} (hstart : P sys.start)
    (hstep : ∀ s s' i, Reaches sys guard s → P s → guard s i → sys.step s i = .ok s' → P s')
    {s : σ} (h : Reaches sys guard s) : P s := by
  induction h with
  | start => exact hstart
  | step hr hg hs ih => exact hstep _ _ _ hr ih hg hs

theorem Reaches.mono {guard' : σ → ι → Prop} (himp : ∀ s i, guard s i → guard' s i) {s : σ}
    (h : Reaches sys guard s) : Reaches sys guard' s := by
  induction h with
  | start => exact .start
  | step _ hg hs ih => exact .step ih (himp _ _ hg) hs

theorem Reaches.unguarded {s : σ} (h : Reaches sys guard s) : Reaches sys anyStep s :=
  h.mono fun _ _ _ => trivial

/-- The states that a guarded run has visited, the latest first. -/
inductive Visits (sys : StepSystem σ ι ε) (guard : σ → ι → Prop) : List σ → Prop
  | start : Visits sys guard [sys.start]
  | step {s s' : σ} {past : List σ} {i : ι} : Visits sys guard (s :: past) → guard s i →
      sys.step s i = .ok s' → Visits sys guard (s' :: s :: past)

theorem Visits.reaches {s : σ} {past : List σ} (h : Visits sys guard (s :: past)) :
    Reaches sys guard s := by
  generalize hrun : s :: past = run at h
  induction h generalizing s past with
  | start =>
    cases hrun
    exact .start
  | step _ hg hs ih =>
    cases hrun
    exact .step (ih rfl) hg hs

theorem Visits.reaches_mem {run : List σ} (h : Visits sys guard run) {u : σ} (hu : u ∈ run) :
    Reaches sys guard u := by
  induction h with
  | start =>
    rw [List.mem_singleton.mp hu]
    exact .start
  | step hvisits hg hs ih =>
    rcases List.mem_cons.mp hu with rfl | hu
    · exact .step hvisits.reaches hg hs
    · exact ih hu

theorem Reaches.visits {s : σ} (h : Reaches sys guard s) :
    ∃ past, Visits sys guard (s :: past) := by
  induction h with
  | start => exact ⟨[], .start⟩
  | step _ hg hs ih =>
    obtain ⟨past, hvisits⟩ := ih
    exact ⟨_, .step hvisits hg hs⟩

/-- Invariant rule for properties of a run so far. -/
theorem Visits.invariant {P : σ → List σ → Prop} (hstart : P sys.start [])
    (hstep : ∀ s s' past i, Reaches sys guard s → P s past → guard s i → sys.step s i = .ok s' →
      P s' (s :: past))
    {s : σ} {past : List σ} (h : Visits sys guard (s :: past)) : P s past := by
  generalize hrun : s :: past = run at h
  induction h generalizing s past with
  | start =>
    cases hrun
    exact hstart
  | step hvisits hg hs ih =>
    cases hrun
    exact hstep _ _ _ _ hvisits.reaches (ih rfl) hg hs

/-- The system with a record that each of its steps updates, and that no step reads. -/
def observe {γ : Type} (sys : StepSystem σ ι ε) (blank : γ) (record : γ → σ → ι → σ → γ) :
    StepSystem (σ × γ) ι ε where
  start := (sys.start, blank)
  step x i :=
    match sys.step x.1 i with
    | .ok s => .ok (s, record x.2 x.1 i s)
    | .error e => .error e

section observe

variable {γ : Type} {blank : γ} {record : γ → σ → ι → σ → γ}

theorem observe_step_eq_ok {x y : σ × γ} {i : ι} :
    (sys.observe blank record).step x i = .ok y ↔
      sys.step x.1 i = .ok y.1 ∧ y.2 = record x.2 x.1 i y.1 := by
  obtain ⟨s, r⟩ := y
  simp only [observe]
  split
  · next t ht =>
    rw [ht, Except.ok.injEq, Except.ok.injEq, Prod.mk.injEq]
    constructor
    · rintro ⟨rfl, rfl⟩
      exact ⟨rfl, rfl⟩
    · rintro ⟨rfl, rfl⟩
      exact ⟨rfl, rfl⟩
  · next e he => simp [he]

theorem Reaches.of_observe {x : σ × γ}
    (h : Reaches (sys.observe blank record) (fun x i => guard x.1 i) x) :
    Reaches sys guard x.1 := by
  induction h with
  | start => exact .start
  | step _ hg hs ih => exact .step ih hg (observe_step_eq_ok.mp hs).1

/-- Observing a run does not restrict it. -/
theorem Reaches.observed {s : σ} (h : Reaches sys guard s) :
    ∃ r, Reaches (sys.observe blank record) (fun x i => guard x.1 i) (s, r) := by
  induction h with
  | start => exact ⟨blank, .start⟩
  | @step s s' i _ hg hs ih =>
    obtain ⟨r, hr⟩ := ih
    exact ⟨record r s i s', .step hr hg (observe_step_eq_ok.mpr ⟨hs, rfl⟩)⟩

end observe

/-- Run a list of choices, each made in view of the state it is taken in, checking the guard
before each step. -/
def runFrom (sys : StepSystem σ ι ε) (guard : σ → ι → Prop) [∀ s i, Decidable (guard s i)] :
    σ → List (σ → ι) → Option σ
  | s, [] => some s
  | s, choose :: is =>
    if guard s (choose s) then
      match sys.step s (choose s) with
      | .ok s' => runFrom sys guard s' is
      | .error _ => none
    else none

theorem Reaches.of_runFrom [∀ s i, Decidable (guard s i)] {is : List (σ → ι)} {s s' : σ}
    (hs : Reaches sys guard s) (h : sys.runFrom guard s is = some s') :
    Reaches sys guard s' := by
  induction is generalizing s with
  | nil =>
    simp only [runFrom, Option.some.injEq] at h
    exact h ▸ hs
  | cons choose is ih =>
    simp only [runFrom] at h
    split at h
    · next hg =>
      split at h
      · next t ht => exact ih (.step hs hg ht) h
      · cases h
    · cases h

/-- The run from `s` to `s'` under a list of choices, its steps satisfying `guard`. -/
inductive Runs (step : σ → ι → Except ε σ) (guard : σ → ι → Prop) : σ → List ι → σ → Prop
  | nil (s : σ) : Runs step guard s [] s
  | cons {s s' s'' : σ} {i : ι} {is : List ι} : guard s i → step s i = .ok s' →
      Runs step guard s' is s'' → Runs step guard s (i :: is) s''

theorem Runs.concat {step : σ → ι → Except ε σ} {s s' s'' : σ} {is : List ι} {i : ι}
    (hrun : Runs step guard s is s') (hg : guard s' i) (hstep : step s' i = .ok s'') :
    Runs step guard s (is ++ [i]) s'' := by
  induction hrun with
  | nil s => exact .cons hg hstep (.nil s'')
  | cons hg' hstep' _ ih => exact .cons hg' hstep' (ih hg hstep)

theorem Runs.of_runFrom {step : σ → ι → Except ε σ} [∀ s i, Decidable (guard s i)] {is : List ι}
    {s s' : σ} (h : runFrom ⟨s, step⟩ guard s (is.map fun i _ => i) = some s') :
    Runs step guard s is s' := by
  generalize hsys : (⟨s, step⟩ : StepSystem σ ι ε) = sys at h
  obtain rfl : sys.step = step := by rw [← hsys]
  clear hsys
  induction is generalizing s with
  | nil =>
    simp only [List.map_nil, runFrom, Option.some.injEq] at h
    exact h ▸ .nil s
  | cons i is ih =>
    simp only [List.map_cons, runFrom] at h
    split at h
    · next hg =>
      split at h
      · next t ht => exact .cons hg ht (ih h)
      · cases h
    · cases h

/-- The choices of a run, each made in view of the state it is taken in. -/
def choices (sys : StepSystem σ ι ε) : σ → List (σ → ι) → List ι
  | _, [] => []
  | s, choose :: is =>
    match sys.step s (choose s) with
    | .ok s' => choose s :: sys.choices s' is
    | .error _ => [choose s]

/-- A run that ends in a state satisfying `P`, for runs computed on concrete choices. -/
theorem exists_reaches_of_run (sys : StepSystem σ ι ε) (guard : σ → ι → Prop)
    [∀ s i, Decidable (guard s i)] (P : σ → Prop) [DecidablePred P] (is : List (σ → ι))
    (h : (sys.runFrom guard sys.start is).any (fun s => decide (P s)) = true) :
    ∃ s, Reaches sys guard s ∧ P s := by
  cases hrun : sys.runFrom guard sys.start is with
  | none => simp [hrun] at h
  | some s =>
    simp only [hrun, Option.any_some, decide_eq_true_eq] at h
    exact ⟨s, Reaches.start.of_runFrom hrun, h⟩

end StepSystem
