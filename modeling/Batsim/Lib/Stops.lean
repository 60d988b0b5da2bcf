import Batsim.Lib.Checked

/-!
Programs on a state that may stop, where the state of the stop is kept: what holds of the state in
which they end or stop.
-/

namespace Stops

variable {ε σ α β : Type}

/-- The state in which a program ends or stops. -/
def stateAfter : EStateM.Result ε σ α → σ
  | .ok _ s => s
  | .error _ s => s

/-- What is left of a run when the state of a stop is forgotten. -/
def outcome : EStateM.Result ε σ Unit → Except ε σ
  | .ok _ s => .ok s
  | .error e _ => .error e

/-- Stop with `e` unless `p` holds. -/
def check (p : Prop) [Decidable p] (e : ε) : EStateM ε σ Unit := if p then pure () else throw e

section Runs

variable (s : σ)

@[simp]
theorem bind_run (x : EStateM ε σ α) (f : α → EStateM ε σ β) (s : σ) :
    (x >>= f) s = match x s with
      | .ok a t => f a t
      | .error e t => .error e t := by
  change EStateM.bind x f s = _
  unfold EStateM.bind
  cases x s <;> rfl

@[simp]
theorem pure_run (a : α) : (pure a : EStateM ε σ α) s = .ok a s := rfl

@[simp]
theorem throw_run (e : ε) : (throw e : EStateM ε σ α) s = .error e s := rfl

@[simp]
theorem get_run : (get : EStateM ε σ σ) s = .ok s s := rfl

@[simp]
theorem modify_run (f : σ → σ) : (modify f : EStateM ε σ PUnit) s = .ok ⟨⟩ (f s) := rfl

@[simp]
theorem ofExcept_run (x : Except ε α) : (MonadExcept.ofExcept x : EStateM ε σ α) s = match x with
    | .ok a => .ok a s
    | .error e => .error e s := by
  cases x <;> rfl

theorem check_run (p : Prop) [Decidable p] (e : ε) :
    (check p e : EStateM ε σ Unit) s = if p then .ok () s else .error e s := by
  unfold check
  split <;> rfl

end Runs

section Outcomes

variable (s : σ)

@[simp]
theorem outcome_pure : outcome ((pure () : EStateM ε σ Unit) s) = .ok s := rfl

@[simp]
theorem outcome_throw (e : ε) : outcome ((throw e : EStateM ε σ Unit) s) = .error e := rfl

@[simp]
theorem outcome_modify (g : σ → σ) : outcome ((modify g : EStateM ε σ Unit) s) = .ok (g s) := rfl

@[simp]
theorem outcome_bind_modify (g : σ → σ) (f : PUnit → EStateM ε σ Unit) :
    outcome ((modify g >>= f) s) = outcome (f ⟨⟩ (g s)) := rfl

@[simp]
theorem outcome_bind_get (f : σ → EStateM ε σ Unit) :
    outcome ((get >>= f) s) = outcome (f s s) := rfl

@[simp]
theorem outcome_bind_ofExcept (x : Except ε α) (f : α → EStateM ε σ Unit) :
    outcome ((MonadExcept.ofExcept x >>= f) s) = x >>= fun a => outcome (f a s) := by
  cases x <;> rfl

@[simp]
theorem outcome_bind_check (p : Prop) [Decidable p] (e : ε) (f : Unit → EStateM ε σ Unit) :
    outcome ((check p e >>= f) s) = Checked.require p e >>= fun _ => outcome (f () s) := by
  rw [bind_run, check_run, Checked.require]
  by_cases h : p
  · rw [if_pos h, if_pos h]
    rfl
  · rw [if_neg h, if_neg h]
    rfl

end Outcomes

section StatesAfter

variable (s : σ)

@[simp]
theorem stateAfter_pure (a : α) : stateAfter ((pure a : EStateM ε σ α) s) = s := rfl

@[simp]
theorem stateAfter_modify (g : σ → σ) : stateAfter ((modify g : EStateM ε σ PUnit) s) = g s := rfl

@[simp]
theorem stateAfter_bind_modify (g : σ → σ) (f : PUnit → EStateM ε σ α) :
    stateAfter ((modify g >>= f) s) = stateAfter (f ⟨⟩ (g s)) := rfl

@[simp]
theorem stateAfter_bind_get (f : σ → EStateM ε σ α) :
    stateAfter ((get >>= f) s) = stateAfter (f s s) := rfl

@[simp]
theorem stateAfter_bind_ofExcept (x : Except ε β) (f : β → EStateM ε σ α) :
    stateAfter ((MonadExcept.ofExcept x >>= f) s) = match x with
      | .ok b => stateAfter (f b s)
      | .error _ => s := by
  cases x <;> rfl

@[simp]
theorem stateAfter_bind_check (p : Prop) [Decidable p] (e : ε) (f : Unit → EStateM ε σ α) :
    stateAfter ((check p e >>= f) s) = if p then stateAfter (f () s) else s := by
  rw [bind_run, check_run]
  by_cases h : p
  · rw [if_pos h, if_pos h]
  · rw [if_neg h, if_neg h]
    rfl

end StatesAfter

/-- The loop over a list. -/
def loop (f : α → EStateM ε σ Unit) : List α → EStateM ε σ Unit
  | [] => pure ()
  | a :: as => do
    f a
    loop f as

/-- Loop rule: what every turn keeps, whether it ends or stops, is kept by the loop. -/
theorem loop_invariant {P : σ → Prop} {f : α → EStateM ε σ Unit} {as : List α} {s : σ}
    (hs : P s) (hstep : ∀ a ∈ as, ∀ t, P t → P (stateAfter (f a t))) :
    P (stateAfter (loop f as s)) := by
  induction as generalizing s with
  | nil => exact hs
  | cons a as ih =>
    have hfirst := hstep a List.mem_cons_self s hs
    rw [loop, bind_run]
    cases hrun : f a s with
    | error e t =>
      rw [hrun] at hfirst
      exact hfirst
    | ok _ t =>
      rw [hrun] at hfirst
      exact ih hfirst fun b hb => hstep b (List.mem_cons_of_mem _ hb)

/-- A loop whose turns have the outcomes of `g` has the outcome of the loop of `g`. -/
theorem outcome_loop {f : α → EStateM ε σ Unit} {g : σ → α → Except ε σ}
    (h : ∀ a s, outcome (f a s) = g s a) (as : List α) (s : σ) :
    outcome (loop f as s) = Checked.forEach g s as := by
  induction as generalizing s with
  | nil => rfl
  | cons a as ih =>
    rw [loop, bind_run, Checked.forEach_cons, ← h]
    cases f a s with
    | error e t => rfl
    | ok _ t => exact ih t

end Stops
