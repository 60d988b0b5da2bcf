import Mathlib.Data.List.Basic

/-!
Logs in which some entries come only after others: what an entry needs was given before it.
-/

section precedence

variable {E A : Type*} (need : E → List A) (give : E → Option A)

/-- What each entry of the log needs is given by the entries before it. -/
def Preceded (es : List E) : Prop :=
  ∀ pre e post, es = pre ++ e :: post → ∀ a ∈ need e, a ∈ pre.filterMap give

namespace Preceded

variable {need : E → List A} {give : E → Option A} {es more : List E} {e : E}

theorem nil : Preceded need give [] := by
  intro pre e post h
  simp at h

theorem concat (h : Preceded need give es) (he : ∀ a ∈ need e, a ∈ es.filterMap give) :
    Preceded need give (es ++ [e]) := by
  intro pre e' post hsplit
  obtain rfl | ⟨post, last, rfl⟩ := post.eq_nil_or_concat
  · obtain ⟨rfl, hlast⟩ := List.append_inj' hsplit rfl
    obtain rfl := List.singleton_inj.mp hlast
    exact he
  · rw [List.concat_eq_append, ← List.cons_append, ← List.append_assoc] at hsplit
    obtain ⟨hes, -⟩ := List.append_inj' hsplit rfl
    exact h pre e' post hes

theorem concat_quiet (h : Preceded need give es) (he : need e = []) :
    Preceded need give (es ++ [e]) :=
  h.concat (by simp [he])

theorem append_quiet (h : Preceded need give es) (hmore : ∀ e ∈ more, need e = []) :
    Preceded need give (es ++ more) := by
  induction more generalizing es with
  | nil => simpa using h
  | cons e more ih =>
    rw [List.append_cons]
    refine ih (h.concat_quiet (hmore e (List.mem_cons_self ..))) fun x hx => ?_
    exact hmore x (List.mem_cons_of_mem _ hx)

end Preceded

end precedence
