import Mathlib.Data.List.Basic

/-!
Splitting a list at the runs of a separator: adjacent separators count as one.
-/

namespace Splitting

/-- Where an element of a list stands that ends with `x`. -/
theorem cases_concat {α : Type} {as before after : List α} {x a : α}
    (h : as ++ [x] = before ++ a :: after) :
    (∃ after', as = before ++ a :: after') ∨ before = as ∧ a = x := by
  rcases List.eq_nil_or_concat after with rfl | ⟨after', y, rfl⟩
  · have hsame := List.append_inj' h rfl
    exact .inr ⟨hsame.1.symm, (List.cons.inj hsame.2).1.symm⟩
  · rw [List.concat_eq_append, ← List.cons_append, ← List.append_assoc] at h
    exact .inl ⟨after', (List.append_inj' h rfl).1⟩

variable {α : Type} [DecidableEq α] {sep : α} {u v xs : List α}

/-- The parts of a list between its runs of separators; a run at an end leaves an empty part. -/
def parts (sep : α) : List α → List (List α)
  | [] => [[]]
  | x :: xs =>
    if x ≠ sep then (parts sep xs).modifyHead (x :: ·)
    else if xs.head? = some sep then parts sep xs
    else [] :: parts sep xs

theorem parts_ne_nil (sep : α) (xs : List α) : parts sep xs ≠ [] := by
  induction xs with
  | nil => simp [parts]
  | cons x xs ih =>
    rw [parts]
    split
    · simpa using ih
    · split
      · exact ih
      · simp

theorem parts_of_notMem (h : sep ∉ xs) : parts sep xs = [xs] := by
  induction xs with
  | nil => rfl
  | cons x xs ih =>
    simp only [List.mem_cons, not_or] at h
    rw [parts, if_pos (Ne.symm h.1), ih h.2]
    rfl

theorem parts_eq_singleton : parts sep xs = [u] ↔ sep ∉ xs ∧ u = xs := by
  constructor
  · intro h
    induction xs generalizing u with
    | nil => simpa [parts, eq_comm] using h
    | cons x xs ih =>
      rw [parts] at h
      split at h
      · next hx =>
        obtain ⟨t, ht⟩ : ∃ t, parts sep xs = [t] := by
          cases hparts : parts sep xs with
          | nil => exact absurd hparts (parts_ne_nil sep xs)
          | cons t ts =>
            rw [hparts] at h
            simp only [List.modifyHead_cons, List.cons.injEq] at h
            exact ⟨t, by rw [h.2]⟩
        obtain ⟨hxs, rfl⟩ := ih ht
        rw [ht] at h
        simp only [List.modifyHead_cons, List.cons.injEq, and_true] at h
        exact ⟨by simp [hxs, Ne.symm hx], h.symm⟩
      · split at h
        · next hhead =>
          obtain ⟨hxs, -⟩ := ih h
          exact absurd (List.mem_of_mem_head? hhead) hxs
        · simp only [List.cons.injEq] at h
          exact absurd h.2 (parts_ne_nil sep xs)
  · rintro ⟨h, rfl⟩
    exact parts_of_notMem h

theorem parts_replicate_append (h : v.head? ≠ some sep) (k : Nat) :
    parts sep (List.replicate (k + 1) sep ++ v) = [] :: parts sep v := by
  induction k with
  | zero =>
    rw [List.replicate_one, List.singleton_append, parts, if_neg (by simp), if_neg h]
  | succ k ih =>
    rw [List.replicate_succ, List.cons_append, parts, if_neg (by simp),
      if_pos (by simp [List.replicate_succ]), ih]

theorem parts_append (hu : sep ∉ u) (h : v.head? ≠ some sep) (k : Nat) :
    parts sep (u ++ List.replicate (k + 1) sep ++ v) = u :: parts sep v := by
  induction u with
  | nil => exact parts_replicate_append h k
  | cons x u ih =>
    simp only [List.mem_cons, not_or] at hu
    rw [List.cons_append, List.cons_append, parts, if_pos (Ne.symm hu.1), ih hu.2]
    rfl

/-- There are two parts exactly when all the separators are in one run. -/
theorem parts_eq_pair : parts sep xs = [u, v] ↔
    sep ∉ u ∧ sep ∉ v ∧ ∃ k, xs = u ++ List.replicate (k + 1) sep ++ v := by
  constructor
  · intro h
    induction xs generalizing u with
    | nil => simp [parts] at h
    | cons x xs ih =>
      rw [parts] at h
      split at h
      · next hx =>
        cases hparts : parts sep xs with
        | nil => exact absurd hparts (parts_ne_nil sep xs)
        | cons t ts =>
          rw [hparts] at h
          simp only [List.modifyHead_cons, List.cons.injEq] at h
          obtain ⟨rfl, rfl⟩ := h
          obtain ⟨ht, hv, k, rfl⟩ := ih hparts
          exact ⟨by simp [ht, Ne.symm hx], hv, k, rfl⟩
      · next hx =>
        have hxsep : x = sep := not_not.mp hx
        split at h
        · next hhead =>
          -- the run of separators goes on: the first part is empty
          obtain ⟨hu, hv, k, rfl⟩ := ih h
          have hnil : u = [] := by
            cases u with
            | nil => rfl
            | cons y u => simp_all
          subst hnil hxsep
          exact ⟨hu, hv, k + 1, by simp [List.replicate_succ]⟩
        · next hhead =>
          simp only [List.cons.injEq] at h
          obtain ⟨rfl, hrest⟩ := h
          obtain ⟨hv, rfl⟩ := parts_eq_singleton.mp hrest
          exact ⟨by simp, hv, 0, by simp [hxsep]⟩
  · rintro ⟨hu, hv, k, rfl⟩
    have hhead : v.head? ≠ some sep := fun h => hv (List.mem_of_mem_head? h)
    rw [parts_append hu hhead k, parts_of_notMem hv]

end Splitting
