import Mathlib.Data.Set.Insert
import Mathlib.Data.List.Basic

/-!
Registries that never forget: keys are admitted once, may be retired, and are never admitted
again.
-/

/-- The keys ever met and the keys still live. -/
@[ext] structure Registry (K : Type) where
  met : Set K
  live : Set K
  live_subset : live ⊆ met

namespace Registry

variable {K : Type}

inductive Op (K : Type) where
  | enrol (k : K)
  | retire (k : K)

def empty : Registry K where
  met := ∅
  live := ∅
  live_subset := Set.Subset.rfl

def enrol (r : Registry K) (k : K) : Registry K where
  met := insert k r.met
  live := insert k r.live
  live_subset := Set.insert_subset_insert r.live_subset

def retire (r : Registry K) (k : K) : Registry K where
  met := r.met
  live := r.live \ {k}
  live_subset := fun _ h => r.live_subset h.1

/-- `History r ops r'`: the operations `ops`, each one allowed where it happens, lead from `r`
to `r'`. -/
inductive History : Registry K → List (Op K) → Registry K → Prop
  | nil {r : Registry K} : History r [] r
  | enrol {r r' : Registry K} {ops : List (Op K)} {k : K} :
      k ∉ r.met → History (r.enrol k) ops r' → History r (.enrol k :: ops) r'
  | retire {r r' : Registry K} {ops : List (Op K)} {k : K} :
      k ∈ r.live → History (r.retire k) ops r' → History r (.retire k :: ops) r'

theorem History.append {r s t : Registry K} {ops ops' : List (Op K)} (h : History r ops s)
    (h' : History s ops' t) : History r (ops ++ ops') t := by
  induction h with
  | nil => exact h'
  | enrol hk _ ih => exact .enrol hk (ih h')
  | retire hk _ ih => exact .retire hk (ih h')

/-- A key that was met stays met. -/
theorem History.met_mono {r s : Registry K} {ops : List (Op K)} (h : History r ops s) {k : K}
    (hk : k ∈ r.met) : k ∈ s.met := by
  induction h with
  | nil => exact hk
  | enrol _ _ ih => exact ih (Set.mem_insert_of_mem _ hk)
  | retire _ _ ih => exact ih hk

/-- The keys live in the end: met, retired by no operation, and not dead from the start. -/
theorem History.live_iff {r s : Registry K} {ops : List (Op K)} (h : History r ops s) {k : K} :
    k ∈ s.live ↔ k ∈ s.met ∧ .retire k ∉ ops ∧ (k ∈ r.met → k ∈ r.live) := by
  induction h with
  | @nil r =>
    have := @r.live_subset k
    simp only [List.not_mem_nil, not_false_eq_true, true_and]
    tauto
  | @enrol r s ops j hj _ ih =>
    rw [ih]
    by_cases hkj : k = j
    · subst hkj
      simp [Registry.enrol, hj]
    · simp [Registry.enrol, hkj]
  | @retire r s ops j hj _ ih =>
    have := r.live_subset hj
    rw [ih]
    by_cases hkj : k = j
    · subst hkj
      simp [Registry.retire, this]
    · simp [Registry.retire, hkj]

/-- From the empty registry, the live keys are the met keys that nothing retired. -/
theorem History.live_iff_of_empty {s : Registry K} {ops : List (Op K)}
    (h : History empty ops s) {k : K} : k ∈ s.live ↔ k ∈ s.met ∧ .retire k ∉ ops := by
  rw [h.live_iff]
  simp [empty]

/-- Only met keys are retired. -/
theorem History.met_of_retire {r s : Registry K} {ops : List (Op K)} (h : History r ops s) {k : K}
    (hk : .retire k ∈ ops) : k ∈ s.met := by
  induction h with
  | nil => simp at hk
  | enrol _ _ ih => exact ih (by simpa using hk)
  | @retire r s ops j hj hrest ih =>
    rcases List.mem_cons.mp hk with hk | hk
    · cases hk
      exact hrest.met_mono (r.live_subset hj)
    · exact ih hk

/-- An admitted key was not met before, and is met afterwards. -/
theorem History.met_of_enrol {r s : Registry K} {ops : List (Op K)} (h : History r ops s) {k : K}
    (hk : .enrol k ∈ ops) : k ∈ s.met ∧ k ∉ r.met := by
  induction h with
  | nil => simp at hk
  | @enrol r s ops j hj hrest ih =>
    rcases List.mem_cons.mp hk with hk | hk
    · cases hk
      exact ⟨hrest.met_mono (Set.mem_insert _ _), hj⟩
    · exact ⟨(ih hk).1, fun hmem => (ih hk).2 (Set.mem_insert_of_mem _ hmem)⟩
  | @retire r s ops j hj hrest ih =>
    exact ih (by simpa using hk)

end Registry
