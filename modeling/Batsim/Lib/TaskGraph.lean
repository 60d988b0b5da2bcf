import Mathlib.Data.Fintype.Card
import Mathlib.Data.Fintype.EquivFin
import Mathlib.Data.List.Basic
import Mathlib.Data.Set.Finite.Basic
import Mathlib.Logic.Relation
import Mathlib.Order.WellFounded

/-!
Task graphs that are executed by counting, for each task, how many of its parents are done.
-/

namespace TaskGraph

open Relation

variable {ν : Type} {parents children : ν → List ν} {done : ν → Prop}
  [DecidablePred done]

/-- How many parents of `c` are done. -/
def doneParents (parents : ν → List ν) (done : ν → Prop) [DecidablePred done] (c : ν) : Nat :=
  (parents c).countP fun p => done p

theorem doneParents_eq_length {c : ν} :
    doneParents parents done c = (parents c).length ↔ ∀ p ∈ parents c, done p := by
  simp [doneParents, List.countP_eq_length]

theorem doneParents_none (c : ν) : doneParents parents (fun _ => False) c = 0 := by
  simp [doneParents]

/-- One more task is done: its children have one more parent that is done. -/
theorem doneParents_complete [DecidableEq ν] {done' : ν → Prop} [DecidablePred done'] {i : ν}
    (hdone : ∀ p, done' p ↔ p = i ∨ done p) (hi : ¬done i)
    (hmutual : ∀ c, i ∈ parents c ↔ c ∈ children i) (hnodup : ∀ c, (parents c).Nodup) (c : ν) :
    doneParents parents done' c =
      doneParents parents done c + if c ∈ children i then 1 else 0 := by
  have hcount : ∀ ps : List ν, ps.Nodup → (ps.countP fun p => done' p) =
      (ps.countP fun p => done p) + if i ∈ ps then 1 else 0 := by
    intro ps hps
    induction ps with
    | nil => rfl
    | cons p ps ih =>
      have hrest := ih hps.of_cons
      rw [List.countP_cons, List.countP_cons, hrest]
      by_cases hp : p = i
      · subst hp
        have hnot : p ∉ ps := (List.nodup_cons.mp hps).1
        have hnew : done' p := (hdone p).mpr (.inl rfl)
        simp [hi, hnew, hnot]
      · have hsame : done' p ↔ done p := (hdone p).trans (or_iff_right hp)
        simp only [hsame, List.mem_cons, Ne.symm hp, false_or]
        omega
  unfold doneParents
  rw [hcount _ (hnodup c)]
  simp only [hmutual c]

/-- The counts after those of `cs` have been increased one after the other. -/
theorem getElem?_foldl_modify {cs : List Nat} (hcs : cs.Nodup) (counts : List Nat) (c : Nat) :
    (cs.foldl (fun counts i => counts.modify i (· + 1)) counts)[c]? =
      counts[c]?.map (· + if c ∈ cs then 1 else 0) := by
  induction cs generalizing counts with
  | nil => simp
  | cons a cs ih =>
    rw [List.foldl_cons, ih hcs.of_cons, List.getElem?_modify]
    have hnot : a ∉ cs := (List.nodup_cons.mp hcs).1
    by_cases hc : a = c
    · subst hc
      cases counts[a]? <;> simp [hnot]
    · cases counts[c]? <;> simp [hc, Ne.symm hc]

/-- The values of `cs` are changed one after the other. -/
theorem foldl_update [DecidableEq ν] {α : Type} {f : α → α} {cs : List ν} (hcs : cs.Nodup)
    (values : ν → α) (c : ν) :
    cs.foldl (fun values i => Function.update values i (f (values i))) values c =
      if c ∈ cs then f (values c) else values c := by
  induction cs generalizing values with
  | nil => simp
  | cons a cs ih =>
    rw [List.foldl_cons, ih hcs.of_cons]
    have hnot : a ∉ cs := (List.nodup_cons.mp hcs).1
    by_cases hc : c = a
    · subst hc
      simp [hnot]
    · simp [hc]

theorem length_foldl_modify (cs counts : List Nat) :
    (cs.foldl (fun counts i => counts.modify i (· + 1)) counts).length = counts.length := by
  induction cs generalizing counts with
  | nil => rfl
  | cons a cs ih => rw [List.foldl_cons, ih, List.length_modify]

/-- In a finite acyclic graph, all the tasks are done as soon as each task is whose parents are all
done. -/
theorem all_done_of_listed {listed : List ν} {done : ν → Prop}
    (hacyclic : ∀ i, ¬TransGen (fun p c => p ∈ parents c) i i)
    (hin : ∀ i ∈ listed, ∀ p ∈ parents i, p ∈ listed)
    (hclosed : ∀ i ∈ listed, (∀ p ∈ parents i, done p) → done i) : ∀ i ∈ listed, done i := by
  let before : {i // i ∈ listed} → {i // i ∈ listed} → Prop := fun p c =>
    TransGen (fun p c => p ∈ parents c) p.1 c.1
  have htrans : IsTrans {i // i ∈ listed} before := ⟨fun _ _ _ hab hbc => hab.trans hbc⟩
  have hirrefl : Std.Irrefl before := ⟨fun i => hacyclic i.1⟩
  have hfinite : Finite {i // i ∈ listed} := (List.finite_toSet listed).to_subtype
  have hwf : WellFounded before := Finite.wellFounded_of_trans_of_irrefl before
  suffices key : ∀ i : {i // i ∈ listed}, done i.1 from fun i hi => key ⟨i, hi⟩
  intro i
  induction i using hwf.induction with
  | _ i ih =>
    refine hclosed i.1 i.2 ?_
    intro p hp
    exact ih ⟨p, hin i.1 i.2 p hp⟩ (.single hp)

/-- The same for the tasks numbered from 0 to `n`. -/
theorem all_done {n : Nat} {parents : Nat → List Nat} {done : Nat → Prop}
    (hacyclic : ∀ i, ¬TransGen (fun p c => p ∈ parents c) i i)
    (hin : ∀ i < n, ∀ p ∈ parents i, p < n)
    (hclosed : ∀ i < n, (∀ p ∈ parents i, done p) → done i) : ∀ i < n, done i := by
  have hlisted : ∀ i ∈ List.range n, done i := by
    refine all_done_of_listed hacyclic ?_ ?_
    · intro i hi p hp
      exact List.mem_range.mpr (hin i (List.mem_range.mp hi) p hp)
    · intro i hi
      exact hclosed i (List.mem_range.mp hi)
  exact fun i hi => hlisted i (List.mem_range.mpr hi)

/-! ### Longest paths -/

/-- A path of `n` edges. -/
inductive Walk (parents : ν → List ν) : Nat → ν → ν → Prop where
  | nil (t : ν) : Walk parents 0 t t
  | snoc {n : Nat} {s p c : ν} (h : Walk parents n s p) (hp : p ∈ parents c) :
      Walk parents (n + 1) s c

/-- A task is one deeper than the deepest of its parents, and a task without parents has depth 0. -/
structure Depths (parents : ν → List ν) (depth : ν → Int) : Prop where
  nonneg : ∀ c, 0 ≤ depth c
  lt : ∀ p c, p ∈ parents c → depth p + 1 ≤ depth c
  attained : ∀ c, depth c = 0 ∨ ∃ p ∈ parents c, depth c = depth p + 1

namespace Depths

variable {depth : ν → Int} {n : Nat} {s t : ν}

theorem add_le (h : Depths parents depth) (hwalk : Walk parents n s t) :
    depth s + n ≤ depth t := by
  induction hwalk with
  | nil t => simp
  | snoc _ hp ih =>
    have hlast := h.lt _ _ hp
    push_cast
    omega

theorem parents_eq_nil (h : Depths parents depth) (hzero : depth t = 0) : parents t = [] := by
  rw [List.eq_nil_iff_forall_not_mem]
  intro p hp
  have hlt := h.lt p t hp
  have hpos := h.nonneg p
  omega

/-- Some path from a task without parents is as long as the task is deep. -/
theorem exists_walk (h : Depths parents depth) (hn : depth t = n) :
    ∃ s, parents s = [] ∧ Walk parents n s t := by
  induction n generalizing t with
  | zero => exact ⟨t, h.parents_eq_nil hn, .nil t⟩
  | succ n ih =>
    rcases h.attained t with hzero | ⟨p, hp, hdepth⟩
    · omega
    · obtain ⟨s, hs, hwalk⟩ := ih (t := p) (by push_cast at hn; omega)
      exact ⟨s, hs, .snoc hwalk hp⟩

/-- The depth of a task is the length of the longest path to it from a task without parents. -/
theorem isGreatest (h : Depths parents depth) (t : ν) :
    IsGreatest {n : Int | ∃ (k : Nat) (s : ν), parents s = [] ∧ Walk parents k s t ∧ n = k}
      (depth t) := by
  constructor
  · obtain ⟨k, hk⟩ := Int.eq_ofNat_of_zero_le (h.nonneg t)
    obtain ⟨s, hs, hwalk⟩ := h.exists_walk hk
    exact ⟨k, s, hs, hwalk, hk⟩
  · rintro _ ⟨k, s, -, hwalk, rfl⟩
    have hle := h.add_le hwalk
    have hpos := h.nonneg s
    omega

end Depths

end TaskGraph
