import Mathlib.Data.List.Induction
import Mathlib.Data.List.Perm.Subperm
import Mathlib.Order.Lattice

/-!
Finite maps as lists of entries in the strict order of their keys, and the map that assignments
make, one after the other.
-/

/-- A map: each key has one entry. -/
structure SortedMap (K V : Type) [LinearOrder K] where
  entries : List (K × V)
  sorted : entries.Pairwise fun e e' => e.1 < e'.1

namespace SortedMap

variable {K V : Type} [LinearOrder K] {k : K} {v : V} {e : K × V}

def empty : SortedMap K V := ⟨[], .nil⟩

/-- The entry put at its place, over the one of the same key. -/
def setEntry (k : K) (v : V) : List (K × V) → List (K × V)
  | [] => [(k, v)]
  | e :: es =>
    if k < e.1 then (k, v) :: e :: es
    else if k = e.1 then (k, v) :: es
    else e :: setEntry k v es

theorem mem_setEntry {es : List (K × V)} (h : es.Pairwise fun e e' => e.1 < e'.1) :
    e ∈ setEntry k v es ↔ e = (k, v) ∨ (e ∈ es ∧ e.1 ≠ k) := by
  induction es with
  | nil => simp [setEntry]
  | cons first es ih =>
    obtain ⟨hfirst, hes⟩ := List.pairwise_cons.mp h
    unfold setEntry
    split_ifs with hlt heq
    · -- every key of the list is above the new one
      have hne : ∀ e' ∈ first :: es, e'.1 ≠ k := by
        intro e' he'
        rcases List.mem_cons.mp he' with rfl | he'
        · exact hlt.ne'
        · exact (hlt.trans (hfirst e' he')).ne'
      rw [List.mem_cons]
      exact or_congr_right ⟨fun he => ⟨he, hne e he⟩, And.left⟩
    · have hne : ∀ e' ∈ es, e'.1 ≠ k := fun e' he' => heq ▸ (hfirst e' he').ne'
      rw [List.mem_cons, List.mem_cons]
      apply or_congr_right
      constructor
      · intro he
        exact ⟨.inr he, hne e he⟩
      · rintro ⟨rfl | he, hk⟩
        · exact absurd heq.symm hk
        · exact he
    · rw [List.mem_cons, List.mem_cons, ih hes]
      constructor
      · rintro (rfl | rfl | ⟨he, hk⟩)
        · exact .inr ⟨.inl rfl, Ne.symm heq⟩
        · exact .inl rfl
        · exact .inr ⟨.inr he, hk⟩
      · rintro (rfl | ⟨rfl | he, hk⟩)
        · exact .inr (.inl rfl)
        · exact .inl rfl
        · exact .inr (.inr ⟨he, hk⟩)

theorem sorted_setEntry {es : List (K × V)} (h : es.Pairwise fun e e' => e.1 < e'.1) :
    (setEntry k v es).Pairwise fun e e' => e.1 < e'.1 := by
  induction es with
  | nil => exact List.pairwise_singleton _ _
  | cons first es ih =>
    obtain ⟨hfirst, hes⟩ := List.pairwise_cons.mp h
    unfold setEntry
    split_ifs with hlt heq
    · apply List.pairwise_cons.mpr
      refine ⟨fun e' he' => ?_, h⟩
      rcases List.mem_cons.mp he' with rfl | he'
      · exact hlt
      · exact hlt.trans (hfirst e' he')
    · exact List.pairwise_cons.mpr ⟨fun e' he' => heq ▸ hfirst e' he', hes⟩
    · apply List.pairwise_cons.mpr
      refine ⟨fun e' he' => ?_, ih hes⟩
      rcases (mem_setEntry hes).mp he' with rfl | ⟨he', -⟩
      · exact lt_of_le_of_ne (not_lt.mp hlt) (Ne.symm heq)
      · exact hfirst e' he'

/-- `m[k] = v` -/
def set (m : SortedMap K V) (k : K) (v : V) : SortedMap K V :=
  ⟨setEntry k v m.entries, sorted_setEntry m.sorted⟩

theorem mem_set {m : SortedMap K V} :
    e ∈ (m.set k v).entries ↔ e = (k, v) ∨ (e ∈ m.entries ∧ e.1 ≠ k) :=
  mem_setEntry m.sorted

/-- The assignments, one after the other. -/
def assign (m : SortedMap K V) (as : List (K × V)) : SortedMap K V :=
  as.foldl (fun m a => m.set a.1 a.2) m

/-- The map that the assignments make of the empty one. -/
def ofAssignments (as : List (K × V)) : SortedMap K V := empty.assign as

theorem mem_assign {as : List (K × V)} {m : SortedMap K V} :
    e ∈ (m.assign as).entries ↔
      (∃ before after, as = before ++ e :: after ∧ ∀ a ∈ after, a.1 ≠ e.1) ∨
        (e ∈ m.entries ∧ ∀ a ∈ as, a.1 ≠ e.1) := by
  induction as generalizing m with
  | nil => simp [assign]
  | cons a as ih =>
    rw [show m.assign (a :: as) = (m.set a.1 a.2).assign as from rfl, ih, mem_set]
    constructor
    · rintro (⟨before, after, rfl, hafter⟩ | ⟨rfl | ⟨he, hne⟩, hlater⟩)
      · exact .inl ⟨a :: before, after, rfl, hafter⟩
      · exact .inl ⟨[], as, rfl, hlater⟩
      · refine .inr ⟨he, fun a' ha' => ?_⟩
        rcases List.mem_cons.mp ha' with rfl | ha'
        · exact Ne.symm hne
        · exact hlater a' ha'
    · rintro (⟨before, after, hsplit, hafter⟩ | ⟨he, hlater⟩)
      · cases before with
        | nil =>
          rw [List.nil_append, List.cons.injEq] at hsplit
          obtain ⟨rfl, rfl⟩ := hsplit
          exact .inr ⟨.inl rfl, hafter⟩
        | cons b before =>
          rw [List.cons_append, List.cons.injEq] at hsplit
          exact .inl ⟨before, after, hsplit.2, hafter⟩
      · obtain ⟨ha, hlater⟩ := List.forall_mem_cons.mp hlater
        exact .inr ⟨.inr ⟨he, Ne.symm ha⟩, hlater⟩

/-- An entry is the last assignment to its key. -/
theorem mem_ofAssignments {as : List (K × V)} : e ∈ (ofAssignments as).entries ↔
    ∃ before after, as = before ++ e :: after ∧ ∀ a ∈ after, a.1 ≠ e.1 := by
  rw [ofAssignments, mem_assign]
  simp [empty]

theorem mem_of_mem_ofAssignments {as : List (K × V)} (h : e ∈ (ofAssignments as).entries) :
    e ∈ as := by
  obtain ⟨before, after, rfl, -⟩ := mem_ofAssignments.mp h
  simp

/-- Each key that is assigned has an entry. -/
theorem exists_entry {as : List (K × V)} (h : e ∈ as) :
    ∃ e' ∈ (ofAssignments as).entries, e'.1 = e.1 := by
  induction as using List.reverseRecOn with
  | nil => cases h
  | append_singleton as a ih =>
    have hassign : ofAssignments (as ++ [a]) = (ofAssignments as).set a.1 a.2 := by
      simp [ofAssignments, assign]
    rw [hassign]
    by_cases hkey : e.1 = a.1
    · exact ⟨a, mem_set.mpr (.inl rfl), hkey.symm⟩
    · rcases List.mem_append.mp h with h | h
      · obtain ⟨e', he', hk⟩ := ih h
        exact ⟨e', mem_set.mpr (.inr ⟨he', fun hsame => hkey (hk ▸ hsame)⟩), hk⟩
      · exact absurd (congrArg Prod.fst (List.mem_singleton.mp h)) hkey

theorem mem_keys_ofAssignments {as : List (K × V)} :
    k ∈ (ofAssignments as).entries.map Prod.fst ↔ k ∈ as.map Prod.fst := by
  simp only [List.mem_map]
  constructor
  · rintro ⟨e, he, hk⟩
    exact ⟨e, mem_of_mem_ofAssignments he, hk⟩
  · rintro ⟨a, ha, hk⟩
    obtain ⟨e, he, hkey⟩ := exists_entry ha
    exact ⟨e, he, hkey.trans hk⟩

/-- The entry of a key is the one of its last assignment, when all its assignments agree. -/
theorem mem_of_agree {as : List (K × V)} (h : e ∈ as) (hagree : ∀ a ∈ as, a.1 = e.1 → a = e) :
    e ∈ (ofAssignments as).entries := by
  obtain ⟨e', he', hk⟩ := exists_entry h
  rwa [← hagree e' (mem_of_mem_ofAssignments he') hk]

theorem nodup_keys (m : SortedMap K V) : (m.entries.map Prod.fst).Nodup :=
  List.pairwise_map.mpr (m.sorted.imp fun h => h.ne)

/-- The keys are in the strict order. -/
theorem sorted_keys (m : SortedMap K V) : (m.entries.map Prod.fst).Pairwise (· < ·) :=
  List.pairwise_map.mpr m.sorted

/-- The keys of a map, when they are those of a list in the same order. -/
theorem keys_eq {m : SortedMap K V} {ks : List K} (hks : ks.Pairwise (· < ·))
    (hmem : ∀ k, k ∈ m.entries.map Prod.fst ↔ k ∈ ks) : m.entries.map Prod.fst = ks := by
  have hperm : (m.entries.map Prod.fst).Perm ks :=
    (List.perm_ext_iff_of_nodup m.nodup_keys (hks.imp fun h => h.ne)).mpr hmem
  apply hperm.eq_of_pairwise _ m.sorted_keys hks
  intro a b _ _ hab hba
  exact absurd hba hab.asymm

end SortedMap
