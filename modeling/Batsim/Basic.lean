import Mathlib.Data.Rat.Defs
import Mathlib.Data.List.AList
import Batsim.Lib.Checked

namespace Batsim

/-- Dates and durations. The code computes with `double`s; the arithmetic here is exact. -/
abbrev Date := ℚ

/-- `xbt_assert` and `xbt_die`: the program stops with the message. -/
def xbtAssert (p : Prop) [Decidable p] (msg : String) : Except String Unit :=
  Checked.require p msg

@[simp] theorem xbtAssert_eq_ok {p : Prop} [Decidable p] {msg : String} {u : Unit} :
    xbtAssert p msg = .ok u ↔ p :=
  Checked.require_eq_ok

theorem xbtAssert_of {p : Prop} [Decidable p] {msg : String} (h : p) :
    xbtAssert p msg = .ok () :=
  Checked.require_of h

/-- A set of machine numbers, listed in the order of its iterator. -/
structure IntervalSet where
  elements : List Nat
  sorted : elements.Pairwise (· < ·) := by decide
deriving DecidableEq

namespace IntervalSet

instance : Membership Nat IntervalSet := ⟨fun s m => m ∈ s.elements⟩

@[simp] theorem mem_elements {s : IntervalSet} {m : Nat} : m ∈ s.elements ↔ m ∈ s := Iff.rfl

instance (m : Nat) (s : IntervalSet) : Decidable (m ∈ s) :=
  inferInstanceAs (Decidable (m ∈ s.elements))

theorem nodup (s : IntervalSet) : s.elements.Nodup :=
  s.sorted.imp fun h => Nat.ne_of_lt h

def empty : IntervalSet where
  elements := []

def size (s : IntervalSet) : Nat := s.elements.length

def remove (s : IntervalSet) (m : Nat) : IntervalSet where
  elements := s.elements.filter (· ≠ m)
  sorted := s.sorted.filter _

@[simp] theorem mem_remove {s : IntervalSet} {m n : Nat} :
    n ∈ s.remove m ↔ n ∈ s ∧ n ≠ m := by
  simp [← mem_elements, remove]

def insert (s : IntervalSet) (n : Nat) : IntervalSet where
  elements := s.elements.filter (· < n) ++ n :: s.elements.filter (n < ·)
  sorted := by
    rw [List.pairwise_append]
    refine ⟨s.sorted.filter _, List.pairwise_cons.mpr ⟨?_, s.sorted.filter _⟩, ?_⟩
    · intro m hm
      simpa using (List.mem_filter.mp hm).2
    · intro a ha b hb
      have han : a < n := by simpa using (List.mem_filter.mp ha).2
      rcases List.mem_cons.mp hb with rfl | hb
      · exact han
      · have hnb : n < b := by simpa using (List.mem_filter.mp hb).2
        exact Nat.lt_trans han hnb

@[simp] theorem mem_insert {s : IntervalSet} {m n : Nat} : m ∈ s.insert n ↔ m = n ∨ m ∈ s := by
  rw [← mem_elements, insert, List.mem_append, List.mem_cons, List.mem_filter, List.mem_filter]
  simp only [mem_elements, decide_eq_true_eq]
  rcases Nat.lt_trichotomy m n with h | h | h
  · simp [h, Nat.ne_of_lt h, Nat.lt_asymm h]
  · simp [h]
  · simp [h, Nat.ne_of_gt h, Nat.lt_asymm h]

/-- `operator+` -/
def union (s t : IntervalSet) : IntervalSet := t.elements.foldl insert s

/-- `operator&` -/
def inter (s t : IntervalSet) : IntervalSet where
  elements := s.elements.filter (· ∈ t)
  sorted := s.sorted.filter _

/-- `operator-` -/
def diff (s t : IntervalSet) : IntervalSet where
  elements := s.elements.filter (· ∉ t)
  sorted := s.sorted.filter _

private theorem mem_foldl_insert {ns : List Nat} {s : IntervalSet} {m : Nat} :
    m ∈ ns.foldl insert s ↔ m ∈ s ∨ m ∈ ns := by
  induction ns generalizing s with
  | nil => simp
  | cons n ns ih =>
    rw [List.foldl_cons, ih, mem_insert, List.mem_cons]
    constructor
    · rintro ((h | h) | h)
      · exact .inr (.inl h)
      · exact .inl h
      · exact .inr (.inr h)
    · rintro (h | h | h)
      · exact .inl (.inr h)
      · exact .inl (.inl h)
      · exact .inr h

@[simp] theorem mem_union {s t : IntervalSet} {m : Nat} : m ∈ s.union t ↔ m ∈ s ∨ m ∈ t := by
  rw [union, mem_foldl_insert, mem_elements]

@[simp] theorem mem_inter {s t : IntervalSet} {m : Nat} : m ∈ s.inter t ↔ m ∈ s ∧ m ∈ t := by
  rw [← mem_elements, inter, List.mem_filter]
  simp

@[simp] theorem mem_diff {s t : IntervalSet} {m : Nat} : m ∈ s.diff t ↔ m ∈ s ∧ m ∉ t := by
  rw [← mem_elements, diff, List.mem_filter]
  simp

end IntervalSet

end Batsim
