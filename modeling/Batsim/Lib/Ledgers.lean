import Mathlib.Data.List.Nodup
import Mathlib.Data.List.Perm.Subperm
import Mathlib.Logic.Relation

/-!
Accounts of things that start and end: two counters and the lists behind them, changed one entry
at a time.
-/

structure Ledger (A B : Type*) where
  started : List A
  /-- what is over, whether it was started or turned away -/
  counted : List A
  /-- the names of what was started and is over -/
  told : List B
  /-- the names of what is over -/
  pushed : List B
  running : Int
  completed : Int

namespace Ledger

variable {A B : Type*}

inductive Entry (A : Type*) where
  | start (a : A)
  | reject (a : A)
  | complete (a : A)

/-- What an entry is about. -/
def Entry.item : Entry A → A
  | start a | reject a | complete a => a

def enter (name : A → B) (b : Ledger A B) : Entry A → Ledger A B
  | .start a => { b with started := b.started ++ [a], running := b.running + 1 }
  | .reject a => { b with
      counted := b.counted ++ [a]
      pushed := b.pushed ++ [name a]
      completed := b.completed + 1 }
  | .complete a => { b with
      counted := b.counted ++ [a]
      told := b.told ++ [name a]
      pushed := b.pushed ++ [name a]
      running := b.running - 1
      completed := b.completed + 1 }

/-- The entry is about something that is there to be started, turned away or completed. -/
def Fits (b : Ledger A B) : Entry A → Prop
  | .start a | .reject a => a ∉ b.started ∧ a ∉ b.counted
  | .complete a => a ∈ b.started ∧ a ∉ b.counted

/-- The ledger after some entries that fit, about what is `known`. -/
abbrev Posts (name : A → B) (known : A → Prop) : Ledger A B → Ledger A B → Prop :=
  Relation.ReflTransGen fun b b' => ∃ e : Entry A, known e.item ∧ b.Fits e ∧ b' = b.enter name e

theorem nodup_concat {l : List A} {a : A} (h : l.Nodup) (ha : a ∉ l) : (l ++ [a]).Nodup := by
  rw [← List.concat_eq_append]
  exact h.concat ha

variable [DecidableEq A] {name : A → B} {known : A → Prop} {b b' : Ledger A B}

structure Balanced (name : A → B) (known : A → Prop) (b : Ledger A B) : Prop where
  started : b.started.Nodup
  counted : b.counted.Nodup
  told : b.told = (b.counted.filter (· ∈ b.started)).map name
  pushed : b.pushed = b.counted.map name
  running : b.running = (b.started.filter (· ∉ b.counted)).length
  completed : b.completed = b.counted.length
  known : ∀ a, a ∈ b.started ∨ a ∈ b.counted → known a

theorem Balanced.empty : Balanced name known (⟨[], [], [], [], 0, 0⟩ : Ledger A B) :=
  ⟨.nil, .nil, rfl, rfl, rfl, rfl, by simp⟩

/-- What is over is looked up among the started as before, when nothing over starts. -/
theorem filter_mem_concat {l m : List A} {a : A} (ha : a ∉ l) :
    l.filter (· ∈ m ++ [a]) = l.filter (· ∈ m) := by
  refine List.filter_congr fun x hx => ?_
  have hne : x ≠ a := fun heq => ha (heq ▸ hx)
  simp [hne]

theorem filter_notMem_concat {l m : List A} {a : A} (ha : a ∉ l) :
    l.filter (· ∉ m ++ [a]) = l.filter (· ∉ m) := by
  refine List.filter_congr fun x hx => ?_
  have hne : x ≠ a := fun heq => ha (heq ▸ hx)
  simp [hne]

/-- One thing that is completed leaves those that run. -/
theorem length_filter_notMem_concat {l m : List A} {a : A} (hl : l.Nodup) (ha : a ∈ l)
    (hm : a ∉ m) :
    (l.filter (· ∉ m ++ [a])).length + 1 = (l.filter (· ∉ m)).length := by
  have hmem : a ∈ l.filter (· ∉ m) := List.mem_filter.mpr ⟨ha, by simpa using hm⟩
  have herase : l.filter (· ∉ m ++ [a]) = (l.filter (· ∉ m)).erase a := by
    rw [(hl.filter _).erase_eq_filter, List.filter_filter]
    refine List.filter_congr fun x _ => ?_
    by_cases hx : x = a <;> simp [hx]
  have hpos : 0 < (l.filter (· ∉ m)).length := List.length_pos_of_mem hmem
  rw [herase, List.length_erase_of_mem hmem]
  omega

theorem Balanced.enter (h : b.Balanced name known) {e : Entry A} (hknown : known e.item)
    (he : b.Fits e) :
    (b.enter name e).Balanced name known := by
  cases e with
  | start a =>
    obtain ⟨hs, hc⟩ := he
    refine ⟨nodup_concat h.started hs, h.counted, ?_, h.pushed, ?_, h.completed, fun x hx => ?_⟩
    · exact h.told.trans (congrArg (List.map name) (filter_mem_concat hc).symm)
    · have hnew : [a].filter (· ∉ b.counted) = [a] := by simp [hc]
      simp only [Ledger.enter, List.filter_append, hnew, h.running]
      simp
    · rw [Ledger.enter, List.mem_append, List.mem_singleton] at hx
      obtain (hx | rfl) | hx := hx
      · exact h.known x (.inl hx)
      · exact hknown
      · exact h.known x (.inr hx)
  | reject a =>
    obtain ⟨hs, hc⟩ := he
    refine ⟨h.started, nodup_concat h.counted hc, ?_, ?_, ?_, ?_, fun x hx => ?_⟩
    · simp [Ledger.enter, List.filter_append, hs, h.told]
    · simp [Ledger.enter, h.pushed]
    · have hsame := filter_notMem_concat (m := b.counted) hs
      exact h.running.trans (congrArg (fun l => (List.length l : Int)) hsame.symm)
    · simp [Ledger.enter, h.completed]
    · rw [Ledger.enter, List.mem_append, List.mem_singleton] at hx
      obtain hx | hx | rfl := hx
      · exact h.known x (.inl hx)
      · exact h.known x (.inr hx)
      · exact hknown
  | complete a =>
    obtain ⟨hs, hc⟩ := he
    refine ⟨h.started, nodup_concat h.counted hc, ?_, ?_, ?_, ?_, fun x hx => ?_⟩
    · simp [Ledger.enter, List.filter_append, hs, h.told]
    · simp [Ledger.enter, h.pushed]
    · have hlength := length_filter_notMem_concat h.started hs hc
      have hrunning := h.running
      change b.running - 1 = ((b.started.filter (· ∉ b.counted ++ [a])).length : Int)
      omega
    · simp [Ledger.enter, h.completed]
    · rw [Ledger.enter, List.mem_append, List.mem_singleton] at hx
      obtain hx | hx | rfl := hx
      · exact h.known x (.inl hx)
      · exact h.known x (.inr hx)
      · exact hknown

theorem Balanced.posts (h : b.Balanced name known) (hposts : Posts name known b b') : b'.Balanced name known := by
  induction hposts with
  | refl => exact h
  | tail _ hlast ih =>
    obtain ⟨e, hknown, he, rfl⟩ := hlast
    exact ih.enter hknown he

/-- Nothing is told twice. -/
theorem Balanced.told_nodup (h : b.Balanced name known)
    (hname : ∀ x y, known x → known y → name x = name y → x = y) : b.told.Nodup := by
  rw [h.told]
  refine (h.counted.filter _).map_on fun x hx y hy => hname x y ?_ ?_
  · exact h.known x (.inr (List.mem_filter.mp hx).1)
  · exact h.known y (.inr (List.mem_filter.mp hy).1)

theorem Balanced.pushed_nodup (h : b.Balanced name known)
    (hname : ∀ x y, known x → known y → name x = name y → x = y) : b.pushed.Nodup := by
  rw [h.pushed]
  exact h.counted.map_on fun x hx y hy =>
    hname x y (h.known x (.inr hx)) (h.known y (.inr hy))

/-- What runs and what is over are among what was let in. -/
theorem Balanced.total_le (h : b.Balanced name known) {l : List A} (hstarted : b.started ⊆ l)
    (hcounted : b.counted ⊆ l) : b.completed + b.running ≤ l.length := by
  have hdisjoint : (b.counted ++ b.started.filter (· ∉ b.counted)).Nodup := by
    refine List.nodup_append.mpr ⟨h.counted, h.started.filter _, ?_⟩
    rintro x hx y hy rfl
    exact absurd hx (by simpa using (List.mem_filter.mp hy).2)
  have hsub : b.counted ++ b.started.filter (· ∉ b.counted) ⊆ l := by
    intro x hx
    cases List.mem_append.mp hx with
    | inl hx => exact hcounted hx
    | inr hx => exact hstarted (List.mem_filter.mp hx).1
  have hle := (List.subperm_of_subset hdisjoint hsub).length_le
  rw [List.length_append] at hle
  rw [h.completed, h.running]
  omega

end Ledger
