import Mathlib.Data.Fintype.Card
import Mathlib.Data.Set.Finite.Basic
import Mathlib.Logic.Relation

/-!
Recursions that follow references: they end where no cycle can be reached.
-/

namespace Recursion

open Relation

variable {α : Type} {r : α → α → Prop} {a b : α}

/-- A cycle can be reached. -/
def Cyclic (r : α → α → Prop) (a : α) : Prop := ∃ b, ReflTransGen r a b ∧ TransGen r b b

theorem Cyclic.of_next (h : r a b) (hb : Cyclic r b) : Cyclic r a := by
  obtain ⟨c, hreach, hcycle⟩ := hb
  exact ⟨c, .head h hreach, hcycle⟩

/-- The next reference on the way to a cycle, or along it. -/
theorem Cyclic.exists_next (h : Cyclic r a) : ∃ b, r a b ∧ Cyclic r b := by
  obtain ⟨c, hreach, hcycle⟩ := h
  induction hreach using ReflTransGen.head_induction_on with
  | refl =>
    obtain ⟨b, hstep, hback⟩ := TransGen.head'_iff.mp hcycle
    exact ⟨b, hstep, c, hback, hcycle⟩
  | head hstep hrest _ => exact ⟨_, hstep, c, hrest, hcycle⟩

theorem Cyclic.of_reachable (h : ReflTransGen r a b) (hb : Cyclic r b) : Cyclic r a := by
  obtain ⟨c, hreach, hcycle⟩ := hb
  exact ⟨c, h.trans hreach, hcycle⟩

/-- References are followed outside a set that holds whatever its elements refer to. -/
theorem reach_outside (gone : α → Prop) (hclosed : ∀ a b, r a b → gone a → gone b)
    (h : ReflTransGen r a b) (hb : ¬gone b) :
    ReflTransGen (fun x y => r x y ∧ ¬gone x) a b ∧ ¬gone a := by
  induction h using ReflTransGen.head_induction_on with
  | refl => exact ⟨.refl, hb⟩
  | @head a c hstep _ ih =>
    have ha : ¬gone a := fun hgone => ih.2 (hclosed a c hstep hgone)
    exact ⟨.head ⟨hstep, ha⟩ ih.1, ha⟩

/-- With finitely many references, the rest is well founded. -/
theorem acc_of_not_cyclic {targets : List α} (htargets : ∀ a b, r a b → b ∈ targets)
    (h : ¬ Cyclic r a) : Acc (fun b a => r a b) a := by
  let Reached := { b // ReflTransGen r a b }
  have hfinite : Finite Reached := by
    apply Set.Finite.to_subtype
    refine (Multiset.finite_toSet (↑(a :: targets) : Multiset α)).subset ?_
    intro b hb
    rcases ReflTransGen.cases_tail hb with rfl | ⟨c, -, hlast⟩
    · exact List.mem_cons_self
    · exact List.mem_cons_of_mem a (htargets c b hlast)
  let after : Reached → Reached → Prop := fun x y => TransGen r y.1 x.1
  have htrans : IsTrans Reached after := ⟨fun x y z hxy hyz => hyz.trans hxy⟩
  have hirrefl : Std.Irrefl after := ⟨fun x hx => h ⟨x.1, x.2, hx⟩⟩
  have hwf : WellFounded after := Finite.wellFounded_of_trans_of_irrefl after
  suffices hall : ∀ x : Reached, Acc (fun b a => r a b) x.1 from hall ⟨a, .refl⟩
  intro x
  induction x using hwf.induction with
  | _ x ih =>
    constructor
    intro b hb
    exact ih ⟨b, x.2.tail hb⟩ (.single hb)

/-- A depth that is enough for each of finitely many. -/
theorem exists_common_depth {P : Nat → α → Prop} (hmono : ∀ d e a, d ≤ e → P d a → P e a)
    (l : List α) (h : ∀ b ∈ l, ∃ d, P d b) : ∃ d, ∀ b ∈ l, P d b := by
  induction l with
  | nil => exact ⟨0, fun b hb => absurd hb List.not_mem_nil⟩
  | cons c l ih =>
    obtain ⟨d, hd⟩ := ih fun b hb => h b (List.mem_cons_of_mem c hb)
    obtain ⟨e, he⟩ := h c List.mem_cons_self
    refine ⟨max d e, ?_⟩
    intro b hb
    rcases List.mem_cons.mp hb with rfl | hb
    · exact hmono e _ b (Nat.le_max_right d e) he
    · exact hmono d _ b (Nat.le_max_left d e) (hd b hb)

/-- A property of a bounded recursion that holds one level deeper than for the references holds
for some depth, where no cycle can be reached. -/
theorem exists_depth {targets : List α} (htargets : ∀ a b, r a b → b ∈ targets)
    {P : Nat → α → Prop} (hmono : ∀ d e a, d ≤ e → P d a → P e a)
    (hstep : ∀ d a, (∀ b, r a b → P d b) → P (d + 1) a) (h : ¬ Cyclic r a) : ∃ d, P d a := by
  have hacc := acc_of_not_cyclic htargets h
  clear h
  induction hacc with
  | intro a _ ih =>
    obtain ⟨d, hd⟩ := exists_common_depth (P := fun d b => r a b → P d b)
      (fun d e b hle hP hab => hmono d e b hle (hP hab)) targets (by
        intro b _
        by_cases hab : r a b
        · obtain ⟨d, hd⟩ := ih b hab
          exact ⟨d, fun _ => hd⟩
        · exact ⟨0, fun hab' => absurd hab' hab⟩)
    exact ⟨d + 1, hstep d a fun b hb => hd b (htargets a b hb) hb⟩

end Recursion
