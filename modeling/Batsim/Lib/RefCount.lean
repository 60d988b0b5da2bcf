import Mathlib.Algebra.BigOperators.Group.Finset.Basic
import Mathlib.Algebra.BigOperators.Group.Finset.Piecewise
import Mathlib.Algebra.Order.BigOperators.Group.Finset

/-!
Reference counting over a finite set of objects that hold references to each other: dropping a
reference may destroy an object, which drops the references that it holds.
-/

namespace RefCount

variable {ν : Type} [DecidableEq ν] (subs : ν → List ν)

/-- Drop the references `pending`, one after the other, for at most `fuel` of them. -/
def release : Nat → (ν → Nat) → List ν → ν → Nat
  | 0, counts, _ => counts
  | _ + 1, counts, [] => counts
  | fuel + 1, counts, p :: pending =>
    let counts := Function.update counts p (counts p - 1)
    release fuel counts (if counts p = 0 then subs p ++ pending else pending)

/-- How many references to `p` the objects hold that are not destroyed. -/
def heldInside (nodes : Finset ν) (counts : ν → Nat) (p : ν) : Nat :=
  nodes.sum fun q => if 0 < counts q then (subs q).count p else 0

/-- The count of an object covers the references from outside, those of the objects that are not
destroyed, and those that are about to be dropped. -/
def Covers (nodes : Finset ν) (outside counts : ν → Nat) (pending : List ν) : Prop :=
  ∀ p ∈ nodes, outside p + heldInside subs nodes counts p + pending.count p ≤ counts p

variable {subs} {nodes : Finset ν} {outside counts : ν → Nat} {pending : List ν} {p q : ν}

/-- Dropping references never adds any. -/
theorem release_le (fuel : Nat) (counts : ν → Nat) (pending : List ν) (p : ν) :
    release subs fuel counts pending p ≤ counts p := by
  induction fuel generalizing counts pending with
  | zero => exact le_rfl
  | succ fuel ih =>
    cases pending with
    | nil => exact le_rfl
    | cons q pending =>
      refine (ih _ _).trans ?_
      by_cases hp : p = q
      · subst hp
        rw [Function.update_self]
        exact Nat.sub_le _ _
      · rw [Function.update_of_ne hp]

/-- Dropping a reference that was counted. -/
theorem covers_drop (hp : p ∈ nodes) (h : Covers subs nodes outside counts (p :: pending)) :
    Covers subs nodes outside (Function.update counts p (counts p - 1))
      (if Function.update counts p (counts p - 1) p = 0 then subs p ++ pending else pending) := by
  have hcount := h p hp
  rw [List.count_cons_self] at hcount
  rw [Function.update_self]
  by_cases hzero : counts p - 1 = 0
  · -- `p` is destroyed: the references it held are now about to be dropped
    rw [if_pos hzero]
    intro r hr
    have hbefore := h r hr
    have hsplit : heldInside subs nodes counts r =
        heldInside subs nodes (Function.update counts p (counts p - 1)) r + (subs p).count r := by
      unfold heldInside
      rw [← Finset.add_sum_erase _ _ hp, ← Finset.add_sum_erase _ _ hp]
      have hrest : ((nodes.erase p).sum fun q => if 0 < counts q then (subs q).count r else 0) =
          (nodes.erase p).sum fun q =>
            if 0 < Function.update counts p (counts p - 1) q then (subs q).count r else 0 := by
        refine Finset.sum_congr rfl ?_
        intro q hq
        rw [Function.update_of_ne (Finset.ne_of_mem_erase hq)]
      rw [hrest, Function.update_self, if_pos (by omega), if_neg (by omega)]
      omega
    rw [List.count_append]
    by_cases hrp : r = p
    · subst hrp
      rw [Function.update_self]
      rw [List.count_cons_self] at hbefore
      omega
    · rw [Function.update_of_ne hrp]
      rw [List.count_cons_of_ne (Ne.symm hrp)] at hbefore
      omega
  · rw [if_neg hzero]
    intro r hr
    have hbefore := h r hr
    have hsame : heldInside subs nodes (Function.update counts p (counts p - 1)) r =
        heldInside subs nodes counts r := by
      unfold heldInside
      refine Finset.sum_congr rfl ?_
      intro q _
      by_cases hq : q = p
      · subst hq
        rw [Function.update_self, if_pos (by omega), if_pos (by omega)]
      · rw [Function.update_of_ne hq]
    rw [hsame]
    by_cases hrp : r = p
    · subst hrp
      rw [Function.update_self]
      rw [List.count_cons_self] at hbefore
      omega
    · rw [Function.update_of_ne hrp]
      rw [List.count_cons_of_ne (Ne.symm hrp)] at hbefore
      exact hbefore

theorem covers_release (hclosed : ∀ q ∈ nodes, ∀ p ∈ subs q, p ∈ nodes) (fuel : Nat)
    (hpending : ∀ p ∈ pending, p ∈ nodes) (h : Covers subs nodes outside counts pending) :
    Covers subs nodes outside (release subs fuel counts pending) [] := by
  have hdone : Covers subs nodes outside counts [] := fun p hp =>
    (Nat.add_le_add_left (Nat.zero_le _) _).trans (h p hp)
  induction fuel generalizing counts pending with
  | zero => exact hdone
  | succ fuel ih =>
    cases pending with
    | nil => exact hdone
    | cons p pending =>
      have hp := hpending p (by simp)
      have hstep := covers_drop hp h
      have hleft : ∀ q ∈ (if Function.update counts p (counts p - 1) p = 0
          then subs p ++ pending else pending), q ∈ nodes := by
        intro q hq
        split at hq
        · rcases List.mem_append.mp hq with hq | hq
          · exact hclosed p hp q hq
          · exact hpending q (by simp [hq])
        · exact hpending q (by simp [hq])
      exact ih hleft hstep fun q hq =>
        (Nat.add_le_add_left (Nat.zero_le _) _).trans (hstep q hq)

theorem outside_le (h : Covers subs nodes outside counts pending) (hp : p ∈ nodes) :
    outside p ≤ counts p := by
  have hcount := h p hp
  omega

/-- An object that is referenced from outside and by an object that is not destroyed. -/
theorem two_le_of_parent (h : Covers subs nodes outside counts pending) (hp : p ∈ nodes)
    (hq : q ∈ nodes) (houtside : 0 < outside p) (halive : 0 < counts q) (hsub : p ∈ subs q) :
    2 ≤ counts p := by
  have hcount := h p hp
  have hone : 0 < heldInside subs nodes counts p := by
    have hle : (if 0 < counts q then (subs q).count p else 0) ≤ heldInside subs nodes counts p :=
      Finset.single_le_sum (f := fun q => if 0 < counts q then (subs q).count p else 0)
        (fun _ _ => Nat.zero_le _) hq
    rw [if_pos halive] at hle
    exact (List.count_pos_iff.mpr hsub).trans_le hle
  omega

/-- A reference from outside is about to be dropped. -/
theorem covers_outside (h : Covers subs nodes outside counts []) (hp : 0 < outside p) :
    Covers subs nodes (Function.update outside p (outside p - 1)) counts [p] := by
  intro r hr
  have hcount := h r hr
  by_cases hrp : r = p
  · subst hrp
    rw [Function.update_self, List.count_singleton_self]
    simp only [List.count_nil] at hcount
    omega
  · rw [Function.update_of_ne hrp, List.count_singleton, if_neg (by simpa using Ne.symm hrp)]
    simpa using hcount

end RefCount
