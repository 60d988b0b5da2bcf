import Mathlib.Data.Multiset.OrderedMonoid

/-!
Promises with deadlines: each promise is held by a timer, which goes off no earlier than its
deadline; what has gone off is on its way, until the promise is kept.
-/

/-- The promises of a system: the deadlines of all of them, the dates at which the timers go off,
how many have gone off and are on their way, and the dates at which promises were kept. -/
structure Promises (D : Type*) where
  made : Multiset D
  timers : Multiset D
  flying : Nat
  kept : Multiset D

namespace Promises

variable {D : Type*} [Preorder D] {p : Promises D} {now now' d t t' : D}

/-- Every promise is held by one timer, is on its way, or was kept once: never before its
deadline. -/
def Balanced (p : Promises D) (now : D) : Prop :=
  ∃ held flying done : Multiset D, p.made = held + flying + done ∧
    Multiset.Rel (· ≤ ·) held p.timers ∧ (flying.card = p.flying ∧ ∀ d ∈ flying, d ≤ now) ∧
      Multiset.Rel (· ≤ ·) done p.kept

theorem balanced_empty : (⟨0, 0, 0, 0⟩ : Promises D).Balanced now :=
  ⟨0, 0, 0, by simp, .zero, by simp, .zero⟩

/-- Time passes. -/
theorem Balanced.mono (h : p.Balanced now) (hle : now ≤ now') : p.Balanced now' := by
  obtain ⟨held, flying, done, hmade, htimers, ⟨hcard, hflying⟩, hkept⟩ := h
  exact ⟨held, flying, done, hmade, htimers, ⟨hcard, fun d hd => (hflying d hd).trans hle⟩, hkept⟩

/-- A promise is made, with a timer that goes off at its deadline. -/
theorem Balanced.make (h : p.Balanced now) (d : D) :
    Balanced { p with made := d ::ₘ p.made, timers := d ::ₘ p.timers } now := by
  obtain ⟨held, flying, done, hmade, htimers, hflying, hkept⟩ := h
  exact ⟨d ::ₘ held, flying, done, by simp [hmade], .cons le_rfl htimers, hflying, hkept⟩

/-- A timer is put off. -/
theorem Balanced.delay {T : Multiset D} (h : p.Balanced now) (ht : p.timers = t ::ₘ T)
    (hle : t ≤ t') : Balanced { p with timers := t' ::ₘ T } now := by
  obtain ⟨held, flying, done, hmade, htimers, hflying, hkept⟩ := h
  rw [ht] at htimers
  obtain ⟨d, held', hd, hrest, rfl⟩ := Multiset.rel_cons_right.mp htimers
  exact ⟨d ::ₘ held', flying, done, hmade, .cons (hd.trans hle) hrest, hflying, hkept⟩

/-- A timer goes off. -/
theorem Balanced.expire {T : Multiset D} (h : p.Balanced now) (ht : p.timers = t ::ₘ T)
    (hle : t ≤ now) : Balanced { p with timers := T, flying := p.flying + 1 } now := by
  obtain ⟨held, flying, done, hmade, htimers, ⟨hcard, hflying⟩, hkept⟩ := h
  rw [ht] at htimers
  obtain ⟨d, held', hd, hrest, rfl⟩ := Multiset.rel_cons_right.mp htimers
  refine ⟨held', d ::ₘ flying, done, ?_, hrest, ⟨by simp [hcard], fun d' hd' => ?_⟩, hkept⟩
  · simp [hmade]
  · rcases Multiset.mem_cons.mp hd' with rfl | hd'
    · exact hd.trans hle
    · exact hflying d' hd'

/-- A promise on its way is kept. -/
theorem Balanced.keep {n : Nat} (h : p.Balanced now) (hn : p.flying = n + 1) :
    Balanced { p with flying := n, kept := now ::ₘ p.kept } now := by
  obtain ⟨held, flying, done, hmade, htimers, ⟨hcard, hflying⟩, hkept⟩ := h
  rw [hn] at hcard
  obtain ⟨d, hd⟩ := Multiset.card_pos_iff_exists_mem.mp (by omega : 0 < flying.card)
  obtain ⟨rest, rfl⟩ := Multiset.exists_cons_of_mem hd
  refine ⟨held, rest, d ::ₘ done, ?_, htimers, ⟨by simpa using hcard, fun d' hd' => ?_⟩, ?_⟩
  · simp [hmade]
  · exact hflying d' (Multiset.mem_cons_of_mem hd')
  · exact .cons (hflying d (Multiset.mem_cons_self ..)) hkept

/-- Without timers and with nothing on its way, all promises were kept, each once. -/
theorem Balanced.all_kept (h : p.Balanced now) (htimers : p.timers = 0) (hflying : p.flying = 0) :
    Multiset.Rel (· ≤ ·) p.made p.kept := by
  obtain ⟨held, flying, done, hmade, hheld, ⟨hcard, -⟩, hkept⟩ := h
  rw [htimers, Multiset.rel_zero_right] at hheld
  rw [hflying, Multiset.card_eq_zero] at hcard
  rwa [hmade, hheld, hcard, zero_add, zero_add]

end Promises
