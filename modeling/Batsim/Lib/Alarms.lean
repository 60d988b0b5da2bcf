import Mathlib.Order.Lattice
import Mathlib.Data.List.Nodup
import Mathlib.Data.List.Induction
import Mathlib.Data.List.Perm.Subperm
import Batsim.Lib.Runs

/-!
Numbered alarms that go off one after the other, in the order of their dates and, on one date, of
their numbers. Each changes a state.
-/

/-- What some alarms are for: their dates, and what each does. -/
structure Alarms (σ α D : Type) where
  date : α → D
  fire : α → σ → σ

/-- The alarms that have not gone off, those that have, and the state. -/
structure AlarmState (σ α : Type) where
  state : σ
  asleep : List (Nat × α)
  fired : List (Nat × α) := []

namespace Alarms

open StepSystem

variable {σ α D : Type} [LinearOrder D] (A : Alarms σ α D)

/-- The order of the dates and, on one date, of the numbers. -/
def Before (date : α → D) (a b : Nat × α) : Prop :=
  date a.2 < date b.2 ∨ date a.2 = date b.2 ∧ a.1 < b.1

instance (date : α → D) (a b : Nat × α) : Decidable (Before date a b) :=
  inferInstanceAs (Decidable (_ ∨ _))

/-- The alarm at position `k` goes off, if it is the next one. -/
def step (s : AlarmState σ α) (k : Nat) : Except String (AlarmState σ α) :=
  match s.asleep[k]? with
  | none => .error "impossible choice"
  | some a =>
    if ∀ b ∈ s.asleep.eraseIdx k, Before A.date a b then
      .ok { state := A.fire a.2 s.state
            asleep := s.asleep.eraseIdx k
            fired := s.fired ++ [a] }
    else .error "impossible choice"

/-- The alarms of a list, numbered in its order. -/
def numbered (items : List α) : List (Nat × α) := items.zipIdx.map fun e => (e.2, e.1)

def system (items : List α) (state : σ) : StepSystem (AlarmState σ α) Nat String where
  start := { state := state, asleep := numbered items }
  step := A.step

variable {A} {date : α → D} {a b c : Nat × α} {s s' : AlarmState σ α} {items : List α}
  {state : σ} {d : D}

theorem Before.trans (hab : Before date a b) (hbc : Before date b c) : Before date a c := by
  rcases hab with hab | ⟨hab, hnab⟩ <;> rcases hbc with hbc | ⟨hbc, hnbc⟩
  · exact .inl (hab.trans hbc)
  · exact .inl (hab.trans_eq hbc)
  · exact .inl (hab.trans_lt hbc)
  · exact .inr ⟨hab.trans hbc, Nat.lt_trans hnab hnbc⟩

theorem Before.asymm (hab : Before date a b) : ¬ Before date b a := by
  intro hba
  rcases hab.trans hba with h | h
  · exact lt_irrefl _ h
  · exact Nat.lt_irrefl _ h.2

theorem before_or (h : a.1 ≠ b.1) : Before date a b ∨ Before date b a := by
  rcases lt_trichotomy (date a.2) (date b.2) with hlt | heq | hgt
  · exact .inl (.inl hlt)
  · rcases Nat.lt_or_gt_of_ne h with hlt | hgt
    · exact .inl (.inr ⟨heq, hlt⟩)
    · exact .inr (.inr ⟨heq.symm, hgt⟩)
  · exact .inr (.inl hgt)

theorem perm_cons_eraseIdx {as : List (Nat × α)} {k : Nat} (h : as[k]? = some a) :
    as.Perm (a :: as.eraseIdx k) := by
  obtain ⟨hk, rfl⟩ := List.getElem?_eq_some_iff.mp h
  exact (List.getElem_cons_eraseIdx_perm hk).symm

/-- Of some alarms one is the next. -/
theorem exists_next {as : List (Nat × α)} (hne : as ≠ []) (hnodup : (as.map Prod.fst).Nodup) :
    ∃ (k : Nat) (a : Nat × α), as[k]? = some a ∧ ∀ b ∈ as.eraseIdx k, Before date a b := by
  induction as with
  | nil => exact absurd rfl hne
  | cons first as ih =>
    obtain ⟨hnew, hrest⟩ := List.nodup_cons.mp hnodup
    by_cases has : as = []
    · subst has
      exact ⟨0, first, rfl, by simp⟩
    · obtain ⟨k, a, hk, hnext⟩ := ih has hrest
      have hmem : a ∈ as := List.mem_of_getElem? hk
      have hne : first.1 ≠ a.1 := fun heq => hnew (heq ▸ List.mem_map_of_mem hmem)
      have hor : Before date first a ∨ Before date a first := before_or hne
      rcases hor with hbefore | hafter
      · refine ⟨0, first, rfl, fun b hb => ?_⟩
        rw [List.eraseIdx_cons_zero] at hb
        rcases List.mem_cons.mp ((perm_cons_eraseIdx hk).mem_iff.mp hb) with rfl | hb
        · exact hbefore
        · exact hbefore.trans (hnext b hb)
      · refine ⟨k + 1, a, hk, fun b hb => ?_⟩
        rw [List.eraseIdx_cons_succ] at hb
        rcases List.mem_cons.mp hb with rfl | hb
        · exact hafter
        · exact hnext b hb

theorem step_eq_ok {k : Nat} : A.step s k = .ok s' ↔ ∃ a, s.asleep[k]? = some a ∧
    (∀ b ∈ s.asleep.eraseIdx k, Before A.date a b) ∧
    s' = { state := A.fire a.2 s.state
           asleep := s.asleep.eraseIdx k
           fired := s.fired ++ [a] } := by
  unfold step
  cases s.asleep[k]? with
  | none => simp
  | some a =>
    simp only [Option.some.injEq, exists_eq_left']
    by_cases hnext : ∀ b ∈ s.asleep.eraseIdx k, Before A.date a b
    · rw [if_pos hnext, Except.ok.injEq, eq_comm]
      exact (and_iff_right hnext).symm
    · rw [if_neg hnext]
      exact iff_of_false (fun h => by cases h) fun h => hnext h.1

/-- What holds after some alarms have gone off. -/
structure Ordered (A : Alarms σ α D) (items : List α) (state : σ) (s : AlarmState σ α) : Prop where
  sorted : s.fired.Pairwise (Before A.date)
  after : ∀ a ∈ s.fired, ∀ b ∈ s.asleep, Before A.date a b
  perm : (s.fired ++ s.asleep).Perm (numbered items)
  state : s.state = s.fired.foldl (fun x a => A.fire a.2 x) state

theorem ordered_step {k : Nat} (h : A.Ordered items state s) (hstep : A.step s k = .ok s') :
    A.Ordered items state s' := by
  obtain ⟨a, hk, hnext, rfl⟩ := step_eq_ok.mp hstep
  have hperm := perm_cons_eraseIdx hk
  have ha : a ∈ s.asleep := List.mem_of_getElem? hk
  have hrest : ∀ b ∈ s.asleep.eraseIdx k, b ∈ s.asleep := fun b hb => List.mem_of_mem_eraseIdx hb
  constructor
  · rw [List.pairwise_append]
    refine ⟨h.sorted, List.pairwise_singleton _ _, fun b hb c hc => ?_⟩
    rw [List.mem_singleton.mp hc]
    exact h.after b hb a ha
  · intro b hb c hc
    rcases List.mem_append.mp hb with hb | hb
    · exact h.after b hb c (hrest c hc)
    · rw [List.mem_singleton.mp hb]
      exact hnext c hc
  · have hmoved : (s.fired ++ [a] ++ s.asleep.eraseIdx k).Perm (s.fired ++ s.asleep) := by
      rw [List.append_assoc]
      exact (hperm.symm).append_left s.fired
    exact hmoved.trans h.perm
  · rw [List.foldl_append, ← h.state]
    rfl

theorem reaches_ordered (h : Reaches (A.system items state) anyStep s) :
    A.Ordered items state s := by
  refine h.invariant ?_ fun s s' (k : Nat) _ hs _ hstep => ?_
  · exact ⟨.nil, by simp [system], by simp [system], rfl⟩
  · have hstep' : A.step s k = .ok s' := hstep
    exact ordered_step hs hstep'

/-- The alarms until a date have gone off, and no other. -/
structure Until (A : Alarms σ α D) (d : D) (s : AlarmState σ α) : Prop where
  fired : ∀ a ∈ s.fired, A.date a.2 ≤ d
  asleep : ∀ a ∈ s.asleep, d < A.date a.2

theorem mem_fired_iff (h : A.Ordered items state s) (hd : A.Until d s) :
    a ∈ s.fired ↔ a ∈ numbered items ∧ A.date a.2 ≤ d := by
  rw [← h.perm.mem_iff, List.mem_append]
  constructor
  · exact fun ha => ⟨.inl ha, hd.fired a ha⟩
  · rintro ⟨ha | ha, hdate⟩
    · exact ha
    · exact absurd hdate (not_le_of_gt (hd.asleep a ha))

theorem nodup_numbered (items : List α) : ((numbered items).map Prod.fst).Nodup := by
  have hfst : (numbered items).map Prod.fst = List.range items.length := by
    rw [numbered, List.map_map]
    exact List.zipIdx_map_snd 0 items ▸ by simp [List.range_eq_range']
  rw [hfst]
  exact List.nodup_range

theorem mem_numbered : a ∈ numbered items ↔ items[a.1]? = some a.2 := by
  have hiff : a ∈ numbered items ↔ (a.2, a.1) ∈ items.zipIdx := by
    simp only [numbered, List.mem_map, Prod.ext_iff]
    constructor
    · rintro ⟨⟨x, k⟩, hmem, hk, hx⟩
      rwa [← hk, ← hx]
    · exact fun hmem => ⟨_, hmem, rfl, rfl⟩
  rw [hiff, List.mem_zipIdx_iff_getElem?]

/-- Some run gets to each date. -/
theorem exists_until (items : List α) (state : σ) (d : D) :
    ∃ s, Reaches (A.system items state) anyStep s ∧ A.Until d s := by
  suffices key : ∀ n s, Reaches (A.system items state) anyStep s → s.asleep.length = n →
      (∀ a ∈ s.fired, A.date a.2 ≤ d) →
      ∃ s', Reaches (A.system items state) anyStep s' ∧ A.Until d s' from
    key _ _ .start rfl (by simp [system])
  intro n
  induction n with
  | zero =>
    intro s hs hnil hfired
    rw [List.length_eq_zero_iff] at hnil
    exact ⟨s, hs, hfired, by simp [hnil]⟩
  | succ n ih =>
    intro s hs hlength hfired
    have hordered := reaches_ordered hs
    have hne : s.asleep ≠ [] := by
      intro hnil
      rw [hnil] at hlength
      cases hlength
    have hnodup : (s.asleep.map Prod.fst).Nodup := by
      have hall := (hordered.perm.map Prod.fst).nodup_iff.mpr (nodup_numbered items)
      rw [List.map_append] at hall
      exact (List.nodup_append.mp hall).2.1
    obtain ⟨k, a, hk, hnext⟩ : ∃ (k : Nat) (a : Nat × α), s.asleep[k]? = some a ∧
        ∀ b ∈ s.asleep.eraseIdx k, Before A.date a b := exists_next hne hnodup
    by_cases hdate : A.date a.2 ≤ d
    · have hstep := step_eq_ok.mpr ⟨a, hk, hnext, rfl⟩
      have hlt := (List.getElem?_eq_some_iff.mp hk).1
      refine ih _ (.step hs trivial hstep) ?_ ?_
      · rw [List.length_eraseIdx_of_lt hlt, hlength, Nat.add_sub_cancel]
      · exact List.forall_mem_append.mpr ⟨hfired, List.forall_mem_singleton.mpr hdate⟩
    · -- the next alarm is too late, and so are all
      refine ⟨s, hs, hfired, fun b hb => ?_⟩
      rcases List.mem_cons.mp ((perm_cons_eraseIdx hk).mem_iff.mp hb) with rfl | hb
      · exact lt_of_not_ge hdate
      · rcases hnext b hb with hlt | ⟨heq, _⟩
        · exact (lt_of_not_ge hdate).trans hlt
        · exact heq ▸ lt_of_not_ge hdate

/-! ### What the last alarm leaves behind -/

/-- An alarm that comes after all others of a kind. -/
structure Last (date : α → D) (P : Nat × α → Prop) (a : Nat × α) : Prop where
  mem : P a
  last : ∀ b, P b → b = a ∨ Before date b a

theorem Last.unique {P : Nat × α → Prop} (ha : Last date P a) (hb : Last date P b) : a = b := by
  rcases ha.last b hb.mem with heq | hba
  · exact heq.symm
  · rcases hb.last a ha.mem with heq | hab
    · exact heq
    · exact absurd hba hab.asymm

theorem Last.congr {P Q : Nat × α → Prop} (h : Last date P a) (hiff : ∀ b, P b ↔ Q b) :
    Last date Q a :=
  ⟨(hiff a).mp h.mem, fun b hb => h.last b ((hiff b).mpr hb)⟩

/-- When each alarm with a value sets it, it is that of the last one. -/
theorem fired_value {V : Type} (get : σ → V) (value : α → Option V)
    (hget : ∀ a x, get (A.fire a x) = (value a).getD (get x))
    (fired : List (Nat × α)) (hsorted : fired.Pairwise (Before A.date)) (state : σ) :
    ((∀ a ∈ fired, value a.2 = none) ∧
        get (fired.foldl (fun x a => A.fire a.2 x) state) = get state) ∨
      ∃ a v, value a.2 = some v ∧ get (fired.foldl (fun x a => A.fire a.2 x) state) = v ∧
        Last A.date (fun b => b ∈ fired ∧ (value b.2).isSome) a := by
  induction fired using List.reverseRecOn with
  | nil => exact .inl ⟨by simp, rfl⟩
  | append_singleton fired a ih =>
    obtain ⟨hfired, -, hbefore⟩ := List.pairwise_append.mp hsorted
    rw [List.foldl_append, List.foldl_cons, List.foldl_nil, hget]
    cases hvalue : value a.2 with
    | some v =>
      refine .inr ⟨a, v, hvalue, rfl, ⟨by simp, by simp [hvalue]⟩, fun b hb => ?_⟩
      rcases List.mem_append.mp hb.1 with hb | hb
      · exact .inr (hbefore b hb a (List.mem_singleton_self a))
      · exact .inl (List.mem_singleton.mp hb)
    | none =>
      have hiff : ∀ b, (b ∈ fired ∧ (value b.2).isSome) ↔
          (b ∈ fired ++ [a] ∧ (value b.2).isSome) := by
        intro b
        rw [List.mem_append, List.mem_singleton]
        constructor
        · exact fun hb => ⟨.inl hb.1, hb.2⟩
        · rintro ⟨hb | rfl, hsome⟩
          · exact ⟨hb, hsome⟩
          · rw [hvalue] at hsome
            cases hsome
      rcases ih hfired with ⟨hnone, hstate⟩ | ⟨b, v, hb, hstate, hlast⟩
      · refine .inl ⟨fun b hb => ?_, hstate⟩
        rcases List.mem_append.mp hb with hb | hb
        · exact hnone b hb
        · rw [List.mem_singleton.mp hb, hvalue]
      · exact .inr ⟨b, v, hb, hstate, hlast.congr hiff⟩

end Alarms
