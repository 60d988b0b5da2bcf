import Batsim.Lib.NumericOrder
import Batsim.Platform
import Mathlib.Data.List.TakeWhile

/-!
The numeric-aware comparison of the names of machines, next to the order of their tokens.
-/

namespace Batsim

open Checked NumericOrder

theorem isDigit_eq : isDigit = fun c => decide (IsDigit c) := by
  funext c
  exact (Bool.decide_and _ _).symm

/-! ### Numbers -/

theorem foldl_digits (p : List Int) (hp : ∀ c ∈ p, IsDigit c) (n : Nat) :
    p.foldl (fun n c => 10 * n + (c - 48)) (n : Int) =
      ((p.foldl (fun n c => 10 * n + (c - 48).toNat) n : Nat) : Int) := by
  induction p generalizing n with
  | nil => rfl
  | cons c p ih =>
    have hc := hp c (by simp)
    have hcast : 10 * (n : Int) + (c - 48) = ((10 * n + (c - 48).toNat : Nat) : Int) := by
      unfold IsDigit at hc
      omega
    rw [List.foldl_cons, List.foldl_cons, hcast]
    exact ih (fun d hd => hp d (List.mem_cons_of_mem _ hd)) _

/-- `LONG_MAX` as a natural number -/
def longLimit : Nat := 9223372036854775807

theorem strtol_eq {c : Int} (h : IsDigit c) (p : List Int) :
    strtol (c :: p) = (min longLimit (value (c :: p.takeWhile (IsDigit ·))) : Nat) := by
  have htake : (c :: p).takeWhile isDigit = c :: p.takeWhile (IsDigit ·) := by
    simp [isDigit_eq, h]
  have hdigits : ∀ d ∈ c :: p.takeWhile (IsDigit ·), IsDigit d := by
    intro d hd
    rcases List.mem_cons.mp hd with rfl | hd
    · exact h
    · simpa using List.mem_takeWhile_imp hd
  rw [strtol, htake, show (0 : Int) = ((0 : Nat) : Int) from rfl, foldl_digits _ hdigits]
  have hlimit : longMax = (longLimit : Int) := rfl
  have hvalue : (c :: p.takeWhile (IsDigit ·)).foldl (fun n c => 10 * n + (c - 48).toNat) 0 =
      value (c :: p.takeWhile (IsDigit ·)) := rfl
  omega

/-! ### The comparison and its reference -/

/-- A comparison that aborts. -/
def Aborts (outcome : Except String Int) : Prop := ∃ message, outcome = .error message

@[simp]
theorem aborts_error (message : String) : Aborts (.error message) := ⟨message, rfl⟩

@[simp]
theorem not_aborts_ok (r : Int) : ¬Aborts (.ok r) := by
  rintro ⟨message, h⟩
  cases h

/-- A comparison aborts exactly when it gives up at a number; otherwise its sign is that of the
tokens. -/
structure Agrees (outcome : Except String Int) (ts us : List Token) : Prop where
  aborts : Aborts outcome ↔ GivesUp longLimit ts us
  sign : ∀ r, outcome = .ok r → cmp r 0 = compareTokens ts us

/-- The two numbers are both below `LONG_MAX` or the first one is not, and the 32 low bits of their
difference have its sign. -/
structure RunsFit (runs : Nat × Nat) : Prop where
  overflow : longLimit ≤ runs.2 → longLimit ≤ runs.1
  smaller : runs.1 < runs.2 → runs.2 < longLimit →
    0 < (runs.2 - runs.1) % 2 ^ 32 ∧ (runs.2 - runs.1) % 2 ^ 32 ≤ 2 ^ 31
  larger : runs.2 < runs.1 → runs.1 < longLimit →
    0 < (runs.1 - runs.2) % 2 ^ 32 ∧ (runs.1 - runs.2) % 2 ^ 32 < 2 ^ 31

theorem cmp_number (n k : Nat) : cmp (Token.number n) (.number k) = cmp n k := by
  simp only [cmp, cmpUsing, Token.number_lt_number]

/-- Narrowing the difference of two numbers keeps its sign exactly when its low bits have it. -/
theorem agrees_difference_iff {n k : Nat} (hn : n < longLimit) (hne : n ≠ k) (ts us : List Token) :
    Agrees (.ok (Int.bmod ((n : Int) - min longLimit k) (2 ^ 32))) (.number n :: ts)
      (.number k :: us) ↔ RunsFit (n, k) := by
  have hgives : GivesUp longLimit (.number n :: ts) (.number k :: us) ↔ longLimit ≤ k := by
    rw [givesUp_number_iff]
    omega
  have hcmp : compareTokens (.number n :: ts) (.number k :: us) = cmp n k := by
    rw [compareTokens_cons, cmp_number]
    rcases hne.lt_or_gt with h | h
    · rw [h.cmp_eq_lt]
      rfl
    · rw [h.cmp_eq_gt]
      rfl
  have hagrees : Agrees (.ok (Int.bmod ((n : Int) - min longLimit k) (2 ^ 32))) (.number n :: ts)
      (.number k :: us) ↔ k < longLimit ∧
        cmp (Int.bmod ((n : Int) - min longLimit k) (2 ^ 32)) 0 = cmp n k := by
    constructor
    · intro h
      refine ⟨?_, hcmp ▸ h.sign _ rfl⟩
      by_contra hk
      exact not_aborts_ok _ (h.aborts.mpr (hgives.mpr (by omega)))
    · rintro ⟨hk, hsign⟩
      refine ⟨iff_of_false (not_aborts_ok _) fun h => ?_, ?_⟩
      · have := hgives.mp h
        omega
      · intro r hr
        cases hr
        rw [hsign, hcmp]
  rw [hagrees]
  constructor
  · rintro ⟨hk, hsign⟩
    refine ⟨fun h => by omega, fun hlt _ => ?_, fun hlt _ => ?_⟩
    all_goals simp only at hlt ⊢
    · rw [hlt.cmp_eq_lt, cmp_eq_lt_iff] at hsign
      rw [Int.bmod_def] at hsign
      split at hsign <;> omega
    · rw [hlt.cmp_eq_gt, cmp_eq_gt_iff] at hsign
      rw [Int.bmod_def] at hsign
      split at hsign <;> omega
  · intro h
    have hk : k < longLimit := by
      by_contra hk
      exact absurd (h.overflow (by simpa using hk)) (by simpa using hn)
    refine ⟨hk, ?_⟩
    rcases lt_trichotomy n k with hlt | heq | hlt
    · have := h.smaller hlt hk
      simp only at this
      rw [hlt.cmp_eq_lt, cmp_eq_lt_iff]
      rw [Int.bmod_def]
      split <;> omega
    · exact absurd heq hne
    · have := h.larger hlt hn
      simp only at this
      rw [hlt.cmp_eq_gt, cmp_eq_gt_iff]
      rw [Int.bmod_def]
      split <;> omega

/-- What follows two equal tokens decides. -/
theorem agrees_same_iff {outcome : Except String Int} {t : Token} {ts us : List Token}
    (hgives : GivesUp longLimit (t :: ts) (t :: us) ↔ GivesUp longLimit ts us) :
    Agrees outcome (t :: ts) (t :: us) ↔ Agrees outcome ts us := by
  have hcmp : compareTokens (t :: ts) (t :: us) = compareTokens ts us := by
    rw [compareTokens_cons, cmp_self_eq_eq]
    rfl
  constructor
  · intro h
    exact ⟨h.aborts.trans hgives, fun r hr => (h.sign r hr).trans hcmp⟩
  · intro h
    exact ⟨h.aborts.trans hgives.symm, fun r hr => (h.sign r hr).trans hcmp.symm⟩

/-- Two numbers, whatever follows. -/
theorem agrees_number_iff {outcome : Except String Int} {n k : Nat} {ts us : List Token}
    (ih : Agrees outcome ts us ↔ ∀ runs ∈ comparedRuns longLimit ts us, RunsFit runs) :
    Agrees (if longLimit ≤ n then .error "Numeric overflow while reading"
        else if n ≠ k then .ok (Int.bmod ((n : Int) - min longLimit k) (2 ^ 32)) else outcome)
      (.number n :: ts) (.number k :: us) ↔
      ∀ runs ∈ comparedRuns longLimit (.number n :: ts) (.number k :: us), RunsFit runs := by
  rw [comparedRuns]
  by_cases hover : longLimit ≤ n
  · rw [if_pos hover, if_neg (by omega)]
    have hgives : GivesUp longLimit (.number n :: ts) (.number k :: us) :=
      givesUp_number_iff.mpr (.inl hover)
    have hfit : RunsFit (n, k) :=
      ⟨fun _ => hover, fun hlt hk => by simp only at *; omega, fun _ hn => by simp only at *; omega⟩
    refine iff_of_true ⟨iff_of_true (aborts_error _) hgives, fun r hr => by cases hr⟩ ?_
    intro runs hruns
    rw [List.mem_singleton.mp hruns]
    exact hfit
  · by_cases hne : n = k
    · subst hne
      have hfit : RunsFit (n, n) :=
        ⟨id, fun hlt => absurd hlt (lt_irrefl _), fun hlt => absurd hlt (lt_irrefl _)⟩
      rw [if_neg hover, if_neg (by omega), if_pos (by omega), List.forall_mem_cons]
      refine Iff.trans (agrees_same_iff ?_) (ih.trans (and_iff_right hfit).symm)
      rw [givesUp_number_iff]
      simp [hover]
    · rw [if_neg hover, if_pos hne, if_neg (by omega), List.forall_mem_singleton]
      exact agrees_difference_iff (by omega) hne ts us

/-- A character that is no number in both texts orders them. -/
theorem tokens_lt_of_lt {c1 c2 : Int} (hlt : c1 < c2) (h : ¬(IsDigit c1 ∧ IsDigit c2))
    (p1 p2 : List Int) : tokens (c1 :: p1) < tokens (c2 :: p2) := by
  by_cases h1 : IsDigit c1
  · have h2 : ¬IsDigit c2 := fun h2 => h ⟨h1, h2⟩
    rw [tokens_digit h1, tokens_char h2, List.cons_lt_cons_iff, Token.number_lt_char]
    unfold IsDigit at h1 h2
    omega
  · rw [tokens_char h1]
    by_cases h2 : IsDigit c2
    · rw [tokens_digit h2, List.cons_lt_cons_iff, Token.char_lt_number]
      unfold IsDigit at h1 h2
      omega
    · rw [tokens_char h2, List.cons_lt_cons_iff, Token.char_lt_char]
      exact .inl hlt

theorem comparedRuns_of_differ {c1 c2 : Int} (hne : c1 ≠ c2) (h : ¬(IsDigit c1 ∧ IsDigit c2))
    (p1 p2 : List Int) :
    comparedRuns longLimit (tokens (c1 :: p1)) (tokens (c2 :: p2)) = [] := by
  by_cases h1 : IsDigit c1
  · rw [tokens_digit h1, tokens_char fun h2 => h ⟨h1, h2⟩]
    rfl
  · rw [tokens_char h1]
    by_cases h2 : IsDigit c2
    · rw [tokens_digit h2]
      rfl
    · rw [tokens_char h2, comparedRuns, if_neg hne]

/-- Without runs to compare, what remains is the sign. -/
theorem agrees_of_sign {r : Int} {ts us : List Token} (hruns : comparedRuns longLimit ts us = [])
    (hsign : cmp r 0 = compareTokens ts us) :
    Agrees (.ok r) ts us ↔ ∀ runs ∈ comparedRuns longLimit ts us, RunsFit runs := by
  rw [hruns]
  refine iff_of_true ⟨iff_of_false (not_aborts_ok r) ?_, fun r' hr => ?_⟩ (by simp)
  · simp [GivesUp, hruns]
  · cases hr
    exact hsign

theorem agrees_differ_iff {c1 c2 : Int} (hne : c1 ≠ c2) (h : ¬(IsDigit c1 ∧ IsDigit c2))
    (p1 p2 : List Int) :
    Agrees (.ok (c1 - c2)) (tokens (c1 :: p1)) (tokens (c2 :: p2)) ↔
      ∀ runs ∈ comparedRuns longLimit (tokens (c1 :: p1)) (tokens (c2 :: p2)), RunsFit runs := by
  apply agrees_of_sign (comparedRuns_of_differ hne h p1 p2)
  rcases hne.lt_or_gt with hlt | hlt
  · rw [compareTokens_of_lt (tokens_lt_of_lt hlt h p1 p2), cmp_eq_lt_iff]
    omega
  · rw [compareTokens_of_gt (tokens_lt_of_lt hlt (fun h' => h h'.symm) p2 p1), cmp_eq_gt_iff]
    omega

theorem agrees_nil_iff {fuel : Nat} (p2 : List Int) :
    Agrees (compareFrom fuel [] p2) (tokens []) (tokens p2) ↔
      ∀ runs ∈ comparedRuns longLimit (tokens []) (tokens p2), RunsFit runs := by
  cases p2 with
  | nil =>
    rw [compareFrom, tokens]
    exact agrees_of_sign rfl (cmp_self_eq_eq 0)
  | cons c p =>
    rw [compareFrom, tokens]
    apply agrees_of_sign rfl
    cases htokens : tokens (c :: p) with
    | nil => exact absurd htokens tokens_ne_nil
    | cons t ts => rfl

theorem agrees_cons_nil_iff {fuel : Nat} (c : Int) (p : List Int) :
    Agrees (compareFrom fuel (c :: p) []) (tokens (c :: p)) (tokens []) ↔
      ∀ runs ∈ comparedRuns longLimit (tokens (c :: p)) (tokens []), RunsFit runs := by
  cases htokens : tokens (c :: p) with
  | nil => exact absurd htokens tokens_ne_nil
  | cons t ts =>
    rw [compareFrom, tokens]
    exact agrees_of_sign (by cases t <;> rfl) rfl

/-- What the comparison does with two digits. -/
theorem compareFrom_digits {fuel : Nat} {c1 c2 : Int} {p1 p2 : List Int} (h1 : IsDigit c1)
    (h2 : IsDigit c2) {n k : Nat} (hn : n = value (c1 :: p1.takeWhile (IsDigit ·)))
    (hk : k = value (c2 :: p2.takeWhile (IsDigit ·))) :
    compareFrom (fuel + 1) (c1 :: p1) (c2 :: p2) =
      if longLimit ≤ n then .error "Numeric overflow while reading"
      else if n ≠ k then .ok (Int.bmod ((n : Int) - min longLimit k) (2 ^ 32))
      else compareFrom fuel (p1.dropWhile (IsDigit ·)) (p2.dropWhile (IsDigit ·)) := by
  have hdigits : (isDigit c1 && isDigit c2) = true := by simp [isDigit_eq, h1, h2]
  have hlimit : longMax = (longLimit : Int) := rfl
  rw [compareFrom, if_pos hdigits, strtol_eq h1, strtol_eq h2, ← hn, ← hk, hlimit, isDigit_eq]
  by_cases hover : longLimit ≤ n
  · rw [if_pos hover, min_eq_left hover]
    simp [xbtAssert, require, bind, Except.bind]
  · have hcheck : ((min longLimit n : Nat) : Int) ≠ longLimit := by omega
    simp only [xbtAssert_of hcheck, bind, Except.bind]
    rw [if_neg hover, min_eq_right (by omega : n ≤ longLimit)]
    by_cases hne : n = k
    · rw [if_neg (by omega), if_neg (by omega)]
    · rw [if_pos (by omega), if_pos hne]

/-- The comparison of two characters that are not both digits. -/
theorem compare_chars_agrees_iff {fuel : Nat} {c1 c2 : Int} {p1 p2 : List Int}
    (h : ¬(IsDigit c1 ∧ IsDigit c2))
    (ih : Agrees (compareFrom fuel p1 p2) (tokens p1) (tokens p2) ↔
      ∀ runs ∈ comparedRuns longLimit (tokens p1) (tokens p2), RunsFit runs) :
    Agrees (compareFrom (fuel + 1) (c1 :: p1) (c2 :: p2)) (tokens (c1 :: p1)) (tokens (c2 :: p2)) ↔
      ∀ runs ∈ comparedRuns longLimit (tokens (c1 :: p1)) (tokens (c2 :: p2)), RunsFit runs := by
  have hdigits : ¬(isDigit c1 && isDigit c2) = true := by simpa [isDigit_eq] using h
  rw [compareFrom, if_neg hdigits]
  by_cases hne : c1 = c2
  · subst hne
    have h1 : ¬IsDigit c1 := fun h1 => h ⟨h1, h1⟩
    rw [if_neg (by simp), tokens_char h1, tokens_char h1, comparedRuns, if_pos rfl]
    refine Iff.trans (agrees_same_iff ?_) ih
    rw [givesUp_char_iff]
    exact and_iff_right rfl
  · rw [if_pos hne]
    exact agrees_differ_iff hne h p1 p2

/-- The comparison agrees with the tokens exactly when the runs it meets fit. -/
theorem compareFrom_agrees_iff {fuel : Nat} {p1 p2 : List Int} (h : p1.length ≤ fuel) :
    Agrees (compareFrom fuel p1 p2) (tokens p1) (tokens p2) ↔
      ∀ runs ∈ comparedRuns longLimit (tokens p1) (tokens p2), RunsFit runs := by
  induction fuel generalizing p1 p2 with
  | zero =>
    obtain rfl := List.length_eq_zero_iff.mp (Nat.le_zero.mp h)
    exact agrees_nil_iff p2
  | succ fuel ih =>
    cases p1 with
    | nil => exact agrees_nil_iff p2
    | cons c1 p1 =>
      cases p2 with
      | nil => exact agrees_cons_nil_iff c1 p1
      | cons c2 p2 =>
        have hlength : p1.length ≤ fuel := by simpa using h
        by_cases h1 : IsDigit c1
        · by_cases h2 : IsDigit c2
          · have hdrop : (p1.dropWhile (IsDigit ·)).length ≤ fuel :=
              (List.dropWhile_sublist _).length_le.trans hlength
            rw [compareFrom_digits h1 h2 rfl rfl, tokens_digit h1, tokens_digit h2]
            exact agrees_number_iff (ih hdrop)
          · exact compare_chars_agrees_iff (fun hboth => h2 hboth.2) (ih hlength)
        · exact compare_chars_agrees_iff (fun hboth => h1 hboth.1) (ih hlength)

/-! ### The order of the names -/

/-- The tokens of a name. -/
def nameTokens (name : List UInt8) : List Token := tokens (cChars name)

/-- The comparison of two names agrees with the one of their tokens. -/
abbrev ComparesTokens (a b : List UInt8) : Prop :=
  Agrees (stringNumericComparator a b) (nameTokens a) (nameTokens b)

/-- The first name is put before the second one. -/
def Precedes (a b : List UInt8) : Prop := machineComparatorName a b = .ok true

theorem strcmp_neg_iff {a b : List UInt8} :
    strcmp a b < 0 ↔ a.map UInt8.toNat < b.map UInt8.toNat := by
  unfold strcmp
  split
  · next h => simp [h]
  · next h =>
    split
    · simp [h]
    · simp [h]

theorem ComparesTokens.precedes_iff {a b : List UInt8} (h : ComparesTokens a b) :
    Precedes a b ↔ ¬GivesUp longLimit (nameTokens a) (nameTokens b) ∧
      (nameTokens a < nameTokens b ∨
        nameTokens a = nameTokens b ∧ a.map UInt8.toNat < b.map UInt8.toNat) := by
  cases hcmp : stringNumericComparator a b with
  | error message =>
    have hgives := h.aborts.mp ⟨message, hcmp⟩
    simp [Precedes, machineComparatorName, hcmp, hgives, bind, Except.bind]
  | ok r =>
    have hgives : ¬GivesUp longLimit (nameTokens a) (nameTokens b) := by
      rw [← h.aborts, hcmp]
      exact not_aborts_ok r
    have hsign := h.sign r hcmp
    rw [Precedes, machineComparatorName, hcmp]
    simp only [bind, Except.bind, Except.ok.injEq, hgives, not_false_eq_true, true_and]
    rcases lt_trichotomy r 0 with hr | rfl | hr
    · have hlt : nameTokens a < nameTokens b := by
        rw [← compareTokens_eq_lt_iff, ← hsign, hr.cmp_eq_lt]
      simp [hr, hr.ne, hlt]
    · have heq : nameTokens a = nameTokens b := by
        rw [← compareTokens_eq_eq_iff, ← hsign, cmp_self_eq_eq]
      simp [heq, strcmp_neg_iff]
    · have hgt : nameTokens b < nameTokens a := by
        rw [← compareTokens_eq_lt_iff, ← compareTokens_swap, ← hsign, hr.cmp_eq_gt]
        rfl
      simp [hr.ne', hr.not_gt, hgt.not_gt, hgt.ne']

/-- The comparison orders a set of names: its sign is antisymmetric, and the order of the machines
is irreflexive, transitive and total unless it aborts. -/
structure Orders (names : Set (List UInt8)) : Prop where
  aborts_comm : ∀ a ∈ names, ∀ b ∈ names, Aborts (stringNumericComparator a b) →
    Aborts (stringNumericComparator b a)
  antisymm : ∀ a ∈ names, ∀ b ∈ names, ∀ r r', stringNumericComparator a b = .ok r →
    stringNumericComparator b a = .ok r' → r.sign = -r'.sign
  irrefl : ∀ a ∈ names, ¬Precedes a a
  trans : ∀ a ∈ names, ∀ b ∈ names, ∀ c ∈ names, Precedes a b → Precedes b c → Precedes a c
  total : ∀ a ∈ names, ∀ b ∈ names, a ≠ b → ¬Aborts (stringNumericComparator a b) →
    Precedes a b ∨ Precedes b a

theorem orders_of_comparesTokens {names : Set (List UInt8)}
    (h : ∀ a ∈ names, ∀ b ∈ names, ComparesTokens a b) : Orders names where
  aborts_comm a ha b hb hab := (h b hb a ha).aborts.mpr (givesUp_comm.mp ((h a ha b hb).aborts.mp hab))
  antisymm a ha b hb r r' hr hr' := by
    have hsign := (h a ha b hb).sign r hr
    have hsign' := (h b hb a ha).sign r' hr'
    rw [← compareTokens_swap, ← hsign, cmp_swap] at hsign'
    rcases lt_trichotomy r 0 with hlt | rfl | hlt
    · rw [hlt.cmp_eq_gt, cmp_eq_gt_iff] at hsign'
      rw [Int.sign_eq_neg_one_of_neg hlt, Int.sign_eq_one_of_pos hsign']
    · rw [cmp_self_eq_eq, cmp_eq_eq_iff] at hsign'
      rw [hsign']
      rfl
    · rw [hlt.cmp_eq_lt, cmp_eq_lt_iff] at hsign'
      rw [Int.sign_eq_one_of_pos hlt, Int.sign_eq_neg_one_of_neg hsign']
      rfl
  irrefl a ha hself := by
    rcases ((h a ha a ha).precedes_iff.mp hself).2 with hlt | ⟨-, hlt⟩
    · exact lt_irrefl _ hlt
    · exact lt_irrefl _ hlt
  trans a ha b hb c hc hab hbc := by
    obtain ⟨hnab, hab⟩ := (h a ha b hb).precedes_iff.mp hab
    obtain ⟨hnbc, hbc⟩ := (h b hb c hc).precedes_iff.mp hbc
    have hleft : nameTokens a ≤ nameTokens b := hab.elim le_of_lt fun hab => hab.1.le
    have hright : nameTokens b ≤ nameTokens c := hbc.elim le_of_lt fun hbc => hbc.1.le
    rw [(h a ha c hc).precedes_iff]
    refine ⟨fun hgives => ?_, ?_⟩
    · rcases givesUp_of_between hleft hright hgives with hgives | hgives
      · exact hnab hgives
      · exact hnbc hgives
    · rcases hab with hab | ⟨hab, hbytes⟩
      · exact .inl (hab.trans_le hright)
      · rcases hbc with hbc | ⟨hbc, hbytes'⟩
        · exact .inl (hab ▸ hbc)
        · exact .inr ⟨hab.trans hbc, hbytes.trans hbytes'⟩
  total a ha b hb hne hruns := by
    have hgives : ¬GivesUp longLimit (nameTokens a) (nameTokens b) := by
      rwa [← (h a ha b hb).aborts]
    rw [(h a ha b hb).precedes_iff, (h b hb a ha).precedes_iff]
    rw [givesUp_comm] at hgives
    rcases lt_trichotomy (nameTokens a) (nameTokens b) with hlt | heq | hlt
    · exact .inl ⟨fun h => hgives (givesUp_comm.mp h), .inl hlt⟩
    · have hbytes : a.map UInt8.toNat ≠ b.map UInt8.toNat := fun h =>
        hne (List.map_injective_iff.mpr (fun _ _ => UInt8.toNat_inj.mp) h)
      rcases hbytes.lt_or_gt with hlt | hlt
      · exact .inl ⟨fun h => hgives (givesUp_comm.mp h), .inr ⟨heq, hlt⟩⟩
      · exact .inr ⟨hgives, .inr ⟨heq.symm, hlt⟩⟩
    · exact .inr ⟨hgives, .inl hlt⟩

/-- The names of a set are compared as their tokens, and ordered, exactly when the runs of digits
met at the same place in two of them fit. -/
theorem names_ordered_iff_runs_fit (names : Set (List UInt8)) :
    (∀ a ∈ names, ∀ b ∈ names, ComparesTokens a b) ∧ Orders names ↔
      ∀ a ∈ names, ∀ b ∈ names,
        ∀ runs ∈ comparedRuns longLimit (nameTokens a) (nameTokens b), RunsFit runs := by
  constructor
  · intro h a ha b hb
    exact (compareFrom_agrees_iff le_rfl).mp (h.1 a ha b hb)
  · intro h
    have hcompares : ∀ a ∈ names, ∀ b ∈ names, ComparesTokens a b := by
      intro a ha b hb
      exact (compareFrom_agrees_iff le_rfl).mpr (h a ha b hb)
    exact ⟨hcompares, orders_of_comparesTokens hcompares⟩

instance (a b : List UInt8) : Decidable (Precedes a b) :=
  inferInstanceAs (Decidable (machineComparatorName a b = .ok true))

/-- The difference of 0 and 2147483649 is positive once it is narrowed. -/
theorem machine_names_in_a_cycle :
    Precedes (stringBytes "machine0") (stringBytes "machine1") ∧
      Precedes (stringBytes "machine1") (stringBytes "machine2147483649") ∧
      Precedes (stringBytes "machine2147483649") (stringBytes "machine0") ∧
      ¬((∀ a ∈ Set.univ, ∀ b ∈ Set.univ, ComparesTokens a b) ∧ Orders Set.univ) := by
  have h01 : Precedes (stringBytes "machine0") (stringBytes "machine1") := by decide +kernel
  have h12 : Precedes (stringBytes "machine1") (stringBytes "machine2147483649") := by
    decide +kernel
  have h20 : Precedes (stringBytes "machine2147483649") (stringBytes "machine0") := by
    decide +kernel
  refine ⟨h01, h12, h20, fun ⟨_, horders⟩ => ?_⟩
  have h02 := horders.trans _ trivial _ trivial _ trivial h01 h12
  exact horders.irrefl _ trivial (horders.trans _ trivial _ trivial _ trivial h02 h20)

end Batsim
