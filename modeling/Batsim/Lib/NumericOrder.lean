import Mathlib.Data.Int.Order.Basic
import Mathlib.Data.List.Lex
import Mathlib.Data.Prod.Lex
import Mathlib.Order.Compare

/-!
Texts read as sequences of tokens, where a run of digits stands for a natural number: their order,
and the runs that a comparison of two texts meets at the same place.
-/

namespace NumericOrder

/-- A character between `0` and `9`. -/
def IsDigit (c : Int) : Prop := 48 ≤ c ∧ c ≤ 57

instance (c : Int) : Decidable (IsDigit c) := inferInstanceAs (Decidable (_ ∧ _))

/-- A character that is no digit, or a number. -/
inductive Token where
  | char (c : Int) (h : ¬IsDigit c)
  | number (n : Nat)
deriving DecidableEq

namespace Token

/-- A number stands among the characters where its digits do. -/
def key : Token → Int ×ₗ Nat
  | char c _ => toLex (c, 0)
  | number n => toLex (48, n)

theorem key_injective : Function.Injective key := by
  intro a b h
  cases a with
  | char c hc =>
    cases b with
    | char d hd => cases h; rfl
    | number n => cases h; exact absurd ⟨le_rfl, by decide⟩ hc
  | number n =>
    cases b with
    | char d hd => cases h; exact absurd ⟨le_rfl, by decide⟩ hd
    | number k => cases h; rfl

instance : LinearOrder Token := LinearOrder.lift' key key_injective

theorem lt_iff_key (a b : Token) : a < b ↔ key a < key b := Iff.rfl

theorem le_iff_key (a b : Token) : a ≤ b ↔ key a ≤ key b := Iff.rfl

@[simp]
theorem number_lt_number {n k : Nat} : number n < number k ↔ n < k := by
  simp [lt_iff_key, key, Prod.Lex.toLex_lt_toLex]

@[simp]
theorem char_lt_char {c d : Int} {hc : ¬IsDigit c} {hd : ¬IsDigit d} :
    char c hc < char d hd ↔ c < d := by
  simp [lt_iff_key, key, Prod.Lex.toLex_lt_toLex]

theorem number_lt_char {n : Nat} {c : Int} {hc : ¬IsDigit c} :
    number n < char c hc ↔ 57 < c := by
  simp only [lt_iff_key, key, Prod.Lex.toLex_lt_toLex, Nat.not_lt_zero, and_false, or_false]
  unfold IsDigit at hc
  omega

theorem char_lt_number {n : Nat} {c : Int} {hc : ¬IsDigit c} :
    char c hc < number n ↔ c < 48 := by
  simp only [lt_iff_key, key, Prod.Lex.toLex_lt_toLex]
  unfold IsDigit at hc
  omega

/-- Only numbers lie between two numbers. -/
theorem eq_number_of_le {a : Token} {n k : Nat} (hleft : number n ≤ a) (hright : a ≤ number k) :
    ∃ m, a = number m := by
  cases a with
  | number m => exact ⟨m, rfl⟩
  | char c hc =>
    exfalso
    rw [← not_lt, char_lt_number] at hleft
    rw [← not_lt, number_lt_char] at hright
    unfold IsDigit at hc
    omega

end Token

/-- The value of a text made of digits. -/
def value (p : List Int) : Nat := p.foldl (fun n c => 10 * n + (c - 48).toNat) 0

/-- The tokens of a text: every run of digits is a number. -/
def tokens : List Int → List Token
  | [] => []
  | c :: p =>
    if h : IsDigit c then
      .number (value (c :: p.takeWhile (IsDigit ·))) :: tokens (p.dropWhile (IsDigit ·))
    else .char c h :: tokens p
termination_by p => p.length
decreasing_by
  · have := (List.dropWhile_sublist (fun c => decide (IsDigit c)) (l := p)).length_le
    simp only [List.length_cons]
    omega
  · simp

theorem tokens_digit {c : Int} (h : IsDigit c) (p : List Int) :
    tokens (c :: p) =
      .number (value (c :: p.takeWhile (IsDigit ·))) :: tokens (p.dropWhile (IsDigit ·)) := by
  rw [tokens, dif_pos h]

theorem tokens_char {c : Int} (h : ¬IsDigit c) (p : List Int) :
    tokens (c :: p) = .char c h :: tokens p := by
  rw [tokens, dif_neg h]

theorem tokens_ne_nil {c : Int} {p : List Int} : tokens (c :: p) ≠ [] := by
  by_cases h : IsDigit c
  · simp [tokens_digit h]
  · simp [tokens_char h]

/-! ### The order of two texts -/

/-- Two texts are compared token by token; a proper beginning comes first. -/
def compareTokens : List Token → List Token → Ordering
  | [], [] => .eq
  | [], _ :: _ => .lt
  | _ :: _, [] => .gt
  | t :: ts, u :: us => (cmp t u).then (compareTokens ts us)

theorem compareTokens_cons (t u : Token) (ts us : List Token) :
    compareTokens (t :: ts) (u :: us) = (cmp t u).then (compareTokens ts us) := rfl

theorem compareTokens_self (ts : List Token) : compareTokens ts ts = .eq := by
  induction ts with
  | nil => rfl
  | cons t ts ih =>
    rw [compareTokens_cons, cmp_self_eq_eq, ih]
    rfl

theorem compareTokens_of_lt {ts us : List Token} (h : ts < us) : compareTokens ts us = .lt := by
  induction ts generalizing us with
  | nil =>
    cases us with
    | nil => exact absurd h (lt_irrefl _)
    | cons u us => rfl
  | cons t ts ih =>
    cases us with
    | nil => exact absurd h (List.not_lt_nil _)
    | cons u us =>
      rw [compareTokens_cons]
      rcases List.cons_lt_cons_iff.mp h with hlt | ⟨rfl, hlt⟩
      · rw [hlt.cmp_eq_lt]
        rfl
      · rw [cmp_self_eq_eq, ih hlt]
        rfl

theorem compareTokens_swap (ts us : List Token) :
    (compareTokens ts us).swap = compareTokens us ts := by
  induction ts generalizing us with
  | nil => cases us <;> rfl
  | cons t ts ih =>
    cases us with
    | nil => rfl
    | cons u us =>
      rw [compareTokens_cons, compareTokens_cons, ← cmp_swap t u, ← ih, Ordering.swap_then]

theorem compareTokens_of_gt {ts us : List Token} (h : us < ts) : compareTokens ts us = .gt := by
  rw [← compareTokens_swap, compareTokens_of_lt h]
  rfl

theorem compareTokens_eq_lt_iff {ts us : List Token} : compareTokens ts us = .lt ↔ ts < us := by
  rcases lt_trichotomy ts us with h | rfl | h
  · simp [compareTokens_of_lt h, h]
  · simp [compareTokens_self]
  · simp [compareTokens_of_gt h, h.not_gt]

theorem compareTokens_eq_eq_iff {ts us : List Token} : compareTokens ts us = .eq ↔ ts = us := by
  rcases lt_trichotomy ts us with h | rfl | h
  · simp [compareTokens_of_lt h, h.ne]
  · simp [compareTokens_self]
  · simp [compareTokens_of_gt h, h.ne']

/-! ### The runs that a comparison meets -/

/-- The numbers met at the same place in two texts, by a comparison that gives up at a number of
`limit` or more. -/
def comparedRuns (limit : Nat) : List Token → List Token → List (Nat × Nat)
  | .number n :: ts, .number k :: us =>
    (n, k) :: if n = k ∧ n < limit then comparedRuns limit ts us else []
  | .char c _ :: ts, .char d _ :: us => if c = d then comparedRuns limit ts us else []
  | _, _ => []

theorem comparedRuns_swap (limit : Nat) (ts us : List Token) :
    comparedRuns limit us ts = (comparedRuns limit ts us).map Prod.swap := by
  induction ts generalizing us with
  | nil =>
    cases us with
    | nil => rfl
    | cons u us => cases u <;> rfl
  | cons t ts ih =>
    cases us with
    | nil => cases t <;> rfl
    | cons u us =>
      cases t with
      | number n =>
        cases u with
        | char d hd => rfl
        | number k =>
          simp only [comparedRuns, List.map_cons, Prod.swap_prod_mk]
          by_cases h : n = k ∧ n < limit
          · rw [if_pos h, if_pos ⟨h.1.symm, h.1 ▸ h.2⟩, ih]
          · rw [if_neg h, if_neg (fun hk : k = n ∧ k < limit => h ⟨hk.1.symm, hk.1 ▸ hk.2⟩)]
            rfl
      | char c hc =>
        cases u with
        | number k => rfl
        | char d hd =>
          simp only [comparedRuns, eq_comm (a := d) (b := c)]
          split
          · exact ih us
          · rfl

/-- A number that a comparison of two texts gives up at. -/
def GivesUp (limit : Nat) (ts us : List Token) : Prop :=
  ∃ runs ∈ comparedRuns limit ts us, limit ≤ runs.1 ∨ limit ≤ runs.2

theorem givesUp_comm {limit : Nat} {ts us : List Token} :
    GivesUp limit ts us ↔ GivesUp limit us ts := by
  simp only [GivesUp, comparedRuns_swap limit ts us, List.mem_map]
  constructor
  · rintro ⟨runs, hmem, hlarge⟩
    exact ⟨runs.swap, ⟨runs, hmem, rfl⟩, hlarge.symm⟩
  · rintro ⟨_, ⟨runs, hmem, rfl⟩, hlarge⟩
    exact ⟨runs, hmem, hlarge.symm⟩

theorem givesUp_number_iff {limit n k : Nat} {ts us : List Token} :
    GivesUp limit (.number n :: ts) (.number k :: us) ↔
      limit ≤ n ∨ limit ≤ k ∨ n = k ∧ GivesUp limit ts us := by
  simp only [GivesUp, comparedRuns, List.exists_mem_cons_iff]
  by_cases h : n = k ∧ n < limit
  · rw [if_pos h]
    simp [h.1]
  · rw [if_neg h]
    simp only [List.not_mem_nil, false_and, exists_false, or_false]
    omega

theorem givesUp_char_iff {limit : Nat} {c d : Int} {hc : ¬IsDigit c} {hd : ¬IsDigit d}
    {ts us : List Token} :
    GivesUp limit (.char c hc :: ts) (.char d hd :: us) ↔ c = d ∧ GivesUp limit ts us := by
  simp only [GivesUp, comparedRuns]
  split
  · next h => simp [h]
  · next h => simp [h]

theorem not_givesUp_number_char {limit n : Nat} {d : Int} {hd : ¬IsDigit d} {ts us : List Token} :
    ¬GivesUp limit (.number n :: ts) (.char d hd :: us) := by
  simp [GivesUp, comparedRuns]

theorem not_givesUp_nil {limit : Nat} {us : List Token} : ¬GivesUp limit [] us := by
  simp [GivesUp, comparedRuns]

theorem cons_le_cons_iff {t u : Token} {ts us : List Token} :
    t :: ts ≤ u :: us ↔ t < u ∨ t = u ∧ ts ≤ us := by
  rw [← not_lt, List.cons_lt_cons_iff, ← not_lt]
  rcases lt_trichotomy t u with h | rfl | h
  · simp [h, h.not_gt, h.ne']
  · simp
  · simp [h, h.not_gt, h.ne']

/-- A comparison of two texts that gives up gives up with one of the two when a third text lies
between them. -/
theorem givesUp_of_between {limit : Nat} {ts us vs : List Token} (hleft : ts ≤ us)
    (hright : us ≤ vs) (h : GivesUp limit ts vs) : GivesUp limit ts us ∨ GivesUp limit us vs := by
  induction ts generalizing us vs with
  | nil => exact absurd h not_givesUp_nil
  | cons t ts ih =>
    cases vs with
    | nil => exact absurd (givesUp_comm.mp h) not_givesUp_nil
    | cons v vs =>
      cases us with
      | nil => exact absurd hleft (by simp)
      | cons u us =>
        rw [cons_le_cons_iff] at hleft hright
        cases t with
        | char c hc =>
          cases v with
          | number n => exact absurd (givesUp_comm.mp h) not_givesUp_number_char
          | char d hd =>
            rw [givesUp_char_iff] at h
            obtain ⟨rfl, h⟩ := h
            obtain rfl : u = .char c hc := le_antisymm
              (hright.elim (fun hlt => hlt.le) fun heq => heq.1.le)
              (hleft.elim (fun hlt => hlt.le) fun heq => heq.1.le)
            simp only [lt_irrefl, true_and, false_or] at hleft hright
            rw [givesUp_char_iff, givesUp_char_iff]
            exact (ih hleft hright h).imp (fun h => ⟨rfl, h⟩) fun h => ⟨rfl, h⟩
        | number n =>
          cases v with
          | char d hd => exact absurd h not_givesUp_number_char
          | number k =>
            have hnu : Token.number n ≤ u := hleft.elim (fun hlt => hlt.le) fun heq => heq.1.le
            have huk : u ≤ Token.number k := hright.elim (fun hlt => hlt.le) fun heq => heq.1.le
            obtain ⟨m, rfl⟩ := Token.eq_number_of_le hnu huk
            rw [givesUp_number_iff] at h
            rw [givesUp_number_iff, givesUp_number_iff]
            rcases h with hn | hk | ⟨rfl, h⟩
            · exact .inl (.inl hn)
            · exact .inr (.inr (.inl hk))
            · obtain rfl : m = n := by
                have := Token.number.inj (le_antisymm huk hnu)
                exact this
              simp only [lt_irrefl, true_and, false_or] at hleft hright
              exact (ih hleft hright h).imp (fun h => .inr (.inr ⟨rfl, h⟩))
                fun h => .inr (.inr ⟨rfl, h⟩)

end NumericOrder
