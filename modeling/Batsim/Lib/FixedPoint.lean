import Mathlib.Algebra.Order.Field.Rat
import Mathlib.Tactic.Linarith

/-!
Rational numbers printed with a fixed number of decimals, as `printf` does with `%f`: the exact
value rounded to the nearest decimal number, ties to the even one.
-/

namespace FixedPoint

def roundHalfEven (x : ℚ) : ℤ :=
  let f := x.floor
  if x - f < 1 / 2 ∨ (x - f = 1 / 2 ∧ f % 2 = 0) then f else f + 1

/-- What lies below the middle between an even number and the one before it stays below. -/
theorem roundHalfEven_lt_iff {x : ℚ} {n : ℤ} (hn : n % 2 = 0) :
    roundHalfEven x < n ↔ x < n - 1 / 2 := by
  have hle := Rat.floor_le x
  have hlt := Rat.lt_floor_add_one x
  unfold roundHalfEven
  rcases lt_trichotomy (x.floor + 1) n with h | h | h
  · have hcast : ((x.floor + 1 : ℤ) : ℚ) + 1 ≤ n := by exact_mod_cast h
    have hlow : x < n - 1 / 2 := by linarith
    simp only [hlow, iff_true]
    split <;> omega
  · -- the last unit interval below an even number starts at an odd one
    have hcast : (x.floor : ℚ) + 1 = n := by exact_mod_cast h
    have hodd : x.floor % 2 ≠ 0 := by omega
    simp only [hodd, and_false, or_false]
    split
    · next hx => exact iff_of_true (by omega) (by linarith)
    · next hx => exact iff_of_false (by omega) (by linarith)
  · have hcast : (n : ℚ) ≤ x.floor := by exact_mod_cast Int.lt_add_one_iff.mp h
    have hhigh : ¬ x < n - 1 / 2 := by linarith
    simp only [hhigh, iff_false]
    split <;> omega

/-- The last `k` digits of a number. -/
def lastDigits : Nat → Nat → List Char
  | 0, _ => []
  | k + 1, n => lastDigits k (n / 10) ++ [Nat.digitChar (n % 10)]

@[simp] theorem length_lastDigits (k n : Nat) : (lastDigits k n).length = k := by
  induction k generalizing n with
  | zero => rfl
  | succ k ih => simp [lastDigits, ih]

theorem isDigit_of_mem_lastDigits {k n : Nat} {c : Char} (h : c ∈ lastDigits k n) :
    c.isDigit = true := by
  induction k generalizing n with
  | zero => simp [lastDigits] at h
  | succ k ih =>
    rw [lastDigits, List.mem_append, List.mem_singleton] at h
    rcases h with h | h
    · exact ih h
    · have hlt : n % 10 < 10 := Nat.mod_lt n (by decide)
      rw [h, Nat.isDigit_digitChar, decide_eq_true hlt]

/-- A number of units of the last decimal, as text. -/
def printUnits (decimals units : Nat) : List Char :=
  Nat.toDigits 10 (units / 10 ^ decimals) ++ '.' :: lastDigits decimals units

/-- The magnitude of a number in units of the last decimal. -/
def units (decimals : Nat) (x : ℚ) : Nat := (roundHalfEven (|x| * 10 ^ decimals)).toNat

/-- `%f`, with this many decimals -/
def print (decimals : Nat) (x : ℚ) : List Char :=
  (if x < 0 then ['-'] else []) ++ printUnits decimals (units decimals x)

/-- The same as a string -/
def text (decimals : Nat) (x : ℚ) : String := String.ofList (print decimals x)

theorem mem_print {decimals : Nat} {x : ℚ} {c : Char} (h : c ∈ print decimals x) :
    c.isDigit = true ∨ c = '-' ∨ c = '.' := by
  rw [print, List.mem_append, printUnits, List.mem_append, List.mem_cons] at h
  rcases h with h | h | rfl | h
  · split at h
    · exact .inr (.inl (List.mem_singleton.mp h))
    · cases h
  · exact .inl (Nat.isDigit_of_mem_toDigits (by decide) (by decide) h)
  · exact .inr (.inr rfl)
  · exact .inl (isDigit_of_mem_lastDigits h)

theorem length_printUnits_le_iff {decimals units k : Nat} (hk : 0 < k) :
    (printUnits decimals units).length ≤ k + 1 + decimals ↔ units < 10 ^ (k + decimals) := by
  have hlength : (printUnits decimals units).length =
      (Nat.toDigits 10 (units / 10 ^ decimals)).length + 1 + decimals := by
    simp [printUnits]
    omega
  rw [hlength, Nat.pow_add, ← Nat.div_lt_iff_lt_mul (Nat.pow_pos (by decide)),
    ← Nat.length_toDigits_le_iff (by decide) hk]
  omega

theorem units_lt_iff (decimals : Nat) {n : Nat} (x : ℚ) (hn : n % 2 = 0) (hpos : 0 < n) :
    units decimals x < n ↔ |x| * 10 ^ decimals < n - 1 / 2 := by
  have hround : roundHalfEven (|x| * 10 ^ decimals) < (n : ℤ) ↔
      |x| * 10 ^ decimals < ((n : ℤ) : ℚ) - 1 / 2 :=
    roundHalfEven_lt_iff (by omega)
  rw [units, Int.toNat_lt' (by omega), hround, Int.cast_natCast]

/-- The text has at most `k` digits before the point exactly when the number rounds to one below
the `k`-th power of ten. -/
theorem length_print_le_iff (decimals : Nat) {k : Nat} (x : ℚ) (hk : 0 < k) :
    (print decimals x).length ≤ (if x < 0 then 1 else 0) + k + 1 + decimals ↔
      |x| * 10 ^ decimals < 10 ^ (k + decimals) - 1 / 2 := by
  have hsign : (print decimals x).length =
      (if x < 0 then 1 else 0) + (printUnits decimals (units decimals x)).length := by
    rw [print, List.length_append]
    split <;> rfl
  have heven : (10 ^ (k + decimals)) % 2 = 0 := by
    obtain ⟨j, hj⟩ : ∃ j, k + decimals = j + 1 := ⟨k + decimals - 1, by omega⟩
    rw [hj, Nat.pow_succ]
    omega
  have hunits := units_lt_iff decimals x heven (Nat.pow_pos (by decide))
  rw [hsign, Nat.cast_pow, Nat.cast_ofNat] at *
  rw [← hunits, ← length_printUnits_le_iff hk]
  omega

theorem le_length_print (decimals : Nat) (x : ℚ) : 2 + decimals ≤ (print decimals x).length := by
  have hpos := Nat.length_toDigits_pos (b := 10) (n := units decimals x / 10 ^ decimals)
  simp only [print, printUnits, List.length_append, List.length_cons, length_lastDigits]
  omega

theorem utf8ByteSize_ofList {cs : List Char} (h : ∀ c ∈ cs, c.utf8Size = 1) :
    (String.ofList cs).utf8ByteSize = cs.length := by
  induction cs with
  | nil => rfl
  | cons c cs ih =>
    rw [List.forall_mem_cons] at h
    rw [String.ofList_cons, String.utf8ByteSize_append, String.utf8ByteSize_singleton, h.1, ih h.2,
      List.length_cons, Nat.add_comm]

theorem utf8Size_of_isDigit {c : Char} (h : c.isDigit = true) : c.utf8Size = 1 := by
  have hle := (Char.isDigit_iff_toNat.mp h).2
  rw [Char.utf8Size_eq_one_iff, UInt32.le_iff_toNat_le]
  exact hle.trans (by decide)

theorem utf8ByteSize_repr (n : Nat) : (toString n).utf8ByteSize = (Nat.toDigits 10 n).length := by
  rw [Nat.toString_eq_ofList_toDigits]
  exact utf8ByteSize_ofList fun c hc =>
    utf8Size_of_isDigit (Nat.isDigit_of_mem_toDigits (by decide) (by decide) hc)

theorem utf8ByteSize_text (decimals : Nat) (x : ℚ) :
    (text decimals x).utf8ByteSize = (print decimals x).length := by
  refine utf8ByteSize_ofList fun c hc => ?_
  rcases mem_print hc with h | rfl | rfl
  · exact utf8Size_of_isDigit h
  · rfl
  · rfl

end FixedPoint
