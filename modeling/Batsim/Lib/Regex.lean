import Mathlib.Data.List.Basic

/-!
Regular expressions made of single characters and of greedy repetitions of characters, and the
replacement of all their matches in a text.
-/

namespace Regex

inductive Piece where
  | one (p : Char → Bool)
  | many (p : Char → Bool)

/-- An expression that matches no empty text: it starts with one character. -/
structure Pattern where
  first : Char → Bool
  rest : List Piece

/-- What is left of a text after some characters of a class, the most characters first. -/
def drops (p : Char → Bool) : List Char → List (List Char)
  | [] => [[]]
  | c :: cs => if p c then drops p cs ++ [c :: cs] else [c :: cs]

/-- What the matches at the start of a text leave, in the order of the backtracking. -/
def ends : List Piece → List Char → List (List Char)
  | [], cs => [cs]
  | .one _ :: _, [] => []
  | .one p :: ps, c :: cs => if p c then ends ps cs else []
  | .many p :: ps, cs => (drops p cs).flatMap (ends ps)

/-- What the match at the start of a text leaves. -/
def Pattern.matchAt (pat : Pattern) : List Char → Option (List Char)
  | [] => none
  | c :: cs => if pat.first c then (ends pat.rest cs).head? else none

/-- The text that replaces a match: `$$` is a dollar, `$&` the match, the quotes after a dollar stand
for the texts around it, and the expression has no group but the match itself. -/
def format (before text after : List Char) : List Char → List Char
  | [] => []
  | '$' :: c :: fs =>
    if c = '$' then '$' :: format before text after fs
    else if c = '&' then text ++ format before text after fs
    else if c = '\x60' then before ++ format before text after fs
    else if c = '\x27' then after ++ format before text after fs
    else if c.isDigit then
      match fs with
      | d :: ds =>
        if d.isDigit then
          (if c = '0' ∧ d = '0' then text else []) ++ format before text after ds
        else (if c = '0' then text else []) ++ format before text after (d :: ds)
      | [] => if c = '0' then text else []
    else '$' :: format before text after (c :: fs)
  | c :: fs => c :: format before text after fs

/-- The replacement from some place of a text on; `before` is the text since the last match. -/
def Pattern.replaceFrom (pat : Pattern) (fmt : List Char) : Nat → List Char → List Char → List Char
  | 0, _, cs => cs
  | _ + 1, _, [] => []
  | n + 1, before, c :: cs =>
    match pat.matchAt (c :: cs) with
    | some rest =>
      format before ((c :: cs).take ((c :: cs).length - rest.length)) rest fmt ++
        pat.replaceFrom fmt n [] rest
    | none => c :: pat.replaceFrom fmt n (before ++ [c]) cs

/-- The replacement of all the matches of a text. -/
def Pattern.replaceAll (pat : Pattern) (fmt cs : List Char) : List Char :=
  pat.replaceFrom fmt cs.length [] cs

theorem mem_drops {p : Char → Bool} {cs ds : List Char} (h : ds ∈ drops p cs) :
    ∃ xs, cs = xs ++ ds ∧ ∀ c ∈ xs, p c = true := by
  induction cs with
  | nil =>
    simp only [drops, List.mem_singleton] at h
    exact ⟨[], by simp [h], by simp⟩
  | cons c cs ih =>
    rw [drops] at h
    split at h
    · next hc =>
      rcases List.mem_append.mp h with h | h
      · obtain ⟨xs, rfl, hxs⟩ := ih h
        exact ⟨c :: xs, rfl, by simpa [hc] using hxs⟩
      · exact ⟨[], by simpa using (List.mem_singleton.mp h).symm, by simp⟩
    · exact ⟨[], by simpa using (List.mem_singleton.mp h).symm, by simp⟩

theorem head?_drops (p : Char → Bool) (cs : List Char) :
    (drops p cs).head? = some (cs.dropWhile p) := by
  induction cs with
  | nil => rfl
  | cons c cs ih =>
    rw [drops]
    split
    · next hc => rw [List.head?_append, ih, List.dropWhile_cons_of_pos hc]; rfl
    · next hc => rw [List.dropWhile_cons_of_neg hc]; rfl

theorem suffix_of_mem_ends {ps : List Piece} {cs ds : List Char} (h : ds ∈ ends ps cs) :
    ds <:+ cs := by
  induction ps generalizing cs with
  | nil =>
    rw [ends, List.mem_singleton] at h
    exact h ▸ List.suffix_rfl
  | cons piece ps ih =>
    cases piece with
    | one p =>
      cases cs with
      | nil => simp [ends] at h
      | cons c cs =>
        rw [ends] at h
        split at h
        · exact (ih h).trans (List.suffix_cons c cs)
        · simp at h
    | many p =>
      rw [ends, List.mem_flatMap] at h
      obtain ⟨es, hes, hds⟩ := h
      obtain ⟨xs, rfl, -⟩ := mem_drops hes
      exact (ih hds).trans (List.suffix_append xs es)

theorem ends_one_cons (p : Char → Bool) (ps : List Piece) (c : Char) (cs : List Char) :
    ends (.one p :: ps) (c :: cs) = if p c then ends ps cs else [] := rfl

theorem exists_of_ends_one {p : Char → Bool} {ps : List Piece} {cs rest : List Char}
    (h : (ends (.one p :: ps) cs).head? = some rest) :
    ∃ c ds, cs = c :: ds ∧ p c = true ∧ (ends ps ds).head? = some rest := by
  cases cs with
  | nil => cases h
  | cons c cs =>
    rw [ends_one_cons] at h
    split at h
    · next hc => exact ⟨c, cs, rfl, hc, h⟩
    · cases h

theorem Pattern.exists_of_matchAt {pat : Pattern} {cs rest : List Char}
    (h : pat.matchAt cs = some rest) :
    ∃ c ds, cs = c :: ds ∧ pat.first c = true ∧ (ends pat.rest ds).head? = some rest := by
  cases cs with
  | nil => cases h
  | cons c cs =>
    rw [matchAt] at h
    split at h
    · next hc => exact ⟨c, cs, rfl, hc, h⟩
    · cases h

theorem Pattern.length_lt_of_matchAt {pat : Pattern} {cs rest : List Char}
    (h : pat.matchAt cs = some rest) : rest.length < cs.length := by
  obtain ⟨c, ds, rfl, -, hends⟩ := exists_of_matchAt h
  have hle := (suffix_of_mem_ends (List.mem_of_mem_head? hends)).length_le
  rw [List.length_cons]
  omega

/-- Repetitions alone match as much as each of them can, in turn. -/
theorem head?_ends_many {ps : List (Char → Bool)} {cs : List Char} :
    (ends (ps.map Piece.many) cs).head? = some (ps.foldl (fun cs p => cs.dropWhile p) cs) := by
  induction ps generalizing cs with
  | nil => rfl
  | cons p ps ih =>
    rw [List.map_cons, ends, List.foldl_cons]
    have hhead := head?_drops p cs
    cases hdrops : drops p cs with
    | nil => rw [hdrops] at hhead; cases hhead
    | cons d ds =>
      rw [hdrops, List.head?_cons, Option.some.injEq] at hhead
      rw [List.flatMap_cons, List.head?_append, ih, hhead]
      rfl

/-- A repetition before a character outside of its class takes all it can, or there is no match. -/
theorem ends_many_one {p q : Char → Bool} {ps : List Piece} {cs : List Char}
    (hpq : ∀ c, q c = true → p c = false) :
    ends (.many p :: .one q :: ps) cs = ends (.one q :: ps) (cs.dropWhile p) := by
  induction cs with
  | nil => simp [ends, drops]
  | cons c cs ih =>
    rw [ends, drops]
    split
    · next hc =>
      have hq : q c = false := by
        cases hq : q c with
        | false => rfl
        | true => rw [hpq c hq] at hc; cases hc
      rw [List.flatMap_append, List.flatMap_singleton, List.dropWhile_cons_of_pos hc]
      rw [ends] at ih
      simp [ih, ends, hq]
    · next hc => rw [List.flatMap_singleton, List.dropWhile_cons_of_neg hc]

/-- The characters that make a dollar before them stand for something else. -/
def isReference (c : Char) : Bool :=
  c = '$' || c = '&' || c = '\x60' || c = '\x27' || c.isDigit

/-- No dollar of the text stands for something else. -/
def isLiteral : List Char → Bool
  | '$' :: c :: fs => !isReference c && isLiteral (c :: fs)
  | _ :: fs => isLiteral fs
  | [] => true

theorem format_of_literal {before text after fs : List Char} (h : isLiteral fs = true) :
    format before text after fs = fs := by
  fun_induction isLiteral fs with
  | case1 c fs ih =>
    simp only [Bool.and_eq_true, Bool.not_eq_true', isReference, Bool.or_eq_false_iff,
      decide_eq_false_iff_not] at h
    obtain ⟨⟨⟨⟨⟨hdollar, hand⟩, hbefore⟩, hafter⟩, hdigit⟩, hrest⟩ := h
    have hc : ¬c.isDigit = true := by simp [hdigit]
    rw [format.eq_def]
    simp only [if_neg hdollar, if_neg hand, if_neg hbefore, if_neg hafter, if_neg hc, ih hrest]
  | case2 c fs hother ih =>
    rw [format]
    · rw [ih h]
    · exact hother
  | case3 => rfl

/-- Whatever stands before it, the text `cs` becomes `out`. -/
def Pattern.Replaces (pat : Pattern) (fmt cs out : List Char) : Prop :=
  ∀ n before, cs.length ≤ n → pat.replaceFrom fmt n before cs = out

theorem Pattern.Replaces.replaceAll {pat : Pattern} {fmt cs out : List Char}
    (h : pat.Replaces fmt cs out) : pat.replaceAll fmt cs = out :=
  h cs.length [] (Nat.le_refl _)

theorem Pattern.Replaces.nil {pat : Pattern} {fmt : List Char} : pat.Replaces fmt [] [] := by
  intro n before _
  cases n <;> rfl

theorem Pattern.Replaces.cons {pat : Pattern} {fmt cs out : List Char} {c : Char}
    (hno : pat.matchAt (c :: cs) = none) (h : pat.Replaces fmt cs out) :
    pat.Replaces fmt (c :: cs) (c :: out) := by
  intro n before hn
  cases n with
  | zero => simp at hn
  | succ n =>
    rw [replaceFrom, hno]
    simp only [List.length_cons] at hn
    rw [h n (before ++ [c]) (by omega)]

theorem Pattern.Replaces.hit {pat : Pattern} {fmt cs rest out : List Char}
    (hfmt : isLiteral fmt = true)
    (hmatch : pat.matchAt cs = some rest) (h : pat.Replaces fmt rest out) :
    pat.Replaces fmt cs (fmt ++ out) := by
  intro n before hn
  have hlt := length_lt_of_matchAt hmatch
  cases cs with
  | nil => cases hmatch
  | cons c cs =>
    cases n with
    | zero => simp at hn
    | succ n =>
      rw [replaceFrom, hmatch]
      simp only
      rw [format_of_literal hfmt, h n [] (by omega)]

end Regex
