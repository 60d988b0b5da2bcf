import Batsim.JobDescriptions

/-!
The description of a job as the scheduler gets it: the text of the JSON object after the
substitution of the `id` member.
-/

namespace Batsim

open Checked Json

variable {N : Type} {num : Numbers N} {s : List Char}

section Pattern

theorem dropWhile_dropWhile {p q : Char → Bool} (hpq : ∀ c, p c = true → q c = true)
    (cs : List Char) : (cs.dropWhile p).dropWhile q = cs.dropWhile q := by
  induction cs with
  | nil => rfl
  | cons c cs ih =>
    cases hc : p c with
    | true => rw [List.dropWhile_cons_of_pos hc, List.dropWhile_cons_of_pos (hpq c hc), ih]
    | false => rw [List.dropWhile_cons_of_neg (by simp [hc])]

theorem dropWhile_dropWhile' {p q : Char → Bool} (hpq : ∀ c, p c = true → q c = true)
    (cs : List Char) : (cs.dropWhile q).dropWhile p = cs.dropWhile q := by
  induction cs with
  | nil => rfl
  | cons c cs ih =>
    cases hc : q c with
    | true => rw [List.dropWhile_cons_of_pos hc, ih]
    | false =>
      have hp : ¬ p c = true := fun h => by simp [hpq c h] at hc
      rw [List.dropWhile_cons_of_neg (by simp [hc]), List.dropWhile_cons_of_neg hp]

theorem isIdChar_of_isSpace (c : Char) (h : isSpace c = true) : isIdChar c = true := by
  simp only [isSpace, Bool.or_eq_true, decide_eq_true_eq] at h
  obtain ((((rfl | rfl) | rfl) | rfl) | rfl) | rfl := h <;> decide

theorem isIdChar_of_quote (c : Char) (h : decide (c = '"') = true) : isIdChar c = true := by
  rw [of_decide_eq_true h]
  decide

/-- The part of the expression after the colon. -/
def valuePieces : List Regex.Piece :=
  [.many isSpace, .many (· = '"'), .many isIdChar, .many (· = '"'), .many isSpace]

/-- The five repetitions after the colon match what the one in the middle does. -/
theorem head?_ends_valuePieces (cs : List Char) :
    (Regex.ends valuePieces cs).head? = some (cs.dropWhile isIdChar) := by
  have hhead : (Regex.ends ([isSpace, (· = '"'), isIdChar, (· = '"'), isSpace].map .many)
      cs).head? = _ := Regex.head?_ends_many
  simp only [List.map_cons, List.map_nil, List.foldl_cons, List.foldl_nil] at hhead
  rw [valuePieces, hhead, dropWhile_dropWhile isIdChar_of_quote,
    dropWhile_dropWhile isIdChar_of_isSpace, dropWhile_dropWhile' isIdChar_of_quote,
    dropWhile_dropWhile' isIdChar_of_isSpace]

theorem matchAt_id (cs : List Char) :
    idPattern.matchAt ('"' :: 'i' :: 'd' :: '"' :: cs) =
      (Regex.ends (.one (· = ':') :: valuePieces) (cs.dropWhile isSpace)).head? := by
  have hspace : ∀ c, decide (c = ':') = true → isSpace c = false := by
    intro c hc
    rw [of_decide_eq_true hc]
    decide
  rw [Regex.Pattern.matchAt, idPattern]
  simp only [Regex.ends_one_cons, decide_true, if_true, Regex.ends_many_one hspace]
  rfl

/-- A key that ends with `"id"` and its colon match, with the value up to a separator. -/
theorem matchAt_key (cs : List Char) :
    idPattern.matchAt ('"' :: 'i' :: 'd' :: '"' :: ':' :: cs) = some (cs.dropWhile isIdChar) := by
  rw [matchAt_id, List.dropWhile_cons_of_neg (by decide), Regex.ends_one_cons,
    if_pos (by decide), head?_ends_valuePieces]

/-- What matches starts with `"id"`, and a colon follows. -/
theorem exists_of_matchAt {cs rest : List Char} (h : idPattern.matchAt cs = some rest) :
    ∃ ds, cs = '"' :: 'i' :: 'd' :: '"' :: ds ∧ (ds.dropWhile isSpace).head? = some ':' := by
  obtain ⟨ds, rfl⟩ : ∃ ds, cs = '"' :: 'i' :: 'd' :: '"' :: ds := by
    obtain ⟨a, cs, rfl, ha, h⟩ := Regex.Pattern.exists_of_matchAt h
    obtain ⟨b, cs, rfl, hb, h⟩ := Regex.exists_of_ends_one h
    obtain ⟨c, cs, rfl, hc, h⟩ := Regex.exists_of_ends_one h
    obtain ⟨d, cs, rfl, hd, -⟩ := Regex.exists_of_ends_one h
    refine ⟨cs, ?_⟩
    rw [of_decide_eq_true ha, of_decide_eq_true hb, of_decide_eq_true hc, of_decide_eq_true hd]
  refine ⟨ds, rfl, ?_⟩
  rw [matchAt_id] at h
  cases hds : ds.dropWhile isSpace with
  | nil => rw [hds] at h; cases h
  | cons c es =>
    rw [hds, Regex.ends_one_cons] at h
    split at h
    · next hc => rw [of_decide_eq_true hc]; rfl
    · cases h

end Pattern

section Strings

variable {F out rest : List Char}

theorem matchAt_of_ne {c : Char} (h : c ≠ '"') (cs : List Char) :
    idPattern.matchAt (c :: cs) = none := by
  cases hmatch : idPattern.matchAt (c :: cs) with
  | none => rfl
  | some r =>
    obtain ⟨ds, heq, -⟩ := exists_of_matchAt hmatch
    exact absurd (List.cons.inj heq).1 h

/-- A text without quotes is left as it is. -/
theorem replaces_noQuote {xs : List Char} (hxs : '"' ∉ xs)
    (h : idPattern.Replaces F rest out) : idPattern.Replaces F (xs ++ rest) (xs ++ out) := by
  induction xs with
  | nil => exact h
  | cons c xs ih =>
    simp only [List.mem_cons, not_or] at hxs
    exact (ih hxs.2).cons (matchAt_of_ne (Ne.symm hxs.1) _)

theorem hexDigit_ne_quote : ∀ n < 16, hexDigit n ≠ '"' := by decide

/-- Escaping leaves a quote behind only for a quote. -/
theorem quote_notMem_escapeChar {c : Char} (h : c ≠ '"') : '"' ∉ escapeChar c := by
  unfold escapeChar
  split_ifs with hquote hslash hb hf hn hr ht hcontrol
  · exact absurd hquote h
  all_goals try decide
  · have hhigh := hexDigit_ne_quote (c.toNat / 16) (by omega)
    have hlow := hexDigit_ne_quote (c.toNat % 16) (by omega)
    simp [Ne.symm hhigh, Ne.symm hlow]
  · simpa using Ne.symm h

theorem head?_escapeChar (c : Char) :
    (∃ cs, escapeChar c = '\\' :: cs) ∨ escapeChar c = [c] ∧ c ≠ '"' := by
  unfold escapeChar
  split_ifs with hquote
  all_goals first | exact .inl ⟨_, rfl⟩ | exact .inr ⟨rfl, hquote⟩

/-- What starts with an ordinary character in an escaped text starts with it before. -/
theorem escape_append_eq_cons {t y w : List Char} {d : Char} (hd : d ≠ '\\')
    (h : escape t ++ y = d :: w) :
    (t = [] ∧ y = d :: w) ∨ ∃ t', t = d :: t' ∧ d ≠ '"' ∧ escape t' ++ y = w := by
  cases t with
  | nil => exact .inl ⟨rfl, h⟩
  | cons c t =>
    right
    rw [escape, List.flatMap_cons] at h
    rcases head?_escapeChar c with ⟨cs, hcs⟩ | ⟨hc, hquote⟩
    · rw [hcs] at h
      exact absurd (List.cons.inj h).1.symm hd
    · rw [hc] at h
      obtain ⟨rfl, hw⟩ := List.cons.inj h
      exact ⟨t, rfl, hquote, hw⟩

/-- A match from a quote on in an escaped text followed by `y`: only `id` can stand between. -/
theorem eq_id_of_matchAt {u y r : List Char} (hy : y.head? = some '"' ∨ y.head? = some '\\')
    (h : idPattern.matchAt ('"' :: (escape u ++ y)) = some r) :
    u = ['i', 'd'] ∧ ∃ z, y = '"' :: z ∧ (z.dropWhile isSpace).head? = some ':' := by
  have hhead : ∀ d w, y = d :: w → d ≠ 'i' ∧ d ≠ 'd' := by
    rintro d w rfl
    rcases hy with hy | hy
    all_goals
      rw [List.head?_cons, Option.some.injEq] at hy
      subst hy
      decide
  obtain ⟨ds, heq, hcolon⟩ := exists_of_matchAt h
  obtain ⟨-, heq⟩ := List.cons.inj heq
  obtain ⟨-, hnil⟩ | ⟨u, rfl, -, heq⟩ := escape_append_eq_cons (by decide) heq
  · exact absurd rfl (hhead _ _ hnil).1
  obtain ⟨-, hnil⟩ | ⟨u, rfl, -, heq⟩ := escape_append_eq_cons (by decide) heq
  · exact absurd rfl (hhead _ _ hnil).2
  obtain ⟨rfl, hy'⟩ | ⟨u, -, hquote, -⟩ := escape_append_eq_cons (by decide) heq
  · exact ⟨rfl, ds, hy', hcolon⟩
  · exact absurd rfl hquote

/-- An escaped text is left as it is, when no quote in it starts a match. -/
theorem replaces_escape {t y : List Char}
    (hno : ∀ u, '"' :: u <:+ t → idPattern.matchAt ('"' :: (escape u ++ y)) = none)
    (h : idPattern.Replaces F y out) :
    idPattern.Replaces F (escape t ++ y) (escape t ++ out) := by
  induction t with
  | nil => exact h
  | cons c t ih =>
    have htail : idPattern.Replaces F (escape t ++ y) (escape t ++ out) :=
      ih fun u hu => hno u (hu.trans (List.suffix_cons c t))
    rw [escape, List.flatMap_cons, List.append_assoc, List.append_assoc]
    by_cases hc : c = '"'
    · subst hc
      have hquote := Regex.Pattern.Replaces.cons (hno t List.suffix_rfl) htail
      exact hquote.cons (matchAt_of_ne (by decide) _)
    · exact replaces_noQuote (quote_notMem_escapeChar hc) htail

/-- The text after a value. -/
def EndsValue (rest : List Char) : Prop :=
  ∀ c ∈ rest.head?, c = ',' ∨ c = ']' ∨ c = '}'

/-- No match starts at the quote that closes a literal. -/
theorem matchAt_closing {c : Char} {cs : List Char} (h : c ≠ 'i') :
    idPattern.matchAt ('"' :: c :: cs) = none := by
  cases hmatch : idPattern.matchAt ('"' :: c :: cs) with
  | none => rfl
  | some r =>
    obtain ⟨ds, heq, -⟩ := exists_of_matchAt hmatch
    exact absurd (List.cons.inj (List.cons.inj heq).2).1 h

theorem EndsValue.head_ne {c : Char} {rest : List Char} (h : EndsValue (c :: rest)) :
    c ≠ 'i' ∧ c ≠ ':' ∧ isSpace c = false := by
  obtain rfl | rfl | rfl := h c rfl <;> decide

/-- A string literal that is a value is left as it is. -/
theorem replaces_value {s : String} (hrest : EndsValue rest)
    (h : idPattern.Replaces F rest out) :
    idPattern.Replaces F (writeString s ++ rest) (writeString s ++ out) := by
  have hcolon : (rest.dropWhile isSpace).head? ≠ some ':' := by
    cases rest with
    | nil => simp
    | cons c rest =>
      obtain ⟨-, hne, hspace⟩ := hrest.head_ne
      rw [List.dropWhile_cons_of_neg (by simp [hspace])]
      simpa using hne
  have hno : ∀ u, idPattern.matchAt ('"' :: (escape u ++ '"' :: rest)) = none := by
    intro u
    cases hmatch : idPattern.matchAt ('"' :: (escape u ++ '"' :: rest)) with
    | none => rfl
    | some r =>
      obtain ⟨-, z, hz, hhead⟩ := eq_id_of_matchAt (.inl rfl) hmatch
      obtain ⟨-, rfl⟩ := List.cons.inj hz
      exact absurd hhead hcolon
  have hclosing : idPattern.Replaces F ('"' :: rest) ('"' :: out) := by
    refine h.cons ?_
    cases rest with
    | nil => rfl
    | cons c rest => exact matchAt_closing hrest.head_ne.1
  have hbody := replaces_escape (t := s.toList) (fun u _ => hno u) hclosing
  have hall := hbody.cons (hno s.toList)
  simpa [writeString] using hall

/-- The keys that the expression takes for `id`. -/
def EndsLikeId (k : String) : Prop := ['"', 'i', 'd'] <:+ '"' :: k.toList

instance (k : String) : Decidable (EndsLikeId k) :=
  inferInstanceAs (Decidable (['"', 'i', 'd'] <:+ '"' :: k.toList))

/-- Any other key is left as it is. -/
theorem replaces_otherKey {k : String} {y : List Char} (hk : ¬ EndsLikeId k)
    (h : idPattern.Replaces F y out) :
    idPattern.Replaces F (writeString k ++ ':' :: y) (writeString k ++ ':' :: out) := by
  have hno : ∀ u, '"' :: u <:+ '"' :: k.toList →
      idPattern.matchAt ('"' :: (escape u ++ '"' :: ':' :: y)) = none := by
    intro u hu
    cases hmatch : idPattern.matchAt ('"' :: (escape u ++ '"' :: ':' :: y)) with
    | none => rfl
    | some r =>
      obtain ⟨rfl, -⟩ := eq_id_of_matchAt (.inl rfl) hmatch
      exact absurd hu hk
  have hcolon : idPattern.Replaces F (':' :: y) (':' :: out) :=
    h.cons (matchAt_of_ne (by decide) _)
  have hclosing := hcolon.cons (matchAt_closing (by decide))
  have hbody := replaces_escape (t := k.toList)
    (fun u hu => hno u (hu.trans (List.suffix_cons _ _))) hclosing
  have hall := hbody.cons (hno k.toList List.suffix_rfl)
  simpa [writeString] using hall

theorem EndsLikeId.cases {k : String} (h : EndsLikeId k) :
    k.toList = ['i', 'd'] ∨ ∃ t, k.toList = t ++ ['"', 'i', 'd'] := by
  rcases List.suffix_cons_iff.mp h with heq | ⟨t, ht⟩
  · exact .inl (List.cons.inj heq).2.symm
  · exact .inr ⟨t, ht.symm⟩

theorem escape_append (t u : List Char) : escape (t ++ u) = escape t ++ escape u := by
  simp [escape]

/-- A key that ends with `"id"` is left as it is, and its value is replaced. -/
theorem replaces_idKey {k : String} {value lit : List Char} (hk : EndsLikeId k)
    (hlit : Regex.isLiteral ("\"id\":".toList ++ lit) = true)
    (hvalue : ∀ c ∈ value, isIdChar c = true) (hrest : ∀ c ∈ rest.head?, isIdChar c = false)
    (h : idPattern.Replaces ("\"id\":".toList ++ lit) rest out) :
    idPattern.Replaces ("\"id\":".toList ++ lit) (writeString k ++ ':' :: (value ++ rest))
      (writeString k ++ ':' :: (lit ++ out)) := by
  have hdrop : (value ++ rest).dropWhile isIdChar = rest := by
    rw [List.dropWhile_append_of_pos hvalue]
    cases rest with
    | nil => rfl
    | cons c rest => exact List.dropWhile_cons_of_neg (by simp [hrest c rfl])
  have hmatch := matchAt_key (value ++ rest)
  rw [hdrop] at hmatch
  have hhit := Regex.Pattern.Replaces.hit hlit hmatch h
  rcases hk.cases with hk | ⟨t, ht⟩
  · simpa [writeString, hk, escape, escapeChar] using hhit
  · -- the quote before `id` is escaped
    have hno : ∀ u, idPattern.matchAt ('"' :: (escape u ++
        '\\' :: '"' :: 'i' :: 'd' :: '"' :: ':' :: (value ++ rest))) = none := by
      intro u
      cases hmatch : idPattern.matchAt ('"' :: (escape u ++
          '\\' :: '"' :: 'i' :: 'd' :: '"' :: ':' :: (value ++ rest))) with
      | none => rfl
      | some r =>
        obtain ⟨-, z, hz, -⟩ := eq_id_of_matchAt (.inr rfl) hmatch
        exact absurd (List.cons.inj hz).1 (by decide)
    have hslash := hhit.cons (c := '\\') (matchAt_of_ne (by decide) _)
    have hbody := (replaces_escape (t := t) (fun u _ => hno u) hslash).cons (hno t)
    simpa [writeString, ht, escape, escapeChar] using hbody

end Strings

section Documents

variable {F : NumberFormat N} {idText : String}

/-- The member is one that the substitution leaves as it is. -/
def Harmless (idText : String) (k : String) (v : Value N) : Prop :=
  EndsLikeId k → v = .str idText ∧ ∀ c ∈ idText.toList, isIdChar c = true

/-- The identifier stands for itself in a string literal and in a replacement text. -/
structure StandsForItself (idText : String) : Prop where
  unescaped : escape idText.toList = idText.toList
  literal : Regex.isLiteral ("\"id\":".toList ++ writeString idText) = true

/-- The replacement text. -/
def idMember (idText : String) : List Char := "\"id\":".toList ++ writeString idText

theorem quote_notMem_write_num (n : N) : '"' ∉ F.write n :=
  fun h => absurd (F.isNumberChar_of_mem n _ h) (by decide)

theorem endsValue_writeItems (vs : List (Value N)) (rest : List Char) :
    EndsValue (writeItems F vs ++ rest) := by
  intro c hc
  cases vs <;> (cases hc; simp)

theorem head?_writeMembers (ms : List (String × Value N)) (rest : List Char) :
    ∀ c ∈ (writeMembers F ms ++ rest).head?, c = ',' ∨ c = '}' := by
  intro c hc
  cases ms <;> (cases hc; simp)

theorem endsValue_of_head? {rest : List Char} (h : ∀ c ∈ rest.head?, c = ',' ∨ c = '}') :
    EndsValue rest := by
  intro c hc
  rcases h c hc with rfl | rfl
  · simp
  · simp

theorem isIdChar_of_mem_writeString (hs : StandsForItself idText)
    (hchars : ∀ c ∈ idText.toList, isIdChar c = true) :
    ∀ c ∈ writeString idText, isIdChar c = true := by
  intro c hc
  simp only [writeString, hs.unescaped, List.cons_append, List.mem_cons, List.mem_append] at hc
  rcases hc with rfl | hc | rfl | hc
  · decide
  · exact hchars c hc
  · decide
  · cases hc

theorem replaces_member {k : String} {v : Value N} {rest out : List Char}
    (hs : StandsForItself idText) (hharm : Harmless idText k v)
    (hrest : ∀ c ∈ rest.head?, c = ',' ∨ c = '}')
    (hv : idPattern.Replaces (idMember idText) (write F v ++ rest) (write F v ++ out))
    (h : idPattern.Replaces (idMember idText) rest out) :
    idPattern.Replaces (idMember idText) (writeString k ++ ':' :: (write F v ++ rest))
      (writeString k ++ ':' :: (write F v ++ out)) := by
  by_cases hk : EndsLikeId k
  · obtain ⟨rfl, hchars⟩ := hharm hk
    rw [write]
    refine replaces_idKey hk hs.literal (isIdChar_of_mem_writeString hs hchars) ?_ h
    intro c hc
    rcases hrest c hc with rfl | rfl <;> decide
  · exact replaces_otherKey hk hv

mutual
/-- A document whose members are all harmless is left as it is. -/
theorem replaces_write (hs : StandsForItself idText) (v : Value N) {rest out : List Char}
    (hv : ForallMembers (Harmless idText) v) (hrest : EndsValue rest)
    (h : idPattern.Replaces (idMember idText) rest out) :
    idPattern.Replaces (idMember idText) (write F v ++ rest) (write F v ++ out) := by
  cases v with
  | null => exact replaces_noQuote (by simp [write]) h
  | bool b => cases b <;> exact replaces_noQuote (by simp [write]) h
  | num n => exact replaces_noQuote (quote_notMem_write_num n) h
  | str s => exact replaces_value hrest h
  | arr items =>
    cases items with
    | nil => exact replaces_noQuote (by simp [write]) h
    | cons v vs =>
      obtain ⟨hv, hvs⟩ := hv
      have hitems := replaces_writeItems hs vs hvs h
      have hfirst := replaces_write hs v hv (endsValue_writeItems vs rest) hitems
      simpa [write] using hfirst.cons (matchAt_of_ne (c := '[') (by decide) _)
  | obj members =>
    cases members with
    | nil => exact replaces_noQuote (by simp [write]) h
    | cons m ms =>
      obtain ⟨k, v⟩ := m
      obtain ⟨hkv, hv, hms⟩ := hv
      have hmembers := replaces_writeMembers hs ms hms h
      have hhead := head?_writeMembers (F := F) ms rest
      have hvalue := replaces_write hs v hv (endsValue_of_head? hhead) hmembers
      have hfirst := replaces_member hs hkv hhead hvalue hmembers
      simpa [write] using hfirst.cons (matchAt_of_ne (c := '{') (by decide) _)

theorem replaces_writeItems (hs : StandsForItself idText) (vs : List (Value N))
    {rest out : List Char} (hvs : ForallInItems (Harmless idText) vs)
    (h : idPattern.Replaces (idMember idText) rest out) :
    idPattern.Replaces (idMember idText) (writeItems F vs ++ rest)
      (writeItems F vs ++ out) := by
  cases vs with
  | nil => exact replaces_noQuote (by simp [writeItems]) h
  | cons v vs =>
    obtain ⟨hv, hvs⟩ := hvs
    have hitems := replaces_writeItems hs vs hvs h
    have hfirst := replaces_write hs v hv (endsValue_writeItems vs rest) hitems
    simpa [writeItems] using hfirst.cons (matchAt_of_ne (c := ',') (by decide) _)

theorem replaces_writeMembers (hs : StandsForItself idText) (ms : List (String × Value N))
    {rest out : List Char} (hms : ForallInMembers (Harmless idText) ms)
    (h : idPattern.Replaces (idMember idText) rest out) :
    idPattern.Replaces (idMember idText) (writeMembers F ms ++ rest)
      (writeMembers F ms ++ out) := by
  cases ms with
  | nil => exact replaces_noQuote (by simp [writeMembers]) h
  | cons m ms =>
    obtain ⟨k, v⟩ := m
    obtain ⟨hkv, hv, hms⟩ := hms
    have hmembers := replaces_writeMembers hs ms hms h
    have hhead := head?_writeMembers (F := F) ms rest
    have hvalue := replaces_write hs v hv (endsValue_of_head? hhead) hmembers
    have hfirst := replaces_member hs hkv hhead hvalue hmembers
    simpa [writeMembers] using hfirst.cons (matchAt_of_ne (c := ',') (by decide) _)
end

/-- The members of a description, from one on: the value of the first `id` is replaced. -/
theorem replaces_described {k : String} {v : Value N} {ms ms' : List (String × Value N)}
    {rest out : List Char} (hs : StandsForItself idText)
    (hid : k = "id" → ∀ c ∈ write F v, isIdChar c = true)
    (hother : k ≠ "id" → Harmless idText k v ∧ ForallMembers (Harmless idText) v)
    (h : idPattern.Replaces (idMember idText) (writeMembers F ms ++ rest)
      (writeMembers F ms' ++ out)) :
    idPattern.Replaces (idMember idText)
      (writeString k ++ ':' :: (write F v ++ (writeMembers F ms ++ rest)))
      (writeString k ++ ':' :: (write F (if k = "id" then .str idText else v) ++
        (writeMembers F ms' ++ out))) := by
  have hhead := head?_writeMembers (F := F) ms rest
  split_ifs with hk
  · subst hk
    refine replaces_idKey (by decide) hs.literal (hid rfl) ?_ h
    intro c hc
    rcases hhead c hc with rfl | rfl <;> decide
  · obtain ⟨hharm, hv⟩ := hother hk
    exact replaces_member hs hharm hhead
      (replaces_write hs v hv (endsValue_of_head? hhead) h) h

theorem setFirst_cons (k : String) (v w : Value N) (ms : List (String × Value N)) :
    setFirst "id" w ((k, v) :: ms) =
      (k, if k = "id" then w else v) :: (if k = "id" then ms else setFirst "id" w ms) := by
  rw [setFirst]
  split_ifs <;> rfl

/-- What the members of a description need for the substitution to be right. -/
structure ForwardableMembers (F : NumberFormat N) (idText : String)
    (ms : List (String × Value N)) : Prop where
  idChars : ∀ v, (ms.find? fun m => m.1 = "id") = some ("id", v) →
    ∀ c ∈ write F v, isIdChar c = true
  others : ForallInMembers (Harmless idText) (ms.eraseP fun m => m.1 = "id")

theorem ForwardableMembers.head {k : String} {v : Value N} {ms : List (String × Value N)}
    (h : ForwardableMembers F idText ((k, v) :: ms)) :
    (k = "id" → ∀ c ∈ write F v, isIdChar c = true) ∧
    (k ≠ "id" → Harmless idText k v ∧ ForallMembers (Harmless idText) v) := by
  constructor
  · rintro rfl
    exact h.idChars v (by simp)
  · intro hk
    have hothers := h.others
    rw [List.eraseP_cons_of_neg (by simp [hk])] at hothers
    exact ⟨hothers.1, hothers.2.1⟩

theorem ForwardableMembers.tail {k : String} {v : Value N} {ms : List (String × Value N)}
    (h : ForwardableMembers F idText ((k, v) :: ms)) (hk : k ≠ "id") :
    ForwardableMembers F idText ms := by
  have hothers := h.others
  rw [List.eraseP_cons_of_neg (by simp [hk])] at hothers
  refine ⟨?_, hothers.2.2⟩
  intro w hw
  exact h.idChars w (by rw [List.find?_cons_of_neg (by simp [hk]), hw])

/-- What follows a member of a description is replaced as it should be. -/
theorem replaces_tail {rest out : List Char} (hs : StandsForItself idText) {k : String}
    {v : Value N} {ms : List (String × Value N)}
    (hms : ForwardableMembers F idText ((k, v) :: ms))
    (hset : ForwardableMembers F idText ms → idPattern.Replaces (idMember idText)
      (writeMembers F ms ++ rest) (writeMembers F (setFirst "id" (.str idText) ms) ++ out))
    (h : idPattern.Replaces (idMember idText) rest out) :
    idPattern.Replaces (idMember idText) (writeMembers F ms ++ rest)
      (writeMembers F (if k = "id" then ms else setFirst "id" (.str idText) ms) ++ out) := by
  split_ifs with hk
  · have hothers := hms.others
    rw [List.eraseP_cons_of_pos (by simp [hk])] at hothers
    exact replaces_writeMembers hs ms hothers h
  · exact hset (hms.tail hk)

theorem replaces_setFirst {rest out : List Char} (hs : StandsForItself idText)
    (h : idPattern.Replaces (idMember idText) rest out) {ms : List (String × Value N)}
    (hms : ForwardableMembers F idText ms) :
    idPattern.Replaces (idMember idText) (writeMembers F ms ++ rest)
      (writeMembers F (setFirst "id" (.str idText) ms) ++ out) := by
  induction ms with
  | nil => exact replaces_noQuote (by simp [writeMembers]) h
  | cons m ms ih =>
    obtain ⟨k, v⟩ := m
    obtain ⟨hid, hother⟩ := hms.head
    have hfirst := replaces_described hs hid hother (replaces_tail hs hms ih h)
    rw [setFirst_cons]
    simpa [writeMembers] using hfirst.cons (matchAt_of_ne (c := ',') (by decide) _)

/-- The text of a description becomes the text of the description with the new identifier. -/
theorem replaceAll_description (hs : StandsForItself idText) {ms : List (String × Value N)}
    (hms : ForwardableMembers F idText ms) :
    idPattern.replaceAll (idMember idText) (write F (.obj ms)) =
      write F (.obj (setFirst "id" (.str idText) ms)) := by
  apply Regex.Pattern.Replaces.replaceAll
  have hnil : idPattern.Replaces (idMember idText) [] [] := Regex.Pattern.Replaces.nil
  cases ms with
  | nil => 
    have hnone : '"' ∉ ['{', '}'] := by simp
    simpa [write, setFirst] using replaces_noQuote hnone hnil
  | cons m ms =>
    obtain ⟨k, v⟩ := m
    obtain ⟨hid, hother⟩ := hms.head
    have hfirst := replaces_described hs hid hother
      (replaces_tail hs hms (replaces_setFirst hs hnil) hnil)
    rw [setFirst_cons]
    simpa [write] using hfirst.cons (matchAt_of_ne (c := '{') (by decide) _)

end Documents

/-- The conditions under which a description is forwarded unchanged but for its `id`: the new
identifier stands for itself, the old one holds no separator of the regular expression, and no
other member has a name that ends like an `id` member, unless it holds the new identifier. -/
structure Forwardable (num : Numbers N) (desc : Value N) (idText : String) : Prop where
  identifier : StandsForItself idText
  members : ∀ ms, desc = .obj ms → ForwardableMembers num.toNumberFormat idText ms

theorem replacementStr_eq {id : JobIdentifier} (h : StandsForItself id.toString) :
    replacementStr id = idMember id.toString := by
  have hopening : "\"id\":\"".toList = "\"id\":".toList ++ ['"'] := by decide
  unfold replacementStr idMember writeString
  rw [hopening, h.unescaped]
  generalize "\"id\":".toList = opening
  simp

/-- The text of an accepted description, and that it describes an object. -/
theorem fromJson_text {desc : Value N} {wl : Workload} {errorPrefix : String} {j : DescribedJob}
    (h : Job.fromJson num desc wl errorPrefix = .ok j) :
    j.jsonDescription.toList = describedText num desc j.id ∧ ∃ ms, desc = .obj ms := by
  simp only [Job.fromJson, bind_eq_ok, xbtAssert_eq_ok] at h
  obtain ⟨_, hobject, s, hs, id, hid, subtime, -, walltime, -, _, -, res, -, _, -, name, -, _, -,
    profile, -, _, -, ranks, -, hj⟩ := h
  cases hj
  refine ⟨by simp, ?_⟩
  cases desc with
  | obj ms => exact ⟨ms, rfl⟩
  | _ => cases hobject

/-- A forwardable description is forwarded with its new identifier and nothing else changed. -/
theorem description_is_forwarded {desc : Value N} {wl : Workload} {errorPrefix : String}
    {j : DescribedJob} (h : Job.fromJson num desc wl errorPrefix = .ok j)
    (hforward : Forwardable num desc j.id.toString) :
    parse num.toNumberFormat j.jsonDescription.toList =
      some (desc.setMember "id" (.str j.id.toString)) := by
  obtain ⟨htext, ms, rfl⟩ := fromJson_text h
  have hreplaced : describedText num (.obj ms) j.id =
      write num.toNumberFormat (.obj (setFirst "id" (.str j.id.toString) ms)) := by
    rw [describedText, replacementStr_eq hforward.identifier]
    exact replaceAll_description hforward.identifier (hforward.members ms rfl)
  rw [htext, hreplaced]
  exact parse_write _

/-- A description with a member that only the scheduler reads. -/
def descriptionWithUser (user : Value Int) : Value Int :=
  .obj [("id", .str "1"), ("subtime", .num 0), ("res", .num 1), ("profile", .str "p"),
    ("user", user)]

theorem user_member_is_forwarded :
    ∃ j, Job.fromJson integerNumbers (descriptionWithUser (.arr [.str "(2,3)", .num 4]))
        (describingWorkload "w") "" = .ok j ∧
      parse integers j.jsonDescription.toList =
        some ((descriptionWithUser (.arr [.str "(2,3)", .num 4])).setMember "id"
          (.str j.id.toString)) := by
  obtain ⟨j, hj, hid⟩ := exists_of_succeedsWith (P := fun j => j.id.toString = "w!1")
    (x := Job.fromJson integerNumbers (descriptionWithUser (.arr [.str "(2,3)", .num 4]))
      (describingWorkload "w") "")
    (by decide +kernel)
  have hid : j.id.toString = "w!1" := of_decide_eq_true hid
  refine ⟨j, hj, description_is_forwarded hj ?_⟩
  rw [hid]
  refine ⟨⟨by decide, by decide⟩, ?_⟩
  rintro ms hms
  cases hms
  constructor
  · intro v hv
    have hstr : v = .str "1" := by simpa using hv.symm
    have hall : (write integers (.str "1")).all isIdChar = true := by decide
    rw [hstr]
    exact List.all_eq_true.mp hall
  · have hkey : ∀ k v, ¬ EndsLikeId k → Harmless (N := Int) "w!1" k v :=
      fun k v hk h => absurd h hk
    exact ⟨hkey _ _ (by decide), trivial, hkey _ _ (by decide), trivial, hkey _ _ (by decide),
      trivial, hkey _ _ (by decide), ⟨trivial, trivial, trivial⟩, trivial⟩

/-- What the scheduler reads under `id` in the `user` member of a forwarded description. -/
def userId (j : DescribedJob) : Option String :=
  match parse integers j.jsonDescription.toList with
  | some doc =>
    match (doc.member? "user").bind (·.member? "id") with
    | some (.str s) => some s
    | _ => none
  | none => none

/-- The substitution also changes the `id` of an object inside of the description. -/
theorem nested_id_is_overwritten :
    ∃ j, Job.fromJson integerNumbers (descriptionWithUser (.obj [("id", .str "x")]))
        (describingWorkload "w") "" = .ok j ∧ userId j = some "w!1" ∧
      parse integers j.jsonDescription.toList ≠
        some ((descriptionWithUser (.obj [("id", .str "x")])).setMember "id"
          (.str j.id.toString)) := by
  obtain ⟨j, hj, huser⟩ := exists_of_succeedsWith (P := fun j => userId j = some "w!1")
    (x := Job.fromJson integerNumbers (descriptionWithUser (.obj [("id", .str "x")]))
      (describingWorkload "w") "")
    (by decide +kernel)
  have huser : userId j = some "w!1" := of_decide_eq_true huser
  refine ⟨j, hj, huser, ?_⟩
  intro h
  have hx : userId j = some "x" := by
    rw [userId, h]
    rfl
  exact absurd (huser.symm.trans hx) (by decide)

end Batsim
