import Mathlib.Data.List.Basic

/-!
JSON documents: their values, the text that is written of one, without blanks, and the reading of a
text. The numbers are those of a number format.
-/

namespace Json

/-- The characters that a number is written with. -/
def isNumberChar (c : Char) : Bool :=
  c.isDigit || c = '+' || c = '-' || c = '.' || c = 'e' || c = 'E'

/-- How numbers are written and read. -/
structure NumberFormat (N : Type) where
  write : N → List Char
  read : List Char → Option N
  write_ne_nil : ∀ n, write n ≠ []
  isNumberChar_of_mem : ∀ n, ∀ c ∈ write n, isNumberChar c = true
  read_write : ∀ n, read (write n) = some n

private theorem isNumberChar_of_isDigit {c : Char} (h : c.isDigit = true) :
    isNumberChar c = true := by
  simp [isNumberChar, h]

/-- The integers, in base ten. -/
def integers : NumberFormat Int where
  write z := (if z < 0 then ['-'] else []) ++ Nat.toDigits 10 z.natAbs
  read
    | '-' :: ds => if ds.all Char.isDigit then some (-(Nat.ofDigitChars 10 ds 0 : Nat)) else none
    | ds => if ds.all Char.isDigit then some (Nat.ofDigitChars 10 ds 0) else none
  write_ne_nil z := by simp [Nat.toDigits_ne_nil]
  isNumberChar_of_mem z c hc := by
    rcases List.mem_append.mp hc with hc | hc
    · split at hc
      · rw [List.mem_singleton.mp hc]
        decide
      · cases hc
    · exact isNumberChar_of_isDigit (Nat.isDigit_of_mem_toDigits (by decide) (by decide) hc)
  read_write z := by
    have hall : (Nat.toDigits 10 z.natAbs).all Char.isDigit = true := by
      rw [List.all_eq_true]
      exact fun c hc => Nat.isDigit_of_mem_toDigits (by decide) (by decide) hc
    have hvalue : Nat.ofDigitChars 10 (Nat.toDigits 10 z.natAbs) 0 = z.natAbs :=
      Nat.ofDigitChars_toDigits (by decide) (by decide)
    split_ifs with hneg
    · simp only [List.singleton_append, hall, hvalue, if_true, Option.some.injEq]
      omega
    · rw [List.nil_append]
      split
      · next ds heq =>
        have hdigit : Char.isDigit '-' = true := by
          rw [heq] at hall
          exact List.all_eq_true.mp hall '-' (by simp)
        exact absurd hdigit (by decide)
      · rw [if_pos hall, hvalue, Option.some.injEq]
        omega

/-- A document. An object lists its members in their order, names repeated or not. -/
inductive Value (N : Type) where
  | null
  | bool (b : Bool)
  | num (n : N)
  | str (s : String)
  | arr (items : List (Value N))
  | obj (members : List (String × Value N))

variable {N : Type}

/-- The first member of an object under a name. -/
def Value.member? (name : String) : Value N → Option (Value N)
  | .obj members => (members.find? fun m => m.1 = name).map Prod.snd
  | _ => none

mutual
/-- Every member of every object of the document satisfies `P`. -/
def ForallMembers (P : String → Value N → Prop) : Value N → Prop
  | .arr vs => ForallInItems P vs
  | .obj ms => ForallInMembers P ms
  | _ => True

def ForallInItems (P : String → Value N → Prop) : List (Value N) → Prop
  | [] => True
  | v :: vs => ForallMembers P v ∧ ForallInItems P vs

def ForallInMembers (P : String → Value N → Prop) : List (String × Value N) → Prop
  | [] => True
  | (k, v) :: ms => P k v ∧ ForallMembers P v ∧ ForallInMembers P ms
end

/-- The first member under a name, changed. -/
def setFirst (name : String) (v : Value N) : List (String × Value N) → List (String × Value N)
  | [] => []
  | (k, w) :: ms => if k = name then (k, v) :: ms else (k, w) :: setFirst name v ms

/-- The document in which the first member under a name is changed. -/
def Value.setMember (w : Value N) (name : String) (v : Value N) : Value N :=
  match w with
  | .obj ms => .obj (setFirst name v ms)
  | w => w

/-- The hexadecimal digit of a number below 16. -/
def hexDigit (n : Nat) : Char :=
  if n < 10 then Char.ofNat (48 + n) else Char.ofNat (55 + n)

/-- A character in a string literal. -/
def escapeChar (c : Char) : List Char :=
  if c = '"' then ['\\', '"']
  else if c = '\\' then ['\\', '\\']
  else if c = '\x08' then ['\\', 'b']
  else if c = '\x0c' then ['\\', 'f']
  else if c = '\n' then ['\\', 'n']
  else if c = '\r' then ['\\', 'r']
  else if c = '\t' then ['\\', 't']
  else if c.toNat < 32 then ['\\', 'u', '0', '0', hexDigit (c.toNat / 16), hexDigit (c.toNat % 16)]
  else [c]

def escape (cs : List Char) : List Char := cs.flatMap escapeChar

def writeString (s : String) : List Char := '"' :: escape s.toList ++ ['"']

mutual
/-- The text of a document. -/
def write (F : NumberFormat N) : Value N → List Char
  | .null => ['n', 'u', 'l', 'l']
  | .bool true => ['t', 'r', 'u', 'e']
  | .bool false => ['f', 'a', 'l', 's', 'e']
  | .num n => F.write n
  | .str s => writeString s
  | .arr [] => ['[', ']']
  | .arr (v :: vs) => '[' :: (write F v ++ writeItems F vs)
  | .obj [] => ['{', '}']
  | .obj ((k, v) :: ms) => '{' :: (writeString k ++ ':' :: (write F v ++ writeMembers F ms))

/-- The rest of an array, after an item. -/
def writeItems (F : NumberFormat N) : List (Value N) → List Char
  | [] => [']']
  | v :: vs => ',' :: (write F v ++ writeItems F vs)

/-- The rest of an object, after a member. -/
def writeMembers (F : NumberFormat N) : List (String × Value N) → List Char
  | [] => ['}']
  | (k, v) :: ms => ',' :: (writeString k ++ ':' :: (write F v ++ writeMembers F ms))
end

def isBlank (c : Char) : Bool := c = ' ' || c = '\n' || c = '\r' || c = '\t'

def skipBlanks (cs : List Char) : List Char := cs.dropWhile isBlank

def hexValue (c : Char) : Option Nat :=
  if '0' ≤ c ∧ c ≤ '9' then some (c.toNat - 48)
  else if 'A' ≤ c ∧ c ≤ 'F' then some (c.toNat - 55)
  else if 'a' ≤ c ∧ c ≤ 'f' then some (c.toNat - 87)
  else none

/-- The number of four hexadecimal digits. -/
def hexCode (a b c d : Char) : Option Nat := do
  let a ← hexValue a
  let b ← hexValue b
  let c ← hexValue c
  let d ← hexValue d
  some (4096 * a + 256 * b + 16 * c + d)

/-- The character of an escape sequence of two characters. -/
def unescape (e : Char) : Option Char :=
  if e = '"' ∨ e = '\\' ∨ e = '/' then some e
  else if e = 'b' then some '\x08'
  else if e = 'f' then some '\x0c'
  else if e = 'n' then some '\n'
  else if e = 'r' then some '\r'
  else if e = 't' then some '\t'
  else none

/-- The rest of a string literal, with what follows it. -/
def parseChars : List Char → Option (List Char × List Char)
  | [] => none
  | '"' :: cs => some ([], cs)
  | '\\' :: 'u' :: a :: b :: c :: d :: cs => do
    let code ← hexCode a b c d
    if code < 0xD800 ∨ 0xDFFF < code then
      let (s, cs) ← parseChars cs
      some (Char.ofNat code :: s, cs)
    else if code < 0xDC00 then
      -- the second half of a surrogate pair has to follow
      match cs with
      | '\\' :: 'u' :: a' :: b' :: c' :: d' :: cs => do
        let low ← hexCode a' b' c' d'
        if 0xDC00 ≤ low ∧ low ≤ 0xDFFF then
          let (s, cs) ← parseChars cs
          some (Char.ofNat (0x10000 + 1024 * (code - 0xD800) + (low - 0xDC00)) :: s, cs)
        else none
      | _ => none
    else none
  | '\\' :: e :: cs => do
    let c ← unescape e
    let (s, cs) ← parseChars cs
    some (c :: s, cs)
  | c :: cs =>
    if c.toNat < 32 ∨ c = '\\' then none
    else do
      let (s, cs) ← parseChars cs
      some (c :: s, cs)

/-- A string literal, with what follows it. -/
def parseString : List Char → Option (String × List Char)
  | '"' :: cs => (parseChars cs).map fun r => (String.ofList r.1, r.2)
  | _ => none

mutual
/-- A value, with what follows it. The depth of the recursion is bounded. -/
def parseValue (F : NumberFormat N) : Nat → List Char → Option (Value N × List Char)
  | 0, _ => none
  | depth + 1, cs =>
    match cs with
    | 'n' :: 'u' :: 'l' :: 'l' :: cs => some (.null, cs)
    | 't' :: 'r' :: 'u' :: 'e' :: cs => some (.bool true, cs)
    | 'f' :: 'a' :: 'l' :: 's' :: 'e' :: cs => some (.bool false, cs)
    | '"' :: cs => (parseString ('"' :: cs)).map fun r => (.str r.1, r.2)
    | '[' :: cs =>
      match skipBlanks cs with
      | ']' :: cs => some (.arr [], cs)
      | cs => do
        let (v, cs) ← parseValue F depth cs
        let (vs, cs) ← parseItems F depth cs
        some (.arr (v :: vs), cs)
    | '{' :: cs =>
      match skipBlanks cs with
      | '}' :: cs => some (.obj [], cs)
      | cs => do
        let (m, cs) ← parseMember F depth cs
        let (ms, cs) ← parseMembers F depth cs
        some (.obj (m :: ms), cs)
    | cs => (F.read (cs.takeWhile isNumberChar)).map fun n => (.num n, cs.dropWhile isNumberChar)

def parseItems (F : NumberFormat N) : Nat → List Char → Option (List (Value N) × List Char)
  | 0, _ => none
  | depth + 1, cs =>
    match skipBlanks cs with
    | ']' :: cs => some ([], cs)
    | ',' :: cs => do
      let (v, cs) ← parseValue F depth (skipBlanks cs)
      let (vs, cs) ← parseItems F depth cs
      some (v :: vs, cs)
    | _ => none

def parseMember (F : NumberFormat N) : Nat → List Char → Option ((String × Value N) × List Char)
  | 0, _ => none
  | depth + 1, cs => do
    let (k, cs) ← parseString cs
    match skipBlanks cs with
    | ':' :: cs => do
      let (v, cs) ← parseValue F depth (skipBlanks cs)
      some ((k, v), cs)
    | _ => none

def parseMembers (F : NumberFormat N) :
    Nat → List Char → Option (List (String × Value N) × List Char)
  | 0, _ => none
  | depth + 1, cs =>
    match skipBlanks cs with
    | '}' :: cs => some ([], cs)
    | ',' :: cs => do
      let (m, cs) ← parseMember F depth (skipBlanks cs)
      let (ms, cs) ← parseMembers F depth cs
      some (m :: ms, cs)
    | _ => none
end

/-- The document of a text. -/
def parse (F : NumberFormat N) (cs : List Char) : Option (Value N) := do
  let (v, cs) ← parseValue F (cs.length + 1) (skipBlanks cs)
  if skipBlanks cs = [] then some v else none

theorem parseChars_quote (cs : List Char) : parseChars ('"' :: cs) = some ([], cs) := by
  simp [parseChars]

/-- A character that needs no escaping is read as itself. -/
theorem parseChars_plain {c : Char} (hquote : c ≠ '"') (hslash : c ≠ '\\') (hcontrol : 32 ≤ c.toNat)
    (cs : List Char) :
    parseChars (c :: cs) = (parseChars cs).map fun r => (c :: r.1, r.2) := by
  rw [parseChars.eq_def]
  split
  · next h => cases h
  · next h => exact absurd (List.cons.inj h).1 hquote
  · next h => exact absurd (List.cons.inj h).1 hslash
  · next h => exact absurd (List.cons.inj h).1 hslash
  · next d ds _ _ h =>
    obtain ⟨rfl, rfl⟩ := List.cons.inj h
    rw [if_neg (by simp [hslash]; omega)]
    cases parseChars cs <;> rfl

private theorem parseChars_unescape {e c : Char} (h : unescape e = some c) (hu : e ≠ 'u')
    (cs : List Char) :
    parseChars ('\\' :: e :: cs) = (parseChars cs).map fun r => (c :: r.1, r.2) := by
  rw [parseChars.eq_def]
  split
  · next h' => cases h'
  · next h' => exact absurd (List.cons.inj h').1 (by decide)
  · next h' => exact absurd (List.cons.inj (List.cons.inj h').2).1 hu
  · next h' =>
    obtain ⟨-, h'⟩ := List.cons.inj h'
    obtain ⟨rfl, rfl⟩ := List.cons.inj h'
    rw [h]
    cases parseChars cs <;> rfl
  · next hno h' =>
    obtain ⟨rfl, rfl⟩ := List.cons.inj h'
    exact absurd rfl (hno e cs rfl)

private theorem hexCode_of_control :
    ∀ n < 32, hexCode '0' '0' (hexDigit (n / 16)) (hexDigit (n % 16)) = some n := by
  decide

private theorem parseChars_control {c : Char} (h : c.toNat < 32) (cs : List Char) :
    parseChars ('\\' :: 'u' :: '0' :: '0' :: hexDigit (c.toNat / 16) ::
        hexDigit (c.toNat % 16) :: cs) =
      (parseChars cs).map fun r => (c :: r.1, r.2) := by
  rw [parseChars]
  simp only [hexCode_of_control _ h]
  rw [Option.bind_eq_bind, Option.bind_some, if_pos (.inl (by omega)), Char.ofNat_toNat]
  cases parseChars cs <;> rfl

/-- Every character is read back from its escaping. -/
theorem parseChars_escapeChar (c : Char) (cs : List Char) :
    parseChars (escapeChar c ++ cs) = (parseChars cs).map fun r => (c :: r.1, r.2) := by
  unfold escapeChar
  split_ifs with hquote hslash hb hf hn hr ht hcontrol
  · subst hquote
    exact parseChars_unescape (by decide) (by decide) cs
  · subst hslash
    exact parseChars_unescape (by decide) (by decide) cs
  · subst hb
    exact parseChars_unescape (by decide) (by decide) cs
  · subst hf
    exact parseChars_unescape (by decide) (by decide) cs
  · subst hn
    exact parseChars_unescape (by decide) (by decide) cs
  · subst hr
    exact parseChars_unescape (by decide) (by decide) cs
  · subst ht
    exact parseChars_unescape (by decide) (by decide) cs
  · exact parseChars_control hcontrol cs
  · exact parseChars_plain hquote hslash (by omega) cs

theorem parseChars_escape (s cs : List Char) :
    parseChars (escape s ++ '"' :: cs) = some (s, cs) := by
  induction s with
  | nil => exact parseChars_quote cs
  | cons c s ih =>
    rw [escape, List.flatMap_cons, List.append_assoc, parseChars_escapeChar]
    rw [escape] at ih
    rw [ih]
    rfl

theorem parseString_writeString (s : String) (cs : List Char) :
    parseString (writeString s ++ cs) = some (s, cs) := by
  simp [writeString, parseString, parseChars_escape]

variable {F : NumberFormat N}

/-- No number goes on in the text. -/
def StopsNumber (cs : List Char) : Prop := ∀ c ∈ cs.head?, isNumberChar c = false

theorem stopsNumber_cons {c : Char} {cs : List Char} (h : isNumberChar c = false) :
    StopsNumber (c :: cs) := by
  intro d hd
  simp only [List.head?_cons, Option.mem_def, Option.some.injEq] at hd
  rw [← hd, h]

theorem stopsNumber_writeItems (vs : List (Value N)) (rest : List Char) :
    StopsNumber (writeItems F vs ++ rest) := by
  cases vs <;> exact stopsNumber_cons (by decide)

theorem stopsNumber_writeMembers (ms : List (String × Value N)) (rest : List Char) :
    StopsNumber (writeMembers F ms ++ rest) := by
  cases ms <;> exact stopsNumber_cons (by decide)

theorem skipBlanks_cons {c : Char} {cs : List Char} (h : isBlank c = false) :
    skipBlanks (c :: cs) = c :: cs := by
  simp [skipBlanks, h]

private theorem isBlank_of_isNumberChar {c : Char} (h : isNumberChar c = true) :
    isBlank c = false := by
  cases hb : isBlank c with
  | false => rfl
  | true =>
    simp only [isBlank, Bool.or_eq_true, decide_eq_true_eq] at hb
    obtain ((rfl | rfl) | rfl) | rfl := hb <;> exact absurd h (by decide)

/-- The first character of a document starts no blank and ends no array. -/
theorem exists_write_eq_cons (v : Value N) :
    ∃ c cs, write F v = c :: cs ∧ isBlank c = false ∧ c ≠ ']' := by
  cases v with
  | null => exact ⟨'n', _, rfl, by decide, by decide⟩
  | bool b => cases b <;> exact ⟨_, _, rfl, by decide, by decide⟩
  | num n =>
    obtain ⟨c, cs, hcs⟩ := List.exists_cons_of_ne_nil (F.write_ne_nil n)
    have hc : isNumberChar c = true := F.isNumberChar_of_mem n c (by simp [hcs])
    refine ⟨c, cs, by rw [write, hcs], isBlank_of_isNumberChar hc, ?_⟩
    rintro rfl
    exact absurd hc (by decide)
  | str s => exact ⟨'"', _, rfl, by decide, by decide⟩
  | arr items => cases items <;> exact ⟨'[', _, rfl, by decide, by decide⟩
  | obj members =>
    cases members with
    | nil => exact ⟨'{', _, rfl, by decide, by decide⟩
    | cons m ms => exact ⟨'{', _, rfl, by decide, by decide⟩

theorem skipBlanks_write (v : Value N) (rest : List Char) :
    skipBlanks (write F v ++ rest) = write F v ++ rest := by
  obtain ⟨c, cs, hcs, hblank, -⟩ := exists_write_eq_cons (F := F) v
  rw [hcs]
  exact skipBlanks_cons hblank

theorem takeWhile_write {n : N} {rest : List Char} (h : StopsNumber rest) :
    (F.write n ++ rest).takeWhile isNumberChar = F.write n ∧
      (F.write n ++ rest).dropWhile isNumberChar = rest := by
  have hall : ∀ c ∈ F.write n, isNumberChar c = true := F.isNumberChar_of_mem n
  have hrest : rest.takeWhile isNumberChar = [] ∧ rest.dropWhile isNumberChar = rest := by
    cases rest with
    | nil => exact ⟨rfl, rfl⟩
    | cons c cs =>
      have hc : isNumberChar c = false := h c rfl
      simp [hc]
  rw [List.takeWhile_append_of_pos hall, List.dropWhile_append_of_pos hall, hrest.1, hrest.2]
  simp

theorem parseValue_num {n : N} {rest : List Char} (h : StopsNumber rest) (depth : Nat) :
    parseValue F (depth + 1) (F.write n ++ rest) = some (.num n, rest) := by
  have hfirst : ∀ d ds, F.write n ++ rest = d :: ds → isNumberChar d = true := by
    intro d ds heq
    obtain ⟨c, cs, hcs⟩ := List.exists_cons_of_ne_nil (F.write_ne_nil n)
    rw [hcs, List.cons_append, List.cons.injEq] at heq
    exact F.isNumberChar_of_mem n d (by simp [hcs, heq.1])
  obtain ⟨htake, hdrop⟩ := takeWhile_write (F := F) (n := n) h
  rw [parseValue.eq_def]
  simp only
  -- no other value starts with a character of a number
  split
  · next heq => exact absurd (hfirst _ _ heq) (by decide)
  · next heq => exact absurd (hfirst _ _ heq) (by decide)
  · next heq => exact absurd (hfirst _ _ heq) (by decide)
  · next heq => exact absurd (hfirst _ _ heq) (by decide)
  · next heq => exact absurd (hfirst _ _ heq) (by decide)
  · next heq => exact absurd (hfirst _ _ heq) (by decide)
  · rw [htake, hdrop, F.read_write]
    rfl

theorem parseMember_write {k : String} {v : Value N} {depth : Nat} {rest : List Char}
    (hv : parseValue F depth (write F v ++ rest) = some (v, rest)) :
    parseMember F (depth + 1) (writeString k ++ ':' :: (write F v ++ rest)) =
      some ((k, v), rest) := by
  rw [parseMember, parseString_writeString]
  simp [skipBlanks_cons (show isBlank ':' = false by decide), skipBlanks_write, hv]

theorem skipBlanks_writeString (k : String) (rest : List Char) :
    skipBlanks (writeString k ++ rest) = writeString k ++ rest :=
  skipBlanks_cons (by decide)

mutual
/-- What is written is read back, and nothing after it is read. -/
theorem parseValue_write (v : Value N) (depth : Nat) (rest : List Char)
    (hdepth : (write F v).length ≤ depth) (hrest : StopsNumber rest) :
    parseValue F depth (write F v ++ rest) = some (v, rest) := by
  obtain ⟨c, cs, hcs, -, -⟩ := exists_write_eq_cons (F := F) v
  obtain ⟨depth, rfl⟩ : ∃ d, depth = d + 1 := ⟨depth - 1, by
    rw [hcs, List.length_cons] at hdepth
    omega⟩
  clear hcs
  cases v with
  | null => simp [write, parseValue]
  | bool b => cases b <;> simp [write, parseValue]
  | num n => exact parseValue_num hrest depth
  | str s =>
    have hstring := parseString_writeString s rest
    simp only [writeString, List.cons_append, List.append_assoc, List.nil_append] at hstring
    simp [write, writeString, parseValue, hstring]
  | arr items =>
    cases items with
    | nil => simp [write, parseValue, skipBlanks, isBlank]
    | cons v vs =>
      simp only [write, List.length_cons, List.length_append] at hdepth
      have hv := parseValue_write v depth (writeItems F vs ++ rest) (by omega)
        (stopsNumber_writeItems vs rest)
      have hvs := parseItems_writeItems vs depth rest (by omega)
      obtain ⟨c, cs, hcs, -, hc⟩ := exists_write_eq_cons (F := F) v
      have hskip := skipBlanks_write (F := F) v (writeItems F vs ++ rest)
      rw [write, List.cons_append, List.append_assoc, parseValue]
      rw [hskip]
      split
      · next heq =>
        rw [hcs] at heq
        exact absurd (List.cons.inj heq).1 hc
      · rw [hv]
        simp [hvs]
  | obj members =>
    cases members with
    | nil => simp [write, parseValue, skipBlanks, isBlank]
    | cons m ms =>
      obtain ⟨k, v⟩ := m
      simp only [write, List.length_cons, List.length_append] at hdepth
      obtain ⟨d, rfl⟩ : ∃ d, depth = d + 1 := ⟨depth - 1, by omega⟩
      have hv := parseValue_write v d (writeMembers F ms ++ rest) (by omega)
        (stopsNumber_writeMembers ms rest)
      have hms := parseMembers_writeMembers ms (d + 1) rest (by omega)
      have hskip := skipBlanks_writeString k (':' :: (write F v ++ writeMembers F ms ++ rest))
      rw [List.append_assoc] at hskip
      rw [write, List.cons_append, List.append_assoc, List.cons_append, List.append_assoc,
        parseValue, hskip]
      split
      · next heq =>
        rw [writeString] at heq
        exact absurd (List.cons.inj heq).1 (by decide)
      · rw [parseMember_write hv]
        simp [hms]

theorem parseItems_writeItems (vs : List (Value N)) (depth : Nat) (rest : List Char)
    (hdepth : (writeItems F vs).length ≤ depth) :
    parseItems F depth (writeItems F vs ++ rest) = some (vs, rest) := by
  obtain ⟨depth, rfl⟩ : ∃ d, depth = d + 1 := ⟨depth - 1, by
    cases vs <;> simp only [writeItems, List.length_cons] at hdepth <;> omega⟩
  cases vs with
  | nil => simp [writeItems, parseItems, skipBlanks, isBlank]
  | cons v vs =>
    simp only [writeItems, List.length_cons, List.length_append] at hdepth
    have hv := parseValue_write v depth (writeItems F vs ++ rest) (by omega)
      (stopsNumber_writeItems vs rest)
    have hvs := parseItems_writeItems vs depth rest (by omega)
    have hskip := skipBlanks_write (F := F) v (writeItems F vs ++ rest)
    rw [writeItems, List.cons_append, List.append_assoc, parseItems,
      skipBlanks_cons (by decide)]
    simp [hskip, hv, hvs]

theorem parseMembers_writeMembers (ms : List (String × Value N)) (depth : Nat) (rest : List Char)
    (hdepth : (writeMembers F ms).length ≤ depth) :
    parseMembers F depth (writeMembers F ms ++ rest) = some (ms, rest) := by
  obtain ⟨depth, rfl⟩ : ∃ d, depth = d + 1 := ⟨depth - 1, by
    cases ms <;> simp only [writeMembers, List.length_cons] at hdepth <;> omega⟩
  cases ms with
  | nil => simp [writeMembers, parseMembers, skipBlanks, isBlank]
  | cons m ms =>
    obtain ⟨k, v⟩ := m
    simp only [writeMembers, List.length_cons, List.length_append] at hdepth
    obtain ⟨d, rfl⟩ : ∃ d, depth = d + 1 := ⟨depth - 1, by omega⟩
    have hv := parseValue_write v d (writeMembers F ms ++ rest) (by omega)
      (stopsNumber_writeMembers ms rest)
    have hms := parseMembers_writeMembers ms (d + 1) rest (by omega)
    have hskip := skipBlanks_writeString k (':' :: (write F v ++ writeMembers F ms ++ rest))
    rw [List.append_assoc] at hskip
    rw [writeMembers, List.cons_append, List.append_assoc, List.cons_append, List.append_assoc,
      parseMembers, skipBlanks_cons (by decide)]
    simp [hskip, parseMember_write hv, hms]
end

/-- The text of a document is read as that document. -/
theorem parse_write (v : Value N) : parse F (write F v) = some v := by
  have hskip := skipBlanks_write (F := F) v []
  rw [List.append_nil] at hskip
  have hstops : StopsNumber [] := by
    intro c hc
    cases hc
  have hparse := parseValue_write (F := F) v ((write F v).length + 1) [] (by omega) hstops
  rw [List.append_nil] at hparse
  rw [parse, hskip, hparse]
  rfl

end Json
