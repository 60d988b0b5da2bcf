import Mathlib.Data.List.Forall2

/-!
Comma-separated values. A field is plain text, or stands in quotes with its own quotes doubled; a
record ends with its line, a line with `LF` or `CR LF`, the last one with the text. What the reader
accepts is such a text, and a line that is written so is read back.
-/

namespace Csv

/-- A character that may stand in a plain field. -/
def Plain (c : Char) : Prop := c ≠ ',' ∧ c ≠ '"' ∧ c ≠ '\r' ∧ c ≠ '\n'

instance (c : Char) : Decidable (Plain c) := inferInstanceAs (Decidable (_ ∧ _))

/-- The text of a field between its quotes. -/
def escape : List Char → List Char
  | [] => []
  | c :: cs => (if c = '"' then ['"', '"'] else [c]) ++ escape cs

def quote (field : List Char) : List Char := '"' :: (escape field ++ ['"'])

/-- How a field is written. -/
inductive Written : List Char → List Char → Prop
  | plain {field : List Char} (h : ∀ c ∈ field, Plain c) : Written field field
  | quoted {field : List Char} : Written field (quote field)

/-- The texts of some fields, one after the other. -/
def line (texts : List (List Char)) : List Char := [','].intercalate texts

/-- The records of a text. -/
inductive Records : List Char → List (List (List Char)) → Prop
  | none : Records [] []
  | last {fields texts : List (List Char)} (hne : fields ≠ [])
      (h : List.Forall₂ Written fields texts) (htext : line texts ≠ []) :
      Records (line texts) [fields]
  | lf {fields texts : List (List Char)} {rest : List Char} {records : List (List (List Char))}
      (hne : fields ≠ []) (h : List.Forall₂ Written fields texts) (hrest : Records rest records) :
      Records (line texts ++ '\n' :: rest) (fields :: records)
  | crlf {fields texts : List (List Char)} {rest : List Char} {records : List (List (List Char))}
      (hne : fields ≠ []) (h : List.Forall₂ Written fields texts) (hrest : Records rest records) :
      Records (line texts ++ '\r' :: '\n' :: rest) (fields :: records)

/-- Where a reader is: in plain text, between quotes, after a quote that may close the field, after
a carriage return. -/
inductive Mode where
  | plain
  | quoted
  | closed
  | returned

/-- Reads on from a field and the fields before it in its record. -/
def readFrom : Mode → List Char → List (List Char) → List Char → Option (List (List (List Char)))
  | .plain, field, record, [] =>
    if field = [] ∧ record = [] then some [] else some [record ++ [field]]
  | .closed, field, record, [] => some [record ++ [field]]
  | .quoted, _, _, [] | .returned, _, _, [] => none
  | .plain, field, record, c :: rest =>
    if c = ',' then readFrom .plain [] (record ++ [field]) rest
    else if c = '\n' then (readFrom .plain [] [] rest).map ((record ++ [field]) :: ·)
    else if c = '\r' then readFrom .returned field record rest
    else if c = '"' then if field = [] then readFrom .quoted [] record rest else none
    else readFrom .plain (field ++ [c]) record rest
  | .quoted, field, record, c :: rest =>
    if c = '"' then readFrom .closed field record rest
    else readFrom .quoted (field ++ [c]) record rest
  | .closed, field, record, c :: rest =>
    if c = ',' then readFrom .plain [] (record ++ [field]) rest
    else if c = '\n' then (readFrom .plain [] [] rest).map ((record ++ [field]) :: ·)
    else if c = '\r' then readFrom .returned field record rest
    else if c = '"' then readFrom .quoted (field ++ ['"']) record rest
    else none
  | .returned, field, record, c :: rest =>
    if c = '\n' then (readFrom .plain [] [] rest).map ((record ++ [field]) :: ·) else none

def read (text : List Char) : Option (List (List (List Char))) := readFrom .plain [] [] text

/-! ### What is read was written so -/

theorem escape_append (field rest : List Char) :
    escape (field ++ rest) = escape field ++ escape rest := by
  induction field with
  | nil => rfl
  | cons c field ih => simp [escape, ih]

/-- The texts of the fields before the last one of a line, with their commas. -/
def leading (texts : List (List Char)) : List Char := texts.flatMap (· ++ [','])

theorem line_concat (texts : List (List Char)) (text : List Char) :
    line (texts ++ [text]) = leading texts ++ text := by
  induction texts with
  | nil => simp [line, leading]
  | cons t texts ih =>
    have hne : texts ++ [text] ≠ [] := by simp
    rw [line, List.cons_append, List.intercalate_cons_of_ne_nil hne, ← line, ih]
    simp [leading]

/-- The text of the current field, read so far. -/
def Current : Mode → List Char → List Char → Prop
  | .plain, field, text => text = field ∧ ∀ c ∈ field, Plain c
  | .quoted, field, text => text = '"' :: escape field
  | .closed, field, text => text = quote field
  | .returned, field, text => ∃ written, Written field written ∧ text = written ++ ['\r']

/-- The text of the current record, read so far. -/
def Reading (mode : Mode) (field : List Char) (record : List (List Char)) (text : List Char) :
    Prop :=
  ∃ texts current, List.Forall₂ Written record texts ∧ Current mode field current ∧
    text = leading texts ++ current

variable {mode : Mode} {field : List Char} {record : List (List Char)} {text rest : List Char}

theorem Reading.initial : Reading .plain [] [] [] :=
  ⟨[], [], .nil, ⟨rfl, by simp⟩, rfl⟩

theorem forall₂_concat {texts : List (List Char)} {written : List Char}
    (h : List.Forall₂ Written record texts) (hfield : Written field written) :
    List.Forall₂ Written (record ++ [field]) (texts ++ [written]) :=
  List.rel_append h (.cons hfield .nil)

/-- In a mode where a field may end, its text is that of the field. -/
theorem Current.written (h : Current mode field text) (hmode : mode = .plain ∨ mode = .closed) :
    Written field text := by
  rcases hmode with rfl | rfl
  · obtain ⟨rfl, hplain⟩ := h
    exact .plain hplain
  · rw [h]
    exact .quoted

theorem Reading.comma (h : Reading mode field record text)
    (hmode : mode = .plain ∨ mode = .closed) :
    Reading .plain [] (record ++ [field]) (text ++ [',']) := by
  obtain ⟨texts, current, hrecord, hcurrent, rfl⟩ := h
  refine ⟨texts ++ [current], [], forall₂_concat hrecord (hcurrent.written hmode),
    ⟨rfl, by simp⟩, ?_⟩
  simp [leading]

theorem Reading.carriageReturn (h : Reading mode field record text)
    (hmode : mode = .plain ∨ mode = .closed) :
    Reading .returned field record (text ++ ['\r']) := by
  obtain ⟨texts, current, hrecord, hcurrent, rfl⟩ := h
  exact ⟨texts, current ++ ['\r'], hrecord, ⟨current, hcurrent.written hmode, rfl⟩,
    List.append_assoc _ _ _⟩

/-- The record that ends here. -/
theorem Reading.ends (h : Reading mode field record text)
    (hmode : mode = .plain ∨ mode = .closed) :
    ∃ texts, List.Forall₂ Written (record ++ [field]) texts ∧ text = line texts := by
  obtain ⟨texts, current, hrecord, hcurrent, rfl⟩ := h
  exact ⟨texts ++ [current], forall₂_concat hrecord (hcurrent.written hmode),
    (line_concat texts current).symm⟩

theorem concat_ne_nil : record ++ [field] ≠ [] := by simp

theorem Reading.lineFeed {records : List (List (List Char))} (h : Reading mode field record text)
    (hmode : mode = .plain ∨ mode = .closed) (hrest : Records rest records) :
    Records (text ++ '\n' :: rest) ((record ++ [field]) :: records) := by
  obtain ⟨texts, hrecord, rfl⟩ := h.ends hmode
  exact .lf concat_ne_nil hrecord hrest

theorem Reading.returnedLineFeed {records : List (List (List Char))}
    (h : Reading .returned field record text) (hrest : Records rest records) :
    Records (text ++ '\n' :: rest) ((record ++ [field]) :: records) := by
  obtain ⟨texts, _, hrecord, ⟨written, hwritten, rfl⟩, rfl⟩ := h
  have hline := line_concat texts written
  have hrecords := Records.crlf concat_ne_nil (forall₂_concat hrecord hwritten) hrest
  rw [hline] at hrecords
  simpa using hrecords

theorem Reading.opened (h : Reading .plain [] record text) :
    Reading .quoted [] record (text ++ ['"']) := by
  obtain ⟨texts, _, hrecord, ⟨rfl, _⟩, rfl⟩ := h
  exact ⟨texts, ['"'], hrecord, rfl, by simp⟩

theorem Reading.plainCharacter {c : Char} (h : Reading .plain field record text) (hc : Plain c) :
    Reading .plain (field ++ [c]) record (text ++ [c]) := by
  obtain ⟨texts, _, hrecord, ⟨rfl, hfield⟩, rfl⟩ := h
  refine ⟨texts, _, hrecord, ⟨rfl, ?_⟩, List.append_assoc _ _ _⟩
  intro d hd
  rcases List.mem_append.mp hd with hd | hd
  · exact hfield d hd
  · rwa [List.mem_singleton.mp hd]

theorem Reading.quotedCharacter {c : Char} (h : Reading .quoted field record text)
    (hc : c ≠ '"') : Reading .quoted (field ++ [c]) record (text ++ [c]) := by
  obtain ⟨texts, _, hrecord, rfl, rfl⟩ := h
  refine ⟨texts, _, hrecord, rfl, ?_⟩
  simp [escape_append, escape, hc]

theorem Reading.closed (h : Reading .quoted field record text) :
    Reading .closed field record (text ++ ['"']) := by
  obtain ⟨texts, _, hrecord, rfl, rfl⟩ := h
  exact ⟨texts, _, hrecord, rfl, by simp [quote]⟩

theorem Reading.doubled (h : Reading .closed field record text) :
    Reading .quoted (field ++ ['"']) record (text ++ ['"']) := by
  obtain ⟨texts, _, hrecord, rfl, rfl⟩ := h
  refine ⟨texts, _, hrecord, rfl, ?_⟩
  simp [quote, escape_append, escape]

/-- What a reader makes of the rest of a text are the records of the whole, with what was read:
one case for each place a character may stand at. -/
theorem records_of_readFrom {records : List (List (List Char))}
    (h : readFrom mode field record rest = some records) (htext : Reading mode field record text) :
    Records (text ++ rest) records := by
  induction mode, field, record, rest using readFrom.induct generalizing text records with
  | case1 field record hnil =>
    obtain ⟨texts, current, hrecord, ⟨rfl, _⟩, rfl⟩ := htext
    rw [hnil.2] at hrecord
    cases hrecord
    rw [readFrom, if_pos hnil, Option.some.injEq] at h
    rw [← h, hnil.1]
    exact .none
  | case2 field record hsome =>
    rw [readFrom, if_neg hsome, Option.some.injEq] at h
    obtain ⟨texts, hrecord, hline⟩ := htext.ends (.inl rfl)
    rw [← h, List.append_nil, hline]
    refine .last concat_ne_nil hrecord ?_
    -- an empty line is an empty field alone
    intro hempty
    obtain ⟨leads, current, hleads, ⟨rfl, _⟩, htext⟩ := htext
    rw [← hline, htext, List.append_eq_nil_iff] at hempty
    refine hsome ⟨hempty.2, ?_⟩
    cases hleads with
    | nil => rfl
    | cons _ _ => simp [leading] at hempty
  | case3 field record =>
    rw [readFrom, Option.some.injEq] at h
    obtain ⟨texts, current, hrecord, hcurrent, rfl⟩ := htext
    have hwritten : Written field current := hcurrent.written (.inr rfl)
    rw [← h, List.append_nil, ← line_concat]
    refine .last concat_ne_nil (forall₂_concat hrecord hwritten) ?_
    rw [line_concat, hcurrent]
    simp [quote]
  | case4 | case5 => cases h
  | case6 field record rest ih =>
    rw [readFrom, if_pos rfl] at h
    simpa using ih h (htext.comma (.inl rfl))
  | case7 field record rest hc ih =>
    rw [readFrom, if_neg hc, if_pos rfl, Option.map_eq_some_iff] at h
    obtain ⟨records, hrest, rfl⟩ := h
    exact htext.lineFeed (.inl rfl) (ih hrest .initial)
  | case8 field record rest hc hlf ih =>
    rw [readFrom, if_neg hc, if_neg hlf, if_pos rfl] at h
    simpa using ih h (htext.carriageReturn (.inl rfl))
  | case9 record rest hc hlf hcr ih =>
    rw [readFrom, if_neg hc, if_neg hlf, if_neg hcr, if_pos rfl, if_pos rfl] at h
    simpa using ih h htext.opened
  | case10 field record rest hfield hc hlf hcr =>
    rw [readFrom, if_neg hc, if_neg hlf, if_neg hcr, if_pos rfl, if_neg hfield] at h
    cases h
  | case11 field record c rest hc hlf hcr hq ih =>
    rw [readFrom, if_neg hc, if_neg hlf, if_neg hcr, if_neg hq] at h
    simpa using ih h (htext.plainCharacter ⟨hc, hq, hcr, hlf⟩)
  | case12 field record rest ih =>
    rw [readFrom, if_pos rfl] at h
    simpa using ih h htext.closed
  | case13 field record c rest hq ih =>
    rw [readFrom, if_neg hq] at h
    simpa using ih h (htext.quotedCharacter hq)
  | case14 field record rest ih =>
    rw [readFrom, if_pos rfl] at h
    simpa using ih h (htext.comma (.inr rfl))
  | case15 field record rest hc ih =>
    rw [readFrom, if_neg hc, if_pos rfl, Option.map_eq_some_iff] at h
    obtain ⟨records, hrest, rfl⟩ := h
    exact htext.lineFeed (.inr rfl) (ih hrest .initial)
  | case16 field record rest hc hlf ih =>
    rw [readFrom, if_neg hc, if_neg hlf, if_pos rfl] at h
    simpa using ih h (htext.carriageReturn (.inr rfl))
  | case17 field record rest hc hlf hcr ih =>
    rw [readFrom, if_neg hc, if_neg hlf, if_neg hcr, if_pos rfl] at h
    simpa using ih h htext.doubled
  | case18 field record c rest hc hlf hcr hq =>
    rw [readFrom, if_neg hc, if_neg hlf, if_neg hcr, if_neg hq] at h
    cases h
  | case19 field record rest ih =>
    rw [readFrom, if_pos rfl, Option.map_eq_some_iff] at h
    obtain ⟨records, hrest, rfl⟩ := h
    exact htext.returnedLineFeed (ih hrest .initial)
  | case20 field record c rest hlf =>
    rw [readFrom, if_neg hlf] at h
    cases h

/-! ### What is written so is read back -/

theorem readFrom_plain {more : List Char} (hmore : ∀ c ∈ more, Plain c) :
    readFrom .plain field record (more ++ rest) = readFrom .plain (field ++ more) record rest := by
  induction more generalizing field with
  | nil => simp
  | cons c more ih =>
    obtain ⟨hc, hq, hcr, hlf⟩ := hmore c List.mem_cons_self
    rw [List.cons_append, readFrom, if_neg hc, if_neg hlf, if_neg hcr, if_neg hq,
      ih fun d hd => hmore d (List.mem_cons_of_mem c hd), List.append_assoc]
    rfl

theorem readFrom_escape (more : List Char) :
    readFrom .quoted field record (escape more ++ '"' :: rest) =
      readFrom .closed (field ++ more) record rest := by
  induction more generalizing field with
  | nil => simp [escape, readFrom]
  | cons c more ih =>
    by_cases hq : c = '"'
    · subst hq
      simp [escape, readFrom, ih]
    · simp [escape, readFrom, hq, ih]

/-- Where a field ends: at a comma or at the end of the line. -/
inductive Ends : List Char → Prop
  | comma {rest : List Char} : Ends (',' :: rest)
  | lf {rest : List Char} : Ends ('\n' :: rest)

/-- A field is closed or not, its end is read alike. -/
theorem readFrom_closed (h : Ends rest) :
    readFrom .closed field record rest = readFrom .plain field record rest := by
  cases h <;> simp [readFrom]

theorem readFrom_written {written : List Char} (h : Written field written) (hrest : Ends rest) :
    readFrom .plain [] record (written ++ rest) = readFrom .plain field record rest := by
  cases h with
  | plain hplain => exact readFrom_plain hplain
  | quoted =>
    rw [quote, List.cons_append, List.append_assoc, List.singleton_append, readFrom]
    simp only [Char.reduceEq, if_false, if_true]
    rw [readFrom_escape, readFrom_closed hrest]
    rfl

theorem readFrom_line {fields texts : List (List Char)} (hne : fields ≠ [])
    (h : List.Forall₂ Written fields texts) :
    readFrom .plain [] record (line texts ++ '\n' :: rest) =
      (readFrom .plain [] [] rest).map ((record ++ fields) :: ·) := by
  induction h generalizing record with
  | nil => exact absurd rfl hne
  | @cons field text fields texts hfield htexts ih =>
    cases htexts with
    | nil =>
      rw [line, List.intercalate_singleton, readFrom_written hfield .lf, readFrom]
      rfl
    | @cons field' text' fields texts hfield' htexts =>
      have hline : line (text :: text' :: texts) ++ '\n' :: rest =
          text ++ ',' :: (line (text' :: texts) ++ '\n' :: rest) := by
        simp [line]
      rw [hline, readFrom_written hfield .comma, readFrom, if_pos rfl,
        ih (List.cons_ne_nil _ _), List.append_assoc]
      rfl

/-- A line of fields, however each is written, is read back as one record. -/
theorem read_line {fields texts : List (List Char)} (hne : fields ≠ [])
    (h : List.Forall₂ Written fields texts) : read (line texts ++ ['\n']) = some [fields] :=
  readFrom_line hne h

/-- One record that is read from a line was written there. -/
theorem written_of_read {fields : List (List Char)} (h : read text = some [fields]) :
    ∃ texts, List.Forall₂ Written fields texts ∧
      (text = line texts ∨ text = line texts ++ ['\n'] ∨ text = line texts ++ ['\r', '\n']) := by
  have hrecords := records_of_readFrom h .initial
  rw [List.nil_append] at hrecords
  cases hrecords with
  | last _ hwritten _ => exact ⟨_, hwritten, .inl rfl⟩
  | lf _ hwritten hrest =>
    cases hrest
    exact ⟨_, hwritten, .inr (.inl rfl)⟩
  | crlf _ hwritten hrest =>
    cases hrest
    exact ⟨_, hwritten, .inr (.inr rfl)⟩

/-! ### Fields written as they are -/

theorem length_le_escape (field : List Char) : field.length ≤ (escape field).length := by
  induction field with
  | nil => exact Nat.le_refl 0
  | cons c field ih =>
    rw [escape, List.length_append, List.length_cons]
    split <;> simp only [List.length_cons, List.length_nil] <;> omega

theorem escape_eq_self (h : '"' ∉ field) : escape field = field := by
  induction field with
  | nil => rfl
  | cons c field ih =>
    rw [List.mem_cons, not_or] at h
    rw [escape, if_neg (Ne.symm h.1), ih h.2]
    rfl

/-- A field takes at least its own length, and just that when it is plain. -/
theorem Written.length_le {written : List Char} (h : Written field written) :
    field.length ≤ written.length ∧
      (written.length ≤ field.length → ∀ c ∈ field, Plain c) := by
  cases h with
  | plain hplain => exact ⟨Nat.le_refl _, fun _ => hplain⟩
  | quoted =>
    have hescape := length_le_escape field
    have hlength : (quote field).length = (escape field).length + 2 := by simp [quote]
    exact ⟨by omega, fun hle => by omega⟩

theorem length_leading_le {fields texts : List (List Char)}
    (h : List.Forall₂ Written fields texts) :
    (leading fields).length ≤ (leading texts).length ∧
      ((leading texts).length ≤ (leading fields).length → ∀ f ∈ fields, ∀ c ∈ f, Plain c) := by
  induction h with
  | nil => simp
  | @cons field text fields texts hfield _ ih =>
    obtain ⟨hle, hplain⟩ := hfield.length_le
    have hcons : ∀ (t : List Char) (ts : List (List Char)),
        (leading (t :: ts)).length = t.length + 1 + (leading ts).length := by
      intro t ts
      rw [leading, List.flatMap_cons, List.length_append, List.length_append, List.length_singleton]
      rfl
    rw [hcons, hcons]
    refine ⟨by omega, fun hlength => ?_⟩
    rw [List.forall_mem_cons]
    exact ⟨hplain (by omega), ih.2 (by omega)⟩

theorem exists_concat {fields texts : List (List Char)} {last : List Char}
    (h : List.Forall₂ Written (fields ++ [last]) texts) :
    ∃ ts written, texts = ts ++ [written] ∧ List.Forall₂ Written fields ts ∧
      Written last written := by
  induction fields generalizing texts with
  | nil =>
    obtain ⟨written, rest, hwritten, hrest, rfl⟩ := List.forall₂_cons_left_iff.mp h
    rw [List.forall₂_nil_left_iff] at hrest
    exact ⟨[], written, by rw [hrest]; rfl, .nil, hwritten⟩
  | cons field fields ih =>
    obtain ⟨text, rest, hfield, hrest, rfl⟩ := List.forall₂_cons_left_iff.mp h
    obtain ⟨ts, written, rfl, hts, hwritten⟩ := ih hrest
    exact ⟨text :: ts, written, rfl, .cons hfield hts, hwritten⟩

/-- What a written line ends with: neither a line feed nor, for a field without quotes that stands
as it is, a quote. -/
theorem getLast_leading_plain {texts : List (List Char)} {c : Char} {front : List Char}
    (hplain : ∀ d ∈ field, Plain d) (h : leading texts ++ field = front ++ [c]) :
    c = ',' ∨ Plain c := by
  rcases List.eq_nil_or_concat field with rfl | ⟨init, d, rfl⟩
  · rw [List.append_nil] at h
    rcases List.eq_nil_or_concat texts with rfl | ⟨ts, t, rfl⟩
    · simp [leading] at h
    · have hlast : leading (ts.concat t) = (leading ts ++ t) ++ [','] := by simp [leading]
      rw [hlast] at h
      exact .inl (List.append_inj_right' h rfl |> List.singleton_inj.mp).symm
  · rw [List.concat_eq_append, ← List.append_assoc] at h
    have hd : [d] = [c] := List.append_inj_right' h rfl
    rw [← List.singleton_inj.mp hd]
    exact .inr (hplain d (by simp))

/-- A line of fields that are written as they are, but for a last one without quotes that is put in
quotes, is read back exactly when the fields before the last are plain. -/
theorem read_asIs_iff {fields : List (List Char)} {last : List Char} (hlast : '"' ∉ last) :
    read (line (fields ++ ['"' :: (last ++ ['"'])]) ++ ['\n']) = some [fields ++ [last]] ↔
      ∀ f ∈ fields, ∀ c ∈ f, Plain c := by
  have hquote : '"' :: (last ++ ['"']) = quote last := by rw [quote, escape_eq_self hlast]
  rw [hquote]
  constructor
  · intro h
    obtain ⟨texts, hwritten, htext⟩ := written_of_read h
    obtain ⟨texts, written, rfl, htexts, hwritten⟩ := exists_concat hwritten
    have hend : leading fields ++ quote last = (leading fields ++ '"' :: last) ++ ['"'] := by
      simp [hquote.symm]
    rw [line_concat, line_concat] at htext
    rcases htext with htext | htext | htext
    · -- a line feed ends no written line
      have hlf := htext.symm
      cases hwritten with
      | plain hplain =>
        rcases getLast_leading_plain hplain hlf with h | h
        · cases h
        · exact absurd rfl h.2.2.2
      | quoted =>
        rw [quote, ← List.cons_append, ← List.append_assoc] at hlf
        cases List.append_inj_right' hlf rfl
    · have hline := List.append_cancel_right htext
      cases hwritten with
      | plain hplain =>
        rw [hend] at hline
        rcases getLast_leading_plain hplain hline.symm with h | h
        · cases h
        · exact absurd rfl h.2.1
      | quoted =>
        have hleading := List.append_cancel_right hline
        exact (length_leading_le htexts).2 (Nat.le_of_eq (congrArg List.length hleading.symm))
    · -- nor does a carriage return follow the last quote
      have hcr : leading fields ++ quote last = (leading texts ++ written) ++ ['\r'] := by
        have hsplit : leading texts ++ written ++ ['\r', '\n'] =
            (leading texts ++ written ++ ['\r']) ++ ['\n'] := by simp
        rw [hsplit] at htext
        exact List.append_cancel_right htext
      rw [hend] at hcr
      cases List.append_inj_right' hcr rfl
  · intro h
    have hfields : List.Forall₂ Written fields fields :=
      List.forall₂_same.mpr fun f hf => .plain (h f hf)
    exact read_line concat_ne_nil (forall₂_concat hfields .quoted)

end Csv
