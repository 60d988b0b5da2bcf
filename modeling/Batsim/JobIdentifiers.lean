import Mathlib.Data.String.Basic
import Batsim.Lib.Splitting
import Batsim.Jobs

/-!
The identifiers of the jobs as strings: the constructor that reads one, and the order, equality
and hash of the maps of jobs, which go through the representation.
-/

namespace Batsim

namespace JobIdentifier

/-- The constructor from one string. Both parts of the split are checked once more, as the source
does. -/
def parse (jobIdStr : String) : Except String JobIdentifier :=
  match Splitting.parts '!' jobIdStr.toList with
  | [workloadName, jobName] => make (String.ofList workloadName) (String.ofList jobName)
  | _ => .error ("Invalid string job identifier '" ++ jobIdStr ++ "': should be formatted as two" ++
      " '!'-separated parts, the second one being any string without '!'." ++
      " Example: 'some_text!42'.")

/-- `operator==` -/
def operatorEq (ji1 ji2 : JobIdentifier) : Bool := ji1.toString == ji2.toString

/-- `operator<` -/
def operatorLt (ji1 ji2 : JobIdentifier) : Bool := decide (ji1.toString < ji2.toString)

/-- `JobIdentifierHasher`, over the hash of the strings -/
def hasher (hash : String → Nat) (id : JobIdentifier) : Nat := hash id.toString

theorem ext_names {id id' : JobIdentifier} :
    id = id' ↔ id.workloadName = id'.workloadName ∧ id.jobName = id'.jobName := by
  cases id
  cases id'
  simp

theorem make_of_valid {w n : String} (hw : '!' ∉ w.toList) (hn : '!' ∉ n.toList) :
    make w n = .ok ⟨w, n, hw, hn⟩ := by
  rw [make, dif_pos ⟨hw, hn⟩]

theorem toList_toString (id : JobIdentifier) :
    id.toString.toList = id.workloadName.toList ++ '!' :: id.jobName.toList := by
  simp [toString]

/-- What the constructor reads: two names around a run of separators. -/
theorem parse_eq_ok {s : String} {id : JobIdentifier} : parse s = .ok id ↔
    ∃ k, s.toList =
      id.workloadName.toList ++ List.replicate (k + 1) '!' ++ id.jobName.toList := by
  constructor
  · intro h
    unfold parse at h
    split at h
    · next w n hparts =>
      obtain ⟨hw, hn, k, hs⟩ := Splitting.parts_eq_pair.mp hparts
      obtain ⟨hwl, hjn⟩ := make_eq_ok h
      refine ⟨k, ?_⟩
      rw [hwl, hjn, String.toList_ofList, String.toList_ofList]
      exact hs
    · cases h
  · rintro ⟨k, hs⟩
    have hparts : Splitting.parts '!' s.toList = [id.workloadName.toList, id.jobName.toList] :=
      Splitting.parts_eq_pair.mpr ⟨id.lexically_valid.1, id.lexically_valid.2, k, hs⟩
    simp only [parse, hparts, String.ofList_toList]
    exact make_of_valid id.lexically_valid.1 id.lexically_valid.2

theorem parse_toString (id : JobIdentifier) : parse id.toString = .ok id :=
  parse_eq_ok.mpr ⟨0, by simp [toList_toString]⟩

/-- A string with one separator is the representation of what is read from it. -/
theorem toString_of_parse {s : String} {id : JobIdentifier} (h : parse s = .ok id)
    (hone : s.toList.count '!' = 1) : id.toString = s := by
  obtain ⟨k, hs⟩ := parse_eq_ok.mp h
  have hcount : s.toList.count '!' = k + 1 := by
    rw [hs, List.count_append, List.count_append, List.count_replicate_self,
      List.count_eq_zero_of_not_mem id.lexically_valid.1,
      List.count_eq_zero_of_not_mem id.lexically_valid.2]
    omega
  have hk : k = 0 := by omega
  subst hk
  rw [← String.toList_inj, toList_toString, hs]
  simp

/-- The separators of a string are adjacent to each other, and there is at least one. -/
def HasOneRun (s : String) : Prop :=
  ∃ w n : List Char, ∃ k, '!' ∉ w ∧ '!' ∉ n ∧ s.toList = w ++ List.replicate (k + 1) '!' ++ n

theorem exists_parse_iff {s : String} : (∃ id, parse s = .ok id) ↔ HasOneRun s := by
  constructor
  · rintro ⟨id, h⟩
    obtain ⟨k, hs⟩ := parse_eq_ok.mp h
    exact ⟨_, _, k, id.lexically_valid.1, id.lexically_valid.2, hs⟩
  · rintro ⟨w, n, k, hw, hn, hs⟩
    refine ⟨⟨String.ofList w, String.ofList n, by simpa using hw, by simpa using hn⟩, ?_⟩
    exact parse_eq_ok.mpr ⟨k, by simpa using hs⟩

theorem hasOneRun_of_count {s : String} (hone : s.toList.count '!' = 1) : HasOneRun s := by
  have hmem : '!' ∈ s.toList := List.count_pos_iff.mp (by omega)
  obtain ⟨w, n, hs⟩ := List.append_of_mem hmem
  rw [hs, List.count_append, List.count_cons_self] at hone
  exact ⟨w, n, 0, List.count_eq_zero.mp (by omega), List.count_eq_zero.mp (by omega), by simp [hs]⟩

theorem operatorEq_iff {id id' : JobIdentifier} : id.operatorEq id' = true ↔ id = id' := by
  simp [operatorEq, toString_inj]

theorem operatorLt_iff {id id' : JobIdentifier} :
    id.operatorLt id' = true ↔ id.toString < id'.toString := by
  simp [operatorLt]

theorem operatorLt_total (id id' : JobIdentifier) :
    id.operatorLt id' = true ∨ id.operatorEq id' = true ∨ id'.operatorLt id = true := by
  rcases lt_trichotomy id.toString id'.toString with h | h | h
  · exact .inl (operatorLt_iff.mpr h)
  · exact .inr (.inl (operatorEq_iff.mpr (toString_inj.mp h)))
  · exact .inr (.inr (operatorLt_iff.mpr h))

theorem operatorLt_irrefl {id id' : JobIdentifier} (h : id.operatorEq id' = true) :
    id.operatorLt id' = false := by
  rw [operatorEq_iff.mp h, operatorLt, decide_eq_false_iff_not]
  exact lt_irrefl _

theorem operatorLt_trans {id id' id'' : JobIdentifier} (h : id.operatorLt id' = true)
    (h' : id'.operatorLt id'' = true) : id.operatorLt id'' = true := by
  rw [operatorLt_iff] at h h' ⊢
  exact lt_trans h h'

/-- The identifiers are coded by their representations: reading one gives the identifier back, the
equality, the hash and the order of the maps agree with the equality of the names, and what is read
is two names around one run of separators, of which the representation keeps one. -/
theorem coded_by_representation (hash : String → Nat) :
    (∀ w n : String, '!' ∉ w.toList → '!' ∉ n.toList → ∃ id, make w n = .ok id ∧
      id.workloadName = w ∧ id.jobName = n ∧ parse id.toString = .ok id) ∧
    (∀ id id' : JobIdentifier,
      (id.operatorEq id' = true ↔
        id.workloadName = id'.workloadName ∧ id.jobName = id'.jobName) ∧
      (id.operatorEq id' = true → hasher hash id = hasher hash id')) ∧
    (∀ id id' : JobIdentifier, id.operatorEq id' = true → id.operatorLt id' = false) ∧
    (∀ id id' id'' : JobIdentifier, id.operatorLt id' = true → id'.operatorLt id'' = true →
      id.operatorLt id'' = true) ∧
    (∀ id id' : JobIdentifier,
      id.operatorLt id' = true ∨ id.operatorEq id' = true ∨ id'.operatorLt id = true) ∧
    (∀ s, (∃ id, parse s = .ok id) ↔ HasOneRun s) ∧
    (∀ s id, parse s = .ok id → ∃ k, s.toList =
      id.workloadName.toList ++ List.replicate (k + 1) '!' ++ id.jobName.toList) ∧
    (∀ s, s.toList.count '!' = 1 → ∃ id, parse s = .ok id ∧ id.toString = s) := by
  refine ⟨?_, ?_, fun id id' => operatorLt_irrefl, fun id id' id'' => operatorLt_trans,
    operatorLt_total, fun s => exists_parse_iff, fun s id h => parse_eq_ok.mp h, ?_⟩
  · intro w n hw hn
    exact ⟨⟨w, n, hw, hn⟩, make_of_valid hw hn, rfl, rfl, parse_toString _⟩
  · intro id id'
    refine ⟨operatorEq_iff.trans ext_names, ?_⟩
    intro h
    rw [operatorEq_iff.mp h]
  · intro s hone
    obtain ⟨id, h⟩ := exists_parse_iff.mpr (hasOneRun_of_count hone)
    exact ⟨id, h, toString_of_parse h hone⟩

/-- Two adjacent separators count as one, so that a string with two of them is read. -/
theorem adjacent_separators_are_read :
    ¬ ∀ s : String, (∃ id, parse s = .ok id) ↔ s.toList.count '!' = 1 := by
  intro h
  have hread : ∃ id, parse "some_text!!42" = .ok id :=
    exists_parse_iff.mpr ⟨"some_text".toList, "42".toList, 1, by decide, by decide, by decide⟩
  have hcount := (h "some_text!!42").mp hread
  exact absurd hcount (by decide)

end JobIdentifier

end Batsim
