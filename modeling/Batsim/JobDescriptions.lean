import Mathlib.Data.List.Infix
import Mathlib.Data.List.TakeWhile
import Batsim.Lib.Json
import Batsim.Lib.Regex
import Batsim.JobIdentifiers
import Batsim.Workloads
import Batsim.Protocol

/-!
`Job::from_json`: the job that a JSON object describes, and the identifier that it gets.
-/

namespace Batsim

open Checked Json

/-- What the JSON library tells of its numbers, besides their texts. -/
structure Numbers (N : Type) extends NumberFormat N where
  /-- `IsInt` and `GetInt` -/
  getInt? : N → Option Int
  getDouble : N → Date

/-- The conversion of a `const char *` to a string, which stops at the first null character. -/
def cString (s : String) : String := String.ofList (s.toList.takeWhile fun c => c ≠ '\x00')

/-- `\s` -/
def isSpace (c : Char) : Bool :=
  c = ' ' || c = '\t' || c = '\n' || c = '\x0b' || c = '\x0c' || c = '\r'

/-- `[^(,|})]` -/
def isIdChar (c : Char) : Bool := c ≠ '(' && c ≠ ',' && c ≠ '|' && c ≠ '}' && c ≠ ')'

/-- The regular expression of the `id` member; its group only puts the repetitions together. -/
def idPattern : Regex.Pattern where
  first := (· = '"')
  rest := [.one (· = 'i'), .one (· = 'd'), .one (· = '"'), .many isSpace, .one (· = ':'),
    .many isSpace, .many (· = '"'), .many isIdChar, .many (· = '"'), .many isSpace]

/-- `replacement_str` -/
def replacementStr (id : JobIdentifier) : List Char :=
  "\"id\":\"".toList ++ id.toString.toList ++ ['"']

/-- The identifier of the job whose `id` is `jobIdStr` in the description. -/
def describedId (workloadName jobIdStr : String) : Except String JobIdentifier :=
  if ¬ workloadName.toList <:+: jobIdStr.toList then
    -- the workload name is not present in the job id string
    JobIdentifier.make workloadName jobIdStr
  else JobIdentifier.parse jobIdStr

variable {N : Type} (num : Numbers N)

/-- The `id` member as a string. -/
def jobIdStr (errorPrefix : String) (desc : Value N) : Except String String :=
  match desc.member? "id" with
  | none => .error (errorPrefix ++ ": one job has no 'id' field")
  | some (.str s) => .ok (cString s)
  | some (.num n) =>
    match num.getInt? n with
    | some z => .ok (toString z)
    | none => .error (errorPrefix ++
        ": on job id field is invalid, it should be a string or an integer")
  | some _ => .error (errorPrefix ++
      ": on job id field is invalid, it should be a string or an integer")

def isNumber : Value N → Bool
  | .num _ => true
  | _ => false

def isInt : Value N → Bool
  | .num n => (num.getInt? n).isSome
  | _ => false

def isString : Value N → Bool
  | .str _ => true
  | _ => false

def isObject : Value N → Bool
  | .obj _ => true
  | _ => false

/-- The checks on the new description. -/
def checkDescription (text : List Char) : Except String Unit := do
  let msg := "A problem occured when replacing the job_id by its WLOAD!job_name counterpart:"
  let out := String.ofList text
  match parse num.toNumberFormat text with
  | none => .error (msg ++ "The output string '" ++ out ++ "' is not valid JSON.")
  | some doc => do
    xbtAssert (isObject doc = true)
      (msg ++ " The output string '" ++ out ++ "' is not valid JSON.")
    xbtAssert ((doc.member? "id").isSome = true)
      (msg ++ " The output JSON '" ++ out ++ "' has no 'id' field.")
    xbtAssert ((doc.member? "id").any isString = true)
      (msg ++ " The output JSON '" ++ out ++ "' has a non-string 'id' field.")
    xbtAssert ((doc.member? "subtime").any isNumber = true)
      (msg ++ " The output JSON '" ++ out ++ "' has no 'subtime' field (or it is not a number)")
    xbtAssert ((doc.member? "walltime").all isNumber = true)
      (msg ++ " The output JSON '" ++ out ++ "' has no 'walltime' field (or it is not a number)")
    xbtAssert ((doc.member? "res").any (isInt num) = true)
      (msg ++ " The output JSON '" ++ out ++ "' has no 'res' field (or it is not an integer)")
    xbtAssert ((doc.member? "profile").any isString = true)
      (msg ++ " The output JSON '" ++ out ++ "' has no 'profile' field (or it is not a string)")

/-- The value of `smpi_ranks_to_hosts_mapping`, checked. -/
def ranksToHosts (errorPrefix jobId : String) (res : Nat) (desc : Value N) :
    Except String (List Nat) :=
  match desc.member? "smpi_ranks_to_hosts_mapping" with
  | none => .ok []
  | some (.arr ranks) => collect (fun rank => match rank with
    | .num n =>
      match num.getInt? n with
      | some z => do
        xbtAssert (0 ≤ z ∧ z < res) (errorPrefix ++ ": job '" ++ jobId ++
          "' has a bad 'smpi_ranks_to_hosts_mapping' field: a rank has an invalid value " ++
          toString z ++ " : should be in [0," ++ toString res ++ "[")
        .ok z.toNat
      | none => .error (errorPrefix ++ ": job '" ++ jobId ++
          "' has a bad 'smpi_ranks_to_hosts_mapping' field: a rank does not point to an" ++
          " integral number")
    | _ => .error (errorPrefix ++ ": job '" ++ jobId ++
        "' has a bad 'smpi_ranks_to_hosts_mapping' field: a rank does not point to an" ++
        " integral number")) ranks
  | some _ => .error (errorPrefix ++ ": job '" ++ jobId ++
      "' has a non-array 'smpi_ranks_to_hosts_mapping' field")

/-- A job as its description makes it. -/
structure DescribedJob extends JobDescription where
  smpiRanksToHostsMapping : List Nat := []

/-- The text of the description with the identifier put in. -/
def describedText (desc : Value N) (id : JobIdentifier) : List Char :=
  idPattern.replaceAll (replacementStr id) (write num.toNumberFormat desc)

/-- `Job::from_json` -/
def Job.fromJson (desc : Value N) (workload : Workload) (errorPrefix : String) :
    Except String DescribedJob := do
  xbtAssert (isObject desc = true) (errorPrefix ++ ": one job is not an object")
  let jobIdStr ← jobIdStr num errorPrefix desc
  let id ← describedId workload.name jobIdStr
  let subtime ← (match desc.member? "subtime" with
    | none => .error (errorPrefix ++ ": job '" ++ id.toString ++ "' has no 'subtime' field")
    | some (.num n) => .ok (num.getDouble n)
    | some _ => .error (errorPrefix ++ ": job '" ++ id.toString ++
        "' has a non-number 'subtime' field"))
  let walltime ← (match desc.member? "walltime" with
    | none => .ok (-1)
    | some (.num n) => .ok (num.getDouble n)
    | some _ => .error (errorPrefix ++ ": job " ++ id.toString ++
        " has a non-number 'walltime' field"))
  xbtAssert (walltime = -1 ∨ walltime > 0) (errorPrefix ++ ": job '" ++ id.toString ++
    "' has an invalid walltime (" ++ toString walltime ++
    "). It should either be -1 (no walltime) or a strictly positive number.")
  let res ← (match desc.member? "res" with
    | none => .error (errorPrefix ++ ": job " ++ id.toString ++ " has no 'res' field")
    | some (.num n) =>
      match num.getInt? n with
      | some z => .ok z
      | none => .error (errorPrefix ++ ": job " ++ id.toString ++ " has a non-number 'res' field")
    | some _ => .error (errorPrefix ++ ": job " ++ id.toString ++
        " has a non-number 'res' field"))
  xbtAssert (0 ≤ res) (errorPrefix ++ ": job " ++ id.toString ++ " has a negative 'res' field (" ++
    toString res ++ ")")
  let profileName ← (match desc.member? "profile" with
    | none => .error (errorPrefix ++ ": job " ++ id.toString ++ " has no 'profile' field")
    | some (.str s) => .ok (cString s)
    | some _ => .error (errorPrefix ++ ": job " ++ id.toString ++
        " has a non-string 'profile' field"))
  xbtAssert (workload.profiles.exists? profileName = true) (errorPrefix ++ ": the profile " ++
    profileName ++ " for job " ++ id.toString ++ " does not exist")
  let profile ← workload.profiles.at? profileName
  let text := describedText num desc id
  checkDescription num text
  let ranks ← ranksToHosts num errorPrefix id.toString res.toNat desc
  .ok { id := id
        subtime := subtime
        walltime := walltime
        res := res.toNat
        profile := profile.name
        jsonDescription := String.ofList text
        smpiRanksToHostsMapping := ranks }

variable {num}

/-- The `id` member of a description as a string. -/
def writtenId (num : Numbers N) (desc : Value N) : Option String :=
  match desc.member? "id" with
  | some (.str s) => some s
  | some (.num n) => (num.getInt? n).map toString
  | _ => none

theorem cString_eq_self {s : String} : cString s = s ↔ '\x00' ∉ s.toList := by
  rw [cString, ← String.toList_inj, String.toList_ofList, List.takeWhile_eq_self_iff]
  simp only [decide_eq_true_eq]
  constructor
  · intro h hmem
    exact h _ hmem rfl
  · rintro h c hc rfl
    exact h hc

theorem toList_cString_take (s : String) : (cString s).toList <+: s.toList := by
  rw [cString, String.toList_ofList]
  exact List.takeWhile_prefix _

theorem length_cString_lt {s : String} (h : '\x00' ∈ s.toList) :
    (cString s).toList.length < s.toList.length := by
  have hprefix := toList_cString_take s
  rcases Nat.lt_or_ge (cString s).toList.length s.toList.length with hlt | hge
  · exact hlt
  · have heq := List.IsPrefix.eq_of_length_le hprefix hge
    exact absurd h (cString_eq_self.mp (String.toList_inj.mp heq))

theorem null_notMem_toString (z : Int) : '\x00' ∉ (toString z).toList := by
  intro hmem
  rw [Int.toString_eq_repr, Int.repr_eq_if] at hmem
  have hdigits : ∀ n : Nat, '\x00' ∉ (Nat.repr n).toList := by
    intro n hn
    rw [Nat.toList_repr] at hn
    exact absurd (Nat.isDigit_of_mem_toDigits (by decide) (by decide) hn) (by decide)
  split at hmem
  · exact hdigits _ hmem
  · rw [String.toList_append, List.mem_append] at hmem
    rcases hmem with hmem | hmem
    · exact absurd hmem (by decide)
    · exact hdigits _ hmem

theorem jobIdStr_eq_ok {errorPrefix s raw : String} {desc : Value N}
    (h : jobIdStr num errorPrefix desc = .ok s) (hraw : writtenId num desc = some raw) :
    s = cString raw := by
  unfold jobIdStr at h
  unfold writtenId at hraw
  split at h
  · cases h
  · next t hmember =>
    rw [hmember] at hraw
    cases hraw
    cases h
    rfl
  · next n hmember =>
    rw [hmember] at hraw
    simp only at hraw
    split at h
    · next z hz =>
      rw [hz] at hraw
      cases hraw
      cases h
      exact (cString_eq_self.mpr (null_notMem_toString z)).symm
    · cases h
  · cases h

/-- The identifier of an accepted description comes from its `id` member. -/
theorem fromJson_id {desc : Value N} {wl : Workload} {errorPrefix raw : String} {j : DescribedJob}
    (h : Job.fromJson num desc wl errorPrefix = .ok j) (hraw : writtenId num desc = some raw) :
    describedId wl.name (cString raw) = .ok j.id := by
  simp only [Job.fromJson, bind_eq_ok] at h
  obtain ⟨_, -, s, hs, id, hid, subtime, -, walltime, -, _, -, res, -, _, -, name, -, _, -,
    profile, -, _, -, ranks, -, hj⟩ := h
  cases hj
  rw [← jobIdStr_eq_ok hs hraw]
  exact hid

theorem describedId_eq_ok {w s : String} {id : JobIdentifier} : describedId w s = .ok id ↔
    (¬ w.toList <:+: s.toList ∧ JobIdentifier.make w s = .ok id) ∨
      (w.toList <:+: s.toList ∧ JobIdentifier.parse s = .ok id) := by
  unfold describedId
  split
  · next h => simp [h]
  · next h => simp [not_not.mp h]

/-- What a description whose `id` is `raw` should make of it in the workload `w`. -/
structure Identifies (w raw : String) (id : JobIdentifier) : Prop where
  workloadName : id.workloadName = w
  bare : '!' ∉ raw.toList → id.jobName = raw
  full : ∀ n : String, '!' ∉ n.toList → raw = w ++ "!" ++ n → id.jobName = n
  refused : '!' ∈ raw.toList → ∃ n : String, '!' ∉ n.toList ∧ raw = w ++ "!" ++ n
  found : ∀ (ws : Workloads) (wl : Workload) (jobs : Jobs) (filename : String),
    ws.workloads.lookup w = some wl → wl.jobs.loadFromJson filename [⟨w, id⟩] = .ok jobs →
    (ws.set w { wl with jobs := jobs }).jobAt id = .ok ⟨w, id⟩

theorem found_of_workloadName {w : String} {id : JobIdentifier} (hw : id.workloadName = w)
    {ws : Workloads} {wl : Workload} {jobs : Jobs} {filename : String}
    (h : wl.jobs.loadFromJson filename [⟨w, id⟩] = .ok jobs) :
    (ws.set w { wl with jobs := jobs }).jobAt id = .ok ⟨w, id⟩ := by
  simp only [Jobs.loadFromJson, forEach_cons, forEach_nil, bind_eq_ok, xbtAssert_eq_ok,
    Except.ok.injEq] at h
  obtain ⟨_, ⟨-, -, rfl⟩, rfl⟩ := h
  rw [Workloads.jobAt_eq_ok]
  refine ⟨_, by rw [Workloads.lookup_set, if_pos hw], ?_⟩
  rw [Jobs.lookup_insert, if_pos rfl]

theorem toList_full (w n : String) : (w ++ "!" ++ n).toList = w.toList ++ '!' :: n.toList := by
  simp

theorem parse_full {w n : String} (hw : '!' ∉ w.toList) (hn : '!' ∉ n.toList) :
    JobIdentifier.parse (w ++ "!" ++ n) = .ok ⟨w, n, hw, hn⟩ :=
  JobIdentifier.parse_toString ⟨w, n, hw, hn⟩

theorem infix_full (w n : String) : w.toList <:+: (w ++ "!" ++ n).toList := by
  rw [toList_full]
  exact List.IsPrefix.isInfix (List.prefix_append _ _)

/-- Without null characters, the description gets the identifier it should when the workload name
is in the `id` only to announce the workload. -/
theorem identifies_of {w raw : String} {id : JobIdentifier} (hw : '!' ∉ w.toList)
    (hid : describedId w raw = .ok id)
    (hfull : w.toList <:+: raw.toList → ∃ n : String, '!' ∉ n.toList ∧ raw = w ++ "!" ++ n) :
    Identifies w raw id := by
  rcases describedId_eq_ok.mp hid with ⟨hpart, hmake⟩ | ⟨hpart, hparse⟩
  · obtain ⟨hworkload, hjob⟩ := JobIdentifier.make_eq_ok hmake
    have hbang : '!' ∉ raw.toList := by
      rw [← hjob]
      exact id.lexically_valid.2
    refine ⟨hworkload, fun _ => hjob, ?_, fun h => absurd h hbang, ?_⟩
    · rintro n - rfl
      exact absurd (infix_full w n) hpart
    · intro ws wl jobs filename _ hjobs
      exact found_of_workloadName hworkload hjobs
  · obtain ⟨n, hn, rfl⟩ := hfull hpart
    rw [parse_full hw hn, Except.ok.injEq] at hparse
    subst hparse
    refine ⟨rfl, ?_, ?_, fun _ => ⟨n, hn, rfl⟩, ?_⟩
    · intro hbang
      exact absurd (by simp) hbang
    · intro n' _ heq
      rw [← String.toList_inj, toList_full, toList_full] at heq
      exact String.toList_inj.mp (List.cons.inj (List.append_cancel_left heq)).2
    · intro ws wl jobs filename _ hjobs
      exact found_of_workloadName rfl hjobs

theorem noNull_of_identifies {w raw : String} {id : JobIdentifier} (hnull : '\x00' ∉ w.toList)
    (hid : describedId w (cString raw) = .ok id) (h : Identifies w raw id) :
    '\x00' ∉ raw.toList := by
  intro hmem
  have hlt := length_cString_lt hmem
  rcases describedId_eq_ok.mp hid with ⟨hpart, hmake⟩ | ⟨hpart, hparse⟩
  · obtain ⟨-, hjob⟩ := JobIdentifier.make_eq_ok hmake
    by_cases hbang : '!' ∈ raw.toList
    · -- what is before the null character holds the workload name already
      obtain ⟨n, -, rfl⟩ := h.refused hbang
      apply hpart
      rw [cString, String.toList_ofList, toList_full, List.takeWhile_append_of_pos
        (by intro c hc; simp only [decide_eq_true_eq]; rintro rfl; exact hnull hc)]
      exact List.IsPrefix.isInfix (List.prefix_append _ _)
    · have heq : cString raw = raw := hjob.symm.trans (h.bare hbang)
      rw [heq] at hlt
      exact absurd hlt (Nat.lt_irrefl _)
  · obtain ⟨k, hc⟩ := JobIdentifier.parse_eq_ok.mp hparse
    have hbang : '!' ∈ raw.toList := by
      apply (toList_cString_take raw).subset
      rw [hc, List.replicate_succ]
      simp
    obtain ⟨n, hn, rfl⟩ := h.refused hbang
    rw [h.workloadName, h.full n hn rfl] at hc
    rw [hc, toList_full] at hlt
    simp only [List.length_append, List.length_replicate, List.length_cons] at hlt
    omega

/-- The identifier of an accepted description is the one it should be exactly when its `id` has no
null character and holds the workload name only to announce the workload. -/
theorem described_job_is_identified {desc : Value N} {wl : Workload} {errorPrefix raw : String}
    {j : DescribedJob} (hw : '!' ∉ wl.name.toList) (hnull : '\x00' ∉ wl.name.toList)
    (h : Job.fromJson num desc wl errorPrefix = .ok j) (hraw : writtenId num desc = some raw) :
    Identifies wl.name raw j.id ↔ '\x00' ∉ raw.toList ∧
      (wl.name.toList <:+: raw.toList →
        ∃ n : String, '!' ∉ n.toList ∧ raw = wl.name ++ "!" ++ n) := by
  have hid := fromJson_id h hraw
  constructor
  · intro hident
    have hraw' := noNull_of_identifies hnull hid hident
    refine ⟨hraw', ?_⟩
    intro hpart
    rw [cString_eq_self.mpr hraw'] at hid
    rcases describedId_eq_ok.mp hid with ⟨hno, -⟩ | ⟨-, hparse⟩
    · exact absurd hpart hno
    · obtain ⟨k, hk⟩ := JobIdentifier.parse_eq_ok.mp hparse
      apply hident.refused
      rw [hk, List.replicate_succ]
      simp
  · rintro ⟨hraw', hfull⟩
    rw [cString_eq_self.mpr hraw'] at hid
    exact identifies_of hw hid hfull

/-- The JSON library on documents whose numbers are all integers. -/
def integerNumbers : Numbers Int where
  toNumberFormat := integers
  getInt? z := if -2147483648 ≤ z ∧ z ≤ 2147483647 then some z else none
  getDouble z := z

/-- A workload with one profile, to describe jobs in. -/
def describingWorkload (name : String) : Workload where
  name := name
  isStatic := true
  jobs := .empty
  profiles := ⟨AList.singleton "p" (some { name := "p", type := .delay })⟩

/-- A description with the compulsory members. -/
def minimalDescription (id : String) : Value Int :=
  .obj [("id", .str id), ("subtime", .num 0), ("res", .num 1), ("profile", .str "p")]

theorem full_id_is_identified :
    ∃ j, Job.fromJson integerNumbers (minimalDescription "a!1") (describingWorkload "a") "" = .ok j ∧
      Identifies "a" "a!1" j.id := by
  obtain ⟨j, hj, -⟩ := exists_of_succeedsWith (P := fun _ => true)
    (x := Job.fromJson integerNumbers (minimalDescription "a!1") (describingWorkload "a") "")
    (by decide +kernel)
  refine ⟨j, hj, ?_⟩
  exact (described_job_is_identified (by decide) (by decide) hj rfl).mpr
    ⟨by decide, fun _ => ⟨"1", by decide, by decide⟩⟩

/-- The name of the workload is searched anywhere in the `id`: this job of the workload `a` goes by
an identifier of the workload `ba`. -/
theorem described_job_of_another_workload :
    ∃ j, Job.fromJson integerNumbers (minimalDescription "ba!1") (describingWorkload "a") "" =
      .ok j ∧ j.id.workloadName = "ba" ∧ ¬ Identifies "a" "ba!1" j.id := by
  obtain ⟨j, hj, hname⟩ := exists_of_succeedsWith (P := fun j => j.id.workloadName = "ba")
    (x := Job.fromJson integerNumbers (minimalDescription "ba!1") (describingWorkload "a") "")
    (by decide +kernel)
  have hba : j.id.workloadName = "ba" := of_decide_eq_true hname
  refine ⟨j, hj, hba, ?_⟩
  intro h
  exact absurd (hba.symm.trans h.workloadName) (by decide)

end Batsim
