import Batsim.Lib.Csv
import Batsim.Lib.FixedPoint
import Batsim.ForcedStates
import Batsim.JobDescriptions
import Batsim.MessageStream

/-!
The lines of the jobs output: what `JobsTracer::write_job` writes of a job, and when it is read back.
-/

namespace Batsim

open Checked

/-- The check of `handle_set_job_metadata`, regarding CSV output. -/
def checkMetadata (value : String) : Except String String := do
  let metadata := cString value
  xbtAssert ('"' ∉ metadata.toList)
    ("Invalid JSON message: the 'metadata' value should not contain double quotes (got ###" ++
      metadata ++ "###)")
  .ok metadata

/-- A complete job as `write_job` reads it: the names and the metadata are C strings, and metadata
is empty or was checked. -/
structure TracedJob where
  ptr : JobPtr
  job : Job
  consumedEnergy : ℚ
  consumedCarbon : ℚ
  consumedWater : ℚ
  complete : job.isComplete = true
  jobName : '\x00' ∉ ptr.id.jobName.toList
  workloadName : '\x00' ∉ ptr.workload.toList
  profileName : '\x00' ∉ job.profile.name.toList
  metadata : job.metadata = "" ∨ ∃ value, checkMetadata value = .ok job.metadata

/-- `to_string` of a `double`: `"%f"` -/
def doubleToString (x : ℚ) : String := FixedPoint.text 6 x

/-- `to_string` of a quotient; the one of two zeros is the machine's default, a negative NaN. -/
def quotientToString (x y : ℚ) : String :=
  if y ≠ 0 then doubleToString (x / y)
  else if x = 0 then "-nan" else if x > 0 then "inf" else "-inf"

def jobKeys : List String :=
  ["job_id", "workload_name", "profile", "submission_time", "requested_number_of_resources",
    "requested_time", "success", "final_state", "starting_time", "execution_time", "finish_time",
    "waiting_time", "turnaround_time", "stretch", "allocated_resources", "consumed_energy",
    "consumed_carbon", "consumed_water", "metadata"]

/-- The first line of the file. -/
def jobsHeader : String := ",".intercalate jobKeys ++ "\n"

namespace TracedJob

variable (j : TracedJob) (environmentalFootprintUsed : Bool)

/-- A value that only a job that ran has. -/
def ofExecution (text : String) : String := if j.job.state = .rejected then "" else text

/-- A value that only a simulation with environmental footprints has, too. -/
def ofFootprint (text : String) : String :=
  if environmentalFootprintUsed then j.ofExecution text else ""

/-- The values of a job, by key. -/
def values : List (String × String) :=
  let finishTime := j.job.startingTime + j.job.runtime
  let turnaroundTime := finishTime - j.job.submissionTime
  [("job_id", j.ptr.id.jobName),
    ("workload_name", j.ptr.workload),
    ("profile", j.job.profile.name),
    ("submission_time", doubleToString j.job.submissionTime),
    ("requested_number_of_resources", toString j.job.requestedNbRes),
    ("requested_time", doubleToString j.job.walltime),
    ("success", if j.job.state = .completedSuccessfully then "1" else "0"),
    ("final_state", jobStateToString j.job.state),
    ("starting_time", j.ofExecution (doubleToString j.job.startingTime)),
    ("execution_time", j.ofExecution (doubleToString j.job.runtime)),
    ("finish_time", j.ofExecution (doubleToString finishTime)),
    ("waiting_time",
      j.ofExecution (doubleToString (j.job.startingTime - j.job.submissionTime))),
    ("turnaround_time", j.ofExecution (doubleToString turnaroundTime)),
    ("stretch", j.ofExecution (quotientToString turnaroundTime j.job.runtime)),
    ("consumed_energy", j.ofExecution (doubleToString j.consumedEnergy)),
    ("consumed_carbon",
      j.ofFootprint environmentalFootprintUsed (doubleToString j.consumedCarbon)),
    ("consumed_water",
      j.ofFootprint environmentalFootprintUsed (doubleToString j.consumedWater)),
    ("allocated_resources", j.job.allocation.toStringHyphen),
    ("metadata", j.job.metadata)]

def value (key : String) : String :=
  ((j.values environmentalFootprintUsed).lookup key).getD ""

/-- `_job_map`: the metadata is in quotes. -/
def jobMap (key : String) : String :=
  let value := j.value environmentalFootprintUsed key
  if key = "metadata" then "\"" ++ value ++ "\"" else value

/-- What `write_job` appends to the file: a C string. -/
def row : String :=
  cString (",".intercalate (jobKeys.map (j.jobMap environmentalFootprintUsed)) ++ "\n")

end TracedJob

/-- A standard CSV reader. -/
def readCsv (text : String) : Option (List (List String)) :=
  (Csv.read text.toList).map fun records => records.map fun fields => fields.map String.ofList

/-! ### The characters of the values -/

/-- A text that stands in a line as it is. -/
def Neat (s : String) : Prop := ∀ c ∈ s.toList, Csv.Plain c ∧ c ≠ '\x00'

theorem neat_digit {c : Char} (h : c.isDigit = true) : Csv.Plain c ∧ c ≠ '\x00' := by
  have hne : ∀ d : Char, d.isDigit = false → c ≠ d := by
    intro d hd heq
    rw [heq, hd] at h
    cases h
  exact ⟨⟨hne _ rfl, hne _ rfl, hne _ rfl, hne _ rfl⟩, hne _ rfl⟩

theorem neat_empty : Neat "" := by simp [Neat]

/-- Characters are checked one by one, not among all that there are. -/
theorem forall_mem_of_all {P : Char → Prop} [DecidablePred P] {cs : List Char}
    (h : (cs.all fun c => decide (P c)) = true) : ∀ c ∈ cs, P c := by
  simpa using h

theorem neat_of_all {text : String}
    (h : (text.toList.all fun c => decide (Csv.Plain c ∧ c ≠ '\x00')) = true) : Neat text :=
  forall_mem_of_all h

theorem neat_doubleToString (x : ℚ) : Neat (doubleToString x) := by
  intro c hc
  rw [doubleToString, FixedPoint.text, String.toList_ofList] at hc
  rcases FixedPoint.mem_print hc with h | rfl | rfl
  · exact neat_digit h
  · decide
  · decide

theorem neat_toString (n : Nat) : Neat (toString n) := by
  intro c hc
  rw [Nat.toString_eq_repr, Nat.toList_repr] at hc
  exact neat_digit (Nat.isDigit_of_mem_toDigits (by decide) (by decide) hc)

theorem neat_quotientToString (x y : ℚ) : Neat (quotientToString x y) := by
  unfold quotientToString
  split_ifs
  · exact neat_doubleToString _
  · exact neat_of_all (by decide)
  · exact neat_of_all (by decide)
  · exact neat_of_all (by decide)

theorem neat_jobStateToString (state : JobState) : Neat (jobStateToString state) := by
  cases state <;> exact neat_of_all (by decide)

theorem neat_append {s t : String} (hs : Neat s) (ht : Neat t) : Neat (s ++ t) := by
  intro c hc
  rw [String.toList_append, List.mem_append] at hc
  exact hc.elim (hs c) (ht c)

theorem forall_mem_intercalate {P : Char → Prop} {separator : String} {ss : List String}
    (hseparator : ∀ c ∈ separator.toList, P c) (h : ∀ s ∈ ss, ∀ c ∈ s.toList, P c) :
    ∀ c ∈ (separator.intercalate ss).toList, P c := by
  induction ss with
  | nil => simp
  | cons s ss ih =>
    rw [List.forall_mem_cons] at h
    cases ss with
    | nil =>
      rw [String.intercalate_singleton]
      exact h.1
    | cons t ss =>
      intro c hc
      rw [String.intercalate_cons_cons, String.toList_append, List.mem_append,
        String.toList_append, List.mem_append] at hc
      rcases hc with (hc | hc) | hc
      · exact h.1 c hc
      · exact hseparator c hc
      · exact ih h.2 c hc

theorem neat_toStringHyphen (s : IntervalSet) : Neat s.toStringHyphen := by
  have hspace : Neat " " := neat_of_all (by decide)
  have hhyphen : Neat "-" := neat_of_all (by decide)
  rw [IntervalSet.toStringHyphen]
  refine forall_mem_intercalate hspace fun text htext => ?_
  change Neat text
  obtain ⟨⟨first, last⟩, -, rfl⟩ := List.mem_map.mp htext
  dsimp only
  split
  · exact neat_toString first
  · exact neat_append (neat_append (neat_toString first) hhyphen) (neat_toString last)

namespace TracedJob

variable (j : TracedJob) (environmentalFootprintUsed : Bool)

theorem neat_ofExecution {text : String} (h : Neat text) : Neat (j.ofExecution text) := by
  unfold ofExecution
  split
  · exact neat_empty
  · exact h

theorem neat_ofFootprint {text : String} (h : Neat text) :
    Neat (j.ofFootprint environmentalFootprintUsed text) := by
  unfold ofFootprint
  split
  · exact j.neat_ofExecution h
  · exact neat_empty

/-- The keys whose values the code makes itself. -/
def madeKeys : List String := (jobKeys.drop 3).dropLast

theorem jobKeys_eq : jobKeys = ["job_id", "workload_name", "profile"] ++ madeKeys ++ ["metadata"] :=
  rfl

theorem neat_of_mem_values {e : String × String} (h : e ∈ j.values environmentalFootprintUsed)
    (hkey : e.1 ∈ madeKeys) : Neat e.2 := by
  have hsuccess : Neat (if j.job.state = .completedSuccessfully then "1" else "0") := by
    split <;> exact neat_of_all (by decide)
  have hgiven : ∀ key ∈ ["job_id", "workload_name", "profile", "metadata"], key ∉ madeKeys := by
    decide +kernel
  revert hkey
  simp only [values, List.mem_cons, List.not_mem_nil, or_false] at h
  rcases h with rfl | rfl | rfl | rfl | rfl | rfl | rfl | rfl | rfl | rfl | rfl | rfl | rfl | rfl |
    rfl | rfl | rfl | rfl | rfl
  · exact fun hkey => absurd hkey (hgiven _ (by simp))
  · exact fun hkey => absurd hkey (hgiven _ (by simp))
  · exact fun hkey => absurd hkey (hgiven _ (by simp))
  · exact fun _ => neat_doubleToString _
  · exact fun _ => neat_toString _
  · exact fun _ => neat_doubleToString _
  · exact fun _ => hsuccess
  · exact fun _ => neat_jobStateToString _
  · exact fun _ => j.neat_ofExecution (neat_doubleToString _)
  · exact fun _ => j.neat_ofExecution (neat_doubleToString _)
  · exact fun _ => j.neat_ofExecution (neat_doubleToString _)
  · exact fun _ => j.neat_ofExecution (neat_doubleToString _)
  · exact fun _ => j.neat_ofExecution (neat_doubleToString _)
  · exact fun _ => j.neat_ofExecution (neat_quotientToString _ _)
  · exact fun _ => j.neat_ofExecution (neat_doubleToString _)
  · exact fun _ => j.neat_ofFootprint _ (neat_doubleToString _)
  · exact fun _ => j.neat_ofFootprint _ (neat_doubleToString _)
  · exact fun _ => neat_toStringHyphen _
  · exact fun hkey => absurd hkey (hgiven _ (by simp))

theorem neat_value {key : String} (h : key ∈ madeKeys) :
    Neat (j.value environmentalFootprintUsed key) := by
  unfold value
  cases hlookup : (j.values environmentalFootprintUsed).lookup key with
  | none => exact neat_empty
  | some v =>
    obtain ⟨before, after, hvalues, -⟩ := List.lookup_eq_some_iff.mp hlookup
    have hmem : (key, v) ∈ j.values environmentalFootprintUsed := by
      rw [hvalues]
      exact List.mem_append_cons_self
    exact j.neat_of_mem_values _ hmem h

/-! ### Reading a row -/

theorem toList_line (ss : List String) :
    (",".intercalate ss ++ "\n").toList = Csv.line (ss.map String.toList) ++ ['\n'] := by
  rw [String.toList_append, String.toList_intercalate]
  rfl

theorem map_ofList (ss : List String) : (ss.map String.toList).map String.ofList = ss := by
  rw [List.map_map]
  exact (List.map_congr_left fun s _ => String.ofList_toList).trans (List.map_id ss)

/-- Reading gives one record with these fields. -/
theorem readCsv_eq_iff {text : String} {ss : List String} :
    readCsv text = some [ss] ↔ Csv.read text.toList = some [ss.map String.toList] := by
  unfold readCsv
  constructor
  · intro h
    obtain ⟨records, hread, hrecords⟩ := Option.map_eq_some_iff.mp h
    have hback : (records.map fun fields => fields.map String.ofList).map (List.map String.toList) =
        records := by
      simp [Function.comp_def]
    rw [hread, ← hback, hrecords]
    rfl
  · intro h
    rw [h, Option.map_some, List.map_singleton, map_ofList]

/-- The header has a field for each key. -/
theorem header_is_read : readCsv jobsHeader = some [jobKeys] := by
  rw [readCsv_eq_iff, jobsHeader, toList_line]
  refine Csv.read_line (by simp [jobKeys]) (List.forall₂_same.mpr fun f hf => .plain ?_)
  obtain ⟨key, hkey, rfl⟩ := List.mem_map.mp hf
  have hplain : ∀ key ∈ jobKeys, (key.toList.all fun c => decide (Csv.Plain c)) = true := by
    decide +kernel
  exact forall_mem_of_all (hplain key hkey)

/-! ### Rows -/

/-- The names of a job, which the users choose. -/
def names : List String := [j.ptr.id.jobName, j.ptr.workload, j.job.profile.name]

theorem value_jobId : j.value environmentalFootprintUsed "job_id" = j.ptr.id.jobName := by
  simp [value, values]

theorem value_workloadName :
    j.value environmentalFootprintUsed "workload_name" = j.ptr.workload := by
  simp [value, values, List.lookup_cons]

theorem value_profile : j.value environmentalFootprintUsed "profile" = j.job.profile.name := by
  simp [value, values, List.lookup_cons]

theorem value_metadata : j.value environmentalFootprintUsed "metadata" = j.job.metadata := by
  simp [value, values, List.lookup_cons]

/-- The metadata of a job neither ends a C string nor a quoted field. -/
theorem metadata_checked : '"' ∉ j.job.metadata.toList ∧ '\x00' ∉ j.job.metadata.toList := by
  rcases j.metadata with h | ⟨value, h⟩
  · rw [h]
    decide
  · simp only [checkMetadata, bind_eq_ok, xbtAssert_eq_ok, Except.ok.injEq] at h
    obtain ⟨_, hquote, hvalue⟩ := h
    refine ⟨hvalue ▸ hquote, ?_⟩
    rw [← hvalue, cString, String.toList_ofList]
    intro hnull
    simpa using List.mem_takeWhile_imp hnull

/-- The values before the metadata. -/
def fields : List String :=
  j.names ++ madeKeys.map (j.value environmentalFootprintUsed)

theorem map_value_eq : jobKeys.map (j.value environmentalFootprintUsed) =
    j.fields environmentalFootprintUsed ++ [j.job.metadata] := by
  rw [jobKeys_eq, List.map_append, List.map_append, fields, names]
  simp only [List.map_cons, List.map_nil, value_jobId, value_workloadName, value_profile,
    value_metadata]

theorem map_jobMap_eq : jobKeys.map (j.jobMap environmentalFootprintUsed) =
    j.fields environmentalFootprintUsed ++ ["\"" ++ j.job.metadata ++ "\""] := by
  have hkeys : ∀ key ∈ ["job_id", "workload_name", "profile"] ++ madeKeys,
      j.jobMap environmentalFootprintUsed key = j.value environmentalFootprintUsed key := by
    intro key hkey
    have hne : ∀ key ∈ ["job_id", "workload_name", "profile"] ++ madeKeys, key ≠ "metadata" := by
      decide +kernel
    rw [jobMap, if_neg (hne key hkey)]
  have hlast : j.jobMap environmentalFootprintUsed "metadata" = "\"" ++ j.job.metadata ++ "\"" := by
    rw [jobMap, if_pos rfl, value_metadata]
  have hvalues := j.map_value_eq environmentalFootprintUsed
  rw [jobKeys_eq, List.map_append] at hvalues
  rw [jobKeys_eq, List.map_append, List.map_congr_left hkeys,
    (List.append_inj' hvalues rfl).1, List.map_singleton, hlast]

theorem mem_fields {s : String} (h : s ∈ j.fields environmentalFootprintUsed) :
    s ∈ j.names ∨ Neat s := by
  rcases List.mem_append.mp h with h | h
  · exact .inl h
  · obtain ⟨key, hkey, rfl⟩ := List.mem_map.mp h
    exact .inr (j.neat_value environmentalFootprintUsed hkey)

theorem toList_row : (j.row environmentalFootprintUsed).toList =
    Csv.line ((j.fields environmentalFootprintUsed).map String.toList ++
      ['"' :: (j.job.metadata.toList ++ ['"'])]) ++ ['\n'] := by
  have hnames : ∀ s ∈ j.names, '\x00' ∉ s.toList := by
    simp only [names, List.forall_mem_cons]
    exact ⟨j.jobName, j.workloadName, j.profileName, by simp⟩
  have hpieces : ∀ s ∈ jobKeys.map (j.jobMap environmentalFootprintUsed),
      ∀ c ∈ s.toList, c ≠ '\x00' := by
    intro s hs c hc hnull
    subst hnull
    rw [map_jobMap_eq, List.mem_append, List.mem_singleton] at hs
    rcases hs with hs | rfl
    · rcases j.mem_fields _ hs with hs | hs
      · exact hnames s hs hc
      · exact (hs _ hc).2 rfl
    · simp only [String.toList_append, List.mem_append] at hc
      rcases hc with (hc | hc) | hc
      · revert hc
        decide
      · exact j.metadata_checked.2 hc
      · revert hc
        decide
  have hcomma : ∀ c ∈ ",".toList, c ≠ '\x00' := forall_mem_of_all (by decide)
  have hrow := forall_mem_intercalate hcomma hpieces
  have hterminated : '\x00' ∉
      (",".intercalate (jobKeys.map (j.jobMap environmentalFootprintUsed)) ++ "\n").toList := by
    rw [String.toList_append, List.mem_append, not_or]
    exact ⟨fun h => hrow _ h rfl, by decide⟩
  rw [row, cString_eq_self.mpr hterminated, toList_line, map_jobMap_eq, List.map_append,
    List.map_singleton, String.toList_append, String.toList_append]
  rfl

theorem read_row_iff :
    readCsv (j.row environmentalFootprintUsed) =
        some [jobKeys.map (j.value environmentalFootprintUsed)] ↔
      ∀ s ∈ j.fields environmentalFootprintUsed, ∀ c ∈ s.toList, Csv.Plain c := by
  rw [readCsv_eq_iff, toList_row, map_value_eq, List.map_append, List.map_singleton,
    Csv.read_asIs_iff j.metadata_checked.1, List.forall_mem_map]

/-- The row of a complete job is read back as one record of its values exactly when its names have
no comma, no quote and no end of line. -/
theorem row_is_read_iff :
    readCsv (j.row environmentalFootprintUsed) =
        some [jobKeys.map (j.value environmentalFootprintUsed)] ↔
      ∀ name ∈ j.names, ∀ c ∈ name.toList, c ≠ ',' ∧ c ≠ '"' ∧ c ≠ '\r' ∧ c ≠ '\n' := by
  rw [read_row_iff]
  constructor
  · exact fun h name hname => h name (List.mem_append_left _ hname)
  · intro h s hs c hc
    rcases j.mem_fields _ hs with hs | hs
    · exact h s hs c hc
    · exact (hs c hc).1

end TracedJob

/-- A job whose name has a comma. -/
def commaJob : TracedJob where
  ptr := ⟨"w0", { workloadName := "w0", jobName := "a,b" }⟩
  job := { profile := { name := "delay", type := .delay }, submissionTime := 0
           requestedNbRes := 1, state := .rejected }
  consumedEnergy := -1
  consumedCarbon := 0
  consumedWater := 0
  complete := rfl
  jobName := by decide
  workloadName := by decide
  profileName := by decide
  metadata := .inl rfl

/-- The comma of the name shifts the columns. -/
theorem comma_shifts_columns :
    readCsv (commaJob.row false) ≠ some [jobKeys.map (commaJob.value false)] := by
  intro h
  have hname := (commaJob.read_row_iff false).mp h "a,b" (by simp [TracedJob.fields,
    TracedJob.names, commaJob]) ',' (by decide)
  exact hname.1 rfl

end Batsim
