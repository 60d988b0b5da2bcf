import Batsim.ProfileDescriptions

/-!
The grammar of the profile descriptions: the documented types, the members of each of them, and the
accepted descriptions that follow the grammar.
-/

namespace Batsim

open Checked Json

/-- The documented name of a type. -/
def ProfileType.documentedName : ProfileType → String
  | .delay => "delay"
  | .parallel => "parallel"
  | .parallelHomogeneous => "parallel_homogeneous"
  | .parallelHomogeneousTotalAmount => "parallel_homogeneous_total"
  | .smpi => "smpi"
  | .usageTrace => "usage_trace"
  | .sequence => "composed"
  | .parallelHomogeneousPfs => "parallel_homogeneous_pfs"
  | .dataStaging => "data_staging"
  | .schedulerSend => "send"
  | .schedulerRecv => "recv"

theorem ProfileType.documentedName_injective : Function.Injective documentedName := by
  intro a b h
  cases a <;> cases b <;> first | rfl | exact absurd h (by decide +kernel)

theorem ProfileType.cString_documentedName (t : ProfileType) :
    cString t.documentedName = t.documentedName := by
  cases t <;> decide +kernel

/-! ### The members -/

section grammar

variable {N : Type} (num : Numbers N) (desc : Value N)

/-- A member is the number `x`. -/
def GivesNumber (field : String) (x : Amount) : Prop :=
  ∃ n, desc.member? field = some (.num n) ∧ num.getDouble n = x

/-- A member is the number `x`, or it is not there and `x` is the default value. -/
def GivesNumberOr (field : String) (default x : Amount) : Prop :=
  (desc.member? field = none ∧ x = default) ∨ GivesNumber num desc field x

/-- A member is a string, read as `s`. -/
def GivesString (field s : String) : Prop :=
  ∃ t, desc.member? field = some (.str t) ∧ cString t = s

def GivesStringOr (field default s : String) : Prop :=
  (desc.member? field = none ∧ s = default) ∨ GivesString desc field s

def GivesInt (field : String) (z : Int) : Prop :=
  ∃ n, desc.member? field = some (.num n) ∧ num.getInt? n = some z

def GivesIntOr (field : String) (default z : Int) : Prop :=
  (desc.member? field = none ∧ z = default) ∨ GivesInt num desc field z

/-- A member is an array of non-negative numbers. -/
def GivesAmounts (field : String) (amounts : List Amount) : Prop :=
  ∃ items, desc.member? field = some (.arr items) ∧
    List.Forall₂ (fun item x => ∃ n, item = .num n ∧ num.getDouble n = x ∧ 0 ≤ x) items amounts

/-- A member is an array of strings. -/
def GivesStrings (field : String) (strings : List String) : Prop :=
  ∃ items, desc.member? field = some (.arr items) ∧
    List.Forall₂ (fun item s => ∃ t, item = .str t ∧ cString t = s) items strings

/-- The members of a profile of each type, with what is read of them. -/
def Describes : DescribedData N → Prop
  | .delay delay => GivesNumber num desc "delay" delay ∧ 0 < delay
  | .parallelTask (.parallel data) => data.cpu ≠ [] ∧ data.nbRes = data.cpu.length ∧
      GivesAmounts num desc "cpu" data.cpu ∧ GivesAmounts num desc "com" data.com
  | .parallelTask (.parallelHomogeneous cpu com) =>
      (GivesNumber num desc "cpu" cpu ∧ 0 ≤ cpu) ∧ GivesNumber num desc "com" com ∧ 0 ≤ com
  | .parallelTask (.parallelHomogeneousTotalAmount cpu com) =>
      (GivesNumber num desc "cpu" cpu ∧ 0 ≤ cpu) ∧ GivesNumber num desc "com" com ∧ 0 ≤ com
  | .parallelTask (.parallelHomogeneousPfs bytesToRead bytesToWrite storageLabel) =>
      ((desc.member? "bytes_to_read").isSome = true ∨
        (desc.member? "bytes_to_write").isSome = true) ∧
      (GivesNumberOr num desc "bytes_to_read" 0 bytesToRead ∧ 0 ≤ bytesToRead) ∧
      (GivesNumberOr num desc "bytes_to_write" 0 bytesToWrite ∧ 0 ≤ bytesToWrite) ∧
      (GivesString desc "storage" storageLabel ∨
        desc.member? "storage" = none ∧ GivesStringOr desc "host" "pfs" storageLabel)
  | .parallelTask (.dataStaging nbBytes fromStorageLabel toStorageLabel) =>
      (GivesNumber num desc "nb_bytes" nbBytes ∧ 0 ≤ nbBytes) ∧
      GivesString desc "from" fromStorageLabel ∧ GivesString desc "to" toStorageLabel
  | .sequence repeats sequence => (GivesIntOr num desc "repeat" 1 repeats ∧ 0 < repeats) ∧
      sequence ≠ [] ∧ GivesStrings desc "seq" sequence
  | .schedulerSend message sleeptime =>
      (desc.member? "msg" = some message ∧ isObject message = true) ∧
      GivesNumberOr num desc "sleeptime" (1 / 10000000) sleeptime ∧ 0 < sleeptime
  | .schedulerRecv regex onSuccess onFailure onTimeout polltime =>
      GivesStringOr desc "regex" ".*" regex ∧ GivesStringOr desc "success" "" onSuccess ∧
      GivesStringOr desc "failure" "" onFailure ∧ GivesStringOr desc "timeout" "" onTimeout ∧
      GivesNumberOr num desc "polltime" (5 / 1000) polltime ∧ 0 < polltime
  | .smpi _ => ∃ trace, GivesString desc "trace" trace
  | .usageTrace _ => ∃ trace, GivesString desc "trace" trace

/-- `desc` follows the grammar, and `p` is the profile that it describes. -/
structure Documented (p : DescribedProfile N) : Prop where
  type : desc.member? "type" = some (.str p.data.type.documentedName)
  returnCode : GivesIntOr num desc "ret" 0 p.returnCode
  fields : Describes num desc p.data

/-- The amounts of a profile of type `parallel_homogeneous_pfs` are not negative. -/
def NonnegativeBytes : Prop :=
  ∀ field ∈ ["bytes_to_read", "bytes_to_write"], ∀ n, desc.member? field = some (.num n) →
    0 ≤ num.getDouble n

end grammar

/-! ### What is read -/

section accepted

variable {N : Type} {num : Numbers N} {errorPrefix profileName field : String} {desc : Value N}

theorem amountField_effect {x : Amount}
    (h : amountField num errorPrefix profileName field desc = .ok x) :
    GivesNumber num desc field x ∧ 0 ≤ x := by
  unfold amountField at h
  split at h
  · cases h
  · next n hmember =>
    simp only [bind_eq_ok, xbtAssert_eq_ok, Except.ok.injEq] at h
    obtain ⟨_, hpos, rfl⟩ := h
    exact ⟨⟨n, hmember, rfl⟩, hpos⟩
  · cases h

theorem optionalAmount_effect {x : Amount}
    (h : optionalAmount num errorPrefix profileName field desc = .ok x) :
    GivesNumberOr num desc field 0 x := by
  unfold optionalAmount at h
  split at h
  · next hmember =>
    cases h
    exact .inl ⟨hmember, rfl⟩
  · next n hmember =>
    cases h
    exact .inr ⟨n, hmember, rfl⟩
  · cases h

theorem durationField_effect {default x : Date} (hdefault : 0 < default)
    (h : durationField num errorPrefix profileName field default desc = .ok x) :
    GivesNumberOr num desc field default x ∧ 0 < x := by
  unfold durationField at h
  split at h
  · next hmember =>
    cases h
    exact ⟨.inl ⟨hmember, rfl⟩, hdefault⟩
  · next n hmember =>
    simp only [bind_eq_ok, xbtAssert_eq_ok, Except.ok.injEq] at h
    obtain ⟨_, hpos, rfl⟩ := h
    exact ⟨.inr ⟨n, hmember, rfl⟩, hpos⟩
  · cases h

theorem labelField_eq_ok {s : String} :
    labelField errorPrefix profileName field desc = .ok s ↔ GivesString desc field s := by
  unfold labelField
  split
  · next hmember => simp [GivesString, hmember]
  · next t hmember => simp [GivesString, hmember]
  · next v hnostr hmember =>
    constructor
    · intro h
      cases h
    · intro ⟨t, ht, _⟩
      rw [hmember] at ht
      exact absurd (Option.some.inj ht) (hnostr t)

theorem getString_eq_ok {v : Value N} {s : String} :
    getString v = .ok s ↔ ∃ t, v = .str t ∧ cString t = s := by
  cases v <;> simp [getString]

theorem getInt_eq_ok {v : Value N} {z : Int} :
    getInt num v = .ok z ↔ ∃ n, v = .num n ∧ num.getInt? n = some z := by
  cases v with
  | num n => cases hn : num.getInt? n <;> simp [getInt, hn]
  | _ => simp [getInt]

theorem stringField_effect {default s : String} (h : stringField field default desc = .ok s) :
    GivesStringOr desc field default s := by
  unfold stringField at h
  split at h
  · next hmember =>
    cases h
    exact .inl ⟨hmember, rfl⟩
  · next v hmember =>
    obtain ⟨t, rfl, ht⟩ := getString_eq_ok.mp h
    exact .inr ⟨t, hmember, ht⟩

theorem amountArray_gives {what : String} {items : List (Value N)} {amounts : List Amount}
    (hmember : desc.member? field = some (.arr items))
    (h : amountArray num errorPrefix profileName what items = .ok amounts) :
    GivesAmounts num desc field amounts := by
  refine ⟨items, hmember, ?_⟩
  rw [amountArray, collect_eq_ok] at h
  refine h.imp fun item x hitem => ?_
  cases item with
  | num n =>
    simp only [bind_eq_ok, xbtAssert_eq_ok, Except.ok.injEq] at hitem
    obtain ⟨_, hpos, rfl⟩ := hitem
    exact ⟨n, rfl, rfl, hpos⟩
  | _ => cases hitem

theorem repeatField_effect {repeats : Nat}
    (h : repeatField num errorPrefix profileName desc = .ok repeats) :
    GivesIntOr num desc "repeat" 1 repeats := by
  unfold repeatField at h
  split at h
  · next hmember =>
    cases h
    exact .inl ⟨hmember, rfl⟩
  · next v hmember =>
    split at h
    · simp only [bind_eq_ok, xbtAssert_eq_ok, Except.ok.injEq, getInt_eq_ok] at h
      obtain ⟨z, ⟨n, rfl, hz⟩, _, hpos, rfl⟩ := h
      refine .inr ⟨n, hmember, ?_⟩
      rw [hz, Int.toNat_of_nonneg hpos]
    · cases h

theorem delayFromJson_effect {data : DescribedData N}
    (h : delayFromJson num errorPrefix profileName desc = .ok data) :
    Describes num desc data ∧ data.type = .delay := by
  unfold delayFromJson at h
  split at h
  · cases h
  · next n hmember =>
    simp only [bind_eq_ok, xbtAssert_eq_ok, Except.ok.injEq] at h
    obtain ⟨_, hpos, rfl⟩ := h
    exact ⟨⟨⟨n, hmember, rfl⟩, hpos⟩, rfl⟩
  · cases h

theorem parallelFromJson_describes {data : ParallelProfileData}
    (h : parallelFromJson num errorPrefix profileName desc = .ok data) :
    Describes num desc (.parallelTask (.parallel data)) := by
  simp only [parallelFromJson, bind_eq_ok, xbtAssert_eq_ok, Except.ok.injEq,
    arrayField_eq_ok] at h
  obtain ⟨_, -, _, -, cpuItems, hcpuItems, _, hpos, cpu, hcpu, comItems, hcomItems, _, -, com,
    hcom, rfl⟩ := h
  have hlength : cpu.length = cpuItems.length := (amountArray_effect hcpu).1
  refine ⟨?_, hlength.symm, amountArray_gives hcpuItems hcpu, amountArray_gives hcomItems hcom⟩
  rintro (rfl : cpu = [])
  exact absurd hpos (by simp [← hlength])

/-- The amounts of this type are not checked. -/
theorem pfsFromJson_effect {data : TaskProfileData}
    (h : pfsFromJson num errorPrefix profileName desc = .ok data) :
    data.type = .parallelHomogeneousPfs ∧
      (NonnegativeBytes num desc → Describes num desc (.parallelTask data)) := by
  simp only [pfsFromJson, bind_eq_ok, xbtAssert_eq_ok, Except.ok.injEq] at h
  obtain ⟨_, hone, bytesToRead, hread, bytesToWrite, hwrite, storageLabel, hlabel, rfl⟩ := h
  have hread := optionalAmount_effect hread
  have hwrite := optionalAmount_effect hwrite
  refine ⟨rfl, fun hbytes => ⟨hone, ⟨hread, ?_⟩, ⟨hwrite, ?_⟩, ?_⟩⟩
  · rcases hread with ⟨-, rfl⟩ | ⟨n, hn, rfl⟩
    · exact le_rfl
    · exact hbytes _ (by simp) n hn
  · rcases hwrite with ⟨-, rfl⟩ | ⟨n, hn, rfl⟩
    · exact le_rfl
    · exact hbytes _ (by simp) n hn
  · split_ifs at hlabel with hstorage hhost
    · exact .inl (labelField_eq_ok.mp hlabel)
    · exact .inr ⟨by simpa using hstorage, .inr (labelField_eq_ok.mp hlabel)⟩
    · cases hlabel
      exact .inr ⟨by simpa using hstorage, .inl ⟨by simpa using hhost, rfl⟩⟩

theorem taskProfileFromJson_effect {type : String} {data : TaskProfileData}
    (htype : GivesString desc "type" type)
    (h : taskProfileFromJson num errorPrefix profileName desc = .ok data) :
    data.type.documentedName = type ∧
      ((type = "parallel_homogeneous_pfs" → NonnegativeBytes num desc) →
        Describes num desc (.parallelTask data)) := by
  rw [← @labelField_eq_ok N errorPrefix profileName] at htype
  simp only [taskProfileFromJson, bind_eq_ok, htype, Except.ok.injEq] at h
  obtain ⟨_, -, type', rfl, _, -, h⟩ := h
  split_ifs at h with hp hh ht hpfs hs
  · simp only [bind_eq_ok, Except.ok.injEq] at h
    obtain ⟨data', hdata, rfl⟩ := h
    exact ⟨hp.symm, fun _ => parallelFromJson_describes hdata⟩
  · simp only [bind_eq_ok, Except.ok.injEq] at h
    obtain ⟨cpu, hcpu, com, hcom, rfl⟩ := h
    exact ⟨hh.symm, fun _ => ⟨amountField_effect hcpu, amountField_effect hcom⟩⟩
  · simp only [bind_eq_ok, Except.ok.injEq] at h
    obtain ⟨cpu, hcpu, com, hcom, rfl⟩ := h
    exact ⟨ht.symm, fun _ => ⟨amountField_effect hcpu, amountField_effect hcom⟩⟩
  · obtain ⟨hdata, hdescribes⟩ := pfsFromJson_effect h
    rw [hdata]
    exact ⟨hpfs.symm, fun hbytes => hdescribes (hbytes hpfs)⟩
  · simp only [bind_eq_ok, Except.ok.injEq] at h
    obtain ⟨nbBytes, hbytes, source, hsource, target, htarget, rfl⟩ := h
    exact ⟨hs.symm, fun _ => ⟨amountField_effect hbytes, labelField_eq_ok.mp hsource,
      labelField_eq_ok.mp htarget⟩⟩

theorem composedFromJson_effect {data : DescribedData N}
    (h : composedFromJson num errorPrefix profileName desc = .ok data) :
    Describes num desc data ∧ data.type = .sequence := by
  simp only [composedFromJson, bind_eq_ok, xbtAssert_eq_ok, Except.ok.injEq, arrayField_eq_ok,
    collect_eq_ok, getString_eq_ok] at h
  obtain ⟨repeats, hrepeats, _, hpos, _, -, items, hitems, _, hlength, sequence, hsequence,
    rfl⟩ := h
  refine ⟨⟨⟨repeatField_effect hrepeats, hpos⟩, ?_, items, hitems, hsequence⟩, rfl⟩
  rintro rfl
  cases hsequence
  exact absurd hlength (by simp)

theorem sendFromJson_effect {data : DescribedData N}
    (h : sendFromJson num errorPrefix profileName desc = .ok data) :
    Describes num desc data ∧ data.type = .schedulerSend := by
  unfold sendFromJson at h
  split at h
  · cases h
  · next message hmember =>
    simp only [bind_eq_ok, xbtAssert_eq_ok, Except.ok.injEq] at h
    obtain ⟨_, hobject, sleeptime, hsleeptime, rfl⟩ := h
    exact ⟨⟨⟨hmember, hobject⟩, durationField_effect (by decide +kernel) hsleeptime⟩, rfl⟩

theorem recvFromJson_effect {data : DescribedData N}
    (h : recvFromJson num errorPrefix profileName desc = .ok data) :
    Describes num desc data ∧ data.type = .schedulerRecv := by
  simp only [recvFromJson, bind_eq_ok, Except.ok.injEq] at h
  obtain ⟨regex, hregex, success, hsuccess, failure, hfailure, timeout, htimeout, polltime,
    hpolltime, rfl⟩ := h
  exact ⟨⟨stringField_effect hregex, stringField_effect hsuccess, stringField_effect hfailure,
    stringField_effect htimeout, durationField_effect (by decide +kernel) hpolltime⟩, rfl⟩

theorem traceFilenames_effect {files : TraceFiles} {isFromAFile : Bool} {jsonFilename : String}
    {filenames : List String}
    (h : traceFilenames errorPrefix profileName files isFromAFile jsonFilename desc =
      .ok filenames) : ∃ trace, GivesString desc "trace" trace := by
  simp only [traceFilenames, bind_eq_ok] at h
  obtain ⟨trace, htrace, -⟩ := h
  exact ⟨trace, labelField_eq_ok.mp htrace⟩

/-- What is read has the type that the description names, unless it names no documented type: it is
then read as the replay of a usage trace. -/
theorem dataFromJson_effect {files : TraceFiles} {isFromAFile : Bool} {jsonFilename type : String}
    {data : DescribedData N} (htype : GivesString desc "type" type)
    (h : dataFromJson num errorPrefix profileName files isFromAFile jsonFilename type desc =
      .ok data) :
    (data.type.documentedName = type ∨ ∀ t : ProfileType, t.documentedName ≠ type) ∧
      ((type = "parallel_homogeneous_pfs" → NonnegativeBytes num desc) →
        Describes num desc data) := by
  unfold dataFromJson at h
  split_ifs at h with hdelay htask hcomposed hsend hrecv hsmpi
  · obtain ⟨hdescribes, hdata⟩ := delayFromJson_effect h
    rw [hdata]
    exact ⟨.inl hdelay.symm, fun _ => hdescribes⟩
  · simp only [bind_eq_ok, Except.ok.injEq] at h
    obtain ⟨task, htaskData, rfl⟩ := h
    obtain ⟨hdata, hdescribes⟩ := taskProfileFromJson_effect htype htaskData
    exact ⟨.inl hdata, hdescribes⟩
  · obtain ⟨hdescribes, hdata⟩ := composedFromJson_effect h
    rw [hdata]
    exact ⟨.inl hcomposed.symm, fun _ => hdescribes⟩
  · obtain ⟨hdescribes, hdata⟩ := sendFromJson_effect h
    rw [hdata]
    exact ⟨.inl hsend.symm, fun _ => hdescribes⟩
  · obtain ⟨hdescribes, hdata⟩ := recvFromJson_effect h
    rw [hdata]
    exact ⟨.inl hrecv.symm, fun _ => hdescribes⟩
  all_goals
    simp only [bind_eq_ok, Except.ok.injEq] at h
    obtain ⟨filenames, hfilenames, rfl⟩ := h
    have htrace := traceFilenames_effect hfilenames
  · exact ⟨.inl hsmpi.symm, fun _ => htrace⟩
  refine ⟨?_, fun _ => htrace⟩
  by_cases husage : type = "usage_trace"
  · exact .inl husage.symm
  refine .inr fun t heq => ?_
  cases t with
  | delay => exact hdelay heq.symm
  | sequence => exact hcomposed heq.symm
  | schedulerSend => exact hsend heq.symm
  | schedulerRecv => exact hrecv heq.symm
  | smpi => exact hsmpi heq.symm
  | usageTrace => exact husage heq.symm
  | _ => exact htask (by rw [← heq]; decide +kernel)

/-- The amounts that a described profile of type `parallel_homogeneous_pfs` reads. -/
theorem nonnegativeBytes_of_describes {data : DescribedData N}
    (htype : data.type = .parallelHomogeneousPfs) (h : Describes num desc data) :
    NonnegativeBytes num desc := by
  have hfield : ∀ {field x}, GivesNumberOr num desc field 0 x ∧ 0 ≤ x → ∀ n,
      desc.member? field = some (.num n) → 0 ≤ num.getDouble n := by
    intro field x ⟨hgives, hpos⟩ n hn
    rcases hgives with ⟨hnone, -⟩ | ⟨m, hm, rfl⟩
    · rw [hnone] at hn
      cases hn
    · rw [hm] at hn
      cases hn
      exact hpos
  match data, htype with
  | .parallelTask (.parallelHomogeneousPfs _ _ _), _ =>
    obtain ⟨-, hread, hwrite, -⟩ := h
    intro field hmem
    simp only [List.mem_cons, List.not_mem_nil, or_false] at hmem
    rcases hmem with rfl | rfl
    · exact hfield hread
    · exact hfield hwrite

/-- An accepted description follows the grammar exactly when its type is one of the documented types
and, for `parallel_homogeneous_pfs`, the amounts that it gives are not negative. -/
theorem accepted_description_documented_iff {files : TraceFiles} {isFromAFile : Bool}
    {jsonFilename : String} {p : DescribedProfile N}
    (h : profileFromJson num errorPrefix profileName files isFromAFile jsonFilename desc = .ok p) :
    Documented num desc p ↔
      ∃ t : ProfileType, desc.member? "type" = some (.str t.documentedName) ∧
        (t = .parallelHomogeneousPfs → NonnegativeBytes num desc) := by
  constructor
  · intro hdocumented
    exact ⟨_, hdocumented.type, fun htype => nonnegativeBytes_of_describes htype hdocumented.fields⟩
  · intro ⟨t, hmember, hbytes⟩
    simp only [profileFromJson, bind_eq_ok, xbtAssert_eq_ok, labelField_eq_ok, Except.ok.injEq] at h
    obtain ⟨_, -, type, htype, returnCode, hreturnCode, data, hdata, rfl⟩ := h
    have hname : type = t.documentedName := by
      obtain ⟨s, hs, rfl⟩ := htype
      rw [hmember] at hs
      cases hs
      exact t.cString_documentedName
    obtain ⟨hread, hdescribes⟩ := dataFromJson_effect htype hdata
    have hdataType : data.type = t := by
      rcases hread with hread | hread
      · exact ProfileType.documentedName_injective (hread.trans hname)
      · exact absurd hname.symm (hread t)
    refine ⟨?_, ?_, hdescribes fun hpfs => hbytes ?_⟩
    · simpa [hdataType] using hmember
    · split at hreturnCode
      · next hnone =>
        cases hreturnCode
        exact .inl ⟨hnone, rfl⟩
      · next v hv =>
        obtain ⟨n, rfl, hn⟩ := getInt_eq_ok.mp hreturnCode
        exact .inr ⟨n, hv, hn⟩
    · exact ProfileType.documentedName_injective (hname.symm.trans hpfs)

end accepted

/-! ### Descriptions that are accepted -/

/-- The file system of a workload with one trace file, which names the trace of one rank. -/
def oneTrace : TraceFiles where
  parentPath _ := "workloads"
  isDirectory path := path = "workloads"
  isRegularFile path := path = "workloads/trace.txt"
  lines? path := if path = "workloads/trace.txt" then some ["rank0.txt"] else none

def failingDelay : Value Int := .obj [("type", .str "delay"), ("delay", .num 20), ("ret", .num 1)]

def misspeltDelay : Value Int :=
  .obj [("type", .str "dealy"), ("delay", .num 20), ("trace", .str "trace.txt")]

def negativeRead : Value Int :=
  .obj [("type", .str "parallel_homogeneous_pfs"), ("bytes_to_read", .num (-1))]

theorem failing_delay_documented :
    ∃ p, profileFromJson integerNumbers "" "p" oneTrace true "workloads/w.json" failingDelay =
        .ok p ∧ Documented integerNumbers failingDelay p := by
  refine ⟨_, rfl, ?_⟩
  rw [@accepted_description_documented_iff Int integerNumbers "" "p" failingDelay oneTrace true
    "workloads/w.json" _ rfl]
  refine ⟨.delay, rfl, fun h => ?_⟩
  cases h

/-- A misspelt type with a trace file is read as the replay of a usage trace, and negative amounts
of bytes are read as they are. -/
theorem undocumented_descriptions_accepted :
    (∃ p, profileFromJson integerNumbers "" "p" oneTrace true "workloads/w.json" misspeltDelay =
        .ok p ∧ p.data.type = .usageTrace ∧ ¬ Documented integerNumbers misspeltDelay p) ∧
    ∃ p, profileFromJson integerNumbers "" "p" oneTrace true "workloads/w.json" negativeRead =
        .ok p ∧ ¬ Documented integerNumbers negativeRead p := by
  constructor
  · refine ⟨_, rfl, rfl, fun h => ?_⟩
    exact absurd (Value.str.inj (Option.some.inj h.type)) (by decide +kernel)
  · refine ⟨_, rfl, fun h => ?_⟩
    have hbytes := nonnegativeBytes_of_describes rfl h.fields "bytes_to_read" (by simp) (-1) rfl
    exact absurd hbytes (by decide +kernel)

end Batsim
