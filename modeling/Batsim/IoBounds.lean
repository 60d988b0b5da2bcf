import Mathlib.Algebra.Field.Rat
import Mathlib.Algebra.Order.Field.Basic
import Mathlib.Algebra.Order.Ring.Rat
import Batsim.IoMerge
import Batsim.System

/-!
Whether the merge of a task with an additional IO job reads past the end of a matrix.
-/

namespace Batsim

open Checked

/-- The profile gives a communication matrix to its tasks. -/
def ParallelData.Communicates : ParallelData → Prop
  | .parallel .. => True
  | .parallelHomogeneous _ com => com > 0
  | .parallelHomogeneousTotalAmount _ com => com > 0
  | .parallelHomogeneousPfs bytesToRead bytesToWrite _ => bytesToRead > 0 ∨ bytesToWrite > 0
  | .dataStaging nbBytes _ _ => nbBytes > 0

/-- The allocation as the server gets it. -/
def TaskAllocation.scheduled (a : TaskAllocation) (p : JobPtr) : SchedulingAllocation where
  job := p
  machineIds := a.machineIds
  mapping := a.mapping

/-! ### The sizes of the generated matrices -/

/-- The matrices of a task over `n` hosts. -/
structure Matrices.SizedFor (m : Matrices) (n : Nat) : Prop where
  computation : m.computationVector.length = n
  communication : m.communicationMatrix = [] ∨ m.communicationMatrix.length = n * n

theorem length_fillMatrix (nbRes : Nat) (entry : Nat → Nat → Amount) :
    (fillMatrix nbRes entry).length = nbRes * nbRes := by
  rw [fillMatrix, List.length_flatMap]
  simp

theorem generateSpread_sized (nbRes : Nat) (cpu com : Amount) :
    (generateSpread nbRes cpu com).SizedFor nbRes := by
  constructor
  · simp [generateSpread]
  · rw [generateSpread]
    split
    · exact .inr (length_fillMatrix nbRes _)
    · exact .inl rfl

theorem generateSpread_empty {nbRes : Nat} {cpu com : Amount} :
    (generateSpread nbRes cpu com).communicationMatrix = [] ↔ ¬ com > 0 ∨ nbRes = 0 := by
  rw [← List.length_eq_zero_iff, generateSpread]
  split
  · next hcom =>
    rw [length_fillMatrix, mul_self_eq_zero]
    simp [hcom]
  · next hcom => simp [hcom]

/-- The matrices are as large as the hosts to use then require. -/
theorem generated_sized {ms : Machines} {hosts hosts' : List Nat} {profile : ParallelData}
    {storageMapping : Option (List (String × Int))} {m : Matrices}
    (h : generateMatricesFromProfile ms hosts profile storageMapping = .ok (m, hosts')) :
    m.SizedFor hosts'.length := by
  cases profile with
  | parallel nbRes cpu com hcpu hcom =>
    simp only [generateMatricesFromProfile, generateParallelTask, bind_eq_ok, xbtAssert_eq_ok,
      Except.ok.injEq, Prod.mk.injEq] at h
    obtain ⟨_, ⟨-, hnb, rfl⟩, rfl, rfl⟩ := h
    constructor
    · rw [hcpu, hnb]
    · exact .inr (by rw [hcom, hnb])
  | parallelHomogeneous cpu com =>
    simp only [generateMatricesFromProfile, Except.ok.injEq, Prod.mk.injEq] at h
    obtain ⟨rfl, rfl⟩ := h
    exact generateSpread_sized _ _ _
  | parallelHomogeneousTotalAmount cpu com =>
    simp only [generateMatricesFromProfile, Except.ok.injEq, Prod.mk.injEq] at h
    obtain ⟨rfl, rfl⟩ := h
    exact generateSpread_sized _ _ _
  | parallelHomogeneousPfs bytesToRead bytesToWrite label =>
    simp only [generateMatricesFromProfile, generateParallelHomogeneousWithPfs] at h
    cases storageMapping with
    | none => cases h
    | some mapping =>
      simp only [bind_eq_ok, Except.ok.injEq, Prod.mk.injEq] at h
      obtain ⟨pfs, -, rfl, rfl⟩ := h
      rw [List.length_append, List.length_singleton]
      constructor
      · simp
      · dsimp only
        split
        · exact .inr (length_fillMatrix _ _)
        · exact .inl rfl
  | dataStaging nbBytes fromLabel toLabel =>
    simp only [generateMatricesFromProfile, generateDataStagingTask] at h
    cases storageMapping with
    | none => cases h
    | some mapping =>
      simp only [bind_eq_ok, Except.ok.injEq, Prod.mk.injEq] at h
      obtain ⟨first, -, second, -, rfl, rfl⟩ := h
      constructor
      · simp
      · dsimp only
        split
        · exact .inr (length_fillMatrix _ _)
        · exact .inl rfl

/-- Without labels of storage machines, a task uses all its hosts. -/
theorem generated_hosts {ms : Machines} {hosts hosts' : List Nat} {profile : ParallelData}
    {m : Matrices} (h : generateMatricesFromProfile ms hosts profile (some []) = .ok (m, hosts')) :
    hosts.length ≤ hosts'.length := by
  cases profile with
  | parallel nbRes cpu com hcpu hcom =>
    simp only [generateMatricesFromProfile, bind_eq_ok, Except.ok.injEq, Prod.mk.injEq] at h
    obtain ⟨_, -, -, rfl⟩ := h
    exact Nat.le_refl _
  | parallelHomogeneous cpu com =>
    simp only [generateMatricesFromProfile, Except.ok.injEq, Prod.mk.injEq] at h
    exact Nat.le_of_eq (congrArg List.length h.2)
  | parallelHomogeneousTotalAmount cpu com =>
    simp only [generateMatricesFromProfile, Except.ok.injEq, Prod.mk.injEq] at h
    exact Nat.le_of_eq (congrArg List.length h.2)
  | parallelHomogeneousPfs bytesToRead bytesToWrite label =>
    simp only [generateMatricesFromProfile, generateParallelHomogeneousWithPfs, bind_eq_ok,
      Except.ok.injEq, Prod.mk.injEq] at h
    obtain ⟨pfs, -, -, rfl⟩ := h
    simp
  | dataStaging nbBytes fromLabel toLabel =>
    simp only [generateMatricesFromProfile, generateDataStagingTask, bind_eq_ok] at h
    obtain ⟨first, hfirst, -⟩ := h
    simp [storageOfLabel] at hfirst

/-- What is generated for an IO profile, which gets no storage mapping. -/
theorem generated_io {ms : Machines} {hosts hosts' : List Nat} {profile : ParallelData}
    {m : Matrices} (h : generateMatricesFromProfile ms hosts profile none = .ok (m, hosts')) :
    hosts' = hosts ∧ (m.communicationMatrix = [] ↔ ¬ profile.Communicates ∨ hosts = []) := by
  cases profile with
  | parallel nbRes cpu com hcpu hcom =>
    simp only [generateMatricesFromProfile, generateParallelTask, bind_eq_ok, xbtAssert_eq_ok,
      Except.ok.injEq, Prod.mk.injEq] at h
    obtain ⟨_, ⟨-, hnb, rfl⟩, rfl, rfl⟩ := h
    refine ⟨rfl, ?_⟩
    rw [← List.length_eq_zero_iff, hcom, mul_self_eq_zero, ← List.length_eq_zero_iff, hnb]
    simp [ParallelData.Communicates]
  | parallelHomogeneous cpu com =>
    simp only [generateMatricesFromProfile, Except.ok.injEq, Prod.mk.injEq] at h
    obtain ⟨rfl, rfl⟩ := h
    refine ⟨rfl, ?_⟩
    rw [generateParallelHomogeneous, generateSpread_empty, List.length_eq_zero_iff]
    rfl
  | parallelHomogeneousTotalAmount cpu com =>
    simp only [generateMatricesFromProfile, Except.ok.injEq, Prod.mk.injEq] at h
    obtain ⟨rfl, rfl⟩ := h
    refine ⟨rfl, ?_⟩
    rw [generateParallelHomogeneousTotalAmount, generateSpread_empty, List.length_eq_zero_iff]
    by_cases hnil : hosts = []
    · simp [hnil]
    · have hpos : (0 : Amount) < (hosts.length : Amount) :=
        Nat.cast_pos.mpr (List.length_pos_iff.mpr hnil)
      simp [hnil, div_pos_iff_of_pos_right hpos, ParallelData.Communicates]
  | parallelHomogeneousPfs bytesToRead bytesToWrite label => cases h
  | dataStaging nbBytes fromLabel toLabel => cases h

/-! ### The accepted requests -/

/-- With an additional IO job, there is no room for a mapping. -/
theorem handled_with_io {d : ExecuteJobData} {a : TaskAllocation} {io : AdditionalIoJob}
    (h : d.handleExecuteJob = .ok a) (hio : d.additionalIoJob = some io) :
    a = { machineIds := d.alloc, mapping := [], storageMapping := [], ioAllocation := io.alloc } := by
  simp only [ExecuteJobData.handleExecuteJob, bind_eq_ok, xbtAssert_eq_ok, Except.ok.injEq] at h
  obtain ⟨_, hcount, _, -, mapping, hmapping, storageMapping, hstorage, rfl⟩ := h
  simp only [ExecuteJobData.memberCount, hio, Option.toList_some, List.length_singleton] at hcount
  cases hdmapping : d.mapping with
  | some _ =>
    simp only [hdmapping, Option.toList_some, List.length_singleton] at hcount
    omega
  | none =>
    cases hdstorage : d.storageMapping with
    | some _ =>
      simp only [hdstorage, Option.toList_some, List.length_singleton] at hcount
      omega
    | none =>
      rw [hdmapping] at hmapping
      rw [hdstorage] at hstorage
      cases hmapping
      cases hstorage
      simp [hio]

theorem length_of_collect {α β ε : Type} {f : α → Except ε β} {as : List α} {bs : List β}
    (h : collect f as = .ok bs) : bs.length = as.length :=
  (collect_eq_ok.mp h).length_eq.symm

/-- What the merge reads has the sizes of the sets of machines, but for an empty IO matrix. -/
theorem mergeInput_sized {ms : Machines} {d : ExecuteJobData} {a : TaskAllocation}
    {io : AdditionalIoJob} {profile ioProfile : ParallelData} {x : MergeInput}
    (haccept : d.handleExecuteJob = .ok a) (hio : d.additionalIoJob = some io)
    (h : mergeInput ms a profile ioProfile = .ok x) :
    x.ioAllocation = io.alloc ∧
    x.machineIds.size ≤ x.job.computationVector.length ∧
    x.io.computationVector.length = x.ioAllocation.size ∧
    (x.job.communicationMatrix = [] ∨
      x.machineIds.size * x.machineIds.size ≤ x.job.communicationMatrix.length) ∧
    (x.io.communicationMatrix = [] ∨
      x.io.communicationMatrix.length = x.ioAllocation.size * x.ioAllocation.size) ∧
    (x.io.communicationMatrix = [] ↔ ¬ ioProfile.Communicates ∨ io.alloc.size = 0) := by
  rw [handled_with_io haccept hio] at h
  simp only [mergeInput, bind_eq_ok, Except.ok.injEq, Prod.exists] at h
  obtain ⟨hosts, hhosts, ioHosts', hioHosts, job, hosts', hjob, _, -, ioMatrices, hosts'', hiojob,
    _, -, rfl⟩ := h
  have hhostsLength : hosts.length = d.alloc.size := by
    rw [jobHosts, if_pos rfl] at hhosts
    rw [length_of_collect hhosts, List.length_range]
  have hioLength : ioHosts'.length = io.alloc.size := by
    rw [ioHosts] at hioHosts
    rw [length_of_collect hioHosts, List.length_range]
  have hsized := generated_sized hjob
  have hle : d.alloc.size ≤ hosts'.length := hhostsLength ▸ generated_hosts hjob
  obtain ⟨rfl, hempty⟩ := generated_io hiojob
  have hioSized := generated_sized hiojob
  rw [hioLength] at hioSized
  refine ⟨rfl, ?_, hioSized.computation, ?_, hioSized.communication, ?_⟩
  · rw [hsized.computation]
    exact hle
  · refine hsized.communication.imp_right fun hlength => ?_
    rw [hlength]
    exact Nat.mul_le_mul hle hle
  · rw [hempty, ← hioLength, List.length_eq_zero_iff]

namespace Merging

variable {x : MergeInput} {a : Nat}

/-- A turn of the outer loop goes through the inner one. -/
theorem exists_rows_of_mergeCol (ha : a ∈ x.newAlloc) {m m' : Merging}
    (h : mergeCol x m a = .ok m') :
    ∃ n n', forEach (mergeRow x (a ∉ x.ioAllocation) (a ∉ x.machineIds)) n x.newAlloc.elements =
      .ok n' := by
  simp only [MergeInput.newAlloc, IntervalSet.mem_union] at ha
  simp only [mergeCol, MergeInput.toMergeAlloc, MergeInput.immutJobAlloc,
    MergeInput.immutIoAlloc, IntervalSet.mem_inter, IntervalSet.mem_diff, bind_eq_ok,
    Prod.exists] at h
  obtain ⟨n, onlyJob, onlyIo, henter, n', hrows, -⟩ := h
  have hflags : onlyJob = decide (a ∉ x.ioAllocation) ∧ onlyIo = decide (a ∉ x.machineIds) := by
    by_cases haj : a ∈ x.machineIds
    · by_cases hai : a ∈ x.ioAllocation
      · simp only [haj, hai, and_self, ↓reduceIte, bind_eq_ok, Prod.exists, Except.ok.injEq,
          Prod.mk.injEq] at henter
        obtain ⟨_, _, -, _, _, -, -, rfl, rfl⟩ := henter
        simp [haj, hai]
      · simp only [haj, hai, and_false, ↓reduceIte, not_false_eq_true, and_self, bind_eq_ok,
          Prod.exists, Except.ok.injEq, Prod.mk.injEq] at henter
        obtain ⟨_, _, -, -, rfl, rfl⟩ := henter
        simp [haj, hai]
    · have hai : a ∈ x.ioAllocation := ha.resolve_left haj
      simp only [haj, hai, false_and, ↓reduceIte, not_false_eq_true, and_self, bind_eq_ok,
        Prod.exists, Except.ok.injEq, Prod.mk.injEq] at henter
      obtain ⟨_, _, -, -, rfl, rfl⟩ := henter
      simp [haj, hai]
  rw [hflags.1, hflags.2] at hrows
  exact ⟨n, n', hrows⟩

/-- The merge reads the entry of each machine of the IO task and itself. -/
theorem exists_entry_of_merge (ha : a ∈ x.ioAllocation) {merged : Matrices}
    (h : merge x = .ok merged) : x.io.communicationMatrix ≠ [] := by
  have hnew := mem_newAlloc_of_io ha
  simp only [merge, bind_eq_ok, Except.ok.injEq] at h
  obtain ⟨_, hcols, -⟩ := h
  obtain ⟨m, m', hcol⟩ := exists_step_of_forEach hcols a hnew
  obtain ⟨n, n', hrows⟩ := exists_rows_of_mergeCol hnew hcol
  obtain ⟨o, o', hrow⟩ := exists_step_of_forEach hrows a hnew
  rw [mergeRow_eq hnew hnew] at hrow
  simp only [bind_eq_ok, Prod.exists] at hrow
  obtain ⟨_, _, -, _, _, hread, -⟩ := hrow
  rw [readIoIf, if_pos (by simp [inIo, ha]), readIo] at hread
  intro hempty
  simp [hempty, vectorAt] at hread

end Merging

/-- The request to execute a job on the only machine, with an IO task there. -/
def executeWithIo : ExecuteJobData where
  alloc := loneMachine
  additionalIoJob := some { alloc := loneMachine }

def loneJobPtr : JobPtr := ⟨"w0", loneJob⟩

/-- The job waits there, and computes without communicating. -/
def computingJob : Sim :=
  { start loneHost with
    job := fun _ => { Job.new loneJobDescription { name := "p", type := .parallelHomogeneous } with
      state := .submitted }
    data := { nbSubmittedJobs := 1 } }

end Batsim
