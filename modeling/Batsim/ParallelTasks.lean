import Batsim.Machines
import Batsim.Tasks

/-!
What a parallel task computes and communicates: the matrices of the profiles, and their merge with
those of an additional IO job.
-/

namespace Batsim

open Checked

/-- Amounts of computation and of communication. The code has `double`s. -/
abbrev Amount := ℚ

/-- The data of the profiles of the parallel tasks, by type. A matrix is a list of its rows, one
after the other. -/
inductive ParallelData where
  | parallel (nbRes : Nat) (cpu com : List Amount) (cpu_length : cpu.length = nbRes)
      (com_length : com.length = nbRes * nbRes)
  | parallelHomogeneous (cpu com : Amount)
  | parallelHomogeneousTotalAmount (cpu com : Amount)
  | parallelHomogeneousPfs (bytesToRead bytesToWrite : Amount) (storageLabel : String)
  | dataStaging (nbBytes : Amount) (fromStorageLabel toStorageLabel : String)

/-- The two output vectors of the generation. -/
structure Matrices where
  computationVector : List Amount
  communicationMatrix : List Amount
deriving DecidableEq

/-- The loop over the rows and the columns of a matrix. -/
def fillMatrix (nbRes : Nat) (entry : Nat → Nat → Amount) : List Amount :=
  (List.range nbRes).flatMap fun y => (List.range nbRes).map fun x => entry y x

/-- `generate_parallel_task` -/
def generateParallelTask (nbRes dataNbRes : Nat) (cpu com : List Amount) :
    Except String Matrices := do
  xbtAssert (nbRes = dataNbRes)
    ("the number of resources given by the allocation (" ++ toString nbRes ++ ") is different " ++
      "from the number of resouces given by the profile data (" ++ toString dataNbRes ++ ")")
  .ok ⟨cpu, com⟩

/-- What the homogeneous profiles have in common: the amounts of each host and each pair. -/
def generateSpread (nbRes : Nat) (cpu com : Amount) : Matrices where
  computationVector := List.replicate nbRes cpu
  communicationMatrix :=
    if com > 0 then fillMatrix nbRes fun y x => if x = y then 0 else com else []

/-- `generate_parallel_homogeneous` -/
def generateParallelHomogeneous (nbRes : Nat) (cpu com : Amount) : Matrices :=
  generateSpread nbRes cpu com

/-- `generate_parallel_homogeneous_total_amount` -/
def generateParallelHomogeneousTotalAmount (nbRes : Nat) (cpu com : Amount) : Matrices :=
  generateSpread nbRes (cpu / nbRes) (com / nbRes)

/-- `machines[id]`, whose identifiers are signed -/
def Machines.machineAt (ms : Machines) (id : Int) : Except String Machine :=
  if id < 0 then .error ("Cannot get machine " ++ toString id ++ ": it does not exist")
  else ms.at? id.toNat

/-- `storage_machines`, by number -/
def Machines.storageMachines (ms : Machines) : List Nat :=
  (List.range ms.machines.length).filter fun id =>
    (ms.machines[id]?).any fun m => m.permissions = Permissions.storage

/-- The storage machine that a label of the mapping names. -/
def storageOfLabel (ms : Machines) (storageMapping : List (String × Int)) (errorPrefix : String)
    (label : String) : Except String Nat :=
  match storageMapping.find? fun e => e.1 = label with
  | none => .error (errorPrefix ++ ": Unknown storage label='" ++ label ++ "'")
  | some e => do
    let m ← ms.machineAt e.2
    xbtAssert (m.permissions = Permissions.storage)
      (errorPrefix ++ "The host(id=" ++ toString e.2 ++ ") pointed to by label='" ++ label ++
        "' is not a storage host")
    .ok e.2.toNat

/-- The storage machine of a PFS task. -/
def pfsMachine (ms : Machines) (storageMapping : List (String × Int)) (errorPrefix : String)
    (storageLabel : String) : Except String Nat :=
  if storageMapping = [] then
    match ms.storageMachines with
    | [id] => .ok id
    | _ => .error (errorPrefix ++ "No storage/host mapping given and there is no (or more than" ++
        " one) storage node available")
  else storageOfLabel ms storageMapping errorPrefix storageLabel

/-- `generate_parallel_homogeneous_with_pfs`; the hosts are those of the machines listed. -/
def generateParallelHomogeneousWithPfs (ms : Machines) (hostsToUse : List Nat)
    (storageMapping : Option (List (String × Int))) (bytesToRead bytesToWrite : Amount)
    (storageLabel : String) : Except String (Matrices × List Nat) := do
  let errorPrefix := "Cannot generate a homogeneous parallel task with pfs: "
  let nbRes := hostsToUse.length + 1
  let pfsId := nbRes - 1
  match storageMapping with
  | none => .error (errorPrefix ++ ": storage mapping is null but the code uses it!")
  | some mapping => do
    let pfs ← pfsMachine ms mapping errorPrefix storageLabel
    .ok ({ computationVector := List.replicate nbRes 0
           communicationMatrix :=
             if bytesToRead > 0 ∨ bytesToWrite > 0 then
               fillMatrix nbRes fun row col =>
                 if col = row ∨ (col ≠ pfsId ∧ row ≠ pfsId) then 0
                 else if col = pfsId then bytesToWrite
                 else bytesToRead
             else [] }, hostsToUse ++ [pfs])

/-- `generate_data_staging_task` -/
def generateDataStagingTask (ms : Machines) (storageMapping : Option (List (String × Int)))
    (nbBytes : Amount) (fromStorageLabel toStorageLabel : String) :
    Except String (Matrices × List Nat) := do
  let errorPrefix := "Cannot generate a data staging task: "
  match storageMapping with
  | none => .error (errorPrefix ++ ": storage mapping is null but the code uses it!")
  | some mapping => do
    let fromMachine ← storageOfLabel ms mapping errorPrefix fromStorageLabel
    let toMachine ← storageOfLabel ms mapping errorPrefix toStorageLabel
    .ok ({ computationVector := List.replicate 2 0
           communicationMatrix :=
             if nbBytes > 0 then
               fillMatrix 2 fun row col => if col = row ∨ col ≠ 1 then 0 else nbBytes
             else [] }, [fromMachine, toMachine])

/-- `generate_matrices_from_profile`, with the hosts to use then -/
def generateMatricesFromProfile (ms : Machines) (hostsToUse : List Nat) (profile : ParallelData)
    (storageMapping : Option (List (String × Int))) : Except String (Matrices × List Nat) :=
  match profile with
  | .parallel nbRes cpu com _ _ => do
    let matrices ← generateParallelTask hostsToUse.length nbRes cpu com
    .ok (matrices, hostsToUse)
  | .parallelHomogeneous cpu com =>
    .ok (generateParallelHomogeneous hostsToUse.length cpu com, hostsToUse)
  | .parallelHomogeneousTotalAmount cpu com =>
    .ok (generateParallelHomogeneousTotalAmount hostsToUse.length cpu com, hostsToUse)
  | .parallelHomogeneousPfs bytesToRead bytesToWrite label =>
    generateParallelHomogeneousWithPfs ms hostsToUse storageMapping bytesToRead bytesToWrite label
  | .dataStaging nbBytes fromLabel toLabel =>
    generateDataStagingTask ms storageMapping nbBytes fromLabel toLabel

/-- `check_ptask_execution_permission` -/
def checkPtaskExecutionPermission (ms : Machines) (alloc : IntervalSet)
    (computationVector : List Amount) : Except String Unit :=
  forEach (fun _ (i, id) => do
    let m ← ms.at? id
    let computation ← vectorAt computationVector i
    xbtAssert (|computation| > 1 / 10000000000 → m.permissions = Permissions.computeNode)
      ("Some computation is assigned to storage node (id=" ++ toString id ++ ")"))
    () (alloc.elements.mapIdx fun i id => (i, id))

/-! ### The merge -/

/-- What the merge reads. -/
structure MergeInput where
  machineIds : IntervalSet
  ioAllocation : IntervalSet
  job : Matrices
  io : Matrices

namespace MergeInput

variable (x : MergeInput)

def immutJobAlloc : IntervalSet := x.machineIds.diff x.ioAllocation

def immutIoAlloc : IntervalSet := x.ioAllocation.diff x.machineIds

def toMergeAlloc : IntervalSet := x.machineIds.inter x.ioAllocation

def newAlloc : IntervalSet := x.machineIds.union x.ioAllocation

end MergeInput

/-- The variables of the loops of the merge. -/
structure Merging where
  newComputationVector : List Amount
  newCommunicationMatrix : List Amount
  col : Nat := 0
  k : Nat := 0
  colJobHostIndex : Nat := 0
  rowJobHostIndex : Nat := 0
  colIoHostIndex : Nat := 0
  rowIoHostIndex : Nat := 0

namespace Merging

/-- `communication_matrix[row_job_host_index++]` -/
def readJob (x : MergeInput) (m : Merging) : Except String (Amount × Merging) := do
  let amount ← vectorAt x.job.communicationMatrix m.rowJobHostIndex
  .ok (amount, { m with rowJobHostIndex := m.rowJobHostIndex + 1 })

/-- `io_communication_matrix[row_io_host_index++]` -/
def readIo (x : MergeInput) (m : Merging) : Except String (Amount × Merging) := do
  let amount ← vectorAt x.io.communicationMatrix m.rowIoHostIndex
  .ok (amount, { m with rowIoHostIndex := m.rowIoHostIndex + 1 })

/-- `new_communication_matrix[k] = amount; k++` -/
def writeCell (m : Merging) (amount : Amount) : Merging :=
  { m with
    newCommunicationMatrix := m.newCommunicationMatrix.set m.k amount
    k := m.k + 1 }

/-- The inner loop, for the machine `new_alloc[row]`. -/
def mergeRow (x : MergeInput) (colOnlyInJob colOnlyInIo : Bool) (m : Merging) (machine : Nat) :
    Except String Merging :=
  if machine ∈ x.toMergeAlloc then
    if colOnlyInJob then
      if x.job.communicationMatrix ≠ [] then do
        let (amount, m) ← m.readJob x
        .ok (m.writeCell amount)
      else .ok (m.writeCell 0)
    else if colOnlyInIo then do
      let (amount, m) ← m.readIo x
      .ok (m.writeCell amount)
    else if x.job.communicationMatrix ≠ [] then do
      let (jobAmount, m) ← m.readJob x
      let (ioAmount, m) ← m.readIo x
      .ok (m.writeCell (jobAmount + ioAmount))
    else do
      let (amount, m) ← m.readIo x
      .ok (m.writeCell amount)
  else if machine ∈ x.immutJobAlloc then
    if colOnlyInIo ∨ x.job.communicationMatrix = [] then .ok (m.writeCell 0)
    else do
      let (amount, m) ← m.readJob x
      .ok (m.writeCell amount)
  else if machine ∈ x.immutIoAlloc then
    if colOnlyInJob then .ok (m.writeCell 0)
    else do
      let (amount, m) ← m.readIo x
      .ok (m.writeCell amount)
  else .error "This should not happen"

/-- `computation_vector[col_job_host_index++]` -/
def readJobComputation (x : MergeInput) (m : Merging) : Except String (Amount × Merging) := do
  let amount ← vectorAt x.job.computationVector m.colJobHostIndex
  .ok (amount, { m with colJobHostIndex := m.colJobHostIndex + 1 })

/-- `io_computation_vector[col_io_host_index++]` -/
def readIoComputation (x : MergeInput) (m : Merging) : Except String (Amount × Merging) := do
  let amount ← vectorAt x.io.computationVector m.colIoHostIndex
  .ok (amount, { m with colIoHostIndex := m.colIoHostIndex + 1 })

/-- `new_computation_vector[col] = amount` -/
def writeComputation (m : Merging) (amount : Amount) : Merging :=
  { m with newComputationVector := m.newComputationVector.set m.col amount }

/-- The outer loop, for the machine `new_alloc[col]`. -/
def mergeCol (x : MergeInput) (m : Merging) (currMachine : Nat) : Except String Merging := do
  let (m, colOnlyInJob, colOnlyInIo) ← (
    if currMachine ∈ x.toMergeAlloc then do
      let (jobAmount, m) ← m.readJobComputation x
      let (ioAmount, m) ← m.readIoComputation x
      .ok (m.writeComputation (jobAmount + ioAmount), false, false)
    else if currMachine ∈ x.immutJobAlloc then do
      let (amount, m) ← m.readJobComputation x
      .ok (m.writeComputation amount, true, false)
    else if currMachine ∈ x.immutIoAlloc then do
      let (amount, m) ← m.readIoComputation x
      .ok (m.writeComputation amount, false, true)
    else .error "This should not happen")
  let m ← forEach (mergeRow x colOnlyInJob colOnlyInIo) m x.newAlloc.elements
  .ok { m with col := m.col + 1 }

end Merging

/-- The merge of `execute_parallel_task`: both loops, from the buffers filled with zeros. -/
def merge (x : MergeInput) : Except String Matrices := do
  let nbRes := x.newAlloc.size
  let m ← forEach (Merging.mergeCol x)
    { newComputationVector := List.replicate nbRes 0
      newCommunicationMatrix := List.replicate (nbRes * nbRes) 0 } x.newAlloc.elements
  .ok ⟨m.newComputationVector, m.newCommunicationMatrix⟩

/-! ### From the request of the scheduler to the merge -/

/-- The `additional_io_job` of an `EXECUTE_JOB` event, but for its profile. -/
structure AdditionalIoJob where
  alloc : IntervalSet

/-- The data of an `EXECUTE_JOB` event but for the job. The mapping is listed in the order of its
keys, which are all different. -/
structure ExecuteJobData where
  alloc : IntervalSet
  mapping : Option (List (Int × Int)) := none
  storageMapping : Option (List (String × Int)) := none
  additionalIoJob : Option AdditionalIoJob := none
  nbOtherMembers : Nat := 0

/-- `MemberCount` -/
def ExecuteJobData.memberCount (d : ExecuteJobData) : Nat :=
  2 + d.mapping.toList.length + d.storageMapping.toList.length +
    d.additionalIoJob.toList.length + d.nbOtherMembers

/-- The part of `SchedulingAllocation` that the parallel tasks read. -/
structure TaskAllocation where
  machineIds : IntervalSet
  mapping : List Nat
  storageMapping : List (String × Int)
  ioAllocation : IntervalSet

/-- The loop over the entries of a mapping. -/
def readMapping (nbAllocatedResources : Nat) (entries : List (Int × Int)) :
    Except String (List Nat) :=
  collect (fun (nbInserted, entry) => do
    xbtAssert (entry.1 = (nbInserted : Int))
      ("Invalid JSON message: Invalid 'mapping' object of event (EXECUTE_JOB): no resource" ++
        " associated to executor " ++ toString nbInserted ++ ".")
    xbtAssert (entry.2 ≥ 0 ∧ entry.2 < nbAllocatedResources)
      ("Invalid JSON message: Invalid 'mapping' object of event (EXECUTE_JOB): executor " ++
        toString entry.1 ++ " should use the " ++ toString entry.2 ++
        "-th resource within the allocation, but there are only " ++
        toString nbAllocatedResources ++ " allocated resources.")
    .ok entry.2.toNat) (entries.mapIdx fun i e => (i, e))

/-- `JsonProtocolReader::handle_execute_job`, the part on the allocation -/
def ExecuteJobData.handleExecuteJob (d : ExecuteJobData) : Except String TaskAllocation := do
  xbtAssert (d.memberCount = 2 ∨ d.memberCount = 3)
    ("Invalid JSON message: the 'data' value of event (EXECUTE_JOB) should be of size in {2,3}" ++
      " (size=" ++ toString d.memberCount ++ ")")
  xbtAssert (d.alloc.size > 0)
    ("Invalid JSON message: in event (EXECUTE_JOB): the number of allocated resources should be" ++
      " strictly positive (got " ++ toString d.alloc.size ++ ").")
  let mapping ← (match d.mapping with
    | none => .ok []
    | some entries => do
      xbtAssert (entries ≠ [])
        ("Invalid JSON: the 'mapping' value in the 'data' value of event (EXECUTE_JOB) must be a" ++
          " non-empty object")
      readMapping d.alloc.size entries)
  let storageMapping ← (match d.storageMapping with
    | none => .ok []
    | some entries => do
      xbtAssert (entries ≠ [])
        ("Invalid JSON: the 'storage_mapping' value in the 'data' value of event (EXECUTE_JOB)" ++
          " must be a non-empty object")
      .ok entries)
  .ok { machineIds := d.alloc
        mapping := mapping
        storageMapping := storageMapping
        ioAllocation := (d.additionalIoJob.map fun io => io.alloc).getD .empty }

/-- The hosts of a job in `execute_job_process`, by machine. -/
def jobHosts (ms : Machines) (a : TaskAllocation) : Except String (List Nat) :=
  let mapping := if a.mapping = [] then List.range a.machineIds.size else a.mapping
  collect (fun i => do
    let id ← vectorAt a.machineIds.elements i
    let _ ← ms.at? id
    .ok id) mapping

/-- The hosts of the additional IO job in `execute_job_process`, by machine: the machines are
numbered from 0 on, whatever the IO allocation is. -/
def ioHosts (ms : Machines) (a : TaskAllocation) : Except String (List Nat) :=
  collect (fun id => do
    let _ ← ms.at? id
    .ok id) (List.range a.ioAllocation.size)

/-- `new_hosts_to_use`, by machine -/
def newHostsToUse (ms : Machines) (x : MergeInput) : Except String (List Nat) :=
  collect (fun id => do
    let _ ← ms.at? id
    .ok id) x.newAlloc.elements

/-- What `execute_parallel_task` merges for a task with an IO profile. -/
def mergeInput (ms : Machines) (a : TaskAllocation) (profile ioProfile : ParallelData) :
    Except String MergeInput := do
  let hosts ← jobHosts ms a
  let ioHosts ← ioHosts ms a
  let (job, _) ← generateMatricesFromProfile ms hosts profile (some a.storageMapping)
  checkPtaskExecutionPermission ms a.machineIds job.computationVector
  let (io, _) ← generateMatricesFromProfile ms ioHosts ioProfile none
  let x : MergeInput :=
    { machineIds := a.machineIds, ioAllocation := a.ioAllocation, job := job, io := io }
  let _ ← newHostsToUse ms x
  .ok x

end Batsim
