import Batsim.JobDescriptions
import Batsim.Lib.SortedMap
import Batsim.PairedSequences

/-!
`handle_execute_job`: the members of the data of an `EXECUTE_JOB` event, and the mapping of the
executors to the resources of the allocation.
-/

namespace Batsim

open Checked Json

/-! ### Integers in strings -/

/-- The sign that a list of characters starts with, and what follows it. -/
def splitSign : List Char → Int × List Char
  | '-' :: cs => (-1, cs)
  | '+' :: cs => (1, cs)
  | cs => (1, cs)

/-- The `int` of a sign and of digits, if it is one. -/
def intOfDigits (sign : Int) (ds : List Char) : Option Int :=
  let z := sign * (Nat.ofDigitChars 10 ds 0 : Nat)
  if ds ≠ [] ∧ -2147483648 ≤ z ∧ z ≤ 2147483647 then some z else none

/-- `std::stoi`, which ignores what follows the digits. The exceptions are `none`. -/
def stoi (s : String) : Option Int :=
  let (sign, cs) := splitSign (s.toList.dropWhile isSpace)
  intOfDigits sign (cs.takeWhile Char.isDigit)

/-- The `int` that the whole string writes in base ten. -/
def decimalInt? (s : String) : Option Int :=
  let (sign, cs) := splitSign s.toList
  if cs.all Char.isDigit = true then intOfDigits sign cs else none

/-! ### The reader -/

/-- What the reader takes from elsewhere: the JSON library, the library of interval sets, and the
reading of the description of a profile, which gives its data and its return code. -/
structure ExecuteReader (N : Type) where
  num : Numbers N
  /-- `IntervalSet::from_string_hyphen` -/
  fromStringHyphen : String → Except String IntervalSet
  /-- `Profile::from_json`, from the text of the description -/
  profileFromJson : String → List Char → Except String (ProfileData × Int)

/-- The workloads, by name. -/
abbrev ProfileStores := AList fun _ : String => ProfileStore

/-- `Workloads::at` -/
def ProfileStores.storeAt (ws : ProfileStores) (name : String) : Except String ProfileStore :=
  match ws.lookup name with
  | none => .error "map::at"
  | some store => .ok store

/-- `Workloads::job_at`: the profile of the job -/
def ProfileStores.jobAt (ws : ProfileStores) (id : JobIdentifier) : Except String ProfilePtr := do
  let store ← ws.storeAt id.workloadName
  match store.jobs.lookup id with
  | none => .error ("Cannot get job '" ++ id.toString ++ "': it does not exist")
  | some p => .ok p

/-- `ExecuteJobMessage` -/
structure ExecuteJobMessage where
  job : JobIdentifier
  allocation : TaskAllocation
  ioProfile : Option ProfilePtr

section reading

variable {N : Type}

/-- The members of an object. -/
def members : Value N → List (String × Value N)
  | .obj ms => ms
  | _ => []

/-- A compulsory member, which is a string. -/
def stringMember (v : Value N) (name missing notString : String) : Except String String :=
  match v.member? name with
  | none => .error missing
  | some (.str s) => .ok (cString s)
  | some _ => .error notString

/-- What is read of an optional member. -/
def ifPresent {β : Type} (member : Option (Value N)) (absent : β)
    (read : Value N → Except String β) : Except String β :=
  match member with
  | none => .ok absent
  | some v => read v

variable (num : Numbers N)

/-- `GetInt`, or `std::stoi` on a string: a key or a value of a mapping -/
def mappingInt : Value N → Option Int
  | .num n => num.getInt? n
  | .str s => stoi (cString s)
  | _ => none

/-- The turn of the loop over a mapping for one member. -/
def readMappingEntry (m : String × Value N) : Except String (Int × Int) := do
  xbtAssert (isInt num m.2 = true ∨ isString m.2 = true)
    ("Invalid JSON message: Invalid 'mapping' of event (EXECUTE_JOB): a value is not an integer" ++
      " nor a string")
  match mappingInt num (.str m.1), mappingInt num m.2 with
  | some executor, some resource => .ok (executor, resource)
  | _, _ => .error ("Invalid JSON message: Invalid 'mapping' object of event (EXECUTE_JOB): all" ++
      " keys and values must be integers (or strings representing integers)")

/-- `handle_execute_job`, the `mapping` member -/
def readMappingMember (nbAllocatedResources : Nat) (v : Value N) : Except String (List Nat) := do
  xbtAssert (isObject v = true)
    ("Invalid JSON message: the 'mapping' value in the 'data' value of event (EXECUTE_JOB)" ++
      " should be a string.")
  xbtAssert ((members v).length > 0)
    ("Invalid JSON: the 'mapping' value in the 'data' value of event (EXECUTE_JOB) must be a" ++
      " non-empty object")
  let entries ← collect (readMappingEntry num) (members v)
  let mappingMap := SortedMap.ofAssignments entries
  let mapping ← readMapping nbAllocatedResources mappingMap.entries
  xbtAssert (mapping.length = mappingMap.entries.length) "internal inconsistency on mapping size"
  .ok mapping

/-- The turn of the loop over a storage mapping for one member. -/
def readStorageEntry (m : String × Value N) : Except String (String × Int) :=
  match m.2 with
  | .num n =>
    match num.getInt? n with
    | some z => .ok (cString m.1, z)
    | none => .error ("Invalid JSON message: Invalid 'storage_mapping' of event (EXECUTE_JOB): a" ++
        " value is not an integer")
  | _ => .error ("Invalid JSON message: Invalid 'storage_mapping' of event (EXECUTE_JOB): a" ++
      " value is not an integer")

/-- `handle_execute_job`, the `storage_mapping` member -/
def readStorageMapping (v : Value N) : Except String (List (String × Int)) := do
  xbtAssert (isObject v = true)
    ("Invalid JSON message: the 'storage_mapping' value in the 'data' value of event" ++
      " (EXECUTE_JOB) should be a string.")
  xbtAssert ((members v).length > 0)
    ("Invalid JSON: the 'storage_mapping' value in the 'data' value of event (EXECUTE_JOB) must" ++
      " be a non-empty object")
  let entries ← collect (readStorageEntry num) (members v)
  .ok (SortedMap.ofAssignments entries).entries

end reading

/-- `static_cast<int>(machine_ids.size())` -/
def nbAllocatedResources (machineIds : IntervalSet) : Int := Int.bmod machineIds.size (2 ^ 32)

namespace ExecuteReader

variable {N : Type} (x : ExecuteReader N)

/-- An allocation, from its text. -/
def readAllocation (errorPrefix alloc : String) : Except String IntervalSet :=
  match x.fromStringHyphen alloc with
  | .ok machineIds => .ok machineIds
  | .error e => .error (errorPrefix ++ e)

/-- The workload with the profile that the `additional_io_job` describes, if it describes one. -/
def addIoProfile (store : ProfileStore) (profileName : String) (profile : Option (Value N)) :
    Except String ProfileStore :=
  ifPresent profile store fun profile => do
    xbtAssert (store.exists? profileName = false)
      ("The given profile name '" ++ profileName ++ "' already exists!")
    xbtAssert (isObject profile = true)
      ("Invalid JSON message: in event (EXECUTE_JOB): ['data']['profile'] should be an object")
    let (data, returnCode) ← x.profileFromJson profileName (write x.num.toNumberFormat profile)
    .ok (store.add { name := profileName, data := data, returnCode := returnCode })

/-- `handle_execute_job`, the `additional_io_job` member, for a job with the profile `p` -/
def readAdditionalIoJob (ws : ProfileStores) (job : JobIdentifier) (p : ProfilePtr) (v : Value N) :
    Except String (ProfileStores × Option ProfilePtr × IntervalSet) := do
  let profileName ← stringMember v "profile_name"
    ("Invalid JSON message: In event (EXECUTE_JOB): the 'profile_name' field is mandatory in the" ++
      " 'additional_io_job' object")
    ("Invalid JSON message: Invalid 'profile_name' of event (EXECUTE_JOB): should be a string")
  let store ← ws.storeAt job.workloadName
  let store ← x.addIoProfile store profileName (v.member? "profile")
  xbtAssert (store.exists? profileName = true)
    ("The given profile name '" ++ profileName ++ "' does not exists")
  let ioProfile ← store.at? profileName
  checkIoProfile store.objects p ioProfile
  let alloc ← stringMember v "alloc"
    ("Invalid JSON message: the 'data' value of event (EXECUTE_JOB) should contain a 'alloc' key.")
    ("Invalid JSON message: the 'alloc' value in the 'data' value of event (EXECUTE_JOB) should" ++
      " be a string.")
  let ioAllocation ← x.readAllocation "Invalid JSON message: bad IO allocation: " alloc
  .ok (ws.insert job.workloadName store, some ioProfile, ioAllocation)

/-- `JsonProtocolReader::handle_execute_job` -/
def handleExecuteJob (ws : ProfileStores) (data : Value N) :
    Except String (ProfileStores × ExecuteJobMessage) := do
  xbtAssert (isObject data = true)
    ("Invalid JSON message: the 'data' value of event (EXECUTE_JOB) should be an object")
  xbtAssert ((members data).length = 2 ∨ (members data).length = 3)
    ("Invalid JSON message: the 'data' value of event (EXECUTE_JOB) should be of size in {2,3}" ++
      " (size=" ++ toString (members data).length ++ ")")
  let jobIdStr ← stringMember data "job_id"
    ("Invalid JSON message: the 'data' value of event (EXECUTE_JOB) should contain a 'job_id' key.")
    ("Invalid JSON message: the 'job_id' value in the 'data' value of event (EXECUTE_JOB) should" ++
      " be a string.")
  let job ← JobIdentifier.parse jobIdStr
  let p ← ws.jobAt job
  let alloc ← stringMember data "alloc"
    ("Invalid JSON message: the 'data' value of event (EXECUTE_JOB) should contain a 'alloc' key.")
    ("Invalid JSON message: the 'alloc' value in the 'data' value of event (EXECUTE_JOB) should" ++
      " be a string.")
  let machineIds ← x.readAllocation "Invalid JSON message: " alloc
  xbtAssert (nbAllocatedResources machineIds > 0)
    ("Invalid JSON message: in event (EXECUTE_JOB): the number of allocated resources should be" ++
      " strictly positive (got " ++ toString (nbAllocatedResources machineIds) ++ ").")
  let mapping ← ifPresent (data.member? "mapping") []
    (readMappingMember x.num (nbAllocatedResources machineIds).toNat)
  let storageMapping ← ifPresent (data.member? "storage_mapping") [] (readStorageMapping x.num)
  let (ws, ioProfile, ioAllocation) ← ifPresent (data.member? "additional_io_job")
    (ws, none, IntervalSet.empty) (x.readAdditionalIoJob ws job p)
  .ok (ws, { job, allocation := { machineIds, mapping, storageMapping, ioAllocation }, ioProfile })

end ExecuteReader

end Batsim
