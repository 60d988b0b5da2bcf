import Batsim.ParallelProfiles

/-!
`Profile::from_json`: the profiles of all types that JSON objects describe, and the descriptions
that are accepted.
-/

namespace Batsim

open Checked Json

/-- The data of a profile, as its description gives it. -/
inductive DescribedData (N : Type) where
  | delay (delay : Date)
  | parallelTask (data : TaskProfileData)
  | sequence (repeats : Nat) (sequence : List String)
  | schedulerSend (message : Value N) (sleeptime : Date)
  | schedulerRecv (regex onSuccess onFailure onTimeout : String) (polltime : Date)
  | smpi (traceFilenames : List String)
  | usageTrace (traceFilenames : List String)

structure DescribedProfile (N : Type) where
  name : String
  data : DescribedData N
  returnCode : Int
  jsonDescription : String

def TaskProfileData.type : TaskProfileData → ProfileType
  | .parallel _ => .parallel
  | .parallelHomogeneous _ _ => .parallelHomogeneous
  | .parallelHomogeneousTotalAmount _ _ => .parallelHomogeneousTotalAmount
  | .parallelHomogeneousPfs _ _ _ => .parallelHomogeneousPfs
  | .dataStaging _ _ _ => .dataStaging

def DescribedData.type {N : Type} : DescribedData N → ProfileType
  | .delay _ => .delay
  | .parallelTask data => data.type
  | .sequence _ _ => .sequence
  | .schedulerSend _ _ => .schedulerSend
  | .schedulerRecv _ _ _ _ _ => .schedulerRecv
  | .smpi _ => .smpi
  | .usageTrace _ => .usageTrace

/-- What `Profile::from_json` asks of the file system. -/
structure TraceFiles where
  parentPath : String → String
  isDirectory : String → Bool
  isRegularFile : String → Bool
  /-- the lines of a file, if it can be opened -/
  lines? : String → Option (List String)

/-- `boost::trim_right` -/
def trimRight (s : String) : String :=
  String.ofList (s.toList.reverse.dropWhile isSpace).reverse

section fromJson

variable {N : Type} (num : Numbers N) (errorPrefix profileName : String)

/-- A strictly positive number that has a default value. -/
def durationField (field : String) (default : Date) (desc : Value N) : Except String Date :=
  match desc.member? field with
  | none => .ok default
  | some (.num n) => do
    let duration := num.getDouble n
    xbtAssert (duration > 0) (profileError errorPrefix profileName ++ " has a non-positive '" ++
      field ++ "' field (" ++ toString duration ++ ")")
    .ok duration
  | some _ => .error (profileError errorPrefix profileName ++ " has a non-number '" ++ field ++
      "' field")

/-- `GetString`, which stops the program on what is no string. -/
def getString : Value N → Except String String
  | .str s => .ok (cString s)
  | _ => .error "RAPIDJSON_ASSERT"

/-- `GetInt`, which stops the program on what is no integer. -/
def getInt : Value N → Except String Int
  | .num n =>
    match num.getInt? n with
    | some z => .ok z
    | none => .error "RAPIDJSON_ASSERT"
  | _ => .error "RAPIDJSON_ASSERT"

/-- A string that has a default value. -/
def stringField (field default : String) (desc : Value N) : Except String String :=
  match desc.member? field with
  | none => .ok default
  | some v => getString v

/-- The profiles of type `delay`. -/
def delayFromJson (desc : Value N) : Except String (DescribedData N) :=
  match desc.member? "delay" with
  | none => .error (profileError errorPrefix profileName ++ " has no 'delay' field")
  | some (.num n) => do
    let delay := num.getDouble n
    xbtAssert (delay > 0) (profileError errorPrefix profileName ++
      " has a non-strictly-positive 'delay' field (" ++ toString delay ++ ")")
    .ok (.delay delay)
  | some _ => .error (profileError errorPrefix profileName ++ " has a non-number 'delay' field")

/-- The number of repetitions of a composed profile. -/
def repeatField (desc : Value N) : Except String Nat :=
  match desc.member? "repeat" with
  | none => .ok 1
  | some v =>
    if isInt num v = true then do
      let z ← getInt num v
      xbtAssert (z ≥ 0) (profileError errorPrefix profileName ++
        " has a negative 'repeat' field (" ++ toString z ++ ")")
      .ok z.toNat
    else .error (profileError errorPrefix profileName ++ " has a non-integral 'repeat' field")

/-- The profiles of type `composed`. -/
def composedFromJson (desc : Value N) : Except String (DescribedData N) := do
  let repeats ← repeatField num errorPrefix profileName desc
  xbtAssert (repeats > 0) (profileError errorPrefix profileName ++
    " has a non-strictly-positive 'repeat' field (" ++ toString repeats ++ ")")
  xbtAssert ((desc.member? "seq").isSome = true)
    (profileError errorPrefix profileName ++ " has no 'seq' field")
  let seq ← arrayField errorPrefix profileName "seq" desc
  xbtAssert (seq.length > 0) (profileError errorPrefix profileName ++
    " has an invalid array 'seq': its size must be strictly positive")
  let sequence ← collect getString seq
  .ok (.sequence repeats sequence)

/-- The profiles of type `send`. -/
def sendFromJson (desc : Value N) : Except String (DescribedData N) :=
  match desc.member? "msg" with
  | none => .error (profileError errorPrefix profileName ++ " has no 'msg' field")
  | some message => do
    xbtAssert (isObject message = true)
      (profileError errorPrefix profileName ++ " field 'msg' is no object")
    let sleeptime ← durationField num errorPrefix profileName "sleeptime" (1 / 10000000) desc
    .ok (.schedulerSend message sleeptime)

/-- The profiles of type `recv`. -/
def recvFromJson (desc : Value N) : Except String (DescribedData N) := do
  let regex ← stringField "regex" ".*" desc
  let onSuccess ← stringField "success" "" desc
  let onFailure ← stringField "failure" "" desc
  let onTimeout ← stringField "timeout" "" desc
  let polltime ← durationField num errorPrefix profileName "polltime" (5 / 1000) desc
  .ok (.schedulerRecv regex onSuccess onFailure onTimeout polltime)

/-- The names of the trace files of a profile. -/
def traceFilenames (files : TraceFiles) (isFromAFile : Bool) (jsonFilename : String)
    (desc : Value N) : Except String (List String) := do
  let traceFilename ← labelField errorPrefix profileName "trace" desc
  xbtAssert (isFromAFile = true)
    ("Trying to create a SMPI profile from another source than a file workload, which is not" ++
      " implemented at the moment.")
  let baseDir := files.parentPath jsonFilename
  xbtAssert (files.isDirectory baseDir = true)
    ("directory '" ++ baseDir ++ "' does not exist or is not a directory")
  let tracePath := baseDir ++ "/" ++ traceFilename
  xbtAssert (files.isRegularFile tracePath = true)
    ("Invalid JSON: profile '" ++ profileName ++ "' has an invalid 'trace' field ('" ++
      traceFilename ++ "'), which leads to a non-existent file ('" ++ tracePath ++ "')")
  match files.lines? tracePath with
  | none => .error ("Cannot open file '" ++ tracePath ++ "'")
  | some lines => .ok (lines.map fun line => files.parentPath tracePath ++ "/" ++ trimRight line)

/-- The types of the profiles that `taskProfileFromJson` reads. -/
def taskTypes : List String :=
  ["parallel", "parallel_homogeneous", "parallel_homogeneous_total", "parallel_homogeneous_pfs",
    "data_staging"]

/-- The data of a profile of type `type`. -/
def dataFromJson (files : TraceFiles) (isFromAFile : Bool) (jsonFilename type : String)
    (desc : Value N) : Except String (DescribedData N) :=
  if type = "delay" then delayFromJson num errorPrefix profileName desc
  else if type ∈ taskTypes then do
    let data ← taskProfileFromJson num errorPrefix profileName desc
    .ok (.parallelTask data)
  else if type = "composed" then composedFromJson num errorPrefix profileName desc
  else if type = "send" then sendFromJson num errorPrefix profileName desc
  else if type = "recv" then recvFromJson num errorPrefix profileName desc
  else do
    -- `profile_type == "smpi" || "usage_trace"` holds of all types
    let filenames ← traceFilenames errorPrefix profileName files isFromAFile jsonFilename desc
    .ok (if type = "smpi" then .smpi filenames else .usageTrace filenames)

/-- `Profile::from_json` -/
def profileFromJson (files : TraceFiles) (isFromAFile : Bool) (jsonFilename : String)
    (desc : Value N) : Except String (DescribedProfile N) := do
  xbtAssert (isObject desc = true)
    (profileError errorPrefix profileName ++ " value must be an object")
  let type ← labelField errorPrefix profileName "type" desc
  let returnCode ← (match desc.member? "ret" with
    | none => .ok 0
    | some v => getInt num v)
  let data ← dataFromJson num errorPrefix profileName files isFromAFile jsonFilename type desc
  let jsonDescription := String.ofList (write num.toNumberFormat desc)
  .ok { name := profileName, data := data, returnCode := returnCode
        jsonDescription := jsonDescription }

end fromJson

end Batsim
