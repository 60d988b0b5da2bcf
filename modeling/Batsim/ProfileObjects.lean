import Batsim.Jobs

/-!
Profile objects with the data that executing a job reads, and the profiles that a workload keeps
of them.
-/

namespace Batsim

/-- `Profile::is_parallel_task` -/
def ProfileType.isParallelTask : ProfileType → Bool
  | .parallel | .parallelHomogeneous | .parallelHomogeneousTotalAmount
  | .parallelHomogeneousPfs | .dataStaging => true
  | _ => false

/-- A `ProfilePtr`: profile objects are numbered in the order of their creation. -/
abbrev ProfilePtr := Nat

/-- `SequenceProfileData`, as `Profile::from_json` accepts it: `profile_sequence` is left empty,
and filled by `check_validity`. -/
structure SequenceProfileData where
  repeats : Nat
  sequence : List String
  profileSequence : List ProfilePtr := []
  repeats_pos : 0 < repeats
  sequence_ne_nil : sequence ≠ []
deriving DecidableEq

/-- `SchedulerSendProfileData` -/
structure SchedulerSendProfileData where
  message : String
  sleeptime : Date
  sleeptime_pos : 0 < sleeptime
deriving DecidableEq

/-- `SchedulerRecvProfileData` -/
structure SchedulerRecvProfileData where
  regex : String
  onSuccess : String
  onFailure : String
  onTimeout : String
  polltime : Date
  polltime_pos : 0 < polltime
deriving DecidableEq

/-- The data of a profile, by type. What only the amounts of work depend on is left out. -/
inductive ProfileData where
  | delay (delay : Date) (delay_nonneg : 0 ≤ delay)
  | parallelTask (type : ProfileType) (nbRes : Nat) (is_parallel : type.isParallelTask = true)
  /-- `SMPI` and `USAGE_TRACE` profiles -/
  | replay (traceFilenames : List String)
  | sequence (data : SequenceProfileData)
  | schedulerSend (data : SchedulerSendProfileData)
  | schedulerRecv (data : SchedulerRecvProfileData)
deriving DecidableEq

structure ProfileObject where
  name : String
  data : ProfileData
  returnCode : Int := 0
deriving DecidableEq

namespace ProfileObject

def isSequence (p : ProfileObject) : Bool :=
  match p.data with
  | .sequence _ => true
  | _ => false

end ProfileObject

end Batsim
