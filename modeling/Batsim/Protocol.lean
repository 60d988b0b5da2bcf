import Batsim.Jobs

/-!
What Batsim and the scheduler say to each other, and what the actors of Batsim say to the server.
-/

namespace Batsim

open Checked

/-- The events that Batsim sends. The quantities of an answer are measured by SimGrid. -/
inductive ProtocolEvent where
  | simulationBegins
  | simulationEnds
  | jobSubmitted (id : JobIdentifier) (job profile : String)
  | jobCompleted (id : JobIdentifier) (state : String) (alloc : IntervalSet) (returnCode : Int)
  | jobKilled (ids : List JobIdentifier)
  | requestedCall
  | resourceStateChanged (machines : IntervalSet) (state : String)
  | notify (type : String)
  | notifyResourceEvent (type : String) (machines : IntervalSet)
  | notifyGenericEvent (json : String)
  | fromJobMessage (id : JobIdentifier) (message : String)
  | answerEnergy
  | answerCarbonFootprint
  | answerWaterFootprint
deriving DecidableEq

structure DatedEvent where
  timestamp : Date
  event : ProtocolEvent
deriving DecidableEq

/-- `JsonProtocolWriter`. `generate_current_message` moves the events into the message; its
callers always call `clear` next. -/
structure ProtocolWriter where
  events : List DatedEvent := []
  isEmpty : Bool := true
  lastDate : Date := -1
deriving DecidableEq

namespace ProtocolWriter

/-- What every `append_*` does with its event. -/
def append (w : ProtocolWriter) (date : Date) (e : ProtocolEvent) :
    Except String ProtocolWriter := do
  xbtAssert (date ≥ w.lastDate) "Date inconsistency"
  .ok { events := w.events ++ [⟨date, e⟩], isEmpty := false, lastDate := date }

def generateCurrentMessage (w : ProtocolWriter) (date : Date) :
    Except String (List DatedEvent) := do
  xbtAssert (date ≥ w.lastDate) "Date inconsistency"
  .ok w.events

def clear (w : ProtocolWriter) : ProtocolWriter :=
  { w with events := [], isEmpty := true }

theorem append_eq_ok {w w' : ProtocolWriter} {date : Date} {e : ProtocolEvent} :
    w.append date e = .ok w' ↔ w.lastDate ≤ date ∧
      w' = { events := w.events ++ [⟨date, e⟩], isEmpty := false, lastDate := date } := by
  simp only [append, bind_eq_ok, xbtAssert_eq_ok, Except.ok.injEq]
  constructor
  · rintro ⟨_, h, rfl⟩
    exact ⟨h, rfl⟩
  · rintro ⟨h, rfl⟩
    exact ⟨(), h, rfl⟩

theorem generateCurrentMessage_eq_ok {w : ProtocolWriter} {date : Date} {m : List DatedEvent} :
    w.generateCurrentMessage date = .ok m ↔ w.lastDate ≤ date ∧ m = w.events := by
  simp only [generateCurrentMessage, bind_eq_ok, xbtAssert_eq_ok, Except.ok.injEq]
  constructor
  · rintro ⟨_, h, rfl⟩
    exact ⟨h, rfl⟩
  · rintro ⟨h, rfl⟩
    exact ⟨(), h, rfl⟩

end ProtocolWriter

inductive QueryRequest where
  | consumedEnergy
  | carbonFootprint
  | waterFootprint
deriving DecidableEq, Repr

/-- The members of a job object of a `REGISTER_JOB` event; `id` is the identifier that
`Job::from_json` gives the job. -/
structure JobDescription where
  id : JobIdentifier
  subtime : Date := 0
  walltime : Date := -1
  res : Nat
  profile : String
  jsonDescription : String := ""
deriving DecidableEq

/-- The data of an event that the scheduler sends. -/
inductive SchedulerEventData where
  | query (requests : List QueryRequest)
  | answer
  | rejectJob (id : JobIdentifier)
  /-- the mapping, when there is one, is listed in the order of its keys -/
  | executeJob (id : JobIdentifier) (alloc : IntervalSet) (mapping : Option (List (Int × Int)))
  | callMeLater (targetTime : Date)
  | killJob (ids : List JobIdentifier)
  | registerJob (id : JobIdentifier) (job : JobDescription)
  | registerProfile (workloadName profileName : String) (profile : Profile)
  | setResourceState (resources : IntervalSet) (state : Int)
  | setJobMetadata (id : JobIdentifier) (metadata : String)
  | changeJobState (id : JobIdentifier) (jobState : String)
  | notify (type : String)
  | toJobMsg (id : JobIdentifier) (msg : String)
deriving DecidableEq

structure SchedulerEvent where
  timestamp : Date
  data : SchedulerEventData
deriving DecidableEq

/-- What the scheduler answers to a message. -/
structure Reply where
  now : Date
  events : List SchedulerEvent
deriving DecidableEq

/-- An external event of an event list. -/
inductive ExternalEventData where
  | machineAvailable (machineIds : IntervalSet)
  | machineUnavailable (machineIds : IntervalSet)
  | generic (jsonDesc : String)
deriving DecidableEq

structure ExternalEvent where
  timestamp : Date
  data : ExternalEventData
deriving DecidableEq

/-- `SchedulingAllocation`, without what only parallel tasks read -/
structure SchedulingAllocation where
  job : JobPtr
  machineIds : IntervalSet
  mapping : List Nat := []
deriving DecidableEq

inductive SubmitterType where
  | jobSubmitter
  | eventSubmitter
deriving DecidableEq, Repr

/-- `IPMessage`, the messages to the server -/
inductive IPMessage where
  | jobSubmitted (submitterName : String) (jobs : List JobPtr)
  | jobRegisteredByDP (job : JobPtr)
  | profileRegisteredByDP (workloadName profileName : String)
  | jobCompleted (job : JobPtr)
  | pstateModification (machineIds : IntervalSet) (newPstate : Int)
  | schedExecuteJob (allocation : SchedulingAllocation)
  | schedChangeJobState (jobId : JobIdentifier) (jobState : String)
  | toJobMsg (jobId : JobIdentifier) (message : String)
  | fromJobMsg (jobId : JobIdentifier) (message : String)
  | schedRejectJob (jobId : JobIdentifier)
  | schedKillJob (jobsIds : List JobIdentifier)
  | schedCallMeLater (targetTime : Date)
  | schedTellMeEnergy
  | schedTellMeCarbonFootprint
  | schedTellMeWaterFootprint
  | schedSetJobMetadata (jobId : JobIdentifier) (metadata : String)
  | schedReady
  | waitingDone
  | killingDone (jobsIds : List JobIdentifier) (acknowledgeKillOnProtocol : Bool)
  | submitterHello (submitterName : String) (enableCallbackOnJobCompletion : Bool)
      (submitterType : SubmitterType)
  | submitterBye (submitterName : String) (submitterType : SubmitterType)
      (isWorkflowSubmitter : Bool)
  | switchedOn (machineId : Nat) (newPstate : Int)
  | switchedOff (machineId : Nat) (newPstate : Int)
  | endDynamicRegister
  | continueDynamicRegister
  | eventOccurred (submitterName : String) (occurredEvents : List ExternalEvent)
deriving DecidableEq

/-- The messages that the event makes the reader send to the server, in order. -/
def SchedulerEventData.messages : SchedulerEventData → List IPMessage
  | .query requests => requests.map fun
    | .consumedEnergy => .schedTellMeEnergy
    | .carbonFootprint => .schedTellMeCarbonFootprint
    | .waterFootprint => .schedTellMeWaterFootprint
  | .answer => []
  | .rejectJob id => [.schedRejectJob id]
  | .executeJob id alloc mapping =>
    [.schedExecuteJob { job := ⟨id.workloadName, id⟩, machineIds := alloc
                        mapping := (mapping.getD []).map fun e => e.2.toNat }]
  | .callMeLater targetTime => [.schedCallMeLater targetTime]
  | .killJob ids => [.schedKillJob ids]
  | .registerJob id _ => [.jobRegisteredByDP ⟨id.workloadName, id⟩]
  | .registerProfile workloadName profileName _ => [.profileRegisteredByDP workloadName profileName]
  | .setResourceState resources state => [.pstateModification resources state]
  | .setJobMetadata id metadata => [.schedSetJobMetadata id metadata]
  | .changeJobState id jobState => [.schedChangeJobState id jobState]
  | .notify type => [if type = "registration_finished" then .endDynamicRegister
      else .continueDynamicRegister]
  | .toJobMsg id msg => [.toJobMsg id msg]

/-- The messages that a reply makes its reader send to the server, in order. -/
def Reply.messages (r : Reply) : List IPMessage :=
  r.events.flatMap (fun e => e.data.messages) ++ [.schedReady]

/-- The messages that only the reader of a reply sends. -/
def IPMessage.fromScheduler : IPMessage → Bool
  | .jobRegisteredByDP _ | .profileRegisteredByDP _ _ | .pstateModification _ _
  | .schedExecuteJob _ | .schedChangeJobState _ _ | .toJobMsg _ _ | .schedRejectJob _
  | .schedKillJob _ | .schedCallMeLater _ | .schedTellMeEnergy | .schedTellMeCarbonFootprint
  | .schedTellMeWaterFootprint | .schedSetJobMetadata _ _ | .schedReady | .endDynamicRegister
  | .continueDynamicRegister => true
  | _ => false

theorem SchedulerEventData.fromScheduler_of_mem {d : SchedulerEventData} {m : IPMessage}
    (h : m ∈ d.messages) : m.fromScheduler = true := by
  cases d with
  | query requests =>
    simp only [messages, List.mem_map] at h
    obtain ⟨r, -, rfl⟩ := h
    cases r <;> rfl
  | answer => simp [messages] at h
  | notify type =>
    simp only [messages, List.mem_singleton] at h
    subst h
    split <;> rfl
  | _ =>
    simp only [messages, List.mem_singleton] at h
    subst h
    rfl

end Batsim
