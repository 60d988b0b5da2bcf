import Batsim.Lib.Rounds
import Batsim.Workloads
import Batsim.Pstate
import Batsim.Protocol

/-!
The state of a simulation: the server, the actors around it, and everything they share.
-/

namespace Batsim

open Checked

/-- A task of a workflow; the tasks of a workflow are numbered in the order of their identifiers. -/
structure WorkflowTask where
  id : String
  numProcs : Int := 1
  executionTime : Date := 0
  children : List Nat := []
  parents : List Nat := []
deriving DecidableEq

structure WorkflowDescription where
  /-- also the name of its workload -/
  name : String
  startTime : Date := 0
  tasks : List WorkflowTask
deriving DecidableEq

/-- A job of a workload file, with the profile that its description names. -/
structure StaticJob where
  description : JobDescription
  profile : Profile
deriving DecidableEq

/-- A workload file, once parsed; `profiles` are the profiles that loading it leaves. -/
structure WorkloadDescription where
  name : String
  filename : String := ""
  profiles : Profiles := .empty
  jobs : List StaticJob

structure EventListDescription where
  name : String
  events : List ExternalEvent

/-- `load_workloads_and_workflows`: the workloads of the files, then those of the workflows. -/
def loadWorkloadsAndWorkflows (workloads : List WorkloadDescription)
    (workflows : List WorkflowDescription) : Except String Workloads := do
  let ws ← forEach (fun ws d => do
    let jobs ← Jobs.empty.loadFromJson d.filename (d.jobs.map fun j => ⟨d.name, j.description.id⟩)
    ws.insertWorkload d.name
      { name := d.name, isStatic := true, jobs := jobs, profiles := d.profiles }) ⟨∅⟩ workloads
  forEach (fun ws d =>
    ws.insertWorkload d.name
      { name := d.name, isStatic := true, jobs := .empty, profiles := .empty }) ws workflows

/-- What a run of Batsim is started with, with what is loaded before the simulation. -/
structure Config where
  allowComputeSharing : Bool := false
  allowStorageSharing : Bool := true
  energyUsed : Bool := false
  environmentalFootprintUsed : Bool := false
  redisEnabled : Bool := false
  submissionForwardProfiles : Bool := false
  registrationSchedEnabled : Bool := false
  registrationSchedAck : Bool := true
  garbageCollectProfiles : Bool := true
  terminateWithLastWorkflow : Bool := false
  workflowNbConcurrentJobsLimit : Int := 0
  workloadDescriptions : List WorkloadDescription
  workflowDescriptions : List WorkflowDescription := []
  eventLists : List EventListDescription := []
  hosts : List Host
  workloads : Workloads
  workloads_loaded :
    loadWorkloadsAndWorkflows workloadDescriptions workflowDescriptions = .ok workloads
  machines : Machines
  machines_created : Machines.createMachines energyUsed hosts = .ok machines

/-- The user inputs of a job, the rest as `Job::from_json` sets it. -/
def Job.new (d : JobDescription) (profile : Profile) : Job where
  profile := profile
  submissionTime := d.subtime
  walltime := d.walltime
  requestedNbRes := d.res
  jsonDescription := d.jsonDescription

/-- The job objects before the simulation. -/
def Config.job (cfg : Config) (p : JobPtr) : Job :=
  match cfg.workloadDescriptions.find? (fun d => d.name = p.workload) with
  | none => { profile := { name := "", type := .delay }, submissionTime := 0, requestedNbRes := 0 }
  | some d =>
    match d.jobs.find? (fun j => j.description.id = p.id) with
    | none => { profile := { name := "", type := .delay }, submissionTime := 0, requestedNbRes := 0 }
    | some j => Job.new j.description j.profile

/-- What the leaf that a job executes waits on. -/
inductive Leaf where
  /-- a parallel task, that can be cancelled -/
  | ptask
  /-- anything else: a delay, a wait for messages, replaying child actors -/
  | other
deriving DecidableEq, Repr

/-- An execution actor: its number tells apart the actors made for one job. -/
structure ExecutionActor where
  number : Nat
  allocation : SchedulingAllocation
deriving DecidableEq

/-- What the reader of a reply still has to do. -/
inductive ReplyItem where
  /-- call the handler of the event -/
  | event (e : SchedulerEvent)
  /-- `send_message_at_time` -/
  | send (date : Date) (m : IPMessage)
deriving DecidableEq

/-- Where a submitter of jobs or events that are known in advance is. -/
inductive SubmitterPhase (α : Type) where
  | started
  | greeted
  /-- about to sleep until the first of the remaining items, from `date` on -/
  | sent (date : Date) (remaining : List α)
  /-- asleep until the date of the item `next` -/
  | asleep (until_ : Date) (next : α) (rest : List α)
deriving DecidableEq

/-- The local variables of `workflow_submitter_process`, with the tasks that only it changes. -/
structure WorkflowRun where
  workflow : WorkflowDescription
  nbParentCompleted : List Nat
  readyTasks : List Nat := []
  submittedTasks : List (JobIdentifier × Nat) := []
  currentNb : Int := 0
  taskIdCounter : Nat := 0
deriving DecidableEq

inductive WorkflowPhase where
  | started
  | greeted
  | asleep (until_ : Date)
  /-- the submission of a task as a job has been received -/
  | submitted (jobKey : JobIdentifier) (task : Nat)
  /-- in `wait_for_job_completion` -/
  | waiting
deriving DecidableEq

/-- The actors, each where its next run starts. -/
inductive Thread where
  | serverProcess
  /-- the server, sending `SUBMITTER_CALLBACK` in `server_on_job_completed` -/
  | serverCallback (job : JobPtr) (mailbox : String)
  | requestReply (message : List DatedEvent)
  | applyReply (now : Date) (todo : List ReplyItem)
  | executeJob (a : ExecutionActor)
  | executing (a : ExecutionActor) (leaf : Leaf)
  | cancelled (a : ExecutionActor)
  /-- `JOB_COMPLETED` has been received -/
  | notified (a : ExecutionActor)
  | killer (jobsIds : List JobIdentifier) (acknowledgeKillOnProtocol : Bool)
  | waiter (targetTime : Date)
  | waiting (until_ : Date)
  | switchOn (machineId : Nat) (newPstate : Int)
  | switchingOn (machineId : Nat) (newPstate : Int)
  | switchOff (machineId : Nat) (newPstate : Int)
  | switchingOff (machineId : Nat) (newPstate : Int)
  | jobSubmitter (workload : String) (phase : SubmitterPhase JobPtr)
  | eventSubmitter (list : String) (phase : SubmitterPhase ExternalEvent)
  | workflowSubmitter (run : WorkflowRun) (phase : WorkflowPhase)
deriving DecidableEq

namespace Thread

/-- The date at which a sleeping actor wakes up. -/
def wakeDate : Thread → Option Date
  | applyReply _ (.send date _ :: _) => some date
  | waiting date => some date
  | jobSubmitter _ (.asleep date _ _) => some date
  | eventSubmitter _ (.asleep date _ _) => some date
  | workflowSubmitter _ (.asleep date) => some date
  | _ => none

/-- The execution actor that a thread is. -/
def actor? : Thread → Option ExecutionActor
  | executeJob a | executing a _ | cancelled a | notified a => some a
  | _ => none

/-- The mailbox that the server offers a callback to. -/
def callsBack? : Thread → Option String
  | serverCallback _ mailbox => some mailbox
  | _ => none

/-- The mailbox that a workflow submitter waits on. -/
def awaitsCallback? : Thread → Option String
  | workflowSubmitter run .waiting => some (run.workflow.name ++ "_submitter")
  | _ => none

end Thread

/-- `ServerData::Submitter` -/
structure Submitter where
  mailbox : String
  shouldBeCalledBack : Bool
deriving DecidableEq

/-- `ServerData::SubmitterCounters` -/
structure SubmitterCounters where
  expectedNbSubmitters : Nat := 4294967295
  nbSubmitters : Nat := 0
  nbSubmittersFinished : Nat := 0
deriving DecidableEq

structure ServerData where
  nbCompletedJobs : Int := 0
  nbSubmittedJobs : Int := 0
  nbRunningJobs : Int := 0
  nbWorkflowSubmittersFinished : Int := 0
  nbSwitchingMachines : Int := 0
  nbWaiters : Int := 0
  nbKillers : Int := 0
  schedReady : Bool := true
  endOfSimulationSent : Bool := false
  endOfSimulationAckReceived : Bool := false
  submitters : AList (fun _ : String => Submitter) := ∅
  submitterCounters : SubmitterType → SubmitterCounters := fun _ => {}
  originOfJobs : AList (fun _ : JobIdentifier => Submitter) := ∅
  jobsToBeDeleted : List JobIdentifier := []

/-- What happened so far. Nothing in the program reads it. -/
structure History where
  /-- the messages whose handling is over -/
  handled : List IPMessage := []
  /-- the jobs counted in `nb_submitted_jobs`, `nb_running_jobs` and `nb_completed_jobs` -/
  submitted : List JobPtr := []
  started : List JobPtr := []
  counted : List JobPtr := []
  /-- what was pushed on `jobs_to_be_deleted` -/
  pushed : List JobIdentifier := []
  /-- the jobs that were submitted although they had been submitted before -/
  resubmitted : List JobPtr := []
  /-- the jobs submitted by a submitter that wants to be called back -/
  tracked : List (JobPtr × String) := []
  /-- the callbacks sent -/
  callbacks : List (String × JobIdentifier) := []
  /-- the jobs of the accepted kill requests: all of them, and those given to the killer -/
  killRequests : List (List JobIdentifier × List JobIdentifier) := []
  /-- the calls of `update_machines_on_job_run` and `update_machines_on_job_end` -/
  runs : List JobPtr := []
  ends : List JobPtr := []
  /-- the executions that ended without telling the server, and the jobs counted by
  `server_on_killing_done` -/
  silentEnds : List JobPtr := []
  countedKilled : List JobPtr := []
  /-- the events appended by the writer, and the messages generated from them -/
  appended : List DatedEvent := []
  sent : List (List DatedEvent) := []
  /-- the value of `sched_ready` at each call of `generate_and_send_message` -/
  readyWhenSent : List Bool := []
  /-- the replies of the scheduler, each with the messages its reader has sent -/
  replies : List (Reply × List IPMessage) := []
  /-- the machines made unavailable and not yet available again -/
  unavailable : List Nat := []

/-- A simulation in progress. -/
structure Sim where
  clock : Date
  pool : Pool IPMessage Thread
  data : ServerData
  writer : ProtocolWriter
  workloads : Workloads
  job : JobPtr → Job
  /-- whether the current leaf of the task tree of an execution actor has a parallel task -/
  ptask : Nat → Bool
  nextActor : Nat
  machines : Machines
  currentSwitches : CurrentSwitches
  nbMachineSwitches : Nat
  nbGroupedSwitches : Nat
  registrationSchedFinished : Bool
  /-- the callback offered to each submitter, if any -/
  callbackBox : String → List JobIdentifier
  /-- the server has left its loop -/
  exited : Bool
  history : History

namespace Sim

/-- An `append_*` of the protocol writer. -/
def append (s : Sim) (e : ProtocolEvent) : Except String Sim := do
  let writer ← s.writer.append s.clock e
  .ok { s with
    writer := writer
    history := { s.history with appended := s.history.appended ++ [⟨s.clock, e⟩] } }

def setJob (s : Sim) (p : JobPtr) (j : Job) : Sim :=
  { s with job := Function.update s.job p j }

/-- The job object under an identifier. -/
def jobAt (s : Sim) (id : JobIdentifier) : Except String JobPtr := s.workloads.jobAt id

/-- `JobsTracer::write_job`, as far as it can stop the program -/
def writeJob (s : Sim) (p : JobPtr) : Except String Unit :=
  xbtAssert ((s.job p).isComplete = true)
    ("Job " ++ p.id.jobName ++ " did not complete")

/-- `++nb_submitted_jobs` -/
def countSubmitted (s : Sim) (p : JobPtr) : Sim :=
  { s with
    data := { s.data with nbSubmittedJobs := s.data.nbSubmittedJobs + 1 }
    history := { s.history with submitted := s.history.submitted ++ [p] } }

/-- `nb_running_jobs++` -/
def countRunning (s : Sim) (p : JobPtr) : Sim :=
  { s with
    data := { s.data with nbRunningJobs := s.data.nbRunningJobs + 1 }
    history := { s.history with started := s.history.started ++ [p] } }

/-- `nb_running_jobs--` -/
def endRunning (s : Sim) : Sim :=
  { s with data := { s.data with nbRunningJobs := s.data.nbRunningJobs - 1 } }

/-- `nb_completed_jobs++` -/
def countCompleted (s : Sim) (p : JobPtr) : Sim :=
  { s with
    data := { s.data with nbCompletedJobs := s.data.nbCompletedJobs + 1 }
    history := { s.history with counted := s.history.counted ++ [p] } }

/-- `jobs_to_be_deleted.push_back(id)` -/
def pushDeleted (s : Sim) (id : JobIdentifier) : Sim :=
  { s with
    data := { s.data with jobsToBeDeleted := s.data.jobsToBeDeleted ++ [id] }
    history := { s.history with pushed := s.history.pushed ++ [id] } }

end Sim

end Batsim
