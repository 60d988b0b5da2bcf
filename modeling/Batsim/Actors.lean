import Mathlib.Data.List.Sort
import Batsim.Simulation

/-!
The actors around the server, each from one blocking call to the next.
-/

namespace Batsim

open Checked

namespace Sim

def put (s : Sim) (m : IPMessage) (sender : Option Thread) : Sim :=
  { s with pool := s.pool.put m sender }

def block (s : Sim) (t : Thread) : Sim :=
  { s with pool := s.pool.block t }

end Sim

/-! ### The reader of a reply -/

/-- The checks of `handle_execute_job` on the entries of a mapping, numbered from `executor`. -/
def checkMapping (nbAllocatedResources : Nat) : Nat → List (Int × Int) → Except String Unit
  | _, [] => .ok ()
  | executor, (key, resource) :: rest => do
    xbtAssert (key = executor)
      ("Invalid JSON message: Invalid 'mapping' object (EXECUTE_JOB): no resource associated to" ++
        " executor " ++ toString executor ++ ".")
    xbtAssert (0 ≤ resource ∧ resource < nbAllocatedResources)
      ("Invalid JSON message: Invalid 'mapping' object (EXECUTE_JOB): executor should use a" ++
        " resource within the allocation.")
    checkMapping nbAllocatedResources (executor + 1) rest

/-- `handle_execute_job` -/
def handleExecuteJob (s : Sim) (id : JobIdentifier) (alloc : IntervalSet)
    (mapping : Option (List (Int × Int))) : Except String IPMessage := do
  let p ← s.jobAt id
  xbtAssert (alloc.size > 0)
    ("Invalid JSON message: in event (EXECUTE_JOB): the number of allocated resources should be" ++
      " strictly positive.")
  match mapping with
  | none => .ok (.schedExecuteJob { job := p, machineIds := alloc })
  | some entries => do
    xbtAssert (entries ≠ [])
      ("Invalid JSON: the 'mapping' value in the 'data' value of event (EXECUTE_JOB) must be a" ++
        " non-empty object")
    checkMapping alloc.size 0 entries
    .ok (.schedExecuteJob { job := p, machineIds := alloc
                            mapping := entries.map fun e => e.2.toNat })

/-- `handle_register_job`: the job is in memory, as a submitted job, before the server knows. -/
def handleRegisterJob (cfg : Config) (s : Sim) (id : JobIdentifier) (d : JobDescription) :
    Except String Sim := do
  xbtAssert (cfg.registrationSchedEnabled = true)
    ("Invalid JSON message: dynamic job registration received but the option seems disabled...")
  xbtAssert (s.registrationSchedFinished = false)
    ("Invalid JSON message: dynamic job registration received but the option has been disabled")
  xbtAssert (s.workloads.exists? id.workloadName = true)
    ("Internal error: Workload '" ++ id.workloadName ++ "' should exist.")
  let registered ← s.workloads.jobIsRegistered id
  xbtAssert (registered = false)
    ("Cannot register new job '" ++ id.toString ++ "', it already exists in the workload.")
  let wl ← s.workloads.at? id.workloadName
  let profile ← wl.profiles.at? d.profile
  xbtAssert (d.walltime = -1 ∨ d.walltime > 0)
    ("Invalid JSON job submitted by the scheduler: job '" ++ d.id.toString ++
      "' has an invalid walltime.")
  xbtAssert (d.id = id) "Internal error"
  let j := Job.new d profile
  wl.checkSingleJobValidity id j
  let jobs ← wl.jobs.addJob ⟨id.workloadName, id⟩
  let s := { s with workloads := s.workloads.set id.workloadName { wl with jobs := jobs } }
  .ok (s.setJob ⟨id.workloadName, id⟩ { j with state := .submitted })

/-- `handle_register_profile` -/
def handleRegisterProfile (cfg : Config) (s : Sim) (workloadName profileName : String)
    (profile : Profile) : Except String Sim := do
  xbtAssert (cfg.registrationSchedEnabled = true)
    ("Invalid JSON message: dynamic profile registration received but the option seems" ++
      " disabled...")
  xbtAssert (s.registrationSchedFinished = false)
    ("Invalid JSON message: dynamic profile registration received but the option has been" ++
      " disabled")
  let wl := (s.workloads.workloads.lookup workloadName).getD
    (Workload.newDynamicWorkload workloadName)
  xbtAssert (wl.profiles.exists? profileName = false)
    ("Invalid new profile registration: profile '" ++ profileName ++
      "' already existed in workload '" ++ workloadName ++ "'")
  let profiles ← wl.profiles.addProfile profileName profile
  .ok { s with workloads := s.workloads.set workloadName { wl with profiles := profiles } }

/-- The states that `handle_change_job_state` accepts. -/
def allowedStates : List String :=
  ["NOT_SUBMITTED", "RUNNING", "COMPLETED_SUCCESSFULLY", "COMPLETED_WALLTIME_REACHED",
    "COMPLETED_KILLED", "REJECTED"]

/-- `parse_and_apply_event`, up to the messages that the handler sends at the date of the event. -/
def parseAndApplyEvent (cfg : Config) (now : Date) (s : Sim) (e : SchedulerEvent) :
    Except String (Sim × List IPMessage) := do
  xbtAssert (e.timestamp ≤ now)
    "Invalid JSON message: timestamp of event should be lower than or equal to now."
  match e.data with
  | .query requests => do
    xbtAssert (requests ≠ [])
      ("Invalid JSON message: the 'requests' object of the 'data' object of event (QUERY) must" ++
        " be non-empty")
    .ok (s, e.data.messages)
  | .executeJob id alloc mapping => do
    let m ← handleExecuteJob s id alloc mapping
    .ok (s, [m])
  | .killJob ids => do
    xbtAssert (ids ≠ [])
      ("Invalid JSON message: the 'job_ids' array in the 'data' value of event (KILL_JOB) should" ++
        " be non-empty.")
    .ok (s, e.data.messages)
  | .registerJob id d => do
    let s ← handleRegisterJob cfg s id d
    .ok (s, e.data.messages)
  | .registerProfile workloadName profileName profile => do
    let s ← handleRegisterProfile cfg s workloadName profileName profile
    .ok (s, e.data.messages)
  | .setResourceState resources _ => do
    xbtAssert (resources.size > 0)
      ("Invalid JSON message: in event (SET_RESOURCE_STATE): the number of allocated resources" ++
        " should be strictly positive.")
    .ok (s, e.data.messages)
  | .setJobMetadata _ metadata => do
    xbtAssert ('"' ∉ metadata.toList)
      ("Invalid JSON message: the 'metadata' value in the 'data' value of event" ++
        " (SET_JOB_METADATA) should not contain double quotes")
    .ok (s, e.data.messages)
  | .changeJobState _ jobState => do
    xbtAssert (jobState ∈ allowedStates)
      "Invalid JSON message: in event (CHANGE_JOB_STATE): ['data']['job_state'] is not allowed"
    .ok (s, e.data.messages)
  | .notify type => do
    xbtAssert (type = "registration_finished" ∨ type = "continue_registration")
      ("Unknown NOTIFY type received ('" ++ type ++ "').")
    .ok (s, e.data.messages)
  | .answer | .rejectJob _ | .callMeLater _ | .toJobMsg _ _ => .ok (s, e.data.messages)

/-- A message of the reader in the mailbox of the server: the history of the replies. -/
def Sim.noteSent (s : Sim) (m : IPMessage) : Sim :=
  match s.history.replies.getLast? with
  | none => s
  | some (r, ms) => { s with history := { s.history with
      replies := s.history.replies.dropLast ++ [(r, ms ++ [m])] } }

/-- `send_message_at_time`. The reader ends when its last message is received. -/
def sendAtTime (now : Date) (s : Sim) (date : Date) (m : IPMessage) (rest : List ReplyItem) :
    Sim :=
  if date > s.clock then s.block (.applyReply now (.send date m :: rest))
  else (s.put m (if rest = [] then none else some (.applyReply now rest))).noteSent m

/-- `parse_and_apply_message` from the item to do next. -/
def applyReply (cfg : Config) (now : Date) : Sim → List ReplyItem → Except String Sim
  | s, [] => .ok s
  | s, .send date m :: rest => .ok (sendAtTime now s date m rest)
  | s, .event e :: rest => do
    let (s, ms) ← parseAndApplyEvent cfg now s e
    match ms with
    | [] => applyReply cfg now s rest
    | m :: ms => .ok (sendAtTime now s e.timestamp m (ms.map (.send e.timestamp) ++ rest))

/-- What `parse_and_apply_message` has to do for a reply. -/
def Reply.todo (r : Reply) : List ReplyItem :=
  r.events.map .event ++ [.send r.now .schedReady]

/-- `request_reply_scheduler_process`, with the answer of the scheduler -/
def requestReply (cfg : Config) (s : Sim) (r : Reply) : Except String Sim :=
  applyReply cfg r.now
    { s with history := { s.history with replies := s.history.replies ++ [(r, [])] } } r.todo

/-! ### The execution of jobs -/

/-- What `execute_task` does next: it waits on a leaf, sends a message to the scheduler, or
returns. -/
inductive TaskStep where
  | leaf (l : Leaf)
  | sendMessage (message : String)
  | finish (returnCode : Int)
deriving DecidableEq, Repr

/-- The final state of a job by the return code of its root task. -/
def stateOfReturnCode (returnCode : Int) : Except String JobState :=
  if returnCode = 0 then .ok .completedSuccessfully
  else if returnCode > 0 then .ok .completedFailed
  else if returnCode = -1 then .ok .completedWalltimeReached
  else if returnCode = -2 then .ok .completedKilled
  else .error "Job completed with unknown return code"

/-- A null duration is replaced by an epsilon. -/
def runtimeOf (d : Date) : Date := if d = 0 then 1 / 100000 else d

/-- `execution_actors.erase(Actor::self())` -/
def eraseActor (s : Sim) (a : ExecutionActor) : Sim :=
  let p := a.allocation.job
  s.setJob p { s.job p with executionActors := (s.job p).executionActors.erase a.number }

def Sim.noteSilentEnd (s : Sim) (p : JobPtr) : Sim :=
  { s with history := { s.history with silentEnds := s.history.silentEnds ++ [p] } }

/-- `execute_job_process` after `execute_task` -/
def finishJob (s : Sim) (a : ExecutionActor) (returnCode : Int) : Except String Sim := do
  let p := a.allocation.job
  let state ← stateOfReturnCode returnCode
  let s := s.setJob p { s.job p with returnCode := returnCode, state := state }
  let machines ← s.machines.updateMachinesOnJobEnd p a.allocation.machineIds s.clock
  let s := { s with
    machines := machines
    history := { s.history with ends := s.history.ends ++ [p] } }
  let s := s.setJob p { s.job p with
    runtime := runtimeOf (s.clock - (s.job p).startingTime) }
  .ok (if state ≠ .completedKilled then s.put (.jobCompleted p) (some (.notified a))
    -- the completion of a killed job is left to `server_on_killing_done`
    else eraseActor (s.noteSilentEnd p) a)

/-- `execute_task` up to its next blocking call -/
def executeTask (s : Sim) (a : ExecutionActor) : TaskStep → Except String Sim
  | .leaf l => .ok
    ({ s with ptask := Function.update s.ptask a.number (decide (l = Leaf.ptask)) }.block (.executing a l))
  | .sendMessage message => .ok
    ({ s with ptask := Function.update s.ptask a.number false }.put
      (.fromJobMsg a.allocation.job.id message) (some (.executing a .other)))
  | .finish returnCode => finishJob s a returnCode

/-- `execute_job_process` up to `execute_task` -/
def startJob (s : Sim) (a : ExecutionActor) : Except String Sim := do
  let p := a.allocation.job
  let s := s.setJob p { s.job p with
    startingTime := s.clock
    allocation := a.allocation.machineIds
    task := some a.number }
  let machines ← s.machines.updateMachinesOnJobRun p a.allocation.machineIds s.clock
  .ok { s with
    machines := machines
    history := { s.history with runs := s.history.runs ++ [p] } }

/-! ### Kills, waiters and switches -/

/-- The actor `n`, when it waits on a parallel task. -/
def Thread.waitsOnPtask (n : Nat) : Thread → Bool
  | executing a .ptask => a.number = n
  | _ => false

/-- An actor whose parallel task was cancelled. -/
def Thread.cancel : Thread → Thread
  | executing a _ => cancelled a
  | t => t

/-- An actor of a set of execution actors. -/
def Thread.isActorIn (actors : List Nat) (t : Thread) : Bool :=
  t.actor?.any fun a => a.number ∈ actors

/-- One turn of the loop of `killer_process`. -/
def killJob (s : Sim) (id : JobIdentifier) : Except String Sim := do
  let p ← s.jobAt id
  let j := s.job p
  xbtAssert (j.state ≠ .rejected ∧ j.state ≠ .submitted ∧ j.state ≠ .notSubmitted)
    ("Bad kill: job " ++ id.toString ++ " has not been started")
  if j.state = .running then
    match j.task with
    | none => .error "Internal error"
    | some n =>
      -- `cancel_ptask`
      if s.ptask n then
        .ok { s with pool := s.pool.interrupt (Thread.waitsOnPtask n) Thread.cancel }
      else do
        xbtAssert (j.executionActors.length > 0)
          ("kill inconsistency: no actors to kill while job's task could not be cancelled")
        let s := { s with pool := s.pool.kill (Thread.isActorIn j.executionActors) }
        let s := s.setJob p { j with executionActors := [], state := .completedKilled }
        let s := s.noteSilentEnd p
        let machines ← s.machines.updateMachinesOnJobEnd p j.allocation s.clock
        let s := { s with
          machines := machines
          history := { s.history with ends := s.history.ends ++ [p] } }
        xbtAssert (s.clock - j.startingTime ≥ 0)
          ("Negative runtime of killed job '" ++ id.toString ++ "'!")
        .ok (s.setJob p { s.job p with runtime := runtimeOf (s.clock - j.startingTime) })
  else .ok s

/-- `killer_process` -/
def killerProcess (s : Sim) (ids : List JobIdentifier) (acknowledge : Bool) :
    Except String Sim := do
  let s ← forEach killJob s ids
  .ok (s.put (.killingDone ids acknowledge) none)

/-- The end of `waiter_process` -/
def endOfWait (s : Sim) : Sim :=
  if s.data.endOfSimulationSent = true ∨ s.data.endOfSimulationAckReceived = true then s
  else s.put .waitingDone none

/-- `waiter_process` -/
def waiterProcess (s : Sim) (targetTime : Date) : Sim :=
  if s.clock < targetTime then
    let timeToWait := targetTime - s.clock
    let timeToWait := if timeToWait < 1 / 100000 then 1 / 100000 else timeToWait
    s.block (.waiting (s.clock + timeToWait))
  else endOfWait s

/-- Set the pstate of the host of a machine. -/
def setHostPstate (s : Sim) (id : Nat) (pstate : Int) : Except String Sim := do
  let m ← s.machines.at? id
  let m ← m.setPstate pstate
  .ok { s with machines := s.machines.put id m }

/-- The checks at the start of `switch_on_machine_process` and `switch_off_machine_process`. -/
def checkSwitch (s : Sim) (id : Nat) (newPstate : Int) (transition : MachineState)
    (target : PStateType) : Except String Machine := do
  let m ← s.machines.at? id
  xbtAssert (m.state = transition) ("machine " ++ toString id ++ " is not in transition")
  xbtAssert (m.jobsBeingComputed = []) ("jobs are running on machine " ++ toString id)
  xbtAssert (m.hasPstate newPstate = true)
    ("machine " ++ toString id ++ " has no pstate " ++ toString newPstate)
  xbtAssert (m.pstateType newPstate = target)
    ("pstate " ++ toString newPstate ++ " of machine " ++ toString id ++ " is of the wrong type")
  .ok m

/-- `switch_on_machine_process` up to its `execute(1)` -/
def switchOnMachineProcess (s : Sim) (id : Nat) (newPstate : Int) : Except String Sim := do
  let m ← checkSwitch s id newPstate .transitingFromSleepingToComputing .computationPstate
  match m.sleepPstates.lookup (m.hostPstate : Int) with
  | none => .error "null pointer dereference"
  | some sleep => do
    let s ← setHostPstate s id sleep.switchOnVirtualPstate
    .ok (s.block (.switchingOn id newPstate))

/-- `switch_off_machine_process` up to its `execute(1)` -/
def switchOffMachineProcess (s : Sim) (id : Nat) (newPstate : Int) : Except String Sim := do
  let m ← checkSwitch s id newPstate .transitingFromComputingToSleeping .sleepPstate
  match m.sleepPstates.lookup newPstate with
  | none => .error "null pointer dereference"
  | some sleep => do
    let s ← setHostPstate s id sleep.switchOffVirtualPstate
    .ok (s.block (.switchingOff id newPstate))

/-- The end of a switch, whose machine gets `newState`; `message` tells the server. -/
def endOfSwitch (s : Sim) (id : Nat) (newPstate : Int) (newState : MachineState)
    (message : IPMessage) : Except String Sim := do
  let s ← setHostPstate s id newPstate
  let machines ← s.machines.updateMachineState id newState s.clock
  .ok ({ s with machines := machines }.put message none)

/-! ### The submitters -/

/-- The items to send together, up to the first one that is in the future of `date`. -/
def nextBatch {α : Type} (time : α → Date) (date : Date) (batch : List α) :
    List α → List α × List α
  | [] => (batch, [])
  | a :: rest =>
    if time a > date then (batch, a :: rest) else nextBatch time date (batch ++ [a]) rest

/-- What a submitter of items known in advance is made of: the date of an item, the message that
carries some items, its goodbye, and the thread of a phase. -/
structure SubmitterKind (α : Type) where
  time : α → Date
  message : List α → IPMessage
  bye : IPMessage
  thread : SubmitterPhase α → Thread

namespace SubmitterKind

variable {α : Type} (k : SubmitterKind α)

/-- Sleep until the date of the first remaining item, counted from `date`. -/
def sleep (s : Sim) (date : Date) (remaining : List α) : Sim :=
  match remaining with
  | [] => s.put k.bye none
  | a :: rest => s.block (k.thread (.asleep (s.clock + (k.time a - date)) a rest))

/-- The loop over the items, from some already in the batch. -/
def submit (s : Sim) (date : Date) (batch remaining : List α) : Sim :=
  let (batch, remaining) := nextBatch k.time date batch remaining
  if batch = [] then k.sleep s date remaining
  else s.put (k.message batch) (some (k.thread (.sent date remaining)))

/-- From one phase to the next; `items` lists the items once the server knows the submitter. -/
def resume (s : Sim) (hello : IPMessage) (items : Except String (List α)) :
    SubmitterPhase α → Except String Sim
  | .started => .ok (s.put hello (some (k.thread .greeted)))
  | .greeted => do
    let items ← items
    .ok (k.submit s s.clock [] items)
  | .sent date remaining => .ok (k.sleep s date remaining)
  | .asleep _ a rest => .ok (k.submit s s.clock [a] rest)

end SubmitterKind

/-- `job_comparator_subtime_number` -/
def jobComparatorSubtimeNumber (job : JobPtr → Job) (a b : JobPtr) : Bool :=
  if (job a).submissionTime = (job b).submissionTime then
    a.id.toString < b.id.toString ∨ a.id.toString = b.id.toString
  else (job a).submissionTime < (job b).submissionTime

def jobSubmitterKind (s : Sim) (workload : String) : SubmitterKind JobPtr where
  time p := (s.job p).submissionTime
  message := .jobSubmitted (workload ++ "_submitter")
  bye := .submitterBye (workload ++ "_submitter") .jobSubmitter false
  thread := .jobSubmitter workload

/-- `static_job_submitter_process` -/
def staticJobSubmitterProcess (s : Sim) (workload : String) (phase : SubmitterPhase JobPtr) :
    Except String Sim :=
  (jobSubmitterKind s workload).resume s
    (.submitterHello (workload ++ "_submitter") false .jobSubmitter)
    (do
      let wl ← s.workloads.at? workload
      .ok ((wl.jobs.jobs.entries.map fun e => e.2).insertionSort
        fun a b => jobComparatorSubtimeNumber s.job a b = true)) phase

def eventSubmitterKind (list : String) : SubmitterKind ExternalEvent where
  time e := e.timestamp
  message := .eventOccurred (list ++ "_submitter")
  bye := .submitterBye (list ++ "_submitter") .eventSubmitter false
  thread := .eventSubmitter list

/-- `static_event_submitter_process` -/
def staticEventSubmitterProcess (cfg : Config) (s : Sim) (list : String)
    (phase : SubmitterPhase ExternalEvent) : Except String Sim :=
  (eventSubmitterKind list).resume s
    (.submitterHello (list ++ "_submitter") false .eventSubmitter)
    (match cfg.eventLists.find? (fun d => d.name = list) with
      | none => .error "the event list does not exist"
      | some d => .ok d.events) phase

/-- `submit_workflow_task_as_job` -/
def submitWorkflowTaskAsJob (s : Sim) (run : WorkflowRun) (task : WorkflowTask) :
    Except String (Sim × JobIdentifier) := do
  let name := run.workflow.name
  let id ← JobIdentifier.make name (toString run.taskIdCounter)
  let wl ← s.workloads.at? name
  let profile : Profile := { name := name ++ "_" ++ task.id, type := .delay }
  let profiles ← wl.profiles.addProfile profile.name profile
  xbtAssert (task.executionTime + 10 = -1 ∨ task.executionTime + 10 > 0)
    "Invalid workflow-injected JSON job: the job has an invalid walltime."
  xbtAssert (task.numProcs ≥ 0)
    "Invalid workflow-injected JSON job: the job has a negative 'res' field"
  let jobs ← wl.jobs.addJob ⟨name, id⟩
  let s := { s with
    workloads := s.workloads.set name { wl with jobs := jobs, profiles := profiles } }
  .ok (s.setJob ⟨name, id⟩
    { profile := profile, submissionTime := s.clock, walltime := task.executionTime + 10
      requestedNbRes := task.numProcs.toNat }, id)

/-- The main loop of `workflow_submitter_process`, up to its next blocking call. -/
def workflowLoop (cfg : Config) (s : Sim) (run : WorkflowRun) : Except String Sim :=
  let limit := cfg.workflowNbConcurrentJobsLimit
  let submitterName := run.workflow.name ++ "_submitter"
  match run.readyTasks with
  | i :: ready =>
    if limit = 0 ∨ limit > run.currentNb then
      match run.workflow.tasks[i]? with
      | none => .error "the task does not exist"
      | some task => do
        let (s, id) ← submitWorkflowTaskAsJob s run task
        let run := { run with readyTasks := ready, taskIdCounter := run.taskIdCounter + 1 }
        .ok (s.put (.jobSubmitted submitterName [⟨run.workflow.name, id⟩])
          (some (.workflowSubmitter run (.submitted id i))))
    else if run.submittedTasks ≠ [] then .ok (s.block (.workflowSubmitter run .waiting))
    else .error "the submitter loops forever"
  | [] =>
    if run.submittedTasks ≠ [] then .ok (s.block (.workflowSubmitter run .waiting))
    else .ok (s.put (.submitterBye submitterName .jobSubmitter true) none)

/-- The children of a completed task: each has one more completed parent, and those whose
parents are all completed are ready. -/
def WorkflowRun.complete (run : WorkflowRun) (task : WorkflowTask) : WorkflowRun :=
  let counts := task.children.foldl (fun counts i => counts.modify i (· + 1))
    run.nbParentCompleted
  let ready := task.children.filter fun i =>
    counts[i]? = (run.workflow.tasks[i]?).map fun t => t.parents.length
  { run with nbParentCompleted := counts, readyTasks := run.readyTasks ++ ready }

/-- `workflow_submitter_process` -/
def workflowSubmitterProcess (cfg : Config) (s : Sim) (run : WorkflowRun) :
    WorkflowPhase → Except String Sim
  | .started => .ok (s.put
      (.submitterHello (run.workflow.name ++ "_submitter") true .jobSubmitter)
      (some (.workflowSubmitter run .greeted)))
  | .greeted =>
    let sources := (List.range run.workflow.tasks.length).filter fun i =>
      (run.workflow.tasks[i]?).any fun t => t.parents = []
    let sleepTime := run.workflow.startTime - s.clock
    .ok (s.block (.workflowSubmitter { run with readyTasks := sources }
      (.asleep (s.clock + if 0 > sleepTime then 0 else sleepTime))))
  | .asleep _ => workflowLoop cfg s run
  | .submitted id i => workflowLoop cfg s { run with
      submittedTasks := run.submittedTasks ++ [(id, i)]
      currentNb := run.currentNb + 1 }
  | .waiting =>
    let mailbox := run.workflow.name ++ "_submitter"
    match s.callbackBox mailbox with
    | [] => .error "the mailbox is empty"
    | id :: ids =>
      let s := { s with callbackBox := Function.update s.callbackBox mailbox ids }
      match run.submittedTasks.lookup id with
      | none => .error "null pointer dereference"
      | some i =>
        match run.workflow.tasks[i]? with
        | none => .error "the task does not exist"
        | some task => workflowLoop cfg s
            { run.complete task with
              currentNb := run.currentNb - 1
              submittedTasks := run.submittedTasks.filter fun e => e.1 ≠ id }

end Batsim
