import Batsim.Simulation

/-!
The handlers of the server, one for each type of message.
-/

namespace Batsim

open Checked

/-- `Workflows::size` returns a `bool`. -/
def Config.workflowsSize (cfg : Config) : Int :=
  if cfg.workflowDescriptions = [] then 0 else 1

/-- `generate_and_send_message` -/
def generateAndSendMessage (s : Sim) : Except String Sim := do
  let message ← s.writer.generateCurrentMessage s.clock
  .ok { s with
    writer := s.writer.clear
    pool := s.pool.spawn (.requestReply message)
    data := { s.data with schedReady := false }
    history := { s.history with
      sent := s.history.sent ++ [message]
      readyWhenSent := s.history.readyWhenSent ++ [s.data.schedReady] } }

def serverOnSubmitterHello (s : Sim) (name : String) (enableCallback : Bool)
    (type : SubmitterType) : Except String Sim := do
  xbtAssert (s.data.endOfSimulationSent = false)
    "A new submitter said hello but the simulation is finished... Aborting."
  xbtAssert (s.data.submitters.lookup name = none)
    ("Invalid new submitter '" ++ name ++ "': a submitter with the same name already exists!")
  let counters := s.data.submitterCounters type
  .ok { s with data := { s.data with
    submitters := s.data.submitters.insert name ⟨name, enableCallback⟩
    submitterCounters := Function.update s.data.submitterCounters type
      { counters with nbSubmitters := counters.nbSubmitters + 1 } } }

def serverOnSubmitterBye (s : Sim) (name : String) (type : SubmitterType)
    (isWorkflowSubmitter : Bool) : Except String Sim := do
  xbtAssert (s.data.submitters.lookup name ≠ none)
    ("inconsistency: expected 1 submitter with name '" ++ name ++ "'")
  let counters := s.data.submitterCounters type
  let counters := { counters with nbSubmittersFinished := counters.nbSubmittersFinished + 1 }
  let s := { s with data := { s.data with
    submitters := s.data.submitters.erase name
    submitterCounters := Function.update s.data.submitterCounters type counters } }
  let finished : Bool := counters.nbSubmittersFinished = counters.expectedNbSubmitters
  match type with
  | .eventSubmitter =>
    if finished then s.append (.notify "no_more_external_event_to_occur") else .ok s
  | .jobSubmitter => do
    let s ← (if finished then s.append (.notify "no_more_static_job_to_submit") else .ok s)
    .ok (if isWorkflowSubmitter then
      { s with data := { s.data with
        nbWorkflowSubmittersFinished := s.data.nbWorkflowSubmittersFinished + 1 } }
    else s)

/-- The end of `server_on_job_completed`, after the callback. -/
def countJobCompletion (s : Sim) (p : JobPtr) : Except String Sim := do
  let s := s.endRunning
  xbtAssert (s.data.nbRunningJobs ≥ 0) "inconsistency: no jobs are running"
  let s := s.countCompleted p
  xbtAssert (s.data.nbCompletedJobs + s.data.nbRunningJobs ≤ s.data.nbSubmittedJobs)
    "inconsistency: nb_completed_jobs + nb_running_jobs > nb_submitted_jobs"
  let j := s.job p
  let s ← s.append (.jobCompleted p.id (jobStateToString j.state) j.allocation j.returnCode)
  s.writeJob p
  .ok (s.pushDeleted p.id)

/-- `server_on_job_completed`. Sending the callback blocks the server until the submitter takes
it; the handler goes on in `serverOnCallbackReceived`. -/
def serverOnJobCompleted (s : Sim) (p : JobPtr) : Except String Sim :=
  match s.data.originOfJobs.lookup p.id with
  | some submitter =>
    .ok { s with
      pool := s.pool.block (.serverCallback p submitter.mailbox)
      callbackBox := Function.update s.callbackBox submitter.mailbox
        (s.callbackBox submitter.mailbox ++ [p.id])
      history := { s.history with
        callbacks := s.history.callbacks ++ [(submitter.mailbox, p.id)] } }
  | none => countJobCompletion s p

def serverOnCallbackReceived (s : Sim) (p : JobPtr) : Except String Sim :=
  countJobCompletion
    { s with data := { s.data with originOfJobs := s.data.originOfJobs.erase p.id } } p

/-- The descriptions that a `JOB_SUBMITTED` event forwards. -/
def appendJobSubmitted (cfg : Config) (s : Sim) (p : JobPtr) : Except String Sim :=
  let j := s.job p
  let job := if cfg.redisEnabled then "" else j.jsonDescription
  let profile := if !cfg.redisEnabled && cfg.submissionForwardProfiles
    then j.profile.jsonDescription else ""
  s.append (.jobSubmitted p.id job profile)

def Sim.noteResubmission (s : Sim) (p : JobPtr) : Sim :=
  if (s.job p).state = .notSubmitted then s
  else { s with history := { s.history with resubmitted := s.history.resubmitted ++ [p] } }

/-- One turn of the loop of `server_on_job_submitted`. -/
def submitJob (cfg : Config) (submitter : Submitter) (s : Sim) (p : JobPtr) :
    Except String Sim := do
  let s ← (if submitter.shouldBeCalledBack then do
      xbtAssert (s.data.originOfJobs.lookup p.id = none)
        ("inconsistency: submitter should be called back but job's submitter has not been" ++
          " tracked")
      .ok { s with
        data := { s.data with originOfJobs := s.data.originOfJobs.insert p.id submitter }
        history := { s.history with tracked := s.history.tracked ++ [(p, submitter.mailbox)] } }
    else .ok s)
  let s := s.noteResubmission p
  let s := s.setJob p { s.job p with state := .submitted }
  let s := s.countSubmitted p
  appendJobSubmitted cfg s p

def serverOnJobSubmitted (cfg : Config) (s : Sim) (submitterName : String) (jobs : List JobPtr) :
    Except String Sim :=
  -- all submissions are ignored once the workflows are over, if the user asked for it
  if cfg.workflowsSize ≠ 0 ∧ cfg.terminateWithLastWorkflow = true ∧
      s.data.nbWorkflowSubmittersFinished = cfg.workflowsSize then .ok s
  else
    match s.data.submitters.lookup submitterName with
    | none => .error ("inconsistency: expected 1 submitter with name '" ++ submitterName ++ "'")
    | some submitter => forEach (submitJob cfg submitter) s jobs

def makeUnavailable (s : Sim) (id : Nat) : Except String Sim := do
  let m ← s.machines.at? id
  xbtAssert (m.state ≠ .unavailable)
    ("The making of machine " ++ toString id ++ " unavailable was requested but this machine was" ++
      " already in UNAVAILABLE state.")
  let machines ← s.machines.updateMachineState id .unavailable s.clock
  .ok { s with
    machines := machines
    history := { s.history with unavailable := id :: s.history.unavailable } }

def serverOnEventMachineUnavailable (s : Sim) (ids : IntervalSet) : Except String Sim :=
  if ids.size > 0 then do
    let s ← forEach makeUnavailable s ids.elements
    s.append (.notifyResourceEvent "event_machine_unavailable" ids)
  else .ok s

def makeAvailable (s : Sim) (id : Nat) : Except String Sim := do
  let m ← s.machines.at? id
  xbtAssert (m.state = .unavailable)
    ("The making of machine " ++ toString id ++ " available was requested but this machine was" ++
      " not in UNAVAILABLE state (current state: " ++ machineStateToString m.state ++ ").")
  let machines ← s.machines.updateMachineState id
    (if m.jobsBeingComputed = [] then .idle else .computing) s.clock
  .ok { s with
    machines := machines
    history := { s.history with unavailable := s.history.unavailable.filter (· ≠ id) } }

def serverOnEventMachineAvailable (s : Sim) (ids : IntervalSet) : Except String Sim :=
  if ids.size > 0 then do
    let s ← forEach makeAvailable s ids.elements
    s.append (.notifyResourceEvent "event_machine_available" ids)
  else .ok s

def serverOnEventOccurred (s : Sim) (events : List ExternalEvent) : Except String Sim :=
  forEach (fun s e =>
    match e.data with
    | .machineAvailable ids => serverOnEventMachineAvailable s ids
    | .machineUnavailable ids => serverOnEventMachineUnavailable s ids
    | .generic json => s.append (.notifyGenericEvent json)) s events

/-- One turn of the loop of `server_on_pstate_modification`. -/
def switchMachine (newPstate : Int) (s : Sim) (id : Nat) : Except String Sim := do
  let m ← s.machines.at? id
  let currPstate : Int := m.hostPstate
  let m := (m.touchPstate currPstate).touchPstate newPstate
  let s := { s with machines := s.machines.put id m }
  match m.pstateType currPstate, m.pstateType newPstate with
  | .computationPstate, .computationPstate => do
    let m ← m.setPstate newPstate
    let s := { s with machines := s.machines.put id m }
    let (switches, done) ← s.currentSwitches.markSwitchAsDone id newPstate
    let s := { s with currentSwitches := switches }
    match done with
    | some all => s.append (.resourceStateChanged all (toString newPstate))
    | none => .ok s
  | .computationPstate, .sleepPstate => do
    let machines ← s.machines.updateMachineState id .transitingFromComputingToSleeping s.clock
    .ok { s with
      machines := machines
      pool := s.pool.spawn (.switchOff id newPstate)
      data := { s.data with nbSwitchingMachines := s.data.nbSwitchingMachines + 1 } }
  -- only reported with `XBT_ERROR`
  | .computationPstate, .transitionVirtualPstate => .ok s
  | .sleepPstate, target => do
    xbtAssert (target = .computationPstate)
      ("Switching from a sleep pstate to a non-computation pstate on machine " ++ toString id ++
        ", which is forbidden")
    let machines ← s.machines.updateMachineState id .transitingFromSleepingToComputing s.clock
    .ok { s with
      machines := machines
      pool := s.pool.spawn (.switchOn id newPstate)
      data := { s.data with nbSwitchingMachines := s.data.nbSwitchingMachines + 1 } }
  -- only reported with `XBT_ERROR`
  | .transitionVirtualPstate, _ => .ok s

def serverOnPstateModification (cfg : Config) (s : Sim) (ids : IntervalSet) (newPstate : Int) :
    Except String Sim := do
  xbtAssert (cfg.energyUsed = true)
    ("Receiving a pstate modification request, which is forbidden as Batsim has not been" ++
      " launched with energy support (cf. batsim --help).")
  let s := { s with
    currentSwitches := s.currentSwitches.addSwitch ids newPstate
    nbGroupedSwitches := s.nbGroupedSwitches + 1
    nbMachineSwitches := s.nbMachineSwitches + ids.size }
  match ids.elements with
  | [] => .error "no first element"
  | first :: _ => do
    -- the type of the first machine's pstate is read for the tracer
    let m ← s.machines.at? first
    let s := { s with machines := s.machines.put first (m.touchPstate newPstate) }
    forEach (switchMachine newPstate) s ids.elements

def serverOnWaitingDone (s : Sim) : Except String Sim := do
  let s ← s.append .requestedCall
  .ok { s with data := { s.data with nbWaiters := s.data.nbWaiters - 1 } }

def serverOnSchedReady (s : Sim) : Except String Sim :=
  .ok { s with data := { s.data with
    schedReady := true
    endOfSimulationAckReceived :=
      if s.data.endOfSimulationSent then true else s.data.endOfSimulationAckReceived } }

def serverOnSchedTellMeEnergy (cfg : Config) (s : Sim) : Except String Sim := do
  xbtAssert (cfg.energyUsed = true)
    ("Received a request about the energy consumption of the machines but energy simulation is" ++
      " not enabled. Try --help to enable it.")
  s.append .answerEnergy

def serverOnSchedTellMeCarbonFootprint (cfg : Config) (s : Sim) : Except String Sim := do
  xbtAssert (cfg.environmentalFootprintUsed = true)
    ("Received a request about the carbon footprint of the machines but environmental footprint" ++
      " simulation is not enabled. Try --help to enable it.")
  s.append .answerCarbonFootprint

def serverOnSchedTellMeWaterFootprint (cfg : Config) (s : Sim) : Except String Sim := do
  xbtAssert (cfg.environmentalFootprintUsed = true)
    ("Received a request about the water footprint of the machines but environmental footprint" ++
      " simulation is not enabled. Try --help to enable it.")
  s.append .answerWaterFootprint

def serverOnSwitched (s : Sim) (id : Nat) (newPstate : Int) : Except String Sim := do
  let m ← s.machines.at? id
  xbtAssert ((m.hostPstate : Int) = newPstate)
    "pstate inconsistency: the desired pstate has not been set"
  let (switches, done) ← s.currentSwitches.markSwitchAsDone id newPstate
  let s := { s with currentSwitches := switches }
  let s ← (match done with
    | some all => s.append (.resourceStateChanged all (toString newPstate))
    | none => .ok s)
  .ok { s with data := { s.data with nbSwitchingMachines := s.data.nbSwitchingMachines - 1 } }

/-- One turn of the loop of `server_on_killing_done`. -/
def countKilledJob (s : Sim) (id : JobIdentifier) : Except String Sim := do
  let p ← s.jobAt id
  if (s.job p).state = .completedKilled then do
    let s := s.endRunning
    xbtAssert (s.data.nbRunningJobs ≥ 0) "inconsistency: no jobs are running"
    let s := s.countCompleted p
    let s := { s with history := { s.history with
      countedKilled := s.history.countedKilled ++ [p] } }
    xbtAssert (s.data.nbCompletedJobs + s.data.nbRunningJobs ≤ s.data.nbSubmittedJobs)
      "inconsistency: nb_completed_jobs + nb_running_jobs > nb_submitted_jobs"
    let j := s.job p
    let s ← s.append (.jobCompleted p.id (jobStateToString j.state) j.allocation j.returnCode)
    s.writeJob p
    .ok (s.pushDeleted p.id)
  else .ok s

def serverOnKillingDone (s : Sim) (ids : List JobIdentifier) (acknowledge : Bool) :
    Except String Sim := do
  let s ← forEach countKilledJob s ids
  let s ← (if acknowledge then s.append (.jobKilled ids) else .ok s)
  .ok { s with data := { s.data with nbKillers := s.data.nbKillers - 1 } }

def serverOnEndDynamicRegister (s : Sim) : Except String Sim :=
  .ok { s with registrationSchedFinished := true }

def serverOnContinueDynamicRegister (s : Sim) : Except String Sim :=
  .ok { s with registrationSchedFinished := false }

def serverOnRegisterJob (cfg : Config) (s : Sim) (p : JobPtr) : Except String Sim :=
  let s := s.countSubmitted p
  if cfg.registrationSchedAck then appendJobSubmitted cfg s p else .ok s

def serverOnRegisterProfile (s : Sim) : Except String Sim := .ok s

/-- The job behind an identifier, after the check that it is registered. -/
def registeredJob (s : Sim) (id : JobIdentifier) (msg : String) : Except String JobPtr := do
  let registered ← s.workloads.jobIsRegistered id
  xbtAssert (registered = true) msg
  s.jobAt id

def serverOnSetJobMetadata (s : Sim) (id : JobIdentifier) (metadata : String) :
    Except String Sim := do
  let p ← registeredJob s id
    ("The job '" ++ id.toString ++ "' does not exist, cannot set its metadata")
  .ok (s.setJob p { s.job p with metadata := metadata })

/-- `server_on_change_job_state`. The rows of the jobs are written before the new state is. -/
def serverOnChangeJobState (s : Sim) (id : JobIdentifier) (jobState : String) :
    Except String Sim := do
  let p ← registeredJob s id ("The job '" ++ id.toString ++ "' does not exist.")
  let newState ← jobStateFromString jobState
  let s ← (match (s.job p).state, newState with
    | .submitted, .running => do
      let s := s.setJob p { s.job p with startingTime := s.clock }
      let s := s.countRunning p
      xbtAssert (s.data.nbRunningJobs ≤ s.data.nbSubmittedJobs)
        "inconsistency: nb_running_jobs > nb_submitted_jobs"
      .ok s
    | .submitted, .rejected => do
      let s := s.countCompleted p
      xbtAssert (s.data.nbCompletedJobs + s.data.nbRunningJobs ≤ s.data.nbSubmittedJobs)
        "inconsistency: nb_completed_jobs + nb_running_jobs > nb_submitted_jobs"
      s.writeJob p
      .ok (s.pushDeleted id)
    | .submitted, _ => .error ("Invalid requested job state modification to '" ++
        jobStateToString newState ++ "': can only be running or rejected.")
    | .running, .completedSuccessfully | .running, .completedFailed
    | .running, .completedWalltimeReached | .running, .completedKilled => do
      let s := s.setJob p { s.job p with runtime := s.clock - (s.job p).startingTime }
      let s := s.endRunning
      xbtAssert (s.data.nbRunningJobs ≥ 0) "inconsistency: no jobs are running"
      let s := s.countCompleted p
      xbtAssert (s.data.nbCompletedJobs + s.data.nbRunningJobs ≤ s.data.nbSubmittedJobs)
        "inconsistency: nb_completed_jobs + nb_running_jobs > nb_submitted_jobs"
      s.writeJob p
      .ok (s.pushDeleted id)
    | .running, _ => .error ("Can only change the state of a running job to completed" ++
        " (successfully, failed, and killed). State was " ++ jobStateToString (s.job p).state)
    | state, _ => .error ("Can only change the state of a submitted or running job. State was " ++
        jobStateToString state))
  .ok (s.setJob p { s.job p with state := newState })

def serverOnToJobMsg (s : Sim) (id : JobIdentifier) (message : String) : Except String Sim := do
  let p ← registeredJob s id
    ("The job '" ++ id.toString ++ "' does not exist, cannot send a message to that job.")
  .ok (s.setJob p { s.job p with
    incomingMessageBuffer := (s.job p).incomingMessageBuffer ++ [message] })

def serverOnFromJobMsg (s : Sim) (id : JobIdentifier) (message : String) : Except String Sim := do
  let _ ← s.jobAt id
  s.append (.fromJobMessage id message)

def serverOnRejectJob (s : Sim) (id : JobIdentifier) : Except String Sim := do
  let p ← registeredJob s id ("Job '" ++ id.toString ++ "' does not exist.")
  xbtAssert ((s.job p).state = .submitted)
    ("Invalid rejection received: job '" ++ id.toString ++ "' cannot be rejected at the present" ++
      " time. To be rejected, a job must be submitted and not allocated yet.")
  let s := s.setJob p { s.job p with state := .rejected }
  let s := s.countCompleted p
  s.writeJob p
  .ok (s.pushDeleted id)

/-- One turn of the loop of `server_on_kill_jobs`, with `jobs_ids_to_kill`. -/
def requestKill (acc : Sim × List JobIdentifier) (id : JobIdentifier) :
    Except String (Sim × List JobIdentifier) := do
  let (s, toKill) := acc
  let p ← registeredJob s id
    ("Trying to kill job '" ++ id.toString ++ "' but it does not exist.")
  -- jobs whose kill has already been requested are discarded
  if (s.job p).killRequested = true then .ok (s, toKill)
  else do
    xbtAssert ((s.job p).state = .running ∨ (s.job p).isComplete = true)
      ("Invalid KILL_JOB: job_id '" ++ id.toString ++
        "' refers to a job not being executed nor completed.")
    .ok (s.setJob p { s.job p with killRequested := true }, toKill ++ [id])

def serverOnKillJobs (s : Sim) (ids : List JobIdentifier) : Except String Sim := do
  let (s, toKill) ← forEach requestKill (s, []) ids
  let s := { s with history := { s.history with
    killRequests := s.history.killRequests ++ [(ids, toKill)] } }
  .ok (if toKill.length > 0 then
    { s with
      pool := s.pool.spawn (.killer toKill true)
      data := { s.data with nbKillers := s.data.nbKillers + 1 } }
  else s)

def serverOnCallMeLater (s : Sim) (targetTime : Date) : Except String Sim := do
  xbtAssert (targetTime > s.clock) "You asked to be awaken in the past!"
  .ok { s with
    pool := s.pool.spawn (.waiter targetTime)
    data := { s.data with nbWaiters := s.data.nbWaiters + 1 } }

/-- Whether a profile can be executed on another number of machines than the job asks for. -/
def Profile.isParallelHomogeneousTotal (p : Profile) : Bool :=
  p.type = .parallelHomogeneousTotalAmount ||
    (p.type = .sequence &&
      p.profileSequence.all fun sub => sub.type = .parallelHomogeneousTotalAmount)

/-- The check of one machine against time-sharing. -/
def checkSharing (cfg : Config) (m : Machine) (id : Nat) (p : JobPtr) : Except String Unit := do
  xbtAssert (m.hasRole Permissions.computeNode = true ∧ cfg.allowComputeSharing = false →
      m.jobsBeingComputed = [])
    ("Job '" ++ p.id.toString ++ "': Invalid allocation: machine " ++ toString id ++
      " is currently computing jobs whereas time-sharing on compute machines is disabled" ++
      " (rerun with --help to display the available options).")
  xbtAssert (m.hasRole Permissions.storage = true ∧ cfg.allowStorageSharing = false →
      m.jobsBeingComputed = [])
    ("Job '" ++ p.id.toString ++ "': Invalid allocation: machine " ++ toString id ++
      " is currently computing jobs whereas time-sharing on storage machines is disabled" ++
      " (rerun with --help to display the available options).")

/-- The check that one machine can compute. -/
def checkMachine (cfg : Config) (m : Machine) (id : Nat) (p : JobPtr) : Except String Unit := do
  xbtAssert (m.state = .computing ∨ m.state = .idle)
    ("Job '" ++ p.id.toString ++ "': Invalid job allocation: machine " ++ toString id ++
      " cannot compute jobs now (the machine is not computing nor idle, its state is '" ++
      machineStateToString m.state ++ "')")
  xbtAssert (cfg.energyUsed = true → m.hasPstate m.hostPstate = true)
    ("machine " ++ toString id ++ " has no pstate " ++ toString m.hostPstate)
  xbtAssert (cfg.energyUsed = true → m.pstateType m.hostPstate = .computationPstate)
    ("Job '" ++ p.id.toString ++ "': Invalid job allocation: machine " ++ toString id ++
      " is not in a computation pstate")

/-- The checks of `server_on_execute_job` on the machines of an allocation. -/
def checkAllocation (cfg : Config) (ms : Machines) (p : JobPtr) (ids : IntervalSet) :
    Except String Unit := do
  forEach (fun _ id => do
    let m ← ms.at? id
    checkSharing cfg m id p) () ids.elements
  forEach (fun _ id => do
    let m ← ms.at? id
    checkMachine cfg m id p) () ids.elements

/-- The check of `server_on_execute_job` on the number of machines. -/
def checkNumberOfMachines (j : Job) (p : JobPtr) (a : SchedulingAllocation) :
    Except String Unit :=
  if j.profile.isParallelHomogeneousTotal then .ok ()
  else if a.mapping.length ≠ 0 then
    xbtAssert (a.mapping.length = j.requestedNbRes)
      ("Job '" ++ p.id.toString ++ "' allocation is invalid. The decision process set a custom" ++
        " mapping for this job, but the custom mapping size does not match the job requested" ++
        " number of machines.")
  else
    xbtAssert (a.machineIds.size = j.requestedNbRes)
      ("Job '" ++ p.id.toString ++ "' allocation is invalid. The job requires " ++
        toString j.requestedNbRes ++ " machines but only " ++ toString a.machineIds.size ++
        " were given. Using a different number of machines than the one requested is prevented" ++
        " by default.")

def serverOnExecuteJob (cfg : Config) (s : Sim) (a : SchedulingAllocation) :
    Except String Sim := do
  let p := a.job
  xbtAssert ((s.job p).state = .submitted)
    ("Cannot execute job '" ++ p.id.toString ++ "': its state (" ++
      jobStateToString (s.job p).state ++ ") is not JOB_STATE_SUBMITTED.")
  let s := s.setJob p { s.job p with state := .running }
  let s := s.countRunning p
  xbtAssert (s.data.nbRunningJobs ≤ s.data.nbSubmittedJobs)
    "inconsistency: nb_running_jobs > nb_submitted_jobs"
  checkAllocation cfg s.machines p a.machineIds
  checkNumberOfMachines (s.job p) p a
  let n := s.nextActor
  let s := s.setJob p { s.job p with executionActors := (s.job p).executionActors ++ [n] }
  .ok { s with
    pool := s.pool.spawn (.executeJob ⟨n, a⟩)
    nextActor := n + 1 }

/-- `is_simulation_finished` -/
def isSimulationFinished (cfg : Config) (s : Sim) : Bool :=
  let job := s.data.submitterCounters .jobSubmitter
  let event := s.data.submitterCounters .eventSubmitter
  job.nbSubmittersFinished = job.expectedNbSubmitters &&
    event.nbSubmittersFinished = event.expectedNbSubmitters &&
    (!cfg.registrationSchedEnabled || s.registrationSchedFinished) &&
    s.data.nbCompletedJobs = s.data.nbSubmittedJobs &&
    s.data.nbRunningJobs = 0 &&
    s.data.nbSwitchingMachines = 0 &&
    s.data.nbWaiters = 0 &&
    s.data.nbKillers = 0

/-- `handler_map` -/
def handleMessage (cfg : Config) (s : Sim) : IPMessage → Except String Sim
  | .jobSubmitted name jobs => serverOnJobSubmitted cfg s name jobs
  | .jobRegisteredByDP p => serverOnRegisterJob cfg s p
  | .profileRegisteredByDP _ _ => serverOnRegisterProfile s
  | .jobCompleted p => serverOnJobCompleted s p
  | .pstateModification ids pstate => serverOnPstateModification cfg s ids pstate
  | .schedExecuteJob a => serverOnExecuteJob cfg s a
  | .schedChangeJobState id state => serverOnChangeJobState s id state
  | .toJobMsg id message => serverOnToJobMsg s id message
  | .fromJobMsg id message => serverOnFromJobMsg s id message
  | .schedRejectJob id => serverOnRejectJob s id
  | .schedKillJob ids => serverOnKillJobs s ids
  | .schedCallMeLater date => serverOnCallMeLater s date
  | .schedTellMeEnergy => serverOnSchedTellMeEnergy cfg s
  | .schedTellMeCarbonFootprint => serverOnSchedTellMeCarbonFootprint cfg s
  | .schedTellMeWaterFootprint => serverOnSchedTellMeWaterFootprint cfg s
  | .schedSetJobMetadata id metadata => serverOnSetJobMetadata s id metadata
  | .schedReady => serverOnSchedReady s
  | .waitingDone => serverOnWaitingDone s
  | .killingDone ids acknowledge => serverOnKillingDone s ids acknowledge
  | .submitterHello name callback type => serverOnSubmitterHello s name callback type
  | .submitterBye name type isWorkflow => serverOnSubmitterBye s name type isWorkflow
  | .switchedOn id pstate => serverOnSwitched s id pstate
  | .switchedOff id pstate => serverOnSwitched s id pstate
  | .endDynamicRegister => serverOnEndDynamicRegister s
  | .continueDynamicRegister => serverOnContinueDynamicRegister s
  | .eventOccurred _ events => serverOnEventOccurred s events

/-- The end of a turn of the loop of `server_process`: a message to the scheduler if needed, and
the condition of the loop. -/
def endOfTurn (cfg : Config) (s : Sim) : Except String Sim := do
  let s ← (if s.data.schedReady = true ∧ s.data.endOfSimulationAckReceived = false ∧
      s.pool.mailbox = [] then
    (if s.writer.isEmpty = false then do
      let s ← generateAndSendMessage s
      (if s.data.jobsToBeDeleted ≠ [] then do
        let workloads ← Workloads.deleteJobs s.job s.workloads s.data.jobsToBeDeleted
          cfg.garbageCollectProfiles
        .ok { s with
          workloads := workloads
          data := { s.data with jobsToBeDeleted := [] } }
      else .ok s)
    else if isSimulationFinished cfg s = true ∧ s.data.endOfSimulationSent = false then do
      let s ← s.append .simulationEnds
      let s ← generateAndSendMessage s
      .ok { s with data := { s.data with endOfSimulationSent := true } }
    else .ok s)
  else .ok s)
  .ok { s with exited := s.data.endOfSimulationAckReceived }

/-- The final checks of `server_process`, once its loop is over. -/
def serverProcessEnd (s : Sim) : Except String Unit := do
  xbtAssert (s.data.endOfSimulationSent = true)
    ("Left simulation loop, but the SIMULATION_ENDS message has not been sent to the scheduler.")
  xbtAssert (s.data.endOfSimulationAckReceived = true)
    ("Left simulation loop, but the decision process did not ACK the SIMULATION_ENDS message.")
  xbtAssert (s.data.schedReady = true)
    "Left simulation loop, but a call to the decision process is ongoing."
  xbtAssert (s.data.nbRunningJobs = 0) "Left simulation loop, but some jobs are running."
  xbtAssert (s.data.nbSwitchingMachines = 0)
    "Left simulation loop, but some machines are being switched."
  xbtAssert (s.data.nbKillers = 0)
    "Left simulation loop, but some killer processes (used to kill jobs) are running."
  xbtAssert (s.data.nbWaiters = 0)
    ("Left simulation loop, but some waiter processes (used to manage the CALL_ME_LATER" ++
      " message) are running.")
  xbtAssert (s.data.nbCompletedJobs = s.data.nbSubmittedJobs)
    ("All submitted jobs have not been completed (either executed and finished, or rejected).")

/-- `server_process` up to its loop -/
def serverProcess (cfg : Config) (s : Sim) : Except String Sim := do
  let s ← s.append .simulationBegins
  let s ← generateAndSendMessage s
  .ok { s with data := { s.data with
    submitterCounters := fun
      | .jobSubmitter => { expectedNbSubmitters := s.workloads.nbStaticWorkloads }
      | .eventSubmitter => { expectedNbSubmitters := cfg.eventLists.length }
    jobsToBeDeleted := [] } }

end Batsim
