import Batsim.Handlers
import Batsim.System

/-!
Changes of state that the scheduler forces: the handler with the counters of the jobs output, where
the state in which the program stops is kept.
-/

namespace Batsim

open Checked Sim

/-- A line of the jobs output, but for the energy and the footprints; the columns of the execution
are empty for a rejected job. -/
structure JobRow where
  jobId : String
  workloadName : String
  profile : String
  submissionTime : Date
  requestedNumberOfResources : Nat
  requestedTime : Date
  success : Nat
  finalState : String
  startingTime : Option Date
  executionTime : Option Date
  finishTime : Option Date
  waitingTime : Option Date
  turnaroundTime : Option Date
  stretch : Option Date
  allocatedResources : IntervalSet
  metadata : String

structure JobsTracer where
  nbJobs : Nat := 0
  nbJobsFinished : Nat := 0
  nbJobsSuccess : Nat := 0
  nbJobsKilled : Nat := 0
  nbJobsRejected : Nat := 0
  sumWaitingTime : Date := 0
  sumTurnaroundTime : Date := 0
  sumSlowdown : Date := 0
  makespan : Date := 0
  maxWaitingTime : Date := 0
  maxTurnaroundTime : Date := 0
  maxSlowdown : Date := 0
  machinesUtilization : Nat → Date := fun _ => 0
  rows : List JobRow := []

/-- The server and the tracer of the jobs. -/
structure Traced where
  sim : Sim
  tracer : JobsTracer

/-- A computation that may stop the program: the state is then the one of the stop. -/
abbrev Handler := EStateM String Traced

/-- The row of a job. -/
def jobRow (p : JobPtr) (j : Job) : JobRow :=
  let ran (d : Date) : Option Date := if j.state = .rejected then none else some d
  { jobId := p.id.jobName
    workloadName := p.workload
    profile := j.profile.name
    submissionTime := j.submissionTime
    requestedNumberOfResources := j.requestedNbRes
    requestedTime := j.walltime
    success := if j.state = .completedSuccessfully then 1 else 0
    finalState := jobStateToString j.state
    startingTime := ran j.startingTime
    executionTime := ran j.runtime
    finishTime := ran (j.startingTime + j.runtime)
    waitingTime := ran (j.startingTime - j.submissionTime)
    turnaroundTime := ran (j.startingTime + j.runtime - j.submissionTime)
    stretch := ran ((j.startingTime + j.runtime - j.submissionTime) / j.runtime)
    allocatedResources := j.allocation
    metadata := "\"" ++ j.metadata ++ "\"" }

namespace JobsTracer

/-- The counters of a job that ended after it ran. -/
def countFinished (t : JobsTracer) (j : Job) : JobsTracer :=
  let waitingTime := j.startingTime - j.submissionTime
  let completionTime := j.startingTime + j.runtime
  let turnaroundTime := completionTime - j.submissionTime
  let slowdown := turnaroundTime / j.runtime
  { t with
    nbJobsFinished := t.nbJobsFinished + 1
    nbJobsSuccess := t.nbJobsSuccess + if j.state = .completedSuccessfully then 1 else 0
    nbJobsKilled := t.nbJobsKilled + if j.state = .completedSuccessfully then 0 else 1
    sumWaitingTime := t.sumWaitingTime + waitingTime
    sumTurnaroundTime := t.sumTurnaroundTime + turnaroundTime
    sumSlowdown := t.sumSlowdown + slowdown
    makespan := max t.makespan completionTime
    maxWaitingTime := max t.maxWaitingTime waitingTime
    maxTurnaroundTime := max t.maxTurnaroundTime turnaroundTime
    maxSlowdown := max t.maxSlowdown slowdown
    machinesUtilization := fun m =>
      t.machinesUtilization m + if m ∈ j.allocation then j.runtime else 0 }

/-- The counters of a job that is complete. -/
def countComplete (t : JobsTracer) (j : Job) : JobsTracer :=
  if j.state = .rejected then { t with nbJobsRejected := t.nbJobsRejected + 1 }
  else t.countFinished j

end JobsTracer

namespace Handler

def check (p : Prop) [Decidable p] (msg : String) : Handler Unit :=
  if p then pure () else throw msg

/-- `e` stops the program, where nothing is changed. -/
def ofExcept {α : Type} (e : Except String α) : Handler α :=
  match e with
  | .ok a => pure a
  | .error msg => throw msg

def onSim (f : Sim → Sim) : Handler Unit := modify fun x => { x with sim := f x.sim }

def onTracer (f : JobsTracer → JobsTracer) : Handler Unit :=
  modify fun x => { x with tracer := f x.tracer }

def sim : Handler Sim := do
  let x ← get
  pure x.sim

/-- `JobsTracer::write_job` -/
def writeJob (p : JobPtr) : Handler Unit := do
  let j := (← sim).job p
  onTracer fun t => { t with nbJobs := t.nbJobs + 1 }
  if j.isComplete = true then do
    onTracer fun t => t.countComplete j
    onTracer fun t => { t with rows := t.rows ++ [jobRow p j] }
  else throw ("Job " ++ p.id.jobName ++ " did not complete")

/-- The switch of `server_on_change_job_state` -/
def switchState (p : JobPtr) (id : JobIdentifier) : JobState → JobState → Handler Unit
  | .submitted, .running => do
    onSim fun s => s.setJob p { s.job p with startingTime := s.clock }
    onSim fun s => s.countRunning p
    let s ← sim
    check (s.data.nbRunningJobs ≤ s.data.nbSubmittedJobs)
      "inconsistency: nb_running_jobs > nb_submitted_jobs"
  | .submitted, .rejected => do
    onSim fun s => s.countCompleted p
    let s ← sim
    check (s.data.nbCompletedJobs + s.data.nbRunningJobs ≤ s.data.nbSubmittedJobs)
      "inconsistency: nb_completed_jobs + nb_running_jobs > nb_submitted_jobs"
    writeJob p
    onSim fun s => s.pushDeleted id
  | .submitted, newState => throw ("Invalid requested job state modification to '" ++
      jobStateToString newState ++ "': can only be running or rejected.")
  | .running, .completedSuccessfully | .running, .completedFailed
  | .running, .completedWalltimeReached | .running, .completedKilled => do
    onSim fun s => s.setJob p { s.job p with runtime := s.clock - (s.job p).startingTime }
    onSim fun s => s.endRunning
    let s ← sim
    check (s.data.nbRunningJobs ≥ 0) "inconsistency: no jobs are running"
    onSim fun s => s.countCompleted p
    let s ← sim
    check (s.data.nbCompletedJobs + s.data.nbRunningJobs ≤ s.data.nbSubmittedJobs)
      "inconsistency: nb_completed_jobs + nb_running_jobs > nb_submitted_jobs"
    writeJob p
    onSim fun s => s.pushDeleted id
  | .running, _ => throw ("Can only change the state of a running job to completed" ++
      " (successfully, failed, and killed). State was " ++ jobStateToString .running)
  | state, _ => throw ("Can only change the state of a submitted or running job. State was " ++
      jobStateToString state)

/-- `server_on_change_job_state` -/
def changeJobState (id : JobIdentifier) (jobState : String) : Handler Unit := do
  let s ← sim
  let p ← ofExcept (registeredJob s id ("The job '" ++ id.toString ++ "' does not exist."))
  let newState ← ofExcept (jobStateFromString jobState)
  switchState p id (s.job p).state newState
  onSim fun s => s.setJob p { s.job p with state := newState }

/-! ### Running a handler -/

section Running

variable {α β : Type} {x : Traced}

@[simp] theorem bind_run (m : Handler α) (f : α → Handler β) (x : Traced) :
    (m >>= f) x = match m x with
      | .ok a y => f a y
      | .error e y => .error e y := by
  change EStateM.bind m f x = _
  unfold EStateM.bind
  cases m x <;> rfl

@[simp] theorem pure_run (a : α) : (pure a : Handler α) x = .ok a x := rfl

@[simp] theorem throw_run (msg : String) : (throw msg : Handler α) x = .error msg x := rfl

@[simp] theorem sim_run : sim x = .ok x.sim x := rfl

@[simp] theorem onSim_run (f : Sim → Sim) : onSim f x = .ok () { x with sim := f x.sim } := rfl

@[simp] theorem onTracer_run (f : JobsTracer → JobsTracer) :
    onTracer f x = .ok () { x with tracer := f x.tracer } := rfl

theorem check_of {p : Prop} [Decidable p] {msg : String} (h : p) : check p msg x = .ok () x := by
  rw [check, if_pos h]
  rfl

theorem check_not {p : Prop} [Decidable p] {msg : String} (h : ¬ p) :
    check p msg x = .error msg x := by
  rw [check, if_neg h]
  rfl

theorem ofExcept_ok {e : Except String α} {a : α} (h : e = .ok a) : ofExcept e x = .ok a x := by
  rw [h]
  rfl

/-- A job that is not complete stops the program, and counts among the jobs. -/
theorem writeJob_incomplete {p : JobPtr} (h : (x.sim.job p).isComplete = false) :
    writeJob p x = .error ("Job " ++ p.id.jobName ++ " did not complete")
      { x with tracer := { x.tracer with nbJobs := x.tracer.nbJobs + 1 } } := by
  simp [writeJob, h]

theorem writeJob_complete {p : JobPtr} (h : (x.sim.job p).isComplete = true) :
    writeJob p x = .ok () { x with
      tracer := { ({ x.tracer with nbJobs := x.tracer.nbJobs + 1 } : JobsTracer).countComplete
          (x.sim.job p) with
        rows := x.tracer.rows ++ [jobRow p (x.sim.job p)] } } := by
  have hrows : ∀ t : JobsTracer, (t.countComplete (x.sim.job p)).rows = t.rows := by
    intro t
    unfold JobsTracer.countComplete
    split <;> rfl
  simp [writeJob, h, hrows]

end Running

/-! ### The transitions -/

/-- The transitions that the switch accepts. -/
def isAccepted : JobState → JobState → Bool
  | .submitted, .running | .submitted, .rejected => true
  | .running, .completedSuccessfully | .running, .completedFailed
  | .running, .completedWalltimeReached | .running, .completedKilled => true
  | _, _ => false

/-- The job has its new state, and all that counts the jobs agrees with it. -/
structure Updated (x y : Traced) (p : JobPtr) (newState : JobState) : Prop where
  state : (y.sim.job p).state = newState
  running : y.sim.data.nbRunningJobs = x.sim.data.nbRunningJobs +
    (if newState = .running then 1 else 0) - if (x.sim.job p).state = .running then 1 else 0
  completed : y.sim.data.nbCompletedJobs = x.sim.data.nbCompletedJobs +
    if newState.isComplete then 1 else 0
  jobs : y.tracer.nbJobs = x.tracer.nbJobs + if newState.isComplete then 1 else 0
  rejected : y.tracer.nbJobsRejected = x.tracer.nbJobsRejected +
    if newState = .rejected then 1 else 0
  finished : y.tracer.nbJobsFinished = x.tracer.nbJobsFinished +
    if newState.isComplete ∧ newState ≠ .rejected then 1 else 0
  success : y.tracer.nbJobsSuccess = x.tracer.nbJobsSuccess +
    if newState = .completedSuccessfully then 1 else 0
  killed : y.tracer.nbJobsKilled = x.tracer.nbJobsKilled +
    if newState.isComplete ∧ newState ≠ .rejected ∧ newState ≠ .completedSuccessfully then 1 else 0
  rows : y.tracer.rows = x.tracer.rows ++
    if newState.isComplete then [jobRow p (y.sim.job p)] else []
  row : (jobRow p (y.sim.job p)).finalState = jobStateToString newState

section Transitions

variable {x : Traced} {id : JobIdentifier} {p : JobPtr} {jobState : String} {newState : JobState}

/-- The job runs, once its new state is set. -/
def forcedRun (x : Traced) (p : JobPtr) : Traced :=
  { x with sim := (x.sim.setJob p { x.sim.job p with
      startingTime := x.sim.clock, state := .running }).countRunning p }

theorem changeJobState_eq
    (hp : registeredJob x.sim id ("The job '" ++ id.toString ++ "' does not exist.") = .ok p)
    (hnew : jobStateFromString jobState = .ok newState) :
    changeJobState id jobState x =
      (switchState p id (x.sim.job p).state newState >>= fun _ =>
        onSim fun s => s.setJob p { s.job p with state := newState }) x := by
  rw [changeJobState, bind_run, sim_run]
  simp only [bind_run, ofExcept_ok hp, ofExcept_ok hnew]

/-- The job counts as running, in its old state. -/
def countedRun (x : Traced) (p : JobPtr) : Traced :=
  { x with sim := (x.sim.setJob p { x.sim.job p with startingTime := x.sim.clock }).countRunning p }

theorem switchState_running : switchState p id .submitted .running x =
    check (x.sim.data.nbRunningJobs + 1 ≤ x.sim.data.nbSubmittedJobs)
      "inconsistency: nb_running_jobs > nb_submitted_jobs" (countedRun x p) := rfl

theorem changeJobState_running
    (hp : registeredJob x.sim id ("The job '" ++ id.toString ++ "' does not exist.") = .ok p)
    (hnew : jobStateFromString jobState = .ok .running) (hold : (x.sim.job p).state = .submitted)
    (hle : x.sim.data.nbRunningJobs + 1 ≤ x.sim.data.nbSubmittedJobs) :
    changeJobState id jobState x = .ok () (forcedRun x p) := by
  rw [changeJobState_eq hp hnew, hold, bind_run, switchState_running, check_of hle]
  simp [forcedRun, countedRun, countRunning, setJob, Function.update_idem]

theorem changeJobState_tooManyRunning
    (hp : registeredJob x.sim id ("The job '" ++ id.toString ++ "' does not exist.") = .ok p)
    (hnew : jobStateFromString jobState = .ok .running) (hold : (x.sim.job p).state = .submitted)
    (hlt : ¬ x.sim.data.nbRunningJobs + 1 ≤ x.sim.data.nbSubmittedJobs) :
    ∃ e y, changeJobState id jobState x = .error e y := by
  rw [changeJobState_eq hp hnew, hold, bind_run, switchState_running, check_not hlt]
  exact ⟨_, _, rfl⟩

/-- A step that always stops the program stops what comes before it and after it. -/
theorem stops_bind {α β : Type} {m : Handler α} {f : α → Handler β}
    (h : ∀ a y, m x = .ok a y → ∃ e z, f a y = .error e z) : ∃ e z, (m >>= f) x = .error e z := by
  rw [bind_run]
  cases hm : m x with
  | ok a y => exact h a y hm
  | error e y => exact ⟨e, y, rfl⟩

theorem check_eq_ok {q : Prop} [Decidable q] {msg : String} {y : Traced}
    (h : check q msg x = .ok () y) : y = x := by
  by_cases hq : q
  · rw [check_of hq] at h
    cases h
    rfl
  · rw [check_not hq] at h
    cases h

/-- `write_job` stops the program as long as the job has its old state. -/
theorem stops_writeJob {f : Unit → Handler Unit} (h : (x.sim.job p).isComplete = false) :
    ∃ e y, (writeJob p >>= f) x = .error e y := by
  rw [bind_run, writeJob_incomplete h]
  exact ⟨_, _, rfl⟩

/-- The changes to a final state stop the program. -/
theorem changeJobState_final
    (hp : registeredJob x.sim id ("The job '" ++ id.toString ++ "' does not exist.") = .ok p)
    (hnew : jobStateFromString jobState = .ok newState)
    (haccepted : isAccepted (x.sim.job p).state newState = true) (hfinal : newState ≠ .running) :
    ∃ e y, changeJobState id jobState x = .error e y := by
  rw [changeJobState_eq hp hnew]
  obtain ⟨e, y, hstop⟩ : ∃ e y, switchState p id (x.sim.job p).state newState x = .error e y := by
    cases hold : (x.sim.job p).state with
    | submitted =>
      cases newState with
      | running => exact absurd rfl hfinal
      | rejected =>
        have hincomplete : ((x.sim.countCompleted p).job p).isComplete = false := by
          simp [countCompleted, Job.isComplete, hold, JobState.isComplete]
        rw [switchState, bind_run, onSim_run]
        refine stops_bind fun s y hy => ?_
        cases hy
        refine stops_bind fun _ y hy => ?_
        cases check_eq_ok hy
        exact stops_writeJob hincomplete
      | _ =>
        rw [hold] at haccepted
        cases haccepted
    | running =>
      have hincomplete : ((((x.sim.setJob p { x.sim.job p with
          runtime := x.sim.clock - (x.sim.job p).startingTime }).endRunning).countCompleted p).job
          p).isComplete = false := by
        simp [countCompleted, endRunning, setJob, Job.isComplete, hold, JobState.isComplete]
      cases newState with
      | notSubmitted | submitted | running | rejected =>
        rw [hold] at haccepted
        cases haccepted
      | _ =>
        rw [switchState, bind_run, onSim_run]
        refine stops_bind fun _ y hy => ?_
        cases hy
        refine stops_bind fun s y hy => ?_
        cases hy
        refine stops_bind fun _ y hy => ?_
        cases check_eq_ok hy
        refine stops_bind fun _ y hy => ?_
        cases hy
        refine stops_bind fun s y hy => ?_
        cases hy
        refine stops_bind fun _ y hy => ?_
        cases check_eq_ok hy
        exact stops_writeJob hincomplete
    | _ =>
      rw [hold] at haccepted
      cases haccepted
  rw [bind_run, hstop]
  exact ⟨e, y, rfl⟩

/-- The changes that the switch refuses stop the program, with nothing changed. -/
theorem changeJobState_refused
    (hp : registeredJob x.sim id ("The job '" ++ id.toString ++ "' does not exist.") = .ok p)
    (hnew : jobStateFromString jobState = .ok newState)
    (hrefused : isAccepted (x.sim.job p).state newState = false) :
    ∃ e, changeJobState id jobState x = .error e x := by
  rw [changeJobState_eq hp hnew]
  obtain ⟨e, hstop⟩ : ∃ e, switchState p id (x.sim.job p).state newState x = .error e x := by
    cases hold : (x.sim.job p).state with
    | submitted =>
      rw [hold] at hrefused
      cases newState with
      | running | rejected => cases hrefused
      | _ => exact ⟨_, rfl⟩
    | running =>
      rw [hold] at hrefused
      cases newState with
      | completedSuccessfully | completedFailed | completedWalltimeReached | completedKilled =>
        cases hrefused
      | _ => exact ⟨_, rfl⟩
    | _ => exact ⟨_, rfl⟩
  rw [bind_run, hstop]
  exact ⟨e, rfl⟩

theorem updated_forcedRun (hold : (x.sim.job p).state = .submitted) :
    Updated x (forcedRun x p) p .running where
  state := by simp [forcedRun, setJob, countRunning]
  running := by simp [forcedRun, countRunning, setJob, hold]
  completed := by simp [forcedRun, countRunning, setJob, JobState.isComplete]
  jobs := rfl
  rejected := rfl
  finished := rfl
  success := rfl
  killed := rfl
  rows := by simp [forcedRun, JobState.isComplete]
  row := by simp [jobRow, forcedRun, setJob, countRunning]

theorem submitted_of_isAccepted {old : JobState} (h : isAccepted old .running = true) :
    old = .submitted := by
  cases old with
  | submitted => rfl
  | _ => cases h

/-- The handler with the tracer goes through when the handler of the server does, and leaves the
server the same. -/
theorem changeJobState_refines {s' : Sim} :
    (∃ t, changeJobState id jobState x = .ok () ⟨s', t⟩) ↔
      serverOnChangeJobState x.sim id jobState = .ok s' := by
  constructor
  · rintro ⟨t, h⟩
    cases hp : registeredJob x.sim id ("The job '" ++ id.toString ++ "' does not exist.") with
    | error e =>
      simp only [changeJobState, bind_run, sim_run, hp] at h
      cases h
    | ok p =>
      cases hnew : jobStateFromString jobState with
      | error e =>
        simp only [changeJobState, bind_run, sim_run, ofExcept_ok hp, hnew] at h
        cases h
      | ok newState =>
        cases haccepted : isAccepted (x.sim.job p).state newState with
        | false =>
          obtain ⟨e, hstop⟩ := changeJobState_refused hp hnew haccepted
          rw [hstop] at h
          cases h
        | true =>
          by_cases hrunning : newState = .running
          · subst hrunning
            have hold := submitted_of_isAccepted haccepted
            by_cases hle : x.sim.data.nbRunningJobs + 1 ≤ x.sim.data.nbSubmittedJobs
            · rw [changeJobState_running hp hnew hold hle] at h
              cases h
              have hcheck : ∀ msg, xbtAssert (x.sim.data.nbRunningJobs + 1 ≤
                  x.sim.data.nbSubmittedJobs) msg = .ok () := fun msg => xbtAssert_of hle
              simp only [serverOnChangeJobState, hp, hnew, hold, bind, Except.bind, countRunning,
                setJob, hcheck, Function.update_self, Function.update_idem]
            · obtain ⟨e, y, hstop⟩ := changeJobState_tooManyRunning hp hnew hold hle
              rw [hstop] at h
              cases h
          · obtain ⟨e, y, hstop⟩ := changeJobState_final hp hnew haccepted hrunning
            rw [hstop] at h
            cases h
  · intro h
    obtain ⟨p, hp, hold, rfl, hle, rfl⟩ := serverOnChangeJobState_effect h
    exact ⟨x.tracer, changeJobState_running (registeredJob_eq_ok.mpr hp) rfl hold hle⟩

end Transitions

/-- A change of state that the switch accepts goes through, and all is updated, exactly when it
makes a job run and there are jobs left to run; the others stop the program with nothing
changed. -/
theorem forced_change_iff {x : Traced} {id : JobIdentifier} {p : JobPtr} {jobState : String}
    {newState : JobState}
    (hp : registeredJob x.sim id ("The job '" ++ id.toString ++ "' does not exist.") = .ok p)
    (hnew : jobStateFromString jobState = .ok newState) :
    (if isAccepted (x.sim.job p).state newState = true then
      ∃ y, changeJobState id jobState x = .ok () y ∧ Updated x y p newState
    else ∃ e, changeJobState id jobState x = .error e x) ↔
    (isAccepted (x.sim.job p).state newState = true →
      newState = .running ∧ x.sim.data.nbRunningJobs + 1 ≤ x.sim.data.nbSubmittedJobs) := by
  cases haccepted : isAccepted (x.sim.job p).state newState with
  | false => simpa using changeJobState_refused hp hnew haccepted
  | true =>
    simp only [if_true, true_imp_iff]
    by_cases hrunning : newState = .running
    · subst hrunning
      have hold := submitted_of_isAccepted haccepted
      by_cases hle : x.sim.data.nbRunningJobs + 1 ≤ x.sim.data.nbSubmittedJobs
      · exact iff_of_true ⟨_, changeJobState_running hp hnew hold hle, updated_forcedRun hold⟩
          ⟨rfl, hle⟩
      · obtain ⟨e, y, hstop⟩ := changeJobState_tooManyRunning hp hnew hold hle
        refine iff_of_false ?_ fun h => hle h.2
        rintro ⟨z, hz, -⟩
        rw [hstop] at hz
        cases hz
    · obtain ⟨e, y, hstop⟩ := changeJobState_final hp hnew haccepted hrunning
      refine iff_of_false ?_ fun h => hrunning h.1
      rintro ⟨z, hz, -⟩
      rw [hstop] at hz
      cases hz

/-- A job that is submitted on the lone host. -/
def submittedJob : Traced where
  sim := { start loneHost with
    workloads := ⟨AList.singleton "w0"
      { name := "w0", isStatic := true, profiles := delayProfiles
        jobs := Jobs.empty.insert ⟨"w0", loneJob⟩ }⟩
    job := fun _ =>
      { Job.new loneJobDescription { name := "delay", type := .delay } with state := .submitted }
    data := { nbSubmittedJobs := 1 } }
  tracer := {}

/-- Forcing the rejection of a submitted job stops the program. -/
theorem forced_rejection_stops :
    ¬ ∀ (x : Traced) (id : JobIdentifier) (p : JobPtr) (jobState : String) (newState : JobState),
      registeredJob x.sim id ("The job '" ++ id.toString ++ "' does not exist.") = .ok p →
      jobStateFromString jobState = .ok newState →
      if isAccepted (x.sim.job p).state newState = true then
        ∃ y, changeJobState id jobState x = .ok () y ∧ Updated x y p newState
      else ∃ e, changeJobState id jobState x = .error e x := by
  intro hall
  obtain ⟨y, hy, -⟩ := hall submittedJob loneJob ⟨"w0", loneJob⟩ "REJECTED" .rejected rfl rfl
  have hfinal : ∃ e z, changeJobState loneJob "REJECTED" submittedJob = .error e z :=
    changeJobState_final (p := ⟨"w0", loneJob⟩) rfl rfl rfl (by decide)
  obtain ⟨e, z, hz⟩ := hfinal
  rw [hz] at hy
  cases hy

/-- Forcing the same job to run goes through. -/
theorem forced_run_is_updated :
    ∃ y, changeJobState loneJob "RUNNING" submittedJob = .ok () y ∧
      Updated submittedJob y ⟨"w0", loneJob⟩ .running :=
  (@forced_change_iff submittedJob loneJob ⟨"w0", loneJob⟩ "RUNNING" .running rfl rfl).mpr
    fun _ => ⟨rfl, by decide⟩

end Handler

end Batsim
