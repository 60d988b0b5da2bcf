import Batsim.Lib.Runs
import Batsim.Server
import Batsim.Actors

/-!
A whole simulation as a transition system: the actors run one after the other, the environment
chooses when activities end, the order of the actors in a round, and what the scheduler answers.
-/

namespace Batsim

open Checked

/-- What the environment decides when an actor runs. -/
inductive Outcome where
  | plain
  /-- the answer of the scheduler -/
  | reply (r : Reply)
  /-- what the task tree of a job does next -/
  | task (t : TaskStep)
deriving DecidableEq

inductive Choice where
  /-- no actor can run: messages move and time passes -/
  | solve (clock : Date) (receive : Bool) (wakes rest : List Thread)
      (order : List (Entry IPMessage Thread))
  /-- the next actor runs -/
  | run (o : Outcome)
deriving DecidableEq

def Sim.noteHandled (s : Sim) (m : IPMessage) : Sim :=
  { s with history := { s.history with handled := s.history.handled ++ [m] } }

/-- Whether handling a message starts with a callback, which blocks the server. -/
def callsBack (s : Sim) : IPMessage → Bool
  | .jobCompleted p => (s.data.originOfJobs.lookup p.id).isSome
  | _ => false

/-- A turn of the loop of `server_process`, once the message is received. -/
def turn (cfg : Config) (s : Sim) (m : IPMessage) : Except String Sim := do
  let blocked := callsBack s m
  let s ← handleMessage cfg s m
  if blocked then .ok s else endOfTurn cfg (s.noteHandled m)

def runThread (cfg : Config) (s : Sim) (o : Outcome) : Thread → Except String Sim
  | .serverProcess => serverProcess cfg s
  | .serverCallback p _ => do
    let s ← serverOnCallbackReceived s p
    endOfTurn cfg (s.noteHandled (.jobCompleted p))
  | .requestReply _ =>
    match o with
    | .reply r => requestReply cfg s r
    | _ => .error "impossible choice"
  | .applyReply now todo => applyReply cfg now s todo
  | .executeJob a =>
    match o with
    | .task t => do
      let s ← startJob s a
      executeTask s a t
    | _ => .error "impossible choice"
  | .executing a _ =>
    match o with
    | .task t => executeTask s a t
    | _ => .error "impossible choice"
  | .cancelled a => finishJob s a (-2)
  | .notified a => .ok (eraseActor s a)
  | .killer ids acknowledge => killerProcess s ids acknowledge
  | .waiter date => .ok (waiterProcess s date)
  | .waiting _ => .ok (endOfWait s)
  | .switchOn id pstate => switchOnMachineProcess s id pstate
  | .switchingOn id pstate => endOfSwitch s id pstate .idle (.switchedOn id pstate)
  | .switchOff id pstate => switchOffMachineProcess s id pstate
  | .switchingOff id pstate => endOfSwitch s id pstate .sleeping (.switchedOff id pstate)
  | .jobSubmitter workload phase => staticJobSubmitterProcess s workload phase
  | .eventSubmitter list phase => staticEventSubmitterProcess cfg s list phase
  | .workflowSubmitter run phase => workflowSubmitterProcess cfg s run phase

/-- What letting time pass requires, besides what the pool requires: sleepers wake up at their
date, the server and a submitter it calls back go on together, and the server receives only
while it waits for a message. -/
def canSolve (s : Sim) (clock : Date) (receive : Bool) (wakes rest : List Thread) : Bool :=
  s.clock ≤ clock &&
    wakes.all (fun t => t.wakeDate.all (· ≤ clock)) &&
    rest.all (fun t => t.wakeDate.all (clock ≤ ·)) &&
    (wakes.filterMap Thread.callsBack?).isPerm (wakes.filterMap Thread.awaitsCallback?) &&
    (!receive || (!s.exited && s.pool.blocked.all fun t => t.callsBack?.isNone))

def step (cfg : Config) (s : Sim) : Choice → Except String Sim
  | .solve clock receive wakes rest order =>
    if canSolve s clock receive wakes rest then
      match s.pool.solve receive wakes rest order with
      | some pool => .ok { s with clock := clock, pool := pool }
      | none => .error "impossible choice"
    else .error "impossible choice"
  | .run o =>
    match s.pool.next? with
    | some (.deliver m, pool) => turn cfg { s with pool := pool } m
    | some (.resume t, pool) => runThread cfg { s with pool := pool } o t
    | none => .error "impossible choice"

/-- `start_initial_simulation_processes` -/
def initialThreads (cfg : Config) : List Thread :=
  cfg.workloadDescriptions.map (fun d => .jobSubmitter d.name .started) ++
    cfg.workflowDescriptions.map (fun d =>
      .workflowSubmitter { workflow := d, nbParentCompleted := d.tasks.map fun _ => 0 } .started) ++
    cfg.eventLists.map (fun d => .eventSubmitter d.name .started) ++
    [.serverProcess]

def start (cfg : Config) : Sim where
  clock := 0
  pool := { woken := [], fresh := initialThreads cfg, mailbox := [], blocked := [] }
  data := {}
  writer := {}
  workloads := cfg.workloads
  job := cfg.job
  ptask := fun _ => false
  nextActor := 0
  machines := cfg.machines
  currentSwitches := ⟨∅⟩
  nbMachineSwitches := 0
  nbGroupedSwitches := 0
  registrationSchedFinished := false
  callbackBox := fun _ => []
  exited := false
  history := {}

/-- The simulations that a configuration allows. -/
def batsim (cfg : Config) : StepSystem Sim Choice String where
  start := start cfg
  step := step cfg

theorem step_solve {cfg : Config} {s s' : Sim} {clock : Date} {receive : Bool}
    {wakes rest : List Thread} {order : List (Entry IPMessage Thread)}
    (h : step cfg s (.solve clock receive wakes rest order) = .ok s') :
    canSolve s clock receive wakes rest = true ∧
      ∃ pool, s.pool.solve receive wakes rest order = some pool ∧
        s' = { s with clock := clock, pool := pool } := by
  simp only [step] at h
  split at h
  · next hcan =>
    split at h
    · next pool hpool =>
      rw [Except.ok.injEq] at h
      exact ⟨hcan, pool, hpool, h.symm⟩
    · cases h
  · cases h

/-- What a step is: time passes, the server handles a message, or an actor runs. -/
theorem step_cases {cfg : Config} {s s' : Sim} {c : Choice} (h : step cfg s c = .ok s') :
    (∃ clock receive wakes rest order pool,
      c = .solve clock receive wakes rest order ∧ canSolve s clock receive wakes rest = true ∧
      s.pool.solve receive wakes rest order = some pool ∧
      s' = { s with clock := clock, pool := pool }) ∨
    (∃ o m pool, c = .run o ∧ s.pool.next? = some (.deliver m, pool) ∧
      turn cfg { s with pool := pool } m = .ok s') ∨
    (∃ o t pool, c = .run o ∧ s.pool.next? = some (.resume t, pool) ∧
      runThread cfg { s with pool := pool } o t = .ok s') := by
  cases c with
  | solve clock receive wakes rest order =>
    obtain ⟨hcan, pool, hpool, hs'⟩ := step_solve h
    exact .inl ⟨clock, receive, wakes, rest, order, pool, rfl, hcan, hpool, hs'⟩
  | run o =>
    simp only [step] at h
    split at h
    · next m pool hnext => exact .inr (.inl ⟨o, m, pool, rfl, hnext, h⟩)
    · next t pool hnext => exact .inr (.inr ⟨o, t, pool, rfl, hnext, h⟩)
    · cases h

/-! ### A small platform -/

/-- The profiles of a workload whose jobs only wait. -/
def delayProfiles : Profiles :=
  let profile : Profile := { name := "delay", type := .delay }
  ⟨AList.singleton "delay" (some profile)⟩

/-- A single host, with a workload that the scheduler may register jobs in. -/
def loneHost : Config where
  registrationSchedEnabled := true
  workloadDescriptions := [{ name := "w0", profiles := delayProfiles, jobs := [] }]
  hosts := [{}]
  workloads := ⟨AList.singleton "w0"
    { name := "w0", isStatic := true, jobs := .empty, profiles := delayProfiles }⟩
  workloads_loaded := rfl
  machines :=
    { machines := [{ permissions := 7, pstates := ∅, sleepPstates := ∅, hostNbPstates := 1
                     hostPstate := 0 }]
      nbMachinesInEachState := fun s => if s = .idle then 1 else 0 }
  machines_created := rfl

/-- A single host that can sleep, in its pstate 1. -/
def sleepyHost : Config where
  energyUsed := true
  workloadDescriptions := []
  hosts := [{ nbPstates := 4, sleepPstates := [(1, 2, 3)] }]
  workloads := ⟨∅⟩
  workloads_loaded := rfl
  machines :=
    { machines := [{
        permissions := 7
        pstates := (((AList.singleton 1 .sleepPstate).insert 3 .transitionVirtualPstate).insert 2
          .transitionVirtualPstate).insert 0 .computationPstate
        sleepPstates := AList.singleton 1 ⟨1, 3, 2⟩
        hostNbPstates := 4
        hostPstate := 0 }]
      nbMachinesInEachState := fun s => if s = .idle then 1 else 0 }
  machines_created := rfl

/-- A job that the scheduler registers on the lone host, on its only machine. -/
def loneJob : JobIdentifier := { workloadName := "w0", jobName := "7" }

def loneJobDescription : JobDescription :=
  { id := loneJob, subtime := 10, res := 1, profile := "delay" }

def loneMachine : IntervalSet := { elements := [0] }

namespace Choice

/-- The next actor runs, with the outcome `o` if it depends on the environment. -/
def next (o : Outcome := .plain) (_ : Sim) : Choice := .run o

/-- Time passes until `clock`; the blocked actors in `wakes` wake up, and the server receives a
message if there is one to `receive`. -/
def pass (clock : Date) (receive : Bool) (wakes : Thread → Bool) (s : Sim) : Choice :=
  let woken := s.pool.blocked.filter wakes
  .solve clock receive woken (s.pool.blocked.filter fun t => !wakes t)
    ((if receive then Pool.received s.pool.mailbox else []) ++ woken.map .resume)

/-- The server receives a message at once. -/
def receive (s : Sim) : Choice := pass s.clock true (fun _ => false) s

end Choice

end Batsim
