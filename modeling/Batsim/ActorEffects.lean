import Batsim.Actors
import Batsim.Registration

/-!
What each actor does from one blocking call to the next, when it does not stop the program.
-/

namespace Batsim

open Checked Workloads

/-! ### Registrations and readers -/

/-- The store is replaced, and it may come with a new job object. -/
def Sim.withStore (s : Sim) (workloads : Workloads) : Option (JobPtr × Job) → Sim
  | none => { s with workloads := workloads }
  | some (p, j) => { s with workloads := workloads }.setJob p j

/-- Jobs and profiles are added to the store: at most one job, which nothing knows yet. -/
structure Adds (s s' : Sim) (new : Option (JobPtr × Job)) : Prop where
  registers : Registers s.workloads s'.workloads (new.map Prod.fst)
  eq : s' = s.withStore s'.workloads new
  blank : ∀ p j, new = some (p, j) →
    j.killRequested = false ∧ j.task = none ∧ j.executionActors = []

theorem Adds.refl (s : Sim) : Adds s s none := ⟨.refl _, rfl, by simp⟩

theorem handleRegisterJob_effect {cfg : Config} {s s' : Sim} {id : JobIdentifier}
    {d : JobDescription} (h : handleRegisterJob cfg s id d = .ok s') :
    ∃ j, Adds s s' (some (ptr id, j)) ∧ j.state = .submitted := by
  simp only [handleRegisterJob, bind_eq_ok, Except.ok.injEq] at h
  obtain ⟨_, -, _, -, _, -, _, -, _, -, wl, hwl, profile, -, _, -, _, -, _, -, jobs, hadd, rfl⟩ := h
  rw [at?_eq_ok] at hwl
  exact ⟨_, ⟨registers_addJob (p := ptr id) hwl hadd, rfl, by
    rintro p j h
    cases h
    exact ⟨rfl, rfl, rfl⟩⟩, rfl⟩

theorem handleRegisterProfile_effect {cfg : Config} {s s' : Sim} {workloadName profileName : String}
    {profile : Profile} (h : handleRegisterProfile cfg s workloadName profileName profile = .ok s') :
    Adds s s' none := by
  simp only [handleRegisterProfile, bind_eq_ok, Except.ok.injEq] at h
  obtain ⟨_, -, _, -, _, -, profiles, -, rfl⟩ := h
  refine ⟨registers_set (fun old hold => ?_) (fun hnone => ?_), rfl, by simp⟩
  · simp [hold]
  · simp [hnone, Workload.newDynamicWorkload]

theorem handleExecuteJob_effect {s : Sim} {id : JobIdentifier} {alloc : IntervalSet}
    {mapping : Option (List (Int × Int))} {m : IPMessage} (howned : s.workloads.Owned)
    (h : handleExecuteJob s id alloc mapping = .ok m) :
    [m] = (SchedulerEventData.executeJob id alloc mapping).messages := by
  simp only [handleExecuteJob, bind_eq_ok] at h
  obtain ⟨p, hp, _, -, h⟩ := h
  have hptr : p = ptr id := howned.jobAt_ptr hp
  cases mapping with
  | none =>
    rw [Except.ok.injEq] at h
    rw [← h, hptr]
    rfl
  | some entries =>
    simp only [bind_eq_ok, Except.ok.injEq] at h
    obtain ⟨_, -, _, -, rfl⟩ := h
    rw [hptr]
    rfl

/-- The handler of an event registers what the event asks for; the messages are those of the
event. -/
theorem parseAndApplyEvent_effect {cfg : Config} {now : Date} {s s' : Sim} {e : SchedulerEvent}
    {ms : List IPMessage} (howned : s.workloads.Owned)
    (h : parseAndApplyEvent cfg now s e = .ok (s', ms)) :
    ms = e.data.messages ∧ (ms = [] → s' = s) ∧ ∃ new, Adds s s' new ∧
      ∀ p j, new = some (p, j) → j.state = .submitted ∧ ms = [.jobRegisteredByDP p] := by
  simp only [parseAndApplyEvent, bind_eq_ok] at h
  obtain ⟨_, -, h⟩ := h
  cases hdata : e.data with
  | executeJob id alloc mapping =>
    simp only [hdata, bind_eq_ok, Except.ok.injEq, Prod.mk.injEq] at h
    obtain ⟨m, hm, rfl, rfl⟩ := h
    exact ⟨handleExecuteJob_effect howned hm, by simp, none, .refl s, by simp⟩
  | registerJob id d =>
    simp only [hdata, bind_eq_ok, Except.ok.injEq, Prod.mk.injEq] at h
    obtain ⟨t, ht, rfl, rfl⟩ := h
    obtain ⟨j, hadds, hstate⟩ := handleRegisterJob_effect ht
    refine ⟨rfl, by simp [SchedulerEventData.messages], _, hadds, ?_⟩
    rintro p j h
    cases h
    exact ⟨hstate, rfl⟩
  | registerProfile workloadName profileName profile =>
    simp only [hdata, bind_eq_ok, Except.ok.injEq, Prod.mk.injEq] at h
    obtain ⟨t, ht, rfl, rfl⟩ := h
    exact ⟨rfl, by simp [SchedulerEventData.messages], none, handleRegisterProfile_effect ht,
      by simp⟩
  | answer | rejectJob _ | callMeLater _ | toJobMsg _ _ =>
    simp only [hdata, Except.ok.injEq, Prod.mk.injEq] at h
    obtain ⟨rfl, rfl⟩ := h
    exact ⟨rfl, fun _ => rfl, none, .refl s, by simp⟩
  | _ =>
    simp only [hdata, bind_eq_ok, Except.ok.injEq, Prod.mk.injEq] at h
    obtain ⟨_, -, rfl, rfl⟩ := h
    exact ⟨rfl, fun _ => rfl, none, .refl s, by simp⟩

/-- The messages that an item makes the reader send. -/
def ReplyItem.messages : ReplyItem → List IPMessage
  | .event e => e.data.messages
  | .send _ m => [m]

/-- A reader skips what sends nothing, then sends one message or waits to send it. -/
theorem applyReply_effect {cfg : Config} {now : Date} {s s' : Sim} {todo : List ReplyItem}
    (howned : s.workloads.Owned) (h : applyReply cfg now s todo = .ok s') :
    (s' = s ∧ ∀ i ∈ todo, i.messages = []) ∨
      ∃ skipped item tail t new date m ms,
        todo = skipped ++ item :: tail ∧ (∀ i ∈ skipped, i.messages = []) ∧
        item.messages = m :: ms ∧ Adds s t new ∧
        (∀ p j, new = some (p, j) → j.state = .submitted ∧ m = .jobRegisteredByDP p) ∧
        s' = sendAtTime now t date m (ms.map (.send date) ++ tail) := by
  induction todo generalizing s with
  | nil =>
    simp only [applyReply, Except.ok.injEq] at h
    exact .inl ⟨h.symm, by simp⟩
  | cons item todo ih =>
    cases item with
    | send date m =>
      simp only [applyReply, Except.ok.injEq] at h
      exact .inr ⟨[], .send date m, todo, s, none, date, m, [], rfl, by simp, rfl, .refl s,
        by simp, by simpa using h.symm⟩
    | event e =>
      simp only [applyReply, bind_eq_ok, Prod.exists] at h
      obtain ⟨t, ms, hparse, h⟩ := h
      obtain ⟨hms, hskip, new, hadds, hnew⟩ := parseAndApplyEvent_effect howned hparse
      cases ms with
      | cons m ms =>
        simp only [Except.ok.injEq] at h
        refine .inr ⟨[], .event e, todo, t, new, e.timestamp, m, ms, rfl, by simp, hms.symm, hadds,
          fun p j hp => ?_, h.symm⟩
        obtain ⟨hstate, hm⟩ := hnew p j hp
        exact ⟨hstate, by simpa using (List.cons.inj hm).1⟩
      | nil =>
        obtain rfl := hskip rfl
        obtain ⟨rfl, hnone⟩ | ⟨skipped, item, tail, u, new, date, m, ms, rfl, hskipped, hrest⟩ :=
          ih howned h
        · exact .inl ⟨rfl, by simpa [ReplyItem.messages, ← hms] using hnone⟩
        · exact .inr ⟨.event e :: skipped, item, tail, u, new, date, m, ms, rfl,
            by simpa [ReplyItem.messages, ← hms] using hskipped, hrest⟩

theorem requestReply_effect {cfg : Config} {s s' : Sim} {r : Reply}
    (h : requestReply cfg s r = .ok s') :
    applyReply cfg r.now
      { s with history := { s.history with replies := s.history.replies ++ [(r, [])] } }
      r.todo = .ok s' := h

/-! ### Jobs -/

/-- A job that starts on its machines. -/
def Sim.beginJob (s : Sim) (a : ExecutionActor) (machines : Machines) : Sim :=
  { s.setJob a.allocation.job { s.job a.allocation.job with
      startingTime := s.clock
      allocation := a.allocation.machineIds
      task := some a.number } with
    machines := machines
    history := { s.history with runs := s.history.runs ++ [a.allocation.job] } }

theorem startJob_effect {s s' : Sim} {a : ExecutionActor} (h : startJob s a = .ok s') :
    ∃ machines, s.machines.updateMachinesOnJobRun a.allocation.job a.allocation.machineIds
        s.clock = .ok machines ∧ s' = s.beginJob a machines := by
  simp only [startJob, bind_eq_ok, Except.ok.injEq] at h
  obtain ⟨machines, hmachines, rfl⟩ := h
  exact ⟨machines, hmachines, rfl⟩

/-- A job that leaves its machines in a final state. -/
def Sim.endJob (s : Sim) (p : JobPtr) (j : Job) (machines : Machines) : Sim :=
  { s.setJob p j with
    machines := machines
    history := { s.history with ends := s.history.ends ++ [p] } }

@[simp] theorem pool_endJob (s : Sim) (p : JobPtr) (j : Job) (machines : Machines) :
    (s.endJob p j machines).pool = s.pool := rfl

@[simp] theorem pool_noteSilentEnd (s : Sim) (p : JobPtr) : (s.noteSilentEnd p).pool = s.pool :=
  rfl

@[simp] theorem pool_eraseActor (s : Sim) (a : ExecutionActor) :
    (eraseActor s a).pool = s.pool := rfl

@[simp] theorem pool_put (s : Sim) (m : IPMessage) (sender : Option Thread) :
    (s.put m sender).pool = s.pool.put m sender := rfl

/-- The final states that a job can reach by itself. -/
def JobState.endsItself : JobState → Bool
  | .completedSuccessfully | .completedFailed | .completedWalltimeReached => true
  | _ => false

theorem stateOfReturnCode_cases {returnCode : Int} {state : JobState}
    (h : stateOfReturnCode returnCode = .ok state) :
    (state.endsItself = true ∧ returnCode ≠ -2) ∨
      (state = .completedKilled ∧ returnCode = -2) := by
  unfold stateOfReturnCode at h
  split at h
  · next hzero =>
    cases h
    exact .inl ⟨rfl, by omega⟩
  split at h
  · next hpos =>
    cases h
    exact .inl ⟨rfl, by omega⟩
  split at h
  · next hwall =>
    cases h
    exact .inl ⟨rfl, by omega⟩
  split at h
  · next hkilled =>
    cases h
    exact .inr ⟨rfl, hkilled⟩
  · cases h

/-- A job ends by itself: the server is told, or, if it was killed, is not. -/
theorem finishJob_effect {s s' : Sim} {a : ExecutionActor} {returnCode : Int}
    (h : finishJob s a returnCode = .ok s') :
    ∃ j machines, s.machines.updateMachinesOnJobEnd a.allocation.job a.allocation.machineIds
        s.clock = .ok machines ∧
      j.killRequested = (s.job a.allocation.job).killRequested ∧
      j.allocation = (s.job a.allocation.job).allocation ∧
      j.task = (s.job a.allocation.job).task ∧
      j.executionActors = (s.job a.allocation.job).executionActors ∧
      ((j.state.endsItself = true ∧ returnCode ≠ -2 ∧
          s' = (s.endJob a.allocation.job j machines).put (.jobCompleted a.allocation.job)
            (some (.notified a))) ∨
        (j.state = .completedKilled ∧ returnCode = -2 ∧
          s' = eraseActor ((s.endJob a.allocation.job j machines).noteSilentEnd a.allocation.job)
            a)) := by
  simp only [finishJob, bind_eq_ok, Except.ok.injEq] at h
  obtain ⟨state, hstate, machines, hmachines, rfl⟩ := h
  refine ⟨{ s.job a.allocation.job with
      returnCode := returnCode
      state := state
      runtime := runtimeOf (s.clock - (s.job a.allocation.job).startingTime) },
    machines, hmachines, rfl, rfl, rfl, rfl, ?_⟩
  obtain ⟨hends, hcode⟩ | ⟨rfl, hcode⟩ := stateOfReturnCode_cases hstate
  · refine .inl ⟨hends, hcode, ?_⟩
    have hne : state ≠ .completedKilled := by
      rintro rfl
      cases hends
    simp [hne, Sim.endJob, Sim.setJob, Function.update_idem]
  · exact .inr ⟨rfl, hcode, by simp [Sim.endJob, Sim.setJob, Function.update_idem]⟩

/-- The actor of a job waits on a leaf. -/
def Sim.waitOnLeaf (s : Sim) (a : ExecutionActor) (l : Leaf) : Sim :=
  { s with ptask := Function.update s.ptask a.number (decide (l = Leaf.ptask)) }.block
    (.executing a l)

/-- The actor of a job sends a message to the scheduler. -/
def Sim.sendFromJob (s : Sim) (a : ExecutionActor) (message : String) : Sim :=
  { s with ptask := Function.update s.ptask a.number false }.put
    (.fromJobMsg a.allocation.job.id message) (some (.executing a .other))

theorem executeTask_effect {s s' : Sim} {a : ExecutionActor} {t : TaskStep}
    (h : executeTask s a t = .ok s') :
    (∃ l, t = .leaf l ∧ s' = s.waitOnLeaf a l) ∨
      (∃ message, t = .sendMessage message ∧ s' = s.sendFromJob a message) ∨
      ∃ returnCode, t = .finish returnCode ∧ finishJob s a returnCode = .ok s' := by
  cases t with
  | leaf l =>
    simp only [executeTask, Except.ok.injEq] at h
    exact .inl ⟨l, rfl, h.symm⟩
  | sendMessage message =>
    simp only [executeTask, Except.ok.injEq] at h
    exact .inr (.inl ⟨message, rfl, h.symm⟩)
  | finish returnCode => exact .inr (.inr ⟨returnCode, rfl, h⟩)

/-! ### Killers -/

/-- The parallel task of the actor `n` is cancelled. -/
def Sim.cancelPtask (s : Sim) (n : Nat) : Sim :=
  { s with pool := s.pool.interrupt (Thread.waitsOnPtask n) Thread.cancel }

/-- The actors of a job are killed. -/
def Sim.killActors (s : Sim) (p : JobPtr) (j : Job) (machines : Machines) : Sim :=
  { (s.endJob p j machines).noteSilentEnd p with
    pool := s.pool.kill (Thread.isActorIn (s.job p).executionActors) }

/-- What a killer does to one job: nothing, if it is over; else its parallel task is cancelled,
or, without one, its actors are killed. -/
theorem killJob_effect {s s' : Sim} {id : JobIdentifier} (h : killJob s id = .ok s') :
    ∃ p, s.jobAt id = .ok p ∧
      (s.job p).state ≠ .rejected ∧ (s.job p).state ≠ .submitted ∧
      (s.job p).state ≠ .notSubmitted ∧
      (((s.job p).state ≠ .running ∧ s' = s) ∨
        ∃ n, (s.job p).state = .running ∧ (s.job p).task = some n ∧
          ((s.ptask n = true ∧ s' = s.cancelPtask n) ∨
            (s.ptask n = false ∧ (s.job p).executionActors ≠ [] ∧ ∃ j machines,
              s.machines.updateMachinesOnJobEnd p (s.job p).allocation s.clock = .ok machines ∧
              j.killRequested = (s.job p).killRequested ∧
              j.allocation = (s.job p).allocation ∧ j.task = (s.job p).task ∧
              j.executionActors = [] ∧ j.state = .completedKilled ∧
              s' = s.killActors p j machines))) := by
  simp only [killJob, bind_eq_ok, xbtAssert_eq_ok] at h
  obtain ⟨p, hp, _, ⟨hrejected, hsubmitted, hnot⟩, h⟩ := h
  refine ⟨p, hp, hrejected, hsubmitted, hnot, ?_⟩
  split at h
  · next hrunning =>
    cases htask : (s.job p).task with
    | none => simp [htask] at h
    | some n =>
      simp only [htask] at h
      refine .inr ⟨n, hrunning, rfl, ?_⟩
      split at h
      · next hptask =>
        rw [Except.ok.injEq] at h
        exact .inl ⟨hptask, h.symm⟩
      · next hptask =>
        simp only [bind_eq_ok, xbtAssert_eq_ok, Except.ok.injEq] at h
        obtain ⟨_, hactors, machines, hmachines, _, -, rfl⟩ := h
        refine .inr ⟨by simpa using hptask, List.ne_nil_of_length_pos hactors,
          { s.job p with
            executionActors := []
            state := .completedKilled
            runtime := runtimeOf (s.clock - (s.job p).startingTime) },
          machines, hmachines, rfl, rfl, htask, rfl, rfl, ?_⟩
        simp [Sim.killActors, Sim.endJob, Sim.setJob, Sim.noteSilentEnd, Function.update_idem, htask]
  · next hrunning =>
    rw [Except.ok.injEq] at h
    exact .inl ⟨hrunning, h.symm⟩

theorem killerProcess_effect {s s' : Sim} {ids : List JobIdentifier} {acknowledge : Bool}
    (h : killerProcess s ids acknowledge = .ok s') :
    ∃ t, forEach killJob s ids = .ok t ∧ s' = t.put (.killingDone ids acknowledge) none := by
  simp only [killerProcess, bind_eq_ok, Except.ok.injEq] at h
  obtain ⟨t, ht, rfl⟩ := h
  exact ⟨t, ht, rfl⟩

/-! ### Waiters and switches -/

theorem endOfWait_cases (s : Sim) :
    (endOfWait s = s ∧ (s.data.endOfSimulationSent = true ∨
        s.data.endOfSimulationAckReceived = true)) ∨
      (endOfWait s = s.put .waitingDone none ∧ s.data.endOfSimulationSent = false) := by
  unfold endOfWait
  split
  · next hend => exact .inl ⟨rfl, hend⟩
  · next hend =>
    simp only [not_or, Bool.not_eq_true] at hend
    exact .inr ⟨rfl, hend.1⟩

theorem waiterProcess_cases (s : Sim) (date : Date) :
    (∃ d, waiterProcess s date = s.block (.waiting d)) ∨ waiterProcess s date = endOfWait s := by
  unfold waiterProcess
  split
  · exact .inl ⟨_, rfl⟩
  · exact .inr rfl

theorem setHostPstate_effect {s s' : Sim} {id : Nat} {pstate : Int}
    (h : setHostPstate s id pstate = .ok s') :
    ∃ m, s.machines.machines[id]? = some m ∧ 0 ≤ pstate ∧
      s' = { s with machines := s.machines.put id { m with hostPstate := pstate.toNat } } := by
  simp only [setHostPstate, bind_eq_ok, Machines.at?_eq_ok, Machine.setPstate_eq_ok,
    Except.ok.injEq] at h
  obtain ⟨m, hm, _, ⟨hpstate, rfl⟩, rfl⟩ := h
  exact ⟨m, hm, hpstate.1, rfl⟩

/-- The checks that a machine passes before it is switched. -/
structure CanSwitch (m : Machine) (newPstate : Int) (transition : MachineState)
    (target : PStateType) : Prop where
  state : m.state = transition
  idle : m.jobsBeingComputed = []
  hasPstate : m.hasPstate newPstate = true
  target : m.pstateType newPstate = target

theorem checkSwitch_effect {s : Sim} {id : Nat} {newPstate : Int} {transition : MachineState}
    {target : PStateType} {m : Machine}
    (h : checkSwitch s id newPstate transition target = .ok m) :
    s.machines.machines[id]? = some m ∧ CanSwitch m newPstate transition target := by
  simp only [checkSwitch, bind_eq_ok, Machines.at?_eq_ok, xbtAssert_eq_ok, Except.ok.injEq] at h
  obtain ⟨m', hm, _, hstate, _, hjobs, _, hhas, _, htype, rfl⟩ := h
  exact ⟨hm, hstate, hjobs, hhas, htype⟩

/-- A machine on its way to `newPstate`, in the virtual pstate `virtual` meanwhile. -/
def Sim.startSwitch (s : Sim) (id : Nat) (m : Machine) (virtual : Nat) (t : Thread) : Sim :=
  { s with machines := s.machines.put id { m with hostPstate := virtual } }.block t

theorem switchOnMachineProcess_effect {s s' : Sim} {id : Nat} {newPstate : Int}
    (h : switchOnMachineProcess s id newPstate = .ok s') :
    ∃ m sleep, s.machines.machines[id]? = some m ∧
      CanSwitch m newPstate .transitingFromSleepingToComputing .computationPstate ∧
      m.sleepPstates.lookup (m.hostPstate : Int) = some sleep ∧
      s' = s.startSwitch id m sleep.switchOnVirtualPstate (.switchingOn id newPstate) := by
  simp only [switchOnMachineProcess, bind_eq_ok] at h
  obtain ⟨m, hcheck, h⟩ := h
  obtain ⟨hm, hcan⟩ := checkSwitch_effect hcheck
  cases hsleep : m.sleepPstates.lookup (m.hostPstate : Int) with
  | none => simp [hsleep] at h
  | some sleep =>
    simp only [hsleep, bind_eq_ok, Except.ok.injEq] at h
    obtain ⟨t, ht, rfl⟩ := h
    obtain ⟨m', hm', -, rfl⟩ := setHostPstate_effect ht
    cases hm.symm.trans hm'
    exact ⟨m, sleep, hm, hcan, hsleep, by simp [Sim.startSwitch]⟩

theorem switchOffMachineProcess_effect {s s' : Sim} {id : Nat} {newPstate : Int}
    (h : switchOffMachineProcess s id newPstate = .ok s') :
    ∃ m sleep, s.machines.machines[id]? = some m ∧
      CanSwitch m newPstate .transitingFromComputingToSleeping .sleepPstate ∧
      m.sleepPstates.lookup newPstate = some sleep ∧
      s' = s.startSwitch id m sleep.switchOffVirtualPstate (.switchingOff id newPstate) := by
  simp only [switchOffMachineProcess, bind_eq_ok] at h
  obtain ⟨m, hcheck, h⟩ := h
  obtain ⟨hm, hcan⟩ := checkSwitch_effect hcheck
  cases hsleep : m.sleepPstates.lookup newPstate with
  | none => simp [hsleep] at h
  | some sleep =>
    simp only [hsleep, bind_eq_ok, Except.ok.injEq] at h
    obtain ⟨t, ht, rfl⟩ := h
    obtain ⟨m', hm', -, rfl⟩ := setHostPstate_effect ht
    cases hm.symm.trans hm'
    exact ⟨m, sleep, hm, hcan, hsleep, by simp [Sim.startSwitch]⟩

theorem endOfSwitch_effect {s s' : Sim} {id : Nat} {newPstate : Int} {newState : MachineState}
    {message : IPMessage} (h : endOfSwitch s id newPstate newState message = .ok s') :
    ∃ m machines, s.machines.machines[id]? = some m ∧ 0 ≤ newPstate ∧
      (s.machines.put id { m with hostPstate := newPstate.toNat }).updateMachineState id newState
        s.clock = .ok machines ∧
      s' = ({ s with machines := machines }).put message none := by
  simp only [endOfSwitch, bind_eq_ok, Except.ok.injEq] at h
  obtain ⟨t, ht, machines, hmachines, rfl⟩ := h
  obtain ⟨m, hm, hpstate, rfl⟩ := setHostPstate_effect ht
  exact ⟨m, machines, hm, hpstate, hmachines, rfl⟩

/-! ### Submitters -/

theorem nextBatch_append {α : Type} (time : α → Date) (date : Date) (batch items : List α) :
    (nextBatch time date batch items).1 ++ (nextBatch time date batch items).2 =
      batch ++ items := by
  induction items generalizing batch with
  | nil => simp [nextBatch]
  | cons a rest ih =>
    unfold nextBatch
    split
    · rfl
    · rw [ih]
      simp

namespace SubmitterKind

variable {α : Type} (k : SubmitterKind α)

/-- What a submitter does when the items still to send are `items`: it says goodbye when there
are none; else it sends the first ones, or sleeps. -/
inductive Does (s : Sim) (items : List α) : Sim → Prop
  | bye : items = [] → Does s items (s.put k.bye none)
  | send (batch remaining : List α) (date : Date) : batch ≠ [] → batch ++ remaining = items →
      Does s items (s.put (k.message batch) (some (k.thread (.sent date remaining))))
  | sleep (date : Date) (a : α) (rest : List α) : items = a :: rest →
      Does s items (s.block (k.thread (.asleep date a rest)))

theorem does_sleep (s : Sim) (date : Date) (items : List α) : k.Does s items (k.sleep s date items) := by
  cases items with
  | nil => exact .bye rfl
  | cons a rest => exact .sleep _ a rest rfl

theorem does_submit (s : Sim) (date : Date) (batch remaining : List α) :
    k.Does s (batch ++ remaining) (k.submit s date batch remaining) := by
  rw [← nextBatch_append k.time date batch remaining]
  unfold submit
  generalize nextBatch k.time date batch remaining = next
  obtain ⟨batch', remaining'⟩ := next
  simp only
  split
  · next hempty =>
    subst hempty
    exact k.does_sleep s date remaining'
  · next hne => exact .send batch' remaining' date hne rfl

/-- The items that a phase still has to send. -/
def itemsOf : SubmitterPhase α → List α
  | .started | .greeted => []
  | .sent _ remaining => remaining
  | .asleep _ a rest => a :: rest

theorem resume_effect {s s' : Sim} {hello : IPMessage} {items : Except String (List α)}
    {phase : SubmitterPhase α} (h : k.resume s hello items phase = .ok s') :
    (phase = .started ∧ s' = s.put hello (some (k.thread .greeted))) ∨
      (phase = .greeted ∧ ∃ list, items = .ok list ∧ k.Does s list s') ∨
      (phase ≠ .started ∧ phase ≠ .greeted ∧ k.Does s (itemsOf phase) s') := by
  cases phase with
  | started =>
    simp only [resume, Except.ok.injEq] at h
    exact .inl ⟨rfl, h.symm⟩
  | greeted =>
    simp only [resume, bind_eq_ok, Except.ok.injEq] at h
    obtain ⟨list, hlist, rfl⟩ := h
    exact .inr (.inl ⟨rfl, list, hlist, k.does_submit s s.clock [] list⟩)
  | sent date remaining =>
    simp only [resume, Except.ok.injEq] at h
    exact .inr (.inr ⟨by simp, by simp, h ▸ k.does_sleep s date remaining⟩)
  | asleep date a rest =>
    simp only [resume, Except.ok.injEq] at h
    exact .inr (.inr ⟨by simp, by simp, h ▸ k.does_submit s s.clock [a] rest⟩)

end SubmitterKind

theorem submitWorkflowTaskAsJob_effect {s s' : Sim} {run : WorkflowRun} {task : WorkflowTask}
    {id : JobIdentifier} (h : submitWorkflowTaskAsJob s run task = .ok (s', id)) :
    id.workloadName = run.workflow.name ∧
      ∃ j, Adds s s' (some (⟨run.workflow.name, id⟩, j)) ∧ j.state = .notSubmitted := by
  simp only [submitWorkflowTaskAsJob, bind_eq_ok, Except.ok.injEq, Prod.mk.injEq] at h
  obtain ⟨id', hid, wl, hwl, profiles, -, _, -, _, -, jobs, hadd, rfl, rfl⟩ := h
  rw [at?_eq_ok] at hwl
  exact ⟨(JobIdentifier.make_eq_ok hid).1, _,
    ⟨registers_addJob (p := ⟨run.workflow.name, id'⟩) hwl hadd, rfl, by
      rintro p j h
      cases h
      exact ⟨rfl, rfl, rfl⟩⟩, rfl⟩

/-- What a workflow submitter does in its loop: it submits a task as a new job, waits for a
callback, or says goodbye. -/
inductive WorkflowDoes (s : Sim) (run : WorkflowRun) : Sim → Prop
  | send (t : Sim) (id : JobIdentifier) (j : Job) (run' : WorkflowRun) (i : Nat) :
      run'.workflow = run.workflow → run'.submittedTasks = run.submittedTasks →
      id.workloadName = run.workflow.name → j.state = .notSubmitted →
      Adds s t (some (⟨run.workflow.name, id⟩, j)) →
      WorkflowDoes s run (t.put
        (.jobSubmitted (run.workflow.name ++ "_submitter") [⟨run.workflow.name, id⟩])
        (some (.workflowSubmitter run' (.submitted id i))))
  | wait : run.submittedTasks ≠ [] →
      WorkflowDoes s run (s.block (.workflowSubmitter run .waiting))
  | bye : run.submittedTasks = [] → WorkflowDoes s run
      (s.put (.submitterBye (run.workflow.name ++ "_submitter") .jobSubmitter true) none)

theorem workflowLoop_effect {cfg : Config} {s s' : Sim} {run : WorkflowRun}
    (h : workflowLoop cfg s run = .ok s') : WorkflowDoes s run s' := by
  unfold workflowLoop at h
  simp only at h
  split at h
  · split at h
    · split at h
      · cases h
      · simp only [bind_eq_ok, Prod.exists, Except.ok.injEq] at h
        obtain ⟨t, id, hsubmit, rfl⟩ := h
        obtain ⟨hname, j, hadds, hstate⟩ := submitWorkflowTaskAsJob_effect hsubmit
        exact .send t id j _ _ rfl rfl hname hstate hadds
    · split at h
      · next hne =>
        rw [Except.ok.injEq] at h
        exact h ▸ .wait hne
      · cases h
  · split at h
    · next hne =>
      rw [Except.ok.injEq] at h
      exact h ▸ .wait hne
    · next hempty =>
      rw [Except.ok.injEq] at h
      exact h ▸ .bye (by simpa using hempty)

end Batsim
