import Batsim.Effects

/-!
What each handler of the server does when it does not stop the program.
-/

namespace Batsim

open Checked Sim

namespace Sim

/-- The bookkeeping for a submitter that wants to be called back. -/
def track (s : Sim) (submitter : Submitter) (p : JobPtr) : Sim :=
  if submitter.shouldBeCalledBack then
    { s with
      data := { s.data with originOfJobs := s.data.originOfJobs.insert p.id submitter }
      history := { s.history with tracked := s.history.tracked ++ [(p, submitter.mailbox)] } }
  else s

/-- The submission of one job. -/
def submit (s : Sim) (submitter : Submitter) (p : JobPtr) : Sim :=
  let s := (s.track submitter p).noteResubmission p
  (s.setJob p { s.job p with state := .submitted }).countSubmitted p

def noteCountedKilled (s : Sim) (p : JobPtr) : Sim :=
  { s with history := { s.history with countedKilled := s.history.countedKilled ++ [p] } }

/-- The event that tells the scheduler about the end of a job. -/
def completionOf (s : Sim) (p : JobPtr) : ProtocolEvent :=
  .jobCompleted p.id (jobStateToString (s.job p).state) (s.job p).allocation (s.job p).returnCode

/-- The end of a job that was running is counted and told to the scheduler. -/
def completeJob (s : Sim) (p : JobPtr) : Sim :=
  ((s.endRunning.countCompleted p).logged (s.completionOf p)).pushDeleted p.id

end Sim

theorem writeJob_eq_ok {s : Sim} {p : JobPtr} {u : Unit} :
    s.writeJob p = .ok u ↔ (s.job p).isComplete = true := by
  simp [writeJob]

/-! ### Submissions -/

theorem appendJobSubmitted_effect {cfg : Config} {s s' : Sim} {p : JobPtr}
    (h : appendJobSubmitted cfg s p = .ok s') :
    ∃ job profile, s' = s.logged (.jobSubmitted p.id job profile) := by
  obtain ⟨-, rfl⟩ := append_eq_ok.mp h
  exact ⟨_, _, rfl⟩

theorem submitJob_effect {cfg : Config} {submitter : Submitter} {s s' : Sim} {p : JobPtr}
    (h : submitJob cfg submitter s p = .ok s') :
    (submitter.shouldBeCalledBack = true → s.data.originOfJobs.lookup p.id = none) ∧
      ∃ job profile, s' = (s.submit submitter p).logged (.jobSubmitted p.id job profile) := by
  simp only [submitJob, bind_eq_ok] at h
  obtain ⟨t, ht, h⟩ := h
  have htrack : (submitter.shouldBeCalledBack = true → s.data.originOfJobs.lookup p.id = none) ∧
      t = s.track submitter p := by
    unfold track
    split at ht
    · next hcallback =>
      simp only [bind_eq_ok, xbtAssert_eq_ok, Except.ok.injEq] at ht
      obtain ⟨_, hnone, rfl⟩ := ht
      exact ⟨fun _ => hnone, by rw [if_pos hcallback]⟩
    · next hcallback =>
      rw [Except.ok.injEq] at ht
      exact ⟨fun h => absurd h hcallback, by rw [if_neg hcallback, ht]⟩
  obtain ⟨hnone, rfl⟩ := htrack
  exact ⟨hnone, appendJobSubmitted_effect h⟩

/-- All the jobs of the message are submitted, or, once the workflows are over, none. -/
theorem serverOnJobSubmitted_effect {cfg : Config} {s s' : Sim} {name : String}
    {jobs : List JobPtr} (h : serverOnJobSubmitted cfg s name jobs = .ok s') :
    s' = s ∨ ∃ submitter, s.data.submitters.lookup name = some submitter ∧
      forEach (submitJob cfg submitter) s jobs = .ok s' := by
  unfold serverOnJobSubmitted at h
  split at h
  · rw [Except.ok.injEq] at h
    exact .inl h.symm
  · split at h
    · cases h
    · next submitter hsubmitter => exact .inr ⟨submitter, hsubmitter, h⟩

theorem serverOnRegisterJob_effect {cfg : Config} {s s' : Sim} {p : JobPtr}
    (h : serverOnRegisterJob cfg s p = .ok s') :
    s' = s.countSubmitted p ∨
      ∃ job profile, s' = (s.countSubmitted p).logged (.jobSubmitted p.id job profile) := by
  simp only [serverOnRegisterJob] at h
  split at h
  · exact .inr (appendJobSubmitted_effect h)
  · rw [Except.ok.injEq] at h
    exact .inl h.symm

/-! ### Ends of jobs -/

theorem countJobCompletion_effect {s s' : Sim} {p : JobPtr}
    (h : countJobCompletion s p = .ok s') :
    0 < s.data.nbRunningJobs ∧ (s.job p).isComplete = true ∧ s' = s.completeJob p := by
  simp only [countJobCompletion, bind_eq_ok, xbtAssert_eq_ok, append_eq_ok, writeJob_eq_ok,
    Except.ok.injEq] at h
  obtain ⟨_, hrunning, _, -, _, ⟨-, rfl⟩, _, hcomplete, rfl⟩ := h
  refine ⟨?_, hcomplete, rfl⟩
  have hge : s.data.nbRunningJobs - 1 ≥ 0 := hrunning
  omega

theorem serverOnJobCompleted_effect {s s' : Sim} {p : JobPtr}
    (h : serverOnJobCompleted s p = .ok s') :
    (∃ submitter, s.data.originOfJobs.lookup p.id = some submitter ∧
      s' = { s with
        pool := s.pool.block (.serverCallback p submitter.mailbox)
        callbackBox := Function.update s.callbackBox submitter.mailbox
          (s.callbackBox submitter.mailbox ++ [p.id])
        history := { s.history with
          callbacks := s.history.callbacks ++ [(submitter.mailbox, p.id)] } }) ∨
    (s.data.originOfJobs.lookup p.id = none ∧ countJobCompletion s p = .ok s') := by
  unfold serverOnJobCompleted at h
  cases horigin : s.data.originOfJobs.lookup p.id with
  | some submitter =>
    simp only [horigin, Except.ok.injEq] at h
    exact .inl ⟨submitter, rfl, h.symm⟩
  | none =>
    simp only [horigin] at h
    exact .inr ⟨rfl, h⟩

theorem countKilledJob_effect {s s' : Sim} {id : JobIdentifier}
    (h : countKilledJob s id = .ok s') :
    ∃ p, s.jobAt id = .ok p ∧
      (((s.job p).state ≠ .completedKilled ∧ s' = s) ∨
        ((s.job p).state = .completedKilled ∧ 0 < s.data.nbRunningJobs ∧
          s' = (s.noteCountedKilled p).completeJob p)) := by
  simp only [countKilledJob, bind_eq_ok] at h
  obtain ⟨p, hp, h⟩ := h
  refine ⟨p, hp, ?_⟩
  split at h
  · next hkilled =>
    simp only [bind_eq_ok, xbtAssert_eq_ok, append_eq_ok, writeJob_eq_ok, Except.ok.injEq] at h
    obtain ⟨_, hrunning, _, -, _, ⟨-, rfl⟩, _, -, rfl⟩ := h
    refine .inr ⟨hkilled, ?_, rfl⟩
    have hge : s.data.nbRunningJobs - 1 ≥ 0 := hrunning
    omega
  · next hkilled =>
    rw [Except.ok.injEq] at h
    exact .inl ⟨hkilled, h.symm⟩

theorem serverOnKillingDone_effect {s s' : Sim} {ids : List JobIdentifier} {acknowledge : Bool}
    (h : serverOnKillingDone s ids acknowledge = .ok s') :
    ∃ t, forEach countKilledJob s ids = .ok t ∧
      s' = { (if acknowledge then t.logged (.jobKilled ids) else t) with
        data := { t.data with nbKillers := t.data.nbKillers - 1 } } := by
  simp only [serverOnKillingDone, bind_eq_ok, Except.ok.injEq] at h
  obtain ⟨t, ht, u, hu, rfl⟩ := h
  refine ⟨t, ht, ?_⟩
  cases acknowledge with
  | true =>
    obtain ⟨-, rfl⟩ := append_eq_ok.mp hu
    rfl
  | false =>
    simp only [Bool.false_eq_true, if_false, Except.ok.injEq] at hu
    subst hu
    rfl

theorem serverOnRejectJob_effect {s s' : Sim} {id : JobIdentifier}
    (h : serverOnRejectJob s id = .ok s') :
    ∃ p, s.jobAt id = .ok p ∧ (s.job p).state = .submitted ∧
      s' = ((s.setJob p { s.job p with state := .rejected }).countCompleted p).pushDeleted id := by
  simp only [serverOnRejectJob, bind_eq_ok, registeredJob_eq_ok, xbtAssert_eq_ok, writeJob_eq_ok,
    Except.ok.injEq] at h
  obtain ⟨p, hp, _, hsubmitted, _, -, rfl⟩ := h
  exact ⟨p, hp, hsubmitted, rfl⟩

theorem jobStateFromString_running {state : String}
    (h : jobStateFromString state = .ok .running) : state = "RUNNING" := by
  unfold jobStateFromString at h
  split at h
  · cases h
  split at h
  · cases h
  split at h
  · assumption
  repeat' split at h
  all_goals cases h

/-- The only change of state that goes through makes a submitted job run: the rows of the other
changes are written while the job does not have its new state yet. -/
theorem serverOnChangeJobState_effect {s s' : Sim} {id : JobIdentifier} {jobState : String}
    (h : serverOnChangeJobState s id jobState = .ok s') :
    ∃ p, s.jobAt id = .ok p ∧ (s.job p).state = .submitted ∧ jobState = "RUNNING" ∧
      s.data.nbRunningJobs + 1 ≤ s.data.nbSubmittedJobs ∧
      s' = (s.setJob p { s.job p with startingTime := s.clock, state := .running }).countRunning
        p := by
  simp only [serverOnChangeJobState, bind_eq_ok, registeredJob_eq_ok] at h
  obtain ⟨p, hp, newState, hstate, t, ht, h⟩ := h
  rw [Except.ok.injEq] at h
  subst h
  refine ⟨p, hp, ?_⟩
  cases hold : (s.job p).state with
  | submitted =>
    cases newState with
    | running =>
      simp only [hold, bind_eq_ok, xbtAssert_eq_ok, Except.ok.injEq] at ht
      obtain ⟨_, hle, rfl⟩ := ht
      exact ⟨rfl, jobStateFromString_running hstate, hle,
        by simp [setJob, countRunning, Function.update_idem]⟩
    | rejected =>
      simp only [hold, bind_eq_ok, xbtAssert_eq_ok, writeJob_eq_ok] at ht
      obtain ⟨_, -, _, hcomplete, -⟩ := ht
      simp [Job.isComplete, countCompleted, hold, JobState.isComplete] at hcomplete
    | _ => simp [hold] at ht
  | running =>
    have hnot : ∀ {t : Sim}, (t.job p).state = .running → (t.job p).isComplete = true → False := by
      intro t hrunning hcomplete
      simp [Job.isComplete, hrunning, JobState.isComplete] at hcomplete
    cases newState with
    | notSubmitted | submitted | running | rejected => simp [hold] at ht
    | _ =>
      simp only [hold, bind_eq_ok, xbtAssert_eq_ok, writeJob_eq_ok] at ht
      obtain ⟨_, -, _, -, _, hcomplete, -⟩ := ht
      refine (hnot ?_ hcomplete).elim
      simp [setJob, countCompleted, endRunning]
  | _ => simp [hold] at ht

/-! ### Starts and kills -/

/-- What the server asks of a machine of an allocation. -/
structure CanCompute (cfg : Config) (m : Machine) : Prop where
  state : m.state = .computing ∨ m.state = .idle
  pstate : cfg.energyUsed = true → m.pstateType m.hostPstate = .computationPstate
  free : m.hasRole Permissions.computeNode = true → cfg.allowComputeSharing = false →
    m.jobsBeingComputed = []

theorem checkAllocation_effect {cfg : Config} {ms : Machines} {p : JobPtr} {ids : IntervalSet}
    (h : checkAllocation cfg ms p ids = .ok ()) :
    ∀ id ∈ ids, ∃ m, ms.machines[id]? = some m ∧ CanCompute cfg m := by
  simp only [checkAllocation, bind_eq_ok] at h
  obtain ⟨_, hsharing, hcomputing⟩ := h
  intro id hid
  obtain ⟨_, _, hshare⟩ := exists_step_of_forEach hsharing id hid
  obtain ⟨_, _, hcompute⟩ := exists_step_of_forEach hcomputing id hid
  simp only [checkSharing, checkMachine, bind_eq_ok, Machines.at?_eq_ok,
    xbtAssert_eq_ok] at hshare hcompute
  obtain ⟨m, hm, _, hfree, -⟩ := hshare
  obtain ⟨m', hm', _, hstate, _, -, hpstate⟩ := hcompute
  cases hm.symm.trans hm'
  exact ⟨m, hm, hstate, hpstate, fun hrole hno => hfree ⟨hrole, hno⟩⟩

/-- The actor of a job is created. -/
def Sim.launch (s : Sim) (a : SchedulingAllocation) : Sim :=
  { (s.setJob a.job { s.job a.job with
      state := .running
      executionActors := (s.job a.job).executionActors ++ [s.nextActor] }).countRunning a.job with
    pool := s.pool.spawn (.executeJob ⟨s.nextActor, a⟩)
    nextActor := s.nextActor + 1 }

theorem serverOnExecuteJob_effect {cfg : Config} {s s' : Sim} {a : SchedulingAllocation}
    (h : serverOnExecuteJob cfg s a = .ok s') :
    (s.job a.job).state = .submitted ∧
      s.data.nbRunningJobs + 1 ≤ s.data.nbSubmittedJobs ∧
      checkAllocation cfg s.machines a.job a.machineIds = .ok () ∧ s' = s.launch a := by
  simp only [serverOnExecuteJob, bind_eq_ok, xbtAssert_eq_ok, Except.ok.injEq] at h
  obtain ⟨_, hsubmitted, _, hle, _, halloc, _, -, rfl⟩ := h
  refine ⟨hsubmitted, hle, halloc, ?_⟩
  simp [launch, setJob, countRunning, Function.update_idem]

theorem requestKill_effect {acc acc' : Sim × List JobIdentifier} {id : JobIdentifier}
    (h : requestKill acc id = .ok acc') :
    ∃ p, acc.1.jobAt id = .ok p ∧
      (((acc.1.job p).killRequested = true ∧ acc' = acc) ∨
        ((acc.1.job p).killRequested = false ∧
          ((acc.1.job p).state = .running ∨ (acc.1.job p).isComplete = true) ∧
          acc' = (acc.1.setJob p { acc.1.job p with killRequested := true }, acc.2 ++ [id]))) := by
  obtain ⟨s, toKill⟩ := acc
  simp only [requestKill, bind_eq_ok, registeredJob_eq_ok] at h
  obtain ⟨p, hp, h⟩ := h
  refine ⟨p, hp, ?_⟩
  split at h
  · next hrequested =>
    rw [Except.ok.injEq] at h
    exact .inl ⟨hrequested, h.symm⟩
  · next hrequested =>
    simp only [bind_eq_ok, xbtAssert_eq_ok, Except.ok.injEq] at h
    obtain ⟨_, hstate, rfl⟩ := h
    exact .inr ⟨by simpa using hrequested, hstate, rfl⟩

/-- A killer is created, if there is something to kill. -/
def Sim.launchKiller (s : Sim) (toKill : List JobIdentifier) : Sim :=
  if toKill = [] then s
  else { s with
    pool := s.pool.spawn (.killer toKill true)
    data := { s.data with nbKillers := s.data.nbKillers + 1 } }

def Sim.noteKillRequest (s : Sim) (ids toKill : List JobIdentifier) : Sim :=
  { s with history := { s.history with
      killRequests := s.history.killRequests ++ [(ids, toKill)] } }

theorem serverOnKillJobs_effect {s s' : Sim} {ids : List JobIdentifier}
    (h : serverOnKillJobs s ids = .ok s') :
    ∃ t toKill, forEach requestKill (s, []) ids = .ok (t, toKill) ∧
      s' = (t.noteKillRequest ids toKill).launchKiller toKill := by
  simp only [serverOnKillJobs, bind_eq_ok, Except.ok.injEq, Prod.exists] at h
  obtain ⟨t, toKill, ht, rfl⟩ := h
  refine ⟨t, toKill, ht, ?_⟩
  cases toKill <;> simp [launchKiller, noteKillRequest]

theorem serverOnCallMeLater_effect {s s' : Sim} {date : Date}
    (h : serverOnCallMeLater s date = .ok s') :
    s.clock < date ∧ s' = { s with
      pool := s.pool.spawn (.waiter date)
      data := { s.data with nbWaiters := s.data.nbWaiters + 1 } } := by
  simp only [serverOnCallMeLater, bind_eq_ok, xbtAssert_eq_ok, Except.ok.injEq] at h
  obtain ⟨_, hdate, rfl⟩ := h
  exact ⟨hdate, rfl⟩

/-! ### Machines -/

/-- The machines, and what is known of their availability, are replaced. -/
def Sim.setMachines (s : Sim) (machines : Machines) (unavailable : List Nat) : Sim :=
  { s with machines := machines, history := { s.history with unavailable := unavailable } }

theorem makeUnavailable_effect {s s' : Sim} {id : Nat} (h : makeUnavailable s id = .ok s') :
    ∃ m machines, s.machines.machines[id]? = some m ∧ m.state ≠ .unavailable ∧
      s.machines.updateMachineState id .unavailable s.clock = .ok machines ∧
      s' = s.setMachines machines (id :: s.history.unavailable) := by
  simp only [makeUnavailable, bind_eq_ok, Machines.at?_eq_ok, xbtAssert_eq_ok,
    Except.ok.injEq] at h
  obtain ⟨m, hm, _, hstate, machines, hmachines, rfl⟩ := h
  exact ⟨m, machines, hm, hstate, hmachines, rfl⟩

theorem makeAvailable_effect {s s' : Sim} {id : Nat} (h : makeAvailable s id = .ok s') :
    ∃ m machines, s.machines.machines[id]? = some m ∧ m.state = .unavailable ∧
      s.machines.updateMachineState id (if m.jobsBeingComputed = [] then .idle else .computing)
        s.clock = .ok machines ∧
      s' = s.setMachines machines (s.history.unavailable.filter (· ≠ id)) := by
  simp only [makeAvailable, bind_eq_ok, Machines.at?_eq_ok, xbtAssert_eq_ok,
    Except.ok.injEq] at h
  obtain ⟨m, hm, _, hstate, machines, hmachines, rfl⟩ := h
  exact ⟨m, machines, hm, hstate, hmachines, rfl⟩

/-- One turn of the loop of `server_on_event_occurred`. -/
def occur (s : Sim) (e : ExternalEvent) : Except String Sim :=
  match e.data with
  | .machineAvailable ids => serverOnEventMachineAvailable s ids
  | .machineUnavailable ids => serverOnEventMachineUnavailable s ids
  | .generic json => s.append (.notifyGenericEvent json)

theorem serverOnEventOccurred_eq (s : Sim) (events : List ExternalEvent) :
    serverOnEventOccurred s events = forEach occur s events := rfl

/-- What an external event does: it changes machines one after the other, then it is told. -/
theorem occur_effect {s s' : Sim} {e : ExternalEvent} (h : occur s e = .ok s') :
    ∃ t, (t = s ∨ (∃ ids, e.data = .machineAvailable ids ∧
          forEach makeAvailable s ids.elements = .ok t) ∨
        ∃ ids, e.data = .machineUnavailable ids ∧
          forEach makeUnavailable s ids.elements = .ok t) ∧
      (s' = t ∨ ∃ event : ProtocolEvent, event.isExternal = true ∧ s' = t.logged event) := by
  unfold occur at h
  cases he : e.data with
  | machineAvailable ids =>
    simp only [he, serverOnEventMachineAvailable] at h
    split at h
    · simp only [bind_eq_ok, append_eq_ok] at h
      obtain ⟨t, ht, -, rfl⟩ := h
      exact ⟨t, .inr (.inl ⟨ids, rfl, ht⟩), .inr ⟨_, rfl, rfl⟩⟩
    · rw [Except.ok.injEq] at h
      exact ⟨s, .inl rfl, .inl h.symm⟩
  | machineUnavailable ids =>
    simp only [he, serverOnEventMachineUnavailable] at h
    split at h
    · simp only [bind_eq_ok, append_eq_ok] at h
      obtain ⟨t, ht, -, rfl⟩ := h
      exact ⟨t, .inr (.inr ⟨ids, rfl, ht⟩), .inr ⟨_, rfl, rfl⟩⟩
    · rw [Except.ok.injEq] at h
      exact ⟨s, .inl rfl, .inl h.symm⟩
  | generic json =>
    simp only [he] at h
    obtain ⟨-, rfl⟩ := append_eq_ok.mp h
    exact ⟨s, .inl rfl, .inr ⟨_, rfl, rfl⟩⟩

/-- The pool, the machines and the switches are replaced. -/
def Sim.setSwitches (s : Sim) (machines : Machines) (switches : CurrentSwitches) : Sim :=
  { s with machines := machines, currentSwitches := switches }

/-- An actor that switches a machine is created. -/
def Sim.launchSwitch (s : Sim) (machines : Machines) (t : Thread) : Sim :=
  { s with
    machines := machines
    pool := s.pool.spawn t
    data := { s.data with nbSwitchingMachines := s.data.nbSwitchingMachines + 1 } }

/-- The event that acknowledges a request of switches, if one is over. -/
def Sim.acknowledge (s : Sim) (pstate : Int) : Option IntervalSet → Sim
  | some all => s.logged (.resourceStateChanged all (toString pstate))
  | none => s

/-- The machine of a turn of `server_on_pstate_modification`, once both pstates are looked up. -/
def Machine.lookUp (m : Machine) (newPstate : Int) : Machine :=
  (m.touchPstate (m.hostPstate : Int)).touchPstate newPstate

/-- What a turn does to its machine `m`: a change of pstate at once, the start of a switch off,
the start of a switch on, or nothing. -/
theorem switchMachine_effect {newPstate : Int} {s s' : Sim} {id : Nat}
    (h : switchMachine newPstate s id = .ok s') :
    ∃ m, s.machines.machines[id]? = some m ∧
      ((m.pstateType m.hostPstate = .computationPstate ∧
          m.pstateType newPstate = .computationPstate ∧ ∃ m' switches done,
          (m.lookUp newPstate).setPstate newPstate = .ok m' ∧
          s.currentSwitches.markSwitchAsDone id newPstate = .ok (switches, done) ∧
          s' = (s.setSwitches (s.machines.put id m') switches).acknowledge newPstate done) ∨
        (m.pstateType m.hostPstate = .computationPstate ∧
          m.pstateType newPstate = .sleepPstate ∧ ∃ machines,
          (s.machines.put id (m.lookUp newPstate)).updateMachineState id
            .transitingFromComputingToSleeping s.clock = .ok machines ∧
          s' = s.launchSwitch machines (.switchOff id newPstate)) ∨
        (m.pstateType m.hostPstate = .sleepPstate ∧
          m.pstateType newPstate = .computationPstate ∧ ∃ machines,
          (s.machines.put id (m.lookUp newPstate)).updateMachineState id
            .transitingFromSleepingToComputing s.clock = .ok machines ∧
          s' = s.launchSwitch machines (.switchOn id newPstate)) ∨
        ((m.pstateType m.hostPstate = .transitionVirtualPstate ∨
            m.pstateType newPstate = .transitionVirtualPstate) ∧
          s' = s.setSwitches (s.machines.put id (m.lookUp newPstate)) s.currentSwitches)) := by
  simp only [switchMachine, bind_eq_ok, Machines.at?_eq_ok, Machine.pstateType_touchPstate] at h
  obtain ⟨m, hm, h⟩ := h
  have hput : ∀ m₁ m₂ : Machine, (s.machines.put id m₁).put id m₂ = s.machines.put id m₂ := by
    intro m₁ m₂
    simp [Machines.put]
  refine ⟨m, hm, ?_⟩
  cases hcurr : m.pstateType m.hostPstate with
  | computationPstate =>
    cases hnew : m.pstateType newPstate with
    | computationPstate =>
      simp only [hcurr, hnew, bind_eq_ok] at h
      obtain ⟨m', hm', ⟨switches, done⟩, hmark, h⟩ := h
      refine .inl ⟨rfl, rfl, m', switches, done, hm', hmark, ?_⟩
      rw [hput] at h
      cases done with
      | none =>
        rw [Except.ok.injEq] at h
        exact h.symm
      | some all =>
        obtain ⟨-, rfl⟩ := append_eq_ok.mp h
        rfl
    | sleepPstate =>
      simp only [hcurr, hnew, bind_eq_ok, Except.ok.injEq] at h
      obtain ⟨machines, hmachines, rfl⟩ := h
      exact .inr (.inl ⟨rfl, rfl, machines, hmachines, rfl⟩)
    | transitionVirtualPstate =>
      simp only [hcurr, hnew, Except.ok.injEq] at h
      exact .inr (.inr (.inr ⟨.inr rfl, h.symm⟩))
  | sleepPstate =>
    simp only [hcurr, bind_eq_ok, xbtAssert_eq_ok, Except.ok.injEq] at h
    obtain ⟨_, hnew, machines, hmachines, rfl⟩ := h
    exact .inr (.inr (.inl ⟨rfl, hnew, machines, hmachines, rfl⟩))
  | transitionVirtualPstate =>
    simp only [hcurr, Except.ok.injEq] at h
    exact .inr (.inr (.inr ⟨.inl rfl, h.symm⟩))

/-- The state in which the loop of `server_on_pstate_modification` starts. -/
def Sim.requestSwitches (s : Sim) (machines : Machines) (ids : IntervalSet) (newPstate : Int) :
    Sim :=
  { s with
    machines := machines
    currentSwitches := s.currentSwitches.addSwitch ids newPstate
    nbGroupedSwitches := s.nbGroupedSwitches + 1
    nbMachineSwitches := s.nbMachineSwitches + ids.size }

theorem serverOnPstateModification_effect {cfg : Config} {s s' : Sim} {ids : IntervalSet}
    {newPstate : Int} (h : serverOnPstateModification cfg s ids newPstate = .ok s') :
    cfg.energyUsed = true ∧ ∃ first m, s.machines.machines[first]? = some m ∧
      forEach (switchMachine newPstate)
        (s.requestSwitches (s.machines.put first (m.touchPstate newPstate)) ids newPstate)
        ids.elements = .ok s' := by
  simp only [serverOnPstateModification, bind_eq_ok, xbtAssert_eq_ok] at h
  obtain ⟨_, henergy, h⟩ := h
  refine ⟨henergy, ?_⟩
  generalize hids : ids.elements = elements at h
  cases elements with
  | nil => cases h
  | cons first rest =>
    simp only [bind_eq_ok, Machines.at?_eq_ok] at h
    obtain ⟨m, hm, h⟩ := h
    exact ⟨first, m, hm, h⟩

/-- The end of a switch: the machine has the pstate, and its switch is marked as done. -/
theorem serverOnSwitched_cases {s s' : Sim} {id : Nat} {newPstate : Int}
    (h : serverOnSwitched s id newPstate = .ok s') :
    ∃ m switches done, s.machines.machines[id]? = some m ∧ (m.hostPstate : Int) = newPstate ∧
      s.currentSwitches.markSwitchAsDone id newPstate = .ok (switches, done) ∧
      s' = { (({ s with currentSwitches := switches } : Sim).acknowledge newPstate done) with
        data := { s.data with nbSwitchingMachines := s.data.nbSwitchingMachines - 1 } } := by
  simp only [serverOnSwitched, bind_eq_ok, Machines.at?_eq_ok, xbtAssert_eq_ok,
    Except.ok.injEq] at h
  obtain ⟨m, hm, _, hpstate, ⟨switches, done⟩, hmark, t, ht, rfl⟩ := h
  refine ⟨m, switches, done, hm, hpstate, hmark, ?_⟩
  cases done with
  | none =>
    simp only [Except.ok.injEq] at ht
    subst ht
    rfl
  | some all =>
    obtain ⟨-, rfl⟩ := append_eq_ok.mp ht
    rfl

end Batsim
