import Batsim.AppendedEvents

/-!
The machines after a run of an actor, exactly: a job starts, jobs end, or a switch starts or ends.
-/

namespace Batsim

open Checked Sim StepSystem

/-! ### The ends of jobs -/

namespace Machine

/-- A machine once some jobs have ended on it. -/
def endJobs (now : Date) (m : Machine) (jobs : List JobPtr) : Machine :=
  jobs.foldl (fun m job => m.onJobEnd job now) m

section endJobs

variable (now : Date) (m : Machine) (jobs : List JobPtr)

/-- A property that the end of a job keeps. -/
theorem endJobs_preserves {P : Machine → Prop} (hm : P m)
    (hend : ∀ m job, P m → P (m.onJobEnd job now)) : P (m.endJobs now jobs) := by
  unfold endJobs
  induction jobs generalizing m with
  | nil => exact hm
  | cons job jobs ih => exact ih _ (hend m job hm)

/-- A machine becomes idle only when its last job ends, and it never becomes anything else. -/
theorem onJobEnd_state (job : JobPtr) : (m.onJobEnd job now).state = m.state ∨
    (m.onJobEnd job now).state = .idle ∧ (m.onJobEnd job now).jobsBeingComputed = [] ∧
      m.state ≠ .unavailable := by
  unfold onJobEnd
  simp only
  split
  · next h => exact .inr ⟨rfl, h.1, h.2⟩
  · exact .inl rfl

theorem onJobEnd_pstates (job : JobPtr) : (m.onJobEnd job now).pstates = m.pstates ∧
    (m.onJobEnd job now).sleepPstates = m.sleepPstates ∧
    (m.onJobEnd job now).hostPstate = m.hostPstate := by
  unfold onJobEnd
  simp only
  split <;> exact ⟨rfl, rfl, rfl⟩

theorem endJobs_state : (m.endJobs now jobs).state = m.state ∨
    (m.endJobs now jobs).state = .idle ∧ m.state ≠ .unavailable := by
  refine endJobs_preserves (P := fun t => t.state = m.state ∨ t.state = .idle ∧
    m.state ≠ .unavailable) now m jobs (.inl rfl) ?_
  intro t job h
  obtain heq | ⟨hidle, -, hstate⟩ := onJobEnd_state now t job
  · rw [heq]
    exact h
  · obtain hsame | hother := h
    · exact .inr ⟨hidle, hsame ▸ hstate⟩
    · exact .inr ⟨hidle, hother.2⟩

theorem endJobs_unavailable (h : m.state = .unavailable) :
    (m.endJobs now jobs).state = .unavailable := by
  obtain heq | ⟨-, hne⟩ := endJobs_state now m jobs
  · rw [heq, h]
  · exact absurd h hne

end endJobs

end Machine

/-- Some jobs end, each on its own machines. -/
def Machines.endJobs (now : Date) (ms : Machines) (ends : List (JobPtr × IntervalSet)) :
    Except String Machines :=
  forEach (fun ms e => ms.updateMachinesOnJobEnd e.1 e.2 now) ms ends

theorem Machines.endJobs_machine {now : Date} {ms ms' : Machines}
    {ends : List (JobPtr × IntervalSet)} (h : ms.endJobs now ends = .ok ms') (id : Nat) :
    ∃ jobs, ms'.machines[id]? = (ms.machines[id]?).map fun m => m.endJobs now jobs := by
  refine forEach_preserves (P := fun t : Machines => ∃ jobs,
    t.machines[id]? = (ms.machines[id]?).map fun m => m.endJobs now jobs) ⟨[], ?_⟩ ?_ h
  · simp [Machine.endJobs]
  · rintro e - t t' ⟨jobs, ht⟩ hstep
    rw [updateMachinesOnJobEnd_machine hstep id]
    split
    · refine ⟨jobs ++ [e.1], ?_⟩
      rw [ht, Option.map_map]
      congr 1
      funext m
      simp [Machine.endJobs]
    · exact ⟨jobs, ht⟩

/-! ### The runs of the actors -/

/-- The machines `ms'` after a run of an actor. -/
inductive Thread.MakesMachines (now : Date) (ms : Machines) : Thread → Machines → Prop
  | ends {t : Thread} {ends : List (JobPtr × IntervalSet)} {ms' : Machines} :
      ms.endJobs now ends = .ok ms' → MakesMachines now ms t ms'
  | starts {a : ExecutionActor} {ends : List (JobPtr × IntervalSet)} {started ms' : Machines} :
      ms.updateMachinesOnJobRun a.allocation.job a.allocation.machineIds now = .ok started →
      started.endJobs now ends = .ok ms' → MakesMachines now ms (.executeJob a) ms'
  | switchOn {id : Nat} {pstate : Int} {m m' : Machine} {sleep : SleepPState} :
      ms.machines[id]? = some m →
      CanSwitch m pstate .transitingFromSleepingToComputing .computationPstate →
      m.sleepPstates.lookup (m.hostPstate : Int) = some sleep →
      m.setPstate sleep.switchOnVirtualPstate = .ok m' →
      MakesMachines now ms (.switchOn id pstate) (ms.put id m')
  | switchOff {id : Nat} {pstate : Int} {m m' : Machine} {sleep : SleepPState} :
      ms.machines[id]? = some m →
      CanSwitch m pstate .transitingFromComputingToSleeping .sleepPstate →
      m.sleepPstates.lookup pstate = some sleep →
      m.setPstate sleep.switchOffVirtualPstate = .ok m' →
      MakesMachines now ms (.switchOff id pstate) (ms.put id m')
  | switchedOn {id : Nat} {pstate : Int} {m m' : Machine} {ms' : Machines} :
      ms.machines[id]? = some m → m.setPstate pstate = .ok m' →
      (ms.put id m').updateMachineState id .idle now = .ok ms' →
      MakesMachines now ms (.switchingOn id pstate) ms'
  | switchedOff {id : Nat} {pstate : Int} {m m' : Machine} {ms' : Machines} :
      ms.machines[id]? = some m → m.setPstate pstate = .ok m' →
      (ms.put id m').updateMachineState id .sleeping now = .ok ms' →
      MakesMachines now ms (.switchingOff id pstate) ms'

theorem Thread.MakesMachines.of_eq {now : Date} {ms ms' : Machines} {t : Thread} (h : ms' = ms) :
    t.MakesMachines now ms ms' :=
  @ends now ms t [] ms' (by rw [h]; rfl)

variable {cfg : Config} {s s' : Sim}

theorem Adds.machines {new : Option (JobPtr × Job)} (h : Adds s s' new) :
    s'.machines = s.machines := by
  rw [h.eq]
  cases new <;> rfl

theorem sendAtTime_machines (now : Date) (s : Sim) (date : Date) (m : IPMessage)
    (rest : List ReplyItem) : (sendAtTime now s date m rest).machines = s.machines := by
  unfold sendAtTime Sim.noteSent
  split
  · rfl
  · split <;> rfl

theorem applyReply_machines {now : Date} {todo : List ReplyItem} (howned : s.workloads.Owned)
    (h : applyReply cfg now s todo = .ok s') : s'.machines = s.machines := by
  obtain ⟨rfl, -⟩ | ⟨_, _, tail, t, new, date, m, ms, -, -, -, hadds, -, rfl⟩ :=
    applyReply_effect howned h
  · rfl
  · rw [sendAtTime_machines]
    exact hadds.machines

theorem endOfWait_machines (s : Sim) : (endOfWait s).machines = s.machines := by
  unfold endOfWait
  split <;> rfl

theorem workflowLoop_machines {run : WorkflowRun} (h : workflowLoop cfg s run = .ok s') :
    s'.machines = s.machines := by
  have hdoes := workflowLoop_effect h
  cases hdoes with
  | send t id j run' i _ _ _ _ hadds => exact hadds.machines
  | wait _ => rfl
  | bye _ => rfl

theorem SubmitterKind.resume_machines {α : Type} (k : SubmitterKind α) {hello : IPMessage}
    {items : Except String (List α)} {phase : SubmitterPhase α}
    (h : k.resume s hello items phase = .ok s') : s'.machines = s.machines := by
  have hdoes : ∀ {list : List α}, k.Does s list s' → s'.machines = s.machines := by
    intro list hdoes
    cases hdoes <;> rfl
  obtain ⟨-, rfl⟩ | ⟨-, list, -, hd⟩ | ⟨-, -, hd⟩ := k.resume_effect h
  · rfl
  · exact hdoes hd
  · exact hdoes hd

theorem workflowSubmitterProcess_machines {run : WorkflowRun} {phase : WorkflowPhase}
    (h : workflowSubmitterProcess cfg s run phase = .ok s') : s'.machines = s.machines := by
  cases phase with
  | started | greeted =>
    simp only [workflowSubmitterProcess, Except.ok.injEq] at h
    rw [← h]
    rfl
  | asleep date => exact workflowLoop_machines h
  | submitted id i =>
    have hloop := workflowLoop_machines h
    exact hloop
  | waiting =>
    simp only [workflowSubmitterProcess] at h
    repeat' split at h
    any_goals cases h
    have hloop := workflowLoop_machines h
    exact hloop

theorem finishJob_endJobs {a : ExecutionActor} {returnCode : Int}
    (h : finishJob s a returnCode = .ok s') :
    ∃ ends, s.machines.endJobs s.clock ends = .ok s'.machines := by
  obtain ⟨j, machines, hmachines, -, -, -, -, hs'⟩ := finishJob_effect h
  have hends : s.machines.endJobs s.clock [(a.allocation.job, a.allocation.machineIds)] =
      .ok machines := by
    simp [Machines.endJobs, forEach, hmachines]
  obtain ⟨-, -, rfl⟩ | ⟨-, -, rfl⟩ := hs'
  · exact ⟨_, hends⟩
  · exact ⟨_, hends⟩

theorem executeTask_endJobs {a : ExecutionActor} {t : TaskStep}
    (h : executeTask s a t = .ok s') :
    ∃ ends, s.machines.endJobs s.clock ends = .ok s'.machines := by
  obtain ⟨l, -, rfl⟩ | ⟨message, -, rfl⟩ | ⟨returnCode, -, hrun⟩ := executeTask_effect h
  · exact ⟨[], rfl⟩
  · exact ⟨[], rfl⟩
  · exact finishJob_endJobs hrun

theorem killJobs_endJobs {ids : List JobIdentifier} (h : forEach killJob s ids = .ok s') :
    s'.clock = s.clock ∧ ∃ ends, s.machines.endJobs s.clock ends = .ok s'.machines := by
  refine forEach_preserves (P := fun t : Sim => t.clock = s.clock ∧
    ∃ ends, s.machines.endJobs s.clock ends = .ok t.machines) ⟨rfl, [], rfl⟩ ?_ h
  rintro id - t t' ⟨hclock, ends, hends⟩ hstep
  obtain ⟨p, -, -, -, -, ⟨-, rfl⟩ | ⟨n, -, -, ⟨-, rfl⟩ |
    ⟨-, -, j, machines, hmachines, -, -, -, -, -, rfl⟩⟩⟩ := killJob_effect hstep
  · exact ⟨hclock, ends, hends⟩
  · exact ⟨hclock, ends, hends⟩
  · refine ⟨hclock, ends ++ [(p, (t.job p).allocation)], ?_⟩
    rw [hclock] at hmachines
    rw [Machines.endJobs, forEach_append]
    refine bind_eq_ok.mpr ⟨t.machines, hends, ?_⟩
    simp [forEach, hmachines]
    rfl

theorem setHostPstate_put {id : Nat} {pstate : Int} (h : setHostPstate s id pstate = .ok s') :
    ∃ m m', s.machines.machines[id]? = some m ∧ m.setPstate pstate = .ok m' ∧
      s' = { s with machines := s.machines.put id m' } := by
  simp only [setHostPstate, bind_eq_ok, Machines.at?_eq_ok, Except.ok.injEq] at h
  obtain ⟨m, hm, m', hset, rfl⟩ := h
  exact ⟨m, m', hm, hset, rfl⟩

theorem switchOnMachineProcess_makes {id : Nat} {pstate : Int}
    (h : switchOnMachineProcess s id pstate = .ok s') :
    (Thread.switchOn id pstate).MakesMachines s.clock s.machines s'.machines := by
  simp only [switchOnMachineProcess, bind_eq_ok] at h
  obtain ⟨m, hcheck, h⟩ := h
  obtain ⟨hm, hcan⟩ := checkSwitch_effect hcheck
  cases hsleep : m.sleepPstates.lookup (m.hostPstate : Int) with
  | none => simp [hsleep] at h
  | some sleep =>
    simp only [hsleep, bind_eq_ok, Except.ok.injEq] at h
    obtain ⟨t, ht, rfl⟩ := h
    obtain ⟨m₀, m', hm₀, hset, rfl⟩ := setHostPstate_put ht
    cases hm.symm.trans hm₀
    exact .switchOn hm hcan hsleep hset

theorem switchOffMachineProcess_makes {id : Nat} {pstate : Int}
    (h : switchOffMachineProcess s id pstate = .ok s') :
    (Thread.switchOff id pstate).MakesMachines s.clock s.machines s'.machines := by
  simp only [switchOffMachineProcess, bind_eq_ok] at h
  obtain ⟨m, hcheck, h⟩ := h
  obtain ⟨hm, hcan⟩ := checkSwitch_effect hcheck
  cases hsleep : m.sleepPstates.lookup pstate with
  | none => simp [hsleep] at h
  | some sleep =>
    simp only [hsleep, bind_eq_ok, Except.ok.injEq] at h
    obtain ⟨t, ht, rfl⟩ := h
    obtain ⟨m₀, m', hm₀, hset, rfl⟩ := setHostPstate_put ht
    cases hm.symm.trans hm₀
    exact .switchOff hm hcan hsleep hset

theorem endOfSwitch_put {id : Nat} {pstate : Int} {newState : MachineState} {message : IPMessage}
    (h : endOfSwitch s id pstate newState message = .ok s') :
    ∃ m m', s.machines.machines[id]? = some m ∧ m.setPstate pstate = .ok m' ∧
      (s.machines.put id m').updateMachineState id newState s.clock = .ok s'.machines := by
  simp only [endOfSwitch, bind_eq_ok, Except.ok.injEq] at h
  obtain ⟨t, ht, machines, hmachines, rfl⟩ := h
  obtain ⟨m, m', hm, hset, rfl⟩ := setHostPstate_put ht
  exact ⟨m, m', hm, hset, hmachines⟩

/-- What a run of an actor does to the machines. -/
theorem runThread_makesMachines {o : Outcome} {t : Thread} (howned : s.workloads.Owned)
    (ht : t.isServer = false) (h : runThread cfg s o t = .ok s') :
    t.MakesMachines s.clock s.machines s'.machines := by
  cases t with
  | serverProcess => cases ht
  | serverCallback p mailbox => cases ht
  | requestReply message =>
    cases o with
    | reply r =>
      exact .of_eq (applyReply_machines (s := { s with
        history := { s.history with replies := s.history.replies ++ [(r, [])] } }) howned
        (requestReply_effect h))
    | _ => simp [runThread] at h
  | applyReply now todo => exact .of_eq (applyReply_machines howned h)
  | executeJob a =>
    cases o with
    | task step =>
      simp only [runThread, bind_eq_ok] at h
      obtain ⟨u, hu, h⟩ := h
      obtain ⟨machines, hmachines, rfl⟩ := startJob_effect hu
      obtain ⟨ends, hends⟩ := executeTask_endJobs h
      exact .starts hmachines hends
    | _ => simp [runThread] at h
  | executing a l =>
    cases o with
    | task step =>
      obtain ⟨ends, hends⟩ := executeTask_endJobs h
      exact .ends hends
    | _ => simp [runThread] at h
  | cancelled a =>
    obtain ⟨ends, hends⟩ := finishJob_endJobs h
    exact .ends hends
  | notified a =>
    simp only [runThread, Except.ok.injEq] at h
    exact .of_eq (h ▸ rfl)
  | killer ids acknowledge =>
    obtain ⟨u, hu, rfl⟩ := killerProcess_effect h
    obtain ⟨-, ends, hends⟩ := killJobs_endJobs hu
    exact .ends hends
  | waiter date =>
    simp only [runThread, Except.ok.injEq] at h
    subst h
    refine .of_eq ?_
    unfold waiterProcess
    split
    · rfl
    · exact endOfWait_machines s
  | waiting date =>
    simp only [runThread, Except.ok.injEq] at h
    exact .of_eq (h ▸ endOfWait_machines s)
  | switchOn id pstate => exact switchOnMachineProcess_makes h
  | switchOff id pstate => exact switchOffMachineProcess_makes h
  | switchingOn id pstate =>
    obtain ⟨m, m', hm, hset, hmachines⟩ := endOfSwitch_put h
    exact .switchedOn hm hset hmachines
  | switchingOff id pstate =>
    obtain ⟨m, m', hm, hset, hmachines⟩ := endOfSwitch_put h
    exact .switchedOff hm hset hmachines
  | jobSubmitter w phase => exact .of_eq (SubmitterKind.resume_machines _ h)
  | eventSubmitter l phase => exact .of_eq (SubmitterKind.resume_machines _ h)
  | workflowSubmitter run phase => exact .of_eq (workflowSubmitterProcess_machines h)

end Batsim
