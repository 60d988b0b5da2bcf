import Batsim.MachineSteps
import Batsim.StateTimes

/-!
The jobs that machines compute: only the starts and the ends of jobs change them.
-/

namespace Batsim

open Checked Sim

namespace Machines

/-- The jobs being computed by a machine. -/
def users (ms : Machines) (id : Nat) : List JobPtr :=
  ((ms.machines[id]?).map Machine.jobsBeingComputed).getD []

theorem users_of_machine {ms : Machines} {id : Nat} {m : Machine}
    (hm : ms.machines[id]? = some m) : ms.users id = m.jobsBeingComputed := by
  simp [users, hm]

/-- Replacing one machine by a machine with the same jobs. -/
theorem users_of_replaced {ms ms' : Machines} {id : Nat} {m n : Machine}
    (hm : ms.machines[id]? = some m) (hjobs : n.jobsBeingComputed = m.jobsBeingComputed)
    (h : ∀ j, ms'.machines[j]? = if j = id then some n else ms.machines[j]?) (j : Nat) :
    ms'.users j = ms.users j := by
  rw [users, users, h j]
  split
  · next hj => simp [hj, hm, hjobs]
  · rfl

theorem users_put {ms : Machines} {id : Nat} {m n : Machine} (hm : ms.machines[id]? = some m)
    (hjobs : n.jobsBeingComputed = m.jobsBeingComputed) (j : Nat) :
    (ms.put id n).users j = ms.users j :=
  users_of_replaced hm hjobs (fun _ => getElem?_put hm) j

theorem users_updateMachineState {ms ms' : Machines} {id : Nat} {newState : MachineState}
    {now : Date} (h : ms.updateMachineState id newState now = .ok ms') (j : Nat) :
    ms'.users j = ms.users j := by
  obtain ⟨m, hm, -, hreplaced⟩ := updateMachineState_cases h
  exact users_of_replaced (n := m.enter newState now) hm rfl hreplaced j

/-- A job starts on machines that exist. -/
theorem exists_machine_of_jobRun {ms ms' : Machines} {job : JobPtr} {used : IntervalSet}
    {now : Date} (h : ms.updateMachinesOnJobRun job used now = .ok ms') :
    ∀ j ∈ used, ∃ m, ms.machines[j]? = some m := by
  let I : List Nat → Machines → Prop := fun done t =>
    (∀ j ∈ done, ∃ m, ms.machines[j]? = some m) ∧
      ∀ (j : Nat) (m : Machine), t.machines[j]? = some m → ∃ m, ms.machines[j]? = some m
  suffices hloop : I used.elements ms' from hloop.1
  refine forEach_invariant I ⟨by simp, fun j m hm => ⟨m, hm⟩⟩ ?_ h
  intro done id rest t t' _ hdone hstep
  obtain ⟨m, hm, hput⟩ := runJobOn_cases hstep
  refine ⟨?_, fun j m' hm' => ?_⟩
  · simpa [or_imp, forall_and] using ⟨hdone.1, hdone.2 id m hm⟩
  · rw [hput j] at hm'
    split at hm'
    · next hj => exact hj ▸ hdone.2 id m hm
    · exact hdone.2 j m' hm'

/-- A job that starts is added to the users of each of its machines. -/
theorem users_updateMachinesOnJobRun {ms ms' : Machines} {job : JobPtr} {used : IntervalSet}
    {now : Date} (h : ms.updateMachinesOnJobRun job used now = .ok ms') (j : Nat) :
    ms'.users j = if j ∈ used ∧ job ∉ ms.users j then ms.users j ++ [job] else ms.users j := by
  have hmachine := updateMachinesOnJobRun_machine h j
  by_cases hj : j ∈ used
  · obtain ⟨m, hm⟩ := exists_machine_of_jobRun h j hj
    rw [if_pos hj, hm] at hmachine
    rw [users_of_machine hmachine, users_of_machine hm, Machine.onJobRun]
    by_cases hin : job ∈ m.jobsBeingComputed
    · simp [hin]
    · simp [hin, hj]
  · simp [users, hmachine, hj]

/-- A job that ends is taken out of the users of each of its machines. -/
theorem users_updateMachinesOnJobEnd {ms ms' : Machines} {job : JobPtr} {used : IntervalSet}
    {now : Date} (h : ms.updateMachinesOnJobEnd job used now = .ok ms') (j : Nat) :
    ms'.users j = if j ∈ used then (ms.users j).erase job else ms.users j := by
  have hmachine := updateMachinesOnJobEnd_machine h j
  have hjobs : ∀ m : Machine, (m.onJobEnd job now).jobsBeingComputed =
      m.jobsBeingComputed.erase job := by
    intro m
    unfold Machine.onJobEnd
    simp only
    split <;> rfl
  by_cases hj : j ∈ used
  · rw [if_pos hj] at hmachine
    cases hm : ms.machines[j]? with
    | none => simp [users, hmachine, hm]
    | some m => simp [users, hmachine, hm, hj, hjobs]
  · simp [users, hmachine, hj]

end Machines

open Machines

/-! ### Handlers -/

variable {cfg : Config} {s s' : Sim}

theorem users_switchMachine {newPstate : Int} {id : Nat}
    (h : switchMachine newPstate s id = .ok s') (j : Nat) :
    s'.machines.users j = s.machines.users j := by
  obtain ⟨m, hm, hcases⟩ := switchMachine_effect h
  have hlook : (m.lookUp newPstate).jobsBeingComputed = m.jobsBeingComputed := by
    simp [Machine.lookUp]
  obtain ⟨-, -, m', switches, done, hset, -, rfl⟩ | ⟨-, -, machines, hstate, rfl⟩ |
    ⟨-, -, machines, hstate, rfl⟩ | ⟨-, rfl⟩ := hcases
  · obtain ⟨-, rfl⟩ := Machine.setPstate_eq_ok.mp hset
    have hput := users_put (n := { m.lookUp newPstate with hostPstate := newPstate.toNat }) hm
      hlook j
    cases done <;> exact hput
  · exact (users_updateMachineState hstate j).trans (users_put hm hlook j)
  · exact (users_updateMachineState hstate j).trans (users_put hm hlook j)
  · exact users_put hm hlook j

/-- Handling a message changes no user of a machine. -/
theorem users_handleMessage {m : IPMessage} (h : handleMessage cfg s m = .ok s') (j : Nat) :
    s'.machines.users j = s.machines.users j := by
  cases hm : m.touchesMachines with
  | false =>
    obtain ⟨ts, hhandled⟩ := handleMessage_effect h
    rw [(hhandled.machines hm).machines]
  | true =>
    cases m with
    | pstateModification ids pstate =>
      obtain ⟨-, first, m, hm, hloop⟩ := serverOnPstateModification_effect h
      refine forEach_preserves (P := fun t : Sim => t.machines.users j = s.machines.users j)
        (users_put hm (by simp) j) ?_ hloop
      intro id _ t t' ht hstep
      exact (users_switchMachine hstep j).trans ht
    | eventOccurred name events =>
      refine forEach_preserves (P := fun t : Sim => t.machines.users j = s.machines.users j) rfl
        ?_ h
      intro e _ t t' ht hstep
      obtain ⟨u, hu, hlog⟩ := occur_effect hstep
      have husers : u.machines.users j = t.machines.users j := by
        obtain rfl | ⟨ids, -, hids⟩ | ⟨ids, -, hids⟩ := hu
        · rfl
        · refine forEach_unchanged (fun v : Sim => v.machines.users j) ?_ hids
          intro id _ v v' hmake
          obtain ⟨m, machines, -, -, hstate, rfl⟩ := makeAvailable_effect hmake
          exact users_updateMachineState hstate j
        · refine forEach_unchanged (fun v : Sim => v.machines.users j) ?_ hids
          intro id _ v v' hmake
          obtain ⟨m, machines, -, -, hstate, rfl⟩ := makeUnavailable_effect hmake
          exact users_updateMachineState hstate j
      obtain rfl | ⟨event, -, rfl⟩ := hlog
      · exact husers.trans ht
      · exact husers.trans ht
    | _ => cases hm

/-! ### Actors -/

/-- The actors that neither execute nor kill jobs change no user of a machine. -/
theorem users_bystander {o : Outcome} {t : Thread} (howned : s.workloads.Owned)
    (hserver : t.isServer = false) (hactor : t.actor? = none) (hkiller : t.isKiller = false)
    (h : runThread cfg s o t = .ok s') (j : Nat) :
    s'.machines.users j = s.machines.users j := by
  cases t with
  | serverProcess | serverCallback _ _ => cases hserver
  | executeJob _ | executing _ _ | cancelled _ | notified _ => cases hactor
  | killer _ _ => cases hkiller
  | requestReply message =>
    cases o with
    | reply r =>
      rw [applyReply_machines (s := { s with
        history := { s.history with replies := s.history.replies ++ [(r, [])] } }) howned
        (requestReply_effect h)]
    | _ => simp [runThread] at h
  | applyReply now todo => rw [applyReply_machines howned h]
  | waiter date =>
    simp only [runThread, Except.ok.injEq] at h
    subst h
    unfold waiterProcess
    split
    · rfl
    · rw [endOfWait_machines]
  | waiting date =>
    simp only [runThread, Except.ok.injEq] at h
    subst h
    rw [endOfWait_machines]
  | switchOn id pstate =>
    obtain ⟨m, sleep, hm, -, -, rfl⟩ := switchOnMachineProcess_effect h
    exact users_put (n := { m with hostPstate := sleep.switchOnVirtualPstate }) hm rfl j
  | switchOff id pstate =>
    obtain ⟨m, sleep, hm, -, -, rfl⟩ := switchOffMachineProcess_effect h
    exact users_put (n := { m with hostPstate := sleep.switchOffVirtualPstate }) hm rfl j
  | switchingOn id pstate =>
    obtain ⟨m, machines, hm, -, hstate, rfl⟩ := endOfSwitch_effect h
    exact (users_updateMachineState hstate j).trans
      (users_put (n := { m with hostPstate := pstate.toNat }) hm rfl j)
  | switchingOff id pstate =>
    obtain ⟨m, machines, hm, -, hstate, rfl⟩ := endOfSwitch_effect h
    exact (users_updateMachineState hstate j).trans
      (users_put (n := { m with hostPstate := pstate.toNat }) hm rfl j)
  | jobSubmitter w phase => rw [SubmitterKind.resume_machines _ h]
  | eventSubmitter l phase => rw [SubmitterKind.resume_machines _ h]
  | workflowSubmitter run phase => rw [workflowSubmitterProcess_machines h]

theorem users_start (cfg : Config) (j : Nat) : (start cfg).machines.users j = [] := by
  have hempty : ∀ m ∈ cfg.machines.machines, m.jobsBeingComputed = [] :=
    createMachines_forall (fun h m hm => Machine.create_invariant
      (P := fun m => m.jobsBeingComputed = []) (fun _ _ => rfl) (fun _ _ _ h => h) hm)
      cfg.machines_created
  have hstart : (start cfg).machines = cfg.machines := rfl
  cases hm : cfg.machines.machines[j]? with
  | none => simp [users, hstart, hm]
  | some m => rw [hstart, users_of_machine hm, hempty m (List.mem_of_getElem? hm)]

end Batsim
