import Mathlib.Algebra.BigOperators.Group.List.Basic
import Batsim.MachineChanges
import Batsim.Platform

/-!
The time that the machines spend in each state, and what is reported of it at the end.
-/

namespace Batsim

open Checked Sim StepSystem

/-- The vector `machine_states` of `JobsTracer::finalize` -/
def machineStates : List MachineState :=
  [.sleeping, .idle, .computing, .transitingFromSleepingToComputing,
    .transitingFromComputingToSleeping, .unavailable]

/-- What `JobsTracer::finalize` puts in its output map for the states of the machines, before the
conversion to text. -/
def machineTimes (ms : Machines) : List (String × Date) :=
  machineStates.map fun state =>
    ("time_" ++ machineStateToString state,
      (ms.machines.map fun m => m.timeSpentInEachState state).sum)

/-- The state of a machine. -/
def Sim.machineState (s : Sim) (id : Nat) : Option MachineState :=
  (s.machines.machines[id]?).map Machine.state

/-- How long a machine was in a state, over a run with the latest state first. -/
def timeIn (id : Nat) (state : MachineState) : List Sim → Date
  | [] => 0
  | [_] => 0
  | s' :: s :: past =>
    timeIn id state (s :: past) + if s.machineState id = some state then s'.clock - s.clock else 0

namespace Machine

/-- What `time_spent_in_each_state` has not been told yet. -/
def pending (m : Machine) (state : MachineState) (now : Date) : Date :=
  if m.state = state then now - m.lastStateChangeDate else 0

/-- The time spent in a state, with what is pending. -/
def timeUntil (m : Machine) (state : MachineState) (now : Date) : Date :=
  m.timeSpentInEachState state + m.pending state now

variable {m m' : Machine} {state : MachineState} {now : Date}

theorem timeUntil_enter (m : Machine) (newState state : MachineState) (now : Date) :
    (m.enter newState now).timeUntil state now = m.timeUntil state now := by
  have hpending : (m.enter newState now).pending state now = 0 := by
    unfold pending
    split
    · exact sub_self now
    · rfl
  have hspent : (m.enter newState now).timeSpentInEachState = Function.update m.timeSpentInEachState
      m.state (m.timeSpentInEachState m.state + (now - m.lastStateChangeDate)) := rfl
  rw [timeUntil, hpending, add_zero, hspent, timeUntil, pending]
  by_cases hstate : m.state = state
  · rw [if_pos hstate, ← hstate, Function.update_self]
  · rw [if_neg hstate, Function.update_of_ne (Ne.symm hstate), add_zero]

/-- A change at a date leaves the time spent until this date. -/
theorem Changes.timeUntil_eq (h : m.Changes now m') :
    m'.timeUntil state now = m.timeUntil state now := by
  induction h with
  | refl => rfl
  | enter newState _ ih => rw [timeUntil_enter, ih]
  | touchPstate pstate _ ih =>
    rw [← ih]
    unfold timeUntil pending
    simp
  | setPstate _ hset ih =>
    obtain ⟨-, rfl⟩ := Machine.setPstate_eq_ok.mp hset
    exact ih
  | compute jobs _ ih => exact ih

theorem timeUntil_later (m : Machine) (state : MachineState) (now later : Date) :
    m.timeUntil state later =
      m.timeUntil state now + if m.state = state then later - now else 0 := by
  unfold timeUntil pending
  split <;> grind

theorem sum_pending (m : Machine) (now : Date) :
    (machineStates.map fun state => m.pending state now).sum = now - m.lastStateChangeDate := by
  unfold pending machineStates
  cases m.state <;> simp

/-- Its times add up to the date of its last change. -/
def AddsUp (m : Machine) : Prop :=
  (machineStates.map m.timeSpentInEachState).sum = m.lastStateChangeDate

theorem AddsUp.enter (h : m.AddsUp) (newState : MachineState) (now : Date) :
    (m.enter newState now).AddsUp := by
  unfold AddsUp at h ⊢
  have hdate : (m.enter newState now).lastStateChangeDate = now := rfl
  have hspent : (m.enter newState now).timeSpentInEachState = Function.update m.timeSpentInEachState
      m.state (m.timeSpentInEachState m.state + (now - m.lastStateChangeDate)) := rfl
  rw [hspent, hdate]
  unfold machineStates at h ⊢
  cases hstate : m.state <;> simp [Function.update] at h ⊢ <;> grind

theorem Changes.addsUp (h : m.Changes now m') (hm : m.AddsUp) : m'.AddsUp := by
  induction h with
  | refl => exact hm
  | enter newState _ ih => exact ih.enter newState now
  | touchPstate pstate _ ih =>
    unfold AddsUp at ih ⊢
    simpa using ih
  | setPstate _ hset ih =>
    obtain ⟨-, rfl⟩ := Machine.setPstate_eq_ok.mp hset
    exact ih
  | compute jobs _ ih => exact ih

/-- No time has been counted. -/
def Unused (m : Machine) : Prop :=
  m.lastStateChangeDate = 0 ∧ ∀ state, m.timeSpentInEachState state = 0

theorem unused_of_create {energyUsed : Bool} {h : Host}
    (hcreate : Machine.create energyUsed h = .ok m) : m.Unused :=
  Machine.create_invariant (P := Unused) (fun _ _ => ⟨rfl, fun _ => rfl⟩) (fun _ _ _ hm => hm)
    hcreate

end Machine

/-! ### Whole runs -/

variable {cfg : Config} {guard : Sim → Choice → Prop} {s : Sim} {past : List Sim} {id : Nat}
  {m : Machine}

/-- What every machine has when it is created. -/
theorem createMachines_forall {energyUsed : Bool} {hosts : List Host} {ms : Machines}
    {P : Machine → Prop} (hP : ∀ h m, Machine.create energyUsed h = .ok m → P m)
    (hcreated : Machines.createMachines energyUsed hosts = .ok ms) : ∀ m ∈ ms.machines, P m := by
  simp only [Machines.createMachines, bind_eq_ok, Except.ok.injEq] at hcreated
  obtain ⟨machines, hloop, rfl⟩ := hcreated
  refine forEach_preserves (P := fun ms : List Machine => ∀ m ∈ ms, P m) (by simp) ?_ hloop
  intro h _ ms ms' hms hstep
  simp only [bind_eq_ok, Except.ok.injEq] at hstep
  obtain ⟨m, hm, rfl⟩ := hstep
  exact List.forall_mem_append.mpr ⟨hms, List.forall_mem_singleton.mpr (hP h m hm)⟩

theorem config_unused (cfg : Config) : ∀ m ∈ cfg.machines.machines, m.Unused :=
  createMachines_forall (fun _ _ hm => Machine.unused_of_create hm) cfg.machines_created

/-- The machine of a state comes from the one of the state before. -/
theorem exists_of_change {now : Date} {ms ms' : Machines} (h : ms.Change now ms')
    (hm : ms'.machines[id]? = some m) :
    ∃ m₀, ms.machines[id]? = some m₀ ∧ m₀.Changes now m := by
  have hid := h id
  rw [hm] at hid
  generalize hold : ms.machines[id]? = o at hid
  cases hid with
  | some hchanges => exact ⟨_, rfl, hchanges⟩

/-- A machine has been in each state for the time that it has counted, and for what is pending. -/
theorem visits_timeIn (h : Visits (batsim cfg) guard (s :: past))
    (hm : s.machines.machines[id]? = some m) (state : MachineState) :
    timeIn id state (s :: past) = m.timeUntil state s.clock := by
  refine h.invariant (P := fun s past => ∀ m, s.machines.machines[id]? = some m →
    timeIn id state (s :: past) = m.timeUntil state s.clock) ?_ ?_ m hm
  · intro m hm
    obtain ⟨hdate, hspent⟩ := config_unused cfg m (List.mem_of_getElem? hm)
    have hstart : (batsim cfg).start.clock = 0 := rfl
    rw [timeIn, Machine.timeUntil, Machine.pending, hspent, hdate, hstart]
    simp
  · intro s s' past c hr ih _ hstep m' hm'
    rw [timeIn, Sim.machineState]
    obtain hsame | ⟨hclock, hchange⟩ := step_changes hr hstep
    · rw [hsame] at hm'
      rw [ih m' hm', hm', m'.timeUntil_later state s.clock s'.clock]
      simp
    · obtain ⟨m, hm, hchanges⟩ := exists_of_change hchange hm'
      rw [ih m hm, hclock, hchanges.timeUntil_eq]
      simp

theorem reaches_addsUp (h : Reaches (batsim cfg) guard s) :
    ∀ m, s.machines.machines[id]? = some m → m.AddsUp := by
  refine h.invariant (P := fun s : Sim => ∀ m, s.machines.machines[id]? = some m → m.AddsUp) ?_ ?_
  · intro m hm
    obtain ⟨hdate, hspent⟩ := config_unused cfg m (List.mem_of_getElem? hm)
    rw [Machine.AddsUp, hdate]
    simp [machineStates, hspent]
  · intro s s' c hr ih _ hstep m' hm'
    obtain hsame | ⟨hclock, hchange⟩ := step_changes hr hstep
    · rw [hsame] at hm'
      exact ih m' hm'
    · obtain ⟨m, hm, hchanges⟩ := exists_of_change hchange hm'
      exact hchanges.addsUp (ih m hm)

/-- The times of a machine are right, and add up to the date, exactly when none is pending. -/
theorem state_times_right_iff (h : Visits (batsim cfg) anyStep (s :: past))
    (hm : s.machines.machines[id]? = some m) :
    ((∀ state, m.timeSpentInEachState state = timeIn id state (s :: past)) ↔
      m.lastStateChangeDate = s.clock) ∧
    ((machineStates.map m.timeSpentInEachState).sum = s.clock ↔
      m.lastStateChangeDate = s.clock) := by
  have hsum : m.AddsUp := reaches_addsUp h.reaches m hm
  constructor
  · constructor
    · intro hright
      have hstate := hright m.state
      rw [visits_timeIn h hm, Machine.timeUntil, Machine.pending, if_pos rfl] at hstate
      have hpending : s.clock - m.lastStateChangeDate = 0 := left_eq_add.mp hstate
      exact (sub_eq_zero.mp hpending).symm
    · intro hdate state
      rw [visits_timeIn h hm, Machine.timeUntil, Machine.pending, hdate]
      simp
  · rw [hsum]

/-- What is reported for each state: the time that all machines spent in it, except what is
pending. -/
theorem machineTimes_eq (h : Visits (batsim cfg) guard (s :: past)) :
    machineTimes s.machines = machineStates.map fun state =>
      ("time_" ++ machineStateToString state,
        ((List.range s.machines.machines.length).map fun id => timeIn id state (s :: past)).sum -
          (s.machines.machines.map fun m => m.pending state s.clock).sum) := by
  refine List.map_congr_left fun state _ => ?_
  have htimes : ((List.range s.machines.machines.length).map fun id =>
      timeIn id state (s :: past)) =
        s.machines.machines.map fun m => m.timeUntil state s.clock := by
    apply List.ext_getElem
    · simp
    · intro id hid hid'
      rw [List.getElem_map, List.getElem_map, List.getElem_range]
      exact visits_timeIn h (List.getElem?_eq_getElem _) state
  have hsplit : (s.machines.machines.map fun m => m.timeUntil state s.clock).sum =
      (s.machines.machines.map fun m => m.timeSpentInEachState state).sum +
        (s.machines.machines.map fun m => m.pending state s.clock).sum := by
    unfold Machine.timeUntil
    exact List.sum_map_add ..
  rw [htimes, hsplit, add_sub_cancel_right]

/-- A simulation in which the scheduler only says, at date 5, that it will register no job: the
machine is idle all the time. -/
theorem exists_idle_run : ∃ s past m, Visits (batsim loneHost) anyStep (s :: past) ∧
    s.exited = true ∧ s.pool.threads.isEmpty = true ∧ s.clock = 5 ∧
    s.machines.machines[0]? = some m ∧ m.state = .idle ∧ m.lastStateChangeDate = 0 ∧
    m.timeSpentInEachState .idle = 0 := by
  obtain ⟨s, hreaches, hexited, hthreads, hclock, hmachine⟩ :=
    exists_reaches_of_run (batsim loneHost) anyStep
      (fun s => s.exited = true ∧ s.pool.threads.isEmpty = true ∧ s.clock = 5 ∧
        (s.machines.machines[0]?).map (fun m =>
          (m.state, m.lastStateChangeDate, m.timeSpentInEachState .idle)) = some (.idle, 0, 0))
      [.next, .next, .next (.reply { now := 5, events := [⟨5, .notify "registration_finished"⟩] }),
        .receive, .next, .next, .receive, .next, .pass 5 false fun _ => true, .next, .receive,
        .next, .next, .receive, .next, .next (.reply { now := 5, events := [] }), .receive, .next,
        .next (.reply { now := 5, events := [] }), .receive, .next]
      (by decide +kernel)
  obtain ⟨past, hvisits⟩ := hreaches.visits
  obtain ⟨m, hm, hfields⟩ := Option.map_eq_some_iff.mp hmachine
  simp only [Prod.mk.injEq] at hfields
  exact ⟨s, past, m, hvisits, hexited, hthreads, hclock, hm, hfields⟩

theorem idle_time_not_counted : ∃ s past m, Visits (batsim loneHost) anyStep (s :: past) ∧
    s.exited = true ∧ s.pool.threads.isEmpty = true ∧ s.machines.machines[0]? = some m ∧
    timeIn 0 .idle (s :: past) = 5 ∧ m.timeSpentInEachState .idle = 0 := by
  obtain ⟨s, past, m, hvisits, hexited, hthreads, hclock, hm, hstate, hdate, hspent⟩ :=
    exists_idle_run
  refine ⟨s, past, m, hvisits, hexited, hthreads, hm, ?_, hspent⟩
  rw [visits_timeIn hvisits hm, Machine.timeUntil, Machine.pending, if_pos hstate, hspent, hdate,
    hclock]
  decide +kernel

theorem idle_run_times_wrong : ∃ s past m, Visits (batsim loneHost) anyStep (s :: past) ∧
    s.machines.machines[0]? = some m ∧
    ¬(∀ state, m.timeSpentInEachState state = timeIn 0 state (s :: past)) ∧
    (machineStates.map m.timeSpentInEachState).sum ≠ s.clock := by
  obtain ⟨s, past, m, hvisits, -, -, hclock, hm, -, hdate, -⟩ := exists_idle_run
  obtain ⟨htimes, hsum⟩ := state_times_right_iff hvisits hm
  have hpending : m.lastStateChangeDate ≠ s.clock := by
    rw [hdate, hclock]
    decide
  exact ⟨s, past, m, hvisits, hm, fun h => hpending (htimes.mp h), fun h => hpending (hsum.mp h)⟩

end Batsim
