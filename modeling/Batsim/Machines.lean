import Mathlib.Algebra.Order.Ring.Rat
import Batsim.Jobs

namespace Batsim

open Checked

inductive MachineState where
  | sleeping
  | idle
  | computing
  | transitingFromSleepingToComputing
  | transitingFromComputingToSleeping
  | unavailable
deriving DecidableEq, Repr

/-- `machine_state_to_string` -/
def machineStateToString : MachineState → String
  | .sleeping => "sleeping"
  | .idle => "idle"
  | .computing => "computing"
  | .transitingFromSleepingToComputing => "switching_on"
  | .transitingFromComputingToSleeping => "switching_off"
  | .unavailable => "unavailable"

/-- The first enumerator is the value that `operator[]` gives to a missing key. -/
inductive PStateType where
  | computationPstate
  | sleepPstate
  | transitionVirtualPstate
deriving DecidableEq, Repr

structure SleepPState where
  sleepPstate : Nat
  switchOnVirtualPstate : Nat
  switchOffVirtualPstate : Nat
deriving DecidableEq, Repr

/-- `roles::Permissions`, the bits of an `int` -/
abbrev Permissions := Nat

def Permissions.computeNode : Permissions := 7

def Permissions.storage : Permissions := 6

/-- A host of the platform: its role, its pstates, and the triplets (sleep, off, on) of its
`sleep_pstates` property. -/
structure Host where
  permissions : Permissions := Permissions.computeNode
  nbPstates : Nat := 1
  pstate : Nat := 0
  sleepPstates : List (Nat × Nat × Nat) := []
deriving DecidableEq, Repr

structure Machine where
  permissions : Permissions
  state : MachineState := .idle
  jobsBeingComputed : List JobPtr := []
  pstates : AList (fun _ : Int => PStateType)
  sleepPstates : AList (fun _ : Int => SleepPState)
  lastStateChangeDate : Date := 0
  timeSpentInEachState : MachineState → Date := fun _ => 0
  /-- `host->get_pstate_count()` -/
  hostNbPstates : Nat
  /-- `host->get_pstate()` -/
  hostPstate : Nat

namespace Machine

def hasRole (m : Machine) (role : Permissions) : Bool := role &&& m.permissions = role

def hasPstate (m : Machine) (pstate : Int) : Bool := (m.pstates.lookup pstate).isSome

/-- What `pstates[pstate]` gives. -/
def pstateType (m : Machine) (pstate : Int) : PStateType :=
  (m.pstates.lookup pstate).getD .computationPstate

/-- The machine after `pstates[pstate]`, which inserts a missing key. -/
def touchPstate (m : Machine) (pstate : Int) : Machine :=
  if m.hasPstate pstate then m
  else { m with pstates := m.pstates.insert pstate .computationPstate }

/-- The loop over the `sleep_pstates` property. A pstate given twice as a sleep pstate, or as a
sleep and as a virtual one, is only reported with `XBT_ERROR`. -/
def readSleepPstates (m : Machine) (triplets : List (Nat × Nat × Nat)) : Except String Machine :=
  forEach (fun m triplet => do
    let (sleepPs, offPs, onPs) := triplet
    xbtAssert (sleepPs < m.hostNbPstates)
      "Invalid platform file: the pstates of a sleep pstate are invalid: the pstate does not exist"
    xbtAssert (onPs < m.hostNbPstates)
      "Invalid platform file: the pstates of a sleep pstate are invalid: the pstate does not exist"
    xbtAssert (offPs < m.hostNbPstates)
      ("Invalid platform file: the pstates of a sleep pstate are invalid:" ++
        " the sleep pstate does not exist")
    xbtAssert (m.hasPstate onPs = true → m.pstateType onPs = .transitionVirtualPstate)
      ("Invalid platform file: a pstate can either be a computation one, a sleeping one or a" ++
        " virtual transition one, but combinations are forbidden.")
    xbtAssert (m.hasPstate offPs = true → m.pstateType offPs = .transitionVirtualPstate)
      ("Invalid platform file: a pstate can either be a computation one, a sleeping one or a" ++
        " virtual transition one, but combinations are forbidden.")
    .ok { m with
      sleepPstates := m.sleepPstates.insert (sleepPs : Int) ⟨sleepPs, onPs, offPs⟩
      pstates := ((m.pstates.insert (sleepPs : Int) .sleepPstate).insert
        (onPs : Int) .transitionVirtualPstate).insert (offPs : Int) .transitionVirtualPstate })
    m triplets

/-- The pstates without a type are computation pstates. -/
def declareComputationPstates (m : Machine) : Machine :=
  (List.range m.hostNbPstates).foldl (fun m ps => m.touchPstate (ps : Int)) m

/-- One turn of the loop of `Machines::create_machines`. -/
def create (energyUsed : Bool) (h : Host) : Except String Machine :=
  let m : Machine :=
    { permissions := h.permissions, pstates := ∅, sleepPstates := ∅,
      hostNbPstates := h.nbPstates, hostPstate := h.pstate }
  if energyUsed then do
    let m ← m.readSleepPstates h.sleepPstates
    .ok m.declareComputationPstates
  else .ok m

/-- `update_machine_state`, for the machine alone -/
def enter (m : Machine) (newState : MachineState) (now : Date) : Machine :=
  { m with
    state := newState
    lastStateChangeDate := now
    timeSpentInEachState := Function.update m.timeSpentInEachState m.state
      (m.timeSpentInEachState m.state + (now - m.lastStateChangeDate)) }

section enter

variable (m : Machine) (newState : MachineState) (now : Date)

@[simp] theorem enter_state : (m.enter newState now).state = newState := rfl

@[simp] theorem enter_jobsBeingComputed :
    (m.enter newState now).jobsBeingComputed = m.jobsBeingComputed := rfl

@[simp] theorem enter_permissions : (m.enter newState now).permissions = m.permissions := rfl

@[simp] theorem enter_pstates : (m.enter newState now).pstates = m.pstates := rfl

@[simp] theorem enter_sleepPstates : (m.enter newState now).sleepPstates = m.sleepPstates := rfl

@[simp] theorem enter_hostPstate : (m.enter newState now).hostPstate = m.hostPstate := rfl

@[simp] theorem enter_hostNbPstates :
    (m.enter newState now).hostNbPstates = m.hostNbPstates := rfl

@[simp] theorem enter_lastStateChangeDate : (m.enter newState now).lastStateChangeDate = now := rfl

@[simp] theorem enter_pstateType (pstate : Int) :
    (m.enter newState now).pstateType pstate = m.pstateType pstate := rfl

end enter

@[simp] theorem pstateType_touchPstate {m : Machine} {pstate other : Int} :
    (m.touchPstate pstate).pstateType other = m.pstateType other := by
  unfold touchPstate
  split
  · rfl
  · next h =>
    by_cases ho : other = pstate
    · subst ho
      have hnone : m.pstates.lookup other = none := by simpa [hasPstate] using h
      simp [pstateType, hnone]
    · simp [pstateType, AList.lookup_insert_ne ho]

theorem lookup_touchPstate (m : Machine) (pstate ps : Int) :
    (m.touchPstate pstate).pstates.lookup ps =
      (m.pstates.lookup ps).or (if ps = pstate then some .computationPstate else none) := by
  unfold touchPstate
  split
  · next h =>
    split
    · next hps =>
      subst hps
      obtain ⟨type, htype⟩ := Option.isSome_iff_exists.mp h
      rw [htype]
      rfl
    · rw [Option.or_none]
  · next h =>
    by_cases hps : ps = pstate
    · subst hps
      have hnone : m.pstates.lookup ps = none := by simpa [hasPstate] using h
      simp [hnone]
    · simp [hps, AList.lookup_insert_ne]

section touchPstate

variable (m : Machine) (pstate : Int)

@[simp] theorem touchPstate_state : (m.touchPstate pstate).state = m.state := by
  unfold touchPstate
  split <;> rfl

@[simp] theorem touchPstate_jobsBeingComputed :
    (m.touchPstate pstate).jobsBeingComputed = m.jobsBeingComputed := by
  unfold touchPstate
  split <;> rfl

@[simp] theorem touchPstate_permissions :
    (m.touchPstate pstate).permissions = m.permissions := by
  unfold touchPstate
  split <;> rfl

@[simp] theorem touchPstate_sleepPstates :
    (m.touchPstate pstate).sleepPstates = m.sleepPstates := by
  unfold touchPstate
  split <;> rfl

@[simp] theorem touchPstate_hostPstate : (m.touchPstate pstate).hostPstate = m.hostPstate := by
  unfold touchPstate
  split <;> rfl

@[simp] theorem touchPstate_hostNbPstates :
    (m.touchPstate pstate).hostNbPstates = m.hostNbPstates := by
  unfold touchPstate
  split <;> rfl

@[simp] theorem touchPstate_lastStateChangeDate :
    (m.touchPstate pstate).lastStateChangeDate = m.lastStateChangeDate := by
  unfold touchPstate
  split <;> rfl

@[simp] theorem touchPstate_timeSpentInEachState :
    (m.touchPstate pstate).timeSpentInEachState = m.timeSpentInEachState := by
  unfold touchPstate
  split <;> rfl

end touchPstate

/-- A machine when the job `job` starts on it. -/
def onJobRun (job : JobPtr) (now : Date) (m : Machine) : Machine :=
  { m.enter .computing now with
    jobsBeingComputed :=
      if job ∈ m.jobsBeingComputed then m.jobsBeingComputed else m.jobsBeingComputed ++ [job] }

/-- A machine when the job `job` ends on it. -/
def onJobEnd (job : JobPtr) (now : Date) (m : Machine) : Machine :=
  let m := { m with jobsBeingComputed := m.jobsBeingComputed.erase job }
  if m.jobsBeingComputed = [] ∧ m.state ≠ .unavailable then m.enter .idle now else m

end Machine

structure Machines where
  machines : List Machine
  nbMachinesInEachState : MachineState → Int

namespace Machines

/-- `create_machines`, for the hosts that become machines, in the order of their numbers -/
def createMachines (energyUsed : Bool) (hosts : List Host) : Except String Machines := do
  let machines ← forEach (fun ms h => do
    let m ← Machine.create energyUsed h
    .ok (ms ++ [m])) [] hosts
  .ok { machines := machines
        nbMachinesInEachState := fun s =>
          if s = .idle then machines.countP (fun m => m.permissions = Permissions.computeNode)
          else 0 }

/-- `operator[]` -/
def at? (ms : Machines) (id : Nat) : Except String Machine :=
  match ms.machines[id]? with
  | none => .error ("Cannot get machine " ++ toString id ++ ": it does not exist")
  | some m => .ok m

@[simp] theorem at?_eq_ok {ms : Machines} {id : Nat} {m : Machine} :
    ms.at? id = .ok m ↔ ms.machines[id]? = some m := by
  unfold at?
  cases ms.machines[id]? <;> simp

/-- Replace the machine number `id`. -/
def put (ms : Machines) (id : Nat) (m : Machine) : Machines :=
  { ms with machines := ms.machines.set id m }

theorem getElem?_put {ms : Machines} {id j : Nat} {m m₀ : Machine}
    (h : ms.machines[id]? = some m₀) :
    (ms.put id m).machines[j]? = if j = id then some m else ms.machines[j]? := by
  have hid : id < ms.machines.length := by
    by_contra hlt
    simp [List.getElem?_eq_none (Nat.le_of_not_lt hlt)] at h
  simp only [put, List.getElem?_set]
  by_cases hj : j = id
  · simp [hj, hid]
  · simp [hj, Ne.symm hj]

theorem put_self {ms : Machines} {id : Nat} {m : Machine} (h : ms.machines[id]? = some m) :
    ms.put id m = ms := by
  have hmachines : (ms.put id m).machines = ms.machines := by
    apply List.ext_getElem?
    intro j
    rw [getElem?_put h]
    split
    · next hj => rw [hj, h]
    · rfl
  exact congrArg (fun machines => { ms with machines := machines }) hmachines

/-- `machine->update_machine_state(new_state)` -/
def updateMachineState (ms : Machines) (id : Nat) (newState : MachineState) (now : Date) :
    Except String Machines := do
  let m ← ms.at? id
  xbtAssert (now - m.lastStateChangeDate ≥ 0)
    "time inconsistency: time has decreased since last call"
  let counts := Function.update ms.nbMachinesInEachState m.state
    (ms.nbMachinesInEachState m.state - 1)
  .ok { ms.put id (m.enter newState now) with
        nbMachinesInEachState := Function.update counts newState (counts newState + 1) }

/-- What a change of state does to the machines: it changes one. -/
theorem updateMachineState_cases {ms ms' : Machines} {id : Nat} {newState : MachineState}
    {now : Date} (h : ms.updateMachineState id newState now = .ok ms') :
    ∃ m, ms.machines[id]? = some m ∧ m.lastStateChangeDate ≤ now ∧
      ∀ j, ms'.machines[j]? =
        if j = id then some (m.enter newState now) else ms.machines[j]? := by
  simp only [updateMachineState, bind_eq_ok, at?_eq_ok, xbtAssert_eq_ok, Except.ok.injEq] at h
  obtain ⟨m, hm, _, hdate, rfl⟩ := h
  exact ⟨m, hm, sub_nonneg.mp hdate, fun j => getElem?_put hm⟩

theorem updateMachineState_succeeds {ms : Machines} {id : Nat} {newState : MachineState}
    {now : Date} {m : Machine} (hm : ms.machines[id]? = some m)
    (hdate : m.lastStateChangeDate ≤ now) :
    ∃ ms', ms.updateMachineState id newState now = .ok ms' := by
  have hat : ms.at? id = .ok m := at?_eq_ok.mpr hm
  have hge : now - m.lastStateChangeDate ≥ 0 := sub_nonneg.mpr hdate
  simp only [updateMachineState, hat, bind, Except.bind, xbtAssert_of hge]
  exact ⟨_, rfl⟩

/-- One turn of the loop of `update_machines_on_job_run`. -/
def runJobOn (job : JobPtr) (now : Date) (ms : Machines) (id : Nat) : Except String Machines := do
  let ms ← ms.updateMachineState id .computing now
  let m ← ms.at? id
  .ok (ms.put id { m with
    jobsBeingComputed :=
      if job ∈ m.jobsBeingComputed then m.jobsBeingComputed
      else m.jobsBeingComputed ++ [job] })

/-- `update_machines_on_job_run` -/
def updateMachinesOnJobRun (ms : Machines) (job : JobPtr) (usedMachines : IntervalSet)
    (now : Date) : Except String Machines :=
  forEach (runJobOn job now) ms usedMachines.elements

/-- One turn of the loop of `update_machines_on_job_end`. -/
def endJobOn (job : JobPtr) (now : Date) (ms : Machines) (id : Nat) : Except String Machines := do
  let m ← ms.at? id
  xbtAssert (m.jobsBeingComputed ≠ [])
    ("inconsistency: marking machine " ++ toString id ++ " on job '" ++ job.id.toString ++
      "' end, while no job is being computed on the machine")
  xbtAssert (job ∈ m.jobsBeingComputed)
    ("could not erase job '" ++ job.id.toString ++
      "' from jobs being computed of machine " ++ toString id)
  let m := { m with jobsBeingComputed := m.jobsBeingComputed.erase job }
  let ms := ms.put id m
  if m.jobsBeingComputed = [] ∧ m.state ≠ .unavailable then
    ms.updateMachineState id .idle now
  else .ok ms

/-- `update_machines_on_job_end` -/
def updateMachinesOnJobEnd (ms : Machines) (job : JobPtr) (usedMachines : IntervalSet)
    (now : Date) : Except String Machines :=
  forEach (endJobOn job now) ms usedMachines.elements

/-- A loop over distinct machine numbers, each turn of which replaces the machine of its number
by `f` of it, replaces exactly the machines of these numbers. -/
theorem forEach_machine {step : Machines → Nat → Except String Machines}
    {f : Machine → Machine} {ids : List Nat} (hnodup : ids.Nodup)
    (hstep : ∀ ms ms' id, step ms id = .ok ms' → ∃ m, ms.machines[id]? = some m ∧
      ∀ j, ms'.machines[j]? = if j = id then some (f m) else ms.machines[j]?)
    {ms ms' : Machines} (h : forEach step ms ids = .ok ms') (j : Nat) :
    ms'.machines[j]? = if j ∈ ids then (ms.machines[j]?).map f else ms.machines[j]? := by
  refine forEach_invariant
    (fun done t => t.machines[j]? =
      if j ∈ done then (ms.machines[j]?).map f else ms.machines[j]?) (by simp) ?_ h
  intro done id rest t t' hsplit hdone hid
  obtain ⟨m, hm, hput⟩ := hstep t t' id hid
  rw [hput j]
  by_cases hj : j = id
  · subst hj
    have hnew : j ∉ done := by
      rw [hsplit] at hnodup
      exact fun hmem => (List.nodup_append.mp hnodup).2.2 j hmem j (by simp) rfl
    rw [if_neg hnew] at hdone
    rw [← hdone, hm]
    simp
  · simp [hj, hdone]

theorem runJobOn_cases {ms ms' : Machines} {job : JobPtr} {now : Date} {id : Nat}
    (h : ms.runJobOn job now id = .ok ms') :
    ∃ m, ms.machines[id]? = some m ∧
      ∀ j, ms'.machines[j]? = if j = id then some (m.onJobRun job now) else ms.machines[j]? := by
  simp only [runJobOn, bind_eq_ok, at?_eq_ok, Except.ok.injEq] at h
  obtain ⟨t₁, hstate, m₁, hm₁, rfl⟩ := h
  obtain ⟨m, hm, -, hcomputing⟩ := updateMachineState_cases hstate
  rw [hcomputing id, if_pos rfl, Option.some.injEq] at hm₁
  refine ⟨m, hm, fun j => ?_⟩
  rw [getElem?_put (by rw [hcomputing id, if_pos rfl]), hcomputing j]
  split
  · rw [← hm₁]
    rfl
  · rfl

theorem endJobOn_cases {ms ms' : Machines} {job : JobPtr} {now : Date} {id : Nat}
    (h : ms.endJobOn job now id = .ok ms') :
    ∃ m, ms.machines[id]? = some m ∧
      ∀ j, ms'.machines[j]? = if j = id then some (m.onJobEnd job now) else ms.machines[j]? := by
  simp only [endJobOn, bind_eq_ok, at?_eq_ok, xbtAssert_eq_ok] at h
  obtain ⟨m, hm, _, -, _, -, h⟩ := h
  refine ⟨m, hm, fun j => ?_⟩
  split at h
  · next hidle =>
    obtain ⟨m₁, hm₁, -, hstate⟩ := updateMachineState_cases h
    rw [getElem?_put hm, if_pos rfl, Option.some.injEq] at hm₁
    rw [hstate j, getElem?_put hm]
    split
    · rw [← hm₁, Machine.onJobEnd]
      simp only [if_pos hidle]
    · rfl
  · next hbusy =>
    rw [Except.ok.injEq] at h
    rw [← h, getElem?_put hm]
    split
    · rw [Machine.onJobEnd]
      simp only [if_neg hbusy]
    · rfl

theorem endJobOn_succeeds {ms : Machines} {job : JobPtr} {now : Date} {id : Nat} {m : Machine}
    (hm : ms.machines[id]? = some m) (hjob : job ∈ m.jobsBeingComputed)
    (hdate : m.lastStateChangeDate ≤ now) : ∃ ms', ms.endJobOn job now id = .ok ms' := by
  have hat : ms.at? id = .ok m := at?_eq_ok.mpr hm
  have hne : m.jobsBeingComputed ≠ [] := List.ne_nil_of_mem hjob
  simp only [endJobOn, hat, bind, Except.bind, xbtAssert_of hne, xbtAssert_of hjob]
  split
  · exact updateMachineState_succeeds
      (m := { m with jobsBeingComputed := m.jobsBeingComputed.erase job })
      (by rw [getElem?_put hm, if_pos rfl]) hdate
  · exact ⟨_, rfl⟩

/-- A job start changes the machines of the job, each on its own. -/
theorem updateMachinesOnJobRun_machine {ms ms' : Machines} {job : JobPtr} {used : IntervalSet}
    {now : Date} (h : ms.updateMachinesOnJobRun job used now = .ok ms') (j : Nat) :
    ms'.machines[j]? =
      if j ∈ used then (ms.machines[j]?).map (Machine.onJobRun job now) else ms.machines[j]? :=
  forEach_machine used.nodup (fun _ _ _ => runJobOn_cases) h j

/-- A job end changes the machines of the job, each on its own. -/
theorem updateMachinesOnJobEnd_machine {ms ms' : Machines} {job : JobPtr} {used : IntervalSet}
    {now : Date} (h : ms.updateMachinesOnJobEnd job used now = .ok ms') (j : Nat) :
    ms'.machines[j]? =
      if j ∈ used then (ms.machines[j]?).map (Machine.onJobEnd job now) else ms.machines[j]? :=
  forEach_machine used.nodup (fun _ _ _ => endJobOn_cases) h j

/-- The checks of a job end pass when the job is on each of its machines. -/
theorem updateMachinesOnJobEnd_succeeds {ms : Machines} {job : JobPtr} {used : IntervalSet}
    {now : Date}
    (h : ∀ id ∈ used, ∃ m, ms.machines[id]? = some m ∧ job ∈ m.jobsBeingComputed ∧
      m.lastStateChangeDate ≤ now) :
    ∃ ms', ms.updateMachinesOnJobEnd job used now = .ok ms' := by
  let P : List Nat → Machines → Prop := fun ids t => ids.Nodup ∧
    ∀ id ∈ ids, ∃ m, t.machines[id]? = some m ∧ job ∈ m.jobsBeingComputed ∧
      m.lastStateChangeDate ≤ now
  suffices hrun : ∃ ms', forEach (endJobOn job now) ms used.elements = .ok ms' ∧ P [] ms' by
    obtain ⟨ms', hrun, -⟩ := hrun
    exact ⟨ms', hrun⟩
  refine forEach_succeeds P ⟨used.nodup, h⟩ ?_
  rintro id rest t ⟨hnodup, hready⟩
  obtain ⟨hnew, hrest⟩ := List.nodup_cons.mp hnodup
  obtain ⟨m, hm, hjob, hdate⟩ := hready id (by simp)
  obtain ⟨t', ht'⟩ := endJobOn_succeeds hm hjob hdate
  refine ⟨t', ht', hrest, fun j hj => ?_⟩
  obtain ⟨m', hm', hput⟩ := endJobOn_cases ht'
  have hne : j ≠ id := fun heq => hnew (heq ▸ hj)
  rw [hput j, if_neg hne]
  exact hready j (List.mem_cons_of_mem _ hj)

end Machines

end Batsim
