import Batsim.GeneratedMatrices

/-!
The check that no storage node computes: it goes through the machines of the allocation, while the
amounts of computation are those of the executors.
-/

namespace Batsim

open Checked Json

/-- The machine may compute. -/
def Machines.isComputeNode (ms : Machines) (id : Nat) : Bool :=
  (ms.machines[id]?).any fun m => m.permissions = Permissions.computeNode

/-- The mapping in `execute_job_process`: the place of each executor within the allocation. -/
def TaskAllocation.executors (a : TaskAllocation) : List Nat :=
  if a.mapping = [] then List.range a.machineIds.size else a.mapping

/-- The threshold of the check. -/
def computationEpsilon : Amount := 1 / 10000000000

/-- The message of the check. -/
def storageNodeError (id : Nat) : String :=
  "Some computation is assigned to storage node (id=" ++ toString id ++ ")"

theorem length_le_append (s t : String) : s.length ≤ (s ++ t).length := by
  rw [String.length_append]
  exact Nat.le_add_right _ _

theorem storageNodeError_ne (id : Nat) : storageNodeError id ≠ outOfRange := by
  intro h
  have hle : "Some computation is assigned to storage node (id=".length ≤ outOfRange.length :=
    h ▸ (length_le_append _ _).trans (length_le_append _ _)
  exact absurd hle (by decide +kernel)

/-! ### The loop -/

/-- A machine of the list that may not compute, at the place of an amount over the threshold. -/
def FoundAt (ms : Machines) (amounts : List Amount) (k : Nat) (ids : List Nat) : Prop :=
  ∃ i id c, ids[i]? = some id ∧ amounts[k + i]? = some c ∧ |c| > computationEpsilon ∧
    ms.isComputeNode id = false

/-- A turn of the loop. -/
def checkPlace (ms : Machines) (amounts : List Amount) (i id : Nat) : Except String Unit := do
  let m ← ms.at? id
  let computation ← vectorAt amounts i
  xbtAssert (|computation| > computationEpsilon → m.permissions = Permissions.computeNode)
    (storageNodeError id)

/-- The check of the machines from the one number `k` on. -/
def checkFrom (ms : Machines) (amounts : List Amount) (k : Nat) (ids : List Nat) :
    Except String Unit :=
  forEach (fun _ (i, id) => checkPlace ms amounts i id) () (ids.mapIdx fun i id => (k + i, id))

theorem checkPtaskExecutionPermission_eq (ms : Machines) (alloc : IntervalSet)
    (amounts : List Amount) :
    checkPtaskExecutionPermission ms alloc amounts = checkFrom ms amounts 0 alloc.elements := by
  simp only [checkFrom, Nat.zero_add]
  rfl

section loop

variable {ms : Machines} {amounts : List Amount} {k id : Nat} {ids : List Nat}

theorem checkFrom_cons :
    checkFrom ms amounts k (id :: ids) =
      checkPlace ms amounts k id >>= fun _ => checkFrom ms amounts (k + 1) ids := by
  have hplaces : (fun i id => (k + (i + 1), id)) = fun (i id : Nat) => (k + 1 + i, id) := by
    funext i id
    rw [Nat.add_comm i 1, Nat.add_assoc]
  simp only [checkFrom, List.mapIdx_cons, forEach_cons, Nat.add_zero, hplaces]

theorem checkPlace_none (hid : ∃ m, ms.machines[id]? = some m) (hnone : amounts[k]? = none) :
    checkPlace ms amounts k id = .error outOfRange := by
  obtain ⟨m, hm⟩ := hid
  simp only [checkPlace, Machines.at?_eq_ok.mpr hm, vectorAt, hnone]
  rfl

theorem checkPlace_some {c : Amount} (hid : ∃ m, ms.machines[id]? = some m)
    (hsome : amounts[k]? = some c) :
    checkPlace ms amounts k id =
      if |c| > computationEpsilon ∧ ms.isComputeNode id = false then .error (storageNodeError id)
      else .ok () := by
  obtain ⟨m, hm⟩ := hid
  simp only [checkPlace, Machines.at?_eq_ok.mpr hm, vectorAt, hsome, xbtAssert, require, bind,
    Except.bind, Machines.isComputeNode, hm, Option.any_some]
  by_cases hlarge : |c| > computationEpsilon
  · by_cases hcompute : m.permissions = Permissions.computeNode
    · simp [hcompute]
    · simp [hcompute, hlarge]
  · simp [hlarge]

theorem foundAt_cons {c : Amount} (hsome : amounts[k]? = some c) :
    FoundAt ms amounts k (id :: ids) ↔
      (|c| > computationEpsilon ∧ ms.isComputeNode id = false) ∨ FoundAt ms amounts (k + 1) ids := by
  constructor
  · rintro ⟨i, id', c', hid, hc, hfound⟩
    cases i with
    | zero =>
      rw [Nat.add_zero, hsome] at hc
      rw [List.getElem?_cons_zero] at hid
      obtain rfl := Option.some.inj hid
      obtain rfl := Option.some.inj hc
      exact .inl hfound
    | succ i =>
      rw [List.getElem?_cons_succ] at hid
      rw [← Nat.add_assoc, Nat.add_right_comm] at hc
      exact .inr ⟨i, id', c', hid, hc, hfound⟩
  · rintro (hfound | ⟨i, id', c', hid, hc, hfound⟩)
    · exact ⟨0, id, c, List.getElem?_cons_zero, hsome, hfound⟩
    · refine ⟨i + 1, id', c', ?_, ?_, hfound⟩
      · rw [List.getElem?_cons_succ]
        exact hid
      · rw [← Nat.add_assoc, Nat.add_right_comm]
        exact hc

/-- What the loop gives, from the place of the first machine on. -/
theorem checkFrom_cases (hids : ∀ id ∈ ids, ∃ m, ms.machines[id]? = some m) :
    (checkFrom ms amounts k ids = .ok () ∧ ¬ FoundAt ms amounts k ids ∧
      (ids ≠ [] → k + ids.length ≤ amounts.length)) ∨
    (checkFrom ms amounts k ids = .error outOfRange ∧ ¬ FoundAt ms amounts k ids ∧
      amounts.length < k + ids.length) ∨
    ((∃ id, checkFrom ms amounts k ids = .error (storageNodeError id)) ∧
      FoundAt ms amounts k ids) := by
  induction ids generalizing k with
  | nil =>
    left
    refine ⟨rfl, ?_, fun hnil => absurd rfl hnil⟩
    rintro ⟨i, id, c, hid, -⟩
    cases hid
  | cons id ids ih =>
    have hid := hids id List.mem_cons_self
    cases hamount : amounts[k]? with
    | none =>
      right; left
      have hlength : amounts.length ≤ k := List.getElem?_eq_none_iff.mp hamount
      refine ⟨?_, ?_, ?_⟩
      · rw [checkFrom_cons, checkPlace_none hid hamount]
        rfl
      · rintro ⟨i, id', c, -, hc, -⟩
        have hlt := (List.getElem?_eq_some_iff.mp hc).1
        omega
      · rw [List.length_cons]
        omega
    | some c =>
      have hk : k < amounts.length := (List.getElem?_eq_some_iff.mp hamount).1
      rw [checkFrom_cons, checkPlace_some hid hamount, foundAt_cons hamount, List.length_cons]
      by_cases hfound : |c| > computationEpsilon ∧ ms.isComputeNode id = false
      · right; right
        rw [if_pos hfound]
        exact ⟨⟨id, rfl⟩, .inl hfound⟩
      · have hrest := ih (fun id' hid' => hids id' (List.mem_cons_of_mem _ hid')) (k := k + 1)
        rw [if_neg hfound]
        simp only [hfound, false_or]
        change (checkFrom ms amounts (k + 1) ids = .ok () ∧ _ ∧ _) ∨
          (checkFrom ms amounts (k + 1) ids = .error outOfRange ∧ _ ∧ _) ∨
          ((∃ id, checkFrom ms amounts (k + 1) ids = .error (storageNodeError id)) ∧ _)
        rcases hrest with ⟨hok, hnone, hle⟩ | ⟨herror, hnone, hlt⟩ | hreject
        · refine .inl ⟨hok, hnone, fun _ => ?_⟩
          by_cases hnil : ids = []
          · rw [hnil, List.length_nil]
            omega
          · have := hle hnil
            omega
        · exact .inr (.inl ⟨herror, hnone, by omega⟩)
        · exact .inr (.inr hreject)

end loop

/-! ### The check of a task -/

section task

variable (ms : Machines) (a : TaskAllocation) (amounts : List Amount)

/-- The machine of an executor. -/
def TaskAllocation.PlacedOn (executor id : Nat) : Prop :=
  ∃ j, a.executors[executor]? = some j ∧ a.machineIds.elements[j]? = some id

/-- An executor that computes is placed on a machine that is not a compute node. -/
def ComputesOnStorage : Prop :=
  ∃ executor id c, a.PlacedOn executor id ∧ amounts[executor]? = some c ∧ c ≠ 0 ∧
    ms.isComputeNode id = false

/-- The check reads the vector within its bounds, and rejects the task exactly when an executor
computes where it may not. -/
structure PermissionChecked : Prop where
  inBounds : checkPtaskExecutionPermission ms a.machineIds amounts ≠ .error outOfRange
  rejected_iff :
    (∃ id, checkPtaskExecutionPermission ms a.machineIds amounts = .error (storageNodeError id)) ↔
      ComputesOnStorage ms a amounts

/-- All the places and all the executors are fine, or one of each is not. -/
def AmountsFit (nbAmounts : Nat) : Prop :=
  a.machineIds.size ≤ nbAmounts ∧ ¬ FoundAt ms amounts 0 a.machineIds.elements ∧
      ¬ ComputesOnStorage ms a amounts ∨
    FoundAt ms amounts 0 a.machineIds.elements ∧ ComputesOnStorage ms a amounts

theorem permissionChecked_iff
    (hids : ∀ id ∈ a.machineIds.elements, ∃ m, ms.machines[id]? = some m) :
    PermissionChecked ms a amounts ↔ AmountsFit ms a amounts amounts.length := by
  have hsize : a.machineIds.size = a.machineIds.elements.length := rfl
  have hnot : ¬ ∃ id, Except.error (α := Unit) outOfRange = .error (storageNodeError id) := by
    rintro ⟨id, h⟩
    exact storageNodeError_ne id (Except.error.inj h).symm
  rw [AmountsFit, hsize]
  rcases @checkFrom_cases ms amounts 0 _ hids with
    ⟨hok, hnone, hle⟩ | ⟨herror, hnone, hlt⟩ | ⟨⟨id, hreject⟩, hfound⟩
  · rw [← checkPtaskExecutionPermission_eq] at hok
    have hlength : a.machineIds.elements.length ≤ amounts.length := by
      by_cases hnil : a.machineIds.elements = []
      · rw [hnil]
        exact Nat.zero_le _
      · have := hle hnil
        omega
    constructor
    · intro h
      refine .inl ⟨hlength, hnone, fun hcomputes => ?_⟩
      obtain ⟨id, hid⟩ := h.rejected_iff.mpr hcomputes
      rw [hok] at hid
      cases hid
    · rintro (⟨-, -, hfine⟩ | ⟨hfound, -⟩)
      · constructor
        · rw [hok]
          intro h
          cases h
        · rw [hok]
          exact iff_of_false (fun ⟨_, h⟩ => by cases h) hfine
      · exact absurd hfound hnone
  · rw [← checkPtaskExecutionPermission_eq] at herror
    refine iff_of_false (fun h => h.inBounds herror) ?_
    rintro (⟨hle, -⟩ | ⟨hfound, -⟩)
    · omega
    · exact hnone hfound
  · rw [← checkPtaskExecutionPermission_eq] at hreject
    constructor
    · intro h
      exact .inr ⟨hfound, h.rejected_iff.mp ⟨id, hreject⟩⟩
    · rintro (⟨-, hnone, -⟩ | ⟨-, hcomputes⟩)
      · exact absurd hfound hnone
      · constructor
        · rw [hreject]
          intro h
          exact storageNodeError_ne id (Except.error.inj h)
        · exact iff_of_true ⟨id, hreject⟩ hcomputes

/-- All the executors are on compute nodes. -/
def AllPlacedCompute : Prop := ∀ executor id, a.PlacedOn executor id → ms.isComputeNode id = true

/-- One of the first machines of the allocation is not a compute node. -/
def StorageAmongFirst (n : Nat) : Prop :=
  ∃ i < n, ∃ id, a.machineIds.elements[i]? = some id ∧ ms.isComputeNode id = false

/-- The tasks with the same amount of computation for each executor: there are as many executors as
machines, and none computes, or all the machines are compute nodes, or the amount is too small to be
seen and the executors are on compute nodes; or the check and the placement both find a machine that
may not compute. -/
def SpreadFits (cpu : Amount) : Prop :=
  a.machineIds.size ≤ a.executors.length ∧
      (cpu = 0 ∨ (∀ id ∈ a.machineIds.elements, ms.isComputeNode id = true) ∨
        cpu ≤ computationEpsilon ∧ AllPlacedCompute ms a) ∨
    cpu > computationEpsilon ∧ StorageAmongFirst ms a a.executors.length ∧ ¬ AllPlacedCompute ms a

variable {ms a amounts}

theorem computationEpsilon_pos : 0 < computationEpsilon := by
  rw [computationEpsilon]
  exact div_pos one_pos (by decide)

theorem foundAt_replicate {n : Nat} {cpu : Amount} (hcpu : 0 ≤ cpu) :
    FoundAt ms (List.replicate n cpu) 0 a.machineIds.elements ↔
      cpu > computationEpsilon ∧ StorageAmongFirst ms a n := by
  constructor
  · rintro ⟨i, id, c, hid, hc, hlarge, hstorage⟩
    rw [Nat.zero_add, List.getElem?_replicate] at hc
    split at hc
    · next hi =>
      obtain rfl := Option.some.inj hc
      rw [abs_of_nonneg hcpu] at hlarge
      exact ⟨hlarge, i, hi, id, hid, hstorage⟩
    · cases hc
  · rintro ⟨hlarge, i, hi, id, hid, hstorage⟩
    refine ⟨i, id, cpu, hid, ?_, ?_, hstorage⟩
    · rw [Nat.zero_add, List.getElem?_replicate, if_pos hi]
    · rw [abs_of_nonneg hcpu]
      exact hlarge

theorem computesOnStorage_replicate {cpu : Amount} :
    ComputesOnStorage ms a (List.replicate a.executors.length cpu) ↔
      cpu ≠ 0 ∧ ¬ AllPlacedCompute ms a := by
  constructor
  · rintro ⟨executor, id, c, hplaced, hc, hne, hstorage⟩
    rw [List.eq_of_mem_replicate (List.mem_of_getElem? hc)] at hne
    refine ⟨hne, fun hall => ?_⟩
    rw [hall executor id hplaced] at hstorage
    cases hstorage
  · rintro ⟨hne, hnot⟩
    simp only [AllPlacedCompute, not_forall, Bool.not_eq_true] at hnot
    obtain ⟨executor, id, hplaced, hstorage⟩ := hnot
    refine ⟨executor, id, cpu, hplaced, ?_, hne, hstorage⟩
    obtain ⟨j, hj, -⟩ := hplaced
    rw [List.getElem?_replicate, if_pos (List.getElem?_eq_some_iff.mp hj).1]

theorem amountsFit_spread {cpu : Amount} (hcpu : 0 ≤ cpu) :
    AmountsFit ms a (List.replicate a.executors.length cpu) a.executors.length ↔
      SpreadFits ms a cpu := by
  have hplaced : (∀ id ∈ a.machineIds.elements, ms.isComputeNode id = true) →
      AllPlacedCompute ms a := by
    rintro hall executor id ⟨j, -, hid⟩
    exact hall id (List.mem_of_getElem? hid)
  have hfirst : (∀ id ∈ a.machineIds.elements, ms.isComputeNode id = true) →
      ¬ StorageAmongFirst ms a a.executors.length := by
    rintro hall ⟨i, -, id, hid, hstorage⟩
    rw [hall id (List.mem_of_getElem? hid)] at hstorage
    cases hstorage
  have hall : a.machineIds.size ≤ a.executors.length →
      ¬ StorageAmongFirst ms a a.executors.length →
      ∀ id ∈ a.machineIds.elements, ms.isComputeNode id = true := by
    intro hle hnot id hid
    obtain ⟨i, hi⟩ := List.getElem?_of_mem hid
    have hlt : i < a.machineIds.elements.length := (List.getElem?_eq_some_iff.mp hi).1
    by_contra hstorage
    exact hnot ⟨i, hlt.trans_le hle, id, hi, Bool.not_eq_true _ ▸ hstorage⟩
  rw [AmountsFit, SpreadFits, foundAt_replicate hcpu, computesOnStorage_replicate]
  constructor
  · rintro (⟨hle, hnot, hfine⟩ | ⟨⟨hlarge, hstorage⟩, hne, hnotplaced⟩)
    · refine .inl ⟨hle, ?_⟩
      by_cases hzero : cpu = 0
      · exact .inl hzero
      · have hplacedAll : AllPlacedCompute ms a := by
          by_contra hnotplaced
          exact hfine ⟨hzero, hnotplaced⟩
        by_cases hlarge : cpu > computationEpsilon
        · exact .inr (.inl (hall hle fun hstorage => hnot ⟨hlarge, hstorage⟩))
        · exact .inr (.inr ⟨not_lt.mp hlarge, hplacedAll⟩)
    · exact .inr ⟨hlarge, hstorage, hnotplaced⟩
  · rintro (⟨hle, hzero | hnodes | ⟨hsmall, hplacedAll⟩⟩ | ⟨hlarge, hstorage, hnotplaced⟩)
    · refine .inl ⟨hle, fun h => ?_, fun h => h.1 hzero⟩
      rw [hzero] at h
      exact absurd h.1 (not_lt.mpr (le_of_lt computationEpsilon_pos))
    · exact .inl ⟨hle, fun h => hfirst hnodes h.2, fun h => h.2 (hplaced hnodes)⟩
    · exact .inl ⟨hle, fun h => absurd h.1 (not_lt.mpr hsmall), fun h => h.2 hplacedAll⟩
    · exact .inr ⟨⟨hlarge, hstorage⟩, (computationEpsilon_pos.trans hlarge).ne', hnotplaced⟩

/-- The tasks that do not compute. -/
theorem amountsFit_zeros {n : Nat} :
    AmountsFit ms a (List.replicate n 0) n ↔ a.machineIds.size ≤ n := by
  have hfound : ¬ FoundAt ms (List.replicate n 0) 0 a.machineIds.elements := by
    rw [foundAt_replicate le_rfl]
    exact fun h => absurd h.1 (not_lt.mpr (le_of_lt computationEpsilon_pos))
  have hcomputes : ¬ ComputesOnStorage ms a (List.replicate n 0) := by
    rintro ⟨executor, id, c, -, hc, hne, -⟩
    exact hne (List.eq_of_mem_replicate (List.mem_of_getElem? hc))
  rw [AmountsFit]
  simp only [hfound, hcomputes, not_false_eq_true, and_true, and_self, or_false]

theorem amount_of_append_zeros {n i : Nat} {c : Amount}
    (h : (amounts ++ List.replicate n 0)[i]? = some c) : amounts[i]? = some c ∨ c = 0 := by
  by_cases hi : i < amounts.length
  · rw [List.getElem?_append_left hi] at h
    exact .inl h
  · rw [List.getElem?_append_right (not_lt.mp hi)] at h
    exact .inr (List.eq_of_mem_replicate (List.mem_of_getElem? h))

theorem getElem?_append_of_some {others : List Amount} {i : Nat} {c : Amount}
    (h : amounts[i]? = some c) : (amounts ++ others)[i]? = some c := by
  rw [List.getElem?_append_left (List.getElem?_eq_some_iff.mp h).1]
  exact h

/-- The amounts that are left at zero do not matter. -/
theorem amountsFit_append_zeros {n nb : Nat} :
    AmountsFit ms a (amounts ++ List.replicate n 0) nb ↔ AmountsFit ms a amounts nb := by
  have hfound : FoundAt ms (amounts ++ List.replicate n 0) 0 a.machineIds.elements ↔
      FoundAt ms amounts 0 a.machineIds.elements := by
    constructor
    · rintro ⟨i, id, c, hid, hc, hlarge, hstorage⟩
      rcases amount_of_append_zeros hc with hc | rfl
      · exact ⟨i, id, c, hid, hc, hlarge, hstorage⟩
      · rw [abs_zero] at hlarge
        exact absurd hlarge (not_lt.mpr (le_of_lt computationEpsilon_pos))
    · rintro ⟨i, id, c, hid, hc, hfound⟩
      exact ⟨i, id, c, hid, getElem?_append_of_some hc, hfound⟩
  have hcomputes : ComputesOnStorage ms a (amounts ++ List.replicate n 0) ↔
      ComputesOnStorage ms a amounts := by
    constructor
    · rintro ⟨executor, id, c, hplaced, hc, hne, hstorage⟩
      rcases amount_of_append_zeros hc with hc | rfl
      · exact ⟨executor, id, c, hplaced, hc, hne, hstorage⟩
      · exact absurd rfl hne
    · rintro ⟨executor, id, c, hplaced, hc, hne, hstorage⟩
      exact ⟨executor, id, c, hplaced, getElem?_append_of_some hc, hne, hstorage⟩
  rw [AmountsFit, AmountsFit, hfound, hcomputes]

end task

/-! ### The tasks of the profiles -/

/-- The amounts of computation that `generate_parallel_task` copies: all of them, but for a profile
over 2^61 hosts or more. -/
def ParallelProfileData.copiedCpu (data : ParallelProfileData) : List Amount :=
  data.cpu.take (copiedComputations data.nbRes)

/-- When the check of the machines does what it should for the executors. -/
def TaskProfileData.ChecksExecutors (ms : Machines) (a : TaskAllocation) : TaskProfileData → Prop
  | .parallel data => AmountsFit ms a data.copiedCpu data.nbRes
  | .parallelHomogeneous cpu _ => SpreadFits ms a cpu
  | .parallelHomogeneousTotalAmount cpu _ => SpreadFits ms a (cpu / a.executors.length)
  | .parallelHomogeneousPfs .. => a.machineIds.size ≤ a.executors.length + 1
  | .dataStaging .. => a.machineIds.size ≤ 2

theorem length_jobHosts {ms : Machines} {a : TaskAllocation} {hosts : List Nat}
    (h : jobHosts ms a = .ok hosts) : hosts.length = a.executors.length :=
  length_of_collect h

/-- The server takes allocations of machines only. -/
theorem exists_machine_of_accepted {cfg : Config} {s s' : Sim} {a : SchedulingAllocation}
    (h : serverOnExecuteJob cfg s a = .ok s') :
    ∀ id ∈ a.machineIds.elements, ∃ m, s.machines.machines[id]? = some m := by
  simp only [serverOnExecuteJob, checkAllocation, bind_eq_ok, xbtAssert_eq_ok] at h
  obtain ⟨_, -, _, -, _, ⟨_, hsharing, -⟩, -⟩ := h
  intro id hid
  obtain ⟨_, _, hmachine⟩ := exists_step_of_forEach hsharing id hid
  simp only [bind_eq_ok] at hmachine
  obtain ⟨m, hm, -⟩ := hmachine
  exact ⟨m, Machines.at?_eq_ok.mp hm⟩

/-- The check does what it should exactly when the profile, the allocation and the mapping say so. -/
theorem permission_checks_executors_iff {N : Type} {num : Numbers N}
    {errorPrefix profileName : String} {desc : Value N} {profile : TaskProfileData} {cfg : Config}
    {s s' : Sim} {p : JobPtr} {a : TaskAllocation} {hosts hosts' : List Nat} {m : Matrices}
    (haccepted : taskProfileFromJson num errorPrefix profileName desc = .ok profile)
    (hserver : serverOnExecuteJob cfg s (a.scheduled p) = .ok s')
    (hhosts : jobHosts s.machines a = .ok hosts)
    (hgenerated : profile.generateMatrices s.machines hosts (some a.storageMapping) =
      .ok (some m, hosts')) :
    PermissionChecked s.machines a m.computationVector ↔ profile.ChecksExecutors s.machines a := by
  have hacceptable := acceptable_of_accepted haccepted
  have hlength := length_jobHosts hhosts
  rw [permissionChecked_iff _ _ _ (exists_machine_of_accepted hserver)]
  cases profile with
  | parallel data =>
    simp only [TaskProfileData.generateMatrices, bind_eq_ok, Except.ok.injEq, Prod.mk.injEq,
      ParallelProfileData.generateParallelTask, xbtAssert_eq_ok] at hgenerated
    obtain ⟨_, ⟨_, hnb, rfl⟩, hmatrices, -⟩ := hgenerated
    simp only [Option.bind_eq_bind, Option.bind_eq_some_iff, Option.some.injEq] at hmatrices
    obtain ⟨computations, hcopy, _, -, rfl⟩ := hmatrices
    obtain ⟨-, rfl⟩ := memcpy_eq_some.mp hcopy
    have hsize := (length_memcpy hcopy).trans List.length_replicate
    dsimp only
    rw [hsize, hnb, List.drop_replicate, amountsFit_append_zeros]
    rfl
  | parallelHomogeneous cpu com =>
    simp only [TaskProfileData.generateMatrices, Except.ok.injEq, Prod.mk.injEq,
      Option.some.injEq] at hgenerated
    obtain ⟨rfl, -⟩ := hgenerated
    simp only [generateParallelHomogeneous, generateSpread, hlength, List.length_replicate]
    exact amountsFit_spread hacceptable.1
  | parallelHomogeneousTotalAmount cpu com =>
    simp only [TaskProfileData.generateMatrices, Except.ok.injEq, Prod.mk.injEq,
      Option.some.injEq] at hgenerated
    obtain ⟨rfl, -⟩ := hgenerated
    simp only [generateParallelHomogeneousTotalAmount, generateSpread, hlength,
      List.length_replicate]
    exact amountsFit_spread (div_nonneg hacceptable.1 (Nat.cast_nonneg _))
  | parallelHomogeneousPfs bytesToRead bytesToWrite label =>
    simp only [TaskProfileData.generateMatrices, bind_eq_ok, Except.ok.injEq, Prod.mk.injEq,
      Option.some.injEq, Prod.exists] at hgenerated
    obtain ⟨_, hosts'', hgenerated, rfl, -⟩ := hgenerated
    rw [(generateParallelHomogeneousWithPfs_effect hgenerated).2.1, List.length_replicate, hlength]
    exact amountsFit_zeros
  | dataStaging nbBytes fromLabel toLabel =>
    simp only [TaskProfileData.generateMatrices, generateDataStagingTask, bind_eq_ok,
      Except.ok.injEq, Prod.mk.injEq, Option.some.injEq, Prod.exists] at hgenerated
    obtain ⟨_, _, ⟨first, -, second, -, rfl, -⟩, rfl, -⟩ := hgenerated
    exact amountsFit_zeros

/-- A description of type `parallel_homogeneous` that only computes -/
def computingDescription : Value Int :=
  .obj [("type", .str "parallel_homogeneous"), ("cpu", .num 1), ("com", .num 0)]

theorem computingDescription_accepted :
    taskProfileFromJson integerNumbers "" "p" computingDescription =
      .ok (.parallelHomogeneous 1 0) := rfl

def onLoneMachine : TaskAllocation where
  machineIds := loneMachine
  mapping := []
  storageMapping := []
  ioAllocation := .empty

/-- A job with one executor, on a compute node. -/
theorem lone_executor_is_checked :
    PermissionChecked computingJob.machines onLoneMachine [1] := by
  obtain ⟨s', hserver, -⟩ := exists_of_succeedsWith (P := fun _ => true)
    (x := serverOnExecuteJob loneHost computingJob (onLoneMachine.scheduled loneJobPtr))
    (by decide +kernel)
  have hgenerated : (TaskProfileData.parallelHomogeneous 1 0).generateMatrices computingJob.machines
      [0] (some onLoneMachine.storageMapping) = .ok (some ⟨[1], []⟩, [0]) := by decide +kernel
  refine (permission_checks_executors_iff computingDescription_accepted hserver (by decide +kernel)
    hgenerated).mpr ?_
  refine .inl ⟨by decide, .inr (.inl ?_)⟩
  decide +kernel

/-- The job has two executors, on a platform with a compute node and a storage node. -/
def twoExecutors : Sim :=
  { start loneHost with
    machines := storageMachines
    job := fun _ =>
      { Job.new { loneJobDescription with res := 2 }
          { name := "p", type := .parallelHomogeneous } with state := .submitted }
    data := { nbSubmittedJobs := 1 } }

/-- The allocation has both machines, and the mapping places both executors on the compute node. -/
def bothOnComputeNode : TaskAllocation where
  machineIds := ⟨[0, 1], by decide⟩
  mapping := [0, 0]
  storageMapping := []
  ioAllocation := .empty

/-- The task is rejected because of the storage node, where nothing is computed. -/
theorem unused_storage_node_rejected :
    ¬ ∀ (desc : Value Int) (profile : TaskProfileData) (cfg : Config) (s s' : Sim) (p : JobPtr)
      (a : TaskAllocation) (hosts hosts' : List Nat) (m : Matrices),
      taskProfileFromJson integerNumbers "" "p" desc = .ok profile →
      serverOnExecuteJob cfg s (a.scheduled p) = .ok s' → jobHosts s.machines a = .ok hosts →
      profile.generateMatrices s.machines hosts (some a.storageMapping) = .ok (some m, hosts') →
      PermissionChecked s.machines a m.computationVector := by
  intro hall
  obtain ⟨s', hserver, -⟩ := exists_of_succeedsWith (P := fun _ => true)
    (x := serverOnExecuteJob loneHost twoExecutors (bothOnComputeNode.scheduled loneJobPtr))
    (by decide +kernel)
  have hchecked := hall _ _ _ _ s' _ bothOnComputeNode [0, 0] [0, 0] ⟨[1, 1], []⟩
    computingDescription_accepted hserver (by decide +kernel) (by decide +kernel)
  have hreject : checkPtaskExecutionPermission twoExecutors.machines bothOnComputeNode.machineIds
      [1, 1] = .error (storageNodeError 1) := by decide +kernel
  obtain ⟨executor, id, c, ⟨j, hj, hid⟩, -, -, hstorage⟩ := hchecked.rejected_iff.mp ⟨1, hreject⟩
  obtain rfl : j = 0 := List.eq_of_mem_replicate (n := 2) (List.mem_of_getElem? hj)
  obtain rfl : 0 = id := Option.some.inj hid
  exact absurd hstorage (by decide +kernel)

end Batsim
