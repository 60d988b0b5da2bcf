import Batsim.ExecuteJobRequests
import Batsim.ExecutionPermission
import Batsim.MachineChanges

/-!
The lists of hosts that `execute_job_process` makes of an allocation, of the mapping of its
executors and of the allocation of its IO task.
-/

namespace Batsim

open Checked Json

/-- The hosts are those of the machines that the executors and the IO allocation stand for. -/
def HostListsMatch (ms : Machines) (a : TaskAllocation) : Prop :=
  ∃ hosts io, jobHosts ms a = .ok hosts ∧ ioHosts ms a = .ok io ∧
    hosts.length = a.executors.length ∧
    (∀ (k i : Nat), a.executors[k]? = some i →
      ∃ id, a.machineIds.elements[i]? = some id ∧ hosts[k]? = some id) ∧
    ∀ k, k < a.ioAllocation.size → io[k]? = a.ioAllocation.elements[k]?

/-- The machines of the IO allocation are the first ones of the platform. -/
def IntervalSet.IsFirst (ms : Machines) (ids : IntervalSet) : Prop :=
  ids.size ≤ ms.machines.length ∧ ∀ k, k < ids.size → ids.elements[k]? = some k

section lists

variable {ms : Machines} {a : TaskAllocation}

/-- The executors are on machines of the allocation, which exist. -/
theorem exists_jobHosts (hplace : ∀ i ∈ a.executors, i < a.machineIds.size)
    (hmachines : ∀ id ∈ a.machineIds.elements, ∃ m, ms.machines[id]? = some m) :
    ∃ hosts, jobHosts ms a = .ok hosts ∧ hosts.length = a.executors.length ∧
      ∀ (k i : Nat), a.executors[k]? = some i →
        ∃ id, a.machineIds.elements[i]? = some id ∧ hosts[k]? = some id := by
  have hsucceeds : ∀ i ∈ a.executors, ∃ id, (do
      let id ← vectorAt a.machineIds.elements i
      let _ ← ms.at? id
      Except.ok id : Except String Nat) = .ok id := by
    intro i hi
    obtain ⟨id, hid⟩ : ∃ id, a.machineIds.elements[i]? = some id :=
      ⟨_, List.getElem?_eq_getElem (hplace i hi)⟩
    obtain ⟨m, hm⟩ := hmachines id (List.mem_of_getElem? hid)
    refine ⟨id, bind_eq_ok.mpr ⟨id, vectorAt_eq_ok.mpr hid, ?_⟩⟩
    exact bind_eq_ok.mpr ⟨m, Machines.at?_eq_ok.mpr hm, rfl⟩
  obtain ⟨hosts, hhosts⟩ := collect_succeeds hsucceeds
  have hhosts' : jobHosts ms a = .ok hosts := hhosts
  refine ⟨hosts, hhosts', length_jobHosts hhosts', fun k i hk => ?_⟩
  obtain ⟨id, hid, hread⟩ := getElem?_of_collect hhosts hk
  simp only [bind_eq_ok, vectorAt_eq_ok, Except.ok.injEq] at hread
  obtain ⟨_, helement, _, -, rfl⟩ := hread
  exact ⟨_, helement, hid⟩

/-- The IO hosts are those of the first machines, whichever the IO allocation has. -/
theorem ioHosts_eq_ok {io : List Nat} : ioHosts ms a = .ok io ↔
    a.ioAllocation.size ≤ ms.machines.length ∧ io = List.range a.ioAllocation.size := by
  have hread : ∀ id id', (do
      let _ ← ms.at? id
      Except.ok id : Except String Nat) = .ok id' ↔ id < ms.machines.length ∧ id' = id := by
    intro id id'
    simp only [bind_eq_ok, Machines.at?_eq_ok, Except.ok.injEq, exists_and_right,
      List.getElem?_eq_some_iff]
    constructor
    · rintro ⟨⟨_, hid, -⟩, rfl⟩
      exact ⟨hid, rfl⟩
    · rintro ⟨hid, rfl⟩
      exact ⟨⟨_, hid, rfl⟩, rfl⟩
  rw [ioHosts]
  constructor
  · intro h
    have hsame : List.Forall₂ (· = ·) io (List.range a.ioAllocation.size) :=
      ((collect_eq_ok.mp h).imp fun id id' hid => ((hread id id').mp hid).2).flip
    rw [List.forall₂_eq_eq_eq] at hsame
    refine ⟨Nat.le_of_not_lt fun hlt => ?_, hsame⟩
    obtain ⟨_, -, hid⟩ := exists_of_collect_eq_ok h (List.mem_range.mpr hlt)
    exact absurd ((hread _ _).mp hid).1 (Nat.lt_irrefl _)
  · rintro ⟨hle, rfl⟩
    refine collect_eq_ok.mpr (List.forall₂_same.mpr fun id hid => (hread id id).mpr ⟨?_, rfl⟩)
    exact (List.mem_range.mp hid).trans_le hle

/-- The lists match exactly when the IO allocation has the first machines. -/
theorem hostListsMatch_iff (hplace : ∀ i ∈ a.executors, i < a.machineIds.size)
    (hmachines : ∀ id ∈ a.machineIds.elements, ∃ m, ms.machines[id]? = some m) :
    HostListsMatch ms a ↔ a.ioAllocation.IsFirst ms := by
  constructor
  · rintro ⟨_, io, -, hio, -, -, hlist⟩
    obtain ⟨hle, rfl⟩ := ioHosts_eq_ok.mp hio
    refine ⟨hle, fun k hk => ?_⟩
    rw [← hlist k hk, List.getElem?_range hk]
  · rintro ⟨hle, hfirst⟩
    obtain ⟨hosts, hhosts, hlength, hlist⟩ := exists_jobHosts hplace hmachines
    refine ⟨hosts, _, hhosts, ioHosts_eq_ok.mpr ⟨hle, rfl⟩, hlength, hlist, fun k hk => ?_⟩
    rw [hfirst k hk, List.getElem?_range hk]

end lists

section accepted

theorem bmod_natCast_le (n : Nat) : Int.bmod n (2 ^ 32) ≤ n := by
  have hle : (n : Int) % (2 ^ 32 : Nat) ≤ n := by
    rw [← Int.natCast_emod]
    exact Int.ofNat_le.mpr (Nat.mod_le n _)
  rw [Int.bmod_def]
  split
  · exact hle
  · exact (Int.sub_le_self _ (Int.natCast_nonneg _)).trans hle

variable {N : Type} {x : ExecuteReader N} {ws ws' : ProfileStores} {data : Value N}
  {message : ExecuteJobMessage}

/-- The executors of an accepted request are placed within its allocation. -/
theorem executors_lt (h : x.handleExecuteJob ws data = .ok (ws', message)) :
    ∀ i ∈ message.allocation.executors, i < message.allocation.machineIds.size := by
  simp only [ExecuteReader.handleExecuteJob, bind_eq_ok, xbtAssert_eq_ok, exists_const] at h
  obtain ⟨-, -, _, -, job, -, p, -, _, -, machineIds, -, hpos, mapping, hmapping, storageMapping, -,
    ⟨_, ioProfile, ioAllocation⟩, -, hr⟩ := h
  obtain ⟨-, rfl⟩ := Prod.ext_iff.mp (Except.ok.inj hr)
  intro i hi
  rw [TaskAllocation.executors] at hi
  split at hi
  · exact List.mem_range.mp hi
  · next hne =>
    rcases ExecuteReader.ifPresent_eq_ok.mp hmapping with ⟨-, rfl⟩ | ⟨v, -, hread⟩
    · exact absurd rfl hne
    · obtain ⟨entries, -, hentries⟩ := ExecuteReader.readMapping_of_member hread
      obtain ⟨hall, rfl⟩ := readMapping_eq_ok.mp hentries
      obtain ⟨e, he, rfl⟩ := List.mem_map.mp hi
      obtain ⟨k, hk⟩ := List.mem_iff_getElem?.mp he
      obtain ⟨-, hnonneg, hlt⟩ := hall k e hk
      have hbound : nbAllocatedResources machineIds ≤ machineIds.size :=
        bmod_natCast_le machineIds.size
      dsimp only at hlt ⊢
      omega

theorem length_of_evolve {ms ms' : Machines} (h : ms.Evolve ms') :
    ms'.machines.length = ms.machines.length := by
  have hnone : ∀ id : Nat, ms.machines[id]? = none ↔ ms'.machines[id]? = none := by
    intro id
    have hid := h id
    generalize ms.machines[id]? = o at hid ⊢
    generalize ms'.machines[id]? = o' at hid ⊢
    cases hid <;> simp
  simp only [List.getElem?_eq_none_iff] at hnone
  have hle := (hnone ms.machines.length).mp le_rfl
  have hge := (hnone ms'.machines.length).mpr le_rfl
  omega

/-- The hosts of the job are always those of its executors; those of its IO task are those of the
IO allocation exactly if it has the first machines of the platform. -/
theorem host_lists_match_iff {cfg : Config} {s s' : Sim} {p : JobPtr} {ms : Machines}
    (hread : x.handleExecuteJob ws data = .ok (ws', message))
    (hserver : serverOnExecuteJob cfg s (message.allocation.scheduled p) = .ok s')
    (hms : s.machines.Evolve ms) :
    HostListsMatch ms message.allocation ↔ message.allocation.ioAllocation.IsFirst ms := by
  refine hostListsMatch_iff (executors_lt hread) fun id hid => ?_
  obtain ⟨m, hm⟩ := exists_machine_of_accepted hserver id hid
  have hlt := (List.getElem?_eq_some_iff.mp hm).1
  rw [← length_of_evolve hms] at hlt
  exact ⟨_, List.getElem?_eq_getElem hlt⟩

end accepted

/-! ### An IO task on the second machine -/

/-- The request to execute the job on the first machine, with an IO task. -/
def requestWithIo (ioAlloc : String) : Value Int :=
  loneRequest [("additional_io_job",
    .obj [("profile_name", .str "p"), ("alloc", .str ioAlloc)])]

/-- The job waits on a platform with a compute node and a storage node. -/
def besideStorage : Sim := { computingJob with machines := storageMachines }

theorem first_machine_matches : ∃ r, loneReader.handleExecuteJob loneStores (requestWithIo "0") =
    .ok r ∧ HostListsMatch storageMachines r.2.allocation := by
  obtain ⟨r, hread, h⟩ := exists_of_succeedsWith
    (x := loneReader.handleExecuteJob loneStores (requestWithIo "0"))
    (P := fun r => succeedsWith (serverOnExecuteJob loneHost besideStorage
        (r.2.allocation.scheduled loneJobPtr)) (fun _ => true) &&
      decide (r.2.allocation.ioAllocation.elements = [0])) (by decide +kernel)
  obtain ⟨hserver, hio⟩ := (Bool.and_eq_true ..).mp h
  obtain ⟨s', hserver, -⟩ := exists_of_succeedsWith hserver
  have hio := of_decide_eq_true hio
  have hkept : storageMachines.Change 0 storageMachines := .refl _
  refine ⟨r, hread, (host_lists_match_iff hread hserver hkept.evolve).mpr ⟨?_, ?_⟩⟩
  · rw [IntervalSet.size, hio]
    decide
  · rw [IntervalSet.size, hio]
    decide

/-- The hosts of an IO task on the storage node are those of an IO task on the compute node. -/
theorem storage_node_not_matched :
    ¬ ∀ (x : ExecuteReader Int) (ws ws' : ProfileStores) (data : Value Int)
      (message : ExecuteJobMessage) (cfg : Config) (s s' : Sim) (p : JobPtr),
      x.handleExecuteJob ws data = .ok (ws', message) →
      serverOnExecuteJob cfg s (message.allocation.scheduled p) = .ok s' →
      HostListsMatch s.machines message.allocation := by
  intro hall
  obtain ⟨r, hread, h⟩ := exists_of_succeedsWith
    (x := loneReader.handleExecuteJob loneStores (requestWithIo "1"))
    (P := fun r => succeedsWith (serverOnExecuteJob loneHost besideStorage
        (r.2.allocation.scheduled loneJobPtr)) (fun _ => true) &&
      decide (r.2.allocation.ioAllocation.elements = [1])) (by decide +kernel)
  obtain ⟨hserver, hio⟩ := (Bool.and_eq_true ..).mp h
  obtain ⟨s', hserver, -⟩ := exists_of_succeedsWith hserver
  have hio := of_decide_eq_true hio
  obtain ⟨_, io, -, hlist, -, -, hmatch⟩ := hall loneReader loneStores r.1 (requestWithIo "1") r.2
    loneHost besideStorage s' loneJobPtr hread hserver
  obtain ⟨-, rfl⟩ := ioHosts_eq_ok.mp hlist
  have hfirst := hmatch 0 (by rw [IntervalSet.size, hio]; decide)
  rw [IntervalSet.size, hio] at hfirst
  cases hfirst

end Batsim
