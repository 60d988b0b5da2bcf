import Batsim.Machines

/-!
The creation of the machines from the hosts of a platform: roles, order, limit and numbers.
-/

namespace Batsim

open Checked

/-- A host as the platform library lists it. -/
structure PlatformHost where
  name : String
  /-- the `role` property -/
  role : Option String := none
  host : Host := {}
  /-- the speed in each pstate -/
  speeds : List Date := [1]
deriving DecidableEq

/-- A machine with its number and its name. -/
structure NamedMachine where
  id : Int := -1
  name : String
  machine : Machine

/-- The machines by role, while they are created. -/
structure Nodes where
  computeNodes : List NamedMachine := []
  storageNodes : List NamedMachine := []
  masterMachine : Option NamedMachine := none

/-- `Machines`, with the numbers and the names -/
structure NamedMachines where
  machines : List NamedMachine
  masterMachine : NamedMachine
  nbMachinesInEachState : MachineState → Int

namespace NamedMachines

/-- The machines without their names. -/
def toMachines (ms : NamedMachines) : Machines where
  machines := ms.machines.map NamedMachine.machine
  nbMachinesInEachState := ms.nbMachinesInEachState

end NamedMachines

/-! ### Roles -/

/-- `permissions_from_role` -/
def permissionsFromRole (role : String) : Except String Permissions :=
  if role = "" then .ok Permissions.computeNode
  else if role = "master" then .ok 0
  else if role = "compute_node" then .ok Permissions.computeNode
  else if role = "storage" then .ok Permissions.storage
  else .error ("Cannot create any role from string description '" ++ role ++
    "' existing roles are: compute_node, master, storage, ")

/-- The role of a host, with the one given on the command line. -/
def PlatformHost.roleWith (roleMap : String → Option String) (h : PlatformHost) : String :=
  match roleMap h.name, h.role with
  | some cli, some role => role ++ "," ++ cli
  | some cli, none => cli
  | none, some role => role
  | none, none => ""

/-! ### Names -/

/-- The bytes of a `std::string`. -/
def stringBytes (s : String) : List UInt8 := s.toUTF8.data.toList

/-- The characters of a C string, as `char` values. -/
def cChars (s : List UInt8) : List Int :=
  s.map fun b => if b.toNat < 128 then b.toNat else (b.toNat : Int) - 256

def isDigit (c : Int) : Bool := 48 ≤ c && c ≤ 57

def longMax : Int := 9223372036854775807

/-- `strtol` where a digit stands: the value of the digits, at most `LONG_MAX`. -/
def strtol (p : List Int) : Int :=
  min longMax ((p.takeWhile isDigit).foldl (fun n c => 10 * n + (c - 48)) 0)

/-- The loop of `string_numeric_comparator`; each turn consumes at least one character of each
string, so the length of the first one is enough `fuel`. -/
def compareFrom : Nat → List Int → List Int → Except String Int
  | _, [], [] => .ok 0
  | _, [], _ :: _ => .ok (-1)
  | _, _ :: _, [] => .ok 1
  | 0, _ :: _, _ :: _ => .error "not enough fuel"
  | fuel + 1, c1 :: p1, c2 :: p2 =>
    if isDigit c1 && isDigit c2 then do
      let int1 := strtol (c1 :: p1)
      let int2 := strtol (c2 :: p2)
      xbtAssert (int1 ≠ longMax) "Numeric overflow while reading"
      -- the second check looks at the first number again
      xbtAssert (int1 ≠ longMax) "Numeric overflow while reading"
      if int1 ≠ int2 then .ok (Int.bmod (int1 - int2) (2 ^ 32))
      else compareFrom fuel (p1.dropWhile isDigit) (p2.dropWhile isDigit)
    else if c1 ≠ c2 then .ok (c1 - c2)
    else compareFrom fuel p1 p2

/-- More fuel than characters changes nothing. -/
theorem compareFrom_succ {fuel : Nat} {p1 p2 : List Int} (h : p1.length ≤ fuel) :
    compareFrom (fuel + 1) p1 p2 = compareFrom fuel p1 p2 := by
  induction fuel generalizing p1 p2 with
  | zero =>
    obtain rfl := List.length_eq_zero_iff.mp (Nat.le_zero.mp h)
    cases p2 <;> rfl
  | succ fuel ih =>
    cases p1 with
    | nil => cases p2 <;> rfl
    | cons c1 p1 =>
      cases p2 with
      | nil => rfl
      | cons c2 p2 =>
        have hlength : p1.length ≤ fuel := by simpa using h
        have hdrop : (p1.dropWhile isDigit).length ≤ fuel :=
          (List.dropWhile_sublist _).length_le.trans hlength
        simp only [compareFrom, ih hlength, ih hdrop]

/-- `string_numeric_comparator` -/
def stringNumericComparator (s1 s2 : List UInt8) : Except String Int :=
  compareFrom (cChars s1).length (cChars s1) (cChars s2)

/-- `strcmp`, which compares bytes -/
def strcmp (s1 s2 : List UInt8) : Int :=
  if s1.map UInt8.toNat < s2.map UInt8.toNat then -1
  else if s2.map UInt8.toNat < s1.map UInt8.toNat then 1 else 0

/-- `machine_comparator_name`, on the names of the machines -/
def machineComparatorName (name1 name2 : List UInt8) : Except String Bool := do
  let cmp ← stringNumericComparator name1 name2
  .ok (if cmp = 0 then strcmp name1 name2 < 0 else cmp < 0)

/-- The name `a` comes before the name `b`. -/
def NameBefore (a b : String) : Prop :=
  machineComparatorName (stringBytes a) (stringBytes b) = .ok true

instance (a b : String) : Decidable (NameBefore a b) :=
  inferInstanceAs (Decidable (machineComparatorName (stringBytes a) (stringBytes b) = .ok true))

/-- Insert a machine in a sorted list. -/
def insertByName (m : NamedMachine) : List NamedMachine → Except String (List NamedMachine)
  | [] => .ok [m]
  | x :: xs => do
    let before ← machineComparatorName (stringBytes m.name) (stringBytes x.name)
    if before then .ok (m :: x :: xs)
    else do
      let rest ← insertByName m xs
      .ok (x :: rest)

/-- `sort_machines_by_ascending_name`: the vector it sorts and numbers. -/
def sortMachinesByAscendingName (ms : List NamedMachine) : Except String (List NamedMachine) := do
  let sorted ← forEach (fun sorted m => insertByName m sorted) [] ms
  .ok (sorted.mapIdx fun i m => { m with id := i })

/-! ### Creation -/

/-- The check that a machine that may compute does compute. -/
def checkSpeeds (energyUsed : Bool) (h : PlatformHost) (m : Machine) : Except String Unit :=
  if m.permissions &&& 1 = 1 then
    if energyUsed then
      forEach (fun _ (pstate : Nat) =>
        xbtAssert (m.pstateType (pstate : Int) = .computationPstate →
            0 < (h.speeds[pstate]?).getD 0)
          ("Invalid platform file: host '" ++ h.name ++
            "' has an invalid (non-positive computing speed) computing pstate")) ()
        (List.range m.hostNbPstates)
    else
      xbtAssert (0 < (h.speeds[h.host.pstate]?).getD 0)
        ("Invalid platform file: host '" ++ h.name ++
          "' is a compute node but has an invalid (non-positive) computing speed.")
  else .ok ()

/-- The machine of a host. -/
def createMachine (energyUsed : Bool) (roleMap : String → Option String) (h : PlatformHost) :
    Except String NamedMachine := do
  let permissions ← permissionsFromRole (h.roleWith roleMap)
  let m ← Machine.create energyUsed { h.host with permissions := permissions }
  checkSpeeds energyUsed h m
  .ok { name := h.name, machine := m }

/-- One turn of the loop of `create_machines`. -/
def addHost (energyUsed : Bool) (roleMap : String → Option String) (nodes : Nodes)
    (h : PlatformHost) : Except String Nodes := do
  let m ← createMachine energyUsed roleMap h
  if m.machine.permissions = Permissions.computeNode then
    .ok { nodes with computeNodes := nodes.computeNodes ++ [m] }
  else if m.machine.permissions = Permissions.storage then
    .ok { nodes with storageNodes := nodes.storageNodes ++ [m] }
  else if m.machine.permissions = 0 then do
    xbtAssert (nodes.masterMachine.isNone = true) "There are two master hosts..."
    .ok { nodes with masterMachine := some m }
  else .ok nodes

/-- `create_machines`. The sort works on a copy of the vector, which it then forgets; the numbers
that it gives through the pointers are given again. -/
def createNamedMachines (energyUsed : Bool) (roleMap : String → Option String)
    (limitMachineCount : Int) (hosts : List PlatformHost) : Except String NamedMachines := do
  xbtAssert (limitMachineCount = -1 ∨ limitMachineCount > 0)
    ("Bad call to Machines::create_machines(): limit_machine_count (" ++
      toString limitMachineCount ++ ") not -1 nor strictly positive")
  let nodes ← forEach (addHost energyUsed roleMap) {} hosts
  let _ ← sortMachinesByAscendingName nodes.computeNodes
  let computeNodes ← (if limitMachineCount > 0 then do
      xbtAssert (limitMachineCount ≤ nodes.computeNodes.length)
        ("Impossible to compute on M=" ++ toString limitMachineCount ++ " machines: only " ++
          toString nodes.computeNodes.length ++ " machines are described in the PLATFORM_FILE.")
      .ok (nodes.computeNodes.take limitMachineCount.toNat)
    else .ok nodes.computeNodes)
  match nodes.masterMachine with
  | none => .error "Cannot find the \"master\" role in the platform file"
  | some master =>
    .ok { machines := (computeNodes ++ nodes.storageNodes).mapIdx fun i m => { m with id := i }
          masterMachine := master
          nbMachinesInEachState := fun s => if s = .idle then computeNodes.length else 0 }

/-! ### What the creation gives -/

/-- A machine that has just been created for a host: idle, without job. -/
structure Machine.New (m : Machine) (h : Host) : Prop where
  permissions : m.permissions = h.permissions
  state : m.state = .idle
  jobsBeingComputed : m.jobsBeingComputed = []
  hostPstate : m.hostPstate = h.pstate
  hostNbPstates : m.hostNbPstates = h.nbPstates

/-- What holds of the machine of a host whatever its pstates are holds once it is created. -/
theorem Machine.create_invariant {P : Machine → Prop} {energyUsed : Bool} {h : Host} {m : Machine}
    (hhost : ∀ pstates sleepPstates, P
      { permissions := h.permissions, pstates := pstates, sleepPstates := sleepPstates,
        hostNbPstates := h.nbPstates, hostPstate := h.pstate })
    (hpstates : ∀ m pstates sleepPstates,
      P m → P { m with pstates := pstates, sleepPstates := sleepPstates })
    (hcreate : Machine.create energyUsed h = .ok m) : P m := by
  unfold Machine.create at hcreate
  split at hcreate
  · simp only [bind_eq_ok, Except.ok.injEq] at hcreate
    obtain ⟨t, ht, rfl⟩ := hcreate
    have hread : P t := by
      refine forEach_preserves (P := P) (hhost ∅ ∅) ?_ ht
      rintro ⟨sleepPs, offPs, onPs⟩ - t t' hnew hstep
      simp only [bind_eq_ok, Except.ok.injEq] at hstep
      obtain ⟨_, -, _, -, _, -, _, -, _, -, rfl⟩ := hstep
      exact hpstates t _ _ hnew
    have htouch : ∀ (m : Machine) (ps : Int), P m → P (m.touchPstate ps) := by
      intro m ps hm
      unfold Machine.touchPstate
      split
      · exact hm
      · exact hpstates m _ m.sleepPstates hm
    unfold Machine.declareComputationPstates
    generalize t.hostNbPstates = n
    clear ht
    induction List.range n generalizing t with
    | nil => exact hread
    | cons ps rest ih => exact ih _ (htouch t ps hread)
  · rw [Except.ok.injEq] at hcreate
    subst hcreate
    exact hhost ∅ ∅

theorem Machine.new_of_create {energyUsed : Bool} {h : Host} {m : Machine}
    (hcreate : Machine.create energyUsed h = .ok m) : m.New h := by
  refine Machine.create_invariant (P := fun m => Machine.New m h) ?_ ?_ hcreate
  · intro pstates sleepPstates
    exact ⟨rfl, rfl, rfl, rfl, rfl⟩
  · rintro m pstates sleepPstates ⟨hperm, hstate, hjobs, hpstate, hnb⟩
    exact ⟨hperm, hstate, hjobs, hpstate, hnb⟩

/-- A machine comes from a host: it has its name and the permissions of its role. -/
structure CreatedFrom (energyUsed : Bool) (roleMap : String → Option String) (h : PlatformHost)
    (m : NamedMachine) : Prop where
  name : m.name = h.name
  role : permissionsFromRole (h.roleWith roleMap) = .ok m.machine.permissions
  create : Machine.create energyUsed { h.host with permissions := m.machine.permissions } =
    .ok m.machine

theorem createdFrom_of_createMachine {energyUsed : Bool} {roleMap : String → Option String}
    {h : PlatformHost} {m : NamedMachine} (hm : createMachine energyUsed roleMap h = .ok m) :
    CreatedFrom energyUsed roleMap h m := by
  simp only [createMachine, bind_eq_ok, Except.ok.injEq] at hm
  obtain ⟨permissions, hrole, machine, hmachine, _, -, rfl⟩ := hm
  have hpermissions : machine.permissions = permissions := (Machine.new_of_create hmachine).permissions
  exact ⟨rfl, hpermissions ▸ hrole, by rw [hpermissions]; exact hmachine⟩

/-- The hosts of a role, in the order of the platform. -/
def hostsOfRole (roleMap : String → Option String) (permissions : Permissions)
    (hosts : List PlatformHost) : List PlatformHost :=
  hosts.filter fun h => permissionsFromRole (h.roleWith roleMap) = .ok permissions

theorem mem_hostsOfRole {roleMap : String → Option String} {permissions : Permissions}
    {hosts : List PlatformHost} {h : PlatformHost} :
    h ∈ hostsOfRole roleMap permissions hosts ↔
      h ∈ hosts ∧ permissionsFromRole (h.roleWith roleMap) = .ok permissions := by
  simp [hostsOfRole]

theorem countP_role {energyUsed : Bool} {roleMap : String → Option String}
    {hosts : List PlatformHost} {ms : List NamedMachine}
    (h : List.Forall₂ (CreatedFrom energyUsed roleMap) hosts ms) (permissions : Permissions) :
    ms.countP (fun m => m.machine.permissions = permissions) =
      hosts.countP fun h => permissionsFromRole (h.roleWith roleMap) = .ok permissions := by
  induction h with
  | nil => rfl
  | cons hm _ ih => simp [List.countP_cons, ih, hm.role]

theorem idle_of_createdFrom {energyUsed : Bool} {roleMap : String → Option String}
    {hosts : List PlatformHost} {ms : List NamedMachine}
    (h : List.Forall₂ (CreatedFrom energyUsed roleMap) hosts ms) :
    ∀ m ∈ ms, m.machine.state = .idle := by
  induction h with
  | nil => simp
  | cons hm _ ih => exact List.forall_mem_cons.mpr ⟨(Machine.new_of_create hm.create).state, ih⟩

/-- The machines of the nodes are those of the hosts, role by role. -/
theorem addHosts_effect {energyUsed : Bool} {roleMap : String → Option String}
    {hosts : List PlatformHost} {nodes : Nodes}
    (h : forEach (addHost energyUsed roleMap) {} hosts = .ok nodes) :
    List.Forall₂ (CreatedFrom energyUsed roleMap)
        (hostsOfRole roleMap Permissions.computeNode hosts) nodes.computeNodes ∧
      List.Forall₂ (CreatedFrom energyUsed roleMap)
        (hostsOfRole roleMap Permissions.storage hosts) nodes.storageNodes := by
  refine forEach_invariant (fun done nodes =>
    List.Forall₂ (CreatedFrom energyUsed roleMap)
        (hostsOfRole roleMap Permissions.computeNode done) nodes.computeNodes ∧
      List.Forall₂ (CreatedFrom energyUsed roleMap)
        (hostsOfRole roleMap Permissions.storage done) nodes.storageNodes)
    ⟨.nil, .nil⟩ ?_ h
  rintro done host rest t t' - ⟨hcompute, hstorage⟩ hstep
  simp only [addHost, bind_eq_ok] at hstep
  obtain ⟨m, hm, hstep⟩ := hstep
  have hcreated := createdFrom_of_createMachine hm
  have hrole : ∀ permissions, hostsOfRole roleMap permissions (done ++ [host]) =
      hostsOfRole roleMap permissions done ++
        if m.machine.permissions = permissions then [host] else [] := by
    intro permissions
    simp [hostsOfRole, List.filter_append, List.filter_singleton, hcreated.role]
  rw [hrole, hrole]
  split at hstep
  · next hperm =>
    rw [Except.ok.injEq] at hstep
    subst hstep
    rw [if_pos hperm, if_neg (by rw [hperm]; decide), List.append_nil]
    exact ⟨List.rel_append hcompute (.cons hcreated .nil), hstorage⟩
  · next hnot =>
    rw [if_neg hnot, List.append_nil]
    split at hstep
    · next hperm =>
      rw [Except.ok.injEq] at hstep
      subst hstep
      rw [if_pos hperm]
      exact ⟨hcompute, List.rel_append hstorage (.cons hcreated .nil)⟩
    · next hnot' =>
      rw [if_neg hnot', List.append_nil]
      have hsame : t'.computeNodes = t.computeNodes ∧ t'.storageNodes = t.storageNodes := by
        split at hstep
        · simp only [bind_eq_ok, Except.ok.injEq] at hstep
          obtain ⟨_, -, rfl⟩ := hstep
          exact ⟨rfl, rfl⟩
        · rw [Except.ok.injEq] at hstep
          subst hstep
          exact ⟨rfl, rfl⟩
      rw [hsame.1, hsame.2]
      exact ⟨hcompute, hstorage⟩

/-- Numbering the machines changes nothing else. -/
theorem forall₂_number {energyUsed : Bool} {roleMap : String → Option String}
    {hosts : List PlatformHost} {ms : List NamedMachine}
    (h : List.Forall₂ (CreatedFrom energyUsed roleMap) hosts ms) :
    List.Forall₂ (CreatedFrom energyUsed roleMap) hosts
      (ms.mapIdx fun i m => { m with id := i }) := by
  rw [List.forall₂_iff_get] at h ⊢
  obtain ⟨hlength, hget⟩ := h
  refine ⟨by simpa using hlength, fun i hi hi' => ?_⟩
  obtain ⟨hname, hrole, hcreate⟩ := hget i hi (by simpa using hi')
  simp only [List.get_eq_getElem, List.getElem_mapIdx] at *
  exact ⟨hname, hrole, hcreate⟩

/-- The number of compute machines that are kept. -/
def nbKept (limitMachineCount : Int) (nbComputeNodes : Nat) : Nat :=
  if limitMachineCount = -1 then nbComputeNodes else limitMachineCount.toNat

/-- The machines are those of the first compute hosts of the platform, then those of the storage
hosts, numbered in this order. -/
theorem createNamedMachines_effect {energyUsed : Bool} {roleMap : String → Option String}
    {limit : Int} {hosts : List PlatformHost} {ms : NamedMachines}
    (h : createNamedMachines energyUsed roleMap limit hosts = .ok ms) :
    let compute := hostsOfRole roleMap Permissions.computeNode hosts
    let storage := hostsOfRole roleMap Permissions.storage hosts
    nbKept limit compute.length ≤ compute.length ∧
      List.Forall₂ (CreatedFrom energyUsed roleMap)
        (compute.take (nbKept limit compute.length) ++ storage) ms.machines ∧
      (∀ (i : Nat) m, ms.machines[i]? = some m → m.id = i) ∧
      ms.nbMachinesInEachState =
        fun s => if s = .idle then ((nbKept limit compute.length : Nat) : Int) else 0 := by
  simp only [createNamedMachines, bind_eq_ok, xbtAssert_eq_ok] at h
  obtain ⟨_, hlimit, nodes, hnodes, _, -, kept, hkept, h⟩ := h
  obtain ⟨hcompute, hstorage⟩ := addHosts_effect hnodes
  have hlength := hcompute.length_eq
  have hkeep : nbKept limit nodes.computeNodes.length ≤ nodes.computeNodes.length ∧
      kept = nodes.computeNodes.take (nbKept limit nodes.computeNodes.length) := by
    unfold nbKept
    split at hkept
    · next hpos =>
      simp only [bind_eq_ok, xbtAssert_eq_ok, Except.ok.injEq] at hkept
      obtain ⟨_, hle, rfl⟩ := hkept
      rw [if_neg (by omega)]
      exact ⟨by omega, rfl⟩
    · next hneg =>
      rw [Except.ok.injEq] at hkept
      rw [if_pos (by omega), List.take_length]
      exact ⟨le_rfl, hkept.symm⟩
  obtain ⟨hle, rfl⟩ := hkeep
  cases hmaster : nodes.masterMachine with
  | none => simp [hmaster] at h
  | some master =>
    simp only [hmaster, Except.ok.injEq] at h
    subst h
    simp only [hlength]
    refine ⟨hle, ?_, fun i m hm => ?_, ?_⟩
    · exact forall₂_number (List.rel_append (List.forall₂_take _ hcompute) hstorage)
    · simp only [List.getElem?_mapIdx, Option.map_eq_some_iff] at hm
      obtain ⟨m', -, rfl⟩ := hm
      rfl
    · simp [hle]

/-- The machines without their names are those of the hosts in the order of the numbers. -/
theorem createMachines_of_named {energyUsed : Bool} {roleMap : String → Option String}
    {limit : Int} {hosts : List PlatformHost} {ms : NamedMachines}
    (h : createNamedMachines energyUsed roleMap limit hosts = .ok ms) :
    ∃ numbered : List Host, Machines.createMachines energyUsed numbered = .ok ms.toMachines := by
  obtain ⟨hle, hcreated, -, hcounts⟩ := createNamedMachines_effect h
  have hloop : ∀ (hs : List PlatformHost) (l : List NamedMachine) (done : List Machine),
      List.Forall₂ (CreatedFrom energyUsed roleMap) hs l → ∃ numbered : List Host,
        forEach (fun ms h => do
          let m ← Machine.create energyUsed h
          .ok (ms ++ [m])) done numbered = .ok (done ++ l.map NamedMachine.machine) := by
    intro hs l done hcreated
    induction hcreated generalizing done with
    | nil => exact ⟨[], by simp⟩
    | @cons host m hs l hm _ ih =>
      obtain ⟨numbered, hrest⟩ := ih (done ++ [m.machine])
      refine ⟨{ host.host with permissions := m.machine.permissions } :: numbered, ?_⟩
      rw [forEach_cons, hm.create]
      simpa using hrest
  obtain ⟨numbered, hnumbered⟩ := hloop _ _ [] hcreated
  refine ⟨numbered, ?_⟩
  have hcompute : ms.machines.countP (fun m => m.machine.permissions = Permissions.computeNode) =
      nbKept limit (hostsOfRole roleMap Permissions.computeNode hosts).length := by
    have hkept : ∀ h ∈ (hostsOfRole roleMap Permissions.computeNode hosts).take
        (nbKept limit (hostsOfRole roleMap Permissions.computeNode hosts).length),
        permissionsFromRole (h.roleWith roleMap) = .ok Permissions.computeNode :=
      fun h hmem => (mem_hostsOfRole.mp (List.mem_of_mem_take hmem)).2
    have hother : ∀ h ∈ hostsOfRole roleMap Permissions.storage hosts,
        ¬ permissionsFromRole (h.roleWith roleMap) = .ok Permissions.computeNode := by
      intro h hmem hcompute
      rw [(mem_hostsOfRole.mp hmem).2] at hcompute
      cases hcompute
    rw [countP_role hcreated, List.countP_append,
      List.countP_eq_length.mpr (by simpa using hkept),
      List.countP_eq_zero.mpr (by simpa using hother), List.length_take, Nat.min_eq_left hle]
    rfl
  rw [Machines.createMachines, hnumbered]
  simp only [List.nil_append, NamedMachines.toMachines, hcounts, bind, Except.bind,
    List.countP_map, ← hcompute]
  rfl

namespace Machines

/-- How far the counter of a state is from the number of machines in this state. -/
def excess (ms : Machines) (state : MachineState) : Int :=
  ms.nbMachinesInEachState state - ms.machines.countP fun m => m.state = state

/-- A change of state moves one machine from one counter to another. -/
theorem excess_updateMachineState {ms ms' : Machines} {id : Nat} {newState : MachineState}
    {now : Date} (h : ms.updateMachineState id newState now = .ok ms') (state : MachineState) :
    ms'.excess state = ms.excess state := by
  simp only [updateMachineState, bind_eq_ok, at?_eq_ok, xbtAssert_eq_ok, Except.ok.injEq] at h
  obtain ⟨m, hm, _, -, rfl⟩ := h
  obtain ⟨hid, rfl⟩ := List.getElem?_eq_some_iff.mp hm
  have hthere := List.boole_getElem_le_countP (p := fun m : Machine => m.state = state) hid
  simp only [excess, put, List.countP_set hid, Machine.enter_state, decide_eq_true_eq,
    Function.update_apply, @eq_comm _ state newState,
    @eq_comm _ state ms.machines[id].state] at hthere ⊢
  generalize ms.machines.countP (fun m => decide (m.state = state)) = count at hthere ⊢
  split_ifs at hthere ⊢ <;> simp_all

end Machines

/-- The states of a machine. -/
def MachineState.all : List MachineState :=
  [.sleeping, .idle, .computing, .transitingFromSleepingToComputing,
    .transitingFromComputingToSleeping, .unavailable]

/-- One call of `update_machine_state`: the machine, its new state, the date. -/
structure StateUpdate where
  id : Nat
  newState : MachineState
  date : Date

def StateUpdate.apply (ms : Machines) (u : StateUpdate) : Except String Machines :=
  ms.updateMachineState u.id u.newState u.date

/-- The counters count the machines. -/
structure Machines.CountsExact (ms : Machines) : Prop where
  exact : ∀ state, ms.nbMachinesInEachState state = ms.machines.countP fun m => m.state = state
  nonneg : ∀ state, 0 ≤ ms.nbMachinesInEachState state
  total : (MachineState.all.map ms.nbMachinesInEachState).sum = ms.machines.length

theorem Machines.countsExact_iff {ms : Machines} :
    ms.CountsExact ↔ ∀ state, ms.excess state = 0 := by
  constructor
  · intro h state
    rw [excess, h.exact, sub_self]
  · intro h
    have hexact : ∀ state, ms.nbMachinesInEachState state =
        ms.machines.countP fun m => m.state = state := fun state => sub_eq_zero.mp (h state)
    refine ⟨hexact, fun state => by rw [hexact]; omega, ?_⟩
    simp only [MachineState.all, List.map_cons, List.map_nil, List.sum_cons, List.sum_nil, hexact]
    induction ms.machines with
    | nil => rfl
    | cons m rest ih =>
      simp only [List.countP_cons, List.length_cons]
      cases hm : m.state <;> simp <;> omega

/-- After any changes of state, the counters are exact if and only if the platform has no storage
host: the idle machines are first counted without the storage machines. -/
theorem counts_exact_iff_no_storage {energyUsed : Bool} {roleMap : String → Option String}
    {limit : Int} {hosts : List PlatformHost} {ms : NamedMachines} {updates : List StateUpdate}
    {ms' : Machines} (hcreate : createNamedMachines energyUsed roleMap limit hosts = .ok ms)
    (hrun : forEach StateUpdate.apply ms.toMachines updates = .ok ms') :
    ms'.CountsExact ↔ hostsOfRole roleMap Permissions.storage hosts = [] := by
  obtain ⟨hle, hcreated, -, hcounts⟩ := createNamedMachines_effect hcreate
  have hexcess : ∀ state, ms'.excess state = ms.toMachines.excess state := fun state =>
    forEach_unchanged (fun ms => ms.excess state)
      (fun u _ t t' hu => Machines.excess_updateMachineState hu state) hrun
  have hidle : ∀ m ∈ ms.toMachines.machines, m.state = .idle := by
    intro m hm
    obtain ⟨named, hnamed, rfl⟩ := List.mem_map.mp hm
    exact idle_of_createdFrom hcreated named hnamed
  have hlength : ms.toMachines.machines.length =
      nbKept limit (hostsOfRole roleMap Permissions.computeNode hosts).length +
        (hostsOfRole roleMap Permissions.storage hosts).length := by
    rw [NamedMachines.toMachines, List.length_map, ← hcreated.length_eq, List.length_append,
      List.length_take, Nat.min_eq_left hle]
  have hcount : ∀ state, ms.toMachines.excess state = if state = .idle then
      -((hostsOfRole roleMap Permissions.storage hosts).length : Int) else 0 := by
    intro state
    by_cases hstate : state = .idle
    · have hall : ms.toMachines.machines.countP (fun m => m.state = state) =
          ms.toMachines.machines.length :=
        List.countP_eq_length.mpr fun m hm => by simp [hidle m hm, hstate]
      rw [Machines.excess, hall, hlength, if_pos hstate, NamedMachines.toMachines, hcounts]
      simp only [if_pos hstate]
      push_cast
      omega
    · have hnone : ms.toMachines.machines.countP (fun m => m.state = state) = 0 :=
        List.countP_eq_zero.mpr fun m hm => by simp [hidle m hm, Ne.symm hstate]
      rw [Machines.excess, hnone, if_neg hstate, NamedMachines.toMachines, hcounts]
      simp only [if_neg hstate]
      rfl
  rw [Machines.countsExact_iff]
  simp only [hexcess, hcount]
  constructor
  · intro h
    have hnone := h .idle
    rw [if_pos rfl] at hnone
    exact List.length_eq_zero_iff.mp (by omega)
  · intro h state
    simp [h]

/-- A master, a compute host and a storage host. -/
def hostsWithStorage : List PlatformHost :=
  [{ name := "master", role := some "master" }, { name := "c0" },
    { name := "s0", role := some "storage" }]

/-- Two machines are created, one of them is counted: when both compute, the counter of the idle
machines is -1. -/
theorem idle_counter_is_negative : ∃ ms ms',
    createNamedMachines false (fun _ => none) (-1) hostsWithStorage = .ok ms ∧
      forEach StateUpdate.apply ms.toMachines [⟨0, .computing, 0⟩, ⟨1, .computing, 0⟩] = .ok ms' ∧
      ms'.nbMachinesInEachState .idle = -1 ∧ ¬ ms'.CountsExact := by
  have hrun : succeedsWith (createNamedMachines false (fun _ => none) (-1) hostsWithStorage >>=
      fun ms => forEach StateUpdate.apply ms.toMachines [⟨0, .computing, 0⟩, ⟨1, .computing, 0⟩])
      (fun ms' => ms'.nbMachinesInEachState .idle = -1) = true := by decide +kernel
  obtain ⟨ms', hrun, hidle⟩ := exists_of_succeedsWith hrun
  obtain ⟨ms, hcreate, hrun⟩ := bind_eq_ok.mp hrun
  rw [decide_eq_true_eq] at hidle
  refine ⟨ms, ms', hcreate, hrun, hidle, fun h => ?_⟩
  have hnonneg := h.nonneg .idle
  omega

/-- Two compute hosts, both used. -/
theorem counts_exact_of_compute_hosts : ∃ ms ms',
    createNamedMachines false (fun _ => none) (-1)
        [{ name := "master", role := some "master" }, { name := "c0" }, { name := "c1" }] =
      .ok ms ∧
      forEach StateUpdate.apply ms.toMachines [⟨1, .computing, 0⟩, ⟨0, .computing, 2⟩] = .ok ms' ∧
      ms'.CountsExact := by
  have hrun : succeedsWith (createNamedMachines false (fun _ => none) (-1)
        [{ name := "master", role := some "master" }, { name := "c0" }, { name := "c1" }] >>=
      fun ms => forEach StateUpdate.apply ms.toMachines [⟨1, .computing, 0⟩, ⟨0, .computing, 2⟩])
      (fun _ => true) = true := by decide +kernel
  obtain ⟨ms', hrun, -⟩ := exists_of_succeedsWith hrun
  obtain ⟨ms, hcreate, hrun⟩ := bind_eq_ok.mp hrun
  exact ⟨ms, ms', hcreate, hrun, (counts_exact_iff_no_storage hcreate hrun).mpr (by decide)⟩

/-! ### Order -/

/-- The machines are numbered as they should be: first the compute machines that are kept, in the
order of their names, before all those that are not, then the storage machines. -/
structure NumberedByName (roleMap : String → Option String) (limit : Int)
    (hosts : List PlatformHost) (ms : NamedMachines) : Prop where
  ids : ∀ (i : Nat) m, ms.machines[i]? = some m → m.id = i
  names : ∃ kept left storage,
    ms.machines.map NamedMachine.name = kept ++ storage ∧
    (kept ++ left).Perm
      ((hostsOfRole roleMap Permissions.computeNode hosts).map PlatformHost.name) ∧
    storage.Perm ((hostsOfRole roleMap Permissions.storage hosts).map PlatformHost.name) ∧
    kept.length = nbKept limit (hostsOfRole roleMap Permissions.computeNode hosts).length ∧
    kept.Pairwise NameBefore ∧ ∀ a ∈ kept, ∀ b ∈ left, NameBefore a b

theorem names_of_createdFrom {energyUsed : Bool} {roleMap : String → Option String}
    {hosts : List PlatformHost} {ms : List NamedMachine}
    (h : List.Forall₂ (CreatedFrom energyUsed roleMap) hosts ms) :
    ms.map NamedMachine.name = hosts.map PlatformHost.name := by
  induction h with
  | nil => rfl
  | cons hm _ ih => simp [ih, hm.name]

/-- The machines are numbered by name if and only if the platform already lists the compute hosts
that are kept in the order of their names, and before the others: the sort has no effect. -/
theorem numbered_by_name_iff_listed_by_name {energyUsed : Bool}
    {roleMap : String → Option String} {limit : Int} {hosts : List PlatformHost}
    {ms : NamedMachines}
    (hcreate : createNamedMachines energyUsed roleMap limit hosts = .ok ms) :
    NumberedByName roleMap limit hosts ms ↔
      let names := (hostsOfRole roleMap Permissions.computeNode hosts).map PlatformHost.name
      (names.take (nbKept limit names.length)).Pairwise NameBefore ∧
        ∀ a ∈ names.take (nbKept limit names.length),
          ∀ b ∈ names.drop (nbKept limit names.length), NameBefore a b := by
  obtain ⟨hle, hcreated, hids, -⟩ := createNamedMachines_effect hcreate
  have hlist := names_of_createdFrom hcreated
  rw [List.map_append, List.map_take] at hlist
  simp only [List.length_map]
  generalize hcompute : (hostsOfRole roleMap Permissions.computeNode hosts).map
    PlatformHost.name = names at *
  generalize hn : nbKept limit (hostsOfRole roleMap Permissions.computeNode hosts).length = n at *
  have hlength : names.length = (hostsOfRole roleMap Permissions.computeNode hosts).length := by
    rw [← hcompute, List.length_map]
  constructor
  · rintro ⟨-, kept, left, storage, hsplit, hperm, -, hkept, hsorted, hbefore⟩
    rw [hlist] at hsplit
    have htake : (names.take n).length = kept.length := by
      rw [List.length_take, hkept, hlength, hn]
      omega
    obtain ⟨rfl, -⟩ := List.append_inj hsplit htake
    have hleft : left.Perm (names.drop n) := by
      refine (List.perm_append_left_iff (names.take n)).mp ?_
      rw [List.take_append_drop]
      exact hcompute ▸ hperm
    exact ⟨hsorted, fun a ha b hb => hbefore a ha b (hleft.mem_iff.mpr hb)⟩
  · rintro ⟨hsorted, hbefore⟩
    refine ⟨hids, names.take n, names.drop n, _, hlist, ?_, .refl _, ?_, hsorted, hbefore⟩
    · rw [List.take_append_drop, hcompute]
    · rw [List.length_take, hn]
      omega

/-- Two compute hosts that the platform lists in the order of their names are numbered so. -/
theorem numbered_by_name_of_listed_by_name : ∃ ms,
    createNamedMachines false (fun _ => none) 1
        [{ name := "m", role := some "master" }, { name := "c2" }, { name := "c10" }] = .ok ms ∧
      NumberedByName (fun _ => none) 1
        [{ name := "m", role := some "master" }, { name := "c2" }, { name := "c10" }] ms := by
  have hrun : succeedsWith (createNamedMachines false (fun _ => none) 1
      [{ name := "m", role := some "master" }, { name := "c2" }, { name := "c10" }])
      (fun _ => true) = true := by decide +kernel
  obtain ⟨ms, hcreate, -⟩ := exists_of_succeedsWith hrun
  exact ⟨ms, hcreate, (numbered_by_name_iff_listed_by_name hcreate).mpr (by decide +kernel)⟩

/-- Two compute hosts that the platform lists the other way keep the numbers 0 and 1 of its list. -/
theorem machines_are_not_sorted : ∃ ms,
    createNamedMachines false (fun _ => none) (-1)
        [{ name := "m", role := some "master" }, { name := "b" }, { name := "a" }] = .ok ms ∧
      ms.machines.map NamedMachine.name = ["b", "a"] ∧ NameBefore "a" "b" ∧
      ¬ NumberedByName (fun _ => none) (-1)
        [{ name := "m", role := some "master" }, { name := "b" }, { name := "a" }] ms := by
  have hrun : succeedsWith (createNamedMachines false (fun _ => none) (-1)
      [{ name := "m", role := some "master" }, { name := "b" }, { name := "a" }])
      (fun ms => ms.machines.map NamedMachine.name = ["b", "a"]) = true := by decide +kernel
  obtain ⟨ms, hcreate, hnames⟩ := exists_of_succeedsWith hrun
  rw [decide_eq_true_eq] at hnames
  refine ⟨ms, hcreate, hnames, by decide +kernel, ?_⟩
  rintro ⟨-, kept, left, storage, hsplit, -, -, hlength, hsorted, -⟩
  rw [hnames] at hsplit
  have hkept : kept.length = 2 := hlength.trans (by decide +kernel)
  have hsplit' : ["b", "a"] ++ [] = kept ++ storage := by simpa using hsplit
  obtain ⟨rfl, -⟩ := List.append_inj hsplit' (by simp [hkept])
  exact absurd hsorted (by decide +kernel)

end Batsim
