import Batsim.Machines

namespace Batsim

open Checked

/-- `host->set_pstate(pstate)`, which SimGrid refuses for a pstate the host does not have -/
def Machine.setPstate (m : Machine) (pstate : Int) : Except String Machine := do
  xbtAssert (0 ≤ pstate ∧ pstate < m.hostNbPstates) "Invalid pstate index"
  .ok { m with hostPstate := pstate.toNat }

theorem Machine.setPstate_eq_ok {m m' : Machine} {pstate : Int} :
    m.setPstate pstate = .ok m' ↔
      (0 ≤ pstate ∧ pstate < m.hostNbPstates) ∧ m' = { m with hostPstate := pstate.toNat } := by
  simp only [setPstate, bind_eq_ok, xbtAssert_eq_ok, Except.ok.injEq]
  constructor
  · rintro ⟨_, h, rfl⟩
    exact ⟨h, rfl⟩
  · rintro ⟨h, rfl⟩
    exact ⟨(), h, rfl⟩

/-- `CurrentSwitches::Switch` -/
structure Switch where
  targetPstate : Int
  allMachines : IntervalSet
  switchingMachines : IntervalSet
deriving DecidableEq

/-- `CurrentSwitches`: the switches under way by target pstate. -/
structure CurrentSwitches where
  switches : AList (fun _ : Int => List Switch)

namespace CurrentSwitches

def addSwitch (cs : CurrentSwitches) (machines : IntervalSet) (targetPstate : Int) :
    CurrentSwitches :=
  let s : Switch := ⟨targetPstate, machines, machines⟩
  match cs.switches.lookup targetPstate with
  | some list => ⟨cs.switches.insert targetPstate (list ++ [s])⟩
  | none => ⟨cs.switches.insert targetPstate [s]⟩

/-- The loop of `mark_switch_as_done`: the list with the first switch that waits for the machine
updated, and all the machines of that switch if it was the last one. -/
def markFirst (machineId : Nat) : List Switch → Option (List Switch × Option IntervalSet)
  | [] => none
  | s :: list =>
    if machineId ∈ s.switchingMachines then
      let s := { s with switchingMachines := s.switchingMachines.remove machineId }
      if s.switchingMachines.size = 0 then some (list, some s.allMachines)
      else some (s :: list, none)
    else
      (markFirst machineId list).map fun r => (s :: r.1, r.2)

/-- `mark_switch_as_done`: the value is present when the function returns true. -/
def markSwitchAsDone (cs : CurrentSwitches) (machineId : Nat) (targetPstate : Int) :
    Except String (CurrentSwitches × Option IntervalSet) :=
  match cs.switches.lookup targetPstate with
  | none => .error "switch count inconsistency"
  | some list =>
    match markFirst machineId list with
    | none => .error ("Invalid CurrentSwitches::mark_switch_as_done call: machine " ++
        toString machineId ++ " was not switching to pstate " ++ toString targetPstate)
    | some ([], done) => .ok (⟨cs.switches.erase targetPstate⟩, done)
    | some (list, done) => .ok (⟨cs.switches.insert targetPstate list⟩, done)

end CurrentSwitches

end Batsim
