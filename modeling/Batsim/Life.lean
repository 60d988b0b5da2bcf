import Mathlib.Data.Multiset.Basic
import Mathlib.Logic.Relation
import Batsim.ActorEffects

/-!
What becomes of a job: the stages of its life, and the order in which it may go through them.
-/

namespace Batsim

/-- The final states that a job reaches by itself. -/
abbrev Ending := { state : JobState // state.endsItself = true }

inductive Life where
  | unmet
  | waiting
  | submitted
  | rejected
  /-- said to be running by the scheduler, without any execution -/
  | forced
  | launched (a : ExecutionActor)
  | executing (a : ExecutionActor) (l : Leaf)
  /-- its parallel task is cancelled, and its actor does not know yet -/
  | cancelled (a : ExecutionActor)
  /-- the message about its end is on its way -/
  | ended (outcome : Ending)
  /-- its submitter is being called back -/
  | calling (mailbox : String) (outcome : Ending)
  | killed
  /-- counted as completed, after a kill if there is no outcome -/
  | settled (outcome : Option Ending)

/-- What the pool of threads shows of a job. -/
inductive Trace where
  | thread (t : Thread)
  | ended
deriving DecidableEq

namespace Life

/-- The stages between the start of an execution and its end. -/
def isActive : Life → Bool
  | launched _ | executing _ _ | cancelled _ => true
  | _ => false

inductive Next : Life → Life → Prop
  | meet : Next unmet waiting
  | register : Next unmet submitted
  | submit : Next waiting submitted
  | reject : Next submitted rejected
  | force : Next submitted forced
  | launch (a : ExecutionActor) : Next submitted (launched a)
  | start (a : ExecutionActor) (l : Leaf) : Next (launched a) (executing a l)
  | goOn (a : ExecutionActor) (l l' : Leaf) : Next (executing a l) (executing a l')
  | cancel (a : ExecutionActor) : Next (executing a .ptask) (cancelled a)
  | finish (l : Life) (outcome : Ending) : l.isActive = true → Next l (ended outcome)
  | die (l : Life) : l.isActive = true → Next l killed
  | callBack (mailbox : String) (outcome : Ending) : Next (ended outcome) (calling mailbox outcome)
  | count (outcome : Ending) : Next (ended outcome) (settled (some outcome))
  | answer (mailbox : String) (outcome : Ending) :
      Next (calling mailbox outcome) (settled (some outcome))
  | bury : Next killed (settled none)

/-- How far a job has come. -/
def rank : Life → Nat
  | unmet => 0
  | waiting => 1
  | submitted => 2
  | rejected | forced | launched _ => 3
  | executing _ _ => 4
  | cancelled _ => 5
  | ended _ | killed => 6
  | calling _ _ => 7
  | settled _ => 8

abbrev Leads : Life → Life → Prop := Relation.ReflTransGen Next

/-- A job goes back only to another leaf of the same execution. -/
theorem Next.rank_lt {l l' : Life} (h : Next l l') :
    l.rank < l'.rank ∨ ∃ a m m', l = executing a m ∧ l' = executing a m' := by
  cases h with
  | goOn a m m' => exact .inr ⟨a, m, m', rfl, rfl⟩
  | finish l outcome hactive =>
    left
    cases l <;> simp_all [rank, isActive]
  | die l hactive =>
    left
    cases l <;> simp_all [rank, isActive]
  | _ => exact .inl (by simp [rank])

theorem Leads.rank_le {l l' : Life} (h : Leads l l') : l.rank ≤ l'.rank := by
  induction h with
  | refl => exact le_refl _
  | tail _ hnext ih =>
    obtain hlt | ⟨a, m, m', rfl, rfl⟩ := hnext.rank_lt
    · omega
    · exact ih

/-- The stages that nothing follows. -/
def isLast : Life → Bool
  | rejected | forced | settled _ => true
  | _ => false

theorem Leads.eq_of_isLast {l l' : Life} (h : Leads l l') (hlast : l.isLast = true) : l' = l := by
  induction h with
  | refl => rfl
  | tail _ hnext ih =>
    rw [ih] at hnext
    cases hnext with
    | finish _ _ hactive | die _ hactive => cases l <;> simp_all [isLast, isActive]
    | _ => cases hlast

/-- The state of a job. -/
def state : Life → JobState
  | unmet | waiting => .notSubmitted
  | submitted => .submitted
  | rejected => .rejected
  | forced | launched _ | executing _ _ | cancelled _ => .running
  | ended outcome | calling _ outcome | settled (some outcome) => outcome.1
  | killed | settled none => .completedKilled

/-- The task and the actors that a job remembers, while that matters. -/
def hands : Life → Option (Option Nat × List Nat)
  | unmet | waiting | submitted | rejected | forced => some (none, [])
  | launched a => some (none, [a.number])
  | executing a _ | cancelled a => some (some a.number, [a.number])
  | _ => none

/-- The machines that a job occupies. -/
def machines? : Life → Option IntervalSet
  | executing a _ | cancelled a => some a.allocation.machineIds
  | _ => none

/-- How often a job is among the users of a machine. -/
def uses (l : Life) (id : Nat) : Nat :=
  if l.machines?.any (fun ids => id ∈ ids) then 1 else 0

def trace (p : JobPtr) : Life → Multiset Trace
  | launched a => {.thread (.executeJob a)}
  | executing a l => {.thread (.executing a l)}
  | cancelled a => {.thread (.cancelled a)}
  | ended _ => {.ended}
  | calling mailbox _ => {.thread (.serverCallback p mailbox)}
  | _ => 0

/-- How often a job was counted as running. -/
def started : Life → Nat
  | unmet | waiting | submitted | rejected => 0
  | _ => 1

/-- How often a job was counted as completed. -/
def counted : Life → Nat
  | rejected | settled _ => 1
  | _ => 0

/-- How often a job was counted as completed after a kill. -/
def buried : Life → Nat
  | settled none => 1
  | _ => 0

/-- How often the machines were told about the start of a job. -/
def runs : Life → Nat
  | executing _ _ | cancelled _ | ended _ | calling _ _ | killed | settled _ => 1
  | _ => 0

/-- How often the machines were told about the end of a job. -/
def ends : Life → Nat
  | ended _ | calling _ _ | killed | settled _ => 1
  | _ => 0

end Life

end Batsim
