import Batsim.Lib.FixedPoint
import Batsim.Machines

/-!
`PajeTracer`: the lines of a Pajé trace, each printed into a buffer of fixed size first, and the
calls that print them.
-/

namespace Batsim

open Checked

/-- The lines whose texts depend on the simulation. -/
inductive PajeLine where
  | rootContainer (time : Date)
  | machineContainer (time : Date) (machineId : Nat) (name : String)
  | schedulerContainers (time : Date)
  | entityValue (jobId : JobIdentifier) (color : String)
  | machineState (time : Date) (machineId : Nat) (value : String)
  | killerEvent (time : Date) (jobId : JobIdentifier)
  | machineEvent (time : Date) (machineId : Nat) (jobId : JobIdentifier)
  | machineDestruction (time : Date) (machineId : Nat)
  | rootDestruction (time : Date)

/-- `"%lf"` -/
def printDate (time : Date) : String := FixedPoint.text 6 time

/-- The text of a line, as `snprintf` prints it. -/
def PajeLine.text : PajeLine → String
  | rootContainer time =>
    "# Containers creation\n2 " ++ printDate time ++ " root_ct root \"Machines\" 0\n"
  | machineContainer time machineId name =>
    "2 " ++ printDate time ++ " machine_ct m" ++ toString machineId ++ " \"" ++ name ++ "\" root\n"
  | schedulerContainers time =>
    "2 " ++ printDate time ++ " scheduler_ct sc \"Scheduler\" 0\n2 " ++ printDate time ++
      " killer_ct k \"Killer\" sc\n\n"
  | entityValue jobId color =>
    "5 j" ++ jobId.toString ++ " machine_state \"" ++ jobId.toString ++ "\" " ++ color ++ "\n"
  | machineState time machineId value =>
    "6 " ++ printDate time ++ " machine_state m" ++ toString machineId ++ " " ++ value ++ "\n"
  | killerEvent time jobId =>
    "8 " ++ printDate time ++ " kk k \"" ++ jobId.toString ++ "\"\n"
  | machineEvent time machineId jobId =>
    "8 " ++ printDate time ++ " km m" ++ toString machineId ++ " \"" ++ jobId.toString ++ "\"\n"
  | machineDestruction time machineId =>
    "3 " ++ printDate time ++ " m" ++ toString machineId ++ " machine_ct\n"
  | rootDestruction time => "3 " ++ printDate time ++ " root root_ct\n"

def fullBuffer : String :=
  "Writing error: buffer has been completely filled, some information might have been lost." ++
    " Please increase Batsim's output temporary buffers' size"

def mstateWaiting : String := "w"

/-- The value of a job: `jobPrefix` and its identifier. -/
def jobValue (jobId : JobIdentifier) : String := "j" ++ jobId.toString

theorem no_jobs_valued : ∀ jobId value, (∅ : AList fun _ : JobIdentifier => String).lookup jobId =
    some value → value = jobValue jobId := by simp

/-- A tracer: its colors, the jobs that it registered, and what it wrote. -/
structure PajeTracer where
  colors : List String
  jobs : AList (fun _ : JobIdentifier => String) := ∅
  jobs_valued : ∀ jobId value, jobs.lookup jobId = some value → value = jobValue jobId :=
    by exact no_jobs_valued
  nbTotalJobs : Nat := 0
  lines : List PajeLine := []

namespace PajeTracer

/-- Prints a line into a buffer, which it must not fill, and writes it. -/
def print (bufSize : Nat) (t : PajeTracer) (line : PajeLine) : Except String PajeTracer := do
  xbtAssert (line.text.utf8ByteSize < bufSize - 1) fullBuffer
  .ok { t with lines := t.lines ++ [line] }

/-- `initialize`, from the containers on, for machines with these names: all of them wait. -/
def initializeContainers (t : PajeTracer) (names : List String) (time : Date) :
    Except String PajeTracer := do
  let t ← t.print 8192 (.rootContainer time)
  let t ← forEach (print 8192) t (names.zipIdx.map fun e => .machineContainer time e.2 e.1)
  let t ← t.print 8192 (.schedulerContainers time)
  forEach (print 8192) t
    ((List.range names.length).map fun id => .machineState time id mstateWaiting)

/-- `finalize`, for `nbMachines` machines -/
def finalize (t : PajeTracer) (nbMachines : Nat) (time : Date) : Except String PajeTracer := do
  let t ← forEach (print 256) t
    ((List.range nbMachines).map fun id => .machineDestruction time id)
  t.print 256 (.rootDestruction time)

def registerNewJob (t : PajeTracer) (jobId : JobIdentifier) : Except String PajeTracer := do
  xbtAssert (t.jobs.lookup jobId = none)
    ("Cannot register new job " ++ jobId.toString ++ ": it already exists")
  let color := t.colors.getD (t.nbTotalJobs % t.colors.length) ""
  let t ← t.print 256 (.entityValue jobId color)
  .ok { t with
    nbTotalJobs := t.nbTotalJobs + 1
    jobs := t.jobs.insert jobId (jobValue jobId)
    jobs_valued := by
      intro other value h
      by_cases hother : other = jobId
      · rw [hother, AList.lookup_insert, Option.some.injEq] at h
        rw [hother, ← h]
      · rw [AList.lookup_insert_ne hother] at h
        exact t.jobs_valued other value h }

def setMachineIdle (t : PajeTracer) (machineId : Nat) (time : Date) : Except String PajeTracer :=
  t.print 256 (.machineState time machineId mstateWaiting)

def setMachineAsComputingJob (t : PajeTracer) (machineId : Nat) (jobId : JobIdentifier)
    (time : Date) : Except String PajeTracer := do
  let t ← (if t.jobs.lookup jobId = none then t.registerNewJob jobId else .ok t)
  match t.jobs.lookup jobId with
  | none => .error "dereference of the end of a map"
  | some value => t.print 256 (.machineState time machineId value)

def addJobKill (t : PajeTracer) (jobId : JobIdentifier) (usedMachineIds : IntervalSet)
    (time : Date) (associateKillToMachines : Bool) : Except String PajeTracer := do
  let t ← t.print 256 (.killerEvent time jobId)
  if associateKillToMachines then
    forEach (print 256) t
      (usedMachineIds.elements.map fun id => .machineEvent time id jobId)
  else .ok t

/-! ### What is printed -/

variable {t t' : PajeTracer} {bufSize : Nat}

theorem print_eq_ok {line : PajeLine} : t.print bufSize line = .ok t' ↔
    line.text.utf8ByteSize < bufSize - 1 ∧ t' = { t with lines := t.lines ++ [line] } := by
  simp only [print, bind_eq_ok, xbtAssert_eq_ok, Except.ok.injEq, exists_const]
  exact and_congr_right fun _ => eq_comm

theorem forEach_print_eq_ok {ls : List PajeLine} : forEach (print bufSize) t ls = .ok t' ↔
    (∀ line ∈ ls, line.text.utf8ByteSize < bufSize - 1) ∧
      t' = { t with lines := t.lines ++ ls } := by
  induction ls generalizing t with
  | nil =>
    rw [forEach_nil, Except.ok.injEq, List.append_nil, eq_comm]
    exact (and_iff_right (by simp)).symm
  | cons line ls ih =>
    simp only [forEach_cons, bind_eq_ok, print_eq_ok, ih, List.forall_mem_cons]
    constructor
    · rintro ⟨_, ⟨hfirst, rfl⟩, hrest, rfl⟩
      exact ⟨⟨hfirst, hrest⟩, by simp only [List.append_assoc, List.singleton_append]⟩
    · rintro ⟨⟨hfirst, hrest⟩, rfl⟩
      exact ⟨_, ⟨hfirst, rfl⟩, hrest, by simp only [List.append_assoc, List.singleton_append]⟩

end PajeTracer

end Batsim
