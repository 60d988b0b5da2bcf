import Batsim.Actors
import Batsim.ProfileObjects

/-!
Task trees: how `execute_job_process` builds the tree of a job, how `execute_task` goes through
it, and how a killer and the protocol read it.
-/

namespace Batsim

open Checked

/-- `BatTask`; of a parallel task it is only said whether it was created. -/
structure BatTask where
  profile : ProfileObject
  ioProfile : Option ProfilePtr := none
  ptask : Bool := false
  delayTaskStart : Option Date := none
  delayTaskRequired : Option Date := none
  subTasks : List BatTask := []
  currentTaskIndex : Option Nat := none

/-- Reading a vector out of its bounds, which is undefined behaviour. -/
def outOfRange : String := "index out of range"

/-- `v[i]` -/
def vectorAt {α : Type} (v : List α) (i : Nat) : Except String α :=
  match v[i]? with
  | some a => .ok a
  | none => .error outOfRange

theorem vectorAt_eq_ok {α : Type} {v : List α} {i : Nat} {a : α} :
    vectorAt v i = .ok a ↔ v[i]? = some a := by
  unfold vectorAt
  cases v[i]? with
  | none => simp
  | some b => simp

theorem vectorAt_eq_error {α : Type} {v : List α} {i : Nat} {e : String}
    (h : vectorAt v i = .error e) : v.length ≤ i ∧ e = outOfRange := by
  unfold vectorAt at h
  cases hi : v[i]? with
  | none =>
    rw [hi] at h
    cases h
    exact ⟨List.getElem?_eq_none_iff.mp hi, rfl⟩
  | some b =>
    rw [hi] at h
    cases h

/-- The values of `current_task_index` along the two loops of a sequence, in order. -/
def SequenceProfileData.indices (d : SequenceProfileData) : List Nat :=
  (List.range d.repeats).flatMap fun iteration =>
    (List.range d.sequence.length).map fun i => iteration * d.sequence.length + i

section build

variable (objects : List ProfileObject)

/-- The profile that runs along the `i`-th sub-profile of a sequence, if any. -/
def subIoProfile (io : Option ProfilePtr) (i : Nat) : Except String (Option ProfilePtr) :=
  match io with
  | none => .ok none
  | some p => do
    let object ← vectorAt objects p
    match object.data with
    | .sequence d => do
      let sub ← vectorAt d.profileSequence i
      .ok (some sub)
    -- the data of a profile of another type is read as a `SequenceProfileData`
    | _ => .error "not a sequence"

/-- `initialize_sequential_tasks`, with the depth of its recursion bounded -/
def initializeSequentialTasks : Nat → ProfilePtr → Option ProfilePtr → Except String BatTask
  | 0, _, _ => .error "stack overflow"
  | depth + 1, p, io => do
    let object ← vectorAt objects p
    match object.data with
    | .sequence d => do
      let subTasks ← collect (fun i => do
        let sub ← vectorAt d.profileSequence i
        let subIo ← subIoProfile objects io i
        initializeSequentialTasks depth sub subIo)
        ((List.range d.repeats).flatMap fun _ => List.range d.sequence.length)
      .ok { profile := object, subTasks := subTasks }
    | _ => .ok { profile := object, ioProfile := io }

end build

/-! ### The execution -/

/-- What the rest of the simulation does while an execution is blocked: how long the activity that
it waits for takes, whether a killer cancels it, and what the scheduler sends to the job. -/
structure Answer where
  duration : Date := 0
  cancelled : Bool := false
  messages : List String := []
deriving DecidableEq

/-- A leaf that starts, and the time that remains until the walltime then. -/
structure LeafStart where
  profile : ProfileObject
  remainingTime : Date
deriving DecidableEq

/-- What the tasks of a job share. -/
structure Execution where
  clock : Date
  remainingTime : Date
  incomingMessageBuffer : List String := []
  /-- what happens at the next blocking calls; the execution stays blocked after the last one -/
  answers : List Answer
  /-- the time spent so far in sending messages to the server, the leaves started so far, and the
  names of the profiles that tasks were created for; nothing in the program reads them -/
  sending : Date := 0
  started : List LeafStart := []
  created : List String := []
deriving DecidableEq

/-- What executing a task reads besides the task. -/
structure TaskContext where
  /-- `regex_match(message, regex)` -/
  regexMatch : String → String → Bool
  /-- `job->workload->profiles->at` -/
  profileAt : String → Except String ProfileObject

namespace Execution

/-- A blocking call, with what it does once it is answered. -/
def await {α : Type} (e : Execution) (k : Answer → Execution → α × Execution) :
    Option α × Execution :=
  match e.answers with
  | [] => (none, e)
  | a :: answers =>
    let (result, e) := k a { e with
      answers := answers
      incomingMessageBuffer := e.incomingMessageBuffer ++ a.messages }
    (some result, e)

def pass (e : Execution) (time : Date) : Execution := { e with clock := e.clock + time }

/-- `this_actor::sleep_for`, that does nothing when there is no time to sleep -/
def sleepFor (e : Execution) (time : Date) : Option Unit × Execution :=
  if time ≤ 0 then (some (), e) else e.await fun _ e => ((), e.pass time)

/-- `do_delay_task` -/
def doDelayTask (e : Execution) (sleeptime : Date) : Option Int × Execution :=
  if e.remainingTime < 0 ∨ sleeptime < e.remainingTime then
    match e.sleepFor sleeptime with
    | (none, e) => (none, e)
    | (some (), e) => (some 0,
        if e.remainingTime > 0 then { e with remainingTime := e.remainingTime - sleeptime } else e)
  else
    match e.sleepFor e.remainingTime with
    | (none, e) => (none, e)
    | (some (), e) => (some (-1), { e with remainingTime := 0 })

/-- The end of `execute_parallel_task`: `wait` or `wait_for` returns when the parallel task is
over or cancelled, or, in the latter case, after the time that remains. -/
def executeParallelTask (e : Execution) (returnCode : Int) : Option Int × Execution :=
  if e.remainingTime < 0 then
    e.await fun a e => (if a.cancelled then -2 else returnCode, e.pass a.duration)
  else
    e.await fun a e =>
      let waited := min a.duration e.remainingTime
      (if e.remainingTime < a.duration then -1 else if a.cancelled then -2 else returnCode,
        { e.pass waited with remainingTime := e.remainingTime - waited })

/-- `send_message` to the server -/
def sendMessage (e : Execution) : Option Unit × Execution :=
  e.await fun a e => ((), { e.pass a.duration with sending := e.sending + a.duration })

/-- The loop that waits for a message from the scheduler, for at most `n` turns. A turn that
neither returns nor blocks uses an answer up, so the number of answers and one more is enough. -/
def pollMessages (polltime : Date) : Nat → Execution → Option Int × Execution
  | 0, e => (none, e)
  | n + 1, e =>
    match e.doDelayTask polltime with
    | (none, e) => (none, e)
    | (some code, e) =>
      if code = -1 then (some (-1), e)
      else if e.incomingMessageBuffer ≠ [] then (some 0, e)
      else pollMessages polltime n e

/-- The loop that waits for the child actors of a replay. -/
def waitChildren (hasWalltime : Bool) : Nat → Execution → Option Int × Execution
  | 0, e => (some 0, e)
  | n + 1, e =>
    let (result, e) := e.await fun a e =>
      if hasWalltime = true then
        if e.remainingTime < a.duration then ((-1 : Int), e.pass e.remainingTime)
        else (0, { e.pass a.duration with remainingTime := e.remainingTime - a.duration })
      else (0, e.pass a.duration)
    match result with
    | some 0 => waitChildren hasWalltime n e
    | result => (result, e)

def start (e : Execution) (p : ProfileObject) : Execution :=
  { e with started := e.started ++ [⟨p, e.remainingTime⟩] }

end Execution

/-- How an execution goes on: it stops at `step`, or stops the program. -/
abbrev TaskRun := Except String TaskStep × BatTask × Execution

namespace BatTask

/-- The two loops of a sequence, over what is left of the indices. -/
def executeSubTasks (execute : BatTask → Execution → TaskRun) (returnCode : Int) :
    List Nat → BatTask → Execution → TaskRun
  | [], t, e => (.ok (.finish returnCode), t, e)
  | i :: is, t, e =>
    let t := { t with currentTaskIndex := some i }
    match t.subTasks[i]? with
    | none => (.error outOfRange, t, e)
    | some sub =>
      let (result, sub, e) := execute sub e
      let t := { t with subTasks := t.subTasks.set i sub }
      if result = .ok (.finish 0) then executeSubTasks execute returnCode is t e
      else (result, t, e)

/-- The return code of a leaf whose wait ended with `code`. -/
def leafStep (t : BatTask) (l : Leaf) (r : Option Int × Execution) : TaskRun :=
  match r with
  | (none, e) => (.ok (.leaf l), t, e)
  | (some code, e) => (.ok (.finish (if code = -1 then -1 else t.profile.returnCode)), t, e)

/-- The profile that a `SCHEDULER_RECV` profile executes, once the message is there or not. -/
def chosenProfile (ctx : TaskContext) (d : SchedulerRecvProfileData) (hasMessages : Bool)
    (e : Execution) : String × Execution :=
  match hasMessages, e.incomingMessageBuffer with
  | true, message :: messages =>
    (if ctx.regexMatch message d.regex then d.onSuccess else d.onFailure,
      { e with incomingMessageBuffer := messages })
  | _, _ => (d.onTimeout, e)

/-- The end of the `SCHEDULER_RECV` branch: a task is made for the chosen profile, if any, without
sub-tasks of its own. -/
def executeChosen (execute : BatTask → Execution → TaskRun) (ctx : TaskContext) (t : BatTask)
    (chosen : String × Execution) : TaskRun :=
  let (name, e) := chosen
  if name = "" then (.ok (.finish t.profile.returnCode), t, e)
  else
    let e := { e with created := e.created ++ [name] }
    let t := { t with currentTaskIndex := some 0 }
    match ctx.profileAt name with
    | .error msg => (.error msg, t, e)
    | .ok object =>
      let (result, sub, e) := execute { profile := object } e
      let t := { t with subTasks := t.subTasks ++ [sub] }
      if result = .ok (.finish 0) then (.ok (.finish t.profile.returnCode), t, e)
      else (result, t, e)

/-- `execute_task` up to the blocking call that has no answer, with the depth of its recursion
bounded -/
def execute (ctx : TaskContext) : Nat → BatTask → Execution → TaskRun
  | 0, t, e => (.error "stack overflow", t, e)
  | depth + 1, t, e =>
    match t.profile.data with
    | .parallelTask _ _ _ =>
      let e := e.start t.profile
      let t := { t with ptask := true }
      match e.executeParallelTask t.profile.returnCode with
      | (none, e) => (.ok (.leaf .ptask), t, e)
      | (some code, e) =>
        (.ok (.finish (if code ≠ 0 then code else t.profile.returnCode)), t, e)
    | .sequence d => executeSubTasks (execute ctx depth) t.profile.returnCode d.indices t e
    | .schedulerSend d =>
      let e := e.start t.profile
      match e.sendMessage with
      | (none, e) => (.ok (.sendMessage d.message), t, e)
      | (some (), e) => t.leafStep .other (e.doDelayTask d.sleeptime)
    | .schedulerRecv d =>
      let e := e.start t.profile
      if e.incomingMessageBuffer = [] ∧ d.onTimeout = "" then
        match e.pollMessages d.polltime (e.answers.length + 1) with
        | (none, e) => (.ok (.leaf .other), t, e)
        | (some code, e) =>
          if code = -1 then (.ok (.finish (-1)), t, e)
          else executeChosen (execute ctx depth) ctx t (chosenProfile ctx d true e)
      else
        executeChosen (execute ctx depth) ctx t
          (chosenProfile ctx d (e.incomingMessageBuffer ≠ []) e)
    | .delay delay _ =>
      let e := e.start t.profile
      let t := { t with delayTaskStart := some e.clock, delayTaskRequired := some delay }
      t.leafStep .other (e.doDelayTask delay)
    | .replay traceFilenames =>
      let e := e.start t.profile
      t.leafStep .other (e.waitChildren (0 ≤ e.remainingTime) traceFilenames.length)

/-! ### Reading a tree while it is executed -/

mutual

/-- `compute_tasks_progress`; what the progress of a leaf is does not matter here. -/
def computeTasksProgress : BatTask → Except String Unit
  | ⟨profile, _, _, delayTaskStart, _, subTasks, currentTaskIndex⟩ =>
    match profile.data with
    | .sequence _ => computeProgressAt subTasks currentTaskIndex
    | data => do
      -- `compute_leaf_progress`
      xbtAssert (subTasks.isEmpty = true) "Leaves should not contain sub tasks"
      match data with
      | .delay _ _ => xbtAssert (delayTaskStart ≠ none) "Internal error"
      | _ => .ok ()

/-- `sub_tasks[current_task_index]->compute_tasks_progress()` -/
def computeProgressAt : List BatTask → Option Nat → Except String Unit
  | t :: _, some 0 => computeTasksProgress t
  | _ :: ts, some (i + 1) => computeProgressAt ts (some i)
  | _, _ => .error outOfRange

end

mutual

/-- `cancel_ptask` -/
def cancelPtask : BatTask → Except String Bool
  | ⟨_, _, ptask, _, _, subTasks, currentTaskIndex⟩ =>
    if ptask || subTasks.isEmpty then .ok ptask else cancelPtaskAt subTasks currentTaskIndex

/-- `cancel_ptask(btask->sub_tasks[btask->current_task_index])` -/
def cancelPtaskAt : List BatTask → Option Nat → Except String Bool
  | t :: _, some 0 => cancelPtask t
  | _ :: ts, some (i + 1) => cancelPtaskAt ts (some i)
  | _, _ => .error outOfRange

end

mutual

/-- `generate_task_tree`: the names and indices that it writes, from the root on. -/
def generateTaskTree : BatTask → Except String (List (String × Option Nat))
  | ⟨profile, _, ptask, delayTaskStart, _, subTasks, currentTaskIndex⟩ =>
    if ptask = true ∨ delayTaskStart ≠ none then .ok [(profile.name, none)]
    else
      match currentTaskIndex with
      | none => .ok [(profile.name, none)]
      | some i => do
        let tree ← generateTaskTreeAt subTasks i
        .ok ((profile.name, some i) :: tree)

/-- `generate_task_tree(task_tree->sub_tasks[task_tree->current_task_index])` -/
def generateTaskTreeAt : List BatTask → Nat → Except String (List (String × Option Nat))
  | t :: _, 0 => generateTaskTree t
  | _ :: ts, i + 1 => generateTaskTreeAt ts i
  | [], _ => .error outOfRange

end

end BatTask

end Batsim
