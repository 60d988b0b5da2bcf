import Mathlib.Algebra.Order.Field.Rat
import Mathlib.Algebra.Order.BigOperators.Group.List
import Mathlib.Tactic.Linarith
import Batsim.TaskIndices

/-!
The walltime of a job over its whole task tree.
-/

namespace Batsim

open Checked

namespace ProfileObject

/-- The data of a leaf that waits for a time of its own, sends a message or runs a parallel task. -/
def isTimed (p : ProfileObject) : Bool :=
  match p.data with
  | .delay _ _ | .schedulerSend _ | .parallelTask _ _ _ => true
  | _ => false

def isParallelTask (p : ProfileObject) : Bool :=
  match p.data with
  | .parallelTask _ _ _ => true
  | _ => false

end ProfileObject

namespace BatTask

mutual

/-- The leaves of a tree, from left to right. -/
def leaves : BatTask → List BatTask
  | ⟨profile, io, ptask, start, required, subTasks, current⟩ =>
    match profile.data with
    | .sequence _ => leavesOf subTasks
    | _ => [⟨profile, io, ptask, start, required, subTasks, current⟩]

/-- The leaves of several trees. -/
def leavesOf : List BatTask → List BatTask
  | [] => []
  | t :: ts => leaves t ++ leavesOf ts

end

theorem leaves_of_sequence {t : BatTask} {d : SequenceProfileData}
    (h : t.profile.data = .sequence d) : t.leaves = leavesOf t.subTasks := by
  obtain ⟨profile, io, ptask, start, required, subTasks, current⟩ := t
  simp only at h
  simp [leaves, h]

theorem leaves_of_timed {t : BatTask} (h : t.profile.isTimed = true) : t.leaves = [t] := by
  obtain ⟨profile, io, ptask, start, required, subTasks, current⟩ := t
  simp only [ProfileObject.isTimed] at h
  rw [leaves]
  split
  · next hdata => simp [hdata] at h
  · rfl

/-- A sequence of leaves, run one after the other until one does not return zero. -/
def runLeaves (ctx : TaskContext) : List BatTask → Execution → Except String TaskStep × Execution
  | [], e => (.ok (.finish 0), e)
  | t :: ts, e =>
    let (result, _, e) := execute ctx 1 t e
    if result = .ok (.finish 0) then runLeaves ctx ts e else (result, e)

theorem runLeaves_append (ctx : TaskContext) (ts us : List BatTask) (e : Execution) :
    runLeaves ctx (ts ++ us) e =
      if (runLeaves ctx ts e).1 = .ok (.finish 0) then runLeaves ctx us (runLeaves ctx ts e).2
      else runLeaves ctx ts e := by
  induction ts generalizing e with
  | nil => simp [runLeaves]
  | cons t ts ih =>
    simp only [List.cons_append, runLeaves]
    split
    · exact ih _
    · rfl

/-- Profiles of sequences and timed leaves, each with the return code zero. -/
def Plain (objects : List ProfileObject) : Prop :=
  ∀ p ∈ objects, p.returnCode = 0 ∧ (p.isTimed = true ∨ p.isSequence = true)

instance (objects : List ProfileObject) : Decidable (Plain objects) :=
  inferInstanceAs (Decidable (∀ p ∈ objects, _))

theorem execute_timed (ctx : TaskContext) {t : BatTask} (h : t.profile.isTimed = true)
    (depth : Nat) (e : Execution) : execute ctx (depth + 1) t e = execute ctx 1 t e := by
  unfold ProfileObject.isTimed at h
  unfold execute
  split at h
  · next hdata => simp only [hdata]
  · next hdata => simp only [hdata]
  · next hdata => simp only [hdata]
  · cases h

/-- The loops of a sequence run the leaves of the sub-tasks that are left. -/
theorem executeSubTasks_eq_runLeaves (ctx : TaskContext)
    {execute : BatTask → Execution → TaskRun} {left : Nat} {t : BatTask} {k : Nat}
    (hleft : t.subTasks.length = k + left)
    (hexecute : ∀ sub ∈ t.subTasks.drop k, ∀ e,
      ((execute sub e).1, (execute sub e).2.2) = runLeaves ctx sub.leaves e) (e : Execution) :
    ((executeSubTasks execute 0 (List.range' k left) t e).1,
        (executeSubTasks execute 0 (List.range' k left) t e).2.2) =
      runLeaves ctx (leavesOf (t.subTasks.drop k)) e := by
  induction left generalizing t k e with
  | zero =>
    have hdrop : t.subTasks.drop k = [] := List.drop_eq_nil_of_le (by omega)
    simp [executeSubTasks, hdrop, leavesOf, runLeaves]
  | succ left ih =>
    have hlt : k < t.subTasks.length := by omega
    have hdrop : t.subTasks.drop k = t.subTasks[k] :: t.subTasks.drop (k + 1) :=
      List.drop_eq_getElem_cons hlt
    have hhead := hexecute t.subTasks[k] (by rw [hdrop]; exact List.mem_cons_self) e
    rw [hdrop, leavesOf, runLeaves_append, ← hhead, List.range'_succ]
    simp only [executeSubTasks, List.getElem?_eq_getElem hlt]
    split
    · have hset : (t.subTasks.set k (execute t.subTasks[k] e).2.1).drop (k + 1) =
          t.subTasks.drop (k + 1) := List.drop_set_of_lt (by omega)
      have htail := ih (t := { t with
          currentTaskIndex := some k
          subTasks := t.subTasks.set k (execute t.subTasks[k] e).2.1 }) (k := k + 1)
        (by simp only [List.length_set]; omega)
        (fun sub hsub => hexecute sub (by
          rw [hset] at hsub
          rw [hdrop]
          exact List.mem_cons_of_mem _ hsub))
        (execute t.subTasks[k] e).2.2
      rw [htail, hset]
    · rfl

/-- Executing a whole tree is running its leaves from left to right. -/
theorem execute_eq_runLeaves (ctx : TaskContext) {objects : List ProfileObject}
    (hplain : Plain objects) {depth : Nat} {p : ProfilePtr} {io : Option ProfilePtr} {t : BatTask}
    (hbuild : initializeSequentialTasks objects depth p io = .ok t) {depth' : Nat}
    (hdepth : depth ≤ depth') (e : Execution) :
    ((execute ctx depth' t e).1, (execute ctx depth' t e).2.2) = runLeaves ctx t.leaves e := by
  induction depth generalizing p io t depth' e with
  | zero => cases hbuild
  | succ depth ih =>
    obtain ⟨d', rfl⟩ : ∃ d', depth' = d' + 1 := ⟨depth' - 1, by omega⟩
    simp only [initializeSequentialTasks, bind_eq_ok, vectorAt_eq_ok] at hbuild
    obtain ⟨object, hobject, hbuild⟩ := hbuild
    obtain ⟨hcode, htimed⟩ := hplain object (List.mem_of_getElem? hobject)
    split at hbuild
    · next d hd =>
      simp only [bind_eq_ok, Except.ok.injEq] at hbuild
      obtain ⟨subTasks, hsubs, rfl⟩ := hbuild
      have hforall := collect_eq_ok.mp hsubs
      rw [leaves_of_sequence hd]
      unfold execute
      simp only [hd, hcode, indices_eq]
      have hlength : subTasks.length = 0 + d.repeats * d.sequence.length := by
        rw [Nat.zero_add, ← hforall.length_eq, length_indices]
      rw [List.range_eq_range']
      refine executeSubTasks_eq_runLeaves ctx hlength ?_ e
      intro sub hsub e
      obtain ⟨i, hi, hget⟩ := List.getElem_of_mem hsub
      simp only [List.drop_zero] at hi hget
      have hbuilt := hforall.get (by rw [hforall.length_eq]; exact hi) hi
      simp only [bind_eq_ok] at hbuilt
      obtain ⟨q, -, io', -, hbuilt⟩ := hbuilt
      exact ih (by rw [← hget]; exact hbuilt) (by omega) e
    · next hnot =>
      rw [Except.ok.injEq] at hbuild
      subst hbuild
      have hleaf : object.isTimed = true := by
        refine htimed.resolve_right ?_
        unfold ProfileObject.isSequence
        split
        · next d hd => exact absurd hd (hnot d)
        · simp
      rw [leaves_of_timed hleaf, execute_timed ctx hleaf]
      simp only [runLeaves]
      split
      · next hdone => rw [hdone]
      · rfl

/-! ### The time of a leaf -/

end BatTask

/-- What happens while a timed leaf runs: how long its parallel task takes, how long its message
takes to reach the server, and what the scheduler sends to the job. -/
structure LeafAnswer where
  duration : Date
  sending : Date := 0
  messages : List String := []
  laterMessages : List String := []
  duration_nonneg : 0 ≤ duration

namespace LeafAnswer

/-- The same, blocking call by blocking call. -/
def answers (a : LeafAnswer) (p : ProfileObject) : List Answer :=
  match p.data with
  | .delay delay _ => if 0 < delay then [{ messages := a.messages }] else []
  | .schedulerSend _ =>
    [{ duration := a.sending, messages := a.messages }, { messages := a.laterMessages }]
  | .parallelTask _ _ _ => [{ duration := a.duration, messages := a.messages }]
  | _ => []

/-- The time that the leaf takes, the sending of its message apart. -/
def time (a : LeafAnswer) (p : ProfileObject) : Date :=
  match p.data with
  | .delay delay _ => delay
  | .schedulerSend d => d.sleeptime
  | .parallelTask _ _ _ => a.duration
  | _ => 0

theorem time_nonneg (a : LeafAnswer) (p : ProfileObject) : 0 ≤ a.time p := by
  unfold time
  split
  · next hpos _ => exact hpos
  · next d _ => exact d.sleeptime_pos.le
  · exact a.duration_nonneg
  · exact le_rfl

end LeafAnswer

namespace Execution

/-- `e'` is `e` after `time` more, with the same bookkeeping. -/
structure Elapses (e e' : Execution) (time : Date) : Prop where
  clock : e'.clock = e.clock + time
  sending : e'.sending = e.sending
  started : e'.started = e.started

variable {e : Execution} {time : Date} {a : Answer} {rest : List Answer}

theorem sleepFor_elapses (htime : 0 ≤ time)
    (hanswers : e.answers = (if 0 < time then [a] else []) ++ rest) :
    ∃ e', e.sleepFor time = (some (), e') ∧ e.Elapses e' time ∧
      e'.remainingTime = e.remainingTime ∧ e'.answers = rest := by
  unfold sleepFor
  split
  · next hle =>
    have hzero : time = 0 := le_antisymm hle htime
    subst hzero
    exact ⟨e, rfl, ⟨by simp, rfl, rfl⟩, rfl, by simpa using hanswers⟩
  · next hlt =>
    rw [if_pos (not_le.mp hlt)] at hanswers
    unfold await
    rw [hanswers]
    exact ⟨_, rfl, ⟨rfl, rfl, rfl⟩, rfl, rfl⟩

/-- A delay that ends before the walltime, or without one. -/
theorem doDelayTask_done (htime : 0 ≤ time)
    (hanswers : e.answers = (if 0 < time then [a] else []) ++ rest)
    (hbefore : e.remainingTime < 0 ∨ time < e.remainingTime) :
    ∃ e', e.doDelayTask time = (some 0, e') ∧ e.Elapses e' time ∧ e'.answers = rest ∧
      e'.remainingTime =
        if e.remainingTime < 0 then e.remainingTime else e.remainingTime - time := by
  obtain ⟨u, hsleep, helapses, hremaining, hrest⟩ := sleepFor_elapses htime hanswers
  unfold doDelayTask
  rw [if_pos hbefore, hsleep]
  simp only [hremaining]
  by_cases hnone : e.remainingTime < 0
  · rw [if_neg (by linarith), if_pos hnone]
    exact ⟨u, rfl, helapses, hrest, hremaining⟩
  · have hpos : e.remainingTime > 0 := lt_of_le_of_lt htime (hbefore.resolve_left hnone)
    rw [if_pos hpos, if_neg hnone]
    exact ⟨_, rfl, ⟨helapses.clock, helapses.sending, helapses.started⟩, hrest, rfl⟩

/-- A delay that the walltime ends. -/
theorem doDelayTask_late (hremaining : 0 ≤ e.remainingTime) (hlate : e.remainingTime ≤ time)
    (hanswers : 0 < time → e.answers = a :: rest) :
    ∃ e', e.doDelayTask time = (some (-1), e') ∧ e.Elapses e' e.remainingTime ∧
      e'.remainingTime = 0 := by
  have hnot : ¬(e.remainingTime < 0 ∨ time < e.remainingTime) := by
    rintro (h | h) <;> linarith
  have hsleep : ∃ e', e.sleepFor e.remainingTime = (some (), e') ∧
      e.Elapses e' e.remainingTime := by
    by_cases hpos : 0 < e.remainingTime
    · have hslept : e.answers = (if 0 < e.remainingTime then [a] else []) ++ rest := by
        simpa [hpos] using hanswers (lt_of_lt_of_le hpos hlate)
      obtain ⟨u, hu, helapses, -, -⟩ := sleepFor_elapses hremaining hslept
      exact ⟨u, hu, helapses⟩
    · have hzero : e.remainingTime = 0 := le_antisymm (not_lt.mp hpos) hremaining
      exact ⟨e, by simp [sleepFor, hzero], ⟨by simp [hzero], rfl, rfl⟩⟩
  obtain ⟨u, hu, helapses⟩ := hsleep
  unfold doDelayTask
  rw [if_neg hnot, hu]
  exact ⟨_, rfl, ⟨helapses.clock, helapses.sending, helapses.started⟩, rfl⟩

end Execution

namespace BatTask

/-- The walltime ends the leaf, when the time `r` remains. -/
def Late (p : ProfileObject) (a : LeafAnswer) (r : Date) : Prop :=
  if p.isParallelTask = true then r < a.time p else r ≤ a.time p

/-- How a timed leaf that starts in `e` ends with the return code `code` in `e'`, after the time
`time`. -/
structure RunsLeaf (ctx : TaskContext) (t : BatTask) (e e' : Execution) (time : Date)
    (code : Int) : Prop where
  result : (execute ctx 1 t e).1 = .ok (.finish code)
  execution : (execute ctx 1 t e).2.2 = e'
  clock : e'.clock - e'.sending = e.clock - e.sending + time
  started : e'.started = e.started ++ [⟨t.profile, e.remainingTime⟩]

/-- The run of a leaf that only sleeps, by the delay that it sleeps for. -/
theorem runsLeaf_of_delay (ctx : TaskContext) {t : BatTask} {delay : Date} {hdelay : 0 ≤ delay}
    (hdata : t.profile.data = .delay delay hdelay) (hcode : t.profile.returnCode = 0)
    {e e' : Execution} {time : Date} {code : Int} (hvalue : code = 0 ∨ code = -1)
    (hrun : (e.start t.profile).doDelayTask delay = (some code, e'))
    (helapses : (e.start t.profile).Elapses e' time) : RunsLeaf ctx t e e' time code := by
  refine ⟨?_, ?_, ?_, helapses.started⟩
  · rcases hvalue with rfl | rfl <;> simp [execute, hdata, hrun, leafStep, hcode]
  · simp [execute, hdata, hrun, leafStep]
  · rw [helapses.clock, helapses.sending]
    simp only [Execution.start]
    linarith

/-- The run of a leaf that sends a message and sleeps. -/
theorem runsLeaf_of_send (ctx : TaskContext) {t : BatTask} {d : SchedulerSendProfileData}
    (hdata : t.profile.data = .schedulerSend d) (hcode : t.profile.returnCode = 0)
    {e u e' : Execution} {time sending : Date} {code : Int} (hvalue : code = 0 ∨ code = -1)
    (hsend : (e.start t.profile).sendMessage = (some (), u))
    (hclock : u.clock = e.clock + sending) (hsending : u.sending = e.sending + sending)
    (hstarted : u.started = (e.start t.profile).started)
    (hrun : u.doDelayTask d.sleeptime = (some code, e')) (helapses : u.Elapses e' time) :
    RunsLeaf ctx t e e' time code := by
  refine ⟨?_, ?_, ?_, helapses.started.trans hstarted⟩
  · rcases hvalue with rfl | rfl <;> simp [execute, hdata, hsend, hrun, leafStep, hcode]
  · simp [execute, hdata, hsend, hrun, leafStep]
  · rw [helapses.clock, helapses.sending, hclock, hsending]
    linarith

/-- The run of a parallel task. -/
theorem runsLeaf_of_parallelTask (ctx : TaskContext) {t : BatTask} {type : ProfileType}
    {nbRes : Nat} {hparallel : type.isParallelTask = true}
    (hdata : t.profile.data = .parallelTask type nbRes hparallel)
    (hcode : t.profile.returnCode = 0) {e e' : Execution} {time : Date} {code : Int}
    (hvalue : code = 0 ∨ code = -1)
    (hrun : (e.start t.profile).executeParallelTask 0 = (some code, e'))
    (helapses : (e.start t.profile).Elapses e' time) : RunsLeaf ctx t e e' time code := by
  refine ⟨?_, ?_, ?_, helapses.started⟩
  · rcases hvalue with rfl | rfl <;> simp [execute, hdata, hcode, hrun]
  · simp [execute, hdata, hcode, hrun]
  · rw [helapses.clock, helapses.sending]
    simp only [Execution.start]
    linarith

theorem sendMessage_start (e : Execution) (p : ProfileObject) {a : Answer} {rest : List Answer}
    (hanswers : e.answers = a :: rest) :
    ∃ u, (e.start p).sendMessage = (some (), u) ∧ u.clock = e.clock + a.duration ∧
      u.sending = e.sending + a.duration ∧ u.started = (e.start p).started ∧
      u.answers = rest ∧ u.remainingTime = e.remainingTime := by
  unfold Execution.sendMessage Execution.await
  simp only [Execution.start, hanswers]
  exact ⟨_, rfl, rfl, rfl, rfl, rfl, rfl⟩

theorem executeParallelTask_start (e : Execution) (p : ProfileObject) {a : Answer}
    {rest : List Answer} (hanswers : e.answers = a :: rest) (hkill : a.cancelled = false) :
    ∃ u, (e.start p).executeParallelTask 0 =
        (some (if e.remainingTime < 0 ∨ ¬ e.remainingTime < a.duration then 0 else -1), u) ∧
      (e.start p).Elapses u
        (if e.remainingTime < 0 then a.duration else min a.duration e.remainingTime) ∧
      u.answers = rest ∧ u.remainingTime = if e.remainingTime < 0 then e.remainingTime
        else e.remainingTime - min a.duration e.remainingTime := by
  unfold Execution.executeParallelTask Execution.await
  simp only [Execution.start, hanswers]
  by_cases hnone : e.remainingTime < 0
  · rw [if_pos hnone]
    simp only [hnone, hkill, true_or, if_true]
    exact ⟨_, rfl, ⟨rfl, rfl, rfl⟩, rfl, rfl⟩
  · rw [if_neg hnone]
    by_cases hlate : e.remainingTime < a.duration
    · simp only [hnone, hlate, not_true, or_false, if_true, if_false]
      exact ⟨_, rfl, ⟨rfl, rfl, rfl⟩, rfl, rfl⟩
    · simp only [hnone, hlate, hkill, not_false_eq_true, or_true, if_true, if_false,
        Bool.false_eq_true]
      exact ⟨_, rfl, ⟨rfl, rfl, rfl⟩, rfl, rfl⟩

theorem runsLeaf_done (ctx : TaskContext) {t : BatTask} (htimed : t.profile.isTimed = true)
    (hcode : t.profile.returnCode = 0) {a : LeafAnswer} {e : Execution} {rest : List Answer}
    (hanswers : e.answers = a.answers t.profile ++ rest)
    (hbefore : e.remainingTime < 0 ∨ ¬ Late t.profile a e.remainingTime) :
    ∃ e', RunsLeaf ctx t e e' (a.time t.profile) 0 ∧ e'.answers = rest ∧
      e'.remainingTime = if e.remainingTime < 0 then e.remainingTime
        else e.remainingTime - a.time t.profile := by
  unfold Late ProfileObject.isParallelTask at hbefore
  unfold ProfileObject.isTimed at htimed
  split at htimed
  · next delay hnonneg hdata =>
    simp only [LeafAnswer.answers, LeafAnswer.time, hdata] at hanswers hbefore ⊢
    obtain ⟨u, hu, helapses, hrest, hremaining⟩ := Execution.doDelayTask_done
      (e := e.start t.profile) hnonneg hanswers (by simpa [Execution.start] using hbefore)
    exact ⟨u, runsLeaf_of_delay ctx hdata hcode (.inl rfl) hu helapses, hrest, hremaining⟩
  · next d hdata =>
    simp only [LeafAnswer.answers, LeafAnswer.time, hdata, List.cons_append] at hanswers hbefore ⊢
    obtain ⟨u, hu, hclock, hsending, hstarted, hlater, hsame⟩ :=
      sendMessage_start e t.profile hanswers
    obtain ⟨v, hv, helapses, hrest, hremaining⟩ := Execution.doDelayTask_done (e := u)
      d.sleeptime_pos.le (by simpa [d.sleeptime_pos] using hlater)
      (by simpa [hsame] using hbefore)
    rw [hsame] at hremaining
    exact ⟨v, runsLeaf_of_send ctx hdata hcode (.inl rfl) hu hclock hsending hstarted hv helapses,
      hrest, hremaining⟩
  · next type nbRes hparallel hdata =>
    simp only [LeafAnswer.answers, LeafAnswer.time, hdata, List.cons_append] at hanswers hbefore ⊢
    obtain ⟨u, hu, helapses, hrest, hremaining⟩ :=
      executeParallelTask_start e t.profile hanswers rfl
    simp only [if_true] at hbefore
    rw [if_pos hbefore] at hu
    have htime : e.remainingTime < 0 ∨ min a.duration e.remainingTime = a.duration :=
      hbefore.imp_right fun h => min_eq_left (not_lt.mp h)
    refine ⟨u, runsLeaf_of_parallelTask ctx hdata hcode (.inl rfl) hu ?_, hrest, ?_⟩
    · rcases htime with hnone | hmin
      · simpa [hnone] using helapses
      · simpa [hmin] using helapses
    · rcases htime with hnone | hmin
      · simpa [hnone] using hremaining
      · simpa [hmin] using hremaining
  · cases htimed

theorem runsLeaf_late (ctx : TaskContext) {t : BatTask} (htimed : t.profile.isTimed = true)
    (hcode : t.profile.returnCode = 0) {a : LeafAnswer} {e : Execution} {rest : List Answer}
    (hanswers : e.answers = a.answers t.profile ++ rest) (hremaining : 0 ≤ e.remainingTime)
    (hlate : Late t.profile a e.remainingTime) :
    ∃ e', RunsLeaf ctx t e e' e.remainingTime (-1) := by
  unfold Late ProfileObject.isParallelTask at hlate
  unfold ProfileObject.isTimed at htimed
  split at htimed
  · next delay hnonneg hdata =>
    simp only [LeafAnswer.answers, LeafAnswer.time, hdata] at hanswers hlate
    have hasked : 0 < delay → (e.start t.profile).answers = { messages := a.messages } :: rest :=
      fun hpos => by simpa [hpos, Execution.start] using hanswers
    obtain ⟨u, hu, helapses, -⟩ := Execution.doDelayTask_late (e := e.start t.profile) hremaining
      (by simpa [Execution.start] using hlate) hasked
    exact ⟨u, runsLeaf_of_delay ctx hdata hcode (.inr rfl) hu helapses⟩
  · next d hdata =>
    simp only [LeafAnswer.answers, LeafAnswer.time, hdata, List.cons_append] at hanswers hlate
    obtain ⟨u, hu, hclock, hsending, hstarted, hlater, hsame⟩ :=
      sendMessage_start e t.profile hanswers
    have hasked : 0 < d.sleeptime → u.answers = { messages := a.laterMessages } :: rest :=
      fun _ => by simpa using hlater
    obtain ⟨v, hv, helapses, -⟩ := Execution.doDelayTask_late (e := u)
      (by rw [hsame]; exact hremaining) (by simpa [hsame] using hlate) hasked
    rw [hsame] at helapses
    exact ⟨v, runsLeaf_of_send ctx hdata hcode (.inr rfl) hu hclock hsending hstarted hv helapses⟩
  · next type nbRes hparallel hdata =>
    simp only [LeafAnswer.answers, LeafAnswer.time, hdata, List.cons_append] at hanswers hlate
    obtain ⟨u, hu, helapses, -, -⟩ := executeParallelTask_start e t.profile hanswers rfl
    simp only [if_true] at hlate
    have hnot : ¬ e.remainingTime < 0 := not_lt.mpr hremaining
    rw [if_neg (by simp [hnot, hlate])] at hu
    rw [if_neg hnot, min_eq_right hlate.le] at helapses
    exact ⟨u, runsLeaf_of_parallelTask ctx hdata hcode (.inr rfl) hu helapses⟩
  · cases htimed

/-! ### The time of a sequence of leaves -/

/-- The time that the leaves take when no walltime ends them. -/
def totalTime (run : List (BatTask × LeafAnswer)) : Date :=
  (run.map fun x => x.2.time x.1.profile).sum

/-- The time at which the leaf `k` ends when no walltime ends it. -/
def endTime (run : List (BatTask × LeafAnswer)) (k : Nat) : Date := totalTime (run.take (k + 1))

/-- When no walltime ends them, some delay or send leaf ends at or after `walltime`, or some
parallel task ends after it. -/
def Overruns (run : List (BatTask × LeafAnswer)) (walltime : Date) : Prop :=
  ∃ k, ∃ h : k < run.length,
    if run[k].1.profile.isParallelTask = true then walltime < endTime run k
    else walltime ≤ endTime run k

variable {run : List (BatTask × LeafAnswer)} {walltime : Date}

theorem totalTime_nonneg (run : List (BatTask × LeafAnswer)) : 0 ≤ totalTime run := by
  refine List.sum_nonneg ?_
  intro time htime
  obtain ⟨x, -, rfl⟩ := List.mem_map.mp htime
  exact x.2.time_nonneg x.1.profile

theorem totalTime_cons (x : BatTask × LeafAnswer) :
    totalTime (x :: run) = x.2.time x.1.profile + totalTime run := by
  simp [totalTime]

theorem not_overruns_nil : ¬ Overruns [] walltime := by
  rintro ⟨k, hk, -⟩
  exact absurd hk (by simp)

theorem overruns_cons {x : BatTask × LeafAnswer} : Overruns (x :: run) walltime ↔
    Late x.1.profile x.2 walltime ∨ Overruns run (walltime - x.2.time x.1.profile) := by
  have hzero : endTime (x :: run) 0 = x.2.time x.1.profile := by
    simp [endTime, totalTime]
  have hsucc : ∀ k, endTime (x :: run) (k + 1) = x.2.time x.1.profile + endTime run k := by
    intro k
    simp [endTime, totalTime_cons]
  constructor
  · rintro ⟨k, hk, hend⟩
    cases k with
    | zero =>
      left
      simpa [Late, hzero] using hend
    | succ k =>
      right
      refine ⟨k, by simpa using hk, ?_⟩
      rw [hsucc, List.getElem_cons_succ] at hend
      rwa [sub_lt_iff_lt_add', sub_le_iff_le_add']
  · rintro (hlate | ⟨k, hk, hend⟩)
    · exact ⟨0, by simp, by simpa [Late, hzero] using hlate⟩
    · refine ⟨k + 1, by simpa using hk, ?_⟩
      rw [sub_lt_iff_lt_add', sub_le_iff_le_add'] at hend
      rwa [hsucc, List.getElem_cons_succ]

/-- The answers that a run of leaves uses up. -/
def answersOf (run : List (BatTask × LeafAnswer)) : List Answer :=
  run.flatMap fun x => x.2.answers x.1.profile

theorem runLeaves_without_walltime (ctx : TaskContext) {e : Execution} {extra : List Answer}
    (htimed : ∀ x ∈ run, x.1.profile.isTimed = true ∧ x.1.profile.returnCode = 0)
    (hanswers : e.answers = answersOf run ++ extra) (hnone : e.remainingTime < 0) :
    ∃ e', runLeaves ctx (run.map Prod.fst) e = (.ok (.finish 0), e') ∧
      e'.clock - e'.sending = e.clock - e.sending + totalTime run ∧
      e'.started.map LeafStart.profile =
        e.started.map LeafStart.profile ++ run.map fun x => x.1.profile := by
  induction run generalizing e with
  | nil => exact ⟨e, rfl, by simp [totalTime], by simp⟩
  | cons x run ih =>
    obtain ⟨hleaf, hcode⟩ := htimed x (by simp)
    obtain ⟨u, hruns, hrest, hremaining⟩ := runsLeaf_done ctx hleaf hcode (a := x.2) (e := e)
      (by simpa [answersOf] using hanswers) (.inl hnone)
    rw [if_pos hnone] at hremaining
    obtain ⟨e', hrun, hclock, hstarted⟩ := ih (fun y hy => htimed y (by simp [hy])) hrest
      (by rw [hremaining]; exact hnone)
    refine ⟨e', ?_, ?_, ?_⟩
    · simpa [runLeaves, hruns.result, hruns.execution] using hrun
    · rw [hclock, hruns.clock, totalTime_cons, add_assoc]
    · rw [hstarted, hruns.started]
      simp

theorem runLeaves_with_walltime (ctx : TaskContext) {e : Execution} {extra : List Answer}
    (htimed : ∀ x ∈ run, x.1.profile.isTimed = true ∧ x.1.profile.returnCode = 0)
    (hanswers : e.answers = answersOf run ++ extra) (hremaining : 0 ≤ e.remainingTime) :
    ∃ code e', runLeaves ctx (run.map Prod.fst) e = (.ok (.finish code), e') ∧
      (code = -1 ∨ code = 0) ∧ (code = -1 ↔ Overruns run e.remainingTime) ∧
      e'.clock - e'.sending = e.clock - e.sending + min (totalTime run) e.remainingTime ∧
      ∃ starts, e'.started = e.started ++ starts ∧ (∀ l ∈ starts, 0 ≤ l.remainingTime) ∧
        starts.map LeafStart.profile <+: run.map (fun x => x.1.profile) ∧
        (code = 0 → starts.length = run.length) := by
  induction run generalizing e with
  | nil =>
    refine ⟨0, e, rfl, .inr rfl, ?_, ?_, [], by simp, by simp, by simp, by simp⟩
    · simp [not_overruns_nil]
    · simp [totalTime, hremaining]
  | cons x run ih =>
    obtain ⟨hleaf, hcode⟩ := htimed x (by simp)
    have hanswers' : e.answers = x.2.answers x.1.profile ++ (answersOf run ++ extra) := by
      simpa [answersOf] using hanswers
    have htotal := totalTime_nonneg run
    by_cases hlate : Late x.1.profile x.2 e.remainingTime
    · -- the walltime ends this leaf
      obtain ⟨e', hruns⟩ := runsLeaf_late ctx hleaf hcode hanswers' hremaining hlate
      refine ⟨-1, e', ?_, .inl rfl, ?_, ?_, [⟨x.1.profile, e.remainingTime⟩], hruns.started, ?_, ?_,
        by simp⟩
      · simp [runLeaves, hruns.result, hruns.execution]
      · simp [overruns_cons, hlate]
      · have hle : e.remainingTime ≤ x.2.time x.1.profile := by
          unfold Late at hlate
          split at hlate
          · exact hlate.le
          · exact hlate
        rw [hruns.clock, totalTime_cons, min_eq_right (by linarith)]
      · simpa using hremaining
      · simp
    · obtain ⟨u, hruns, hrest, hafter⟩ := runsLeaf_done ctx hleaf hcode hanswers' (.inr hlate)
      rw [if_neg (not_lt.mpr hremaining)] at hafter
      have hbefore : x.2.time x.1.profile ≤ e.remainingTime := by
        unfold Late at hlate
        split at hlate
        · exact not_lt.mp hlate
        · exact (not_le.mp hlate).le
      obtain ⟨code, e', hrun, hvalue, hoverruns, hclock, starts, hstarted, hnonneg, hprefix, hall⟩ :=
        ih (fun y hy => htimed y (by simp [hy])) hrest (by rw [hafter]; linarith)
      refine ⟨code, e', ?_, hvalue, ?_, ?_, ⟨x.1.profile, e.remainingTime⟩ :: starts, ?_, ?_, ?_, ?_⟩
      · simpa [runLeaves, hruns.result, hruns.execution] using hrun
      · rw [hoverruns, hafter, overruns_cons]
        simp [hlate]
      · rw [hclock, hruns.clock, hafter, totalTime_cons, add_assoc, ← min_add_add_left]
        simp
      · rw [hstarted, hruns.started]
        simp
      · intro l hl
        rcases List.mem_cons.mp hl with rfl | hl
        · exact hremaining
        · exact hnonneg l hl
      · simpa using hprefix
      · intro hzero
        simp [hall hzero]

/-! ### The time of a tree -/

theorem mem_leavesOf {ts : List BatTask} {l : BatTask} (h : l ∈ leavesOf ts) :
    ∃ t ∈ ts, l ∈ t.leaves := by
  induction ts with
  | nil => simp [leavesOf] at h
  | cons t ts ih =>
    rw [leavesOf, List.mem_append] at h
    rcases h with h | h
    · exact ⟨t, by simp, h⟩
    · obtain ⟨u, hu, hl⟩ := ih h
      exact ⟨u, by simp [hu], hl⟩

theorem timed_of_mem_leaves {objects : List ProfileObject} (hplain : Plain objects) {depth : Nat}
    {p : ProfilePtr} {io : Option ProfilePtr} {t l : BatTask}
    (hbuild : initializeSequentialTasks objects depth p io = .ok t) (hl : l ∈ t.leaves) :
    l.profile.isTimed = true ∧ l.profile.returnCode = 0 := by
  induction depth generalizing p io t with
  | zero => cases hbuild
  | succ depth ih =>
    simp only [initializeSequentialTasks, bind_eq_ok, vectorAt_eq_ok] at hbuild
    obtain ⟨object, hobject, hbuild⟩ := hbuild
    obtain ⟨hcode, htimed⟩ := hplain object (List.mem_of_getElem? hobject)
    split at hbuild
    · next d hd =>
      simp only [bind_eq_ok, Except.ok.injEq] at hbuild
      obtain ⟨subTasks, hsubs, rfl⟩ := hbuild
      rw [leaves_of_sequence hd] at hl
      obtain ⟨sub, hsub, hl⟩ := mem_leavesOf hl
      have hforall := collect_eq_ok.mp hsubs
      obtain ⟨i, hi, rfl⟩ := List.getElem_of_mem hsub
      have hbuilt := hforall.get (by rw [hforall.length_eq]; exact hi) hi
      simp only [bind_eq_ok] at hbuilt
      obtain ⟨q, -, io', -, hbuilt⟩ := hbuilt
      exact ih hbuilt hl
    · next hnot =>
      rw [Except.ok.injEq] at hbuild
      subst hbuild
      have hleaf : object.isTimed = true := by
        refine htimed.resolve_right ?_
        unfold ProfileObject.isSequence
        split
        · next d hd => exact absurd hd (hnot d)
        · simp
      rw [leaves_of_timed hleaf, List.mem_singleton] at hl
      subst hl
      exact ⟨hleaf, hcode⟩

end BatTask

open BatTask

end Batsim
