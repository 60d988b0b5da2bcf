import Batsim.Tasks

/-!
The indices of a task tree: where the code that goes through a tree finds it, as long as no
`SCHEDULER_RECV` profile made a task of its own.
-/

namespace Batsim

open Checked

namespace BatTask

/-- A tree that `initialize_sequential_tasks` may build, not executed yet. -/
inductive Fresh : BatTask → Prop
  | leaf {t : BatTask} : t.profile.isSequence = false → t.subTasks = [] → t.ptask = false →
      t.currentTaskIndex = none → Fresh t
  | sequence {t : BatTask} (d : SequenceProfileData) : t.profile.data = .sequence d →
      t.subTasks.length = d.repeats * d.sequence.length → t.ptask = false →
      (∀ sub ∈ t.subTasks, Fresh sub) → Fresh t

/-- A tree whose execution started: from each sequence on the path of the current tasks the index
leads to a task, down to a leaf, that has a parallel task or not. -/
inductive OnPath (ptask : Bool) : BatTask → Prop
  | leaf {t : BatTask} : t.profile.isSequence = false → t.subTasks = [] → t.ptask = ptask →
      t.currentTaskIndex = none →
      (∀ delay h, t.profile.data = .delay delay h → t.delayTaskStart ≠ none) → OnPath ptask t
  | sequence {t sub : BatTask} (i : Nat) : t.profile.isSequence = true → t.ptask = false →
      t.currentTaskIndex = some i → t.subTasks[i]? = some sub → OnPath ptask sub → OnPath ptask t

theorem length_indices (d : SequenceProfileData) :
    ((List.range d.repeats).flatMap fun _ => List.range d.sequence.length).length =
      d.repeats * d.sequence.length := by
  simp

/-- The two loops of a sequence go through the sub-tasks in order. -/
theorem indices_eq (d : SequenceProfileData) :
    d.indices = List.range (d.repeats * d.sequence.length) := by
  unfold SequenceProfileData.indices
  induction d.repeats with
  | zero => simp
  | succ n ih =>
    rw [List.range_succ, List.flatMap_append, ih, Nat.succ_mul, List.range_add]
    simp

theorem vectorAt_eq_ok {α : Type} {v : List α} {i : Nat} {a : α} :
    vectorAt v i = .ok a ↔ v[i]? = some a := by
  unfold vectorAt
  cases v[i]? <;> simp

theorem fresh_of_initializeSequentialTasks {objects : List ProfileObject} {depth : Nat}
    {p : ProfilePtr} {io : Option ProfilePtr} {t : BatTask}
    (h : initializeSequentialTasks objects depth p io = .ok t) : Fresh t := by
  induction depth generalizing p io t with
  | zero => cases h
  | succ depth ih =>
    simp only [initializeSequentialTasks, bind_eq_ok] at h
    obtain ⟨object, -, h⟩ := h
    split at h
    · next d hd =>
      simp only [bind_eq_ok, Except.ok.injEq] at h
      obtain ⟨subTasks, hsubs, rfl⟩ := h
      have hforall := collect_eq_ok.mp hsubs
      refine .sequence d hd ?_ rfl ?_
      · rw [← hforall.length_eq, length_indices]
      · intro sub hsub
        obtain ⟨i, hi, hget⟩ := List.getElem_of_mem hsub
        obtain ⟨q, -, io', -, hbuild⟩ := by
          have := hforall.get (by rw [hforall.length_eq]; exact hi) hi
          simpa only [bind_eq_ok] using this
        exact ih (by rw [← hget]; exact hbuild)
    · next hnot =>
      rw [Except.ok.injEq] at h
      subst h
      refine .leaf ?_ rfl rfl rfl
      unfold ProfileObject.isSequence
      split
      · next d hd => exact absurd hd (hnot d)
      · rfl

/-! ### Reading a tree -/

theorem computeProgressAt_eq {ts : List BatTask} {t : BatTask} {i : Nat} (h : ts[i]? = some t) :
    computeProgressAt ts (some i) = computeTasksProgress t := by
  induction ts generalizing i with
  | nil => simp at h
  | cons u ts ih =>
    cases i with
    | zero =>
      simp only [List.getElem?_cons_zero, Option.some.injEq] at h
      rw [computeProgressAt, h]
    | succ i =>
      rw [computeProgressAt]
      exact ih (by simpa using h)

theorem cancelPtaskAt_eq {ts : List BatTask} {t : BatTask} {i : Nat} (h : ts[i]? = some t) :
    cancelPtaskAt ts (some i) = cancelPtask t := by
  induction ts generalizing i with
  | nil => simp at h
  | cons u ts ih =>
    cases i with
    | zero =>
      simp only [List.getElem?_cons_zero, Option.some.injEq] at h
      rw [cancelPtaskAt, h]
    | succ i =>
      rw [cancelPtaskAt]
      exact ih (by simpa using h)

theorem generateTaskTreeAt_eq {ts : List BatTask} {t : BatTask} {i : Nat} (h : ts[i]? = some t) :
    generateTaskTreeAt ts i = generateTaskTree t := by
  induction ts generalizing i with
  | nil => simp at h
  | cons u ts ih =>
    cases i with
    | zero =>
      simp only [List.getElem?_cons_zero, Option.some.injEq] at h
      rw [generateTaskTreeAt, h]
    | succ i =>
      rw [generateTaskTreeAt]
      exact ih (by simpa using h)

variable {t : BatTask} {b : Bool}

theorem OnPath.computeTasksProgress_eq (h : OnPath b t) : computeTasksProgress t = .ok () := by
  induction h with
  | @leaf t hleaf hsubs _ _ hdelay =>
    obtain ⟨profile, io, ptask, delayTaskStart, required, subTasks, current⟩ := t
    simp only at hsubs hdelay
    subst hsubs
    unfold ProfileObject.isSequence at hleaf
    rw [computeTasksProgress]
    cases hdata : profile.data with
    | sequence d => simp [hdata] at hleaf
    | delay delay hpos =>
      simp only [xbtAssert, Checked.require, List.isEmpty_nil, if_true]
      simp [hdelay delay hpos hdata, bind, Except.bind]
    | _ => simp [xbtAssert, Checked.require, bind, Except.bind]
  | @sequence t sub i hseq _ hcurrent hsub _ ih =>
    obtain ⟨profile, io, ptask, delayTaskStart, required, subTasks, current⟩ := t
    simp only at hcurrent hsub
    subst hcurrent
    unfold ProfileObject.isSequence at hseq
    rw [computeTasksProgress]
    split at hseq
    · next d hd =>
      rw [hd]
      exact (computeProgressAt_eq hsub).trans ih
    · cases hseq

theorem OnPath.cancelPtask_eq (h : OnPath b t) : cancelPtask t = .ok b := by
  induction h with
  | @leaf t _ hsubs hptask _ _ =>
    obtain ⟨profile, io, ptask, delayTaskStart, required, subTasks, current⟩ := t
    simp only at hsubs hptask
    simp [cancelPtask, hsubs, hptask]
  | @sequence t sub i _ hptask hcurrent hsub _ ih =>
    obtain ⟨profile, io, ptask, delayTaskStart, required, subTasks, current⟩ := t
    simp only at hptask hcurrent hsub
    have hne : subTasks.isEmpty = false := by
      cases subTasks with
      | nil => simp at hsub
      | cons u us => rfl
    simp only [cancelPtask, hptask, hne, Bool.or_self, hcurrent]
    exact (cancelPtaskAt_eq hsub).trans ih

theorem OnPath.generateTaskTree_eq (h : OnPath b t) : ∃ tree, generateTaskTree t = .ok tree := by
  induction h with
  | @leaf t _ _ _ hcurrent _ =>
    obtain ⟨profile, io, ptask, delayTaskStart, required, subTasks, current⟩ := t
    simp only at hcurrent
    subst hcurrent
    rw [generateTaskTree]
    split <;> exact ⟨_, rfl⟩
  | @sequence t sub i _ _ hcurrent hsub _ ih =>
    obtain ⟨profile, io, ptask, delayTaskStart, required, subTasks, current⟩ := t
    simp only at hcurrent hsub
    subst hcurrent
    obtain ⟨tree, htree⟩ := ih
    rw [generateTaskTree]
    split
    · exact ⟨_, rfl⟩
    · simp [generateTaskTreeAt_eq hsub, htree]

end BatTask

/-! ### Tasks that a `SCHEDULER_RECV` profile makes -/

namespace Execution

variable (e : Execution)

theorem created_await {α : Type} {k : Answer → Execution → α × Execution}
    (hk : ∀ a e, (k a e).2.created = e.created) : (e.await k).2.created = e.created := by
  unfold await
  split
  · rfl
  · exact hk _ _

@[simp] theorem created_pass (time : Date) : (e.pass time).created = e.created := rfl

@[simp] theorem created_start (p : ProfileObject) : (e.start p).created = e.created := rfl

@[simp] theorem created_sleepFor (time : Date) : (e.sleepFor time).2.created = e.created := by
  unfold sleepFor
  split
  · rfl
  · exact created_await e fun _ _ => rfl

@[simp] theorem created_doDelayTask (sleeptime : Date) :
    (e.doDelayTask sleeptime).2.created = e.created := by
  have hsleep := fun time => created_sleepFor e time
  unfold doDelayTask
  split
  · split
    · next e' h => simpa [h] using hsleep sleeptime
    · next e' h =>
      split <;> simpa [h] using hsleep sleeptime
  · split
    · next e' h => simpa [h] using hsleep e.remainingTime
    · next e' h => simpa [h] using hsleep e.remainingTime

@[simp] theorem created_executeParallelTask (returnCode : Int) :
    (e.executeParallelTask returnCode).2.created = e.created := by
  unfold executeParallelTask
  split <;> exact created_await e fun _ _ => rfl

@[simp] theorem created_sendMessage : e.sendMessage.2.created = e.created :=
  created_await e fun _ _ => rfl

@[simp] theorem created_pollMessages (polltime : Date) (n : Nat) :
    (e.pollMessages polltime n).2.created = e.created := by
  induction n generalizing e with
  | zero => rfl
  | succ n ih =>
    have hdelay := created_doDelayTask e polltime
    unfold pollMessages
    split
    · next e' h => simpa [h] using hdelay
    · next code e' h =>
      have hcreated : e'.created = e.created := by simpa [h] using hdelay
      split
      · exact hcreated
      · split
        · exact hcreated
        · exact (ih e').trans hcreated

@[simp] theorem created_waitChildren (hasWalltime : Bool) (n : Nat) :
    (e.waitChildren hasWalltime n).2.created = e.created := by
  induction n generalizing e with
  | zero => rfl
  | succ n ih =>
    unfold waitChildren
    simp only
    generalize hawait : e.await _ = r
    have hcreated : r.2.created = e.created := by
      rw [← hawait]
      refine created_await e fun a e => ?_
      split
      · split <;> rfl
      · rfl
    split
    · exact (ih r.2).trans hcreated
    · exact hcreated

end Execution

namespace BatTask

@[simp] theorem created_leafStep (t : BatTask) (l : Leaf) (q : Option Int × Execution) :
    (t.leafStep l q).2.2.created = q.2.created := by
  obtain ⟨_ | code, e⟩ := q <;> rfl

theorem created_chosenProfile {ctx : TaskContext} {d : SchedulerRecvProfileData}
    {hasMessages : Bool} {e : Execution} :
    (chosenProfile ctx d hasMessages e).2.created = e.created := by
  unfold chosenProfile
  split <;> rfl

/-- Executing a task only adds to the names of the profiles that tasks were made for. -/
def Grows (run : TaskRun) (e : Execution) : Prop := e.created <+: run.2.2.created

theorem executeSubTasks_grows {execute : BatTask → Execution → TaskRun}
    (hexecute : ∀ t e, Grows (execute t e) e) (returnCode : Int) (is : List Nat) (t : BatTask) (e : Execution) :
    Grows (executeSubTasks execute returnCode is t e) e := by
  induction is generalizing t e with
  | nil => exact List.prefix_rfl
  | cons i is ih =>
    unfold executeSubTasks
    simp only
    split
    · exact List.prefix_rfl
    · next sub _ =>
      have hsub := hexecute sub e
      split
      · exact hsub.trans (ih _ _)
      · exact hsub

theorem executeChosen_grows {execute : BatTask → Execution → TaskRun}
    (hexecute : ∀ t e, Grows (execute t e) e) (ctx : TaskContext) (t : BatTask) (chosen : String × Execution) :
    Grows (executeChosen execute ctx t chosen) chosen.2 := by
  unfold executeChosen
  simp only
  split
  · exact List.prefix_rfl
  · split
    · exact List.prefix_append _ _
    · next object _ =>
      have hsub := hexecute { profile := object }
        { chosen.2 with created := chosen.2.created ++ [chosen.1] }
      have hsub' := (List.prefix_append chosen.2.created [chosen.1]).trans hsub
      split <;> exact hsub'

theorem execute_grows (ctx : TaskContext) (depth : Nat) (t : BatTask) (e : Execution) :
    Grows (execute ctx depth t e) e := by
  induction depth generalizing t e with
  | zero => exact List.prefix_rfl
  | succ depth ih =>
    have hleaf : ∀ (t : BatTask) (q : Option Int × Execution), q.2.created = e.created →
        Grows (t.leafStep .other q) e := by
      intro t q hq
      simp only [Grows, created_leafStep, hq, List.prefix_rfl]
    unfold execute
    split
    · have hrun := Execution.created_executeParallelTask (e.start t.profile) t.profile.returnCode
      simp only
      split <;> next h => simp_all [Grows]
    · exact executeSubTasks_grows ih _ _ _ _
    · next d _ =>
      have hrun := Execution.created_sendMessage (e.start t.profile)
      simp only
      split
      · next e' h => simp_all [Grows]
      · next e' h =>
        refine hleaf t _ ?_
        rw [Execution.created_doDelayTask]
        simpa [h] using hrun
    · next d _ =>
      simp only
      split
      · have hrun := Execution.created_pollMessages (e.start t.profile) d.polltime
          ((e.start t.profile).answers.length + 1)
        split
        · next e' h => simp_all [Grows]
        · next code e' h =>
          have hcreated : e'.created = e.created := by simpa [h] using hrun
          split
          · simp [Grows, hcreated]
          · have hchosen := executeChosen_grows ih ctx t (chosenProfile ctx d true e')
            unfold Grows at hchosen ⊢
            rwa [created_chosenProfile, hcreated] at hchosen
      · have hchosen := executeChosen_grows ih ctx t (chosenProfile ctx d
          (decide ((e.start t.profile).incomingMessageBuffer ≠ [])) (e.start t.profile))
        unfold Grows at hchosen ⊢
        rwa [created_chosenProfile, Execution.created_start] at hchosen
    · exact hleaf _ _ (by simp)
    · exact hleaf _ _ (by simp)

/-! ### Every point of an execution -/

/-- Executing a task read no vector out of its bounds, and leaves the tree on a path to a leaf:
one with a parallel task where the execution waits on a parallel task, one without where it
waits on anything else. -/
def StaysIndexed (run : TaskRun) : Prop :=
  run.1 ≠ .error outOfRange ∧ ∀ step, run.1 = .ok step →
    ∃ b, OnPath b run.2.1 ∧ (step = .leaf .ptask → b = true) ∧
      (step = .leaf .other ∨ (∃ message, step = .sendMessage message) → b = false)

theorem executeSubTasks_indexed {execute : BatTask → Execution → TaskRun} {returnCode : Int}
    (hgrows : ∀ t e, Grows (execute t e) e)
    (hexecute : ∀ t e, Fresh t → (execute t e).2.2.created = e.created →
      StaysIndexed (execute t e))
    {is : List Nat} (hnodup : is.Nodup) {t : BatTask} {e : Execution}
    (hseq : t.profile.isSequence = true) (hptask : t.ptask = false)
    (hfresh : ∀ i ∈ is, ∃ sub, t.subTasks[i]? = some sub ∧ Fresh sub)
    (hstarted : is ≠ [] ∨ ∃ b, OnPath b t)
    (hcreated : (executeSubTasks execute returnCode is t e).2.2.created = e.created) :
    StaysIndexed (executeSubTasks execute returnCode is t e) := by
  induction is generalizing t e with
  | nil =>
    obtain ⟨b, hb⟩ := hstarted.resolve_left (by simp)
    refine ⟨by simp [executeSubTasks], ?_⟩
    intro step hstep
    simp only [executeSubTasks, Except.ok.injEq] at hstep
    subst hstep
    exact ⟨b, hb, by simp, by simp⟩
  | cons i is ih =>
    obtain ⟨sub, hsub, hsubFresh⟩ := hfresh i (by simp)
    rw [List.nodup_cons] at hnodup
    have hlt : i < t.subTasks.length := (List.getElem?_eq_some_iff.mp hsub).1
    unfold executeSubTasks at hcreated ⊢
    simp only [hsub] at hcreated ⊢
    -- no task was made while the sub-task ran
    have hsame : (execute sub e).2.2.created = e.created := by
      have hprefix := hgrows sub e
      refine (List.IsPrefix.eq_of_length_le hprefix ?_).symm
      split at hcreated
      · have hlater := executeSubTasks_grows hgrows returnCode is
          { t with
            currentTaskIndex := some i
            subTasks := t.subTasks.set i (execute sub e).2.1 } (execute sub e).2.2
        unfold Grows at hlater
        rw [hcreated] at hlater
        exact hlater.length_le
      · exact le_of_eq (congrArg List.length hcreated)
    obtain ⟨hrange, hpath⟩ := hexecute sub e hsubFresh hsame
    have honPath : ∀ {b}, OnPath b (execute sub e).2.1 → OnPath b
        { t with
          currentTaskIndex := some i
          subTasks := t.subTasks.set i (execute sub e).2.1 } := fun h =>
      .sequence i hseq hptask rfl (by simp [hlt]) h
    split
    · next hdone =>
      rw [if_pos hdone] at hcreated
      refine ih hnodup.2 hseq hptask ?_ ?_ (hcreated.trans hsame.symm)
      · intro j hj
        have hne : i ≠ j := fun h => hnodup.1 (h ▸ hj)
        obtain ⟨u, hu, huFresh⟩ := hfresh j (by simp [hj])
        exact ⟨u, by simpa [List.getElem?_set_ne hne] using hu, huFresh⟩
      · obtain ⟨b, hb, -, -⟩ := hpath _ hdone
        exact .inr ⟨b, honPath hb⟩
    · refine ⟨hrange, ?_⟩
      intro step hstep
      obtain ⟨b, hb, hblocked⟩ := hpath step hstep
      exact ⟨b, honPath hb, hblocked⟩

theorem leafStep_indexed {t : BatTask} {q : Option Int × Execution} (h : OnPath false t) :
    StaysIndexed (t.leafStep .other q) := by
  obtain ⟨_ | code, e⟩ := q
  · refine ⟨by simp [leafStep], ?_⟩
    intro step hstep
    simp only [leafStep, Except.ok.injEq] at hstep
    subst hstep
    exact ⟨false, h, by simp, by simp⟩
  · refine ⟨by simp [leafStep], ?_⟩
    intro step hstep
    simp only [leafStep, Except.ok.injEq] at hstep
    subst hstep
    exact ⟨false, h, by simp, by simp⟩

theorem executeChosen_indexed {execute : BatTask → Execution → TaskRun} {ctx : TaskContext}
    (hgrows : ∀ t e, Grows (execute t e) e) {t : BatTask} {chosen : String × Execution}
    (h : OnPath false t)
    (hcreated : (executeChosen execute ctx t chosen).2.2.created = chosen.2.created) :
    StaysIndexed (executeChosen execute ctx t chosen) := by
  obtain ⟨name, e⟩ := chosen
  by_cases hname : name = ""
  · refine ⟨by simp [executeChosen, hname], ?_⟩
    intro step hstep
    simp only [executeChosen, hname, if_true, Except.ok.injEq] at hstep
    subst hstep
    exact ⟨false, by simpa [executeChosen, hname] using h, by simp, by simp⟩
  · -- a task was made
    exfalso
    simp only [executeChosen, hname, if_false] at hcreated
    split at hcreated
    · simp at hcreated
    · next object _ =>
      have hsub := (hgrows { profile := object }
        { e with created := e.created ++ [name] }).length_le
      have hlonger : ¬ (e.created ++ [name]).length ≤ e.created.length := by simp
      split at hcreated <;> exact hlonger (hsub.trans_eq (congrArg List.length hcreated))

theorem execute_indexed (ctx : TaskContext) {depth : Nat} {t : BatTask} {e : Execution}
    (hfresh : Fresh t) (hcreated : (execute ctx depth t e).2.2.created = e.created) :
    StaysIndexed (execute ctx depth t e) := by
  induction depth generalizing t e with
  | zero => exact ⟨by simp [execute, outOfRange], by simp [execute]⟩
  | succ depth ih =>
    cases hfresh with
    | leaf hleaf hsubs hptask hcurrent =>
      have hpath : (∀ delay h, t.profile.data ≠ .delay delay h) → OnPath false t := fun h =>
        .leaf hleaf hsubs hptask hcurrent fun delay hd hdata => absurd hdata (h delay hd)
      unfold execute at hcreated ⊢
      split
      · next type nbRes hparallel hdata =>
        have hrunning : OnPath true { t with ptask := true } :=
          .leaf hleaf hsubs rfl hcurrent fun delay hd hdelay => by simp [hdata] at hdelay
        simp only
        split
        · refine ⟨by simp, ?_⟩
          intro step hstep
          rw [Except.ok.injEq] at hstep
          subst hstep
          exact ⟨true, hrunning, by simp, by simp⟩
        · refine ⟨by simp, ?_⟩
          intro step hstep
          rw [Except.ok.injEq] at hstep
          subst hstep
          exact ⟨true, hrunning, by simp, by simp⟩
      · next d hdata => simp [ProfileObject.isSequence, hdata] at hleaf
      · next d hdata =>
        have hsend := hpath (by simp [hdata])
        simp only
        split
        · refine ⟨by simp, ?_⟩
          intro step hstep
          rw [Except.ok.injEq] at hstep
          subst hstep
          exact ⟨false, hsend, by simp, by simp⟩
        · exact leafStep_indexed hsend
      · next d hdata =>
        have hrecv := hpath (by simp [hdata])
        simp only [hdata] at hcreated ⊢
        split
        · next hwait =>
          rw [if_pos hwait] at hcreated
          have hpoll := Execution.created_pollMessages (e.start t.profile) d.polltime
            ((e.start t.profile).answers.length + 1)
          split
          · refine ⟨by simp, ?_⟩
            intro step hstep
            rw [Except.ok.injEq] at hstep
            subst hstep
            exact ⟨false, hrecv, by simp, by simp⟩
          · next code e' hrun =>
            simp only [hrun] at hcreated hpoll
            split
            · refine ⟨by simp, ?_⟩
              intro step hstep
              rw [Except.ok.injEq] at hstep
              subst hstep
              exact ⟨false, hrecv, by simp, by simp⟩
            · next hcode =>
              rw [if_neg hcode] at hcreated
              refine executeChosen_indexed (execute_grows ctx depth) hrecv ?_
              rw [hcreated, created_chosenProfile, hpoll, Execution.created_start]
        · next hwait =>
          rw [if_neg hwait] at hcreated
          refine executeChosen_indexed (execute_grows ctx depth) hrecv ?_
          rw [hcreated, created_chosenProfile, Execution.created_start]
      · exact leafStep_indexed (.leaf hleaf hsubs hptask hcurrent fun _ _ _ => by simp)
      · next hdata => exact leafStep_indexed (hpath (by simp [hdata]))
    | sequence d hdata hlength hptask hsubs =>
      have hseq : t.profile.isSequence = true := by simp [ProfileObject.isSequence, hdata]
      have hpos : 0 < d.repeats * d.sequence.length :=
        Nat.mul_pos d.repeats_pos (List.length_pos_iff.mpr d.sequence_ne_nil)
      unfold execute at hcreated ⊢
      simp only [hdata] at hcreated ⊢
      refine executeSubTasks_indexed (execute_grows ctx depth) (fun t e => ih) ?_ hseq hptask ?_
        (.inl ?_) hcreated
      · rw [indices_eq]
        exact List.nodup_range
      · intro i hi
        rw [indices_eq, List.mem_range, ← hlength] at hi
        exact ⟨t.subTasks[i], List.getElem?_eq_getElem hi, hsubs _ (List.getElem_mem hi)⟩
      · rw [indices_eq]
        intro hnil
        have hzero := congrArg List.length hnil
        simp only [List.length_range, List.length_nil] at hzero
        omega

end BatTask

open BatTask

/-- Where a job with the tree `t` is when another actor runs: killing the job fails no check, and
its task tree can be reported. -/
def KillSafe (t : BatTask) : Prop :=
  computeTasksProgress t = .ok () ∧ (∃ b, cancelPtask t = .ok b) ∧
    ∃ tree, generateTaskTree t = .ok tree

/-- An execution of a job that never makes a task for a `SCHEDULER_RECV` profile stays within the
bounds of its task tree, and the job can be killed and reported wherever it stops. -/
theorem task_tree_indexed_without_created_tasks (ctx : TaskContext) (objects : List ProfileObject)
    (profile : ProfilePtr) (io : Option ProfilePtr) (depth depth' : Nat) (t : BatTask)
    (e : Execution) (hbuild : initializeSequentialTasks objects depth profile io = .ok t)
    (hcreated : (execute ctx depth' t e).2.2.created = e.created) :
    (execute ctx depth' t e).1 ≠ .error outOfRange ∧
      ∀ step, (execute ctx depth' t e).1 = .ok step → KillSafe (execute ctx depth' t e).2.1 := by
  obtain ⟨hrange, hpath⟩ := execute_indexed ctx (fresh_of_initializeSequentialTasks hbuild) hcreated
  refine ⟨hrange, ?_⟩
  intro step hstep
  obtain ⟨b, hb, -⟩ := hpath step hstep
  exact ⟨hb.computeTasksProgress_eq, ⟨b, hb.cancelPtask_eq⟩, hb.generateTaskTree_eq⟩

/-- A killer finds a parallel task to cancel exactly where the execution waits on one. -/
theorem cancelPtask_of_blocked (ctx : TaskContext) {depth : Nat} {t : BatTask} {e : Execution}
    (hfresh : Fresh t) (hcreated : (execute ctx depth t e).2.2.created = e.created) {l : Leaf}
    (hblocked : (execute ctx depth t e).1 = .ok (.leaf l)) :
    cancelPtask (execute ctx depth t e).2.1 = .ok (decide (l = .ptask)) := by
  obtain ⟨b, hb, hptask, hother⟩ := (execute_indexed ctx hfresh hcreated).2 _ hblocked
  rw [hb.cancelPtask_eq]
  cases l with
  | ptask => simp [hptask rfl]
  | other => simp [hother (.inl rfl)]

/-! ### A small job -/

theorem nap_delay_nonneg : (0 : Date) ≤ 10 := by decide

theorem wait_polltime_pos : (0 : Date) < 1 := by decide

/-- A profile that waits for ten seconds, one that does so twice, and two that do one of these
unless a message is there. -/
def napObjects : List ProfileObject :=
  [{ name := "nap", data := .delay 10 nap_delay_nonneg },
   { name := "naps", data := .sequence
      { repeats := 2, sequence := ["nap"], profileSequence := [0], repeats_pos := Nat.two_pos
        sequence_ne_nil := by decide } },
   { name := "wait", data := .schedulerRecv
      { regex := ".*", onSuccess := "", onFailure := "", onTimeout := "nap", polltime := 1
        polltime_pos := wait_polltime_pos } },
   { name := "waits", data := .schedulerRecv
      { regex := ".*", onSuccess := "", onFailure := "", onTimeout := "naps", polltime := 1
        polltime_pos := wait_polltime_pos } }]

def napContext : TaskContext where
  regexMatch := fun _ _ => true
  profileAt := fun name =>
    match napObjects.find? fun p => p.name = name with
    | some object => .ok object
    | none => .error "it does not exist"

/-- The second nap of a job without walltime. -/
theorem task_tree_indexed_during_nap :
    ∃ t, initializeSequentialTasks napObjects 2 1 none = .ok t ∧
      (execute napContext 2 t { clock := 0, remainingTime := -1, answers := [{}] }).1 =
        .ok (.leaf .other) ∧
      KillSafe
        (execute napContext 2 t { clock := 0, remainingTime := -1, answers := [{}] }).2.1 := by
  refine ⟨_, rfl, by decide +kernel, ?_⟩
  refine (task_tree_indexed_without_created_tasks napContext napObjects 1 none 2 2 _ _ rfl ?_).2
    (.leaf .other) ?_
  · decide +kernel
  · decide +kernel

/-- The task that a `SCHEDULER_RECV` profile makes has no sub-tasks, even for a sequence; and a
job that is killed while this task is running stops the program. -/
theorem created_tasks_break_the_tree :
    (∃ t, initializeSequentialTasks napObjects 1 3 none = .ok t ∧
      (execute napContext 2 t { clock := 0, remainingTime := -1, answers := [] }).1 =
        .error outOfRange) ∧
      ∃ t, initializeSequentialTasks napObjects 1 2 none = .ok t ∧
        (execute napContext 2 t { clock := 0, remainingTime := -1, answers := [] }).1 =
          .ok (.leaf .other) ∧
        computeTasksProgress
            (execute napContext 2 t { clock := 0, remainingTime := -1, answers := [] }).2.1 =
          .error "Leaves should not contain sub tasks" := by
  refine ⟨⟨_, rfl, by decide +kernel⟩, ⟨_, rfl, by decide +kernel, by decide +kernel⟩⟩

end Batsim
