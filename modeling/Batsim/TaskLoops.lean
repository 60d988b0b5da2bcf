import Batsim.WorkflowGraph
import Batsim.WorkflowRuns

/-!
The loop of the submitter of a workflow on the tasks themselves: how many parents of each are
completed, how deep it is, and when it becomes ready.
-/

namespace Batsim

open Relation TaskGraph

/-- What the loop of `workflow_submitter_process` changes, in the tasks and in its local variables;
the completed tasks are listed too. -/
structure TaskLoop where
  nbParentCompleted : Nat → Int := fun _ => 0
  depth : Nat → Int := fun _ => 0
  readyTasks : List Nat
  submittedTasks : List Nat := []
  completedTasks : List Nat := []

namespace TaskLoop

def start (w : Workflow) : TaskLoop where
  readyTasks := w.getSourceTasks

/-- The tasks that have become ready, once for each time. -/
def becameReady (r : TaskLoop) : List Nat := r.completedTasks ++ r.submittedTasks ++ r.readyTasks

/-- A submitted task is completed: `inc_child` and `bottom_level_f` on each child, then the children
whose parents are all completed. -/
def complete (w : Workflow) (r : TaskLoop) (task : Nat) : TaskLoop :=
  let myKids := w.children task
  let nbParentCompleted := myKids.foldl
    (fun nb kid => Function.update nb kid (nb kid + 1)) r.nbParentCompleted
  let depth := myKids.foldl
    (fun depth kid => Function.update depth kid (max (depth kid) (depth task + 1))) r.depth
  let ready := myKids.filter fun kid => nbParentCompleted kid = (w.parents kid).length
  { nbParentCompleted := nbParentCompleted
    depth := depth
    readyTasks := r.readyTasks ++ ready
    submittedTasks := r.submittedTasks.erase task
    completedTasks := r.completedTasks ++ [task] }

/-- A step of the loop, with at most `limit` tasks submitted at once, or without limit for 0. -/
inductive Step (w : Workflow) (limit : Int) (r : TaskLoop) : TaskLoop → Prop where
  | submit {task : Nat} {ready : List Nat} (hready : r.readyTasks = task :: ready)
      (hlimit : limit = 0 ∨ r.submittedTasks.length < limit) :
      Step w limit r
        { r with readyTasks := ready, submittedTasks := r.submittedTasks ++ [task] }
  | complete {task : Nat} (hsubmitted : task ∈ r.submittedTasks)
      (hwaits : r.readyTasks = [] ∨ ¬(limit = 0 ∨ r.submittedTasks.length < limit)) :
      Step w limit r (r.complete w task)

/-- The states that the loop reaches. -/
def Reached (w : Workflow) (limit : Int) (r : TaskLoop) : Prop :=
  ReflTransGen (Step w limit) (start w) r

/-- The loop is over. -/
def IsOver (r : TaskLoop) : Prop := r.readyTasks = [] ∧ r.submittedTasks = []

end TaskLoop

namespace Workflow

/-- A task that can become ready: a source, or a task whose parents all can. -/
inductive Rooted (w : Workflow) : Nat → Prop where
  | source {t : Nat} (h : t ∈ w.getSourceTasks) : Rooted w t
  | child {t : Nat} (hne : w.parents t ≠ []) (h : ∀ p ∈ w.parents t, Rooted w p) : Rooted w t

theorem mem_getSourceTasks {w : Workflow} {t : Nat} :
    t ∈ w.getSourceTasks ↔ t ∈ w.taskList ∧ w.parents t = [] := by
  rw [getSourceTasks, List.mem_filter, decide_eq_true_eq]

theorem mem_getSinkTasks {w : Workflow} {t : Nat} :
    t ∈ w.getSinkTasks ↔ t ∈ w.taskList ∧ w.children t = [] := by
  rw [getSinkTasks, List.mem_filter, decide_eq_true_eq]

end Workflow

namespace TaskLoop

variable {w : Workflow} {limit : Int} {r r' : TaskLoop}

/-- The counts are those of the completed parents, and the tasks that became ready are those whose
parents are completed, once each. -/
structure Tracks (w : Workflow) (r : TaskLoop) : Prop where
  counted : ∀ c, r.nbParentCompleted c =
    (doneParents w.parents (fun p => p ∈ r.completedTasks) c : Nat)
  ready_nodup : r.becameReady.Nodup
  ready : ∀ c, c ∈ r.becameReady ↔ c ∈ w.getSourceTasks ∨
    w.parents c ≠ [] ∧ ∀ p ∈ w.parents c, p ∈ r.completedTasks

theorem tracks_start (w : Workflow) : Tracks w (start w) where
  counted c := by
    have hnone : doneParents w.parents (fun p => p ∈ (start w).completedTasks) c = 0 := by
      simp [doneParents, start]
    rw [hnone]
    rfl
  ready_nodup := w.nodup_taskList.filter _
  ready c := by
    have hready : (start w).becameReady = w.getSourceTasks := rfl
    rw [hready]
    refine ⟨.inl, ?_⟩
    rintro (h | ⟨hne, hnone⟩)
    · exact h
    · obtain ⟨p, hp⟩ := List.exists_mem_of_ne_nil _ hne
      exact absurd (hnone p hp) (by simp [start])

theorem Tracks.submit (h : Tracks w r) {task : Nat} {ready : List Nat}
    (hready : r.readyTasks = task :: ready) :
    Tracks w { r with readyTasks := ready, submittedTasks := r.submittedTasks ++ [task] } := by
  have hsame : r.completedTasks ++ (r.submittedTasks ++ [task]) ++ ready = r.becameReady := by
    simp [becameReady, hready]
  constructor
  · exact h.counted
  · rw [becameReady, hsame]
    exact h.ready_nodup
  · intro c
    rw [becameReady, hsame]
    exact h.ready c

/-- A task that is submitted is not completed. -/
theorem Tracks.not_completed (h : Tracks w r) {task : Nat} (hsubmitted : task ∈ r.submittedTasks) :
    task ∉ r.completedTasks := by
  intro hcompleted
  have hnodup := (List.nodup_append.mp h.ready_nodup).1
  exact (List.nodup_append.mp hnodup).2.2 task hcompleted task hsubmitted rfl

theorem Tracks.complete (hw : w.Mutual) (h : Tracks w r) {task : Nat}
    (hsubmitted : task ∈ r.submittedTasks) : Tracks w (r.complete w task) := by
  have hcompleted : ∀ p, p ∈ (r.complete w task).completedTasks ↔
      p = task ∨ p ∈ r.completedTasks := by
    intro p
    rw [TaskLoop.complete, List.mem_append, List.mem_singleton, or_comm]
  have hundone := h.not_completed hsubmitted
  have hcount : ∀ c, (r.complete w task).nbParentCompleted c =
      (doneParents w.parents (fun p => p ∈ (r.complete w task).completedTasks) c : Nat) := by
    intro c
    rw [doneParents_complete hcompleted hundone (fun c => hw.mutual_edges task c) hw.parents_nodup,
      TaskLoop.complete]
    dsimp only
    rw [foldl_update (f := fun n => n + 1) (hw.children_nodup task), h.counted c]
    split <;> simp
  have hkid : ∀ c, c ∈ w.children task ↔ task ∈ w.parents c := fun c =>
    (hw.mutual_edges task c).symm
  let kids := (w.children task).filter fun kid =>
    (r.complete w task).nbParentCompleted kid = (w.parents kid).length
  have hkids : ∀ c, c ∈ kids ↔ c ∈ w.children task ∧
      ∀ p ∈ w.parents c, p ∈ (r.complete w task).completedTasks := by
    intro c
    rw [List.mem_filter, decide_eq_true_eq, hcount c, Int.natCast_inj, doneParents_eq_length]
  -- a child of the task was not ready before
  have hnew : ∀ c ∈ kids, c ∉ r.becameReady := by
    intro c hc hready
    have hparent := (hkid c).mp ((hkids c).mp hc).1
    rcases (h.ready c).mp hready with hsource | ⟨-, hall⟩
    · rw [(Workflow.mem_getSourceTasks.mp hsource).2] at hparent
      cases hparent
    · exact hundone (hall task hparent)
  have hperm : (r.complete w task).becameReady.Perm (r.becameReady ++ kids) := by
    have herase : (task :: r.submittedTasks.erase task).Perm r.submittedTasks :=
      (List.perm_cons_erase hsubmitted).symm
    have hfront : (r.completedTasks ++ [task] ++ r.submittedTasks.erase task).Perm
        (r.completedTasks ++ r.submittedTasks) := by
      rw [List.append_assoc]
      exact herase.append_left _
    have hwhole := (hfront.append_right r.readyTasks).append_right kids
    rw [List.append_assoc _ r.readyTasks kids] at hwhole
    exact hwhole
  constructor
  · exact hcount
  · refine hperm.nodup_iff.mpr (List.nodup_append.mpr ⟨h.ready_nodup, ?_, ?_⟩)
    · exact (hw.children_nodup task).filter _
    · rintro a ha b hb rfl
      exact hnew a hb ha
  · intro c
    rw [hperm.mem_iff, List.mem_append, h.ready c, hkids c, hkid c]
    constructor
    · rintro ((hsource | ⟨hne, hall⟩) | ⟨hparent, hall⟩)
      · exact .inl hsource
      · exact .inr ⟨hne, fun p hp => (hcompleted p).mpr (.inr (hall p hp))⟩
      · exact .inr ⟨List.ne_nil_of_mem hparent, hall⟩
    · rintro (hsource | ⟨hne, hall⟩)
      · exact .inl (.inl hsource)
      · by_cases hparent : task ∈ w.parents c
        · exact .inr ⟨hparent, hall⟩
        · refine .inl (.inr ⟨hne, fun p hp => ((hcompleted p).mp (hall p hp)).resolve_left ?_⟩)
          rintro rfl
          exact hparent hp

theorem reached_tracks (hw : w.Mutual) (h : Reached w limit r) : Tracks w r := by
  induction h with
  | refl => exact tracks_start w
  | tail _ hstep ih =>
    cases hstep with
    | submit hready _ => exact ih.submit hready
    | complete hsubmitted _ => exact ih.complete hw hsubmitted

theorem Tracks.rooted (h : Tracks w r) (hcompleted : ∀ t ∈ r.completedTasks, w.Rooted t) {t : Nat}
    (ht : t ∈ r.becameReady) : w.Rooted t := by
  rcases (h.ready t).mp ht with hsource | ⟨hne, hall⟩
  · exact .source hsource
  · exact .child hne fun p hp => hcompleted p (hall p hp)

theorem reached_rooted (hw : w.Mutual) (h : Reached w limit r) :
    ∀ t ∈ r.becameReady, w.Rooted t := by
  have hcompleted : ∀ t ∈ r.completedTasks, w.Rooted t := by
    induction h with
    | refl => simp [start]
    | tail hr hstep ih =>
      cases hstep with
      | submit _ _ => exact ih
      | @complete task hsubmitted _ =>
        intro t ht
        rcases List.mem_append.mp ht with hold | hlast
        · exact ih t hold
        · obtain rfl : t = task := List.mem_singleton.mp hlast
          refine (reached_tracks hw hr).rooted ih ?_
          exact List.mem_append_left _ (List.mem_append_right _ hsubmitted)
  intro t ht
  exact (reached_tracks hw h).rooted hcompleted ht

/-- When the loop is over, the tasks that can become ready are completed. -/
theorem Tracks.completed_of_over (h : Tracks w r) (hover : r.IsOver) {t : Nat} (ht : w.Rooted t) :
    t ∈ r.completedTasks := by
  have hready : r.becameReady = r.completedTasks := by
    simp [becameReady, hover.1, hover.2]
  induction ht with
  | source hsource =>
    rw [← hready]
    exact (h.ready _).mpr (.inl hsource)
  | child hne _ ih =>
    rw [← hready]
    exact (h.ready _).mpr (.inr ⟨hne, ih⟩)

end TaskLoop

/-! ### The submitter of the simulation -/

namespace WorkflowDescription

/-- The tasks of a description, which are in the order of their identifiers. -/
def graph (d : WorkflowDescription) (hids : d.tasks.Pairwise fun t t' => t.id < t'.id) :
    Workflow where
  taskId i := (d.tasks[i]?).elim "" WorkflowTask.id
  tasks :=
    { entries := d.tasks.zipIdx.map fun e => (e.1.id, e.2)
      sorted := by
        rw [List.pairwise_map]
        have hfirst : (d.tasks.zipIdx.map Prod.fst).Pairwise fun t t' => t.id < t'.id := by
          rw [List.zipIdx_map_fst]
          exact hids
        exact (List.pairwise_map.mp hfirst).imp fun h => h }
  tasks_id := by
    intro e he
    obtain ⟨⟨task, i⟩, hmem, rfl⟩ := List.mem_map.mp he
    rw [List.mem_zipIdx_iff_getElem?.mp hmem]
    rfl
  parents := d.parents
  children := d.children

variable {d : WorkflowDescription} {hids : d.tasks.Pairwise fun t t' => t.id < t'.id}

theorem IsDag.graph_mutual (h : d.IsDag) : (d.graph hids).Mutual :=
  ⟨h.parents_nodup, h.children_nodup, h.mutual_edges⟩

end WorkflowDescription

/-- The counts and the ready tasks of the submitter are those of the loop on its tasks. -/
structure WorkflowRun.Represents (run : WorkflowRun) (l : TaskLoop) : Prop where
  counts : ∀ c, ((run.nbParentCompleted[c]?).getD 0 : Nat) = l.nbParentCompleted c
  length_eq : run.nbParentCompleted.length = run.workflow.tasks.length
  ready : run.readyTasks = l.readyTasks

theorem getD_foldl_modify {cs counts : List Nat} {nb : Nat → Int}
    (hcs : ∀ c ∈ cs, c < counts.length) (h : ∀ c, ((counts[c]?).getD 0 : Nat) = nb c) (c : Nat) :
    (((cs.foldl (fun counts i => counts.modify i (· + 1)) counts)[c]?).getD 0 : Nat) =
      cs.foldl (fun nb kid => Function.update nb kid (nb kid + 1)) nb c := by
  induction cs generalizing counts nb with
  | nil => exact h c
  | cons a cs ih =>
    obtain ⟨ha, hcs⟩ := List.forall_mem_cons.mp hcs
    refine ih (by simpa using hcs) fun c => ?_
    rw [List.getElem?_modify]
    dsimp only
    by_cases hc : a = c
    · subst hc
      rw [Function.update_self, ← h a, List.getElem?_eq_getElem ha]
      simp
    · rw [Function.update_of_ne (Ne.symm hc), ← h c]
      cases counts[c]? <;> simp [hc]

/-- A completed task does to its children what it does in the loop. -/
theorem WorkflowRun.Represents.complete {run : WorkflowRun} {l : TaskLoop} (h : run.Represents l)
    (hids : run.workflow.tasks.Pairwise fun t t' => t.id < t'.id) {i : Nat} {task : WorkflowTask}
    (htask : run.workflow.tasks[i]? = some task)
    (hchildren : ∀ c ∈ task.children, c < run.workflow.tasks.length) :
    (run.complete task).Represents (l.complete (run.workflow.graph hids) i) := by
  have hkids : (run.workflow.graph hids).children i = task.children := by
    have hsame : (run.workflow.graph hids).children i =
        (run.workflow.tasks[i]?).elim [] WorkflowTask.children := rfl
    rw [hsame, htask]
    rfl
  have hcounts := getD_foldl_modify (h.length_eq ▸ hchildren) h.counts
  constructor
  · intro c
    rw [TaskLoop.complete, hkids]
    exact hcounts c
  · rw [WorkflowRun.complete, length_foldl_modify]
    exact h.length_eq
  · rw [WorkflowRun.complete, TaskLoop.complete, hkids, h.ready]
    dsimp only
    congr 1
    refine List.filter_congr fun c hc => ?_
    have hlt := hchildren c hc
    have hparents : (run.workflow.graph hids).parents c = run.workflow.tasks[c].parents := by
      have hsame : (run.workflow.graph hids).parents c =
          (run.workflow.tasks[c]?).elim [] WorkflowTask.parents := rfl
      rw [hsame, List.getElem?_eq_getElem hlt]
      rfl
    rw [← hcounts c, hparents, List.getElem?_eq_getElem hlt]
    have hlt' : c < (task.children.foldl (fun counts i => counts.modify i (· + 1))
        run.nbParentCompleted).length := by
      rw [length_foldl_modify, h.length_eq]
      exact hlt
    rw [List.getElem?_eq_getElem hlt']
    simp

/-! ### What the edges make of the loop -/

/-- What the submitter relies on: in all states that its loop reaches, no task has more completed
parents than parents, and none has become ready twice; when the loop is over, each task that can
become ready has done so. -/
structure Workflow.Served (w : Workflow) : Prop where
  count_le : ∀ limit r, TaskLoop.Reached w limit r → ∀ c,
    r.nbParentCompleted c ≤ (w.parents c).length
  ready_once : ∀ limit r, TaskLoop.Reached w limit r → r.becameReady.Nodup
  all_ready : ∀ limit r, TaskLoop.Reached w limit r → r.IsOver → ∀ t, w.Rooted t →
    r.becameReady.count t = 1
  rooted : ∀ limit r, TaskLoop.Reached w limit r → ∀ t ∈ r.becameReady, w.Rooted t

theorem Workflow.Mutual.served {w : Workflow} (hw : w.Mutual) : w.Served where
  count_le limit r hr c := by
    rw [(TaskLoop.reached_tracks hw hr).counted c]
    exact Int.ofNat_le.mpr List.countP_le_length
  ready_once limit r hr := (TaskLoop.reached_tracks hw hr).ready_nodup
  all_ready limit r hr hover t ht := by
    have htracks := TaskLoop.reached_tracks hw hr
    have hcompleted := htracks.completed_of_over hover ht
    have hmem : t ∈ r.becameReady :=
      List.mem_append_left _ (List.mem_append_left _ hcompleted)
    exact List.count_eq_one_of_mem htracks.ready_nodup hmem
  rooted _ _ hr := TaskLoop.reached_rooted hw hr

/-- The edges are mutual, and the submitter works, exactly when each edge that is repeated is one of
a task that is its own child, and such a task gets no new edge. -/
theorem edges_mutual_iff (taskId : Nat → String) (calls : List WorkflowCall) :
    ((Workflow.after taskId calls).Mutual ∧ (Workflow.after taskId calls).Served) ↔
      Workflow.RepeatsSafely (Workflow.edges calls) := by
  have hmutual : (Workflow.after taskId calls).Mutual ↔
      Workflow.RepeatsSafely (Workflow.edges calls) := Workflow.mutual_after_iff
  rw [← hmutual]
  exact ⟨And.left, fun h => ⟨h, h.served⟩⟩

/-- An edge from `A` to `B` that is added twice: `B` is never submitted. -/
theorem repeated_edge_not_served :
    let w := Workflow.after (fun t => if t = 0 then "A" else "B")
      [.addTask 0, .addTask 1, .addEdge 0 1, .addEdge 0 1]
    w.children 0 = [1, 1] ∧ w.parents 1 = [0] ∧ w.Rooted 1 ∧
      ∃ r, TaskLoop.Reached w 0 r ∧ r.IsOver ∧ r.nbParentCompleted 1 = 2 ∧ 1 ∉ r.becameReady := by
  intro w
  have hsource : w.getSourceTasks = [0] := by decide +kernel
  have hrooted : w.Rooted 1 := by
    refine .child (by decide) fun p hp => .source ?_
    rw [hsource]
    exact hp
  let submitted : TaskLoop := { readyTasks := [], submittedTasks := [0] }
  have hstart : TaskLoop.start w = { readyTasks := [0] } := by rw [TaskLoop.start, hsource]
  have hsubmit : TaskLoop.Reached w 0 submitted := by
    refine .single ?_
    rw [hstart]
    exact .submit rfl (.inl rfl)
  have hcomplete : TaskLoop.Reached w 0 (submitted.complete w 0) :=
    hsubmit.tail (.complete (by decide) (.inl rfl))
  exact ⟨rfl, rfl, hrooted, _, hcomplete, ⟨rfl, rfl⟩, rfl, by decide⟩

end Batsim
