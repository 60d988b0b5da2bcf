import Mathlib.Algebra.Order.Field.Basic
import Batsim.Walltime

/-!
The progress of a job, as a killer computes it: the current indices from the root of its task tree,
and the ratio that is stored at the leaf where they lead.
-/

namespace Batsim

open Checked

/-- A delay or a parallel task, of which the progress is computed. -/
def ProfileObject.reportsProgress (p : ProfileObject) : Bool :=
  match p.data with
  | .delay _ _ | .parallelTask _ _ _ => true
  | _ => false

namespace BatTask

/-! ### What is computed -/

/-- The `current_task_progress_ratio` that `compute_leaf_progress` stores at the date `now`, if it
does, for a leaf whose parallel task, if there is one, has this `get_remaining_ratio`. -/
def leafProgress (now remainingRatio : Rat) (t : BatTask) : Except String (Option Rat) := do
  xbtAssert (t.subTasks.isEmpty = true) "Leaves should not contain sub tasks"
  match t.profile.data with
  | .parallelTask _ _ _ => .ok (some (if t.ptask = true then 1 - remainingRatio else 0))
  | .delay _ _ =>
    match t.delayTaskStart with
    | none => .error "Internal error"
    | some start =>
      let runtime := now - start
      let required := t.delayTaskRequired.getD (-1)
      .ok (some (if required = 0 then 1 else runtime / required))
  | _ => .ok none

section

variable (now remainingRatio : Rat)

mutual

/-- `compute_tasks_progress`, with the ratio that it stores -/
def tasksProgress : BatTask → Except String (Option Rat)
  | ⟨profile, io, ptask, delayTaskStart, delayTaskRequired, subTasks, currentTaskIndex⟩ =>
    match profile.data with
    | .sequence _ => tasksProgressAt subTasks currentTaskIndex
    | _ => leafProgress now remainingRatio
      ⟨profile, io, ptask, delayTaskStart, delayTaskRequired, subTasks, currentTaskIndex⟩

/-- `sub_tasks[current_task_index]->compute_tasks_progress()` -/
def tasksProgressAt : List BatTask → Option Nat → Except String (Option Rat)
  | t :: _, some 0 => tasksProgress t
  | _ :: ts, some (i + 1) => tasksProgressAt ts (some i)
  | _, _ => .error outOfRange

end

end

section

variable (now remainingRatio : Rat)

mutual

/-- Without the ratio it is checked that it can be computed. -/
theorem tasksProgress_checks : ∀ t : BatTask,
    (tasksProgress now remainingRatio t).map (fun _ => ()) = computeTasksProgress t
  | ⟨profile, io, ptask, delayTaskStart, delayTaskRequired, subTasks, currentTaskIndex⟩ => by
    rw [tasksProgress, computeTasksProgress]
    cases hdata : profile.data with
    | sequence d => exact tasksProgressAt_checks subTasks currentTaskIndex
    | delay delay h =>
      simp only [leafProgress, hdata]
      cases subTasks.isEmpty <;> cases delayTaskStart <;> rfl
    | _ =>
      simp only [leafProgress, hdata]
      cases subTasks.isEmpty <;> rfl

theorem tasksProgressAt_checks : ∀ (ts : List BatTask) (i : Option Nat),
    (tasksProgressAt now remainingRatio ts i).map (fun _ => ()) = computeProgressAt ts i
  | [], _ => rfl
  | _ :: _, none => rfl
  | t :: _, some 0 => tasksProgress_checks t
  | _ :: ts, some (i + 1) => tasksProgressAt_checks ts (some i)

end

end

/-! ### Paths of positions -/

mutual

/-- The leaves of a tree from left to right, each as the positions that lead there. -/
def leafPaths : BatTask → List (List Nat)
  | ⟨profile, _, _, _, _, subTasks, _⟩ =>
    match profile.data with
    | .sequence _ => leafPathsFrom 0 subTasks
    | _ => [[]]

/-- Those of the sub-tasks of a sequence, from position `i` on. -/
def leafPathsFrom : Nat → List BatTask → List (List Nat)
  | _, [] => []
  | i, t :: ts => t.leafPaths.map (i :: ·) ++ leafPathsFrom (i + 1) ts

end

/-- The current indices lead along a path to a leaf. At each sequence the index is that of an
iteration and of a position in it. -/
inductive Leads : BatTask → List Nat → BatTask → Prop
  | leaf {t : BatTask} (h : t.profile.reportsProgress = true) (hsubs : t.subTasks = []) :
      Leads t [] t
  | sequence {t sub leaf : BatTask} {path : List Nat} {d : SequenceProfileData}
      (iteration position : Nat) (hdata : t.profile.data = .sequence d)
      (hindex : t.currentTaskIndex = some (iteration * d.sequence.length + position))
      (hiteration : iteration < d.repeats) (hposition : position < d.sequence.length)
      (hlt : iteration * d.sequence.length + position < d.repeats * d.sequence.length)
      (hptask : t.ptask = false) (hdelay : t.delayTaskStart = none)
      (hsub : t.subTasks[iteration * d.sequence.length + position]? = some sub)
      (h : Leads sub path leaf) :
      Leads t ((iteration * d.sequence.length + position) :: path) leaf

/-- Sequences over delays and parallel tasks, of a bounded height, that have not been executed. -/
inductive Composed : Nat → BatTask → Prop
  | leaf {height : Nat} {t : BatTask} (h : t.profile.reportsProgress = true)
      (hsubs : t.subTasks = []) : Composed (height + 1) t
  | sequence {height : Nat} {t : BatTask} (d : SequenceProfileData)
      (hdata : t.profile.data = .sequence d)
      (hlength : t.subTasks.length = d.repeats * d.sequence.length) (hptask : t.ptask = false)
      (hdelay : t.delayTaskStart = none) (hsubs : ∀ sub ∈ t.subTasks, Composed height sub) :
      Composed (height + 1) t

theorem not_sequence_of_reports {p : ProfileObject} (h : p.reportsProgress = true)
    (d : SequenceProfileData) : p.data ≠ .sequence d := by
  intro hdata
  simp [ProfileObject.reportsProgress, hdata] at h

theorem leafPaths_leaf {t : BatTask} (h : t.profile.reportsProgress = true) :
    t.leafPaths = [[]] := by
  obtain ⟨profile, io, ptask, start, required, subTasks, current⟩ := t
  rw [leafPaths]
  split
  · next d hdata => exact absurd hdata (not_sequence_of_reports h d)
  · rfl

theorem leafPaths_sequence {t : BatTask} {d : SequenceProfileData}
    (h : t.profile.data = .sequence d) : t.leafPaths = leafPathsFrom 0 t.subTasks := by
  obtain ⟨profile, io, ptask, start, required, subTasks, current⟩ := t
  dsimp only at h
  simp only [leafPaths, h]

theorem tasksProgressAt_eq {now ratio : Rat} {ts : List BatTask} {t : BatTask} {i : Nat}
    (h : ts[i]? = some t) : tasksProgressAt now ratio ts (some i) = tasksProgress now ratio t := by
  induction ts generalizing i with
  | nil => cases h
  | cons u ts ih =>
    cases i with
    | zero =>
      rw [List.getElem?_cons_zero, Option.some.injEq] at h
      rw [tasksProgressAt, h]
    | succ i =>
      rw [tasksProgressAt]
      exact ih h

/-- The ratio is that of the leaf where the indices lead. -/
theorem Leads.tasksProgress_eq {now ratio : Rat} {t leaf : BatTask} {path : List Nat}
    (h : Leads t path leaf) : tasksProgress now ratio t = leafProgress now ratio leaf := by
  induction h with
  | @leaf t hreports _ =>
    obtain ⟨profile, io, ptask, start, required, subTasks, current⟩ := t
    rw [tasksProgress]
    split
    · next d hdata => exact absurd hdata (not_sequence_of_reports hreports d)
    · rfl
  | @sequence t sub leaf path d iteration position hdata hindex _ _ _ _ _ hsub _ ih =>
    obtain ⟨profile, io, ptask, start, required, subTasks, current⟩ := t
    dsimp only at hdata hindex hsub
    simp only [tasksProgress, hdata, hindex]
    exact (tasksProgressAt_eq hsub).trans ih

/-- The message to the scheduler has the same indices. -/
theorem Leads.generateTaskTree_eq {t leaf : BatTask} {path : List Nat} (h : Leads t path leaf)
    (hstarted : leaf.ptask = true ∨ leaf.delayTaskStart ≠ none) :
    ∃ tree, generateTaskTree t = .ok tree ∧ tree.map Prod.snd = path.map some ++ [none] := by
  induction h with
  | @leaf t _ _ =>
    obtain ⟨profile, io, ptask, start, required, subTasks, current⟩ := t
    unfold generateTaskTree
    rw [if_pos hstarted]
    exact ⟨_, rfl, rfl⟩
  | @sequence t sub leaf path d iteration position _ hindex _ _ _ hptask hdelay hsub _ ih =>
    obtain ⟨profile, io, ptask, start, required, subTasks, current⟩ := t
    dsimp only at hindex hptask hdelay hsub
    obtain ⟨tree, htree, hpath⟩ := ih hstarted
    unfold generateTaskTree
    rw [if_neg (by simp [hptask, hdelay]), hindex]
    simp only [generateTaskTreeAt_eq hsub, htree]
    exact ⟨_, rfl, by rw [List.map_cons, hpath]; rfl⟩

/-! ### The trees that are built -/

theorem leaves_subset_leavesOf {ts : List BatTask} {t : BatTask} (ht : t ∈ ts) :
    t.leaves ⊆ leavesOf ts := by
  induction ts with
  | nil => cases ht
  | cons u ts ih =>
    rw [leavesOf]
    rcases List.mem_cons.mp ht with rfl | ht
    · exact List.subset_append_left _ _
    · exact List.Subset.trans (ih ht) (List.subset_append_right _ _)

theorem composed_of_initializeSequentialTasks {objects : List ProfileObject} {depth : Nat}
    {p : ProfilePtr} {io : Option ProfilePtr} {t : BatTask}
    (h : initializeSequentialTasks objects depth p io = .ok t)
    (hleaves : ∀ leaf ∈ t.leaves, leaf.profile.reportsProgress = true) : Composed depth t := by
  induction depth generalizing p io t with
  | zero => cases h
  | succ depth ih =>
    simp only [initializeSequentialTasks, bind_eq_ok] at h
    obtain ⟨object, -, h⟩ := h
    split at h
    · next d hd =>
      simp only [bind_eq_ok, Except.ok.injEq] at h
      obtain ⟨subTasks, hsubs, rfl⟩ := h
      have hforall := collect_eq_ok.mp hsubs
      rw [leaves_of_sequence hd] at hleaves
      refine .sequence d hd ?_ rfl rfl ?_
      · rw [← hforall.length_eq, length_indices]
      · intro sub hsub
        have hleaves' := fun leaf hleaf => hleaves leaf (leaves_subset_leavesOf hsub hleaf)
        obtain ⟨i, hi, rfl⟩ := List.getElem_of_mem hsub
        have hbuilt := hforall.get (by rw [hforall.length_eq]; exact hi) hi
        simp only [bind_eq_ok] at hbuilt
        obtain ⟨q, -, io', -, hbuilt⟩ := hbuilt
        exact ih hbuilt hleaves'
    · next hnot =>
      rw [Except.ok.injEq] at h
      subst h
      refine .leaf (hleaves _ ?_) rfl
      rw [leaves]
      split
      · next d hd => exact absurd hd (hnot d)
      · exact List.mem_singleton_self _

end BatTask

/-! ### The execution -/

namespace Execution

variable {e e' : Execution}

/-- What `do_delay_task` passes to `sleep_for` -/
def sleepTime (e : Execution) (sleeptime : Date) : Date :=
  if e.remainingTime < 0 ∨ sleeptime < e.remainingTime then sleeptime else e.remainingTime

theorem sleepTime_le (sleeptime : Date) : e.sleepTime sleeptime ≤ sleeptime := by
  unfold sleepTime
  split_ifs with h
  · exact le_rfl
  · exact not_lt.mp (not_or.mp h).2

theorem sleepFor_none {time : Date} (h : e.sleepFor time = (none, e')) : 0 < time ∧ e' = e := by
  unfold sleepFor at h
  by_cases htime : time ≤ 0
  · rw [if_pos htime] at h
    cases h
  · rw [if_neg htime, await] at h
    refine ⟨not_le.mp htime, ?_⟩
    split at h
    · exact (Prod.ext_iff.mp h).2.symm
    · cases h

/-- Where the execution is blocked in a delay, it sleeps from now on. -/
theorem doDelayTask_none {sleeptime : Date} (h : e.doDelayTask sleeptime = (none, e')) :
    0 < e.sleepTime sleeptime ∧ e' = e := by
  unfold doDelayTask at h
  unfold sleepTime
  split_ifs at h ⊢
  · split at h
    · next hsleep =>
      cases h
      exact sleepFor_none hsleep
    · cases h
  · split at h
    · next hsleep =>
      cases h
      exact sleepFor_none hsleep
    · cases h

theorem started_sleepFor (e : Execution) (time : Date) :
    (e.sleepFor time).2.started = e.started := by
  unfold sleepFor await
  split_ifs
  · rfl
  · split <;> rfl

theorem started_doDelayTask (e : Execution) (sleeptime : Date) :
    (e.doDelayTask sleeptime).2.started = e.started := by
  have hsleep := fun time => started_sleepFor e time
  unfold doDelayTask
  split
  · split
    · next h => simpa only [h] using hsleep sleeptime
    · next h => split <;> simpa only [h] using hsleep sleeptime
  · split
    · next h => simpa only [h] using hsleep e.remainingTime
    · next h => simpa only [h] using hsleep e.remainingTime

theorem started_executeParallelTask (e : Execution) (returnCode : Int) :
    (e.executeParallelTask returnCode).2.started = e.started := by
  unfold executeParallelTask await
  split_ifs
  · split <;> rfl
  · split <;> rfl

end Execution

namespace BatTask

/-- A leaf where an execution waits: a parallel task that exists, or a delay that sleeps from now
on. -/
def WaitsAt (leaf : BatTask) (e : Execution) : Prop :=
  leaf.subTasks = [] ∧
    ((∃ type nbRes parallel, leaf.profile.data = .parallelTask type nbRes parallel) ∧
        leaf.ptask = true ∨
      ∃ delay h, leaf.profile.data = .delay delay h ∧ 0 < e.sleepTime delay ∧
        leaf.delayTaskStart = some e.clock ∧ leaf.delayTaskRequired = some delay)

/-- An execution that goes through leaves at these paths starts one after the other, and when it
waits, the indices lead to the last one that it started. -/
structure Goes (paths : List (List Nat)) (e : Execution) (run : TaskRun) : Prop where
  steps : (∃ code, run.1 = .ok (.finish code)) ∨ ∃ l, run.1 = .ok (.leaf l)
  done : run.1 = .ok (.finish 0) → run.2.2.started.length = e.started.length + paths.length
  waits : ∀ l, run.1 = .ok (.leaf l) → ∃ n path leaf, paths[n]? = some path ∧
    run.2.2.started.length = e.started.length + n + 1 ∧
    run.2.2.started.getLast?.map LeafStart.profile = some leaf.profile ∧
    Leads run.2.1 path leaf ∧ WaitsAt leaf run.2.2

theorem execute_leaf_goes (ctx : TaskContext) (depth : Nat) {t : BatTask} (e : Execution)
    (hreports : t.profile.reportsProgress = true) (hsubs : t.subTasks = []) :
    Goes [[]] e (execute ctx (depth + 1) t e) := by
  have hcount : (e.start t.profile).started.length = e.started.length + 1 := by
    rw [Execution.start, List.length_append]
    rfl
  have hlast : (e.start t.profile).started.getLast?.map LeafStart.profile = some t.profile := by
    rw [Execution.start, List.getLast?_concat]
    rfl
  have h := hreports
  unfold ProfileObject.reportsProgress at h
  split at h
  · next delay hdelay hdata =>
    have hstarted := Execution.started_doDelayTask (e.start t.profile) delay
    simp only [execute, hdata]
    cases hrun : (e.start t.profile).doDelayTask delay with
    | mk code e' =>
      rw [hrun] at hstarted
      rw [← hstarted] at hcount hlast
      cases code with
      | none =>
        obtain ⟨hpos, rfl⟩ := Execution.doDelayTask_none hrun
        let leaf : BatTask := { t with
          delayTaskStart := some (e.start t.profile).clock, delayTaskRequired := some delay }
        have hleaf : Leads leaf [] leaf := .leaf hreports hsubs
        refine ⟨.inr ⟨_, rfl⟩, fun hdone => (by cases hdone), fun l _ =>
          ⟨0, [], leaf, rfl, hcount, hlast, hleaf, hsubs, ?_⟩⟩
        exact .inr ⟨delay, hdelay, hdata, hpos, rfl, rfl⟩
      | some code => exact ⟨.inl ⟨_, rfl⟩, fun _ => hcount, fun l hl => by cases hl⟩
  · next type nbRes parallel hdata =>
    have hstarted := Execution.started_executeParallelTask (e.start t.profile) t.profile.returnCode
    simp only [execute, hdata]
    cases hrun : (e.start t.profile).executeParallelTask t.profile.returnCode with
    | mk code e' =>
      rw [hrun] at hstarted
      rw [← hstarted] at hcount hlast
      cases code with
      | none =>
        let leaf : BatTask := { t with ptask := true }
        have hleaf : Leads leaf [] leaf := .leaf hreports hsubs
        refine ⟨.inr ⟨_, rfl⟩, fun hdone => (by cases hdone), fun l _ =>
          ⟨0, [], leaf, rfl, hcount, hlast, hleaf, hsubs, ?_⟩⟩
        exact .inl ⟨⟨type, nbRes, parallel, hdata⟩, rfl⟩
      | some code => exact ⟨.inl ⟨_, rfl⟩, fun _ => hcount, fun l hl => by cases hl⟩
  · cases h

/-- The loops of a sequence go through the paths of the sub-tasks that are left. -/
theorem executeSubTasks_goes {execute : BatTask → Execution → TaskRun} {height : Nat}
    (hexecute : ∀ t e, Composed height t → Goes t.leafPaths e (execute t e)) (returnCode : Int)
    (left : Nat) {t : BatTask} {d : SequenceProfileData} {k : Nat} {e : Execution}
    (hdata : t.profile.data = .sequence d) (hptask : t.ptask = false)
    (hdelay : t.delayTaskStart = none) (hlength : t.subTasks.length = d.repeats * d.sequence.length)
    (hleft : t.subTasks.length = k + left)
    (hsubs : ∀ sub ∈ t.subTasks.drop k, Composed height sub) :
    Goes (leafPathsFrom k (t.subTasks.drop k)) e
      (executeSubTasks execute returnCode (List.range' k left) t e) := by
  induction left generalizing t k e with
  | zero =>
    have hdrop : t.subTasks.drop k = [] := List.drop_eq_nil_of_le (by omega)
    rw [hdrop]
    exact ⟨.inl ⟨_, rfl⟩, fun _ => rfl, fun l hl => by cases hl⟩
  | succ left ih =>
    have hlt : k < t.subTasks.length := by omega
    obtain ⟨sub, hsub⟩ : ∃ sub, t.subTasks[k]? = some sub := ⟨_, List.getElem?_eq_getElem hlt⟩
    have hdrop : t.subTasks.drop k = sub :: t.subTasks.drop (k + 1) := by
      rw [List.drop_eq_getElem_cons hlt, (List.getElem?_eq_some_iff.mp hsub).2]
    rw [hdrop, List.forall_mem_cons] at hsubs
    obtain ⟨hsteps, hdone, hwaits⟩ := hexecute sub e hsubs.1
    rw [hdrop, leafPathsFrom, List.range'_succ]
    simp only [executeSubTasks, hsub]
    have hset : (t.subTasks.set k (execute sub e).2.1).drop (k + 1) = t.subTasks.drop (k + 1) :=
      List.drop_set_of_lt (Nat.lt_succ_self k)
    -- the position of the sub-task is that of an iteration and of a position in it
    have hpos : 0 < d.sequence.length := List.length_pos_iff.mpr d.sequence_ne_nil
    have hindex : k / d.sequence.length * d.sequence.length + k % d.sequence.length = k :=
      Nat.div_add_mod' k _
    have hiteration : k / d.sequence.length < d.repeats :=
      (Nat.div_lt_iff_lt_mul hpos).mpr (hlength ▸ hlt)
    by_cases hzero : (execute sub e).1 = .ok (.finish 0)
    · rw [if_pos hzero]
      have htail := ih (t := { t with
          currentTaskIndex := some k
          subTasks := t.subTasks.set k (execute sub e).2.1 }) (k := k + 1)
        (e := (execute sub e).2.2) hdata hptask hdelay (by rw [List.length_set, hlength])
        (by rw [List.length_set, hleft]; omega) (by rw [hset]; exact hsubs.2)
      rw [hset] at htail
      have hcount := hdone hzero
      refine ⟨htail.steps, ?_, ?_⟩
      · intro hfinish
        rw [htail.done hfinish, hcount, List.length_append, List.length_map, Nat.add_assoc]
      · intro l hl
        obtain ⟨n, path, leaf, hpath, hstarted, hleads⟩ := htail.waits l hl
        refine ⟨sub.leafPaths.length + n, path, leaf, ?_, by rw [hstarted, hcount]; omega, hleads⟩
        rw [List.getElem?_append_right (by rw [List.length_map]; omega), List.length_map,
          Nat.add_sub_cancel_left, hpath]
    · rw [if_neg hzero]
      refine ⟨hsteps, fun hfinish => absurd hfinish hzero, fun l hl => ?_⟩
      obtain ⟨n, path, leaf, hpath, hstarted, hlast, hleads, hwait⟩ := hwaits l hl
      refine ⟨n, k :: path, leaf, ?_, hstarted, hlast, ?_, hwait⟩
      · have hn := (List.getElem?_eq_some_iff.mp hpath).1
        rw [List.getElem?_append_left (by rw [List.length_map]; exact hn), List.getElem?_map, hpath]
        rfl
      · have hsequence := Leads.sequence (t := { t with
            currentTaskIndex := some k
            subTasks := t.subTasks.set k (execute sub e).2.1 })
          (k / d.sequence.length) (k % d.sequence.length) hdata (by rw [hindex]) hiteration
          (Nat.mod_lt _ hpos) (by rw [hindex, ← hlength]; exact hlt) hptask hdelay
          (by rw [hindex, List.getElem?_set_self hlt]) hleads
        rwa [hindex] at hsequence

/-- An execution of a tree starts its leaves in order, and its indices lead to the last one. -/
theorem execute_goes (ctx : TaskContext) {height depth : Nat} {t : BatTask} (e : Execution)
    (h : Composed height t) (hle : height ≤ depth) :
    Goes t.leafPaths e (execute ctx depth t e) := by
  induction depth generalizing height t e with
  | zero =>
    obtain rfl := Nat.le_zero.mp hle
    cases h
  | succ depth ih =>
    cases h with
    | leaf hreports hsubs =>
      rw [leafPaths_leaf hreports]
      exact execute_leaf_goes ctx depth e hreports hsubs
    | sequence d hdata hlength hptask hdelay hsubs =>
      have hgoes := executeSubTasks_goes (fun t e ht => ih e ht (Nat.le_of_succ_le_succ hle))
        t.profile.returnCode (d.repeats * d.sequence.length) (k := 0) (e := e) hdata hptask hdelay
        hlength (by rw [hlength, Nat.zero_add]) hsubs
      rw [List.drop_zero, ← leafPaths_sequence hdata] at hgoes
      unfold execute
      simp only [hdata, indices_eq, List.range_eq_range']
      exact hgoes

/-! ### The ratios -/

/-- The dates at which an execution still waits, or is about to go on: a delay ends when its sleep
does. -/
def WaitsUntil (leaf : BatTask) (e : Execution) (now : Date) : Prop :=
  e.clock ≤ now ∧ ∀ delay h, leaf.profile.data = .delay delay h → now ≤ e.clock + e.sleepTime delay

/-- What is stored at the leaf is a ratio. -/
theorem leafProgress_mem {leaf : BatTask} {e : Execution} {now ratio : Rat}
    (h : WaitsAt leaf e) (hnow : WaitsUntil leaf e now) (hratio : 0 ≤ ratio ∧ ratio ≤ 1) :
    ∃ q, leafProgress now ratio leaf = .ok (some q) ∧ 0 ≤ q ∧ q ≤ 1 := by
  obtain ⟨hsubs, ⟨⟨type, nbRes, parallel, hdata⟩, hptask⟩ |
    ⟨delay, hdelay, hdata, hpos, hstart, hrequired⟩⟩ := h
  · refine ⟨1 - ratio, ?_, by linarith [hratio.2], by linarith [hratio.1]⟩
    simp [leafProgress, hsubs, hdata, hptask, xbtAssert, Checked.require, bind, Except.bind]
  · have hlast := (hnow.2 delay hdelay hdata).trans
      (add_le_add_right (Execution.sleepTime_le delay) e.clock)
    have hdelayPos : 0 < delay := hpos.trans_le (Execution.sleepTime_le delay)
    refine ⟨(now - e.clock) / delay, ?_, ?_, ?_⟩
    · simp [leafProgress, hsubs, hdata, hstart, hrequired, hdelayPos.ne', xbtAssert,
        Checked.require, bind, Except.bind]
    · exact div_nonneg (sub_nonneg.mpr hnow.1) hdelay
    · rw [div_le_one hdelayPos]
      linarith

end BatTask

open BatTask

/-- An execution of the tree `t` that started in the state `e` is over, or it waits at the last leaf
that it started. There the current indices lead, each is that of an iteration and of a position,
the message to the scheduler has them, and what is stored at the leaf is a ratio. -/
def ProgressReported (t : BatTask) (e : Execution) (run : TaskRun) : Prop :=
  (∃ code, run.1 = .ok (.finish code)) ∨ (∃ l, run.1 = .ok (.leaf l)) ∧
    ∃ n path leaf, run.2.2.started.length = e.started.length + n + 1 ∧
      run.2.2.started.getLast?.map LeafStart.profile = some leaf.profile ∧
      t.leafPaths[n]? = some path ∧ Leads run.2.1 path leaf ∧
      (∃ tree, generateTaskTree run.2.1 = .ok tree ∧ tree.map Prod.snd = path.map some ++ [none]) ∧
      ∀ now ratio, WaitsUntil leaf run.2.2 now → 0 ≤ ratio ∧ ratio ≤ 1 →
        ∃ q, tasksProgress now ratio run.2.1 = .ok (some q) ∧ 0 ≤ q ∧ q ≤ 1

/-- The progress of each job of sequences over delays and parallel tasks is reported as it is,
wherever its execution waits. -/
theorem progress_reported (ctx : TaskContext) (objects : List ProfileObject)
    (profile : ProfilePtr) (io : Option ProfilePtr) (depth depth' : Nat) (t : BatTask)
    (e : Execution) (hbuild : initializeSequentialTasks objects depth profile io = .ok t)
    (hleaves : ∀ leaf ∈ t.leaves, leaf.profile.reportsProgress = true) (hdepth : depth ≤ depth') :
    ProgressReported t e (execute ctx depth' t e) := by
  have hgoes := execute_goes ctx e (composed_of_initializeSequentialTasks hbuild hleaves) hdepth
  rcases hgoes.steps with hdone | ⟨l, hl⟩
  · exact .inl hdone
  · right
    obtain ⟨n, path, leaf, hpath, hcount, hlast, hleads, hwaits⟩ := hgoes.waits l hl
    refine ⟨⟨l, hl⟩, n, path, leaf, hcount, hlast, hpath, hleads, hleads.generateTaskTree_eq ?_, ?_⟩
    · obtain ⟨-, ⟨-, hptask⟩ | ⟨_, _, -, -, hstart, -⟩⟩ := hwaits
      · exact .inl hptask
      · exact .inr (by simp [hstart])
    · intro now ratio hnow hratio
      rw [hleads.tasksProgress_eq]
      exact leafProgress_mem hwaits hnow hratio

/-- The second nap of a job without walltime. -/
theorem second_nap_reported : ∃ t, initializeSequentialTasks napObjects 2 1 none = .ok t ∧
    ProgressReported t { clock := 0, remainingTime := -1, answers := [{}] }
      (execute napContext 2 t { clock := 0, remainingTime := -1, answers := [{}] }) :=
  ⟨_, rfl, progress_reported napContext napObjects 1 none 2 2 _ _ rfl (by decide +kernel) le_rfl⟩

end Batsim
