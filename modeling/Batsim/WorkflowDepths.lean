import Batsim.TaskLoops
import Mathlib.Order.Bounds.Basic

/-!
The depths of the tasks of a workflow, once its submitter is done: the lengths of the longest paths,
whatever the order in which the tasks complete.
-/

namespace Batsim

open Relation TaskGraph

namespace Workflow

/-- A finite acyclic workflow, whose lists of parents and of children say the same. -/
structure IsDag (w : Workflow) : Prop extends Mutual w where
  listed : ∀ p c, p ∈ w.parents c → p ∈ w.taskList ∧ c ∈ w.taskList
  acyclic : ∀ t, ¬TransGen (fun p c => p ∈ w.parents c) t t

/-- `get_maximum_depth` -/
def getMaximumDepth (w : Workflow) (depth : Nat → Int) : Int :=
  w.getSinkTasks.foldl (fun maxDepth t =>
    if maxDepth = -1 ∨ depth t > maxDepth then depth t else maxDepth) (-1)

variable {w : Workflow}

theorem IsDag.rooted (hw : w.IsDag) : ∀ t ∈ w.taskList, w.Rooted t := by
  refine all_done_of_listed hw.acyclic (fun c _ p hp => (hw.listed p c hp).1) ?_
  intro t ht hparents
  by_cases hne : w.parents t = []
  · exact .source (mem_getSourceTasks.mpr ⟨ht, hne⟩)
  · exact .child hne hparents

end Workflow

namespace TaskLoop

variable {w : Workflow} {limit limit' : Int} {r r' : TaskLoop}

/-- The depths follow from the completed parents. -/
structure Deepens (w : Workflow) (r : TaskLoop) : Prop where
  nonneg : ∀ c, 0 ≤ r.depth c
  lt : ∀ p c, p ∈ w.parents c → p ∈ r.completedTasks → r.depth p + 1 ≤ r.depth c
  attained : ∀ c, r.depth c = 0 ∨
    ∃ p ∈ w.parents c, p ∈ r.completedTasks ∧ r.depth c = r.depth p + 1

/-- `bottom_level_f` on the children of a task that is not one of them. -/
theorem foldl_bottomLevel {task : Nat} {kids : List Nat} (hnodup : kids.Nodup) (htask : task ∉ kids)
    (depth : Nat → Int) (c : Nat) :
    kids.foldl (fun depth kid => Function.update depth kid (max (depth kid) (depth task + 1)))
        depth c =
      if c ∈ kids then max (depth c) (depth task + 1) else depth c := by
  induction kids generalizing depth with
  | nil => simp
  | cons kid kids ih =>
    have hkid : task ≠ kid := List.ne_of_not_mem_cons htask
    have hkids : task ∉ kids := List.not_mem_of_not_mem_cons htask
    have hnot : kid ∉ kids := (List.nodup_cons.mp hnodup).1
    rw [List.foldl_cons, ih hnodup.of_cons hkids, Function.update_of_ne hkid]
    by_cases hc : c = kid
    · subst hc
      simp [hnot]
    · simp [hc]

theorem Deepens.complete (hw : w.IsDag) (htracks : Tracks w r) (h : Deepens w r) {task : Nat}
    (hsubmitted : task ∈ r.submittedTasks) : Deepens w (r.complete w task) := by
  have hkid : ∀ c, c ∈ w.children task ↔ task ∈ w.parents c := fun c =>
    (hw.mutual_edges task c).symm
  have htask : task ∉ w.children task := fun hmem => hw.acyclic task (.single ((hkid task).mp hmem))
  have hdepth : ∀ c, (r.complete w task).depth c =
      if c ∈ w.children task then max (r.depth c) (r.depth task + 1) else r.depth c := fun c =>
    foldl_bottomLevel (hw.children_nodup task) htask r.depth c
  -- the children of the task are not completed yet
  have hsame : ∀ p ∈ r.completedTasks, (r.complete w task).depth p = r.depth p := by
    intro p hp
    rw [hdepth, if_neg]
    intro hmem
    have hparent := (hkid p).mp hmem
    have hready : p ∈ r.becameReady := List.mem_append_left _ (List.mem_append_left _ hp)
    rcases (htracks.ready p).mp hready with hsource | ⟨-, hall⟩
    · rw [(Workflow.mem_getSourceTasks.mp hsource).2] at hparent
      cases hparent
    · exact htracks.not_completed hsubmitted (hall task hparent)
  have hcompleted : ∀ p, p ∈ (r.complete w task).completedTasks ↔
      p ∈ r.completedTasks ∨ p = task := by
    intro p
    rw [TaskLoop.complete, List.mem_append, List.mem_singleton]
  have hgrows : ∀ c, r.depth c ≤ (r.complete w task).depth c := by
    intro c
    rw [hdepth]
    split
    · exact le_max_left _ _
    · exact le_refl _
  constructor
  · intro c
    exact (h.nonneg c).trans (hgrows c)
  · intro p c hparent hp
    rcases (hcompleted p).mp hp with hold | rfl
    · rw [hsame p hold]
      exact (h.lt p c hparent hold).trans (hgrows c)
    · rw [hdepth p, if_neg htask, hdepth c, if_pos ((hkid c).mpr hparent)]
      exact le_max_right _ _
  · intro c
    have hold : (r.complete w task).depth c = r.depth c →
        (r.complete w task).depth c = 0 ∨ ∃ p ∈ w.parents c,
          p ∈ (r.complete w task).completedTasks ∧
            (r.complete w task).depth c = (r.complete w task).depth p + 1 := by
      intro heq
      rcases h.attained c with hzero | ⟨p, hparent, hp, hp'⟩
      · exact .inl (heq.trans hzero)
      · exact .inr ⟨p, hparent, (hcompleted p).mpr (.inl hp), by rw [heq, hp', hsame p hp]⟩
    by_cases hmem : c ∈ w.children task
    · rcases max_choice (r.depth c) (r.depth task + 1) with hmax | hmax
      · exact hold (by rw [hdepth, if_pos hmem, hmax])
      · refine .inr ⟨task, (hkid c).mp hmem, (hcompleted task).mpr (.inr rfl), ?_⟩
        rw [hdepth c, if_pos hmem, hmax, hdepth task, if_neg htask]
    · exact hold (by rw [hdepth, if_neg hmem])

theorem reached_deepens (hw : w.IsDag) (h : Reached w limit r) : Deepens w r := by
  induction h with
  | refl => exact ⟨fun c => le_refl _, fun p c _ hp => by simp [start] at hp, fun c => .inl rfl⟩
  | tail hr hstep ih =>
    cases hstep with
    | submit _ _ => exact ⟨ih.nonneg, ih.lt, ih.attained⟩
    | complete hsubmitted _ => exact ih.complete hw (reached_tracks hw.toMutual hr) hsubmitted

theorem depths_of_over (hw : w.IsDag) (hr : Reached w limit r) (hover : r.IsOver) :
    Depths w.parents r.depth := by
  have htracks := reached_tracks hw.toMutual hr
  have hdeepens := reached_deepens hw hr
  constructor
  · exact hdeepens.nonneg
  · intro p c hp
    have hrooted := hw.rooted p (hw.listed p c hp).1
    exact hdeepens.lt p c hp (htracks.completed_of_over hover hrooted)
  · intro c
    rcases hdeepens.attained c with hzero | ⟨p, hp, -, hdepth⟩
    · exact .inl hzero
    · exact .inr ⟨p, hp, hdepth⟩

/-! ### The orders of completion -/

theorem submitAll (hr : Reached w 0 r) : ∃ r', Reached w 0 r' ∧ r'.readyTasks = [] ∧
    r'.completedTasks = r.completedTasks := by
  generalize hready : r.readyTasks = ready
  induction ready generalizing r with
  | nil => exact ⟨r, hr, hready, rfl⟩
  | cons task ready ih =>
    obtain ⟨r', hr', hnone, hsame⟩ := ih (hr.tail (.submit hready (.inl rfl))) rfl
    exact ⟨r', hr', hnone, hsame⟩

/-- A task that is ready or submitted has an entry in the map. -/
theorem mem_taskList_of_ready (hw : w.IsDag) (htracks : Tracks w r) {t : Nat}
    (ht : t ∈ r.becameReady) : t ∈ w.taskList := by
  rcases (htracks.ready t).mp ht with hsource | ⟨hne, -⟩
  · exact (Workflow.mem_getSourceTasks.mp hsource).1
  · obtain ⟨p, hp⟩ := List.exists_mem_of_ne_nil _ hne
    exact (hw.listed p t hp).2

/-- The tasks may complete in each order that respects the dependencies. -/
theorem exists_run_of_order (hw : w.IsDag) {order : List Nat} (hperm : order.Perm w.taskList)
    (hrespects : ∀ before t after, order = before ++ t :: after → ∀ p ∈ w.parents t, p ∈ before) :
    ∃ r, Reached w 0 r ∧ r.IsOver ∧ r.completedTasks = order := by
  have hnodup : order.Nodup := hperm.nodup_iff.mpr w.nodup_taskList
  have hprefix : ∀ before after, order = before ++ after →
      ∃ r, Reached w 0 r ∧ r.readyTasks = [] ∧ r.completedTasks = before := by
    intro before
    induction before using List.reverseRecOn with
    | nil =>
      intro after _
      exact submitAll .refl
    | append_singleton before t ih =>
      intro after hsplit
      rw [List.append_assoc, List.singleton_append] at hsplit
      obtain ⟨r, hr, hnone, hcompleted⟩ := ih _ hsplit
      have htracks := reached_tracks hw.toMutual hr
      have hlisted : t ∈ w.taskList := hperm.mem_iff.mp (by rw [hsplit]; simp)
      have hready : t ∈ r.becameReady := by
        rw [htracks.ready]
        by_cases hne : w.parents t = []
        · exact .inl (Workflow.mem_getSourceTasks.mpr ⟨hlisted, hne⟩)
        · rw [hcompleted]
          exact .inr ⟨hne, hrespects before t after hsplit⟩
      have hnew : t ∉ r.completedTasks := by
        rw [hcompleted]
        intro hmem
        rw [hsplit] at hnodup
        exact (List.nodup_append.mp hnodup).2.2 t hmem t List.mem_cons_self rfl
      have hsubmitted : t ∈ r.submittedTasks := by
        rw [becameReady, hnone, List.append_nil, List.mem_append] at hready
        exact hready.resolve_left hnew
      obtain ⟨r', hr', hnone', hsame⟩ := submitAll (hr.tail (.complete hsubmitted (.inl hnone)))
      refine ⟨r', hr', hnone', hsame.trans ?_⟩
      rw [TaskLoop.complete, hcompleted]
  obtain ⟨r, hr, hnone, hcompleted⟩ := hprefix order [] (List.append_nil _).symm
  refine ⟨r, hr, ⟨hnone, ?_⟩, hcompleted⟩
  have htracks := reached_tracks hw.toMutual hr
  rw [List.eq_nil_iff_forall_not_mem]
  intro t ht
  have hready : t ∈ r.becameReady := List.mem_append_left _ (List.mem_append_right _ ht)
  refine htracks.not_completed ht ?_
  rw [hcompleted]
  exact hperm.mem_iff.mpr (mem_taskList_of_ready hw htracks hready)

end TaskLoop

/-! ### The maximum depth -/

namespace Workflow

variable {w : Workflow} {depth : Nat → Int}

theorem foldl_maxDepth {ts : List Nat} (hnonneg : ∀ t, 0 ≤ depth t) (hne : ts ≠ []) :
    ∃ t ∈ ts, ts.foldl (fun maxDepth t =>
        if maxDepth = -1 ∨ depth t > maxDepth then depth t else maxDepth) (-1) = depth t ∧
      ∀ t' ∈ ts, depth t' ≤ depth t := by
  induction ts using List.reverseRecOn with
  | nil => exact absurd rfl hne
  | append_singleton ts last ih =>
    rw [List.foldl_append]
    by_cases hts : ts = []
    · subst hts
      refine ⟨last, by simp, by simp, fun t' ht' => ?_⟩
      rw [List.mem_singleton.mp ht']
    · obtain ⟨t, ht, hmax, hle⟩ := ih hts
      rw [hmax, List.foldl_cons, List.foldl_nil]
      have hpos := hnonneg t
      split
      · next hlarger =>
        refine ⟨last, by simp, rfl, fun t' ht' => ?_⟩
        rcases List.mem_append.mp ht' with hold | hlast
        · have hold' := hle t' hold
          omega
        · rw [List.mem_singleton.mp hlast]
      · next hsmaller =>
        refine ⟨t, List.mem_append_left _ ht, rfl, fun t' ht' => ?_⟩
        rcases List.mem_append.mp ht' with hold | hlast
        · exact hle t' hold
        · rw [List.mem_singleton.mp hlast]
          omega

/-- A deepest task is a sink. -/
theorem exists_deepest_sink (hw : w.IsDag) (hdepths : Depths w.parents depth)
    (hne : w.taskList ≠ []) : ∃ t ∈ w.getSinkTasks, ∀ t' ∈ w.taskList, depth t' ≤ depth t := by
  obtain ⟨t, ht, -, hmax⟩ := foldl_maxDepth hdepths.nonneg hne
  refine ⟨t, mem_getSinkTasks.mpr ⟨ht, ?_⟩, hmax⟩
  rw [List.eq_nil_iff_forall_not_mem]
  intro c hc
  have hp := (hw.mutual_edges t c).mpr hc
  have hlt := hdepths.lt t c hp
  have hle := hmax c (hw.listed t c hp).2
  omega

theorem getMaximumDepth_eq (hw : w.IsDag) (hdepths : Depths w.parents depth)
    (hne : w.taskList ≠ []) : ∃ t ∈ w.taskList, w.getMaximumDepth depth = depth t ∧
      ∀ t' ∈ w.taskList, depth t' ≤ depth t := by
  obtain ⟨sink, hsink, hdeepest⟩ := exists_deepest_sink hw hdepths hne
  obtain ⟨t, ht, hmax, hle⟩ := foldl_maxDepth hdepths.nonneg (List.ne_nil_of_mem hsink)
  refine ⟨t, (mem_getSinkTasks.mp ht).1, hmax, fun t' ht' => ?_⟩
  exact (hdeepest t' ht').trans (hle sink hsink)

/-- The lengths of the paths to a task from a source. -/
def pathsTo (w : Workflow) (t : Nat) : Set Int :=
  {n | ∃ (k : Nat) (s : Nat), s ∈ w.getSourceTasks ∧ Walk w.parents k s t ∧ n = k}

/-- The lengths of all paths between tasks. -/
def paths (w : Workflow) : Set Int :=
  {n | ∃ (k : Nat) (s t : Nat), s ∈ w.taskList ∧ t ∈ w.taskList ∧ Walk w.parents k s t ∧ n = k}

theorem isGreatest_pathsTo (hw : w.IsDag) (hdepths : Depths w.parents depth) {t : Nat}
    (ht : t ∈ w.taskList) : IsGreatest (w.pathsTo t) (depth t) := by
  -- a path to a task of the map starts at one
  have hstart : ∀ {k s t}, Walk w.parents k s t → t ∈ w.taskList → s ∈ w.taskList := by
    intro k s t hwalk
    induction hwalk with
    | nil => exact id
    | snoc _ hp ih => exact fun _ => ih (hw.listed _ _ hp).1
  have hsame : w.pathsTo t =
      {n : Int | ∃ (k : Nat) (s : Nat), w.parents s = [] ∧ Walk w.parents k s t ∧ n = k} := by
    ext n
    constructor
    · rintro ⟨k, s, hs, hwalk, rfl⟩
      exact ⟨k, s, (mem_getSourceTasks.mp hs).2, hwalk, rfl⟩
    · rintro ⟨k, s, hs, hwalk, rfl⟩
      exact ⟨k, s, mem_getSourceTasks.mpr ⟨hstart hwalk ht, hs⟩, hwalk, rfl⟩
  rw [hsame]
  exact hdepths.isGreatest t

theorem isGreatest_paths (hw : w.IsDag) (hdepths : Depths w.parents depth)
    (hne : w.taskList ≠ []) : IsGreatest w.paths (w.getMaximumDepth depth) := by
  obtain ⟨t, ht, hmax, hle⟩ := getMaximumDepth_eq hw hdepths hne
  rw [hmax]
  constructor
  · obtain ⟨k, s, hs, hwalk, hk⟩ := (isGreatest_pathsTo hw hdepths ht).1
    exact ⟨k, s, t, (mem_getSourceTasks.mp hs).1, ht, hwalk, hk⟩
  · rintro _ ⟨k, s, t', -, ht', hwalk, rfl⟩
    have hlong := hdepths.add_le hwalk
    have hpos := hdepths.nonneg s
    have hdeep := hle t' ht'
    omega

end Workflow

/-- Whatever the order in which the tasks complete, the depths are the lengths of the longest
paths. -/
theorem final_depths_are_longest_paths {w : Workflow} (hw : w.IsDag) {limit limit' : Int}
    {r r' : TaskLoop} (hr : TaskLoop.Reached w limit r) (hover : r.IsOver)
    (hr' : TaskLoop.Reached w limit' r') (hover' : r'.IsOver) :
    (∀ t ∈ w.taskList, r.depth t = r'.depth t ∧ IsGreatest (w.pathsTo t) (r.depth t)) ∧
      (w.taskList ≠ [] → IsGreatest w.paths (w.getMaximumDepth r.depth)) ∧
      (w.taskList = [] → w.getMaximumDepth r.depth = -1) := by
  have hdepths := TaskLoop.depths_of_over hw hr hover
  have hdepths' := TaskLoop.depths_of_over hw hr' hover'
  refine ⟨fun t ht => ?_, Workflow.isGreatest_paths hw hdepths, fun hnone => ?_⟩
  · have hlongest := Workflow.isGreatest_pathsTo hw hdepths ht
    exact ⟨hlongest.unique (Workflow.isGreatest_pathsTo hw hdepths' ht), hlongest⟩
  · have hsinks : w.getSinkTasks = [] := by rw [Workflow.getSinkTasks, hnone]; rfl
    rw [Workflow.getMaximumDepth, hsinks]
    rfl

/-- Two tasks that complete in any order before their child. -/
theorem two_orders_same_depths :
    let w := Workflow.after (fun t => if t = 0 then "A" else if t = 1 then "B" else "C")
      [.addTask 0, .addTask 1, .addTask 2, .addEdge 0 2, .addEdge 1 2]
    ∃ r r' : TaskLoop, r.completedTasks = [0, 1, 2] ∧ r'.completedTasks = [1, 0, 2] ∧
      (∀ t ∈ w.taskList, r.depth t = r'.depth t ∧ IsGreatest (w.pathsTo t) (r.depth t)) ∧
      (w.taskList ≠ [] → IsGreatest w.paths (w.getMaximumDepth r.depth)) ∧
      (w.taskList = [] → w.getMaximumDepth r.depth = -1) := by
  intro w
  have hlist : w.taskList = [0, 1, 2] := by decide +kernel
  have hedge : ∀ p c, p ∈ w.parents c ↔ (p, c) = (0, 2) ∨ (p, c) = (1, 2) := by
    intro p c
    have hmem := (Workflow.parents_after w.taskId
      [.addTask 0, .addTask 1, .addTask 2, .addEdge 0 2, .addEdge 1 2]).1 p c
    refine hmem.trans ?_
    rw [show Workflow.edges _ = [(0, 2), (1, 2)] from rfl, List.mem_cons, List.mem_singleton]
  have hlt : ∀ {p c}, TransGen (fun p c => p ∈ w.parents c) p c → p < c := by
    have hone : ∀ {p c}, p ∈ w.parents c → p < c := by
      intro p c hp
      rcases (hedge p c).mp hp with h | h <;> cases h <;> decide
    intro p c h
    induction h with
    | single hp => exact hone hp
    | tail _ hp ih => exact ih.trans (hone hp)
  have hmutual : w.Mutual := by
    refine Workflow.mutual_after_iff.mpr ((Workflow.repeatsSafely_iff_nodup ?_).mpr ?_)
    · decide
    · decide
  have hw : w.IsDag := by
    refine ⟨hmutual, fun p c hp => ?_, fun t h => (hlt h).false⟩
    rw [hlist]
    rcases (hedge p c).mp hp with h | h <;> cases h <;> decide
  have hparents : ∀ {t : Nat} {before : List Nat}, (t = 2 → 0 ∈ before ∧ 1 ∈ before) →
      ∀ p ∈ w.parents t, p ∈ before := by
    intro t before hboth p hp
    rcases (hedge p t).mp hp with h | h <;> cases h
    · exact (hboth rfl).1
    · exact (hboth rfl).2
  have hrespects : ∀ {init before after : List Nat} {t : Nat},
      init ++ [2] = before ++ t :: after → 2 ∉ init ∧ 0 ∈ init ∧ 1 ∈ init →
        ∀ p ∈ w.parents t, p ∈ before := by
    intro init before after t hsplit hinit
    refine hparents fun ht => ?_
    subst ht
    rcases Splitting.cases_concat hsplit with ⟨after, hlonger⟩ | ⟨rfl, -⟩
    · have hmem : 2 ∈ init := by
        rw [hlonger]
        simp
      exact absurd hmem hinit.1
    · exact hinit.2
  have hrun : ∀ {init : List Nat}, (init ++ [2]).Perm [0, 1, 2] → 2 ∉ init ∧ 0 ∈ init ∧ 1 ∈ init →
      ∃ r, TaskLoop.Reached w 0 r ∧ r.IsOver ∧ r.completedTasks = init ++ [2] := by
    intro init hperm hinit
    refine TaskLoop.exists_run_of_order hw (hlist ▸ hperm) ?_
    intro before t after hsplit
    exact hrespects hsplit hinit
  obtain ⟨r, hr, hover, horder⟩ := @hrun [0, 1] (by decide) (by decide)
  obtain ⟨r', hr', hover', horder'⟩ := @hrun [1, 0] (by decide) (by decide)
  exact ⟨r, r', horder, horder', final_depths_are_longest_paths hw hr hover hr' hover'⟩

end Batsim
