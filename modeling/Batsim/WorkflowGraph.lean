import Batsim.Lib.SortedMap
import Batsim.Lib.Splitting
import Batsim.Lib.TaskGraph
import Mathlib.Data.String.Basic

/-!
The tasks and the edges of a workflow, as they are added, and the tasks that its submitter finds
ready.
-/

namespace Batsim

open Relation TaskGraph

/-! ### Tasks and edges -/

/-- `Workflow`. A `Task` object is known by a number; its identifier never changes. -/
structure Workflow where
  taskId : Nat → String
  tasks : SortedMap String Nat := .empty
  tasks_id : ∀ e ∈ tasks.entries, e.1 = taskId e.2
  parents : Nat → List Nat := fun _ => []
  children : Nat → List Nat := fun _ => []

namespace Workflow

def empty (taskId : Nat → String) : Workflow where
  taskId := taskId
  tasks_id := by simp [SortedMap.empty]

def addTask (w : Workflow) (task : Nat) : Workflow :=
  { w with
    tasks := w.tasks.set (w.taskId task) task
    tasks_id := by
      intro e he
      rcases SortedMap.mem_set.mp he with rfl | ⟨he, -⟩
      · rfl
      · exact w.tasks_id e he }

def addEdge (w : Workflow) (parent child : Nat) : Workflow :=
  let w :=
    if parent ∈ w.parents child then w
    else { w with parents := Function.update w.parents child (w.parents child ++ [parent]) }
  -- the parent itself is searched among its children
  if parent ∈ w.children parent then w
  else { w with children := Function.update w.children parent (w.children parent ++ [child]) }

/-- The tasks, in the order of the map. -/
def taskList (w : Workflow) : List Nat := w.tasks.entries.map Prod.snd

def getSourceTasks (w : Workflow) : List Nat := w.taskList.filter fun t => w.parents t = []

def getSinkTasks (w : Workflow) : List Nat := w.taskList.filter fun t => w.children t = []

end Workflow

inductive WorkflowCall where
  | addTask (task : Nat)
  | addEdge (parent child : Nat)
deriving DecidableEq

namespace WorkflowCall

def apply (w : Workflow) : WorkflowCall → Workflow
  | addTask task => w.addTask task
  | addEdge parent child => w.addEdge parent child

def edge? : WorkflowCall → Option (Nat × Nat)
  | addTask _ => none
  | addEdge parent child => some (parent, child)

end WorkflowCall

namespace Workflow

/-- The workflow after some calls. -/
def after (taskId : Nat → String) (calls : List WorkflowCall) : Workflow :=
  calls.foldl WorkflowCall.apply (.empty taskId)

/-- The edges that were added, in order. -/
def edges (calls : List WorkflowCall) : List (Nat × Nat) := calls.filterMap WorkflowCall.edge?

/-- The lists of parents and of children say the same, each edge once. -/
structure Mutual (w : Workflow) : Prop where
  parents_nodup : ∀ c, (w.parents c).Nodup
  children_nodup : ∀ p, (w.children p).Nodup
  mutual_edges : ∀ p c, p ∈ w.parents c ↔ c ∈ w.children p

/-- An edge is one that was added before exactly when its parent was made its own parent before. -/
def RepeatsSafely (edges : List (Nat × Nat)) : Prop :=
  ∀ before p c after, edges = before ++ (p, c) :: after → ((p, c) ∈ before ↔ (p, p) ∈ before)

theorem nodup_taskList (w : Workflow) : w.taskList.Nodup := by
  have hkeys : (w.tasks.entries.map Prod.fst).Nodup :=
    (List.pairwise_map.mpr w.tasks.sorted).imp fun h => ne_of_lt h
  have hids : w.tasks.entries.map Prod.fst = w.taskList.map w.taskId := by
    rw [taskList, List.map_map]
    exact List.map_congr_left w.tasks_id
  rw [hids] at hkeys
  exact .of_map _ hkeys

/-! ### What the edges make of the lists -/

section edges

variable {w : Workflow} {p c p' c' : Nat}

theorem parents_addEdge : (w.addEdge p c).parents =
    if p ∈ w.parents c then w.parents
    else Function.update w.parents c (w.parents c ++ [p]) := by
  unfold addEdge
  split <;> dsimp only <;> split <;> rfl

theorem children_addEdge : (w.addEdge p c).children =
    if p ∈ w.children p then w.children
    else Function.update w.children p (w.children p ++ [c]) := by
  unfold addEdge
  split <;> dsimp only <;> split <;> rfl

theorem mem_parents_addEdge :
    p' ∈ (w.addEdge p c).parents c' ↔ p' ∈ w.parents c' ∨ (p' = p ∧ c' = c) := by
  rw [parents_addEdge]
  split
  · next hmem =>
    constructor
    · exact .inl
    · rintro (h | ⟨rfl, rfl⟩)
      · exact h
      · exact hmem
  · by_cases hc : c' = c
    · subst hc
      simp
    · simp [hc]

theorem nodup_parents_addEdge (h : ∀ c, (w.parents c).Nodup) :
    ((w.addEdge p c).parents c').Nodup := by
  rw [parents_addEdge]
  split
  · exact h c'
  · next hnew =>
    by_cases hc : c' = c
    · subst hc
      rw [Function.update_self, ← List.concat_eq_append]
      exact (h c').concat hnew
    · rw [Function.update_of_ne hc]
      exact h c'

end edges

variable {taskId : Nat → String} {calls : List WorkflowCall} {call : WorkflowCall} {p c : Nat}

theorem after_append : after taskId (calls ++ [call]) = call.apply (after taskId calls) := by
  rw [after, List.foldl_append]
  rfl

theorem edges_append : edges (calls ++ [call]) = edges calls ++ call.edge?.toList := by
  rw [edges, edges, List.filterMap_append]
  cases hedge : call.edge? <;> simp [hedge]

/-- The parents of a task are those of its edges, once each. -/
theorem parents_after (taskId : Nat → String) (calls : List WorkflowCall) :
    (∀ p c, p ∈ (after taskId calls).parents c ↔ (p, c) ∈ edges calls) ∧
      ∀ c, ((after taskId calls).parents c).Nodup := by
  induction calls using List.reverseRecOn with
  | nil => exact ⟨by simp [after, empty, edges], fun c => List.nodup_nil⟩
  | append_singleton calls call ih =>
    obtain ⟨hmem, hnodup⟩ := ih
    rw [after_append, edges_append]
    cases call with
    | addTask task =>
      refine ⟨fun p c => ?_, hnodup⟩
      rw [show WorkflowCall.edge? (.addTask task) = none from rfl, Option.toList_none,
        List.append_nil]
      exact hmem p c
    | addEdge parent child =>
      refine ⟨fun p c => ?_, fun c => nodup_parents_addEdge hnodup⟩
      refine mem_parents_addEdge.trans ?_
      rw [hmem]
      simp [WorkflowCall.edge?]

/-- What is among the children of a task was added, and what was added is missing only when the task
is among its own children. -/
theorem children_after (taskId : Nat → String) (calls : List WorkflowCall) :
    (∀ p c, c ∈ (after taskId calls).children p → (p, c) ∈ edges calls) ∧
      ∀ p c, (p, c) ∈ edges calls →
        c ∈ (after taskId calls).children p ∨ p ∈ (after taskId calls).children p := by
  induction calls using List.reverseRecOn with
  | nil => exact ⟨by simp [after, empty], by simp [edges]⟩
  | append_singleton calls call ih =>
    obtain ⟨hsound, hcomplete⟩ := ih
    rw [after_append, edges_append]
    cases call with
    | addTask task =>
      rw [show WorkflowCall.edge? (.addTask task) = none from rfl, Option.toList_none,
        List.append_nil]
      exact ⟨hsound, hcomplete⟩
    | addEdge parent child =>
      rw [show WorkflowCall.edge? (.addEdge parent child) = some (parent, child) from rfl,
        Option.toList_some, WorkflowCall.apply, children_addEdge]
      split
      · next hself =>
        constructor
        · intro p c hc
          exact List.mem_append_left _ (hsound p c hc)
        · intro p c hedge
          rcases List.mem_append.mp hedge with hold | hlast
          · exact hcomplete p c hold
          · cases List.mem_singleton.mp hlast
            exact .inr hself
      · have hpush : ∀ p c, c ∈ Function.update (after taskId calls).children parent
            ((after taskId calls).children parent ++ [child]) p ↔
            c ∈ (after taskId calls).children p ∨ (p, c) = (parent, child) := by
          intro p c
          by_cases hp : p = parent
          · subst hp
            simp
          · simp [hp]
        constructor
        · intro p c hc
          rw [List.mem_append, List.mem_singleton]
          exact ((hpush p c).mp hc).imp_left (hsound p c)
        · intro p c hedge
          rw [hpush, hpush]
          rcases List.mem_append.mp hedge with hold | hlast
          · exact (hcomplete p c hold).imp .inl .inl
          · exact .inl (.inr (List.mem_singleton.mp hlast))

theorem self_mem_children : p ∈ (after taskId calls).children p ↔ (p, p) ∈ edges calls := by
  obtain ⟨hsound, hcomplete⟩ := children_after taskId calls
  exact ⟨hsound p p, fun h => (hcomplete p p h).elim id id⟩

/-- The children are right when each edge has one entry in its list. -/
theorem mutual_iff : (after taskId calls).Mutual ↔
    (∀ p, ((after taskId calls).children p).Nodup) ∧
      ∀ p c, (p, c) ∈ edges calls → c ∈ (after taskId calls).children p := by
  obtain ⟨hparents, hnodup⟩ := parents_after taskId calls
  constructor
  · intro h
    exact ⟨h.children_nodup, fun p c hedge => (h.mutual_edges p c).mp ((hparents p c).mpr hedge)⟩
  · rintro ⟨hchildren, hadded⟩
    refine ⟨hnodup, hchildren, fun p c => ?_⟩
    rw [hparents]
    exact ⟨hadded p c, (children_after taskId calls).1 p c⟩

theorem mutual_addTask {task : Nat} :
    (after taskId (calls ++ [.addTask task])).Mutual ↔ (after taskId calls).Mutual := by
  rw [after_append]
  exact ⟨fun h => ⟨h.parents_nodup, h.children_nodup, h.mutual_edges⟩,
    fun h => ⟨h.parents_nodup, h.children_nodup, h.mutual_edges⟩⟩

theorem mutual_addEdge : (after taskId (calls ++ [.addEdge p c])).Mutual ↔
    (after taskId calls).Mutual ∧ ((p, c) ∈ edges calls ↔ (p, p) ∈ edges calls) := by
  rw [mutual_iff, mutual_iff, after_append, edges_append, WorkflowCall.apply, children_addEdge,
    show WorkflowCall.edge? (.addEdge p c) = some (p, c) from rfl, Option.toList_some]
  obtain ⟨hsound, hcomplete⟩ := children_after taskId calls
  by_cases hself : p ∈ (after taskId calls).children p
  · -- nothing is added to the children
    rw [if_pos hself]
    constructor
    · rintro ⟨hnodup, hadded⟩
      have hc := hadded p c (by simp)
      exact ⟨⟨hnodup, fun p' c' hedge => hadded p' c' (List.mem_append_left _ hedge)⟩,
        ⟨fun _ => hsound p p hself, fun _ => hsound p c hc⟩⟩
    · rintro ⟨⟨hnodup, hadded⟩, hiff⟩
      refine ⟨hnodup, fun p' c' hedge => ?_⟩
      rcases List.mem_append.mp hedge with hold | hlast
      · exact hadded p' c' hold
      · cases List.mem_singleton.mp hlast
        exact hadded p c (hiff.mpr (hsound p p hself))
  · rw [if_neg hself]
    have hnoself : (p, p) ∉ edges calls := fun h => hself (self_mem_children.mpr h)
    have hpush : ∀ p' c', c' ∈ Function.update (after taskId calls).children p
        ((after taskId calls).children p ++ [c]) p' ↔
        c' ∈ (after taskId calls).children p' ∨ (p', c') = (p, c) := by
      intro p' c'
      by_cases hp : p' = p
      · subst hp
        simp
      · simp [hp]
    constructor
    · rintro ⟨hnodup, hadded⟩
      have hlast := hnodup p
      rw [Function.update_self, ← List.concat_eq_append, List.nodup_concat] at hlast
      have hnew : (p, c) ∉ edges calls := fun h =>
        (hcomplete p c h).elim hlast.1 hself
      refine ⟨⟨fun p' => ?_, fun p' c' hedge => ?_⟩, iff_of_false hnew hnoself⟩
      · by_cases hp : p' = p
        · rw [hp]
          exact hlast.2
        · have hother := hnodup p'
          rw [Function.update_of_ne hp] at hother
          exact hother
      · rcases (hpush p' c').mp (hadded p' c' (List.mem_append_left _ hedge)) with h | h
        · exact h
        · cases h
          exact absurd hedge hnew
    · rintro ⟨⟨hnodup, hadded⟩, hiff⟩
      have hnew : (p, c) ∉ edges calls := fun h => hnoself (hiff.mp h)
      refine ⟨fun p' => ?_, fun p' c' hedge => ?_⟩
      · by_cases hp : p' = p
        · subst hp
          rw [Function.update_self, ← List.concat_eq_append]
          exact (hnodup p').concat fun h => hnew (hsound p' c h)
        · rw [Function.update_of_ne hp]
          exact hnodup p'
      · rw [hpush]
        rcases List.mem_append.mp hedge with hold | hlast
        · exact .inl (hadded p' c' hold)
        · exact .inr (List.mem_singleton.mp hlast)

theorem repeatsSafely_append {es : List (Nat × Nat)} {e : Nat × Nat} :
    RepeatsSafely (es ++ [e]) ↔ RepeatsSafely es ∧ (e ∈ es ↔ (e.1, e.1) ∈ es) := by
  constructor
  · intro h
    refine ⟨fun before p c after hsplit => ?_, h es e.1 e.2 [] rfl⟩
    exact h before p c (after ++ [e]) (by rw [hsplit]; simp)
  · rintro ⟨h, hlast⟩ before p c after hsplit
    rcases Splitting.cases_concat hsplit with ⟨after, hinit⟩ | ⟨rfl, rfl⟩
    · exact h before p c after hinit
    · exact hlast

theorem mutual_after_iff : (after taskId calls).Mutual ↔ RepeatsSafely (edges calls) := by
  induction calls using List.reverseRecOn with
  | nil =>
    constructor
    · intro _ before p c after hsplit
      simp [edges] at hsplit
    · intro _
      exact mutual_iff.mpr ⟨fun _ => List.nodup_nil, by simp [edges]⟩
  | append_singleton calls call ih =>
    rw [edges_append]
    cases call with
    | addTask task =>
      rw [mutual_addTask, ih, show WorkflowCall.edge? (.addTask task) = none from rfl,
        Option.toList_none, List.append_nil]
    | addEdge p c =>
      rw [mutual_addEdge, ih, show WorkflowCall.edge? (.addEdge p c) = some (p, c) from rfl,
        Option.toList_some, repeatsSafely_append]

/-- Without edges from a task to itself, no edge may be repeated. -/
theorem repeatsSafely_iff_nodup {es : List (Nat × Nat)} (h : ∀ e ∈ es, e.1 ≠ e.2) :
    RepeatsSafely es ↔ es.Nodup := by
  induction es using List.reverseRecOn with
  | nil =>
    constructor
    · intro _
      exact List.nodup_nil
    · intro _ before p c after hsplit
      simp at hsplit
  | append_singleton es e ih =>
    have hself : (e.1, e.1) ∉ es := fun hmem => h _ (List.mem_append_left _ hmem) rfl
    rw [repeatsSafely_append, ih fun e he => h e (List.mem_append_left _ he),
      ← List.concat_eq_append, List.nodup_concat, iff_false_right hself, and_comm]

end Workflow

end Batsim
