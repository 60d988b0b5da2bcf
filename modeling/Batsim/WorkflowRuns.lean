import Batsim.Lib.Splitting
import Batsim.Lib.TaskGraph
import Batsim.System

/-!
The submitter of a workflow, with the jobs that it submits and that complete in any order.
-/

namespace Batsim

open Checked Relation TaskGraph

namespace WorkflowDescription

variable (d : WorkflowDescription)

def parents (i : Nat) : List Nat := (d.tasks[i]?).elim [] WorkflowTask.parents

def children (i : Nat) : List Nat := (d.tasks[i]?).elim [] WorkflowTask.children

/-- A finite acyclic workflow, whose lists of parents and of children say the same. -/
structure IsDag : Prop where
  mutual_edges : ∀ p c, p ∈ d.parents c ↔ c ∈ d.children p
  parents_nodup : ∀ c, (d.parents c).Nodup
  children_nodup : ∀ p, (d.children p).Nodup
  acyclic : ∀ i, ¬TransGen (fun p c => p ∈ d.parents c) i i

variable {d}

theorem lt_of_mem_parents {p c : Nat} (h : p ∈ d.parents c) : c < d.tasks.length := by
  unfold parents at h
  cases hc : d.tasks[c]? with
  | none =>
    rw [hc] at h
    cases h
  | some task => exact (List.getElem?_eq_some_iff.mp hc).1

theorem lt_of_mem_children {p c : Nat} (h : c ∈ d.children p) : p < d.tasks.length := by
  unfold children at h
  cases hp : d.tasks[p]? with
  | none =>
    rw [hp] at h
    cases h
  | some task => exact (List.getElem?_eq_some_iff.mp hp).1

end WorkflowDescription

/-- What happens to the jobs of a workflow. -/
inductive WorkflowEvent where
  | submit (id : JobIdentifier) (task : Nat)
  | complete (id : JobIdentifier)
deriving DecidableEq

/-- The jobs that were submitted, with their tasks. -/
def submissions (events : List WorkflowEvent) : List (JobIdentifier × Nat) :=
  events.filterMap fun
    | .submit id i => some (id, i)
    | .complete _ => none

/-- The jobs that have completed. -/
def completions (events : List WorkflowEvent) : List JobIdentifier :=
  events.filterMap fun
    | .submit _ _ => none
    | .complete id => some id

/-- The job of the task was submitted, and has completed. -/
def CompletedIn (events : List WorkflowEvent) (i : Nat) : Prop :=
  ∃ id, .submit id i ∈ events ∧ .complete id ∈ events

/-- Where the submitter is, or `none` once it has left its loop; the callbacks that it has not
received yet; and what happened so far. -/
structure WorkflowSession where
  turn : Option (WorkflowRun × WorkflowPhase)
  callbacks : List JobIdentifier := []
  events : List WorkflowEvent := []

/-- The submitter has entered its loop. -/
def WorkflowPhase.inLoop : WorkflowPhase → Prop
  | .submitted _ _ | .waiting => True
  | _ => False

/-- The workload of the workflow takes the next job, whichever task it is for. -/
def CanRegister (s : Sim) (run : WorkflowRun) : Prop :=
  ∀ task ∈ run.workflow.tasks, ∀ (t : Sim) (run' : WorkflowRun), t.workloads = s.workloads →
    run'.workflow = run.workflow → run'.taskIdCounter = run.taskIdCounter →
    ∃ result, submitWorkflowTaskAsJob t run' task = .ok result

/-- How the submitter goes on after a turn from `s` to `s'`, and what it submitted in it. -/
inductive WorkflowGoesOn (s s' : Sim) :
    Option (WorkflowRun × WorkflowPhase) → List WorkflowEvent → Prop where
  | submits {name : String} {p : JobPtr} {run : WorkflowRun} {i : Nat}
      (h : s'.pool = s.pool.put (.jobSubmitted name [p])
        (some (.workflowSubmitter run (.submitted p.id i)))) :
      WorkflowGoesOn s s' (some (run, .submitted p.id i)) [.submit p.id i]
  | greets {name : String} {callback : Bool} {type : SubmitterType} {run : WorkflowRun}
      {phase : WorkflowPhase}
      (h : s'.pool = s.pool.put (.submitterHello name callback type)
        (some (.workflowSubmitter run phase))) :
      WorkflowGoesOn s s' (some (run, phase)) []
  | waits {run : WorkflowRun} {phase : WorkflowPhase}
      (h : s'.pool = s.pool.block (.workflowSubmitter run phase)) :
      WorkflowGoesOn s s' (some (run, phase)) []
  | leaves {m : IPMessage} (h : s'.pool = s.pool.put m none) : WorkflowGoesOn s s' none []

namespace WorkflowSession

/-- A job completes, and the server calls the submitter back; or the submitter takes a turn, with
the simulation in any state. -/
inductive Step (cfg : Config) : WorkflowSession → WorkflowSession → Prop where
  | complete {w : WorkflowSession} {id : JobIdentifier} {i : Nat}
      (hsubmitted : .submit id i ∈ w.events) (honce : .complete id ∉ w.events) :
      Step cfg w { w with callbacks := w.callbacks ++ [id], events := w.events ++ [.complete id] }
  | turn {w : WorkflowSession} {run : WorkflowRun} {phase : WorkflowPhase} {s s' : Sim}
      {next : Option (WorkflowRun × WorkflowPhase)} {sent : List WorkflowEvent}
      (hturn : w.turn = some (run, phase))
      (hbox : s.callbackBox (run.workflow.name ++ "_submitter") = w.callbacks)
      (hrun : workflowSubmitterProcess cfg s run phase = .ok s')
      (hnext : WorkflowGoesOn s s' next sent) :
      Step cfg w
        { turn := next
          callbacks := s'.callbackBox (run.workflow.name ++ "_submitter")
          events := w.events ++ sent }

def start (d : WorkflowDescription) : WorkflowSession where
  turn := some ({ workflow := d, nbParentCompleted := d.tasks.map fun _ => 0 }, .started)

end WorkflowSession

/-! ### What a turn does -/

section turns

variable {s s' t : Sim} {next : Option (WorkflowRun × WorkflowPhase)} {sent : List WorkflowEvent}

theorem goesOn_put {m : IPMessage} {sender : Option Thread} (h : WorkflowGoesOn s s' next sent)
    (hpool : s'.pool = s.pool.put m sender) :
    (∃ name p run i, m = .jobSubmitted name [p] ∧
        sender = some (.workflowSubmitter run (.submitted p.id i)) ∧
        next = some (run, .submitted p.id i) ∧ sent = [.submit p.id i]) ∨
      (∃ name callback type run phase, m = .submitterHello name callback type ∧
        sender = some (.workflowSubmitter run phase) ∧ next = some (run, phase) ∧ sent = []) ∨
      sender = none ∧ next = none ∧ sent = [] := by
  have hlast : ∀ m' sender', s'.pool = s.pool.put m' sender' → m' = m ∧ sender' = sender := by
    intro m' sender' h'
    have hmailbox := congrArg Pool.mailbox (hpool.symm.trans h')
    have hsame := List.append_cancel_left hmailbox
    cases hsame
    exact ⟨rfl, rfl⟩
  cases h with
  | @submits name p run i h =>
    obtain ⟨rfl, rfl⟩ := hlast _ _ h
    exact .inl ⟨name, p, run, i, rfl, rfl, rfl, rfl⟩
  | @greets name callback type run phase h =>
    obtain ⟨rfl, rfl⟩ := hlast _ _ h
    exact .inr (.inl ⟨name, callback, type, run, phase, rfl, rfl, rfl, rfl⟩)
  | waits h =>
    have hmailbox := congrArg (fun p => p.mailbox.length) (hpool.symm.trans h)
    simp [Pool.put, Pool.block] at hmailbox
  | leaves h =>
    obtain ⟨-, rfl⟩ := hlast _ _ h
    exact .inr (.inr ⟨rfl, rfl, rfl⟩)

theorem goesOn_block {run : WorkflowRun} {phase : WorkflowPhase}
    (h : WorkflowGoesOn s s' next sent)
    (hpool : s'.pool = s.pool.block (.workflowSubmitter run phase)) :
    next = some (run, phase) ∧ sent = [] := by
  have hput : ∀ m sender, s'.pool ≠ s.pool.put m sender := by
    intro m sender h'
    have hmailbox := congrArg (fun p => p.mailbox.length) (hpool.symm.trans h')
    simp [Pool.put, Pool.block] at hmailbox
  cases h with
  | submits h => exact absurd h (hput _ _)
  | greets h => exact absurd h (hput _ _)
  | @waits run' phase' h =>
    have hblocked := congrArg Pool.blocked (hpool.symm.trans h)
    have hsame := List.append_cancel_left hblocked
    cases hsame
    exact ⟨rfl, rfl⟩
  | leaves h => exact absurd h (hput _ _)

/-- The turns of the loop that starts with the local variables `run`. -/
inductive WorkflowLoopTurn (cfg : Config) (run : WorkflowRun) :
    Option (WorkflowRun × WorkflowPhase) → List WorkflowEvent → Prop where
  | submit {i : Nat} {ready : List Nat} {id : JobIdentifier} (hready : run.readyTasks = i :: ready)
      (hlimit : cfg.workflowNbConcurrentJobsLimit = 0 ∨
        run.currentNb < cfg.workflowNbConcurrentJobsLimit)
      (hid : id.workloadName = run.workflow.name ∧ id.jobName = toString run.taskIdCounter) :
      WorkflowLoopTurn cfg run
        (some ({ run with readyTasks := ready, taskIdCounter := run.taskIdCounter + 1 },
          .submitted id i)) [.submit id i]
  | wait (hsubmitted : run.submittedTasks ≠ []) :
      WorkflowLoopTurn cfg run (some (run, .waiting)) []
  | leave (hready : run.readyTasks = []) (hsubmitted : run.submittedTasks = []) :
      WorkflowLoopTurn cfg run none []

theorem workflowLoop_turn {cfg : Config} {run : WorkflowRun} (h : workflowLoop cfg t run = .ok s')
    (hpool : t.pool = s.pool) (hnext : WorkflowGoesOn s s' next sent) :
    s'.callbackBox = t.callbackBox ∧ WorkflowLoopTurn cfg run next sent := by
  have hput : ∀ m sender, (t.put m sender).pool = s.pool.put m sender := fun m sender =>
    congrArg (fun p : Pool IPMessage Thread => p.put m sender) hpool
  have hblock : ∀ th, (t.block th).pool = s.pool.block th := fun th =>
    congrArg (fun p : Pool IPMessage Thread => p.block th) hpool
  unfold workflowLoop at h
  dsimp only at h
  split at h
  · next i ready hready =>
    split at h
    · next hlimit =>
      split at h
      · cases h
      · next task htask =>
        simp only [bind_eq_ok, Prod.exists, Except.ok.injEq] at h
        obtain ⟨u, id, hsubmit, rfl⟩ := h
        simp only [submitWorkflowTaskAsJob, bind_eq_ok, Except.ok.injEq, Prod.mk.injEq] at hsubmit
        obtain ⟨id', hid, wl, -, profiles, -, -, -, -, -, jobs, -, rfl, rfl⟩ := hsubmit
        refine ⟨rfl, ?_⟩
        rcases goesOn_put hnext (hput _ _) with
          ⟨_, p, run', i', hm, hsender, rfl, rfl⟩ | ⟨_, _, _, _, _, hm, -⟩ | ⟨hsender, -⟩
        · cases hm
          cases hsender
          exact .submit hready hlimit (JobIdentifier.make_eq_ok hid)
        · cases hm
        · cases hsender
    · split at h
      · next hne =>
        cases h
        obtain ⟨rfl, rfl⟩ := goesOn_block hnext (hblock _)
        exact ⟨rfl, .wait hne⟩
      · cases h
  · next hready =>
    split at h
    · next hne =>
      cases h
      obtain ⟨rfl, rfl⟩ := goesOn_block hnext (hblock _)
      exact ⟨rfl, .wait hne⟩
    · next hempty =>
      cases h
      refine ⟨rfl, ?_⟩
      rcases goesOn_put hnext (hput _ _) with
        ⟨_, _, _, _, hm, -⟩ | ⟨_, _, _, _, _, hm, -⟩ | ⟨-, rfl, rfl⟩
      · cases hm
      · cases hm
      · exact .leave hready (by simpa using hempty)

end turns

/-! ### What the submitter knows -/

theorem mem_submissions {events : List WorkflowEvent} {id : JobIdentifier} {i : Nat} :
    (id, i) ∈ submissions events ↔ .submit id i ∈ events := by
  unfold submissions
  rw [List.mem_filterMap]
  constructor
  · rintro ⟨e, he, hsome⟩
    cases e with
    | submit id' i' =>
      cases hsome
      exact he
    | complete id' => cases hsome
  · intro h
    exact ⟨_, h, rfl⟩

theorem mem_completions {events : List WorkflowEvent} {id : JobIdentifier} :
    id ∈ completions events ↔ .complete id ∈ events := by
  unfold completions
  rw [List.mem_filterMap]
  constructor
  · rintro ⟨e, he, hsome⟩
    cases e with
    | submit id' i' => cases hsome
    | complete id' =>
      cases hsome
      exact he
  · intro h
    exact ⟨_, h, rfl⟩

@[simp] theorem submissions_append (as bs : List WorkflowEvent) :
    submissions (as ++ bs) = submissions as ++ submissions bs :=
  List.filterMap_append

@[simp] theorem completions_append (as bs : List WorkflowEvent) :
    completions (as ++ bs) = completions as ++ completions bs :=
  List.filterMap_append

/-- The job of the task was submitted, and its callback was received. -/
def TaskDone (events : List WorkflowEvent) (received : List JobIdentifier) (i : Nat) : Prop :=
  ∃ e ∈ submissions events, e.2 = i ∧ e.1 ∈ received

instance (events : List WorkflowEvent) (received : List JobIdentifier) :
    DecidablePred (TaskDone events received) :=
  fun i => inferInstanceAs (Decidable (∃ e ∈ submissions events, e.2 = i ∧ e.1 ∈ received))

variable {cfg : Config} {d : WorkflowDescription} {events : List WorkflowEvent}
  {callbacks received : List JobIdentifier} {run : WorkflowRun}
  {pending : List (JobIdentifier × Nat)}

/-- What happened up to now, of which the callbacks for `received` have reached the submitter. -/
structure Recorded (cfg : Config) (d : WorkflowDescription) (events : List WorkflowEvent)
    (callbacks received : List JobIdentifier) : Prop where
  ids : ∀ (k : Nat) e, (submissions events)[k]? = some e →
    e.1.workloadName = d.name ∧ e.1.jobName = toString k
  tasks : ∀ e ∈ submissions events, e.2 < d.tasks.length
  tasks_nodup : ((submissions events).map Prod.snd).Nodup
  received_first : completions events = received ++ callbacks
  once : (completions events).Nodup
  known : ∀ id ∈ completions events, ∃ i, (id, i) ∈ submissions events
  order : ∀ before id i after, events = before ++ .submit id i :: after →
    ∀ p ∈ d.parents i, CompletedIn before p
  limited : cfg.workflowNbConcurrentJobsLimit ≠ 0 →
    ((submissions events).length : Int) ≤
      (completions events).length + cfg.workflowNbConcurrentJobsLimit

/-- The local variables of the submitter say what happened; `pending` is what it has submitted
since it last noted down what it submits. -/
structure Tracks (d : WorkflowDescription) (events : List WorkflowEvent)
    (received : List JobIdentifier) (run : WorkflowRun) (pending : List (JobIdentifier × Nat)) :
    Prop where
  workflow : run.workflow = d
  outstanding : run.submittedTasks ++ pending =
    (submissions events).filter fun e => e.1 ∉ received
  number : run.currentNb + pending.length + received.length = (submissions events).length
  counter : run.taskIdCounter = (submissions events).length
  counted : ∀ i < d.tasks.length, run.nbParentCompleted[i]? =
    some (doneParents d.parents (TaskDone events received) i)
  ready_nodup : (run.readyTasks ++ (submissions events).map Prod.snd).Nodup
  ready : ∀ i, i ∈ run.readyTasks ++ (submissions events).map Prod.snd ↔
    i < d.tasks.length ∧ ∀ p ∈ d.parents i, TaskDone events received p

theorem toString_injective : Function.Injective (toString : Nat → String) := by
  intro a b h
  have hdigits := congrArg (fun s => Nat.ofDigitChars 10 s.toList 0) h
  simpa [Nat.toString_eq_repr, Nat.toList_repr, Nat.ofDigitChars_toDigits] using hdigits

theorem Recorded.ids_inj (h : Recorded cfg d events callbacks received)
    {e e' : JobIdentifier × Nat} (he : e ∈ submissions events) (he' : e' ∈ submissions events)
    (hsame : e.1 = e'.1) : e = e' := by
  obtain ⟨k, hk, rfl⟩ := List.getElem_of_mem he
  obtain ⟨k', hk', rfl⟩ := List.getElem_of_mem he'
  have hname := (h.ids k _ (List.getElem?_eq_getElem hk)).2
  have hname' := (h.ids k' _ (List.getElem?_eq_getElem hk')).2
  rw [hsame, hname'] at hname
  have hindex := toString_injective hname
  subst hindex
  rfl

theorem recorded_complete (h : Recorded cfg d events callbacks received) {id : JobIdentifier}
    {i : Nat} (hsubmitted : .submit id i ∈ events) (honce : .complete id ∉ events) :
    Recorded cfg d (events ++ [.complete id]) (callbacks ++ [id]) received := by
  have hsame : submissions (events ++ [.complete id]) = submissions events := by
    rw [submissions_append]
    exact List.append_nil _
  have hmore : completions (events ++ [.complete id]) = completions events ++ [id] := by
    rw [completions_append]
    rfl
  constructor
  · rw [hsame]
    exact h.ids
  · rw [hsame]
    exact h.tasks
  · rw [hsame]
    exact h.tasks_nodup
  · rw [hmore, h.received_first, List.append_assoc]
  · rw [hmore]
    have hnew : id ∉ completions events := fun hid => honce (mem_completions.mp hid)
    exact (List.nodup_append.mpr ⟨h.once, List.nodup_singleton id, fun a ha b hb hab => by
      rw [List.mem_singleton.mp hb] at hab
      exact hnew (hab ▸ ha)⟩)
  · rw [hsame, hmore]
    intro other hother
    rcases List.mem_append.mp hother with hold | hlast
    · exact h.known other hold
    · rw [List.mem_singleton.mp hlast]
      exact ⟨i, mem_submissions.mpr hsubmitted⟩
  · intro before id' i' after hsplit
    rcases Splitting.cases_concat hsplit with ⟨after', hbefore⟩ | ⟨-, hlast⟩
    · exact h.order before id' i' after' hbefore
    · cases hlast
  · intro hlimit
    rw [hsame, hmore, List.length_append]
    have hbound := h.limited hlimit
    push_cast
    omega

theorem tracks_complete (h : Tracks d events received run pending) (id : JobIdentifier) :
    Tracks d (events ++ [.complete id]) received run pending := by
  have hsame : submissions (events ++ [.complete id]) = submissions events := by
    rw [submissions_append]
    exact List.append_nil _
  have hdone : TaskDone (events ++ [.complete id]) received = TaskDone events received := by
    funext i
    rw [TaskDone, hsame, TaskDone]
  constructor
  · exact h.workflow
  · rw [hsame]
    exact h.outstanding
  · rw [hsame]
    exact h.number
  · rw [hsame]
    exact h.counter
  · simp only [hdone]
    intro i hi
    rw [h.counted i hi]
  · rw [hsame]
    exact h.ready_nodup
  · rw [hsame, hdone]
    exact h.ready

/-- A task that is submitted has had its parents completed. -/
theorem Recorded.completedIn_of_done (h : Recorded cfg d events callbacks received) {p : Nat}
    (hdone : TaskDone events received p) : CompletedIn events p := by
  obtain ⟨⟨id, i⟩, he, rfl, hid⟩ := hdone
  refine ⟨id, mem_submissions.mp he, mem_completions.mp ?_⟩
  rw [h.received_first]
  exact List.mem_append_left _ hid

/-- The submitter submits the first of the tasks that are ready. -/
theorem recorded_submit (h : Recorded cfg d events callbacks received)
    (htracks : Tracks d events received run []) {i : Nat} {ready : List Nat} {id : JobIdentifier}
    (hready : run.readyTasks = i :: ready)
    (hlimit : cfg.workflowNbConcurrentJobsLimit = 0 ∨
      run.currentNb < cfg.workflowNbConcurrentJobsLimit)
    (hid : id.workloadName = run.workflow.name ∧ id.jobName = toString run.taskIdCounter) :
    Recorded cfg d (events ++ [.submit id i]) callbacks received := by
  have hmore : submissions (events ++ [.submit id i]) = submissions events ++ [(id, i)] := by
    rw [submissions_append]
    rfl
  have hsame : completions (events ++ [.submit id i]) = completions events := by
    rw [completions_append]
    exact List.append_nil _
  have hnodup := htracks.ready_nodup
  rw [hready] at hnodup
  have hi := (htracks.ready i).mp (by rw [hready]; simp)
  constructor
  · intro k e hk
    rw [hmore, List.getElem?_append] at hk
    split at hk
    · exact h.ids k e hk
    · next hlt =>
      have hzero : k - (submissions events).length = 0 := by
        have hlast := (List.getElem?_eq_some_iff.mp hk).1
        simpa using hlast
      rw [hzero] at hk
      cases hk
      have hk' : k = (submissions events).length := by omega
      rw [htracks.workflow, htracks.counter] at hid
      rw [hk']
      exact hid
  · intro e he
    rw [hmore] at he
    rcases List.mem_append.mp he with hold | hlast
    · exact h.tasks e hold
    · rw [List.mem_singleton.mp hlast]
      exact hi.1
  · rw [hmore, List.map_append]
    have hnot : i ∉ (submissions events).map Prod.snd := by
      intro hmem
      exact (List.nodup_append.mp hnodup).2.2 i (by simp) i hmem rfl
    refine List.nodup_append.mpr ⟨h.tasks_nodup, List.nodup_singleton _, ?_⟩
    intro a ha b hb hab
    have hbi : b = i := List.mem_singleton.mp hb
    exact hnot ((hab.trans hbi) ▸ ha)
  · rw [hsame]
    exact h.received_first
  · rw [hsame]
    exact h.once
  · intro other hother
    rw [hsame] at hother
    obtain ⟨j, hj⟩ := h.known other hother
    exact ⟨j, by rw [hmore]; exact List.mem_append_left _ hj⟩
  · intro before id' i' after hsplit p hp
    rcases Splitting.cases_concat hsplit with ⟨after', hbefore⟩ | ⟨hbefore, hlast⟩
    · exact h.order before id' i' after' hbefore p hp
    · cases hlast
      rw [hbefore]
      exact h.completedIn_of_done (hi.2 p hp)
  · intro hne
    rw [hmore, hsame, List.length_append]
    have hnumber := htracks.number
    have hlength := congrArg List.length h.received_first
    rw [List.length_append] at hlength
    have hroom := hlimit.resolve_left hne
    simp only [List.length_nil, List.length_singleton] at hnumber ⊢
    push_cast at hnumber ⊢
    omega

theorem tracks_submit (hrecorded : Recorded cfg d events callbacks received)
    (h : Tracks d events received run []) {i : Nat} {ready : List Nat} {id : JobIdentifier}
    (hready : run.readyTasks = i :: ready)
    (hid : id.workloadName = run.workflow.name ∧ id.jobName = toString run.taskIdCounter) :
    Tracks d (events ++ [.submit id i]) received
      { run with readyTasks := ready, taskIdCounter := run.taskIdCounter + 1 } [(id, i)] := by
  have hmore : submissions (events ++ [.submit id i]) = submissions events ++ [(id, i)] := by
    rw [submissions_append]
    rfl
  -- no job has this identifier yet
  have hnew : ∀ e ∈ submissions events, e.1 ≠ id := by
    rintro e he rfl
    obtain ⟨k, hk, rfl⟩ := List.getElem_of_mem he
    have hname := (hrecorded.ids k _ (List.getElem?_eq_getElem hk)).2
    rw [hid.2] at hname
    have hindex := toString_injective hname
    rw [h.counter] at hindex
    omega
  have hunreceived : id ∉ received := by
    intro hmem
    obtain ⟨j, hj⟩ := hrecorded.known id (by
      rw [hrecorded.received_first]
      exact List.mem_append_left _ hmem)
    exact hnew _ hj rfl
  have hdone : ∀ p, TaskDone (events ++ [.submit id i]) received p ↔ TaskDone events received p := by
    intro p
    unfold TaskDone
    rw [hmore]
    constructor
    · rintro ⟨e, he, rfl, hmem⟩
      rcases List.mem_append.mp he with hold | hlast
      · exact ⟨e, hold, rfl, hmem⟩
      · rw [List.mem_singleton.mp hlast] at hmem
        exact absurd hmem hunreceived
    · rintro ⟨e, he, rfl, hmem⟩
      exact ⟨e, List.mem_append_left _ he, rfl, hmem⟩
  have hperm : (ready ++ (submissions (events ++ [.submit id i])).map Prod.snd).Perm
      (run.readyTasks ++ (submissions events).map Prod.snd) := by
    rw [hmore, hready, List.map_append, ← List.append_assoc]
    exact List.perm_append_singleton i _
  constructor
  · exact h.workflow
  · rw [hmore, List.filter_append, ← h.outstanding, List.append_nil]
    simp [hunreceived]
  · have hnumber := h.number
    rw [hmore, List.length_append]
    simp only [List.length_nil, List.length_singleton] at hnumber ⊢
    push_cast at hnumber ⊢
    omega
  · rw [hmore, List.length_append, List.length_singleton, ← h.counter]
  · intro j hj
    refine (h.counted j hj).trans ?_
    unfold doneParents
    simp only [hdone]
  · exact hperm.nodup_iff.mpr h.ready_nodup
  · intro j
    rw [hperm.mem_iff, h.ready j]
    simp only [hdone]

/-- What holds between two turns. -/
def WorkflowSession.Good (cfg : Config) (d : WorkflowDescription) (w : WorkflowSession) : Prop :=
  ∃ received, Recorded cfg d w.events w.callbacks received ∧
    match w.turn with
    | some (run, .started) | some (run, .greeted) => w.events = [] ∧
        run = { workflow := d, nbParentCompleted := d.tasks.map fun _ => 0 }
    | some (run, .asleep _) => Tracks d w.events received run []
    | some (run, .submitted id i) => Tracks d w.events received run [(id, i)]
    | some (run, .waiting) => Tracks d w.events received run [] ∧ run.submittedTasks ≠ []
    | none => ∀ i < d.tasks.length, TaskDone w.events received i

/-- The loop, once the last submission or the last callback is noted down. -/
theorem good_of_loopTurn (hd : d.IsDag) (hrecorded : Recorded cfg d events callbacks received)
    (htracks : Tracks d events received run [])
    {next : Option (WorkflowRun × WorkflowPhase)} {sent : List WorkflowEvent}
    (h : WorkflowLoopTurn cfg run next sent) :
    WorkflowSession.Good cfg d
      { turn := next, callbacks := callbacks, events := events ++ sent } := by
  refine ⟨received, ?_⟩
  cases h with
  | submit hready hlimit hid =>
    exact ⟨recorded_submit hrecorded htracks hready hlimit hid,
      tracks_submit hrecorded htracks hready hid⟩
  | wait hsubmitted =>
    rw [List.append_nil]
    exact ⟨hrecorded, htracks, hsubmitted⟩
  | leave hready hsubmitted =>
    rw [List.append_nil]
    refine ⟨hrecorded, all_done hd.acyclic ?_ ?_⟩
    · intro i _ p hp
      exact WorkflowDescription.lt_of_mem_children ((hd.mutual_edges p i).mp hp)
    · intro i hi hparents
      have hmem := (htracks.ready i).mpr ⟨hi, hparents⟩
      rw [hready, List.nil_append] at hmem
      obtain ⟨e, he, rfl⟩ := List.mem_map.mp hmem
      refine ⟨e, he, rfl, ?_⟩
      by_contra hnot
      have hout : e ∈ (submissions events).filter fun e => e.1 ∉ received :=
        List.mem_filter.mpr ⟨he, by simpa using hnot⟩
      rw [← htracks.outstanding, hsubmitted] at hout
      cases hout

/-! ### Receiving a callback -/

theorem recorded_receive {id : JobIdentifier}
    (h : Recorded cfg d events (id :: callbacks) received) :
    Recorded cfg d events callbacks (received ++ [id]) :=
  { h with received_first := by rw [h.received_first, List.append_assoc]; rfl }

theorem taskDone_receive {id : JobIdentifier} {i : Nat} (hi : (id, i) ∈ submissions events)
    (honly : ∀ e ∈ submissions events, e.1 = id → e = (id, i)) (p : Nat) :
    TaskDone events (received ++ [id]) p ↔ p = i ∨ TaskDone events received p := by
  constructor
  · rintro ⟨e, he, rfl, hmem⟩
    rcases List.mem_append.mp hmem with hold | hlast
    · exact .inr ⟨e, he, rfl, hold⟩
    · rw [honly e he (List.mem_singleton.mp hlast)]
      exact .inl rfl
  · rintro (rfl | ⟨e, he, rfl, hmem⟩)
    · exact ⟨(id, p), hi, rfl, by simp⟩
    · exact ⟨e, he, rfl, List.mem_append_left _ hmem⟩

theorem lookup_outstanding {id : JobIdentifier}
    (hrecorded : Recorded cfg d events (id :: callbacks) received)
    (h : Tracks d events received run []) :
    ∃ i, run.submittedTasks.lookup id = some i ∧ (id, i) ∈ submissions events ∧
      id ∉ received := by
  have hid : id ∈ completions events := by
    rw [hrecorded.received_first]
    simp
  have hnodup := hrecorded.once
  rw [hrecorded.received_first] at hnodup
  have hunreceived : id ∉ received := fun hmem =>
    (List.nodup_append.mp hnodup).2.2 id hmem id (by simp) rfl
  have hmem : ∀ j, (id, j) ∈ run.submittedTasks ↔ (id, j) ∈ submissions events := by
    intro j
    rw [← List.append_nil run.submittedTasks, h.outstanding, List.mem_filter]
    simp [hunreceived]
  obtain ⟨j, hj⟩ := hrecorded.known id hid
  obtain ⟨i, hi⟩ := Option.isSome_iff_exists.mp
    (List.lookup_isSome_iff.mpr ⟨(id, j), (hmem j).mpr hj, beq_self_eq_true id⟩)
  refine ⟨i, hi, ?_, hunreceived⟩
  obtain ⟨before, after, hsplit, -⟩ := List.lookup_eq_some_iff.mp hi
  rw [← hmem, hsplit]
  simp

/-- The tasks that become ready when the job of `i` completes. -/
theorem mem_ready_iff (hd : d.IsDag) (h : Tracks d events received run [])
    {received' : List JobIdentifier} {i : Nat} {task : WorkflowTask}
    (htask : d.tasks[i]? = some task)
    (hdone : ∀ p, TaskDone events received' p ↔ p = i ∨ TaskDone events received p)
    (hi : ¬TaskDone events received i) {c : Nat} (hc : c ∈ task.children) :
    (task.children.foldl (fun counts i => counts.modify i (· + 1)) run.nbParentCompleted)[c]? =
        (d.tasks[c]?).map (fun t => t.parents.length) ↔
      ∀ p ∈ d.parents c, TaskDone events received' p := by
  have hchildren : d.children i = task.children := by
    rw [WorkflowDescription.children, htask]
    rfl
  have hedge : i ∈ d.parents c := (hd.mutual_edges i c).mpr (by rw [hchildren]; exact hc)
  have hlt := WorkflowDescription.lt_of_mem_parents hedge
  have hparents : (d.tasks[c]?).map (fun t => t.parents.length) = some (d.parents c).length := by
    rw [WorkflowDescription.parents, List.getElem?_eq_getElem hlt]
    rfl
  have hcount := doneParents_complete hdone hi (fun c => hd.mutual_edges i c) hd.parents_nodup c
  rw [hchildren] at hcount
  rw [getElem?_foldl_modify (hchildren ▸ hd.children_nodup i), h.counted c hlt, hparents,
    Option.map_some, ← hcount, Option.some.injEq]
  exact doneParents_eq_length

theorem tracks_receive (hd : d.IsDag) {id : JobIdentifier} {i : Nat} {task : WorkflowTask}
    (hrecorded : Recorded cfg d events (id :: callbacks) received)
    (h : Tracks d events received run []) (htask : d.tasks[i]? = some task)
    (hi : (id, i) ∈ submissions events) (hid : id ∉ received) :
    Tracks d events (received ++ [id])
      { run.complete task with
        currentNb := run.currentNb - 1
        submittedTasks := run.submittedTasks.filter fun e => e.1 ≠ id } [] := by
  have honly : ∀ e ∈ submissions events, e.1 = id → e = (id, i) := fun e he hsame =>
    hrecorded.ids_inj he hi hsame
  have hdone := @taskDone_receive events received id i hi honly
  have hundone : ¬TaskDone events received i := by
    rintro ⟨e, he, hsame, hmem⟩
    have hboth := List.inj_on_of_nodup_map hrecorded.tasks_nodup he hi hsame
    rw [hboth] at hmem
    exact hid hmem
  have hchildren : d.children i = task.children := by
    rw [WorkflowDescription.children, htask]
    rfl
  have hready : ∀ c, c ∈ task.children.filter (fun c =>
      (task.children.foldl (fun counts i => counts.modify i (· + 1)) run.nbParentCompleted)[c]? =
        (run.workflow.tasks[c]?).map fun t => t.parents.length) ↔
      c ∈ task.children ∧ ∀ p ∈ d.parents c, TaskDone events (received ++ [id]) p := by
    intro c
    rw [List.mem_filter, decide_eq_true_eq, h.workflow]
    exact and_congr_right fun hc => mem_ready_iff hd h htask hdone hundone hc
  have hperm : ∀ new : List Nat, (run.readyTasks ++ new ++ (submissions events).map Prod.snd).Perm
      (new ++ (run.readyTasks ++ (submissions events).map Prod.snd)) := by
    intro new
    rw [← List.append_assoc]
    exact List.perm_append_comm.append_right _
  -- none of them was ready before
  have hnew : ∀ c, c ∈ task.children → c ∉ run.readyTasks ++ (submissions events).map Prod.snd := by
    intro c hc hmem
    refine hundone (((h.ready c).mp hmem).2 i ?_)
    rw [hd.mutual_edges, hchildren]
    exact hc
  constructor
  · exact h.workflow
  · have hout := h.outstanding
    rw [List.append_nil] at hout ⊢
    dsimp only
    rw [hout, List.filter_filter]
    refine List.filter_congr fun e _ => ?_
    simp [and_comm]
  · have hnumber := h.number
    simp only [List.length_nil, List.length_append, List.length_singleton] at hnumber ⊢
    push_cast at hnumber ⊢
    omega
  · exact h.counter
  · intro c hc
    dsimp only [WorkflowRun.complete]
    rw [getElem?_foldl_modify (hchildren ▸ hd.children_nodup i), h.counted c hc,
      doneParents_complete hdone hundone (fun c => hd.mutual_edges i c) hd.parents_nodup c,
      hchildren, Option.map_some]
  · refine (hperm _).nodup_iff.mpr (List.nodup_append.mpr ⟨?_, h.ready_nodup, ?_⟩)
    · exact (hchildren ▸ hd.children_nodup i).filter _
    · rintro c hc _ hold rfl
      exact hnew c ((hready c).mp hc).1 hold
  · intro c
    refine (hperm _).mem_iff.trans ?_
    rw [List.mem_append, hready c, h.ready c]
    constructor
    · rintro (⟨hc, hparents⟩ | ⟨hlt, hparents⟩)
      · refine ⟨?_, hparents⟩
        rw [← hchildren, ← hd.mutual_edges] at hc
        exact WorkflowDescription.lt_of_mem_parents hc
      · exact ⟨hlt, fun p hp => (hdone p).mpr (.inr (hparents p hp))⟩
    · rintro ⟨hlt, hparents⟩
      by_cases hc : c ∈ task.children
      · exact .inl ⟨hc, hparents⟩
      · refine .inr ⟨hlt, fun p hp => ((hdone p).mp (hparents p hp)).resolve_left ?_⟩
        rintro rfl
        rw [hd.mutual_edges, hchildren] at hp
        exact hc hp

theorem tracks_noted {id : JobIdentifier} {i : Nat}
    (h : Tracks d events received run [(id, i)]) :
    Tracks d events received
      { run with
        submittedTasks := run.submittedTasks ++ [(id, i)]
        currentNb := run.currentNb + 1 } [] where
  workflow := h.workflow
  outstanding := by
    rw [List.append_nil]
    exact h.outstanding
  number := by
    have hnumber := h.number
    simp only [List.length_nil, List.length_singleton] at hnumber ⊢
    push_cast at hnumber ⊢
    omega
  counter := h.counter
  counted := h.counted
  ready_nodup := h.ready_nodup
  ready := h.ready

theorem recorded_start (hlimit : 0 ≤ cfg.workflowNbConcurrentJobsLimit) :
    Recorded cfg d [] [] [] where
  ids := fun k e he => by simp [submissions] at he
  tasks := fun e he => by simp [submissions] at he
  tasks_nodup := List.nodup_nil
  received_first := rfl
  once := List.nodup_nil
  known := fun id hid => by simp [completions] at hid
  order := fun before id i after h => by simp at h
  limited := fun _ => by simpa [submissions, completions] using hlimit

/-- The tasks without parents are ready when the loop starts. -/
theorem tracks_sources :
    Tracks d [] []
      { workflow := d
        nbParentCompleted := d.tasks.map fun _ => 0
        readyTasks := (List.range d.tasks.length).filter fun i =>
          (d.tasks[i]?).any fun t => t.parents = [] } [] where
  workflow := rfl
  outstanding := rfl
  number := rfl
  counter := rfl
  counted := by
    intro i hi
    have hnone : doneParents d.parents (TaskDone [] []) i = 0 := by
      unfold doneParents
      refine List.countP_eq_zero.mpr ?_
      intro p _
      simp [TaskDone, submissions]
    rw [hnone, List.getElem?_map, List.getElem?_eq_getElem hi]
    rfl
  ready_nodup := by
    rw [submissions, List.filterMap_nil, List.map_nil, List.append_nil]
    exact List.nodup_range.filter _
  ready := by
    intro i
    rw [submissions, List.filterMap_nil, List.map_nil, List.append_nil, List.mem_filter,
      List.mem_range]
    refine and_congr_right fun hi => ?_
    have hnone : ∀ p, ¬TaskDone [] [] p := fun p => by simp [TaskDone, submissions]
    rw [WorkflowDescription.parents, List.getElem?_eq_getElem hi]
    simp only [Option.any_some, decide_eq_true_eq, Option.elim_some, hnone, imp_false]
    exact List.eq_nil_iff_forall_not_mem

variable {w w' : WorkflowSession}

theorem good_start (hlimit : 0 ≤ cfg.workflowNbConcurrentJobsLimit) :
    (WorkflowSession.start d).Good cfg d :=
  ⟨[], recorded_start hlimit, rfl, rfl⟩

theorem good_complete (h : w.Good cfg d) {id : JobIdentifier} {i : Nat}
    (hsubmitted : .submit id i ∈ w.events) (honce : .complete id ∉ w.events) :
    WorkflowSession.Good cfg d
      { w with callbacks := w.callbacks ++ [id], events := w.events ++ [.complete id] } := by
  obtain ⟨received, hrecorded, hturn⟩ := h
  refine ⟨received, recorded_complete hrecorded hsubmitted honce, ?_⟩
  obtain ⟨turn, callbacks, events⟩ := w
  dsimp only at hturn hsubmitted ⊢
  rcases turn with _ | ⟨run, phase⟩
  · intro j hj
    obtain ⟨e, he, hsame, hmem⟩ := hturn j hj
    exact ⟨e, by rw [submissions_append]; exact List.mem_append_left _ he, hsame, hmem⟩
  · cases phase with
    | started =>
      rw [hturn.1] at hsubmitted
      cases hsubmitted
    | greeted =>
      rw [hturn.1] at hsubmitted
      cases hsubmitted
    | asleep date => exact tracks_complete hturn id
    | submitted id' i' => exact tracks_complete hturn id
    | waiting => exact ⟨tracks_complete hturn.1 id, hturn.2⟩

theorem good_turn (hd : d.IsDag) (h : w.Good cfg d) {phase : WorkflowPhase} {s s' : Sim}
    {next : Option (WorkflowRun × WorkflowPhase)} {sent : List WorkflowEvent}
    (hturn : w.turn = some (run, phase))
    (hbox : s.callbackBox (run.workflow.name ++ "_submitter") = w.callbacks)
    (hrun : workflowSubmitterProcess cfg s run phase = .ok s')
    (hnext : WorkflowGoesOn s s' next sent) :
    WorkflowSession.Good cfg d
      { turn := next
        callbacks := s'.callbackBox (run.workflow.name ++ "_submitter")
        events := w.events ++ sent } := by
  obtain ⟨received, hrecorded, hphase⟩ := h
  rw [hturn] at hphase
  cases phase with
  | started =>
    obtain ⟨hevents, rfl⟩ := hphase
    cases hrun
    rcases goesOn_put hnext rfl with
      ⟨_, _, _, _, hm, -⟩ | ⟨_, _, _, _, _, -, hsender, rfl, rfl⟩ | ⟨hsender, -⟩
    · cases hm
    · cases hsender
      refine ⟨received, ?_, ?_, rfl⟩
      · rw [List.append_nil]
        exact hbox ▸ hrecorded
      · rw [hevents, List.append_nil]
    · cases hsender
  | greeted =>
    obtain ⟨hevents, rfl⟩ := hphase
    cases hrun
    obtain ⟨rfl, rfl⟩ := goesOn_block hnext rfl
    have hempty := hrecorded.received_first
    rw [hevents] at hempty
    obtain ⟨rfl, hnone⟩ := List.append_eq_nil_iff.mp hempty.symm
    refine ⟨[], ?_, ?_⟩
    · rw [List.append_nil]
      exact hbox ▸ hrecorded
    · rw [hevents, List.append_nil]
      exact tracks_sources
  | asleep date =>
    obtain ⟨hsame, hloop⟩ := workflowLoop_turn hrun rfl hnext
    rw [hsame, hbox]
    exact good_of_loopTurn hd hrecorded hphase hloop
  | submitted id i =>
    obtain ⟨hsame, hloop⟩ := workflowLoop_turn hrun rfl hnext
    rw [hsame, hbox]
    exact good_of_loopTurn hd hrecorded (tracks_noted hphase) hloop
  | waiting =>
    obtain ⟨htracks, -⟩ := hphase
    simp only [workflowSubmitterProcess, hbox] at hrun
    split at hrun
    · cases hrun
    · next id callbacks hcallbacks =>
      rw [hcallbacks] at hrecorded
      obtain ⟨i, hlookup, hi, hid⟩ := lookup_outstanding hrecorded htracks
      simp only [hlookup] at hrun
      split at hrun
      · cases hrun
      · next task htask =>
        rw [htracks.workflow] at htask
        have hafter := tracks_receive hd hrecorded htracks htask hi hid
        obtain ⟨hsame, hloop⟩ := workflowLoop_turn (s := s) hrun rfl hnext
        have hleft : s'.callbackBox (run.workflow.name ++ "_submitter") = callbacks := by
          rw [hsame]
          exact Function.update_self _ _ _
        rw [hleft]
        exact good_of_loopTurn hd (recorded_receive hrecorded) hafter hloop

theorem good_of_steps (hd : d.IsDag) (hlimit : 0 ≤ cfg.workflowNbConcurrentJobsLimit)
    (h : ReflTransGen (WorkflowSession.Step cfg) (.start d) w) : w.Good cfg d := by
  induction h with
  | refl => exact good_start hlimit
  | tail _ hstep ih =>
    cases hstep with
    | complete hsubmitted honce => exact good_complete ih hsubmitted honce
    | turn hturn hbox hrun hnext => exact good_turn hd ih hturn hbox hrun hnext

/-! ### Turns succeed -/

theorem Recorded.ids_nodup (h : Recorded cfg d events callbacks received) :
    ((submissions events).map Prod.fst).Nodup := by
  have hnames : (submissions events).map (fun e => e.1.jobName) =
      (List.range (submissions events).length).map toString := by
    refine List.ext_getElem (by simp) ?_
    intro k hk _
    rw [List.length_map] at hk
    rw [List.getElem_map, List.getElem_map, List.getElem_range]
    exact (h.ids k _ (List.getElem?_eq_getElem hk)).2
  refine List.Nodup.of_map JobIdentifier.jobName ?_
  rw [List.map_map]
  have hnodup := (List.nodup_map_iff toString_injective).mpr
    (List.nodup_range (n := (submissions events).length))
  rw [← hnames] at hnodup
  exact hnodup

/-- The number of submitted tasks is positive only while some are outstanding. -/
theorem Tracks.currentNb_le (h : Tracks d events received run [])
    (hrecorded : Recorded cfg d events callbacks received) (hnone : run.submittedTasks = []) :
    run.currentNb ≤ 0 := by
  have hout := h.outstanding
  rw [hnone, List.append_nil] at hout
  have hreceived : (submissions events).map Prod.fst ⊆ received := by
    intro id hid
    obtain ⟨e, he, rfl⟩ := List.mem_map.mp hid
    simpa using List.filter_eq_nil_iff.mp hout.symm e he
  have hlength := hrecorded.ids_nodup.length_le_of_subset hreceived
  rw [List.length_map] at hlength
  have hnumber := h.number
  simp only [List.length_nil] at hnumber
  omega

theorem workflowLoop_succeeds (hlimit : 0 ≤ cfg.workflowNbConcurrentJobsLimit)
    (hrecorded : Recorded cfg d events callbacks received)
    (h : Tracks d events received run []) {s t : Sim} (hpool : t.pool = s.pool)
    (hregister : ∀ task ∈ d.tasks, ∃ result, submitWorkflowTaskAsJob t run task = .ok result) :
    ∃ s' next sent, workflowLoop cfg t run = .ok s' ∧ WorkflowGoesOn s s' next sent := by
  have hblock : ∀ th, (t.block th).pool = s.pool.block th := fun th =>
    congrArg (fun p : Pool IPMessage Thread => p.block th) hpool
  unfold workflowLoop
  dsimp only
  split
  · next i ready hready =>
    have hi := ((h.ready i).mp (by rw [hready]; simp)).1
    split
    · have htask : run.workflow.tasks[i]? = some d.tasks[i] := by
        rw [h.workflow]
        exact List.getElem?_eq_getElem hi
      obtain ⟨⟨u, id⟩, hsubmit⟩ := hregister d.tasks[i] (List.getElem_mem hi)
      have hsame : u.pool = s.pool := by
        simp only [submitWorkflowTaskAsJob, bind_eq_ok, Except.ok.injEq, Prod.mk.injEq] at hsubmit
        obtain ⟨_, -, _, -, _, -, -, -, -, -, _, -, rfl, -⟩ := hsubmit
        exact hpool
      simp only [htask, hsubmit]
      exact ⟨_, _, _, rfl, .submits (congrArg (fun p : Pool IPMessage Thread => p.put _ _) hsame)⟩
    · next hfull =>
      split
      · exact ⟨_, _, _, rfl, .waits (hblock _)⟩
      · next hnone =>
        have hempty := h.currentNb_le hrecorded (by simpa using hnone)
        omega
  · split
    · exact ⟨_, _, _, rfl, .waits (hblock _)⟩
    · exact ⟨_, _, _, rfl,
        .leaves (congrArg (fun p : Pool IPMessage Thread => p.put _ _) hpool)⟩

theorem turn_succeeds (hd : d.IsDag) (hlimit : 0 ≤ cfg.workflowNbConcurrentJobsLimit)
    (h : w.Good cfg d) {phase : WorkflowPhase} (hturn : w.turn = some (run, phase))
    (hwaits : phase = .waiting → w.callbacks ≠ []) {s : Sim}
    (hbox : s.callbackBox (run.workflow.name ++ "_submitter") = w.callbacks)
    (hregister : CanRegister s run) :
    ∃ s' next sent, workflowSubmitterProcess cfg s run phase = .ok s' ∧
      WorkflowGoesOn s s' next sent := by
  obtain ⟨received, hrecorded, hphase⟩ := h
  rw [hturn] at hphase
  cases phase with
  | started => exact ⟨_, _, _, rfl, .greets rfl⟩
  | greeted => exact ⟨_, _, _, rfl, .waits rfl⟩
  | asleep date =>
    refine workflowLoop_succeeds hlimit hrecorded hphase rfl ?_
    intro task htask
    exact hregister task (hphase.workflow ▸ htask) s run rfl rfl rfl
  | submitted id i =>
    refine workflowLoop_succeeds hlimit hrecorded (tracks_noted hphase) rfl ?_
    intro task htask
    exact hregister task (hphase.workflow ▸ htask) s _ rfl rfl rfl
  | waiting =>
    obtain ⟨htracks, -⟩ := hphase
    obtain ⟨id, callbacks, hcallbacks⟩ := List.exists_cons_of_ne_nil (hwaits rfl)
    rw [hcallbacks] at hrecorded
    obtain ⟨i, hlookup, hi, hid⟩ := lookup_outstanding hrecorded htracks
    have hlt : i < d.tasks.length := hrecorded.tasks _ hi
    have htask : run.workflow.tasks[i]? = some d.tasks[i] := by
      rw [htracks.workflow]
      exact List.getElem?_eq_getElem hlt
    simp only [workflowSubmitterProcess, hbox, hcallbacks, hlookup, htask]
    refine workflowLoop_succeeds hlimit (recorded_receive hrecorded)
      (tracks_receive hd hrecorded htracks (by rw [← htask, htracks.workflow]) hi hid) rfl ?_
    intro task hmem
    exact hregister task (htracks.workflow ▸ hmem) _ _ rfl rfl rfl

/-- A task whose job is outstanding. -/
theorem Recorded.outstanding (h : Recorded cfg d events callbacks received)
    {e : JobIdentifier × Nat} (he : e ∈ submissions events) (hout : e.1 ∉ received) :
    ∃ i < d.tasks.length, ∀ id, .submit id i ∈ events →
      id ∈ callbacks ∨ .complete id ∉ events := by
  refine ⟨e.2, h.tasks e he, ?_⟩
  intro id hid
  have hsame := List.inj_on_of_nodup_map h.tasks_nodup (mem_submissions.mpr hid) he rfl
  by_cases hcomplete : .complete id ∈ events
  · have hmem := mem_completions.mpr hcomplete
    rw [h.received_first] at hmem
    rcases List.mem_append.mp hmem with hreceived | hcallback
    · rw [← hsame] at hout
      exact absurd hreceived hout
    · exact .inl hcallback
  · exact .inr hcomplete

/-- Every task of a workflow is submitted once, when the jobs of its parents have completed, and
within the limit; the submitter leaves its loop when all the jobs have completed and not before;
and until then it never waits for nothing, and never fails. -/
theorem workflow_tasks_submitted_once (hd : d.IsDag)
    (hlimit : 0 ≤ cfg.workflowNbConcurrentJobsLimit)
    (h : ReflTransGen (WorkflowSession.Step cfg) (.start d) w) :
    ((submissions w.events).map Prod.snd).Nodup ∧
      (∀ before id i after, w.events = before ++ .submit id i :: after →
        ∀ p ∈ d.parents i, CompletedIn before p) ∧
      (cfg.workflowNbConcurrentJobsLimit ≠ 0 →
        ((submissions w.events).length : Int) ≤
          (completions w.events).length + cfg.workflowNbConcurrentJobsLimit) ∧
      (w.turn = none → ∀ i < d.tasks.length, CompletedIn w.events i) ∧
      (∀ run phase, w.turn = some (run, phase) → phase.inLoop → ∃ i < d.tasks.length,
        ∀ id, .submit id i ∈ w.events → id ∈ w.callbacks ∨ .complete id ∉ w.events) ∧
      (∀ run, w.turn = some (run, .waiting) → w.callbacks = [] →
        ∃ id i, .submit id i ∈ w.events ∧ .complete id ∉ w.events) ∧
      ∀ run phase, w.turn = some (run, phase) → (phase = .waiting → w.callbacks ≠ []) →
        ∀ s, s.callbackBox (run.workflow.name ++ "_submitter") = w.callbacks →
          CanRegister s run → ∃ s' next sent,
            workflowSubmitterProcess cfg s run phase = .ok s' ∧ WorkflowGoesOn s s' next sent := by
  have hgood := good_of_steps hd hlimit h
  obtain ⟨received, hrecorded, hphase⟩ := hgood
  refine ⟨hrecorded.tasks_nodup, hrecorded.order, hrecorded.limited, ?_, ?_, ?_, ?_⟩
  · intro hturn i hi
    rw [hturn] at hphase
    exact hrecorded.completedIn_of_done (hphase i hi)
  · intro run phase hturn hloop
    rw [hturn] at hphase
    cases phase with
    | submitted id i =>
      have hmem : (id, i) ∈ (submissions w.events).filter fun e => e.1 ∉ received := by
        rw [← hphase.outstanding]
        simp
      obtain ⟨he, hout⟩ := List.mem_filter.mp hmem
      exact hrecorded.outstanding he (by simpa using hout)
    | waiting =>
      obtain ⟨htracks, hne⟩ := hphase
      obtain ⟨e, rest, he⟩ := List.exists_cons_of_ne_nil hne
      have hmem : e ∈ (submissions w.events).filter fun e => e.1 ∉ received := by
        rw [← htracks.outstanding, he]
        simp
      obtain ⟨he, hout⟩ := List.mem_filter.mp hmem
      exact hrecorded.outstanding he (by simpa using hout)
    | _ => exact absurd hloop id
  · intro run hturn hnone
    rw [hturn] at hphase
    obtain ⟨htracks, hne⟩ := hphase
    obtain ⟨e, rest, he⟩ := List.exists_cons_of_ne_nil hne
    have hmem : e ∈ (submissions w.events).filter fun e => e.1 ∉ received := by
      rw [← htracks.outstanding, he]
      simp
    obtain ⟨he, hout⟩ := List.mem_filter.mp hmem
    refine ⟨e.1, e.2, mem_submissions.mp he, ?_⟩
    intro hcomplete
    have hreceived := mem_completions.mpr hcomplete
    rw [hrecorded.received_first, hnone, List.append_nil] at hreceived
    simp [hreceived] at hout
  · intro run phase hturn hwaits s hbox hregister
    exact turn_succeeds hd hlimit ⟨received, hrecorded, hphase⟩ hturn hwaits hbox hregister

/-- Two tasks, one after the other. -/
def chain : WorkflowDescription where
  name := "chain"
  tasks := [{ id := "a", children := [1] }, { id := "b", parents := [0] }]

/-- A workflow on a single host, one task at a time. -/
def chainConfig : Config where
  workflowNbConcurrentJobsLimit := 1
  workloadDescriptions := []
  workflowDescriptions := [chain]
  hosts := loneHost.hosts
  workloads := ⟨AList.singleton "chain"
    { name := "chain", isStatic := true, jobs := .empty, profiles := .empty }⟩
  workloads_loaded := rfl
  machines := loneHost.machines
  machines_created := loneHost.machines_created

def jobA : JobIdentifier := { workloadName := "chain", jobName := "0", lexically_valid := by decide }

theorem chain_parents (i : Nat) : chain.parents i = if i = 1 then [0] else [] := by
  rcases i with _ | _ | i <;> rfl

theorem chain_children (i : Nat) : chain.children i = if i = 0 then [1] else [] := by
  rcases i with _ | _ | i <;> rfl

theorem chain_is_dag : chain.IsDag where
  mutual_edges := by
    intro p c
    rw [chain_parents, chain_children]
    by_cases hp : p = 0 <;> by_cases hc : c = 1 <;> simp [hp, hc]
  parents_nodup := by
    intro c
    rw [chain_parents]
    split <;> simp
  children_nodup := by
    intro p
    rw [chain_children]
    split <;> simp
  acyclic := by
    have hedge : ∀ p c, p ∈ chain.parents c → p < c := by
      intro p c h
      rw [chain_parents] at h
      split at h
      · have hp := List.mem_singleton.mp h
        omega
      · cases h
    have hlt : ∀ p c, TransGen (fun p c => p ∈ chain.parents c) p c → p < c := by
      intro p c h
      induction h with
      | single h => exact hedge _ _ h
      | tail _ h ih => exact ih.trans (hedge _ _ h)
    intro i hi
    exact absurd (hlt i i hi) (lt_irrefl i)

/-- The run of `chain` in its loop, when `done` of its two tasks are submitted. -/
def chainRun (ready : List Nat) (counts : List Nat) (counter : Nat) : WorkflowRun where
  workflow := chain
  nbParentCompleted := counts
  readyTasks := ready
  taskIdCounter := counter

theorem chain_runs : ∃ (w : WorkflowSession) (run : WorkflowRun),
    ReflTransGen (WorkflowSession.Step chainConfig) (.start chain) w ∧
      w.events = [.submit jobA 0, .complete jobA] ∧ w.turn = some (run, .waiting) := by
  have hgreets : WorkflowSession.Step chainConfig (.start chain) _ :=
    .turn (s := start chainConfig) rfl rfl rfl (.greets rfl)
  have hsleeps := (ReflTransGen.single hgreets).tail
    (.turn (s := start chainConfig) rfl rfl rfl (.waits rfl))
  obtain ⟨s, hrun, hs⟩ := exists_of_succeedsWith
    (x := workflowSubmitterProcess chainConfig (start chainConfig) (chainRun [0] [0, 0] 0)
      (.asleep 0))
    (P := fun s => decide (s.pool = (start chainConfig).pool.put
        (.jobSubmitted "chain_submitter" [⟨"chain", jobA⟩])
        (some (.workflowSubmitter (chainRun [] [0, 0] 1) (.submitted jobA 0)))) &&
      s.callbackBox "chain_submitter" = [])
    (by decide +kernel)
  simp only [Bool.and_eq_true, decide_eq_true_eq] at hs
  have hsubmits := hsleeps.tail
    (.turn (s := start chainConfig) rfl rfl hrun (.submits (p := ⟨"chain", jobA⟩) hs.1))
  have hwaits := hsubmits.tail (.turn (s := start chainConfig) rfl hs.2.symm rfl (.waits rfl))
  have hsubmitted : WorkflowEvent.submit jobA 0 ∈ [WorkflowEvent.submit jobA 0] := by decide
  have honce : WorkflowEvent.complete jobA ∉ [WorkflowEvent.submit jobA 0] := by decide
  have hcompletes := hwaits.tail (.complete hsubmitted honce)
  exact ⟨_, _, hcompletes, rfl, rfl⟩

/-- The first of the two tasks has completed; its callback is on its way. -/
theorem chain_tasks_submitted_once : ∃ w : WorkflowSession,
    ReflTransGen (WorkflowSession.Step chainConfig) (.start chain) w ∧
      w.events = [.submit jobA 0, .complete jobA] ∧
      ∃ i < chain.tasks.length, ∀ id, .submit id i ∈ w.events →
        id ∈ w.callbacks ∨ .complete id ∉ w.events := by
  obtain ⟨w, run, hruns, hevents, hturn⟩ := chain_runs
  have hfacts := workflow_tasks_submitted_once chain_is_dag (by decide) hruns
  exact ⟨w, hruns, hevents, hfacts.2.2.2.2.1 run .waiting hturn trivial⟩

end Batsim
