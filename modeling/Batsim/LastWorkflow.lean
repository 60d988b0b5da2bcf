import Batsim.Flows

/-!
The end of the simulation with its last workflow: which submissions are ignored.
-/

namespace Batsim

open Checked Workloads Sim StepSystem

/-! ### Goodbyes -/

/-- The name under which a workflow submitter is known to the server. -/
def WorkflowDescription.submitter (d : WorkflowDescription) : String := d.name ++ "_submitter"

def Thread.workflowSubmitter? : Thread → Option String
  | workflowSubmitter run _ => some run.workflow.submitter
  | _ => none

/-- The workflow submitter that says goodbye. -/
def IPMessage.workflowBye? : IPMessage → Option String
  | submitterBye name .jobSubmitter true => some name
  | _ => none

/-- A workflow submitter lives until it says goodbye. -/
theorem workflowSubmitter_flow : Flow Thread.workflowSubmitter? IPMessage.workflowBye? := by
  refine .of_others ?_ ?_ ?_ (fun _ => rfl) (fun _ _ => rfl) ?_ ?_
  · intro t ht
    cases t <;> first | rfl | cases ht
  · intro t ht
    cases t <;> first | rfl | cases ht
  · intro m hm
    cases m <;> first | rfl | cases hm
  · intro t m sender hreader hactor hputs
    cases hputs with
    | firstReply | reply => cases hreader
    | completed _ a ha | fromJob _ a _ ha =>
      rw [hactor] at ha
      cases ha
    | waited _ hw => cases t <;> first | rfl | cases hw
    | workflowJob run run' _ _ _ _ hsame =>
      simp [Thread.workflowSubmitter?, hsame, IPMessage.workflowBye?]
    | _ => rfl
  · intro t u hreader hactor hwaits
    cases hwaits with
    | reply _ _ _ hor => obtain ⟨_, rfl⟩ | ⟨_, rfl⟩ := hor <;> cases hreader
    | leaf _ a _ ha =>
      rw [hactor] at ha
      cases ha
    | workflowStart run run' _ hsame | workflow run run' _ _ hsame =>
      simp [Thread.workflowSubmitter?, hsame]
    | _ => rfl

/-- The names of the workflows are distinct: each is the name of its workload. -/
theorem loadWorkloads_workflow_names {workloads : List WorkloadDescription}
    {workflows : List WorkflowDescription} {ws : Workloads}
    (h : loadWorkloadsAndWorkflows workloads workflows = .ok ws) :
    (workflows.map WorkflowDescription.name).Nodup := by
  simp only [loadWorkloadsAndWorkflows, bind_eq_ok] at h
  obtain ⟨_, -, hrun⟩ := h
  let I : List WorkflowDescription → Workloads → Prop := fun done ws =>
    (done.map WorkflowDescription.name).Nodup ∧ ∀ d ∈ done, ws.exists? d.name = true
  suffices hloop : I workflows ws from hloop.1
  refine forEach_invariant I ⟨by simp, by simp⟩ ?_ hrun
  rintro done d rest ws ws' - ⟨hnodup, hthere⟩ hins
  simp only [insertWorkload, bind_eq_ok, xbtAssert_eq_ok, Except.ok.injEq] at hins
  obtain ⟨_, hnew, _, -, rfl⟩ := hins
  have hfresh : d.name ∉ done.map WorkflowDescription.name := by
    intro hmem
    obtain ⟨e, he, heq⟩ := List.mem_map.mp hmem
    have hexists := hthere e he
    rw [heq, hnew] at hexists
    cases hexists
  refine ⟨?_, fun e he => ?_⟩
  · rw [List.map_append, List.map_singleton]
    exact List.nodup_append.mpr ⟨hnodup, by simp, fun a ha b hb heq => hfresh (by
      rwa [← List.mem_singleton.mp hb, ← heq])⟩
  · simp only [exists?, lookup_set]
    rcases List.mem_append.mp he with he | he
    · split
      · rfl
      · exact hthere e he
    · rw [List.mem_singleton.mp he, if_pos rfl]
      rfl

/-! ### The counter -/

/-- The number of workflow submitters that said goodbye, for one message. -/
theorem handleMessage_nbWorkflowSubmittersFinished {cfg : Config} {s t : Sim} {m : IPMessage}
    (h : handleMessage cfg s m = .ok t) :
    t.data.nbWorkflowSubmittersFinished =
      s.data.nbWorkflowSubmittersFinished + m.workflowBye?.toList.length := by
  cases hm : m.touchesSubmitters with
  | false =>
    obtain ⟨_, hhandled⟩ := handleMessage_effect h
    have hnone : m.workflowBye? = none := by cases m <;> first | rfl | cases hm
    rw [(hhandled.submitters hm).nbWorkflowSubmittersFinished, hnone]
    simp
  | true =>
    cases m with
    | submitterHello name callback type =>
      obtain ⟨-, -, -, -, -, hsame, -⟩ := serverOnSubmitterHello_effect h
      rw [hsame]
      simp [IPMessage.workflowBye?]
    | submitterBye name type isWorkflow =>
      obtain ⟨-, -, -, -, hcount, -⟩ := serverOnSubmitterBye_effect h
      rw [hcount]
      cases type <;> cases isWorkflow <;> simp [IPMessage.workflowBye?]
    | _ => cases hm

section runs

variable {cfg : Config} {guard : Sim → Choice → Prop} {s : Sim}

/-- The goodbyes of workflow submitters that the server has handled. -/
def Sim.workflowByes (s : Sim) : List String :=
  s.history.handled.filterMap IPMessage.workflowBye?

theorem reaches_nbWorkflowSubmittersFinished (h : Reaches (batsim cfg) guard s) :
    s.data.nbWorkflowSubmittersFinished = s.workflowByes.length := by
  refine h.invariant (P := fun s => s.data.nbWorkflowSubmittersFinished = s.workflowByes.length)
    rfl ?_
  intro s s' c hr hs _ hstep
  have hend : ∀ {u u' : Sim}, endOfTurn cfg u = .ok u' →
      u.data.nbWorkflowSubmittersFinished = u.workflowByes.length →
      u'.data.nbWorkflowSubmittersFinished = u'.workflowByes.length := by
    intro u u' hrun hu
    obtain rfl | ⟨workloads, hflush⟩ | hfinish := endOfTurn_cases hrun
    · exact hu
    · rw [hflush.eq]
      exact hu
    · rw [hfinish.eq]
      exact hu
  cases step_kind hstep with
  | solve clock receive wakes rest order pool hcan hsolve hs' =>
    subst hs'
    exact hs
  | turn o m pool hnext hturn =>
    obtain ⟨t, ht, hor⟩ := turn_cases hturn
    have hcount := handleMessage_nbWorkflowSubmittersFinished ht
    obtain ⟨_, hhandled⟩ := handleMessage_effect ht
    have hsame : t.workflowByes = s.workflowByes :=
      congrArg (List.filterMap IPMessage.workflowBye?) hhandled.keeps.handled
    have hbefore : ({ s with pool := pool } : Sim).data.nbWorkflowSubmittersFinished =
      s.workflowByes.length := hs
    rw [hbefore] at hcount
    obtain ⟨hback, rfl⟩ | ⟨-, hrun⟩ := hor
    · obtain ⟨p, _, rfl, -⟩ := callsBack_eq_true.mp hback
      rw [hcount, hsame]
      simp [IPMessage.workflowBye?]
    · refine hend hrun ?_
      have hbye : (t.noteHandled m).workflowByes = t.workflowByes ++ m.workflowBye?.toList := by
        cases hm : m.workflowBye? <;> simp [workflowByes, noteHandled, hm]
      rw [hbye, hsame, List.length_append]
      exact_mod_cast hcount
  | callback o p mailbox pool hnext hrun =>
    obtain ⟨t, ht, hrun⟩ := serverCallback_cases hrun
    obtain ⟨hkeeps, -, -, hsubmitters, -⟩ := serverOnCallbackReceived_frame ht
    refine hend hrun ?_
    have hbye : (t.noteHandled (.jobCompleted p)).workflowByes = s.workflowByes := by
      have hhandled : t.history.handled = s.history.handled := hkeeps.handled
      simp [workflowByes, noteHandled, hhandled, IPMessage.workflowBye?]
    rw [hbye]
    exact hsubmitters.nbWorkflowSubmittersFinished.trans hs
  | start o pool hnext hrun =>
    rw [serverProcess_effect hrun]
    exact hs
  | actor o t pool ht hnext hrun =>
    have howned := reaches_owned hr
    obtain ⟨-, hkeeps⟩ := runThread_moves (s := { s with pool := pool }) howned ht hrun
    have hbyes : s'.workflowByes = s.workflowByes :=
      congrArg (List.filterMap IPMessage.workflowBye?) hkeeps.handled
    rw [hbyes, hkeeps.data]
    exact hs

/-- The workflow submitters that have not said goodbye, with those that have, are those of the
workflows. -/
theorem workflowByes_subperm (h : Reaches (batsim cfg) guard s) :
    ∃ active : List String,
      (active ++ s.workflowByes).Perm (cfg.workflowDescriptions.map WorkflowDescription.submitter) := by
  have htotal := workflowSubmitter_flow.total_eq (fun m t ht => by
    cases m <;> cases t <;> first | rfl | cases ht) h
  have hstart : (initialThreads cfg).filterMap Thread.workflowSubmitter? =
      cfg.workflowDescriptions.map WorkflowDescription.submitter := by
    simp [initialThreads, List.filterMap_map, Function.comp_def, Thread.workflowSubmitter?]
  rw [hstart, Flow.total, Pool.labels, Multiset.coe_add, Multiset.coe_add] at htotal
  exact ⟨_, Multiset.coe_eq_coe.mp htotal⟩

/-- The submitter of the workflow has said goodbye, and the server has handled it. -/
def Sim.SaidBye (s : Sim) (d : WorkflowDescription) : Prop :=
  .submitterBye d.submitter .jobSubmitter true ∈ s.history.handled

instance (s : Sim) (d : WorkflowDescription) : Decidable (s.SaidBye d) :=
  inferInstanceAs (Decidable (_ ∈ _))

theorem IPMessage.workflowBye?_eq_some {m : IPMessage} {name : String} :
    m.workflowBye? = some name ↔ m = .submitterBye name .jobSubmitter true := by
  constructor
  · intro h
    cases m with
    | submitterBye name' type isWorkflow =>
      cases type <;> cases isWorkflow <;> simp_all [workflowBye?]
    | _ => cases h
  · rintro rfl
    rfl

theorem mem_workflowByes {d : WorkflowDescription} : d.submitter ∈ s.workflowByes ↔ s.SaidBye d := by
  simp only [workflowByes, List.mem_filterMap, IPMessage.workflowBye?_eq_some, SaidBye]
  constructor
  · rintro ⟨m, hm, rfl⟩
    exact hm
  · exact fun h => ⟨_, h, rfl⟩

/-- How many workflow submitters have said goodbye. -/
def Sim.nbSaidBye (cfg : Config) (s : Sim) : Nat :=
  cfg.workflowDescriptions.countP fun d => decide (s.SaidBye d)

theorem submitters_nodup (cfg : Config) :
    (cfg.workflowDescriptions.map WorkflowDescription.submitter).Nodup := by
  have hnames := loadWorkloads_workflow_names cfg.workloads_loaded
  have hsplit : cfg.workflowDescriptions.map WorkflowDescription.submitter =
      (cfg.workflowDescriptions.map WorkflowDescription.name).map (· ++ "_submitter") := by
    rw [List.map_map]
    rfl
  rw [hsplit]
  exact hnames.map fun a b hab => (String.append_left_inj _).mp hab

theorem length_workflowByes (h : Reaches (batsim cfg) guard s) :
    s.workflowByes.length = s.nbSaidBye cfg := by
  obtain ⟨active, hperm⟩ := workflowByes_subperm h
  have hnodup := hperm.nodup_iff.mpr (submitters_nodup cfg)
  have hsaid : ((cfg.workflowDescriptions.filter fun d => decide (s.SaidBye d)).map
      WorkflowDescription.submitter).Perm s.workflowByes := by
    refine (List.perm_ext_iff_of_nodup ?_ (List.nodup_append.mp hnodup).2.1).mpr fun name => ?_
    · exact (submitters_nodup cfg).sublist (List.Sublist.map _ List.filter_sublist)
    · simp only [List.mem_map, List.mem_filter, decide_eq_true_eq]
      constructor
      · rintro ⟨d, ⟨-, hd⟩, rfl⟩
        exact mem_workflowByes.mpr hd
      · intro hname
        obtain ⟨d, hd, rfl⟩ := List.mem_map.mp
          (hperm.mem_iff.mp (List.mem_append_right _ hname))
        exact ⟨d, ⟨hd, mem_workflowByes.mp hname⟩, rfl⟩
  rw [← hsaid.length_eq, List.length_map, nbSaidBye, List.countP_eq_length_filter]

theorem submitJobs_submitted {submitter : Submitter} {jobs : List JobPtr} {t t' : Sim}
    (h : forEach (submitJob cfg submitter) t jobs = .ok t') :
    t'.history.submitted = t.history.submitted ++ jobs := by
  refine forEach_invariant
    (fun done u => u.history.submitted = t.history.submitted ++ done) (by simp) ?_ h
  intro done p rest u u' _ hu hstep
  obtain ⟨-, job, profile, rfl⟩ := submitJob_effect hstep
  have hone : ((u.submit submitter p).logged (.jobSubmitted p.id job profile)).history.submitted =
      u.history.submitted ++ [p] := by
    unfold submit track noteResubmission
    split <;> split <;> rfl
  rw [hone, hu, List.append_assoc]

/-- A message is ignored: its handling does nothing. -/
def Ignores (cfg : Config) (s : Sim) (m : IPMessage) : Prop := handleMessage cfg s m = .ok s

theorem ignores_jobSubmitted_iff (hk : cfg.terminateWithLastWorkflow = true)
    (hn : cfg.workflowDescriptions ≠ []) {name : String} {jobs : List JobPtr} (hjobs : jobs ≠ []) :
    Ignores cfg s (.jobSubmitted name jobs) ↔ s.data.nbWorkflowSubmittersFinished = 1 := by
  have hsize : cfg.workflowsSize = 1 := if_neg hn
  simp only [Ignores, handleMessage, serverOnJobSubmitted, hsize, hk]
  constructor
  · intro h
    by_contra hne
    rw [if_neg (by simp [hne])] at h
    split at h
    · cases h
    · have hgrows := submitJobs_submitted h
      exact hjobs (List.append_right_eq_self.mp hgrows.symm)
  · intro h
    rw [if_pos (by simp [h])]

/-- With `-k`, the submissions that are ignored are those after the goodbyes of all the workflow
submitters, exactly when there is one workflow, or when the number of goodbyes is neither one nor
that of the workflows: `Workflows::size` is a `bool`. -/
theorem submission_ignored_iff (h : Reaches (batsim cfg) anyStep s)
    (hk : cfg.terminateWithLastWorkflow = true) (hn : cfg.workflowDescriptions ≠ [])
    {name : String} {jobs : List JobPtr} {pool : Pool IPMessage Thread}
    (hnext : s.pool.next? = some (.deliver (.jobSubmitted name jobs), pool)) :
    (Ignores cfg { s with pool := pool } (.jobSubmitted name jobs) ↔
        ∀ d ∈ cfg.workflowDescriptions, s.SaidBye d) ↔
      cfg.workflowDescriptions.length = 1 ∨
        s.nbSaidBye cfg ≠ 1 ∧ s.nbSaidBye cfg ≠ cfg.workflowDescriptions.length := by
  have hqueue : .jobSubmitted name jobs ∈ s.pool.queue := by
    rw [(Pool.next?_deliver hnext).2.1]
    exact List.mem_cons_self ..
  have hjobs : jobs ≠ [] := jobSubmitted_ne_nil h hqueue
  have hcount := reaches_nbWorkflowSubmittersFinished h
  rw [length_workflowByes h] at hcount
  have hall : (∀ d ∈ cfg.workflowDescriptions, s.SaidBye d) ↔
      s.nbSaidBye cfg = cfg.workflowDescriptions.length := by
    rw [nbSaidBye, List.countP_eq_length]
    simp
  rw [ignores_jobSubmitted_iff hk hn hjobs, hall]
  have hdata : ({ s with pool := pool } : Sim).data.nbWorkflowSubmittersFinished =
    (s.nbSaidBye cfg : Int) := hcount
  rw [hdata]
  omega

end runs

/-- A workflow without tasks, whose submitter leaves at once, and one with a task. -/
def quick : WorkflowDescription where
  name := "quick"
  tasks := []

def slow : WorkflowDescription where
  name := "slow"
  tasks := [{ id := "a" }]

def twoWorkflows : Config where
  terminateWithLastWorkflow := true
  workloadDescriptions := []
  workflowDescriptions := [quick, slow]
  hosts := loneHost.hosts
  workloads := ⟨(AList.singleton "quick"
      { name := "quick", isStatic := true, jobs := .empty, profiles := .empty }).insert "slow"
      { name := "slow", isStatic := true, jobs := .empty, profiles := .empty }⟩
  workloads_loaded := rfl
  machines := loneHost.machines
  machines_created := loneHost.machines_created

/-- The job of the task of `slow`. -/
def slowTask : JobPtr :=
  ⟨"slow", { workloadName := "slow", jobName := "0", lexically_valid := by decide }⟩

/-- Both workflow submitters have greeted and are asleep; those in `wakes` wake up. -/
def untilAwake (wakes : Thread → Bool) : List (Sim → Choice) :=
  [.next, .next, .next, .next (.reply { now := 0, events := [] }), .receive, .next, .next,
    .receive, .next, .next, .receive, .next, .pass 0 false wakes]

/-- `slow` submits its task before `quick` has said goodbye. -/
theorem first_submission_not_ignored : ∃ (s : Sim) (pool : Pool IPMessage Thread),
    s.pool.next? = some (.deliver (.jobSubmitted slow.submitter [slowTask]), pool) ∧
      s.nbSaidBye twoWorkflows = 0 ∧
      (Ignores twoWorkflows { s with pool := pool } (.jobSubmitted slow.submitter [slowTask]) ↔
        ∀ d ∈ twoWorkflows.workflowDescriptions, s.SaidBye d) := by
  obtain ⟨s, hreaches, hhead, hnone⟩ := exists_reaches_of_run (batsim twoWorkflows) anyStep
    (fun s => s.pool.woken.head? = some (.deliver (.jobSubmitted slow.submitter [slowTask])) ∧
      s.nbSaidBye twoWorkflows = 0)
    (untilAwake (fun t => t.workflowSubmitter? = some slow.submitter) ++ [.next, .receive])
    (by decide +kernel)
  obtain ⟨es, hwoken⟩ := List.head?_eq_some_iff.mp hhead
  have hnext : s.pool.next? = some (.deliver (.jobSubmitted slow.submitter [slowTask]),
      { s.pool with woken := es }) := by
    simp [Pool.next?, hwoken]
  refine ⟨s, _, hnext, hnone, (submission_ignored_iff hreaches rfl (by decide) hnext).mpr ?_⟩
  rw [hnone]
  decide

/-- `quick` has said goodbye, `slow` submits its only task: the submission is ignored. -/
theorem submission_of_active_workflow_ignored : ∃ (s : Sim) (pool : Pool IPMessage Thread),
    Reaches (batsim twoWorkflows) anyStep s ∧ twoWorkflows.terminateWithLastWorkflow = true ∧
      s.pool.next? = some (.deliver (.jobSubmitted slow.submitter [slowTask]), pool) ∧
      Ignores twoWorkflows { s with pool := pool } (.jobSubmitted slow.submitter [slowTask]) ∧
      ¬ ∀ d ∈ twoWorkflows.workflowDescriptions, s.SaidBye d := by
  obtain ⟨s, hreaches, hhead, hcount, hactive⟩ := exists_reaches_of_run (batsim twoWorkflows)
    anyStep
    (fun s => s.pool.woken.head? = some (.deliver (.jobSubmitted slow.submitter [slowTask])) ∧
      s.data.nbWorkflowSubmittersFinished = 1 ∧ ¬ s.SaidBye slow)
    (untilAwake (fun t => t.workflowSubmitter? ≠ none) ++ [.next, .next, .receive, .next, .receive])
    (by decide +kernel)
  obtain ⟨es, hwoken⟩ := List.head?_eq_some_iff.mp hhead
  refine ⟨s, { s.pool with woken := es }, hreaches, rfl, by simp [Pool.next?, hwoken],
    (ignores_jobSubmitted_iff rfl (by decide) (by simp)).mpr hcount, fun hall => ?_⟩
  exact hactive (hall slow (by decide))

end Batsim
