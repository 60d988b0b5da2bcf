import Mathlib.Algebra.Order.BigOperators.Group.Multiset
import Mathlib.Algebra.Order.Group.Nat
import Mathlib.Algebra.Order.Ring.Nat
import Batsim.JobCounts
import Batsim.LastWorkflow

/-!
How often a job is submitted: once, unless the scheduler registers it in a workload whose
submitter has not read the jobs yet.
-/

namespace Batsim

open Checked Workloads Sim StepSystem

/-! ### Submissions on their way -/

def ReplyItem.entering (p : JobPtr) : ReplyItem → Nat
  | .event _ => 0
  | .send _ m => m.enters.count p

/-- How often a thread is about to make a job enter. A submitter that has not read its workload
counts for each job that may be there. -/
def Thread.entering (p : JobPtr) : Thread → Nat
  | applyReply _ todo => (todo.map (ReplyItem.entering p)).sum
  | jobSubmitter w .started | jobSubmitter w .greeted => if p.workload = w then 1 else 0
  | jobSubmitter _ (.sent _ remaining) => remaining.count p
  | jobSubmitter _ (.asleep _ q rest) => (q :: rest).count p
  | _ => 0

/-- How often a job is about to be counted as submitted. -/
def onTheWay (p : JobPtr) (pool : Pool IPMessage Thread) : Nat :=
  (pool.labels (fun t => some (t.entering p)) fun m => some (m.enters.count p)).sum

section pools

variable {p : JobPtr} {pool q : Pool IPMessage Thread} {t : Thread} {m : IPMessage}

theorem onTheWay_block : onTheWay p (pool.block t) = t.entering p + onTheWay p pool := by
  simp [onTheWay, Pool.labels_block]

theorem onTheWay_put {sender : Option Thread} : onTheWay p (pool.put m sender) =
    (sender.map (Thread.entering p)).getD 0 + m.enters.count p + onTheWay p pool := by
  cases sender <;> simp [onTheWay, Pool.labels_put, add_assoc]

theorem onTheWay_resume (h : pool.next? = some (.resume t, q)) :
    onTheWay p pool = t.entering p + onTheWay p q := by
  simp [onTheWay, Pool.labels_resume _ _ h]

theorem onTheWay_deliver (h : pool.next? = some (.deliver m, q)) :
    onTheWay p pool = m.enters.count p + onTheWay p q := by
  simp [onTheWay, Pool.labels_deliver _ _ h]

theorem onTheWay_of_pool {b c : List Thread}
    (h : pool = { q with fresh := q.fresh ++ b, blocked := q.blocked ++ c })
    (hnone : ∀ u ∈ b ++ c, u.entering p = 0) : onTheWay p pool = onTheWay p q := by
  rw [onTheWay, Pool.labels_of_eq _ _ h, Multiset.sum_add, onTheWay]
  have hzero : ((((b ++ c).filterMap fun u => some (u.entering p)) : List Nat) : Multiset Nat).sum
      = 0 := by
    rw [Multiset.sum_coe]
    refine List.sum_eq_zero fun n hn => ?_
    obtain ⟨u, hu, heq⟩ := List.mem_filterMap.mp hn
    rw [← Option.some.inj heq, hnone u hu]
  rw [hzero, zero_add]

theorem KillSteps.onTheWay_le (h : KillSteps q pool) : onTheWay p pool ≤ onTheWay p q := by
  induction h with
  | refl => exact le_refl _
  | interrupt n _ ih =>
    refine le_trans (le_of_eq ?_) ih
    rw [onTheWay, onTheWay, Pool.labels_interrupt]
    intro u _ _
    cases u <;> rfl
  | @kill r actors _ ih =>
    obtain ⟨gone, hgone⟩ := Multiset.le_iff_exists_add.mp (Pool.labels_kill_le (p := r)
      (f := fun t => some (t.entering p)) (g := fun m => some (m.enters.count p))
      (Thread.isActorIn actors))
    have hsum := congrArg Multiset.sum hgone
    rw [Multiset.sum_add] at hsum
    rw [onTheWay] at ih ⊢
    omega

/-- What the threads that submit nothing do. -/
theorem Thread.Moves.onTheWay_le (h : t.Moves q pool) (hreader : t.isReader = false)
    (hjobs : ∀ w phase, t ≠ .jobSubmitter w phase)
    (hworkflow : ∀ run phase, t ≠ .workflowSubmitter run phase) :
    onTheWay p pool ≤ onTheWay p q := by
  cases h with
  | ends => exact le_refl _
  | waits u hu =>
    rw [onTheWay_block]
    have hnone : u.entering p = 0 := by
      cases hu with
      | reply _ _ _ hfrom => obtain ⟨_, rfl⟩ | ⟨_, rfl⟩ := hfrom <;> cases hreader
      | jobs w phase => exact absurd rfl (hjobs w phase)
      | _ => rfl
    omega
  | puts r m sender hputs hkill =>
    have hpool : onTheWay p r ≤ onTheWay p q := by
      obtain rfl | ⟨-, hsteps⟩ := hkill
      · exact le_refl _
      · exact hsteps.onTheWay_le
    have hnone : (sender.map (Thread.entering p)).getD 0 = 0 ∧ m.enters.count p = 0 := by
      cases hputs with
      | firstReply | reply => cases hreader
      | jobHello w => exact absurd rfl (hjobs w _)
      | jobs w phase => exact absurd rfl (hjobs w phase)
      | workflowJob run _ phase => exact absurd rfl (hworkflow run phase)
      | _ => exact ⟨rfl, rfl⟩
    rw [onTheWay_put]
    omega

end pools

theorem sendAtTime_onTheWay {p : JobPtr} (now : Date) (s : Sim) (date : Date) (m : IPMessage)
    (rest : List ReplyItem) : onTheWay p (sendAtTime now s date m rest).pool =
      onTheWay p s.pool + m.enters.count p + (rest.map (ReplyItem.entering p)).sum := by
  obtain hsend | hsend := sendAtTime_cases now s date m rest <;> rw [hsend]
  · have hblock : onTheWay p (s.pool.block (.applyReply now (.send date m :: rest))) = _ :=
      onTheWay_block
    rw [Thread.entering, List.map_cons, List.sum_cons] at hblock
    refine hblock.trans ?_
    rw [ReplyItem.entering]
    omega
  · rw [noteSent_pool, pool_put, onTheWay_put]
    cases rest with
    | nil => simp [add_comm]
    | cons item rest =>
      simp only [reduceCtorEq, ↓reduceIte, Option.map_some, Option.getD_some, Thread.entering]
      omega

/-- Only a registration makes a job enter. -/
theorem enters_of_messages {d : SchedulerEventData} (hd : ∀ id job, d ≠ .registerJob id job) :
    ∀ m ∈ d.messages, m.enters = [] := by
  intro m hm
  cases d with
  | registerJob id job => exact absurd rfl (hd id job)
  | query requests =>
    obtain ⟨request, -, rfl⟩ := List.mem_map.mp hm
    cases request <;> rfl
  | notify type =>
    rw [SchedulerEventData.messages, List.mem_singleton] at hm
    subst hm
    split <;> rfl
  | answer => cases hm
  | _ =>
    rw [SchedulerEventData.messages, List.mem_singleton] at hm
    subst hm
    rfl

theorem parseAndApplyEvent_enters {cfg : Config} {now : Date} {s t : Sim} {e : SchedulerEvent}
    {ms : List IPMessage} (howned : s.workloads.Owned)
    (h : parseAndApplyEvent cfg now s e = .ok (t, ms)) :
    (∀ m ∈ ms, m.enters = []) ∨ ∃ id j, ms = [.jobRegisteredByDP (ptr id)] ∧
      cfg.registrationSchedEnabled = true ∧ Adds s t (some (ptr id, j)) := by
  obtain ⟨hms, -⟩ := parseAndApplyEvent_effect howned h
  cases hdata : e.data with
  | registerJob id d =>
    simp only [parseAndApplyEvent, hdata, bind_eq_ok, Except.ok.injEq, Prod.mk.injEq] at h
    obtain ⟨_, -, u, hu, rfl, rfl⟩ := h
    obtain ⟨j, hadds, -⟩ := handleRegisterJob_effect hu
    refine .inr ⟨id, j, rfl, ?_, hadds⟩
    simp only [handleRegisterJob, bind_eq_ok, xbtAssert_eq_ok] at hu
    obtain ⟨_, henabled, -⟩ := hu
    exact henabled
  | _ =>
    left
    rw [hms, hdata]
    exact enters_of_messages (by simp)

/-- What a reader does to the submissions on their way: it may add one, by a registration. -/
theorem applyReply_onTheWay {cfg : Config} {now : Date} {s s' : Sim} {todo : List ReplyItem}
    {p : JobPtr} (howned : s.workloads.Owned) (h : applyReply cfg now s todo = .ok s') :
    onTheWay p s'.pool ≤ onTheWay p s.pool + (todo.map (ReplyItem.entering p)).sum ∨
      (onTheWay p s'.pool ≤ onTheWay p s.pool + (todo.map (ReplyItem.entering p)).sum + 1 ∧
        cfg.registrationSchedEnabled = true ∧ ¬ s.workloads.Met p ∧ s'.workloads.Met p) := by
  induction todo generalizing s with
  | nil =>
    simp only [applyReply, Except.ok.injEq] at h
    subst h
    exact .inl (Nat.le_add_right _ _)
  | cons item todo ih =>
    rw [List.map_cons, List.sum_cons]
    cases item with
    | send date m =>
      simp only [applyReply, Except.ok.injEq] at h
      subst h
      left
      rw [sendAtTime_onTheWay, ReplyItem.entering]
      omega
    | event e =>
      rw [ReplyItem.entering, Nat.zero_add]
      simp only [applyReply, bind_eq_ok, Prod.exists] at h
      obtain ⟨t, ms, hevent, h⟩ := h
      obtain ⟨-, hsame, new, hadds, -⟩ := parseAndApplyEvent_effect howned hevent
      have henters := parseAndApplyEvent_enters howned hevent
      cases ms with
      | nil =>
        rw [hsame rfl] at h
        exact ih howned h
      | cons m ms =>
        simp only [Except.ok.injEq] at h
        subst h
        rw [sendAtTime_onTheWay, hadds.pool, List.map_append, List.sum_append]
        obtain hnone | ⟨id, j, hms, henabled, hregisters⟩ := henters
        · left
          have hzero : ((ms.map (ReplyItem.send e.timestamp)).map (ReplyItem.entering p)).sum = 0 := by
            refine List.sum_eq_zero fun n hn => ?_
            simp only [List.mem_map] at hn
            obtain ⟨_, ⟨m', hm', rfl⟩, rfl⟩ := hn
            simp [ReplyItem.entering, hnone m' (List.mem_cons_of_mem _ hm')]
          rw [hnone m (List.mem_cons_self ..), hzero, List.count_nil]
          omega
        · obtain ⟨rfl, rfl⟩ := List.cons.inj hms
          rw [IPMessage.enters, List.map_nil, List.map_nil, List.sum_nil]
          by_cases hp : p = ptr id
          · subst hp
            refine .inr ⟨?_, henabled, hregisters.registers.fresh _ rfl, ?_⟩
            · rw [List.count_singleton_self]
              omega
            · rw [(bystands_sendAtTime ..).registers.met, hregisters.registers.met]
              exact .inl (.inr rfl)
          · left
            rw [List.count_eq_zero.mpr (by simpa using hp)]
            omega

/-! ### The submitters -/

theorem jobSubmitter_does_onTheWay {s s' : Sim} {w : String} {items : List JobPtr} {p : JobPtr}
    (h : (jobSubmitterKind s w).Does s items s') :
    onTheWay p s'.pool ≤ items.count p + onTheWay p s.pool := by
  cases h with
  | bye _ =>
    rw [pool_put, onTheWay_put]
    simp [jobSubmitterKind, IPMessage.enters]
  | send batch remaining date _ hitems =>
    rw [pool_put, onTheWay_put, ← hitems, List.count_append]
    simp only [jobSubmitterKind, Option.map_some, Option.getD_some, Thread.entering,
      IPMessage.enters]
    omega
  | sleep date q rest hitems =>
    rw [hitems]
    exact (onTheWay_block (p := p)).le

/-- A workload lists each of its jobs once. -/
theorem count_jobs_le {wl : Workload} {w : String} (job : JobPtr → Job) {p : JobPtr}
    (hname : ∀ id q, wl.jobs.jobs.lookup id = some q → q.workload = w) :
    ((wl.jobs.jobs.entries.map fun e => e.2).insertionSort
      fun a b => jobComparatorSubtimeNumber job a b = true).count p ≤
        if p.workload = w then 1 else 0 := by
  rw [(List.perm_insertionSort _ _).count_eq]
  have hlookup : ∀ e ∈ wl.jobs.jobs.entries, wl.jobs.jobs.lookup e.1 = some e.2 :=
    fun e he => AList.mem_lookup_iff.mpr he
  have hnodup : (wl.jobs.jobs.entries.map fun e => e.2).Nodup := by
    refine List.Nodup.of_map JobPtr.id ?_
    have hids : (wl.jobs.jobs.entries.map fun e => e.2).map JobPtr.id = wl.jobs.jobs.keys := by
      rw [List.map_map]
      exact List.map_congr_left fun e he => wl.jobs.id_of_lookup e.1 e.2 (hlookup e he)
    rw [hids]
    exact wl.jobs.jobs.nodupKeys
  split
  · exact List.nodup_iff_count_le_one.mp hnodup p
  · next hw =>
    refine (List.count_eq_zero.mpr fun hp => hw ?_).le
    obtain ⟨e, he, rfl⟩ := List.mem_map.mp hp
    exact hname e.1 e.2 (hlookup e he)

theorem jobSubmitter_onTheWay {cfg : Config} {s s' : Sim} {o : Outcome} {w : String}
    {phase : SubmitterPhase JobPtr} {p : JobPtr} (howned : s.workloads.Owned)
    (h : runThread cfg s o (.jobSubmitter w phase) = .ok s') :
    onTheWay p s'.pool ≤ (Thread.jobSubmitter w phase).entering p + onTheWay p s.pool := by
  obtain ⟨rfl, rfl⟩ | ⟨rfl, list, hlist, hdoes⟩ | ⟨hstarted, hgreeted, hdoes⟩ :=
    SubmitterKind.resume_effect _ h
  · rw [pool_put, onTheWay_put]
    simp [jobSubmitterKind, Thread.entering, IPMessage.enters]
  · simp only [bind_eq_ok, at?_eq_ok, Except.ok.injEq] at hlist
    obtain ⟨wl, hwl, rfl⟩ := hlist
    have hcount := count_jobs_le s.job (p := p) (howned w wl · · hwl)
    have hsent := jobSubmitter_does_onTheWay (p := p) hdoes
    rw [Thread.entering]
    omega
  · have hsent := jobSubmitter_does_onTheWay (p := p) hdoes
    cases phase with
    | started => exact absurd rfl hstarted
    | greeted => exact absurd rfl hgreeted
    | sent date remaining => exact hsent
    | asleep date q rest => exact hsent

/-- A workflow submitter submits the job that it registers. -/
theorem workflowLoop_onTheWay {cfg : Config} {s s' : Sim} {run : WorkflowRun} {p : JobPtr}
    (h : workflowLoop cfg s run = .ok s') :
    onTheWay p s'.pool ≤ onTheWay p s.pool ∨
      (onTheWay p s'.pool ≤ onTheWay p s.pool + 1 ∧ p.workload = run.workflow.name ∧
        ¬ s.workloads.Met p ∧ s'.workloads.Met p) := by
  have hdoes := workflowLoop_effect h
  cases hdoes with
  | send t id j run' i _ _ _ _ hadds =>
    rw [pool_put, onTheWay_put, hadds.pool, IPMessage.enters]
    by_cases hp : p = ⟨run.workflow.name, id⟩
    · subst hp
      refine .inr ⟨?_, rfl, hadds.registers.fresh _ rfl, (hadds.registers.met _).mpr (.inr rfl)⟩
      simp only [Option.map_some, Option.getD_some, Thread.entering, List.count_singleton_self]
      omega
    · left
      simp only [Option.map_some, Option.getD_some, Thread.entering]
      rw [List.count_eq_zero.mpr (by simpa using hp)]
      omega
  | wait _ => exact .inl ((onTheWay_block (p := p)).trans (Nat.zero_add _)).le
  | bye _ =>
    rw [pool_put, onTheWay_put]
    simp [IPMessage.enters]

theorem workflowSubmitter_onTheWay {cfg : Config} {s s' : Sim} {o : Outcome} {run : WorkflowRun}
    {phase : WorkflowPhase} {p : JobPtr}
    (h : runThread cfg s o (.workflowSubmitter run phase) = .ok s') :
    onTheWay p s'.pool ≤ onTheWay p s.pool ∨
      (onTheWay p s'.pool ≤ onTheWay p s.pool + 1 ∧ p.workload = run.workflow.name ∧
        ¬ s.workloads.Met p ∧ s'.workloads.Met p) := by
  cases phase with
  | started =>
    simp only [runThread, workflowSubmitterProcess, Except.ok.injEq] at h
    subst h
    rw [pool_put, onTheWay_put]
    simp [IPMessage.enters, Thread.entering]
  | greeted =>
    simp only [runThread, workflowSubmitterProcess, Except.ok.injEq] at h
    subst h
    exact .inl ((onTheWay_block (p := p)).trans (Nat.zero_add _)).le
  | asleep date => exact workflowLoop_onTheWay h
  | submitted id i =>
    simp only [runThread, workflowSubmitterProcess] at h
    have hloop := workflowLoop_onTheWay (p := p) h
    exact hloop
  | waiting =>
    simp only [runThread, workflowSubmitterProcess] at h
    repeat' split at h
    any_goals cases h
    have hloop := workflowLoop_onTheWay (p := p) h
    exact hloop

/-! ### The names of the workloads -/

/-- The workloads of the files and of the workflows, in the order of their insertion. -/
def Config.names (cfg : Config) : List String :=
  cfg.workloadDescriptions.map WorkloadDescription.name ++
    cfg.workflowDescriptions.map WorkflowDescription.name

theorem insertWorkload_names {ws ws' : Workloads} {names : List String} {name : String}
    {wl : Workload} (h : ws.insertWorkload name wl = .ok ws')
    (hnames : names.Nodup ∧ ∀ n ∈ names, ws.exists? n = true) :
    (names ++ [name]).Nodup ∧ ∀ n ∈ names ++ [name], ws'.exists? n = true := by
  obtain ⟨hnodup, hthere⟩ := hnames
  simp only [insertWorkload, bind_eq_ok, xbtAssert_eq_ok, Except.ok.injEq] at h
  obtain ⟨_, hnew, _, -, rfl⟩ := h
  refine ⟨List.nodup_append.mpr ⟨hnodup, by simp, ?_⟩, fun n hn => ?_⟩
  · intro a ha b hb heq
    have hexists := hthere a ha
    rw [heq, List.mem_singleton.mp hb, hnew] at hexists
    cases hexists
  · simp only [exists?, lookup_set]
    split
    · rfl
    · next hne => exact hthere n ((List.mem_append.mp hn).resolve_right (by simpa using hne))

theorem names_nodup (cfg : Config) : cfg.names.Nodup := by
  have hload := cfg.workloads_loaded
  simp only [loadWorkloadsAndWorkflows, bind_eq_ok] at hload
  obtain ⟨ws, hfirst, hsecond⟩ := hload
  have hworkloads := forEach_invariant (fun done (v : Workloads) =>
    (done.map WorkloadDescription.name).Nodup ∧
      ∀ n ∈ done.map WorkloadDescription.name, v.exists? n = true) (by simp) (by
    intro done d rest v v' _ hv hstep
    simp only [bind_eq_ok] at hstep
    obtain ⟨jobs, -, hins⟩ := hstep
    rw [List.map_append]
    exact insertWorkload_names hins hv) hfirst
  refine (forEach_invariant (fun done (v : Workloads) =>
    (cfg.workloadDescriptions.map WorkloadDescription.name ++
      done.map WorkflowDescription.name).Nodup ∧
      ∀ n ∈ cfg.workloadDescriptions.map WorkloadDescription.name ++
        done.map WorkflowDescription.name, v.exists? n = true) (by simpa using hworkloads) ?_
    hsecond).1
  intro done d rest v v' _ hv hstep
  rw [List.map_append, ← List.append_assoc]
  exact insertWorkload_names hstep hv

/-! ### Submitted once -/

/-- The scheduler cannot register the job before its submitter submits it. -/
def Config.Sole (cfg : Config) (p : JobPtr) : Prop :=
  cfg.registrationSchedEnabled = false ∨
    p.workload ∉ cfg.workloadDescriptions.map WorkloadDescription.name ∨ cfg.workloads.Met p

/-- A job is submitted once at most, and no submission of it is a second one. -/
structure EntersOnce (cfg : Config) (p : JobPtr) (s : Sim) : Prop where
  once : onTheWay p s.pool + s.history.submitted.count p ≤ 1
  fresh : p ∉ s.history.resubmitted
  unmet : p.workload ∉ cfg.workloadDescriptions.map WorkloadDescription.name →
    ¬ s.workloads.Met p → onTheWay p s.pool + s.history.submitted.count p = 0
  known : cfg.workloads.Met p → s.workloads.Met p

section runs

variable {cfg : Config} {guard : Sim → Choice → Prop} {s s' : Sim} {p : JobPtr}

theorem EntersOnce.of_way (h : EntersOnce cfg p s)
    (hsubmitted : s'.history.submitted = s.history.submitted)
    (hresubmitted : s'.history.resubmitted = s.history.resubmitted)
    (hmet : s.workloads.Met p → s'.workloads.Met p)
    (hway : onTheWay p s'.pool ≤ onTheWay p s.pool ∨
      (onTheWay p s'.pool ≤ onTheWay p s.pool + 1 ∧
        p.workload ∉ cfg.workloadDescriptions.map WorkloadDescription.name ∧
        ¬ s.workloads.Met p ∧ s'.workloads.Met p)) : EntersOnce cfg p s' := by
  have honce := h.once
  refine ⟨?_, hresubmitted ▸ h.fresh, fun hstatic hnot => ?_, fun hp => hmet (h.known hp)⟩
  · rw [hsubmitted]
    obtain hle | ⟨hle, hstatic, hnot, -⟩ := hway
    · omega
    · have hzero := h.unmet hstatic hnot
      omega
  · have hzero := h.unmet hstatic fun hp => hnot (hmet hp)
    rw [hsubmitted]
    obtain hle | ⟨-, -, -, hp⟩ := hway
    · omega
    · exact absurd hp hnot

theorem onTheWay_of_registering {pool : Pool IPMessage Thread} (h : p ∈ registering pool) :
    0 < onTheWay p pool := by
  have hlabel : ∃ n ∈ pool.labels (fun t => some (Thread.entering p t))
      (fun m => some (m.enters.count p)), 0 < n := by
    obtain ⟨t, ht, hp⟩ | hm := mem_registering.mp h
    · refine ⟨t.entering p, ?_, ?_⟩
      · refine Multiset.mem_add.mpr (.inl ?_)
        exact Multiset.mem_coe.mpr (List.mem_filterMap.mpr ⟨t, ht, rfl⟩)
      · cases t with
        | applyReply now todo =>
          obtain ⟨item, hitem, hregisters⟩ := List.mem_filterMap.mp hp
          refine List.sum_pos_iff_exists_pos_nat.mpr ⟨_, List.mem_map_of_mem hitem, ?_⟩
          cases item with
          | event e => cases hregisters
          | send date m =>
            cases m with
            | jobRegisteredByDP q =>
              obtain rfl := Option.some.inj hregisters
              simp [ReplyItem.entering, IPMessage.enters]
            | _ => cases hregisters
        | _ => cases hp
    · refine ⟨1, ?_, Nat.one_pos⟩
      refine Multiset.mem_add.mpr (.inr ?_)
      exact Multiset.mem_coe.mpr (List.mem_filterMap.mpr ⟨_, hm, by simp [IPMessage.enters]⟩)
  obtain ⟨n, hn, hpos⟩ := hlabel
  exact lt_of_lt_of_le hpos (Multiset.le_sum_of_mem hn)

/-- A job of a list is submitted for the first time, if it is there once and was not submitted. -/
theorem submitJobs_fresh {submitter : Submitter} {jobs : List JobPtr} {t : Sim}
    (h : forEach (submitJob cfg submitter) s jobs = .ok t) (hfresh : p ∉ s.history.resubmitted)
    (honce : jobs.count p ≤ 1) (hstate : p ∈ jobs → (s.job p).state = .notSubmitted) :
    p ∉ t.history.resubmitted := by
  refine (forEach_invariant (fun done (u : Sim) => p ∉ u.history.resubmitted ∧
    (p ∉ done → (u.job p).state = (s.job p).state)) ⟨hfresh, fun _ => rfl⟩ ?_ h).1
  intro done q rest u u' hsplit hu hstep
  obtain ⟨hnot, hsame⟩ := hu
  obtain ⟨-, job, profile, rfl⟩ := submitJob_effect hstep
  have hmore := (submit_leaves u submitter q).2.2.2.2.2.2.2.2
  refine ⟨fun hin => ?_, fun hin => ?_⟩
  · have hin : p ∈ (u.submit submitter q).history.resubmitted := hin
    rw [hmore, List.mem_append] at hin
    obtain hold | hnew := hin
    · exact hnot hold
    · split at hnew
      · cases hnew
      · next hstarted =>
        obtain rfl := List.mem_singleton.mp hnew
        rw [hsplit, List.count_append, List.count_cons_self] at honce
        have hdone : p ∉ done := List.count_eq_zero.mp (by omega)
        exact hstarted ((hsame hdone).trans (hstate (by simp [hsplit])))
  · have hne : p ≠ q := fun heq => hin (by simp [heq])
    have hin : p ∉ done := fun hold => hin (List.mem_append_left _ hold)
    have hjob : ((u.submit submitter q).logged (.jobSubmitted q.id job profile)).job p = u.job p := by
      rw [show ((u.submit submitter q).logged (.jobSubmitted q.id job profile)).job =
        (u.submit submitter q).job from rfl, job_submit]
      simp [setJob, hne]
    rw [hjob]
    exact hsame hin

/-- Handling a message that is on its way. -/
theorem EntersOnce.handleMessage {m : IPMessage} {pool : Pool IPMessage Thread} {t : Sim}
    (hr : Reaches (batsim cfg) guard s) (h : EntersOnce cfg p s)
    (hnext : s.pool.next? = some (.deliver m, pool))
    (ht : handleMessage cfg { s with pool := pool } m = .ok t) : EntersOnce cfg p t := by
  have howned := reaches_owned hr
  have honce := h.once
  have hunmet := h.unmet
  rw [onTheWay_deliver hnext] at honce hunmet
  obtain ⟨more, hadmits, hmore, -⟩ :=
    handleMessage_admits (s := { s with pool := pool }) howned ht
  obtain ⟨ts, bs, hpool, hts, hbs⟩ := handleMessage_pool ht
  obtain ⟨_, hhandled⟩ := handleMessage_effect ht
  have hworkloads : t.workloads = s.workloads := hhandled.keeps.workloads
  have hway : onTheWay p t.pool = onTheWay p pool := by
    refine onTheWay_of_pool hpool fun u hu => ?_
    rcases List.mem_append.mp hu with hu | hu
    · have hlaunched := hts u hu
      cases m <;> cases u <;> first | rfl | cases hlaunched
    · obtain ⟨-, rfl⟩ | ⟨job, mailbox, rfl⟩ := hbs
      · cases hu
      · rw [List.mem_singleton.mp hu]
        rfl
  have hcount : t.history.submitted.count p =
      s.history.submitted.count p + more.count p := by
    rw [hadmits.submitted, List.count_append]
  have hle := hmore.count_le p
  refine ⟨by omega, ?_, fun hstatic hnot => ?_, fun hp => hworkloads ▸ h.known hp⟩
  · cases m with
    | jobSubmitted name jobs =>
      obtain rfl | ⟨submitter, -, hloop⟩ := serverOnJobSubmitted_effect ht
      · exact h.fresh
      · rw [IPMessage.enters] at honce
        refine submitJobs_fresh hloop h.fresh (by omega) fun hin => ?_
        by_contra hstate
        have hpos := List.count_pos_iff.mpr hin
        obtain hsubmitted | hregistering := (reaches_entered hr).covered p h.fresh hstate
        · have hposs := List.count_pos_iff.mpr hsubmitted
          omega
        · obtain heq | hrest := registering_deliver hnext hregistering
          · cases heq
          · have hposs := onTheWay_of_registering hrest
            omega
    | _ =>
      have hsame := resubmitted_of_other (s := { s with pool := pool }) howned (by simp) ht
      rw [hsame]
      exact h.fresh
  · rw [hworkloads] at hnot
    have hzero := hunmet hstatic hnot
    omega

theorem EntersOnce.endOfTurn {u : Sim} (h : EntersOnce cfg p u) (howned : u.workloads.Owned)
    (hend : endOfTurn cfg u = .ok s') : EntersOnce cfg p s' := by
  obtain ⟨ts, hpool, hts⟩ := endOfTurn_pool hend
  have hpool' : s'.pool = { u.pool with
      fresh := u.pool.fresh ++ ts, blocked := u.pool.blocked ++ [] } := by simpa using hpool
  have hsubmitted : s'.history.submitted = u.history.submitted := by
    obtain rfl | ⟨workloads, hflush⟩ | hfinish := endOfTurn_cases hend
    · rfl
    · rw [hflush.eq]
      rfl
    · rw [hfinish.eq]
      rfl
  refine h.of_way hsubmitted (endOfTurn_resubmitted hend) (endOfTurn_met hend howned p).mpr
    (.inl (onTheWay_of_pool hpool' fun v hv => ?_).le)
  obtain ⟨message, rfl⟩ := hts v (by simpa using hv)
  rfl

/-- The workflow submitters are those of the workflows. -/
theorem reaches_workflow (hr : Reaches (batsim cfg) guard s) {run : WorkflowRun}
    {phase : WorkflowPhase} (ht : .workflowSubmitter run phase ∈ s.pool.threads) :
    run.workflow.name ∈ cfg.workflowDescriptions.map WorkflowDescription.name := by
  have htotal := workflowSubmitter_flow.total_eq (fun m t ht => by
    cases m <;> cases t <;> first | rfl | cases ht) hr
  have hstart : (initialThreads cfg).filterMap Thread.workflowSubmitter? =
      cfg.workflowDescriptions.map WorkflowDescription.submitter := by
    simp [initialThreads, List.filterMap_map, Function.comp_def, Thread.workflowSubmitter?]
  have hlabel : run.workflow.submitter ∈ s.pool.threads.filterMap Thread.workflowSubmitter? :=
    List.mem_filterMap.mpr ⟨_, ht, rfl⟩
  have hmem : run.workflow.submitter ∈ ((initialThreads cfg).filterMap Thread.workflowSubmitter? :
      Multiset String) := by
    rw [← htotal, Flow.total, Pool.labels]
    simp [hlabel]
  rw [hstart, Multiset.mem_coe] at hmem
  obtain ⟨d, hd, heq⟩ := List.mem_map.mp hmem
  exact List.mem_map.mpr ⟨d, hd, (String.append_left_inj _).mp heq⟩

/-- The run of an actor. -/
theorem EntersOnce.runThread {o : Outcome} {t : Thread} {pool : Pool IPMessage Thread}
    (hr : Reaches (batsim cfg) guard s) (hp : cfg.Sole p) (h : EntersOnce cfg p s)
    (hserver : t.isServer = false) (hnext : s.pool.next? = some (.resume t, pool))
    (hrun : runThread cfg { s with pool := pool } o t = .ok s') : EntersOnce cfg p s' := by
  have howned := reaches_owned hr
  obtain ⟨hmoves, hkeeps⟩ := runThread_moves (s := { s with pool := pool }) howned hserver hrun
  obtain ⟨new, hregisters⟩ := runThread_registers (s := { s with pool := pool }) howned hserver hrun
  have hmet : s.workloads.Met p → s'.workloads.Met p := fun hp => (hregisters.met p).mpr (.inl hp)
  have hway := onTheWay_resume (p := p) hnext
  refine h.of_way hkeeps.submitted hkeeps.resubmitted hmet ?_
  have hread : ∀ {u : Sim} {now : Date} {todo : List ReplyItem}, u.workloads = s.workloads →
      u.pool = pool → (todo.map (ReplyItem.entering p)).sum = t.entering p →
      applyReply cfg now u todo = .ok s' → onTheWay p s'.pool ≤ onTheWay p s.pool ∨
        (onTheWay p s'.pool ≤ onTheWay p s.pool + 1 ∧
          p.workload ∉ cfg.workloadDescriptions.map WorkloadDescription.name ∧
          ¬ s.workloads.Met p ∧ s'.workloads.Met p) := by
    intro u now todo hw hu htodo happly
    obtain hle | ⟨hle, henabled, hnot, hnow⟩ := applyReply_onTheWay (p := p) (hw ▸ howned) happly
    · left
      rw [hu] at hle
      omega
    · rw [hw] at hnot
      rw [hu] at hle
      refine .inr ⟨by omega, ?_, hnot, hnow⟩
      obtain hdisabled | hstatic | hknown := hp
      · rw [hdisabled] at henabled
        cases henabled
      · exact hstatic
      · exact absurd (h.known hknown) hnot
  cases hreader : t.isReader with
  | true =>
    cases t with
    | requestReply message =>
      cases o with
      | reply r =>
        refine hread (u := { s with pool := pool, history := { s.history with
          replies := s.history.replies ++ [(r, [])] } }) rfl rfl ?_ (requestReply_effect hrun)
        simp [Reply.todo, Function.comp_def, ReplyItem.entering, IPMessage.enters, Thread.entering]
      | _ => simp [Batsim.runThread] at hrun
    | applyReply now todo =>
      exact hread (u := { s with pool := pool }) rfl rfl rfl hrun
    | _ => cases hreader
  | false =>
    cases t with
    | jobSubmitter w phase =>
      have hle := jobSubmitter_onTheWay (s := { s with pool := pool }) (p := p) howned hrun
      dsimp only at hle
      exact .inl (by omega)
    | workflowSubmitter run phase =>
      obtain hle | ⟨hle, hname, hnot, hnow⟩ :=
        workflowSubmitter_onTheWay (s := { s with pool := pool }) (p := p) hrun
      · dsimp only at hle
        exact .inl (by omega)
      · dsimp only at hle
        refine .inr ⟨by omega, fun hstatic => ?_, hnot, hnow⟩
        have hthere := reaches_workflow hr
          ((Pool.next?_resume hnext).1.mem_iff.mpr (List.mem_cons_self ..))
        rw [← hname] at hthere
        exact (List.nodup_append.mp (names_nodup cfg)).2.2 _ hstatic _ hthere rfl
    | _ =>
      have hle := hmoves.onTheWay_le (p := p) hreader (by simp) (by simp)
      dsimp only at hle
      exact .inl (by omega)

theorem onTheWay_start : onTheWay p (start cfg).pool =
    (cfg.workloadDescriptions.map WorkloadDescription.name).count p.workload := by
  have hunread : ∀ ds : List WorkloadDescription,
      ((ds.map fun d => Thread.jobSubmitter d.name .started).map (Thread.entering p)).sum =
        (ds.map WorkloadDescription.name).count p.workload := by
    intro ds
    induction ds with
    | nil => rfl
    | cons d ds ih =>
      rw [List.map_cons, List.map_cons, List.sum_cons, ih, List.map_cons, List.count_cons,
        Thread.entering]
      simp only [beq_iff_eq, eq_comm (a := d.name)]
      omega
  have hthreads : (start cfg).pool.threads = initialThreads cfg := by
    simp [start, Pool.threads]
  have hrest : ((initialThreads cfg).map (Thread.entering p)).sum =
      (cfg.workloadDescriptions.map WorkloadDescription.name).count p.workload := by
    rw [← hunread, initialThreads]
    simp [Function.comp_def, Thread.entering]
  rw [onTheWay, Pool.labels, hthreads]
  simpa [start, Pool.queue, List.filterMap_eq_map'] using hrest

theorem reaches_entersOnce (hp : cfg.Sole p) (h : Reaches (batsim cfg) guard s) :
    EntersOnce cfg p s := by
  refine h.invariant (P := EntersOnce cfg p) ?_ ?_
  · have hway : onTheWay p (start cfg).pool = _ := onTheWay_start
    refine ⟨?_, by simp [batsim, start], fun hstatic _ => ?_, id⟩
    · have hle := List.nodup_iff_count_le_one.mp (List.nodup_append.mp (names_nodup cfg)).1
        p.workload
      exact (hway.trans_le hle)
    · exact hway.trans (List.count_eq_zero.mpr hstatic)
  · intro s s' c hr hs _ hstep
    have howned := reaches_owned hr
    cases step_kind hstep with
    | solve clock receive wakes rest order pool hcan hsolve hs' =>
      subst hs'
      refine hs.of_way rfl rfl id (.inl (le_of_eq ?_))
      exact congrArg Multiset.sum (Pool.labels_solve _ _ hsolve)
    | turn o m pool hnext hturn =>
      obtain ⟨t, ht, hend⟩ := turn_cases hturn
      have hhandled := hs.handleMessage hr hnext ht
      obtain ⟨-, rfl⟩ | ⟨-, hend⟩ := hend
      · exact hhandled
      · obtain ⟨_, heffect⟩ := handleMessage_effect ht
        have hworkloads : t.workloads = s.workloads := heffect.keeps.workloads
        refine EntersOnce.endOfTurn (u := t.noteHandled m) ?_ (hworkloads ▸ howned) hend
        exact hhandled.of_way rfl rfl id (.inl (le_refl _))
    | callback o q mailbox pool hnext hrun =>
      obtain ⟨t, ht, hend⟩ := serverCallback_cases hrun
      obtain ⟨-, -, rfl⟩ := serverOnCallbackReceived_effect ht
      refine EntersOnce.endOfTurn (u := Sim.noteHandled _ _) ?_ (by exact howned) hend
      refine hs.of_way rfl rfl id (.inl ?_)
      rw [onTheWay_resume hnext]
      exact Nat.le_add_left _ _
    | start o pool hnext hrun =>
      rw [serverProcess_effect hrun]
      refine hs.of_way rfl rfl id (.inl ?_)
      rw [onTheWay_resume hnext]
      refine le_trans (onTheWay_of_pool (c := []) (b := [.requestReply
        (({ s with pool := pool } : Sim).logged .simulationBegins).writer.events]) ?_ ?_).le
        (Nat.le_add_left _ _)
      · simp [messageSent, logged, Pool.spawn]
      · simp [Thread.entering]
    | actor o t pool ht hnext hrun => exact hs.runThread hr hp ht hnext hrun

/-- A job is submitted once at most, unless the scheduler registers it in a workload of a file,
beside the jobs of the file. -/
theorem submitted_once (hp : cfg.Sole p) (h : Reaches (batsim cfg) guard s) :
    p ∉ s.history.resubmitted ∧ s.history.submitted.count p ≤ 1 := by
  have hs := reaches_entersOnce hp h
  exact ⟨hs.fresh, le_trans (Nat.le_add_left _ _) hs.once⟩

end runs

/-- The lone host, with a job in the file of its workload. -/
def loneFile : Config :=
  let d : WorkloadDescription :=
    { name := "w0", profiles := delayProfiles
      jobs := [{ description := loneJobDescription
                 profile := { name := "delay", type := .delay } }] }
  { loneHost with
    workloadDescriptions := [d]
    workloads := (loadWorkloadsAndWorkflows [d] []).toOption.getD ⟨∅⟩
    workloads_loaded := rfl }

theorem lone_file_submitted_once : ∃ s, Reaches (batsim loneFile) anyStep s ∧
    s.history.submitted = [ptr loneJob] ∧
      ptr loneJob ∉ s.history.resubmitted ∧ s.history.submitted.count (ptr loneJob) ≤ 1 := by
  obtain ⟨s, hreaches, hsubmitted⟩ := exists_reaches_of_run (batsim loneFile) anyStep
    (fun s => s.history.submitted = [ptr loneJob])
    [.next, .next, .next (.reply { now := 0, events := [] }), .receive, .next, .next, .receive,
      .next, .pass 10 false fun _ => true, .next, .receive, .next] (by decide +kernel)
  refine ⟨s, hreaches, hsubmitted, submitted_once (.inr (.inr ?_)) hreaches⟩
  exact ⟨_, rfl, by decide⟩

end Batsim
