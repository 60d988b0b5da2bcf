import Batsim.Flows

/-!
The actors that are not executions of jobs nor killers: what they do to jobs, and which jobs they
submit.
-/

namespace Batsim

open Checked Workloads Sim StepSystem

/-! ### Actors without a job -/

/-- What the run of an actor that neither executes nor kills jobs does to them: at most, a job that
was never met is registered. -/
structure Bystands (s s' : Sim) (new : Option (JobPtr × Job)) : Prop where
  registers : Registers s.workloads s'.workloads (new.map Prod.fst)
  job : s'.job = new.elim s.job fun x => Function.update s.job x.1 x.2
  blank : ∀ p j, new = some (p, j) →
    j.killRequested = false ∧ j.task = none ∧ j.executionActors = [] ∧
      (j.state = .notSubmitted ∨ j.state = .submitted)
  ptask : s'.ptask = s.ptask
  runs : s'.history.runs = s.history.runs
  ends : s'.history.ends = s.history.ends
  silentEnds : s'.history.silentEnds = s.history.silentEnds

/-- A run that touches no job. -/
theorem Bystands.of_same {s s' : Sim} (hworkloads : s'.workloads = s.workloads)
    (hjob : s'.job = s.job) (hptask : s'.ptask = s.ptask)
    (hruns : s'.history.runs = s.history.runs) (hends : s'.history.ends = s.history.ends)
    (hsilent : s'.history.silentEnds = s.history.silentEnds) : Bystands s s' none :=
  ⟨hworkloads ▸ .refl _, hjob, by simp, hptask, hruns, hends, hsilent⟩

theorem Adds.bystands {s t : Sim} {new : Option (JobPtr × Job)} (h : Adds s t new)
    (hstate : ∀ p j, new = some (p, j) → j.state = .notSubmitted ∨ j.state = .submitted) :
    Bystands s t new := by
  refine ⟨h.registers, ?_, fun p j hnew => ?_, ?_, ?_, ?_, ?_⟩
  · rw [h.eq]
    cases new <;> rfl
  · obtain ⟨hkill, htask, hactors⟩ := h.blank p j hnew
    exact ⟨hkill, htask, hactors, hstate p j hnew⟩
  all_goals
    rw [h.eq]
    cases new <;> rfl

theorem Bystands.trans_same {s t u : Sim} {new : Option (JobPtr × Job)} (h : Bystands s t new)
    (h' : Bystands t u none) : Bystands s u new := by
  have hstored : ∀ p, u.workloads.Stored p ↔ t.workloads.Stored p := fun p => by
    simpa using h'.registers.stored p
  have hmet : ∀ p, u.workloads.Met p ↔ t.workloads.Met p := fun p => by
    simpa using h'.registers.met p
  refine ⟨⟨fun howned => h'.registers.owned (h.registers.owned howned), fun p => ?_, fun p => ?_,
    h.registers.fresh⟩, h'.job.trans h.job, h.blank, h'.ptask.trans h.ptask,
    h'.runs.trans h.runs, h'.ends.trans h.ends, h'.silentEnds.trans h.silentEnds⟩
  · rw [hstored, h.registers.stored]
  · rw [hmet, h.registers.met]

theorem same_trans_bystands {s t u : Sim} {new : Option (JobPtr × Job)} (h : Bystands s t none)
    (h' : Bystands t u new) : Bystands s u new := by
  have hstored : ∀ p, t.workloads.Stored p ↔ s.workloads.Stored p := fun p => by
    simpa using h.registers.stored p
  have hmet : ∀ p, t.workloads.Met p ↔ s.workloads.Met p := fun p => by
    simpa using h.registers.met p
  have hjob : t.job = s.job := h.job
  refine ⟨⟨fun howned => h'.registers.owned (h.registers.owned howned), fun p => ?_, fun p => ?_,
    fun p hp hold => h'.registers.fresh p hp ((hmet p).mpr hold)⟩, hjob ▸ h'.job, h'.blank,
    h'.ptask.trans h.ptask, h'.runs.trans h.runs, h'.ends.trans h.ends,
    h'.silentEnds.trans h.silentEnds⟩
  · rw [h'.registers.stored, hstored]
  · rw [h'.registers.met, hmet]

theorem bystands_sendAtTime (now : Date) (s : Sim) (date : Date) (m : IPMessage)
    (rest : List ReplyItem) : Bystands s (sendAtTime now s date m rest) none := by
  refine .of_same ?_ ?_ ?_ ?_ ?_ ?_ <;> unfold sendAtTime noteSent <;> split <;>
    first | rfl | (split <;> rfl)

theorem applyReply_bystands {cfg : Config} {now : Date} {s s' : Sim} {todo : List ReplyItem}
    (howned : s.workloads.Owned) (h : applyReply cfg now s todo = .ok s') :
    ∃ new, Bystands s s' new := by
  obtain ⟨rfl, -⟩ | ⟨_, _, tail, t, new, date, m, ms, -, -, -, hadds, hnew, rfl⟩ :=
    applyReply_effect howned h
  · exact ⟨none, .of_same rfl rfl rfl rfl rfl rfl⟩
  · refine ⟨new, (hadds.bystands fun p j hp => .inr (hnew p j hp).1).trans_same ?_⟩
    exact bystands_sendAtTime now t date m _

theorem workflowLoop_bystands {cfg : Config} {s s' : Sim} {run : WorkflowRun}
    (h : workflowLoop cfg s run = .ok s') : ∃ new, Bystands s s' new := by
  have hdoes := workflowLoop_effect h
  cases hdoes with
  | send t id j run' i _ _ _ hstate hadds =>
    refine ⟨_, (hadds.bystands fun p j' hp => ?_).trans_same (.of_same rfl rfl rfl rfl rfl rfl)⟩
    cases hp
    exact .inl hstate
  | wait _ => exact ⟨none, .of_same rfl rfl rfl rfl rfl rfl⟩
  | bye _ => exact ⟨none, .of_same rfl rfl rfl rfl rfl rfl⟩

theorem SubmitterKind.Does.bystands {α : Type} {k : SubmitterKind α} {s s' : Sim} {items : List α}
    (h : k.Does s items s') : Bystands s s' none := by
  cases h <;> exact .of_same rfl rfl rfl rfl rfl rfl

theorem SubmitterKind.resume_bystands {α : Type} {k : SubmitterKind α} {s s' : Sim}
    {hello : IPMessage} {items : Except String (List α)} {phase : SubmitterPhase α}
    (h : k.resume s hello items phase = .ok s') : Bystands s s' none := by
  obtain ⟨-, rfl⟩ | ⟨-, list, -, hdoes⟩ | ⟨-, -, hdoes⟩ := k.resume_effect h
  · exact .of_same rfl rfl rfl rfl rfl rfl
  · exact hdoes.bystands
  · exact hdoes.bystands

/-- The run of an actor without a job. -/
theorem runThread_bystands {cfg : Config} {s s' : Sim} {o : Outcome} {t : Thread}
    (howned : s.workloads.Owned) (hserver : t.isServer = false) (hactor : t.actor? = none)
    (hkiller : t.isKiller = false) (h : runThread cfg s o t = .ok s') :
    ∃ new, Bystands s s' new := by
  cases t with
  | serverProcess | serverCallback _ _ => cases hserver
  | executeJob _ | executing _ _ | cancelled _ | notified _ => cases hactor
  | killer _ _ => cases hkiller
  | requestReply message =>
    cases o with
    | reply r =>
      obtain ⟨new, hnew⟩ := applyReply_bystands (s := { s with history := { s.history with
        replies := s.history.replies ++ [(r, [])] } }) howned (requestReply_effect h)
      refine ⟨new, same_trans_bystands ?_ hnew⟩
      exact .of_same rfl rfl rfl rfl rfl rfl
    | _ => simp [runThread] at h
  | applyReply now todo => exact applyReply_bystands howned h
  | waiter date =>
    simp only [runThread, Except.ok.injEq] at h
    subst h
    refine ⟨none, ?_⟩
    obtain ⟨d, heq⟩ | heq := waiterProcess_cases s date <;> rw [heq]
    · exact .of_same rfl rfl rfl rfl rfl rfl
    · obtain ⟨heq, -⟩ | ⟨heq, -⟩ := endOfWait_cases s <;> rw [heq] <;>
        exact .of_same rfl rfl rfl rfl rfl rfl
  | waiting date =>
    simp only [runThread, Except.ok.injEq] at h
    subst h
    refine ⟨none, ?_⟩
    obtain ⟨heq, -⟩ | ⟨heq, -⟩ := endOfWait_cases s <;> rw [heq] <;>
      exact .of_same rfl rfl rfl rfl rfl rfl
  | switchOn id pstate =>
    obtain ⟨m, sleep, -, -, -, rfl⟩ := switchOnMachineProcess_effect h
    exact ⟨none, .of_same rfl rfl rfl rfl rfl rfl⟩
  | switchOff id pstate =>
    obtain ⟨m, sleep, -, -, -, rfl⟩ := switchOffMachineProcess_effect h
    exact ⟨none, .of_same rfl rfl rfl rfl rfl rfl⟩
  | switchingOn id pstate | switchingOff id pstate =>
    obtain ⟨m, machines, -, -, -, rfl⟩ := endOfSwitch_effect h
    exact ⟨none, .of_same rfl rfl rfl rfl rfl rfl⟩
  | jobSubmitter w phase => exact ⟨none, SubmitterKind.resume_bystands h⟩
  | eventSubmitter l phase => exact ⟨none, SubmitterKind.resume_bystands h⟩
  | workflowSubmitter run phase =>
    cases phase with
    | started | greeted =>
      simp only [runThread, workflowSubmitterProcess, Except.ok.injEq] at h
      exact ⟨none, h ▸ .of_same rfl rfl rfl rfl rfl rfl⟩
    | asleep date => exact workflowLoop_bystands h
    | submitted id i => exact workflowLoop_bystands h
    | waiting =>
      simp only [runThread, workflowSubmitterProcess] at h
      repeat' split at h
      any_goals cases h
      obtain ⟨new, hnew⟩ := workflowLoop_bystands h
      refine ⟨new, same_trans_bystands ?_ hnew⟩
      exact .of_same rfl rfl rfl rfl rfl rfl

/-! ### What is submitted was met -/

/-- The jobs that a submitter still has to submit. -/
def Thread.toSubmit : Thread → List JobPtr
  | jobSubmitter _ phase => SubmitterKind.itemsOf phase
  | _ => []

def IPMessage.submits : IPMessage → List JobPtr
  | jobSubmitted _ jobs => jobs
  | _ => []

/-- The job is being submitted, or will be. -/
def Submits (p : Pool IPMessage Thread) (job : JobPtr) : Prop :=
  (∃ t ∈ p.threads, job ∈ t.toSubmit) ∨ ∃ m ∈ p.queue, job ∈ m.submits

section pools

variable {p q p' : Pool IPMessage Thread} {job : JobPtr}

theorem Submits.of_next {e : Entry IPMessage Thread} (hnext : p.next? = some (e, q))
    (h : Submits q job) : Submits p job := by
  obtain ⟨t, ht, hjob⟩ | ⟨m, hm, hjob⟩ := h
  · refine .inl ⟨t, ?_, hjob⟩
    cases e with
    | deliver m => rwa [← (Pool.next?_deliver hnext).1]
    | resume u => exact (Pool.next?_resume hnext).1.mem_iff.mpr (List.mem_cons_of_mem _ ht)
  · refine .inr ⟨m, ?_, hjob⟩
    cases e with
    | deliver m' =>
      rw [(Pool.next?_deliver hnext).2.1]
      exact List.mem_cons_of_mem _ hm
    | resume u => rwa [(Pool.next?_resume hnext).2]

/-- Threads that submit nothing change nothing. -/
theorem Submits.of_pool {ts bs : List Thread}
    (hp : p = { q with fresh := q.fresh ++ ts, blocked := q.blocked ++ bs })
    (hts : ∀ t ∈ ts ++ bs, t.toSubmit = []) (h : Submits p job) : Submits q job := by
  obtain ⟨t, ht, hjob⟩ | ⟨m, hm, hjob⟩ := h
  · obtain hold | hnew | hnew := (mem_threads_of_pool hp).mp ht
    · exact .inl ⟨t, hold, hjob⟩
    · rw [hts t (List.mem_append_left _ hnew)] at hjob
      cases hjob
    · rw [hts t (List.mem_append_right _ hnew)] at hjob
      cases hjob
  · have hqueue : p.queue = q.queue := by rw [hp]; rfl
    exact .inr ⟨m, hqueue ▸ hm, hjob⟩

theorem Submits.of_put {m : IPMessage} {sender : Option Thread} (h : Submits (p.put m sender) job)
    (hsender : ∀ t, sender = some t → job ∈ t.toSubmit → Submits p job)
    (hm : job ∈ m.submits → Submits p job) : Submits p job := by
  obtain ⟨t, ht, hjob⟩ | ⟨m', hm', hjob⟩ := h
  · obtain hnew | hold := (Pool.mem_threads_put _ _ _).mp ht
    · exact hsender t hnew hjob
    · exact .inl ⟨t, hold, hjob⟩
  · rw [Pool.queue_put, List.mem_append, List.mem_singleton] at hm'
    obtain hold | rfl := hm'
    · exact .inr ⟨m', hold, hjob⟩
    · exact hm hjob

/-- The moves of the actors that submit no job. -/
theorem Thread.Moves.submits {t : Thread} (h : t.Moves q p') (hreads : t.ReadsReply)
    (hjob : ∀ w phase, t ≠ .jobSubmitter w phase)
    (hworkflow : ∀ run phase, t ≠ .workflowSubmitter run phase) (hp' : Submits p' job) :
    Submits q job := by
  obtain ⟨u, hu, hin⟩ | ⟨m, hm, hin⟩ := hp'
  · obtain hold | ⟨m, hputs⟩ | hwaits | ⟨a, rfl, -⟩ := h.mem_threads hu
    · exact .inl ⟨u, hold, hin⟩
    · cases u with
      | jobSubmitter w phase =>
        cases hputs with
        | firstReply _ _ _ _ hsender _ | reply _ _ _ _ hsender _ =>
          obtain ⟨_, heq⟩ := hsender _ rfl
          cases heq
        | jobHello | jobs => exact absurd rfl (hjob _ _)
      | _ => cases hin
    · cases u with
      | jobSubmitter w phase => cases hwaits with | jobs => exact absurd rfl (hjob _ _)
      | _ => cases hin
    · cases hin
  · obtain hold | ⟨sender, hputs⟩ := h.mem_queue hm
    · exact .inr ⟨m, hold, hin⟩
    · cases hreader : t.isReader with
      | true =>
        have hfrom := hputs.of_reader hreads hreader
        cases m <;> first | contradiction | cases hfrom; done
      | false =>
        cases hputs with
        | firstReply | reply => cases hreader
        | jobs => exact absurd rfl (hjob _ _)
        | workflowJob => exact absurd rfl (hworkflow _ _)
        | _ => cases hin

end pools

theorem jobSubmitter_submits {s s' : Sim} {w : String} {items : List JobPtr} {job : JobPtr}
    (h : (jobSubmitterKind s w).Does s items s') (hjob : Submits s'.pool job) :
    Submits s.pool job ∨ job ∈ items := by
  cases h with
  | bye _ =>
    refine .inl (Submits.of_put hjob (by simp) fun hin => ?_)
    cases hin
  | send batch remaining date _ hitems =>
    by_cases hin : job ∈ items
    · exact .inr hin
    · rw [← hitems, List.mem_append, not_or] at hin
      refine .inl (Submits.of_put hjob (fun t ht hsubmit => ?_) fun hsubmit => ?_)
      · cases ht
        exact absurd hsubmit hin.2
      · exact absurd hsubmit hin.1
  | sleep date p rest hitems =>
    obtain ⟨t, ht, hin⟩ | hmessage := hjob
    · obtain rfl | hold := (Pool.mem_threads_block _ _).mp ht
      · exact .inr (hitems ▸ hin)
      · exact .inl (.inl ⟨t, hold, hin⟩)
    · exact .inl (.inr hmessage)

theorem workflowLoop_submits {cfg : Config} {s s' : Sim} {run : WorkflowRun} {job : JobPtr}
    (h : workflowLoop cfg s run = .ok s') (hjob : Submits s'.pool job) :
    Submits s.pool job ∨ s'.workloads.Met job := by
  have hdoes := workflowLoop_effect h
  cases hdoes with
  | send t id j run' i _ _ _ _ hadds =>
    have hmet : t.workloads.Met ⟨run.workflow.name, id⟩ := (hadds.registers.met _).mpr (.inr rfl)
    by_cases heq : job = ⟨run.workflow.name, id⟩
    · exact .inr (heq ▸ hmet)
    · left
      rw [← hadds.pool]
      refine Submits.of_put hjob (fun u hu hin => ?_) fun hin => absurd (List.mem_singleton.mp hin) heq
      cases hu
      cases hin
  | wait _ =>
    obtain ⟨t, ht, hin⟩ | hmessage := hjob
    · obtain rfl | hold := (Pool.mem_threads_block _ _).mp ht
      · cases hin
      · exact .inl (.inl ⟨t, hold, hin⟩)
    · exact .inl (.inr hmessage)
  | bye _ =>
    refine .inl (Submits.of_put hjob (by simp) fun hin => ?_)
    cases hin

/-- A run of an actor: what it makes submitted was to be, or is met. -/
theorem runThread_submits {cfg : Config} {s s' : Sim} {o : Outcome} {t : Thread}
    (howned : s.workloads.Owned) (hserver : t.isServer = false) (hreads : t.ReadsReply)
    (h : runThread cfg s o t = .ok s') {job : JobPtr} (hjob : Submits s'.pool job) :
    Submits s.pool job ∨ job ∈ t.toSubmit ∨ s'.workloads.Met job := by
  have hmoves := (runThread_moves howned hserver h).1
  cases t with
  | jobSubmitter w phase =>
    obtain ⟨-, rfl⟩ | ⟨-, list, hlist, hd⟩ | ⟨-, -, hd⟩ := SubmitterKind.resume_effect _ h
    · refine .inl (Submits.of_put hjob (fun t ht hin => ?_) fun hin => ?_)
      · cases ht
        cases hin
      · cases hin
    · obtain hold | hin := jobSubmitter_submits hd hjob
      · exact .inl hold
      · simp only [bind_eq_ok, at?_eq_ok, Except.ok.injEq] at hlist
        obtain ⟨wl, hwl, rfl⟩ := hlist
        rw [List.mem_insertionSort, List.mem_map] at hin
        obtain ⟨⟨id, p⟩, hentry, rfl⟩ := hin
        have hworkloads : s'.workloads = s.workloads := by cases hd <;> rfl
        have hlookup : wl.jobs.jobs.lookup id = some p := AList.mem_lookup_iff.mpr hentry
        have hname : p.workload = w := howned w wl id p hwl hlookup
        have hid : p.id = id := wl.jobs.id_of_lookup id p hlookup
        refine .inr (.inr (Stored.met ⟨wl, ?_, ?_⟩))
        · rw [hworkloads, hname]
          exact hwl
        · rw [hid]
          exact hlookup
    · obtain hold | hin := jobSubmitter_submits hd hjob
      · exact .inl hold
      · exact .inr (.inl hin)
  | workflowSubmitter run phase =>
    cases phase with
    | started | greeted =>
      simp only [runThread, workflowSubmitterProcess, Except.ok.injEq] at h
      subst h
      obtain ⟨t, ht, hin⟩ | ⟨m, hm, hin⟩ := hjob
      · simp only [Sim.put, Sim.block, Pool.mem_threads_put, Pool.mem_threads_block,
          Option.some.injEq] at ht
        obtain rfl | hold := ht
        · cases hin
        · exact .inl (.inl ⟨t, hold, hin⟩)
      · simp only [Sim.put, Sim.block, Pool.queue_put, Pool.queue_block, List.mem_append,
          List.mem_singleton] at hm
        first
          | obtain hold | rfl := hm
            · exact .inl (.inr ⟨m, hold, hin⟩)
            · cases hin
          | exact .inl (.inr ⟨m, hm, hin⟩)
    | asleep date => exact (workflowLoop_submits h hjob).imp_right .inr
    | submitted id i => exact (workflowLoop_submits h hjob).imp_right .inr
    | waiting =>
      simp only [runThread, workflowSubmitterProcess] at h
      repeat' split at h
      any_goals cases h
      exact (workflowLoop_submits h hjob).imp_right .inr
  | _ => exact .inl (hmoves.submits hreads (by simp) (by simp) hjob)

section runs

variable {cfg : Config} {guard : Sim → Choice → Prop} {s : Sim}

/-- Every job that is or will be submitted was met by its workload. -/
theorem reaches_submits (h : Reaches (batsim cfg) guard s) :
    ∀ job, Submits s.pool job → s.workloads.Met job := by
  refine h.invariant (P := fun s => ∀ job, Submits s.pool job → s.workloads.Met job) ?_ ?_
  · rintro job (⟨t, ht, hin⟩ | ⟨m, hm, -⟩)
    · have hinitial : t ∈ initialThreads cfg := by
        simpa [batsim, start, Pool.threads] using ht
      simp only [initialThreads, List.mem_append, List.mem_map, List.mem_singleton] at hinitial
      obtain ((⟨d, -, rfl⟩ | ⟨d, -, rfl⟩) | ⟨d, -, rfl⟩) | rfl := hinitial <;> cases hin
    · cases hm
  intro s s' c hr hs _ hstep job hjob
  have howned := reaches_owned hr
  have hquiet : ∀ t : Thread, (∃ m, t.launchedBy m = true) ∨ (∃ message, t = .requestReply message) ∨
      (∃ p mailbox, t = .serverCallback p mailbox) → t.toSubmit = [] := by
    rintro t (⟨m, hm⟩ | ⟨_, rfl⟩ | ⟨_, _, rfl⟩)
    · cases t <;> first | rfl | (cases m <;> cases hm)
    · rfl
    · rfl
  have hend : ∀ {u u' : Sim}, u.workloads.Owned → endOfTurn cfg u = .ok u' →
      ∀ p, u'.workloads.Met p ↔ u.workloads.Met p := by
    intro u u' hu hrun p
    obtain rfl | ⟨workloads, hflush⟩ | hfinish := endOfTurn_cases hrun
    · exact Iff.rfl
    · rw [hflush.eq]
      exact (deleteJobs_effect hflush.deleted hu).2.2 p
    · rw [hfinish.eq]
      exact Iff.rfl
  cases step_kind hstep with
  | solve clock receive wakes rest order pool hcan hsolve hs' =>
    subst hs'
    refine hs job ?_
    obtain ⟨t, ht, hin⟩ | ⟨m, hm, hin⟩ := hjob
    · exact .inl ⟨t, (Pool.threads_solve hsolve).mem_iff.mp ht, hin⟩
    · have hqueue : pool.queue = s.pool.queue := Pool.queue_solve hsolve
      exact .inr ⟨m, hqueue ▸ hm, hin⟩
  | turn o m pool hnext hturn =>
    obtain ⟨ts, bs, hpool, hts, hbs⟩ := turn_pool hturn
    have hold : Submits pool job := by
      refine Submits.of_pool hpool (fun t ht => hquiet t ?_) hjob
      rcases List.mem_append.mp ht with ht | ht
      · exact (hts t ht).imp (fun h => ⟨m, h⟩) .inl
      · obtain rfl | ⟨p, mailbox, rfl⟩ := hbs
        · cases ht
        · exact .inr (.inr ⟨p, mailbox, List.mem_singleton.mp ht⟩)
    obtain ⟨t, ht, hor⟩ := turn_cases hturn
    have hworkloads : t.workloads = s.workloads := by
      obtain ⟨_, hhandled⟩ := handleMessage_effect ht
      exact hhandled.keeps.workloads
    have hmet := hs job (hold.of_next hnext)
    obtain ⟨-, rfl⟩ | ⟨-, hrun⟩ := hor
    · rwa [hworkloads]
    · refine (hend ?_ hrun job).mpr ?_
      · have hsame : (t.noteHandled m).workloads = s.workloads := hworkloads
        rwa [hsame]
      · have hsame : (t.noteHandled m).workloads = s.workloads := hworkloads
        rwa [hsame]
  | callback o p mailbox pool hnext hrun =>
    obtain ⟨ts, hpool, hts⟩ := callback_pool hrun
    have hold : Submits pool job := by
      refine Submits.of_pool hpool (fun t ht => hquiet t ?_) hjob
      exact .inr (.inl (hts t (by simpa using ht)))
    obtain ⟨t, ht, hlast⟩ := serverCallback_cases hrun
    obtain ⟨hkeeps, -⟩ := serverOnCallbackReceived_frame ht
    have hsame : (t.noteHandled (.jobCompleted p)).workloads = s.workloads := hkeeps.workloads
    refine (hend (hsame ▸ howned) hlast job).mpr ?_
    rw [hsame]
    exact hs job (hold.of_next hnext)
  | start o pool hnext hrun =>
    have heffect := serverProcess_effect hrun
    have hpool : s'.pool = { pool with
        fresh := pool.fresh ++ [.requestReply (s.logged .simulationBegins).writer.events]
        blocked := pool.blocked ++ [] } := by
      rw [heffect]
      simp [messageSent, logged, Pool.spawn]
    have hold : Submits pool job :=
      Submits.of_pool hpool (fun t ht => hquiet t (.inr (.inl ⟨_, by simpa using ht⟩))) hjob
    have hworkloads : s'.workloads = s.workloads := by
      rw [heffect]
      rfl
    rw [hworkloads]
    exact hs job (hold.of_next hnext)
  | actor o t pool ht hnext hrun =>
    obtain ⟨new, hregisters⟩ := runThread_registers (s := { s with pool := pool }) howned ht hrun
    have hthread : t ∈ s.pool.threads :=
      (Pool.next?_resume hnext).1.mem_iff.mpr (List.mem_cons_self ..)
    obtain hold | hin | hmet := runThread_submits (s := { s with pool := pool }) howned ht
      (reaches_readsReply hr hthread) hrun hjob
    · exact (hregisters.met job).mpr (.inl (hs job (Submits.of_next hnext hold)))
    · exact (hregisters.met job).mpr (.inl (hs job (.inl ⟨t, hthread, hin⟩)))
    · exact hmet

end runs

end Batsim
