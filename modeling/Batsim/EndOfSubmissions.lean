import Batsim.Flows
import Batsim.AppendedEvents

/-!
The ends of the submissions of jobs and of external events, and what the scheduler is told about
them.
-/

namespace Batsim

open Checked Workloads Sim StepSystem

/-! ### Submitters and their goodbyes -/

/-- The kind of a submitter. -/
def Thread.submits? : Thread → Option SubmitterType
  | jobSubmitter _ _ | workflowSubmitter _ _ => some .jobSubmitter
  | eventSubmitter _ _ => some .eventSubmitter
  | _ => none

/-- The kind of the submitter that says goodbye. -/
def IPMessage.bye? : IPMessage → Option SubmitterType
  | submitterBye _ type _ => some type
  | _ => none

/-- The kind of the submitter that submits. -/
def IPMessage.submission? : IPMessage → Option SubmitterType
  | jobSubmitted _ _ => some .jobSubmitter
  | eventOccurred _ _ => some .eventSubmitter
  | _ => none

/-- A submitter lives until it says goodbye. -/
theorem submitter_flow : Flow Thread.submits? IPMessage.bye? := by
  refine .of_others ?_ ?_ ?_ (fun _ => rfl) (fun _ _ => rfl) ?_ ?_
  · intro t ht
    cases t <;> first | rfl | cases ht
  · intro t ht
    cases t <;> first | rfl | cases ht
  · intro m hm
    cases m <;> first | rfl | cases hm
  · intro t m sender hreader hactor hputs
    cases hputs with
    | firstReply | reply => cases hreader
    | completed _ a ha | fromJob _ a _ ha =>
      rw [hactor] at ha
      cases ha
    | waited _ hw => cases t <;> first | rfl | cases hw
    | _ => rfl
  · intro t u hreader hactor hwaits
    cases hwaits with
    | reply _ _ _ hor => obtain ⟨_, rfl⟩ | ⟨_, rfl⟩ := hor <;> cases hreader
    | leaf _ a _ ha =>
      rw [hactor] at ha
      cases ha
    | _ => rfl

/-- How many submitters of a kind there are. -/
def Config.nbSubmitters (cfg : Config) : SubmitterType → Nat
  | .jobSubmitter => cfg.workloadDescriptions.length + cfg.workflowDescriptions.length
  | .eventSubmitter => cfg.eventLists.length

/-- How many goodbyes of a kind there are in some messages. -/
def nbByes (type : SubmitterType) (ms : List IPMessage) : Nat :=
  (ms.filterMap IPMessage.bye?).count type

theorem nbByes_append (type : SubmitterType) (ms ms' : List IPMessage) :
    nbByes type (ms ++ ms') = nbByes type ms + nbByes type ms' := by
  simp [nbByes, List.filterMap_append, List.count_append]

theorem nbByes_singleton (type : SubmitterType) (m : IPMessage) :
    nbByes type [m] = if m.bye? = some type then 1 else 0 := by
  cases hm : m.bye? with
  | none => simp [nbByes, hm]
  | some type' => by_cases heq : type' = type <;> simp [nbByes, hm, heq]

theorem initialThreads_submits (cfg : Config) (type : SubmitterType) :
    ((initialThreads cfg).filterMap Thread.submits?).count type = cfg.nbSubmitters type := by
  have hsplit : (initialThreads cfg).filterMap Thread.submits? =
      cfg.workloadDescriptions.map (fun _ => SubmitterType.jobSubmitter) ++
        cfg.workflowDescriptions.map (fun _ => SubmitterType.jobSubmitter) ++
          cfg.eventLists.map (fun _ => SubmitterType.eventSubmitter) := by
    have hserver : [Thread.serverProcess].filterMap Thread.submits? = [] := rfl
    rw [initialThreads, List.filterMap_append, hserver, List.append_nil]
    simp only [List.filterMap_append, List.filterMap_map, Function.comp_def, Thread.submits?,
      List.filterMap_eq_map']
  rw [hsplit]
  cases type <;> simp [List.count_append, List.map_const', List.count_replicate,
    Config.nbSubmitters]

/-- Each workload of a file and each workflow makes a static workload. -/
theorem loadWorkloads_nbStaticWorkloads {workloads : List WorkloadDescription}
    {workflows : List WorkflowDescription} {ws : Workloads}
    (h : loadWorkloadsAndWorkflows workloads workflows = .ok ws) :
    ws.nbStaticWorkloads = workloads.length + workflows.length := by
  have hinsert : ∀ {ws ws' : Workloads} {name : String} {wl : Workload}, wl.isStatic = true →
      ws.insertWorkload name wl = .ok ws' → ws'.nbStaticWorkloads = ws.nbStaticWorkloads + 1 := by
    intro ws ws' name wl hstatic hins
    simp only [insertWorkload, bind_eq_ok, xbtAssert_eq_ok, Except.ok.injEq] at hins
    obtain ⟨_, hnew, _, -, rfl⟩ := hins
    have habsent : name ∉ ws.workloads := by
      intro hmem
      rw [exists?, AList.lookup_isSome.mpr hmem] at hnew
      cases hnew
    rw [nbStaticWorkloads, Workloads.set, AList.entries_insert_of_notMem habsent]
    exact List.countP_cons_of_pos hstatic
  simp only [loadWorkloadsAndWorkflows, bind_eq_ok] at h
  obtain ⟨ws₁, hfirst, hsecond⟩ := h
  have hfiles : ws₁.nbStaticWorkloads = workloads.length := by
    refine forEach_invariant (fun done ws => Workloads.nbStaticWorkloads ws = done.length)
      (by simp [nbStaticWorkloads]) ?_ hfirst
    intro done d rest u u' _ hu hstep
    simp only [bind_eq_ok] at hstep
    obtain ⟨jobs, -, hins⟩ := hstep
    rw [hinsert rfl hins, hu, List.length_append, List.length_singleton]
  rw [← hfiles]
  refine forEach_invariant
    (fun done ws => Workloads.nbStaticWorkloads ws = ws₁.nbStaticWorkloads + done.length)
    (by simp) ?_ hsecond
  intro done d rest u u' _ hu hins
  rw [hinsert rfl hins, hu, List.length_append, List.length_singleton, Nat.add_assoc]

/-! ### The counters of the server -/

/-- The server expects the submitters of the configuration, and counts their goodbyes. -/
def Sim.CountsByes (cfg : Config) (s : Sim) : Prop :=
  ∀ type, (s.data.submitterCounters type).expectedNbSubmitters = cfg.nbSubmitters type ∧
    (s.data.submitterCounters type).nbSubmittersFinished = nbByes type s.history.handled

section runs

variable {cfg : Config} {guard : Sim → Choice → Prop} {s s' : Sim}

theorem handleMessage_counters {m : IPMessage} {t : Sim} (h : handleMessage cfg s m = .ok t)
    (type : SubmitterType) :
    (t.data.submitterCounters type).expectedNbSubmitters =
        (s.data.submitterCounters type).expectedNbSubmitters ∧
      (t.data.submitterCounters type).nbSubmittersFinished =
        (s.data.submitterCounters type).nbSubmittersFinished + nbByes type [m] := by
  rw [nbByes_singleton]
  cases hm : m.touchesSubmitters with
  | false =>
    obtain ⟨_, hhandled⟩ := handleMessage_effect h
    have hbye : m.bye? = none := by cases m <;> first | rfl | cases hm
    rw [(hhandled.submitters hm).submitterCounters, hbye]
    exact ⟨rfl, rfl⟩
  | true =>
    cases m with
    | submitterHello name callback type' =>
      obtain ⟨-, -, -, hfinished, hexpected, -⟩ := serverOnSubmitterHello_effect h
      exact ⟨hexpected type, hfinished type⟩
    | submitterBye name type' isWorkflow =>
      obtain ⟨-, -, hfinished, hexpected, -⟩ := serverOnSubmitterBye_effect h
      refine ⟨hexpected type, ?_⟩
      rw [hfinished type]
      simp only [IPMessage.bye?, Option.some.injEq, eq_comm]
    | _ => cases hm

theorem endOfTurn_counters (h : endOfTurn cfg s = .ok s') :
    s'.data.submitterCounters = s.data.submitterCounters := by
  obtain rfl | ⟨workloads, hflush⟩ | hfinish := endOfTurn_cases h
  · rfl
  · rw [hflush.eq]
    rfl
  · rw [hfinish.eq]
    rfl

/-- Only the start of the server takes it out of the threads that have not started. -/
theorem serverProcess_stays (hr : Reaches (batsim cfg) guard s)
    (hserver : Thread.serverProcess ∈ s.pool.threads) {o : Outcome} {t : Thread}
    {pool : Pool IPMessage Thread} (ht : t.isServer = false)
    (hnext : s.pool.next? = some (.resume t, pool))
    (hrun : runThread cfg { s with pool := pool } o t = .ok s') :
    Thread.serverProcess ∈ s'.pool.threads := by
  have hthere : Thread.serverProcess ∈ pool.threads := by
    rcases List.mem_cons.mp ((Pool.next?_resume hnext).1.mem_iff.mp hserver) with heq | hmem
    · rw [← heq] at ht
      cases ht
    · exact hmem
  obtain ⟨done, todo, hsplit, rfl⟩ := reaches_unstarted hr hserver
  cases todo with
  | nil => simp [Pool.next?] at hnext
  | cons u todo =>
    simp only [Pool.next?, Option.some.injEq, Prod.mk.injEq, Entry.resume.injEq] at hnext
    obtain ⟨rfl, rfl⟩ := hnext
    obtain hsub | ⟨rfl, -⟩ := (serverProcess_not_mem_done hsplit (by simp)).2 _ _ rfl
    · rw [(initialSubmitters_greet hsub).2 hrun]
      exact (Pool.threads_put _ _ _).mem_iff.mpr (List.mem_append_right _ hthere)
    · cases ht

/-- From its start on, the server counts the goodbyes that it handles. -/
theorem reaches_countsByes (h : Reaches (batsim cfg) guard s)
    (hstarted : Thread.serverProcess ∉ s.pool.threads) : s.CountsByes cfg := by
  induction h with
  | start => exact absurd (by simp [batsim, Batsim.start, Pool.threads, initialThreads]) hstarted
  | @step s s' c hr _ hstep ih =>
    have hend : ∀ {t u u' : Sim} {m : IPMessage}, handleMessage cfg t m = .ok u →
        t.data = s.data → u.history.handled = s.history.handled → s.CountsByes cfg →
        endOfTurn cfg (u.noteHandled m) = .ok u' → u'.CountsByes cfg := by
      intro t u u' m ht hdata hhandled hs hrun type
      obtain ⟨hexpected, hfinished⟩ := handleMessage_counters ht type
      rw [hdata] at hexpected hfinished
      have hbyes : nbByes type u'.history.handled =
          nbByes type s.history.handled + nbByes type [m] := by
        rw [(endOfTurn_appended hrun).1, ← nbByes_append, ← hhandled]
        rfl
      rw [endOfTurn_counters hrun, hbyes]
      exact ⟨hexpected.trans (hs type).1, hfinished.trans (by rw [(hs type).2])⟩
    cases step_kind hstep with
    | solve clock receive wakes rest order pool hcan hsolve hs' =>
      subst hs'
      exact ih fun hmem => hstarted ((Pool.threads_solve hsolve).mem_iff.mpr hmem)
    | turn o m pool hnext hturn =>
      obtain ⟨ts, bs, hpool, -⟩ := turn_pool hturn
      have hs : s.CountsByes cfg := ih fun hmem => hstarted <|
        (mem_threads_of_pool hpool).mpr (.inl ((Pool.next?_deliver hnext).1 ▸ hmem))
      obtain ⟨t, ht, hor⟩ := turn_cases hturn
      obtain ⟨_, hhandled⟩ := handleMessage_effect ht
      obtain ⟨hback, rfl⟩ | ⟨-, hrun⟩ := hor
      · obtain ⟨p, submitter, rfl, -, rfl⟩ := handleMessage_callsBack hback ht
        exact hs
      · exact hend ht rfl hhandled.keeps.handled hs hrun
    | callback o p mailbox pool hnext hrun =>
      obtain ⟨ts, hpool, -⟩ := callback_pool hrun
      have hs : s.CountsByes cfg := by
        refine ih fun hmem => hstarted ((mem_threads_of_pool hpool).mpr (.inl ?_))
        rcases List.mem_cons.mp ((Pool.next?_resume hnext).1.mem_iff.mp hmem) with heq | hmem
        · cases heq
        · exact hmem
      obtain ⟨t, ht, hrun⟩ := serverCallback_cases hrun
      obtain ⟨hkeeps, -, -, hsubmitters, -⟩ := serverOnCallbackReceived_frame ht
      intro type
      have hbyes : nbByes type s'.history.handled = nbByes type s.history.handled := by
        have hhandled : t.history.handled = s.history.handled := hkeeps.handled
        rw [(endOfTurn_appended hrun).1, noteHandled, nbByes_append, nbByes_singleton, hhandled]
        simp [IPMessage.bye?]
      have hsame : s'.data.submitterCounters = s.data.submitterCounters :=
        (endOfTurn_counters hrun).trans hsubmitters.submitterCounters
      rw [hsame, hbyes]
      exact hs type
    | start o pool hnext hrun =>
      obtain ⟨done, todo, -, heq⟩ := reaches_unstarted hr
        ((Pool.next?_resume hnext).1.mem_iff.mpr (List.mem_cons_self ..))
      have hworkloads : s.workloads = cfg.workloads := by rw [heq]; rfl
      have hhandled : s.history.handled = [] := by rw [heq]; rfl
      rw [serverProcess_effect hrun]
      intro type
      have hstatic := loadWorkloads_nbStaticWorkloads cfg.workloads_loaded
      cases type with
      | jobSubmitter =>
        exact ⟨by rw [hworkloads]; exact hstatic, by simp [messageSent, logged, hhandled, nbByes]⟩
      | eventSubmitter => exact ⟨rfl, by simp [messageSent, logged, hhandled, nbByes]⟩
    | actor o t pool ht hnext hrun =>
      have hs : s.CountsByes cfg := ih fun hmem => hstarted (serverProcess_stays hr hmem ht hnext hrun)
      have howned := reaches_owned hr
      obtain ⟨-, hkeeps⟩ := runThread_moves (s := { s with pool := pool }) howned ht hrun
      intro type
      rw [hkeeps.data, hkeeps.handled]
      exact hs type

/-- Submitters are neither lost nor doubled. -/
theorem count_submitters (h : Reaches (batsim cfg) guard s) (type : SubmitterType) :
    (s.pool.labels Thread.submits? IPMessage.bye?).count type + nbByes type s.history.handled =
      cfg.nbSubmitters type := by
  have htotal := submitter_flow.total_eq (fun m t ht => by
    cases m <;> cases t <;> first | rfl | cases ht) h
  have hcount := congrArg (Multiset.count type) htotal
  rw [Flow.total, Multiset.count_add, Multiset.coe_count, Multiset.coe_count] at hcount
  rw [nbByes, hcount, initialThreads_submits]

/-! ### Submissions on their way -/

/-- A submission on its way comes from a submitter that has not said goodbye. -/
structure Accompanied (p : Pool IPMessage Thread) : Prop where
  sender : ∀ m sender, (m, sender) ∈ p.mailbox → ∀ type, m.submission? = some type →
    ∃ t, sender = some t ∧ t.submits? = some type
  delivered : ∀ m, .deliver m ∈ p.woken → ∀ type, m.submission? = some type →
    type ∈ p.labels Thread.submits? IPMessage.bye?

theorem Thread.Puts.submission_sender {t : Thread} {m : IPMessage} {sender : Option Thread}
    (hreads : t.ReadsReply) (h : t.Puts m sender) {type : SubmitterType}
    (hm : m.submission? = some type) : ∃ u, sender = some u ∧ u.submits? = some type := by
  cases hreader : t.isReader with
  | true =>
    have hfrom := h.of_reader hreads hreader
    cases m with
    | jobSubmitted | eventOccurred => cases hfrom
    | _ => cases hm
  | false =>
    cases h with
    | firstReply | reply => cases hreader
    | jobs | events | workflowJob =>
      cases hm
      exact ⟨_, rfl, rfl⟩
    | _ => cases hm

theorem reaches_accompanied (h : Reaches (batsim cfg) guard s) : Accompanied s.pool := by
  refine h.invariant (P := fun s => Accompanied s.pool)
    ⟨by simp [batsim, Batsim.start], by simp [batsim, Batsim.start]⟩ ?_
  intro s s' c hr hs _ hstep
  cases step_kind hstep with
  | solve clock receive wakes rest order pool hcan hsolve hs' =>
    subst hs'
    have hlabels : pool.labels Thread.submits? IPMessage.bye? =
      s.pool.labels Thread.submits? IPMessage.bye? := Pool.labels_solve _ _ hsolve
    have hthreads := Pool.threads_solve hsolve
    have hdelivers := Pool.delivers_solve hsolve
    obtain ⟨-, -, -, -, -, hpool⟩ := Pool.solve_cases hsolve
    refine ⟨fun m sender hm => hs.sender m sender ?_, fun m hm type htype => ?_⟩
    · have hmail : (m, sender) ∈ pool.mailbox := hm
      rw [hpool] at hmail
      split at hmail
      · exact List.mem_of_mem_tail hmail
      · exact hmail
    · have hdelivered : m ∈ pool.woken.filterMap Entry.message? :=
        List.mem_filterMap.mpr ⟨_, hm, rfl⟩
      rw [hdelivers] at hdelivered
      split at hdelivered
      · obtain ⟨⟨m', sender⟩, hmem, rfl⟩ := List.mem_map.mp (List.mem_of_mem_take hdelivered)
        obtain ⟨t, rfl, ht⟩ := hs.sender m' sender hmem type htype
        have hthread : t ∈ s.pool.threads := Pool.mem_threads.mpr (.inr (.inr (.inl ⟨m', hmem⟩)))
        have hmem : type ∈ s.pool.threads.filterMap Thread.submits? :=
          List.mem_filterMap.mpr ⟨t, hthread, ht⟩
        have hlabel : type ∈ s.pool.labels Thread.submits? IPMessage.bye? :=
          Multiset.mem_add.mpr (.inl hmem)
        exact hlabels ▸ hlabel
      · cases hdelivered
  | turn o m pool hnext hturn =>
    obtain ⟨ts, bs, hpool, -⟩ := turn_pool hturn
    have hmailbox : s'.pool.mailbox = s.pool.mailbox := by
      rw [hpool, ← Pool.next?_mailbox hnext]
    refine ⟨fun m sender hm => hs.sender m sender (hmailbox ▸ hm), fun m' hm => ?_⟩
    -- the server was given one message
    have hsingle := (reaches_placed hr).single
    have hwoken := (Pool.next?_deliver hnext).2.2.2
    have hmem : .deliver m' ∈ pool.woken := by
      have hsame : s'.pool.woken = pool.woken := by rw [hpool]
      exact hsame ▸ hm
    have hmessage : m' ∈ pool.woken.filterMap Entry.message? :=
      List.mem_filterMap.mpr ⟨_, hmem, rfl⟩
    have hpos := List.length_pos_of_mem hmessage
    rw [hwoken, Entry.filterMap_message?_deliver, List.length_cons] at hsingle
    omega
  | callback o p mailbox pool hnext hrun =>
    have hlabels := submitter_flow.labels_callback hnext hrun
    obtain ⟨ts, hpool, -⟩ := callback_pool hrun
    have hmailbox : s'.pool.mailbox = s.pool.mailbox := by
      rw [hpool, ← Pool.next?_mailbox hnext]
    have hwoken : s'.pool.woken = pool.woken := by rw [hpool]
    refine ⟨fun m sender hm => hs.sender m sender (hmailbox ▸ hm), fun m hm type htype => ?_⟩
    rw [hlabels]
    exact hs.delivered m (Pool.mem_woken_of_next? hnext (hwoken ▸ hm)) type htype
  | start o pool hnext hrun =>
    have hlabels := submitter_flow.labels_start hnext hrun
    have hmailbox : s'.pool.mailbox = s.pool.mailbox := by
      rw [serverProcess_effect hrun, ← Pool.next?_mailbox hnext]
      rfl
    have hwoken : s'.pool.woken = pool.woken := by
      rw [serverProcess_effect hrun]
      rfl
    refine ⟨fun m sender hm => hs.sender m sender (hmailbox ▸ hm), fun m hm type htype => ?_⟩
    rw [hlabels]
    exact hs.delivered m (Pool.mem_woken_of_next? hnext (hwoken ▸ hm)) type htype
  | actor o t pool ht hnext hrun =>
    have hlabels := submitter_flow.labels_actor hr ht hnext hrun
    have howned := reaches_owned hr
    have hmoves := (runThread_moves (s := { s with pool := pool }) howned ht hrun).1
    have hreads := reaches_readsReply hr
      ((Pool.next?_resume hnext).1.mem_iff.mpr (List.mem_cons_self ..))
    refine ⟨fun m sender hm type htype => ?_, fun m hm type htype => ?_⟩
    · obtain hold | hputs := hmoves.mem_mailbox hm
      · exact hs.sender m sender (Pool.next?_mailbox hnext ▸ hold) type htype
      · exact hputs.submission_sender hreads htype
    · rw [hlabels]
      exact hs.delivered m (Pool.mem_woken_of_next? hnext (hmoves.mem_woken hm)) type htype

/-- A submission is handled before the last goodbye of its kind. -/
theorem nbByes_lt_of_submission (h : Reaches (batsim cfg) guard s) {m : IPMessage}
    {pool : Pool IPMessage Thread} (hnext : s.pool.next? = some (.deliver m, pool))
    {type : SubmitterType} (hm : m.submission? = some type) :
    nbByes type s.history.handled < cfg.nbSubmitters type := by
  have hwoken := (Pool.next?_deliver hnext).2.2.2
  have hlabel := (reaches_accompanied h).delivered m (by rw [hwoken]; exact List.mem_cons_self ..)
    type hm
  have hcount := count_submitters h type
  have hpos := Multiset.count_pos.mpr hlabel
  omega

/-! ### The jobs that the scheduler registers -/

/-- A registration is announced once the job, never met before, is in the store. -/
theorem parseAndApplyEvent_announces {now : Date} {e : SchedulerEvent} {t : Sim}
    {ms : List IPMessage} (h : parseAndApplyEvent cfg now s e = .ok (t, ms)) {p : JobPtr}
    (hm : .jobRegisteredByDP p ∈ ms) : ms = [.jobRegisteredByDP p] ∧ ¬ s.workloads.Met p := by
  simp only [parseAndApplyEvent, bind_eq_ok] at h
  obtain ⟨_, -, h⟩ := h
  cases hdata : e.data with
  | registerJob id d =>
    simp only [hdata, bind_eq_ok, Except.ok.injEq, Prod.mk.injEq] at h
    obtain ⟨u, hu, rfl, rfl⟩ := h
    obtain ⟨j, hadds, -⟩ := handleRegisterJob_effect hu
    cases List.mem_singleton.mp hm
    exact ⟨rfl, hadds.registers.fresh _ rfl⟩
  | executeJob id alloc mapping =>
    simp only [hdata, handleExecuteJob, bind_eq_ok, Except.ok.injEq, Prod.mk.injEq] at h
    obtain ⟨m, ⟨q, -, _, -, hcases⟩, rfl, rfl⟩ := h
    cases List.mem_singleton.mp hm
    cases mapping with
    | none => cases hcases
    | some entries =>
      simp only [bind_eq_ok, Except.ok.injEq] at hcases
      obtain ⟨_, -, _, -, heq⟩ := hcases
      cases heq
  | query requests =>
    simp only [hdata, bind_eq_ok, Except.ok.injEq, Prod.mk.injEq] at h
    obtain ⟨_, -, rfl, rfl⟩ := h
    obtain ⟨r, -, heq⟩ := List.mem_map.mp hm
    cases r <;> cases heq
  | notify type =>
    simp only [hdata, bind_eq_ok, Except.ok.injEq, Prod.mk.injEq] at h
    obtain ⟨_, -, rfl, rfl⟩ := h
    have heq := List.mem_singleton.mp hm
    split at heq <;> cases heq
  | answer | rejectJob _ | callMeLater _ | toJobMsg _ _ =>
    simp only [hdata, Except.ok.injEq, Prod.mk.injEq] at h
    obtain ⟨rfl, rfl⟩ := h
    simp [SchedulerEventData.messages] at hm
  | _ =>
    simp only [hdata, bind_eq_ok, Except.ok.injEq, Prod.mk.injEq] at h
    obtain ⟨_, -, rfl, rfl⟩ := h
    simp [SchedulerEventData.messages] at hm

/-- What a reader sends, or still has to send, it had to send before; or it has just registered the
job. -/
theorem applyReply_announces {now : Date} {todo : List ReplyItem} (howned : s.workloads.Owned)
    (h : applyReply cfg now s todo = .ok s') :
    s' = s ∨ ∃ t date m rest, t.pool = s.pool ∧ t.history.handled = s.history.handled ∧
      s' = sendAtTime now t date m rest ∧
      (∀ p, m = .jobRegisteredByDP p → .send date m ∈ todo ∨ ¬ s.workloads.Met p) ∧
      ∀ d p, .send d (.jobRegisteredByDP p) ∈ rest → .send d (.jobRegisteredByDP p) ∈ todo := by
  induction todo generalizing s with
  | nil =>
    simp only [applyReply, Except.ok.injEq] at h
    exact .inl h.symm
  | cons item todo ih =>
    cases item with
    | send date m =>
      simp only [applyReply, Except.ok.injEq] at h
      exact .inr ⟨s, date, m, todo, rfl, rfl, h.symm, fun p _ => .inl (List.mem_cons_self ..),
        fun d p hd => List.mem_cons_of_mem _ hd⟩
    | event e =>
      simp only [applyReply, bind_eq_ok, Prod.exists] at h
      obtain ⟨t, ms, hparse, h⟩ := h
      obtain ⟨-, hskip, new, hadds, -⟩ := parseAndApplyEvent_effect howned hparse
      cases ms with
      | cons m ms =>
        simp only [Except.ok.injEq] at h
        refine .inr ⟨t, e.timestamp, m, ms.map (.send e.timestamp) ++ todo, hadds.pool,
          hadds.keeps.handled, h.symm, fun p hp => .inr ?_, fun d p hd => ?_⟩
        · exact (parseAndApplyEvent_announces hparse (hp ▸ List.mem_cons_self ..)).2
        · rcases List.mem_append.mp hd with hd | hd
          · -- a registration is the only message of its event
            obtain ⟨m', hm', heq⟩ := List.mem_map.mp hd
            rw [ReplyItem.send.injEq] at heq
            have hone := (parseAndApplyEvent_announces hparse
              (List.mem_cons_of_mem m (heq.2 ▸ hm'))).1
            rw [(List.cons.inj hone).2] at hm'
            cases hm'
          · exact List.mem_cons_of_mem _ hd
      | nil =>
        obtain rfl := hskip rfl
        obtain rfl | ⟨u, date, m, rest, hpool, hhandled, hs', hm, hrest⟩ := ih howned h
        · exact .inl rfl
        · refine .inr ⟨u, date, m, rest, hpool, hhandled, hs', fun p hp => ?_, fun d p hd => ?_⟩
          · exact (hm p hp).imp_left (List.mem_cons_of_mem _)
          · exact List.mem_cons_of_mem _ (hrest d p hd)

/-- No job of a workload file is announced by the scheduler. -/
structure AnnouncesNew (cfg : Config) (s : Sim) : Prop where
  met : ∀ p, cfg.workloads.Met p → s.workloads.Met p
  todo : ∀ now todo, .applyReply now todo ∈ s.pool.threads → ∀ date p,
    .send date (.jobRegisteredByDP p) ∈ todo → ¬ cfg.workloads.Met p
  queue : ∀ p, .jobRegisteredByDP p ∈ s.pool.queue → ¬ cfg.workloads.Met p
  handled : ∀ p, .jobRegisteredByDP p ∈ s.history.handled → ¬ cfg.workloads.Met p

/-- The rest of a reply that a reader that goes on still has to read is in order. -/
theorem AnnouncesNew.reader {now : Date} {todo : List ReplyItem} (hs : AnnouncesNew cfg s)
    (howned : s.workloads.Owned)
    (htodo : ∀ date p, .send date (.jobRegisteredByDP p) ∈ todo → ¬ cfg.workloads.Met p)
    (hmet : ∀ p, s.workloads.Met p → s'.workloads.Met p)
    (h : applyReply cfg now s todo = .ok s') : AnnouncesNew cfg s' := by
  obtain rfl | ⟨t, date, m, rest, hpool, hhandled, rfl, hm, hrest⟩ :=
    applyReply_announces howned h
  · exact hs
  have hnew : ∀ p, m = .jobRegisteredByDP p → ¬ cfg.workloads.Met p := by
    intro p hp
    obtain hmem | hfresh := hm p hp
    · exact htodo date p (hp ▸ hmem)
    · exact fun hinit => hfresh (hs.met p hinit)
  have hhandled' : (sendAtTime now t date m rest).history.handled = s.history.handled :=
    (sendAtTime_keeps now t date m rest).handled.trans hhandled
  refine ⟨fun p hp => hmet p (hs.met p hp), ?_, ?_, by rw [hhandled']; exact hs.handled⟩
  · intro now' todo' hthread d p hd
    obtain hsend | hsend := sendAtTime_cases now t date m rest
    · rw [hsend] at hthread
      obtain heq | hold := (Pool.mem_threads_block _ _).mp hthread
      · cases heq
        rcases List.mem_cons.mp hd with heq | hd
        · rw [ReplyItem.send.injEq] at heq
          exact hnew p heq.2.symm
        · exact htodo d p (hrest d p hd)
      · exact hs.todo now' todo' (hpool ▸ hold) d p hd
    · rw [hsend, noteSent_pool] at hthread
      obtain heq | hold := (Pool.mem_threads_put _ _ _).mp hthread
      · split at heq
        · cases heq
        · cases heq
          exact htodo d p (hrest d p hd)
      · exact hs.todo now' todo' (hpool ▸ hold) d p hd
  · intro p hp
    obtain hsend | hsend := sendAtTime_cases now t date m rest
    · rw [hsend] at hp
      exact hs.queue p (hpool ▸ hp)
    · rw [hsend, noteSent_pool, Sim.put, Pool.queue_put, hpool] at hp
      rcases List.mem_append.mp hp with hp | hp
      · exact hs.queue p hp
      · exact hnew p (List.mem_singleton.mp hp).symm

/-- A step that only the server takes part in. -/
theorem AnnouncesNew.server (hs : AnnouncesNew cfg s) (pool : Pool IPMessage Thread)
    (ts bs : List Thread) (ms : List IPMessage)
    (hmet : ∀ p, s.workloads.Met p → s'.workloads.Met p)
    (hthreads : ∀ t ∈ pool.threads, t ∈ s.pool.threads)
    (hqueue : ∀ m ∈ pool.queue, m ∈ s.pool.queue)
    (hpool : s'.pool = { pool with fresh := pool.fresh ++ ts, blocked := pool.blocked ++ bs })
    (hnew : ∀ t ∈ ts ++ bs, ∀ now todo, t ≠ .applyReply now todo)
    (hhandled : s'.history.handled = s.history.handled ++ ms)
    (hms : ∀ p, .jobRegisteredByDP p ∈ ms → .jobRegisteredByDP p ∈ s.pool.queue) :
    AnnouncesNew cfg s' := by
  refine ⟨fun p hp => hmet p (hs.met p hp), fun now todo hthread => ?_, fun p hp => ?_,
    fun p hp => ?_⟩
  · obtain hold | hcreated := (mem_threads_of_pool hpool).mp hthread
    · exact hs.todo now todo (hthreads _ hold)
    · exact absurd rfl (hnew _ (List.mem_append.mpr hcreated) now todo)
  · have hsame : s'.pool.queue = pool.queue := by rw [hpool]; rfl
    exact hs.queue p (hqueue _ (hsame ▸ hp))
  · rw [hhandled] at hp
    rcases List.mem_append.mp hp with hp | hp
    · exact hs.handled p hp
    · exact hs.queue p (hms p hp)

theorem reaches_announcesNew (h : Reaches (batsim cfg) guard s) : AnnouncesNew cfg s := by
  refine h.invariant (P := AnnouncesNew cfg) ⟨fun p hp => hp, ?_, ?_, ?_⟩ ?_
  · intro now todo hthread
    simp [batsim, Batsim.start, Pool.threads, initialThreads] at hthread
  · simp [batsim, Batsim.start, Pool.queue]
  · simp [batsim, Batsim.start]
  intro s s' c hr hs _ hstep
  have howned := reaches_owned hr
  cases step_kind hstep with
  | solve clock receive wakes rest order pool hcan hsolve hs' =>
    subst hs'
    refine ⟨hs.met, fun now todo hthread => hs.todo now todo ?_, fun p hp => hs.queue p ?_, hs.handled⟩
    · exact (Pool.threads_solve hsolve).mem_iff.mp hthread
    · have hqueue : pool.queue = s.pool.queue := Pool.queue_solve hsolve
      exact hqueue ▸ hp
  | turn o m pool hnext hturn =>
    obtain ⟨ts, bs, hpool, hts, hbs⟩ := turn_pool hturn
    obtain ⟨hthreads, hqueue, -⟩ := Pool.next?_deliver hnext
    have hnew : ∀ t ∈ ts ++ bs, ∀ now todo, t ≠ .applyReply now todo := by
      rintro t ht now todo rfl
      rcases List.mem_append.mp ht with ht | ht
      · obtain hlaunched | ⟨message, heq⟩ := hts _ ht
        · cases m <;> cases hlaunched
        · cases heq
      · obtain rfl | ⟨job, mailbox, rfl⟩ := hbs <;> simp at ht
    obtain ⟨t, ht, hor⟩ := turn_cases hturn
    obtain ⟨_, hhandled⟩ := handleMessage_effect ht
    have hworkloads : t.workloads = s.workloads := hhandled.keeps.workloads
    have hmessages : t.history.handled = s.history.handled := hhandled.keeps.handled
    obtain ⟨-, rfl⟩ | ⟨-, hend⟩ := hor
    · refine hs.server pool ts bs [] (fun p hp => hworkloads ▸ hp) (fun u hu => hthreads ▸ hu)
        (fun m' hm => hqueue ▸ List.mem_cons_of_mem _ hm) hpool hnew (by simpa using hmessages)
        (by simp)
    · refine hs.server pool ts bs [m] (fun p hp => ?_) (fun u hu => hthreads ▸ hu)
        (fun m' hm => hqueue ▸ List.mem_cons_of_mem _ hm) hpool hnew ?_ (fun p hp => ?_)
      · rw [endOfTurn_met hend (by exact hworkloads ▸ howned)]
        exact hworkloads ▸ hp
      · rw [(endOfTurn_appended hend).1, ← hmessages]
        rfl
      · rw [hqueue, List.mem_singleton.mp hp]
        exact List.mem_cons_self ..
  | callback o p mailbox pool hnext hrun =>
    obtain ⟨ts, hpool, hts⟩ := callback_pool hrun
    obtain ⟨hthreads, hqueue⟩ := Pool.next?_resume hnext
    obtain ⟨t, ht, hend⟩ := serverCallback_cases hrun
    have hkeeps := (serverOnCallbackReceived_frame ht).1
    have hworkloads : t.workloads = s.workloads := hkeeps.workloads
    have hmessages : t.history.handled = s.history.handled := hkeeps.handled
    refine hs.server pool ts [] [.jobCompleted p] (fun q hq => ?_)
      (fun u hu => hthreads.mem_iff.mpr (List.mem_cons_of_mem _ hu))
      (fun m' hm => hqueue ▸ hm) hpool ?_ ?_ (by simp)
    · rw [endOfTurn_met hend (by exact hworkloads ▸ howned)]
      exact hworkloads ▸ hq
    · rintro u hu now todo rfl
      obtain ⟨message, heq⟩ := hts _ (by simpa using hu)
      cases heq
    · rw [(endOfTurn_appended hend).1, ← hmessages]
      rfl
  | start o pool hnext hrun =>
    obtain ⟨hthreads, hqueue⟩ := Pool.next?_resume hnext
    rw [serverProcess_effect hrun]
    refine hs.server pool [.requestReply (s.logged .simulationBegins).writer.events] [] []
      (fun q hq => hq)
      (fun u hu => hthreads.mem_iff.mpr (List.mem_cons_of_mem _ hu)) (fun m' hm => hqueue ▸ hm)
      (by simp [messageSent, logged, Pool.spawn]) ?_ (by simp [messageSent, logged]) (by simp)
    simp
  | actor o t pool ht hnext hrun =>
    obtain ⟨hthreads, hqueue⟩ := Pool.next?_resume hnext
    have hthread : t ∈ s.pool.threads := hthreads.mem_iff.mpr (List.mem_cons_self ..)
    obtain ⟨new, hregisters⟩ := runThread_registers (s := { s with pool := pool }) howned ht hrun
    have hmet : ∀ p, s.workloads.Met p → s'.workloads.Met p := fun p hp =>
      (hregisters.met p).mpr (.inl hp)
    have hpool : AnnouncesNew cfg { s with pool := pool } :=
      hs.server pool [] [] [] (fun p hp => hp)
        (fun u hu => hthreads.mem_iff.mpr (List.mem_cons_of_mem _ hu)) (fun m' hm => hqueue ▸ hm)
        (by simp) (by simp) (by simp) (by simp)
    cases hreader : t.isReader with
    | true =>
      cases t with
      | requestReply message =>
        cases o with
        | reply r =>
          have hsame : AnnouncesNew cfg { { s with pool := pool } with
              history := { s.history with replies := s.history.replies ++ [(r, [])] } } :=
            ⟨hpool.met, hpool.todo, hpool.queue, hpool.handled⟩
          refine hsame.reader howned ?_ hmet hrun
          intro date p hp
          simp only [Reply.todo, List.mem_append, List.mem_map, List.mem_singleton] at hp
          obtain ⟨e, -, heq⟩ | heq := hp <;> cases heq
        | _ => simp [runThread] at hrun
      | applyReply now todo => exact hpool.reader howned (hs.todo now todo hthread) hmet hrun
      | _ => cases hreader
    | false =>
      have hmoves := runThread_moves (s := { s with pool := pool }) howned ht hrun
      refine ⟨fun p hp => hmet p (hs.met p hp), fun now todo hu => ?_, fun p hp => ?_,
        by rw [hmoves.2.handled]; exact hs.handled⟩
      · obtain hold | ⟨m, hputs⟩ | hwaits | ⟨a, heq, -⟩ := hmoves.1.mem_threads hu
        · exact hpool.todo now todo hold
        · cases hputs <;> cases hreader
        · cases hwaits with
          | reply _ _ _ hor => obtain ⟨_, rfl⟩ | ⟨_, rfl⟩ := hor <;> cases hreader
        · cases heq
      · obtain hold | ⟨sender, hputs⟩ := hmoves.1.mem_queue hp
        · exact hpool.queue p hold
        · cases hputs <;> cases hreader

/-! ### The notifications -/

theorem SubmitterType.endNotification_injective {type type' : SubmitterType}
    (h : type.endNotification = type'.endNotification) : type = type' := by
  cases type <;> cases type' <;> first | rfl | simp [endNotification] at h

/-- Only a goodbye is told as the end of the submissions. -/
theorem IPMessage.bye?_of_mayAppend {m : IPMessage} {type : SubmitterType}
    (h : m.mayAppend type.endNotification = true) : m.bye? = some type := by
  cases m with
  | submitterBye name type' isWorkflow =>
    simp only [mayAppend, decide_eq_true_eq] at h
    rw [SubmitterType.endNotification_injective h]
    rfl
  | _ => cases type <;> simp [mayAppend, SubmitterType.endNotification, ProtocolEvent.isExternal] at h

/-- The scheduler is told the end of the submissions of a kind when the message `bye` is delivered
in the state `u` of a run, and this only: what was told before and after, with the messages handled
since. -/
structure NotifiedAt (cfg : Config) (type : SubmitterType) (s u : Sim) (bye : IPMessage)
    (later : List IPMessage) (post : List DatedEvent) : Prop where
  delivered : u.pool.next?.map Prod.fst = some (.deliver bye)
  bye_type : bye.bye? = some type
  last_bye : nbByes type u.history.handled + 1 = cfg.nbSubmitters type
  handled : s.history.handled = u.history.handled ++ bye :: later
  appended : s.history.appended =
    u.history.appended ++ ⟨u.clock, type.endNotification⟩ :: post
  once : ∀ e ∈ u.history.appended ++ post, e.event ≠ type.endNotification
  after : ∀ e ∈ post, e.event = .simulationEnds ∨
    ∃ m ∈ later, m.mayAppend e.event = true ∧ m.submission? ≠ some type

/-- The end of the submissions of a kind has been told since the last goodbye, and not before. -/
structure Told (cfg : Config) (type : SubmitterType) (s : Sim) (past : List Sim) : Prop where
  before : nbByes type s.history.handled < cfg.nbSubmitters type →
    ∀ e ∈ s.history.appended, e.event ≠ type.endNotification
  after : nbByes type s.history.handled = cfg.nbSubmitters type → 0 < cfg.nbSubmitters type →
    ∃ u ∈ past, ∃ bye later post, NotifiedAt cfg type s u bye later post

theorem Told.of_same {type : SubmitterType} {past : List Sim} (h : Told cfg type s past)
    (hhandled : s'.history.handled = s.history.handled)
    (happended : s'.history.appended = s.history.appended) : Told cfg type s' (s :: past) := by
  refine ⟨?_, ?_⟩
  · rw [hhandled, happended]
    exact h.before
  · rw [hhandled]
    intro hall hpos
    obtain ⟨u, hu, bye, later, post, hat⟩ := h.after hall hpos
    exact ⟨u, List.mem_cons_of_mem _ hu, bye, later, post, hat.delivered, hat.bye_type,
      hat.last_bye, hhandled.trans hat.handled, happended.trans hat.appended, hat.once, hat.after⟩

theorem Told.of_other {type : SubmitterType} {past : List Sim} {m : IPMessage}
    {es last : List DatedEvent} (h : Told cfg type s past)
    (hhandled : s'.history.handled = s.history.handled ++ [m])
    (happended : s'.history.appended = s.history.appended ++ (es ++ last))
    (hes : ∀ e ∈ es, m.mayAppend e.event = true)
    (hlast : ∀ e ∈ last, e.event = .simulationEnds) (hbye : m.bye? ≠ some type)
    (hsubmission : m.submission? = some type →
      nbByes type s.history.handled < cfg.nbSubmitters type) : Told cfg type s' (s :: past) := by
  have hbyes : nbByes type s'.history.handled = nbByes type s.history.handled := by
    rw [hhandled, nbByes_append, nbByes_singleton, if_neg hbye, Nat.add_zero]
  have hquiet : ∀ e ∈ es ++ last, e.event ≠ type.endNotification := by
    intro e he heq
    rcases List.mem_append.mp he with he | he
    · exact hbye (IPMessage.bye?_of_mayAppend (heq ▸ hes e he))
    · rw [hlast e he] at heq
      cases type <;> cases heq
  refine ⟨fun hlt e he => ?_, fun hall hpos => ?_⟩
  · rw [happended] at he
    rcases List.mem_append.mp he with he | he
    · exact h.before (hbyes ▸ hlt) e he
    · exact hquiet e he
  · rw [hbyes] at hall
    obtain ⟨u, hu, bye, later, post, hat⟩ := h.after hall hpos
    refine ⟨u, List.mem_cons_of_mem _ hu, bye, later ++ [m], post ++ (es ++ last), hat.delivered,
      hat.bye_type, hat.last_bye, ?_, ?_, ?_, ?_⟩
    · simp [hhandled, hat.handled]
    · simp [happended, hat.appended]
    · intro e he
      rw [← List.append_assoc] at he
      rcases List.mem_append.mp he with he | he
      · exact hat.once e he
      · exact hquiet e he
    · intro e he
      rcases List.mem_append.mp he with he | he
      · obtain hend | ⟨m', hm', hmay⟩ := hat.after e he
        · exact .inl hend
        · exact .inr ⟨m', List.mem_append_left _ hm', hmay⟩
      · rcases List.mem_append.mp he with he | he
        · refine .inr ⟨m, by simp, hes e he, fun hsub => ?_⟩
          exact absurd hall (Nat.ne_of_lt (hsubmission hsub))
        · exact .inl (hlast e he)

/-- A goodbye of the kind is handled: when it is the last one, the scheduler is told. -/
theorem Told.of_bye {type : SubmitterType} {past : List Sim} {m : IPMessage}
    {last : List DatedEvent} (h : Told cfg type s past)
    (hnext : s.pool.next?.map Prod.fst = some (.deliver m)) (hbye : m.bye? = some type)
    (hhandled : s'.history.handled = s.history.handled ++ [m])
    (happended : s'.history.appended = s.history.appended ++
      ((if nbByes type s.history.handled + 1 = cfg.nbSubmitters type then
        [⟨s.clock, type.endNotification⟩] else []) ++ last))
    (hlast : ∀ e ∈ last, e.event = .simulationEnds) : Told cfg type s' (s :: past) := by
  have hbyes : nbByes type s'.history.handled = nbByes type s.history.handled + 1 := by
    rw [hhandled, nbByes_append, nbByes_singleton, if_pos hbye]
  have hquiet : ∀ e ∈ last, e.event ≠ type.endNotification := by
    intro e he heq
    rw [hlast e he] at heq
    cases type <;> cases heq
  refine ⟨fun hlt e he => ?_, fun hall hpos => ?_⟩
  · rw [if_neg (by omega), List.nil_append] at happended
    rw [happended] at he
    rcases List.mem_append.mp he with he | he
    · exact h.before (by omega) e he
    · exact hquiet e he
  · rw [hbyes] at hall
    rw [if_pos hall] at happended
    refine ⟨s, List.mem_cons_self .., m, [], last, hnext, hbye, hall, hhandled, happended,
      fun e he => ?_, fun e he => .inl (hlast e he)⟩
    rcases List.mem_append.mp he with he | he
    · exact h.before (by omega) e he
    · exact hquiet e he

/-- A message is delivered only once the server has started. -/
theorem countsByes_of_deliver (hr : Reaches (batsim cfg) guard s) {m : IPMessage}
    {pool : Pool IPMessage Thread} (hnext : s.pool.next? = some (.deliver m, pool)) :
    s.CountsByes cfg := by
  refine reaches_countsByes hr fun hserver => ?_
  obtain ⟨done, todo, -, rfl⟩ := reaches_unstarted hr hserver
  have hwoken := (Pool.next?_deliver hnext).2.2.2
  cases hwoken

/-- The turn of a message, once the handler is over. -/
theorem Told.turn {type : SubmitterType} {past : List Sim} {m : IPMessage} {t : Sim}
    {es : List DatedEvent} (hs : Told cfg type s past)
    (hhandled : t.history.handled = s.history.handled)
    (happended : t.history.appended = s.history.appended ++ es)
    (hnext : m.bye? = some type → s.pool.next?.map Prod.fst = some (.deliver m))
    (hbye : m.bye? = some type → es = if nbByes type s.history.handled + 1 = cfg.nbSubmitters type
      then [⟨s.clock, type.endNotification⟩] else [])
    (hes : ∀ e ∈ es, m.mayAppend e.event = true)
    (hsubmission : m.submission? = some type →
      nbByes type s.history.handled < cfg.nbSubmitters type)
    (hend : endOfTurn cfg (t.noteHandled m) = .ok s') : Told cfg type s' (s :: past) := by
  obtain ⟨hhandled', -, last, happended', hlast⟩ := endOfTurn_appended hend
  have hends : ∀ e ∈ last, e.event = .simulationEnds := by
    obtain rfl | rfl := hlast
    · simp
    · simp
  have hhandled'' : s'.history.handled = s.history.handled ++ [m] := by
    rw [hhandled', ← hhandled]
    rfl
  have happended'' : s'.history.appended = s.history.appended ++ (es ++ last) := by
    rw [happended', ← List.append_assoc, ← happended]
    rfl
  by_cases hm : m.bye? = some type
  · rw [hbye hm] at happended''
    exact hs.of_bye (hnext hm) hm hhandled'' happended'' hends
  · exact hs.of_other hhandled'' happended'' hes hends hm hsubmission

theorem visits_told {past : List Sim} (h : Visits (batsim cfg) guard (s :: past))
    (type : SubmitterType) : Told cfg type s past := by
  refine h.invariant (P := Told cfg type) ⟨?_, ?_⟩ ?_
  · simp [batsim, Batsim.start]
  · intro hall hpos
    simp only [batsim, Batsim.start, nbByes, List.filterMap_nil, List.count_nil] at hall
    omega
  · intro s s' past c hr hs _ hstep
    cases step_kind hstep with
    | solve clock receive wakes rest order pool hcan hsolve hs' =>
      subst hs'
      exact hs.of_same rfl rfl
    | turn o m pool hnext hturn =>
      obtain ⟨t, ht, hor⟩ := turn_cases hturn
      obtain ⟨_, hhandled⟩ := handleMessage_effect ht
      obtain ⟨hback, rfl⟩ | ⟨-, hend⟩ := hor
      · obtain ⟨p, submitter, rfl, -, rfl⟩ := handleMessage_callsBack hback ht
        exact hs.of_same rfl rfl
      · obtain ⟨es, happended, hes⟩ := (handleMessage_appends ht).events
        refine hs.turn hhandled.keeps.handled happended (fun _ => by rw [hnext]; rfl) ?_
          (fun e he => (hes e he).2) (nbByes_lt_of_submission hr hnext) hend
        intro hbye
        cases m with
        | submitterBye name type' isWorkflow =>
          cases hbye
          obtain ⟨hexpected, hfinished⟩ := countsByes_of_deliver hr hnext type
          obtain ⟨-, hexact⟩ := serverOnSubmitterBye_appended ht
          have hsame := happended.symm.trans hexact
          rw [List.append_cancel_left_eq] at hsame
          rw [hsame, ← hexpected, ← hfinished]
        | _ => cases hbye
    | callback o p mailbox pool hnext hrun =>
      obtain ⟨t, ht, hend⟩ := serverCallback_cases hrun
      obtain ⟨hkeeps, -⟩ := serverOnCallbackReceived_frame ht
      obtain ⟨es, happended, hes⟩ := (countJobCompletion_appends ht).events
      refine hs.turn (m := .jobCompleted p) hkeeps.handled happended ?_ ?_
        (fun e he => (hes e he).2) ?_ hend
      · intro hbye
        cases hbye
      · intro hbye
        cases hbye
      · intro hsubmission
        cases hsubmission
    | start o pool hnext hrun =>
      obtain ⟨done, todo, -, heq⟩ := reaches_unstarted hr
        ((Pool.next?_resume hnext).1.mem_iff.mpr (List.mem_cons_self ..))
      have hhandled : s.history.handled = [] := by rw [heq]; rfl
      have happended : s.history.appended = [] := by rw [heq]; rfl
      rw [serverProcess_effect hrun]
      refine ⟨fun _ e he => ?_, fun hall hpos => ?_⟩
      · simp only [messageSent, logged, happended, List.nil_append, List.mem_singleton] at he
        subst he
        cases type <;> simp [SubmitterType.endNotification]
      · simp only [messageSent, logged, hhandled, nbByes, List.filterMap_nil, List.count_nil] at hall
        omega
    | actor o t pool ht hnext hrun =>
      have howned := reaches_owned hr
      obtain ⟨-, hkeeps⟩ := runThread_moves (s := { s with pool := pool }) howned ht hrun
      exact hs.of_same hkeeps.handled hkeeps.appended

/-- What the scheduler may still be told once the submissions of a kind are over, `later` being the
messages handled since: about jobs, the submission of those that it has registered itself, none of
which was loaded from a workload file; about external events, nothing. -/
def SubmissionsOver (cfg : Config) (later : List IPMessage) : SubmitterType → ProtocolEvent → Prop
  | .jobSubmitter, .jobSubmitted id _ _ =>
    ∃ p, .jobRegisteredByDP p ∈ later ∧ p.id = id ∧ ¬ cfg.workloads.Met p
  | .jobSubmitter, _ => True
  | .eventSubmitter, e => e.isExternal = false

theorem IPMessage.submission?_of_external {m : IPMessage} {e : ProtocolEvent}
    (h : m.mayAppend e = true) (he : e.isExternal = true) : m.submission? = some .eventSubmitter := by
  cases e with
  | notifyResourceEvent | notifyGenericEvent =>
    cases m with
    | eventOccurred name events => rfl
    | submitterBye name type isWorkflow =>
      cases type <;> simp [mayAppend, SubmitterType.endNotification] at h
    | _ => simp [mayAppend] at h
  | _ => cases he

theorem IPMessage.of_mayAppend_jobSubmitted {m : IPMessage} {id : JobIdentifier}
    {job profile : String} (h : m.mayAppend (.jobSubmitted id job profile) = true) :
    m.submission? = some .jobSubmitter ∨ ∃ p, m = .jobRegisteredByDP p ∧ p.id = id := by
  cases m with
  | jobSubmitted name jobs => exact .inl rfl
  | jobRegisteredByDP p => exact .inr ⟨p, rfl, by simpa [mayAppend] using h⟩
  | submitterBye name type isWorkflow =>
    cases type <;> simp [mayAppend, SubmitterType.endNotification] at h
  | _ => simp [mayAppend, ProtocolEvent.isExternal] at h

/-- In every run, the scheduler is told the end of the submissions of a kind once, in the turn of
the last goodbye of the submitters of that kind, and nothing more is submitted afterwards. -/
theorem end_of_submissions_told_once {past : List Sim}
    (h : Visits (batsim cfg) anyStep (s :: past)) (type : SubmitterType)
    (hn : 0 < cfg.nbSubmitters type) :
    (nbByes type s.history.handled < cfg.nbSubmitters type ∧
        ∀ e ∈ s.history.appended, e.event ≠ type.endNotification) ∨
      nbByes type s.history.handled = cfg.nbSubmitters type ∧
        ∃ u ∈ past, ∃ bye later post, NotifiedAt cfg type s u bye later post ∧
          ∀ e ∈ post, SubmissionsOver cfg later type e.event := by
  have htold := visits_told h type
  have hcount := count_submitters h.reaches type
  by_cases hall : nbByes type s.history.handled = cfg.nbSubmitters type
  · obtain ⟨u, hu, bye, later, post, hat⟩ := htold.after hall hn
    refine .inr ⟨hall, u, hu, bye, later, post, hat, fun e he => ?_⟩
    obtain hend | ⟨m, hm, hmay, hother⟩ := hat.after e he
    · rw [hend]
      cases type <;> simp [SubmissionsOver, ProtocolEvent.isExternal]
    · cases type with
      | eventSubmitter =>
        by_contra hexternal
        have he : e.event.isExternal = true := by simpa [SubmissionsOver] using hexternal
        exact hother (IPMessage.submission?_of_external hmay he)
      | jobSubmitter =>
        cases hevent : e.event with
        | jobSubmitted id job profile =>
          rw [hevent] at hmay
          obtain hsubmission | ⟨p, rfl, hp⟩ := IPMessage.of_mayAppend_jobSubmitted hmay
          · exact absurd hsubmission hother
          · refine ⟨p, hm, hp, (reaches_announcesNew h.reaches).handled p ?_⟩
            rw [hat.handled]
            exact List.mem_append_right _ (List.mem_cons_of_mem _ hm)
        | _ => trivial
  · have hlt : nbByes type s.history.handled < cfg.nbSubmitters type := by omega
    exact .inl ⟨hlt, htold.before hlt⟩

end runs

/-- The only submitter, which has no job, greets and says goodbye. -/
theorem lone_submitter_told : ∃ s past u, u ∈ past ∧
    Visits (batsim loneHost) anyStep (s :: past) ∧ 0 < loneHost.nbSubmitters .jobSubmitter ∧
      ∃ bye later post, NotifiedAt loneHost .jobSubmitter s u bye later post ∧
        ∀ e ∈ post, SubmissionsOver loneHost later .jobSubmitter e.event := by
  obtain ⟨s, hreaches, hbyes⟩ := exists_reaches_of_run (batsim loneHost) anyStep
    (fun s => nbByes .jobSubmitter s.history.handled = 1)
    [.next, .next, .next (.reply { now := 0, events := [] }), .receive, .next, .next, .receive,
      .next, .receive, .next]
    (by decide +kernel)
  obtain ⟨past, hvisits⟩ := hreaches.visits
  obtain ⟨hlt, -⟩ | ⟨-, u, hu, htold⟩ :=
    end_of_submissions_told_once hvisits .jobSubmitter (by decide)
  · rw [hbyes] at hlt
    exact absurd hlt (by decide)
  · exact ⟨s, past, u, hu, hvisits, by decide, htold⟩

end Batsim
