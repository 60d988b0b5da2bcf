import Batsim.EndOfSubmissions
import Batsim.KillAnswers
import Batsim.SwitchRuns
import Batsim.Waiters

/-!
The end of the simulation: told once and last, when nothing is under way any more, and followed by
nothing but its acknowledgement.
-/

namespace Batsim

open Checked Workloads Sim StepSystem

/-! ### Nothing is under way -/

theorem switch_counts : Counts Thread.switch? IPMessage.switched?
    fun s => s.data.nbSwitchingMachines where
  flow := switch_flow
  same h := h.nbSwitchingMachines
  handled {m s s' ts} h := by
    have hthread : ∀ t : Thread, t.switch?.isSome = t.isSwitch := fun t => by cases t <;> rfl
    have hmessage : m.switched?.isSome = m.endsSwitch := by cases m <;> rfl
    simp only [hthread, hmessage]
    exact h.nbSwitchingMachines

theorem initialThreads_switch (cfg : Config) : ∀ t ∈ initialThreads cfg, t.switch? = none := by
  intro t ht
  simp only [initialThreads, List.mem_append, List.mem_map, List.mem_singleton] at ht
  obtain ((⟨d, -, rfl⟩ | ⟨d, -, rfl⟩) | ⟨d, -, rfl⟩) | rfl := ht <;> rfl

section runs

variable {cfg : Config} {guard : Sim → Choice → Prop} {s s' : Sim}

/-- `nb_switching_machines` is the number of the switches whose end the server has not handled. -/
theorem reaches_nbSwitchingMachines (h : Reaches (batsim cfg) guard s) :
    s.data.nbSwitchingMachines = s.switching.card :=
  switch_counts.reaches rfl (initialThreads_switch cfg) h

/-- No switch and no killing is under way once they are counted down. -/
theorem activities_over (h : Reaches (batsim cfg) guard s) (hswitches : s.data.nbSwitchingMachines = 0)
    (hkillers : s.data.nbKillers = 0) :
    ∀ t ∈ s.pool.threads, t.isSwitch = false ∧ t.isKiller = false := by
  rw [reaches_nbSwitchingMachines h, Nat.cast_eq_zero, Multiset.card_eq_zero] at hswitches
  rw [reaches_nbKillers h, Nat.cast_eq_zero, Multiset.card_eq_zero] at hkillers
  intro t ht
  have hswitch : t.switch? = none := Pool.labels_eq_zero hswitches ht
  have hkiller : t.killing? = none := Pool.labels_eq_zero hkillers ht
  cases t with
  | killer ids acknowledge => cases hkiller
  | switchOn | switchOff | switchingOn | switchingOff => cases hswitch
  | _ => exact ⟨rfl, rfl⟩

/-- No submitter lives once all have said goodbye. -/
theorem submitters_over (h : Reaches (batsim cfg) guard s)
    (hstarted : Thread.serverProcess ∉ s.pool.threads)
    (hover : ∀ type, (s.data.submitterCounters type).nbSubmittersFinished =
      (s.data.submitterCounters type).expectedNbSubmitters) :
    ∀ t ∈ s.pool.threads, t.submits? = none := by
  intro t ht
  by_contra hsome
  obtain ⟨type, htype⟩ := Option.ne_none_iff_exists'.mp hsome
  have hcount := count_submitters h type
  obtain ⟨hexpected, hfinished⟩ := reaches_countsByes h hstarted type
  have hmem : type ∈ s.pool.labels Thread.submits? IPMessage.bye? := Pool.mem_labels ht htype
  have hpos := Multiset.count_pos.mpr hmem
  have heq := hover type
  omega

/-- No job is executed, nor its submitter called back, once none runs. -/
theorem jobs_over (h : Reaches (batsim cfg) guard s) (hnone : s.history.resubmitted = [])
    (hrunning : s.data.nbRunningJobs = 0) (p : JobPtr) : traceOf p s.pool = 0 := by
  obtain ⟨l, hl⟩ := reaches_alive h hnone p
  have hcounts := accounts_right h hnone
  have hover : p ∈ s.history.started → p ∈ s.history.counted := by
    intro hp
    have hlength := hcounts.nbRunningJobs
    rw [hrunning] at hlength
    have hnil : s.history.started.filter (· ∉ s.history.counted) = [] :=
      List.length_eq_zero_iff.mp (by exact_mod_cast hlength.symm)
    simpa using List.filter_eq_nil_iff.mp hnil p hp
  have hstarted : s.history.started.count p = l.started := hl.started
  have hcounted : s.history.counted.count p = l.counted := hl.counted
  have htrace : traceOf p s.pool = l.trace p := hl.trace
  rw [← List.count_pos_iff, ← List.count_pos_iff, hstarted, hcounted] at hover
  rw [htrace]
  cases l with
  | launched | executing | cancelled | ended | calling => simp [Life.started, Life.counted] at hover
  | _ => rfl

/-- Each job that was submitted is over, once as many are completed. -/
theorem submitted_over (h : Reaches (batsim cfg) guard s) (hnone : s.history.resubmitted = [])
    (hregistering : registering s.pool = [])
    (hcompleted : s.data.nbCompletedJobs = s.data.nbSubmittedJobs) :
    s.history.counted.Perm s.history.submitted := by
  have hcounts := accounts_right h hnone
  refine (hcounts.counted.subperm fun p hp => ?_).perm_of_length_le ?_
  · obtain ⟨l, hl⟩ := reaches_alive h hnone p
    have hcounted : s.history.counted.count p = l.counted := hl.counted
    have hstate : (s.job p).state = l.state := hl.state
    have hpos := List.count_pos_iff.mpr hp
    have hne : (s.job p).state ≠ .notSubmitted := by
      rw [hstate]
      cases l with
      | rejected => simp [Life.state]
      | settled o =>
        cases o with
        | none => simp [Life.state]
        | some o => exact o.ne rfl
      | _ => simp [hcounted, Life.counted] at hpos
    obtain hsubmitted | hway := (reaches_entered h).covered p (by simp [hnone]) hne
    · exact hsubmitted
    · simp [hregistering] at hway
  · have hnumber := hcounts.nbCompletedJobs
    rw [hcompleted, hcounts.nbSubmittedJobs] at hnumber
    omega

end runs

/-! ### The end is told -/

/-- What may live once the end is told: the reader of the last reply, and actors that have told the
server about the end of their job. -/
def Thread.isLast : Thread → Bool
  | requestReply _ | notified _ | applyReply _ [.send _ .schedReady] => true
  | _ => false

theorem Thread.registering_of_isLast {t : Thread} (h : t.isLast = true) : t.registering = [] := by
  unfold Thread.isLast at h
  split at h
  · rfl
  · rfl
  · rfl
  · cases h

/-- The scheduler answers the last message with no event. -/
def silentAtEnd (s : Sim) : Choice → Prop
  | .run (.reply r) => s.data.endOfSimulationSent = true → r.events = []
  | _ => True

instance (s : Sim) (c : Choice) : Decidable (silentAtEnd s c) := by
  unfold silentAtEnd
  split <;> infer_instance

/-- The end of the simulation was told last, in a message of its own; nothing else is under way. -/
structure Ended (s : Sim) : Prop where
  told : ∃ events messages date, s.history.appended = events ++ [⟨date, .simulationEnds⟩] ∧
    (∀ e ∈ events, e.event ≠ .simulationEnds) ∧
    s.history.sent = messages ++ [[⟨date, .simulationEnds⟩]]
  threads : ∀ t ∈ s.pool.threads, t.isLast = true
  queue : ∀ m ∈ s.pool.queue, m = .schedReady
  nbRunningJobs : s.data.nbRunningJobs = 0
  nbSwitchingMachines : s.data.nbSwitchingMachines = 0
  nbKillers : s.data.nbKillers = 0
  nbWaiters : s.data.nbWaiters = 0
  nbCompletedJobs : s.data.nbCompletedJobs = s.data.nbSubmittedJobs
  counted : s.history.counted.Perm s.history.submitted
  ready : s.data.endOfSimulationAckReceived = true → s.data.schedReady = true

section runs

variable {cfg : Config} {guard : Sim → Choice → Prop} {s s' u : Sim} {c : Choice}

theorem reaches_exited (h : Reaches (batsim cfg) guard s) :
    s.exited = s.data.endOfSimulationAckReceived := by
  refine h.invariant (P := fun s => s.exited = s.data.endOfSimulationAckReceived) rfl ?_
  intro s s' c hr hs _ hstep
  have hend : ∀ {u u' : Sim}, endOfTurn cfg u = .ok u' →
      u'.exited = u'.data.endOfSimulationAckReceived := by
    intro u u' hrun
    obtain rfl | ⟨workloads, hflush⟩ | hfinish := endOfTurn_cases hrun
    · rfl
    · rw [hflush.eq]
      exact hflush.canSend.2.1.symm
    · rw [hfinish.eq]
      exact hfinish.canSend.2.1.symm
  cases step_kind hstep with
  | solve clock receive wakes rest order pool hcan hsolve hs' =>
    subst hs'
    exact hs
  | turn o m pool hnext hturn =>
    obtain ⟨t, ht, hor⟩ := turn_cases hturn
    obtain ⟨hback, rfl⟩ | ⟨-, hrun⟩ := hor
    · obtain ⟨p, submitter, rfl, -, rfl⟩ := handleMessage_callsBack hback ht
      exact hs
    · exact hend hrun
  | callback o p mailbox pool hnext hrun =>
    obtain ⟨t, -, hrun⟩ := serverCallback_cases hrun
    exact hend hrun
  | start o pool hnext hrun =>
    rw [serverProcess_effect hrun]
    exact hs
  | actor o t pool ht hnext hrun =>
    have howned := reaches_owned hr
    obtain ⟨-, hkeeps⟩ := runThread_moves (s := { s with pool := pool }) howned ht hrun
    rw [hkeeps.exited, hkeeps.data]
    exact hs

/-- The turn in which the server finds that the simulation is finished. -/
theorem Finishes.ended {es : List DatedEvent} (hr : Reaches (batsim cfg) guard s)
    (hr' : Reaches (batsim cfg) guard s') (hnone : s'.history.resubmitted = [])
    (hsent : s.data.endOfSimulationSent = false) (hlogs : Logs s u es)
    (hqueue : u.pool.queue = []) (hwaiters : u.pool.count Thread.isWaiter = 0)
    (hfinish : Finishes cfg u s') : Ended s' := by
  have hfinished := hfinish.finished
  simp only [isSimulationFinished, Bool.and_eq_true, decide_eq_true_eq] at hfinished
  obtain ⟨⟨⟨⟨⟨⟨⟨hjobs, hevents⟩, -⟩, hcompleted⟩, hrunning⟩, hswitching⟩, hnbWaiters⟩,
    hkillers⟩ := hfinished
  obtain ⟨hwriter, rfl⟩ : s.writer.isEmpty = true ∧ es = [] := by
    have hboth := hlogs.isEmpty.symm.trans hfinish.empty
    rw [Bool.and_eq_true, List.isEmpty_iff] at hboth
    exact hboth
  have hevents' : u.writer.events = [] := by
    rw [hlogs.events, (reaches_exchange hr).isEmpty.mp hwriter]
    rfl
  have heq := hfinish.eq
  have hpool : s'.pool = u.pool.spawn (.requestReply (u.logged .simulationEnds).writer.events) := by
    rw [heq]
    rfl
  have hdata : s'.data = { u.data with schedReady := false, endOfSimulationSent := true } := by
    rw [heq]
    rfl
  have hserver : Thread.serverProcess ∉ s'.pool.threads := by
    intro hmem
    obtain ⟨done, todo, -, hstart⟩ := reaches_unstarted hr' hmem
    have hfalse := congrArg (fun x => x.data.endOfSimulationSent) hstart
    rw [hdata] at hfalse
    cases hfalse
  have hreaders : u.pool.count Thread.isReader = 0 := by
    have hbalance := (reaches_exchange hr').alternates.balance
    rw [hpool, hdata, Pool.count_spawn] at hbalance
    simp only [Thread.isReader, if_true, Bool.false_eq_true, if_false] at hbalance
    omega
  have hsubmitters : ∀ t ∈ s'.pool.threads, t.submits? = none := by
    refine submitters_over hr' hserver fun type => ?_
    rw [hdata]
    cases type
    · exact hjobs
    · exact hevents
  have hactivities : ∀ t ∈ s'.pool.threads, t.isSwitch = false ∧ t.isKiller = false :=
    activities_over hr' (by rw [hdata]; exact hswitching) (by rw [hdata]; exact hkillers)
  have hover : ∀ p, traceOf p s'.pool = 0 :=
    jobs_over hr' hnone (by rw [hdata]; exact hrunning)
  have hqueue' : s'.pool.queue = [] := by
    rw [hpool]
    exact hqueue
  have hthreads : ∀ t ∈ s'.pool.threads, t.isLast = true := by
    intro t ht
    have hsubmitter := hsubmitters t ht
    obtain ⟨hswitch, hkiller⟩ := hactivities t ht
    have htrace : ∀ p, t.trace? p = none := fun p => Pool.labels_eq_zero (hover p) ht
    have hold : t = .requestReply (u.logged .simulationEnds).writer.events ∨
        t ∈ u.pool.threads := by
      rw [hpool] at ht
      exact Pool.mem_threads_spawn _ _ |>.mp ht
    obtain rfl | hold := hold
    · rfl
    have hwaiter := Pool.count_eq_zero.mp hwaiters t hold
    have hreader := Pool.count_eq_zero.mp hreaders t hold
    cases t with
    | serverProcess => exact absurd ht hserver
    | serverCallback p mailbox => simp [Thread.trace?] at htrace
    | executeJob a | executing a l | cancelled a =>
      have hjob := htrace a.allocation.job
      simp [Thread.trace?] at hjob
    | killer ids acknowledge => cases hkiller
    | waiter | waiting => cases hwaiter
    | switchOn | switchOff | switchingOn | switchingOff => cases hswitch
    | jobSubmitter | eventSubmitter | workflowSubmitter => cases hsubmitter
    | applyReply now todo => cases hreader
    | requestReply | notified => rfl
  refine ⟨⟨u.history.appended, u.history.sent, u.clock, ?_, ?_, ?_⟩, hthreads, by simp [hqueue'],
    ?_, ?_, ?_, ?_, ?_, ?_, ?_⟩
  · rw [heq]
    rfl
  · rw [hlogs.appended, List.append_nil]
    exact reaches_notEnded hr hsent
  · rw [heq]
    simp [messageSent, logged, hevents']
  · rw [hdata]
    exact hrunning
  · rw [hdata]
    exact hswitching
  · rw [hdata]
    exact hkillers
  · rw [hdata]
    exact hnbWaiters
  · rw [hdata]
    exact hcompleted
  · refine submitted_over hr' hnone ?_ (by rw [hdata]; exact hcompleted)
    refine List.eq_nil_iff_forall_not_mem.mpr fun p hp => ?_
    obtain ⟨t, ht, hin⟩ | hin := mem_registering.mp hp
    · simp [Thread.registering_of_isLast (hthreads t ht)] at hin
    · simp [hqueue'] at hin
  · rw [hdata]
    intro hack
    rw [hfinish.canSend.2.1] at hack
    cases hack

/-- Nothing that the end depends on changes. -/
theorem Ended.of_same (h : Ended s) (happended : s'.history.appended = s.history.appended)
    (hsent : s'.history.sent = s.history.sent)
    (hcounted : s'.history.counted = s.history.counted)
    (hsubmitted : s'.history.submitted = s.history.submitted)
    (hthreads : ∀ t ∈ s'.pool.threads, t.isLast = true)
    (hqueue : ∀ m ∈ s'.pool.queue, m = .schedReady)
    (hdata : s'.data = s.data ∨
      s'.data = { s.data with schedReady := true, endOfSimulationAckReceived := true }) :
    Ended s' := by
  have htold := h.told
  rw [← happended, ← hsent] at htold
  refine ⟨htold, hthreads, hqueue, ?_, ?_, ?_, ?_, ?_, ?_, ?_⟩
  · obtain hdata | hdata := hdata <;> rw [hdata]
    · exact h.nbRunningJobs
    · exact h.nbRunningJobs
  · obtain hdata | hdata := hdata <;> rw [hdata]
    · exact h.nbSwitchingMachines
    · exact h.nbSwitchingMachines
  · obtain hdata | hdata := hdata <;> rw [hdata]
    · exact h.nbKillers
    · exact h.nbKillers
  · obtain hdata | hdata := hdata <;> rw [hdata]
    · exact h.nbWaiters
    · exact h.nbWaiters
  · obtain hdata | hdata := hdata <;> rw [hdata]
    · exact h.nbCompletedJobs
    · exact h.nbCompletedJobs
  · rw [hcounted, hsubmitted]
    exact h.counted
  · obtain hdata | hdata := hdata <;> rw [hdata]
    · exact h.ready
    · exact fun _ => rfl

/-- The reader of the last reply. -/
theorem Ended.applyReply (h : Ended u) {now date : Date}
    (hrun : applyReply cfg now u [.send date .schedReady] = .ok s') : Ended s' := by
  rw [Batsim.applyReply, Except.ok.injEq] at hrun
  have hkeeps := sendAtTime_keeps now u date .schedReady []
  have hsend := sendAtTime_cases now u date .schedReady []
  rw [hrun] at hkeeps hsend
  refine h.of_same hkeeps.appended hkeeps.sent hkeeps.counted hkeeps.submitted (fun t ht => ?_)
    (fun m hm => ?_) (.inl hkeeps.data)
  · obtain rfl | rfl := hsend
    · obtain rfl | hold := (Pool.mem_threads_block _ _).mp ht
      · rfl
      · exact h.threads t hold
    · rw [noteSent_pool, Sim.put, Pool.mem_threads_put] at ht
      obtain hnone | hold := ht
      · cases hnone
      · exact h.threads t hold
  · obtain rfl | rfl := hsend
    · exact h.queue m hm
    · rw [noteSent_pool, Sim.put, Pool.queue_put, List.mem_append, List.mem_singleton] at hm
      exact hm.elim (h.queue m) id

theorem Ended.step (h : Ended s)
    (hsent : s.data.endOfSimulationSent = true) (hc : silentAtEnd s c)
    (hstep : (batsim cfg).step s c = .ok s') : Ended s' := by
  have hleft : ∀ {t : Thread} {pool : Pool IPMessage Thread},
      s.pool.next? = some (.resume t, pool) → t.isLast = true ∧ Ended { s with pool := pool } := by
    intro t pool hnext
    obtain ⟨hthreads, hqueue⟩ := Pool.next?_resume hnext
    refine ⟨h.threads t (hthreads.mem_iff.mpr (List.mem_cons_self ..)), ?_⟩
    refine h.of_same rfl rfl rfl rfl (fun u hu => ?_) (fun m hm => ?_) (.inl rfl)
    · exact h.threads u (hthreads.mem_iff.mpr (List.mem_cons_of_mem _ hu))
    · exact h.queue m (hqueue ▸ hm)
  cases step_kind hstep with
  | solve clock receive wakes rest order pool hcan hsolve hs' =>
    subst hs'
    refine h.of_same rfl rfl rfl rfl (fun t ht => ?_) (fun m hm => ?_) (.inl rfl)
    · exact h.threads t ((Pool.threads_solve hsolve).mem_iff.mp ht)
    · exact h.queue m (Pool.queue_solve hsolve ▸ hm)
  | turn o m pool hnext hturn =>
    obtain ⟨hthreads, hqueue, -, -⟩ := Pool.next?_deliver hnext
    obtain rfl : m = .schedReady := h.queue m (by simp [hqueue])
    obtain ⟨t, ht, ⟨hback, -⟩ | ⟨-, hend⟩⟩ := turn_cases hturn
    · cases hback
    rw [show handleMessage cfg { s with pool := pool } .schedReady =
      serverOnSchedReady { s with pool := pool } from rfl, serverOnSchedReady, hsent,
      Except.ok.injEq] at ht
    subst ht
    obtain rfl | ⟨workloads, hflush⟩ | hfinish := endOfTurn_cases hend
    · refine h.of_same rfl rfl rfl rfl (fun t ht => ?_) (fun m hm => ?_) (.inr rfl)
      · exact h.threads t (hthreads ▸ ht)
      · exact h.queue m (by rw [hqueue]; exact List.mem_cons_of_mem _ hm)
    · cases hflush.canSend.2.1
    · cases hfinish.canSend.2.1
  | callback o p mailbox pool hnext hrun => cases (hleft hnext).1
  | start o pool hnext hrun => cases (hleft hnext).1
  | actor o t pool ht hnext hrun =>
    obtain ⟨hlast, hleft⟩ := hleft hnext
    unfold Thread.isLast at hlast
    split at hlast
    · cases o with
      | reply r =>
        have happly := requestReply_effect hrun
        rw [Reply.todo, hc hsent] at happly
        exact Ended.applyReply (u := { s with pool := pool, history := { s.history with
          replies := s.history.replies ++ [(r, [])] } })
          (hleft.of_same rfl rfl rfl rfl hleft.threads hleft.queue (.inl rfl)) happly
      | _ => simp [runThread] at hrun
    · rw [runThread, Except.ok.injEq] at hrun
      subst hrun
      exact hleft.of_same rfl rfl rfl rfl hleft.threads hleft.queue (.inl rfl)
    · next now date =>
      have happly : Batsim.applyReply cfg now { s with pool := pool } [.send date .schedReady] =
        .ok s' := hrun
      exact hleft.applyReply happly
    · cases hlast

/-- The step that tells the end. -/
theorem ended_of_step (hr : Reaches (batsim cfg) guard s) (hr' : Reaches (batsim cfg) guard s')
    (hnone : s'.history.resubmitted = []) (hstep : (batsim cfg).step s c = .ok s')
    (hbefore : s.data.endOfSimulationSent = false) (hafter : s'.data.endOfSimulationSent = true) :
    Ended s' := by
  obtain ⟨past, hvisits⟩ := hr.visits
  have hawaits : Awaits s := (visits_callsKept hvisits).before hbefore
  have hplaced := reaches_placed hr
  have hfinishes : ∀ {u : Sim}, endOfTurn cfg u = .ok s' →
      u.data.endOfSimulationSent = s.data.endOfSimulationSent → Finishes cfg u s' := by
    intro u hend hsame
    obtain rfl | ⟨workloads, hflush⟩ | hfinish := endOfTurn_cases hend
    · exact absurd (hafter.symm.trans (hsame.trans hbefore)) (by decide)
    · rw [hflush.eq] at hafter
      exact absurd (hafter.symm.trans (hsame.trans hbefore)) (by decide)
    · exact hfinish
  have hquiet : ∀ {u : Sim}, Finishes cfg u s' → u.data.nbWaiters = 0 := by
    intro u hfinish
    have hfinished := hfinish.finished
    simp only [isSimulationFinished, Bool.and_eq_true, decide_eq_true_eq] at hfinished
    exact hfinished.1.2
  cases step_kind hstep with
  | solve clock receive wakes rest order pool hcan hsolve hs' =>
    subst hs'
    exact absurd (hafter.symm.trans hbefore) (by decide)
  | turn o m pool hnext hturn =>
    obtain ⟨t, ht, hor⟩ := turn_cases hturn
    obtain ⟨_, hhandled⟩ := handleMessage_effect ht
    have hkeeps := hhandled.keeps
    obtain ⟨hback, rfl⟩ | ⟨-, hend⟩ := hor
    · rw [hkeeps.endOfSimulationSent] at hafter
      exact absurd (hafter.symm.trans hbefore) (by decide)
    · have hfinish := hfinishes hend hkeeps.endOfSimulationSent
      have hserver := hplaced.atServer_deliver hnext
      obtain ⟨es, hlogs, -⟩ := hkeeps.logs
      obtain ⟨ts, bs, hpool, -, -⟩ := handleMessage_pool ht
      have hlogs : Logs s (t.noteHandled m) es := ⟨hlogs.appended, hlogs.events, hlogs.isEmpty⟩
      have hwaiters := hquiet hfinish
      refine hfinish.ended hr hr' hnone hbefore hlogs ?_ ?_
      · have hqueue : t.pool.queue = pool.queue := by
          rw [hpool]
          rfl
        have hmailbox : t.pool.mailbox = [] := hfinish.canSend.2.2
        exact hqueue.trans (by rw [hserver.queue, ← hkeeps.mailbox, hmailbox, List.map_nil])
      · have hcalls := handleMessage_calls hnext ht
        have hnb := (hawaits.of_handled (u := t.noteHandled m) hkeeps.clock hcalls).nbWaiters
        rw [hwaiters] at hnb
        omega
  | callback o p mailbox pool hnext hrun =>
    obtain ⟨t, ht, hend⟩ := serverCallback_cases hrun
    obtain ⟨hkeeps, -, hpool, -, -, hactivities⟩ := serverOnCallbackReceived_frame ht
    have hfinish := hfinishes hend hkeeps.endOfSimulationSent
    have hserver := hplaced.atServer_resume rfl rfl hnext
    obtain ⟨es, hlogs, -⟩ := hkeeps.logs
    have hsame : (t.noteHandled (.jobCompleted p)).pool = pool := hpool
    have hlogs : Logs s (t.noteHandled (.jobCompleted p)) es :=
      ⟨hlogs.appended, hlogs.events, hlogs.isEmpty⟩
    have hwaiters := hquiet hfinish
    refine hfinish.ended hr hr' hnone hbefore hlogs ?_ ?_
    · have hmailbox : pool.mailbox = [] := hsame ▸ hfinish.canSend.2.2
      rw [hsame, hserver.queue, hmailbox, List.map_nil]
    · have hnb := hawaits.nbWaiters
      have hzero : s.data.nbWaiters = 0 := hactivities.nbWaiters.symm.trans hwaiters
      have hcount := Pool.count_next?_resume hnext Thread.isWaiter
      rw [hsame]
      omega
  | start o pool hnext hrun =>
    rw [serverProcess_effect hrun] at hafter
    exact absurd (hafter.symm.trans hbefore) (by decide)
  | actor o t pool ht hnext hrun =>
    have howned := reaches_owned hr
    obtain ⟨-, hkeeps⟩ := runThread_moves (s := { s with pool := pool }) howned ht hrun
    rw [hkeeps.data] at hafter
    exact absurd (hafter.symm.trans hbefore) (by decide)

/-- In every run in which no job is submitted twice and the scheduler answers `SIMULATION_ENDS` with
no event: the end is told once, last, in a message of its own, when nothing is under way and each
job that was submitted is over; the server does not leave its loop before, and all its final checks
hold when it does. -/
theorem simulation_ends (h : Reaches (batsim cfg) silentAtEnd s)
    (hnone : s.history.resubmitted = []) :
    (s.data.endOfSimulationSent = false ∧ s.exited = false ∧
        ∀ e ∈ s.history.appended, e.event ≠ .simulationEnds) ∨
      s.data.endOfSimulationSent = true ∧ Ended s ∧
        (s.exited = true → serverProcessEnd s = .ok ()) := by
  cases hsent : s.data.endOfSimulationSent with
  | false =>
    refine .inl ⟨rfl, ?_, reaches_notEnded h hsent⟩
    rw [reaches_exited h]
    by_contra hack
    rw [Bool.not_eq_false] at hack
    exact absurd (hsent.symm.trans (reaches_ack h hack)) (by decide)
  | true =>
    have hended : Ended s := by
      revert hnone hsent
      refine h.invariant (P := fun s => s.history.resubmitted = [] →
        s.data.endOfSimulationSent = true → Ended s) (by simp [batsim, start]) ?_
      intro s s' c hr hs hc hstep hnone hafter
      cases hbefore : s.data.endOfSimulationSent with
      | false => exact ended_of_step hr (hr.step hc hstep) hnone hstep hbefore hafter
      | true => exact (hs (resubmitted_nil hr hstep hnone) hbefore).step hbefore hc hstep
    refine .inr ⟨rfl, hended, fun hexited => ?_⟩
    rw [reaches_exited h] at hexited
    simp [serverProcessEnd, xbtAssert, hsent, hexited, hended.ready hexited, hended.nbRunningJobs,
      hended.nbSwitchingMachines, hended.nbKillers, hended.nbWaiters, hended.nbCompletedJobs]

end runs

/-- A job is registered, executed and completed, and the simulation ends. -/
theorem lone_job_ends : ∃ s : Sim, s.exited = true ∧ s.history.counted = [ptr loneJob] ∧
    Ended s ∧ serverProcessEnd s = .ok () := by
  let reply : Reply :=
    { now := 0
      events := [⟨0, .registerJob loneJob loneJobDescription⟩,
        ⟨0, .executeJob loneJob loneMachine none⟩, ⟨0, .notify "registration_finished"⟩] }
  let later (date : Date) : Reply := { now := date, events := [] }
  obtain ⟨s, hreaches, hnone, hexited, hcounted⟩ := exists_reaches_of_run (batsim loneHost)
    silentAtEnd (fun s => s.history.resubmitted = [] ∧ s.exited = true ∧
      s.history.counted = [ptr loneJob])
    [.next, .next, .next (.reply (later 1)), .receive, .next, .next, .receive, .next,
      .pass 1 false (fun t => t.wakeDate.isSome), .next, .receive, .next, .next (.reply reply),
      .receive, .next, .next, .receive, .next, .next, .next (.task (.leaf .other)), .receive, .next,
      .next, .receive, .next, .next (.reply (later 10)),
      .pass 10 false (fun t => t.wakeDate.isSome || t.actor?.isSome), .next (.task (.finish 0)),
      .next, .receive, .next, .next, .receive, .next, .next (.reply (later 10)), .receive, .next,
      .next (.reply (later 10)), .receive, .next]
    (by decide +kernel)
  obtain ⟨-, hfalse, -⟩ | ⟨-, hended, hchecks⟩ := simulation_ends hreaches hnone
  · exact absurd (hexited.symm.trans hfalse) (by decide)
  · exact ⟨s, hexited, hcounted, hended, hchecks hexited⟩

end Batsim
