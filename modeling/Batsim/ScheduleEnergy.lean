import Batsim.Submissions

/-!
The energy of the schedule: what is read of the consumed energy at the first submission of a job
and at the end of the last one.
-/

namespace Batsim

open Checked Workloads Sim StepSystem

/-- The messages by which the server learns of new jobs. -/
def IPMessage.submitsJobs : IPMessage → Bool
  | .jobSubmitted _ _ | .jobRegisteredByDP _ => true
  | _ => false

/-- How many submissions were sent so far, by submitters or by the scheduler. -/
def Sim.nbSubmissions (s : Sim) : Nat :=
  (s.history.handled ++ s.pool.queue).countP IPMessage.submitsJobs

/-- The actor that runs in a step. -/
def Sim.running? (s : Sim) : Choice → Option Thread
  | .run _ =>
    match s.pool.next? with
    | some (.resume t, _) => some t
    | _ => none
  | .solve .. => none

/-! ### The energy tracer -/

/-- `Machines::total_consumed_energy`; `energy` is what the hosts have consumed at a date. -/
def totalConsumedEnergy (cfg : Config) (energy : Date → ℚ) (s : Sim) : ℚ :=
  if cfg.energyUsed then energy s.clock else -1

/-- The jobs that `static_job_submitter_process` sorts. -/
def jobsToSubmit (s : Sim) (workload : String) : Except String (List JobPtr) := do
  let wl ← s.workloads.at? workload
  .ok ((wl.jobs.jobs.entries.map fun e => e.2).insertionSort
    fun a b => jobComparatorSubtimeNumber s.job a b = true)

/-- What a submitter pushes on `jobs_to_send` when it runs from a phase to its next blocking
call. -/
def SubmitterKind.jobsToSend {α : Type} (k : SubmitterKind α) (s : Sim)
    (items : Except String (List α)) : SubmitterPhase α → List α
  | .started | .sent _ _ => []
  | .greeted =>
    match items with
    | .ok items => (nextBatch k.time s.clock [] items).1
    | .error _ => []
  | .asleep _ a rest => (nextBatch k.time s.clock [a] rest).1

/-- The two variables of the context, with what happened so far. -/
structure EnergyRecord where
  energyFirstJobSubmission : ℚ := -1
  energyLastJobCompletion : ℚ := -1
  /-- the workloads whose submitter has pushed a job: its `is_first_job` is false -/
  pushing : List String := []
  /-- the dates at which jobs were submitted, whoever submitted them -/
  submissions : List Date := []
  /-- those at which the submitter of a workload did -/
  staticSubmissions : List Date := []
  /-- the dates at which executed jobs ended -/
  ends : List Date := []
deriving DecidableEq

namespace EnergyRecord

variable (cfg : Config) (energy : Date → ℚ)

/-- A submitter pushes a job. -/
def push (r : EnergyRecord) (s : Sim) (workload : String) : EnergyRecord :=
  if workload ∈ r.pushing then r
  else { r with
    pushing := workload :: r.pushing
    energyFirstJobSubmission :=
      if r.energyFirstJobSubmission < 0 then totalConsumedEnergy cfg energy s
      else r.energyFirstJobSubmission }

/-- `static_job_submitter_process`, as far as the energy of the schedule is concerned -/
def submit (r : EnergyRecord) (s : Sim) : Option Thread → EnergyRecord
  | some (.jobSubmitter workload phase) =>
    if (jobSubmitterKind s workload).jobsToSend s (jobsToSubmit s workload) phase = [] then r
    else r.push cfg energy s workload
  | _ => r

/-- `EnergyConsumptionTracer::add_job_end`, that is called after `update_machines_on_job_end` -/
def addJobEnd (r : EnergyRecord) (s s' : Sim) : EnergyRecord :=
  if cfg.energyUsed = true ∧ s'.history.ends ≠ s.history.ends then
    { r with energyLastJobCompletion := totalConsumedEnergy cfg energy s }
  else r

/-- The dates of what happens in a step. -/
def note (r : EnergyRecord) (s : Sim) (t : Option Thread) (s' : Sim) : EnergyRecord :=
  let submits := s.nbSubmissions < s'.nbSubmissions
  { r with
    submissions := if submits then r.submissions ++ [s.clock] else r.submissions
    staticSubmissions :=
      match t with
      | some (.jobSubmitter _ _) =>
        if submits then r.staticSubmissions ++ [s.clock] else r.staticSubmissions
      | _ => r.staticSubmissions
    ends := if s'.history.ends ≠ s.history.ends then r.ends ++ [s.clock] else r.ends }

/-- What a step does to the record. -/
def step (r : EnergyRecord) (s : Sim) (c : Choice) (s' : Sim) : EnergyRecord :=
  ((r.submit cfg energy s (s.running? c)).addJobEnd cfg energy s s').note s (s.running? c) s'

/-- The row `consumed_joules` of `JobsTracer::finalize`, before the conversion to text -/
def consumedJoules (r : EnergyRecord) : ℚ := r.energyLastJobCompletion - r.energyFirstJobSubmission

end EnergyRecord

/-- The simulations whose energy is traced. -/
def tracedBatsim (cfg : Config) (energy : Date → ℚ) :
    StepSystem (Sim × EnergyRecord) Choice String :=
  (batsim cfg).observe {} (EnergyRecord.step cfg energy)

/-! ### Nothing runs before a submission -/

/-- What the handlers do to the counters of the server, and to the tasks of the jobs. -/
structure Advances (s s' : Sim) : Prop where
  running : 0 ≤ s.data.nbRunningJobs → 0 ≤ s'.data.nbRunningJobs
  submitted : s.data.nbSubmittedJobs ≤ s'.data.nbSubmittedJobs
  task : ∀ p, (s'.job p).task = (s.job p).task

namespace Advances

variable {s s' s'' : Sim}

theorem refl (s : Sim) : Advances s s := ⟨id, le_rfl, fun _ => rfl⟩

theorem trans (h : Advances s s') (h' : Advances s' s'') : Advances s s'' :=
  ⟨h'.running ∘ h.running, h.submitted.trans h'.submitted,
    fun p => (h'.task p).trans (h.task p)⟩

theorem of_sameJobs (h : SameJobs s s') : Advances s s' :=
  ⟨fun hrunning => h.nbRunningJobs ▸ hrunning, h.nbSubmittedJobs.ge, h.task⟩

/-- The state of a job changes, and the counters of running and submitted jobs may grow. -/
theorem of_setJob {p : JobPtr} {j : Job} (hjob : s'.job = Function.update s.job p j)
    (htask : j.task = (s.job p).task) (hrunning : s.data.nbRunningJobs ≤ s'.data.nbRunningJobs)
    (hsubmitted : s.data.nbSubmittedJobs ≤ s'.data.nbSubmittedJobs) : Advances s s' := by
  refine ⟨fun h => h.trans hrunning, hsubmitted, fun q => ?_⟩
  rw [hjob]
  by_cases hq : q = p
  · subst hq
    simpa using htask
  · simp [hq]

end Advances

theorem advances_completeJob {s : Sim} {p : JobPtr} (h : 0 < s.data.nbRunningJobs) :
    Advances s (s.completeJob p) := by
  refine ⟨fun _ => ?_, le_rfl, fun _ => rfl⟩
  have hrunning : (s.completeJob p).data.nbRunningJobs = s.data.nbRunningJobs - 1 := rfl
  omega

theorem submitJob_advances {cfg : Config} {submitter : Submitter} {s s' : Sim} {p : JobPtr}
    (h : submitJob cfg submitter s p = .ok s') : Advances s s' := by
  obtain ⟨-, job, profile, rfl⟩ := submitJob_effect h
  unfold submit track noteResubmission
  split <;> split <;>
    exact .of_setJob (p := p) rfl rfl le_rfl (Int.le_add_one le_rfl)

/-- The handling of a message: only a submission makes the number of submitted jobs grow. -/
theorem handleMessage_advances {cfg : Config} {s s' : Sim} {m : IPMessage}
    (h : handleMessage cfg s m = .ok s') :
    Advances s s' ∧
      (m.submitsJobs = false → s'.data.nbSubmittedJobs = s.data.nbSubmittedJobs) := by
  cases htouches : m.touchesJobs with
  | false =>
    obtain ⟨_, hhandled⟩ := handleMessage_effect h
    have hsame := hhandled.jobs htouches
    exact ⟨.of_sameJobs hsame, fun _ => hsame.nbSubmittedJobs⟩
  | true =>
    cases m with
    | jobSubmitted name jobs =>
      refine ⟨?_, fun hm => by cases hm⟩
      obtain rfl | ⟨submitter, -, hrun⟩ := serverOnJobSubmitted_effect h
      · exact .refl _
      · refine forEach_preserves (P := Advances s) (.refl s) ?_ hrun
        intro p _ t t' ht hstep
        exact ht.trans (submitJob_advances hstep)
    | jobRegisteredByDP p =>
      refine ⟨?_, fun hm => by cases hm⟩
      obtain rfl | ⟨job, profile, rfl⟩ := serverOnRegisterJob_effect h <;>
        exact ⟨id, Int.le_add_one le_rfl, fun _ => rfl⟩
    | jobCompleted p =>
      obtain ⟨submitter, -, rfl⟩ | ⟨-, hcount⟩ := serverOnJobCompleted_effect h
      · exact ⟨⟨id, le_rfl, fun _ => rfl⟩, fun _ => rfl⟩
      · obtain ⟨hpos, -, rfl⟩ := countJobCompletion_effect hcount
        exact ⟨advances_completeJob hpos, fun _ => rfl⟩
    | schedExecuteJob a =>
      obtain ⟨-, -, -, rfl⟩ := serverOnExecuteJob_effect h
      exact ⟨.of_setJob (p := a.job) rfl rfl (Int.le_add_one le_rfl) le_rfl, fun _ => rfl⟩
    | schedChangeJobState id state =>
      obtain ⟨p, -, -, -, -, rfl⟩ := serverOnChangeJobState_effect h
      exact ⟨.of_setJob (p := p) rfl rfl (Int.le_add_one le_rfl) le_rfl, fun _ => rfl⟩
    | schedRejectJob id =>
      obtain ⟨p, -, -, rfl⟩ := serverOnRejectJob_effect h
      exact ⟨.of_setJob (p := p) rfl rfl le_rfl le_rfl, fun _ => rfl⟩
    | schedKillJob ids =>
      obtain ⟨t, toKill, ht, rfl⟩ := serverOnKillJobs_effect h
      let P : Sim × List JobIdentifier → Prop := fun acc => Advances s acc.1 ∧
        acc.1.data.nbSubmittedJobs = s.data.nbSubmittedJobs
      have hloop : P (t, toKill) := by
        refine forEach_preserves (P := P) ⟨.refl s, rfl⟩ ?_ ht
        rintro id - ⟨u, k⟩ ⟨u', k'⟩ ⟨hu, hnb⟩ hstep
        obtain ⟨p, -, ⟨-, heq⟩ | ⟨-, -, heq⟩⟩ := requestKill_effect hstep
        · cases heq
          exact ⟨hu, hnb⟩
        · cases heq
          exact ⟨hu.trans (.of_setJob (p := p) rfl rfl le_rfl le_rfl), hnb⟩
      unfold launchKiller
      split
      · exact ⟨hloop.1.trans ⟨id, le_rfl, fun _ => rfl⟩, fun _ => hloop.2⟩
      · exact ⟨hloop.1.trans ⟨id, le_rfl, fun _ => rfl⟩, fun _ => hloop.2⟩
    | killingDone ids acknowledge =>
      obtain ⟨t, ht, rfl⟩ := serverOnKillingDone_effect h
      have hloop : Advances s t ∧ t.data.nbSubmittedJobs = s.data.nbSubmittedJobs := by
        refine forEach_preserves (P := fun t => Advances s t ∧
          t.data.nbSubmittedJobs = s.data.nbSubmittedJobs) ⟨.refl s, rfl⟩ ?_ ht
        rintro jobId - u u' ⟨hu, hnb⟩ hstep
        obtain ⟨p, -, ⟨-, rfl⟩ | ⟨-, hpos, rfl⟩⟩ := countKilledJob_effect hstep
        · exact ⟨hu, hnb⟩
        · have hnote : Advances u (u.noteCountedKilled p) := ⟨id, le_rfl, fun _ => rfl⟩
          exact ⟨(hu.trans hnote).trans (advances_completeJob hpos), hnb⟩
      split <;> exact ⟨hloop.1.trans ⟨id, le_rfl, fun _ => rfl⟩, fun _ => hloop.2⟩
    | _ => cases htouches

/-- The end of a turn leaves the jobs alone. -/
theorem endOfTurn_jobs {cfg : Config} {s s' : Sim} (h : endOfTurn cfg s = .ok s') :
    s'.job = s.job ∧ s'.data.nbRunningJobs = s.data.nbRunningJobs ∧
      s'.data.nbSubmittedJobs = s.data.nbSubmittedJobs ∧
      s'.history.handled = s.history.handled ∧ s'.history.ends = s.history.ends := by
  obtain rfl | ⟨workloads, hflush⟩ | hfinish := endOfTurn_cases h
  · exact ⟨rfl, rfl, rfl, rfl, rfl⟩
  · rw [hflush.eq]
    exact ⟨rfl, rfl, rfl, rfl, rfl⟩
  · rw [hfinish.eq]
    exact ⟨rfl, rfl, rfl, rfl, rfl⟩

/-- No job was ever executed. -/
structure Sim.Idle (s : Sim) : Prop where
  actors : ∀ t ∈ s.pool.threads, t.actor? = none
  task : ∀ p, (s.job p).task = none
  ends : s.history.ends = []

/-- Jobs are executed only after a submission. -/
structure Grounded (s : Sim) : Prop where
  running : 0 ≤ s.data.nbRunningJobs
  submitted : 0 < s.data.nbSubmittedJobs → ∃ m ∈ s.history.handled, m.submitsJobs = true
  idle : s.data.nbSubmittedJobs ≤ 0 → s.Idle

/-- Without an execution in the pool, a run of a thread that executes no job leads to none. -/
theorem Thread.Moves.actors {t : Thread} {q p' : Pool IPMessage Thread} (h : t.Moves q p')
    (hq : ∀ u ∈ q.threads, u.actor? = none) (ht : t.actor? = none) :
    ∀ u ∈ p'.threads, u.actor? = none := by
  intro u hu
  obtain hold | ⟨m, hputs⟩ | hwaits | ⟨a, -, hmem⟩ := h.mem_threads hu
  · exact hq u hold
  · cases hactor : u.actor? with
    | none => rfl
    | some a =>
      obtain ⟨b, hb⟩ := hputs.actor_of_sender hactor
      rw [ht] at hb
      cases hb
  · cases hactor : u.actor? with
    | none => rfl
    | some a =>
      obtain ⟨b, hb⟩ := hwaits.actor_of_waiting hactor
      rw [ht] at hb
      cases hb
  · cases hq _ hmem

/-- A killer finds nothing to kill. -/
theorem killJobs_idle {s s' : Sim} {ids : List JobIdentifier} (htask : ∀ p, (s.job p).task = none)
    (h : forEach killJob s ids = .ok s') : s' = s := by
  refine forEach_preserves (P := fun t => t = s) rfl ?_ h
  rintro jobId - t t' rfl hstep
  obtain ⟨p, -, -, -, -, ⟨-, rfl⟩ | ⟨n, -, hn, -⟩⟩ := killJob_effect hstep
  · rfl
  · rw [htask p] at hn
    cases hn

/-- A run of an actor, while no job is executed. -/
theorem runThread_idle {cfg : Config} {s s' : Sim} {o : Outcome} {t : Thread}
    (howned : s.workloads.Owned) (hserver : t.isServer = false) (ht : t.actor? = none)
    (h : runThread cfg s o t = .ok s') (hs : s.Idle) : s'.Idle := by
  have hmoves := (runThread_moves howned hserver h).1
  cases hkiller : t.isKiller with
  | true =>
    cases t with
    | killer ids acknowledge =>
      obtain ⟨u, hu, rfl⟩ := killerProcess_effect h
      obtain rfl := killJobs_idle hs.task hu
      exact ⟨hmoves.actors hs.actors ht, hs.task, hs.ends⟩
    | _ => cases hkiller
  | false =>
    obtain ⟨new, hby⟩ := runThread_bystands howned hserver ht hkiller h
    refine ⟨hmoves.actors hs.actors ht, fun q => ?_, hby.ends.trans hs.ends⟩
    rw [hby.job]
    cases hnew : new with
    | none => exact hs.task q
    | some x =>
      obtain ⟨p, j⟩ := x
      by_cases hq : q = p
      · subst hq
        simpa using (hby.blank q j hnew).2.1
      · simpa [hq] using hs.task q

section runs

variable {cfg : Config} {guard : Sim → Choice → Prop} {s s' : Sim} {c : Choice}

/-- The handling of a message, up to the end of the turn. -/
theorem Grounded.handle {t : Sim} {m : IPMessage} {pool : Pool IPMessage Thread}
    (h : Grounded s) (hnext : s.pool.next? = some (.deliver m, pool))
    (ht : handleMessage cfg { s with pool := pool } m = .ok t) :
    Grounded (t.noteHandled m) ∧ (m.submitsJobs = false → Grounded t) := by
  obtain ⟨hadvances, hsubmitted⟩ := handleMessage_advances ht
  obtain ⟨_, hhandled⟩ := handleMessage_effect ht
  have hkeeps := hhandled.keeps
  have hmem : ∀ u ∈ pool.threads, u ∈ s.pool.threads := by
    rw [(Pool.next?_deliver hnext).1]
    exact fun u hu => hu
  have hidle : t.data.nbSubmittedJobs ≤ 0 → t.Idle := by
    intro hnb
    have hold := h.idle (hadvances.submitted.trans hnb)
    refine ⟨fun u hu => ?_, fun p => (hadvances.task p).trans (hold.task p),
      hkeeps.ends.trans hold.ends⟩
    obtain ⟨ts, bs, hpool, hts, hbs⟩ := handleMessage_pool ht
    obtain hin | hnew | hback := (mem_threads_of_pool hpool).mp hu
    · exact hold.actors u (hmem u hin)
    · have hlaunched := hts u hnew
      cases m with
      | schedExecuteJob a =>
        obtain ⟨-, hle, -⟩ := serverOnExecuteJob_effect ht
        have hrunning := h.running
        have hmono := hadvances.submitted
        exact absurd hnb (by
          have hle' : s.data.nbRunningJobs + 1 ≤ s.data.nbSubmittedJobs := hle
          have hmono' : s.data.nbSubmittedJobs ≤ t.data.nbSubmittedJobs := hmono
          omega)
      | _ => cases u <;> first | rfl | cases hlaunched
    · obtain ⟨-, rfl⟩ | ⟨_, _, rfl⟩ := hbs
      · cases hback
      · rw [List.mem_singleton.mp hback]
        rfl
  have hold : ∀ n, n ∈ s.history.handled → n ∈ t.history.handled := by
    rw [hkeeps.handled]
    exact fun n hn => hn
  refine ⟨⟨hadvances.running h.running, fun hpos => ?_, fun hnb =>
      ⟨(hidle hnb).actors, (hidle hnb).task, (hidle hnb).ends⟩⟩,
    fun hm => ⟨hadvances.running h.running, fun hpos => ?_, hidle⟩⟩
  · cases hm : m.submitsJobs with
    | true => exact ⟨m, List.mem_append_right _ (List.mem_singleton_self m), hm⟩
    | false =>
      have hpos' : 0 < t.data.nbSubmittedJobs := hpos
      rw [hsubmitted hm] at hpos'
      obtain ⟨n, hn, hsubmits⟩ := h.submitted hpos'
      exact ⟨n, List.mem_append_left _ (hold n hn), hsubmits⟩
  · rw [hsubmitted hm] at hpos
    obtain ⟨n, hn, hsubmits⟩ := h.submitted hpos
    exact ⟨n, hold n hn, hsubmits⟩

theorem Grounded.endOfTurn (h : Grounded s) (hend : endOfTurn cfg s = .ok s') : Grounded s' := by
  obtain ⟨hjob, hrunning, hsubmitted, hhandled, hends⟩ := endOfTurn_jobs hend
  refine ⟨hrunning ▸ h.running, ?_, fun hnb => ?_⟩
  · rw [hsubmitted, hhandled]
    exact h.submitted
  · rw [hsubmitted] at hnb
    have hold := h.idle hnb
    refine ⟨fun u hu => ?_, fun p => by rw [hjob]; exact hold.task p, hends.trans hold.ends⟩
    obtain ⟨ts, hpool, hts⟩ := endOfTurn_pool hend
    have hpool' : s'.pool = { s.pool with
        fresh := s.pool.fresh ++ ts, blocked := s.pool.blocked ++ [] } := by simpa using hpool
    obtain hin | hnew | hback := (mem_threads_of_pool hpool').mp hu
    · exact hold.actors u hin
    · obtain ⟨message, rfl⟩ := hts u hnew
      rfl
    · cases hback

theorem reaches_grounded (h : Reaches (batsim cfg) guard s) : Grounded s := by
  refine h.invariant (P := Grounded) ?_ ?_
  · refine ⟨le_rfl, fun h => absurd h (lt_irrefl _), fun _ => ⟨fun t ht => ?_, fun p => ?_, rfl⟩⟩
    · have hinitial : t ∈ initialThreads cfg := by
        simpa [batsim, start, Pool.threads] using ht
      simp only [initialThreads, List.mem_append, List.mem_map, List.mem_singleton] at hinitial
      obtain ((⟨d, -, rfl⟩ | ⟨d, -, rfl⟩) | ⟨d, -, rfl⟩) | rfl := hinitial <;> rfl
    · change (cfg.job p).task = none
      unfold Config.job
      split
      · rfl
      · split <;> rfl
  intro s s' c hr hs _ hstep
  have howned := reaches_owned hr
  have hrest : ∀ {e : Entry IPMessage Thread} {q : Pool IPMessage Thread} {u : Thread},
      s.pool.next? = some (e, q) → u ∈ q.threads → u ∈ s.pool.threads := by
    intro e q u hnext hu
    cases e with
    | deliver m => rwa [← (Pool.next?_deliver hnext).1]
    | resume t => exact (Pool.next?_resume hnext).1.mem_iff.mpr (List.mem_cons_of_mem _ hu)
  cases step_kind hstep with
  | solve clock receive wakes rest order pool hcan hsolve hs' =>
    subst hs'
    refine ⟨hs.running, hs.submitted, fun hnb => ?_⟩
    have hold := hs.idle hnb
    exact ⟨fun t ht => hold.actors t ((Pool.threads_solve hsolve).mem_iff.mp ht), hold.task,
      hold.ends⟩
  | turn o m pool hnext hturn =>
    obtain ⟨t, ht, ⟨hblocked, rfl⟩ | ⟨-, hend⟩⟩ := turn_cases hturn
    · obtain ⟨p, _, rfl, -⟩ := callsBack_eq_true.mp hblocked
      exact (hs.handle hnext ht).2 rfl
    · exact (hs.handle hnext ht).1.endOfTurn hend
  | callback o p mailbox pool hnext hrun =>
    obtain ⟨t, ht, hend⟩ := serverCallback_cases hrun
    obtain ⟨hpos, -, rfl⟩ := serverOnCallbackReceived_effect ht
    refine Grounded.endOfTurn ⟨?_, fun hnb => ?_, fun hnb => ?_⟩ hend
    · exact (advances_completeJob (s := ({ s with pool := pool } : Sim).untrack p)
        (p := p) hpos).running hs.running
    · obtain ⟨n, hn, hsubmits⟩ := hs.submitted hnb
      exact ⟨n, List.mem_append_left _ hn, hsubmits⟩
    · have hold := hs.idle hnb
      exact ⟨fun u hu => hold.actors u (hrest hnext hu), hold.task, hold.ends⟩
  | start o pool hnext hrun =>
    rw [serverProcess_effect hrun]
    refine ⟨hs.running, hs.submitted, fun hnb => ?_⟩
    have hold := hs.idle hnb
    refine ⟨fun u hu => ?_, hold.task, hold.ends⟩
    obtain rfl | hin := (Pool.mem_threads_spawn _ _).mp hu
    · rfl
    · exact hold.actors u (hrest hnext hin)
  | actor o t pool ht hnext hrun =>
    have hkeeps := (runThread_moves (s := { s with pool := pool }) howned ht hrun).2
    have hdata : s'.data = s.data := hkeeps.data
    refine ⟨hdata ▸ hs.running, ?_, fun hnb => ?_⟩
    · rw [hdata, hkeeps.handled]
      exact hs.submitted
    · rw [hdata] at hnb
      have hold := hs.idle hnb
      have hthread : t ∈ s.pool.threads :=
        (Pool.next?_resume hnext).1.mem_iff.mpr (List.mem_cons_self ..)
      exact runThread_idle (s := { s with pool := pool }) howned ht (hold.actors t hthread) hrun
        ⟨fun u hu => hold.actors u (hrest hnext hu), hold.task, hold.ends⟩

/-- The end of a job comes after a submission. -/
theorem reaches_nbSubmissions (h : Reaches (batsim cfg) guard s) (hends : s.history.ends ≠ []) :
    0 < s.nbSubmissions := by
  have hgrounded := reaches_grounded h
  have hpos : 0 < s.data.nbSubmittedJobs := by
    by_contra hnb
    exact hends (hgrounded.idle (not_lt.mp hnb)).ends
  obtain ⟨m, hm, hsubmits⟩ := hgrounded.submitted hpos
  exact List.countP_pos_iff.mpr ⟨m, List.mem_append_left _ hm, hsubmits⟩

end runs

/-! ### What the variables hold -/

theorem nbSubmissions_put (s : Sim) (m : IPMessage) (sender : Option Thread) :
    (s.put m sender).nbSubmissions = s.nbSubmissions + if m.submitsJobs then 1 else 0 := by
  have hqueue : (s.put m sender).pool.queue = s.pool.queue ++ [m] := Pool.queue_put _ _ _
  have hhandled : (s.put m sender).history.handled = s.history.handled := rfl
  rw [Sim.nbSubmissions, Sim.nbSubmissions, hqueue, hhandled, ← List.append_assoc,
    List.countP_append, List.countP_singleton]

theorem nbSubmissions_block (s : Sim) (t : Thread) :
    (s.block t).nbSubmissions = s.nbSubmissions := rfl

/-- A submitter of jobs sends a submission if it has pushed a job. -/
theorem SubmitterKind.resume_nbSubmissions {α : Type} {k : SubmitterKind α} {s s' : Sim}
    {hello : IPMessage} {items : Except String (List α)} {phase : SubmitterPhase α}
    (hmessage : ∀ batch, (k.message batch).submitsJobs = true)
    (hbye : k.bye.submitsJobs = false) (hhello : hello.submitsJobs = false)
    (h : k.resume s hello items phase = .ok s') :
    s.nbSubmissions < s'.nbSubmissions ↔ k.jobsToSend s items phase ≠ [] := by
  have hsleep : ∀ (date : Date) (remaining : List α),
      (k.sleep s date remaining).nbSubmissions = s.nbSubmissions := by
    intro date remaining
    cases remaining with
    | nil => simp [SubmitterKind.sleep, nbSubmissions_put, hbye]
    | cons a rest => exact nbSubmissions_block s _
  have hsubmit : ∀ (batch remaining : List α),
      s.nbSubmissions < (k.submit s s.clock batch remaining).nbSubmissions ↔
        (nextBatch k.time s.clock batch remaining).1 ≠ [] := by
    intro batch remaining
    unfold SubmitterKind.submit
    generalize nextBatch k.time s.clock batch remaining = next
    obtain ⟨batch', remaining'⟩ := next
    simp only
    split
    · next hempty => simp [hempty, hsleep]
    · next hne => simp [hne, nbSubmissions_put, hmessage]
  cases phase with
  | started =>
    simp only [SubmitterKind.resume, Except.ok.injEq] at h
    subst h
    simp [SubmitterKind.jobsToSend, nbSubmissions_put, hhello]
  | greeted =>
    simp only [SubmitterKind.resume, bind_eq_ok, Except.ok.injEq] at h
    obtain ⟨list, rfl, rfl⟩ := h
    exact hsubmit [] list
  | sent date remaining =>
    simp only [SubmitterKind.resume, Except.ok.injEq] at h
    subst h
    simp [SubmitterKind.jobsToSend, hsleep]
  | asleep date a rest =>
    simp only [SubmitterKind.resume, Except.ok.injEq] at h
    subst h
    exact hsubmit [a] rest

/-- The submitter of a workload submits jobs in the steps in which it pushes some. -/
theorem step_submits_iff {cfg : Config} {s s' : Sim} {c : Choice} {workload : String}
    {phase : SubmitterPhase JobPtr} (h : (batsim cfg).step s c = .ok s')
    (hrunning : s.running? c = some (.jobSubmitter workload phase)) :
    s.nbSubmissions < s'.nbSubmissions ↔
      (jobSubmitterKind s workload).jobsToSend s (jobsToSubmit s workload) phase ≠ [] := by
  obtain ⟨clock, receive, wakes, rest, order, pool, rfl, -⟩ | ⟨o, m, pool, rfl, hnext, -⟩ |
    ⟨o, t, pool, rfl, hnext, hrun⟩ := step_cases h
  · cases hrunning
  · simp [Sim.running?, hnext] at hrunning
  · obtain rfl : t = .jobSubmitter workload phase := by
      simpa [Sim.running?, hnext] using hrunning
    have hqueue : ({ s with pool := pool } : Sim).nbSubmissions = s.nbSubmissions := by
      rw [Sim.nbSubmissions, Sim.nbSubmissions, (Pool.next?_resume hnext).2]
    rw [← hqueue]
    exact SubmitterKind.resume_nbSubmissions (fun _ => rfl) rfl rfl hrun

namespace EnergyRecord

/-- The variables hold the energy consumed at the first date at which the submitter of a workload
submitted a job, and at the last end of a job. -/
structure Holds (energy : Date → ℚ) (r : EnergyRecord) : Prop where
  first : r.energyFirstJobSubmission = r.staticSubmissions.head?.elim (-1) energy
  last : r.energyLastJobCompletion = r.ends.getLast?.elim (-1) energy
  pushing : r.staticSubmissions = [] → r.pushing = []

/-- What happened so far is recorded. -/
structure Records (s : Sim) (r : EnergyRecord) : Prop where
  submissions : r.submissions = [] → s.nbSubmissions = 0
  ends : r.ends = [] → s.history.ends = []

variable {cfg : Config} {energy : Date → ℚ} {r : EnergyRecord} {s s' : Sim} {c : Choice}

/-- A job is pushed at the date of `s`, which is recorded. -/
theorem Holds.push (h : r.Holds energy) (hused : cfg.energyUsed = true)
    (henergy : ∀ date, 0 ≤ energy date) (workload : String) :
    { r.push cfg energy s workload with
      staticSubmissions := r.staticSubmissions ++ [s.clock] }.Holds energy := by
  have hfirst := h.first
  cases hdates : r.staticSubmissions with
  | nil =>
    have hpushing := h.pushing hdates
    rw [hdates] at hfirst
    have hnone : r.energyFirstJobSubmission < 0 := by
      rw [hfirst]
      exact neg_one_lt_zero
    refine ⟨?_, ?_, fun hnil => by cases hnil⟩
    · simp [EnergyRecord.push, hpushing, hnone, totalConsumedEnergy, hused]
    · simpa [EnergyRecord.push, hpushing] using h.last
  | cons date dates =>
    rw [hdates] at hfirst
    have hsome : ¬ r.energyFirstJobSubmission < 0 := by
      rw [hfirst]
      exact not_lt.mpr (henergy date)
    refine ⟨?_, ?_, fun hnil => by cases hnil⟩
    · unfold EnergyRecord.push
      split
      · exact hfirst
      · simpa [hsome] using hfirst
    · unfold EnergyRecord.push
      split <;> exact h.last

/-- What happens to the first variable in a step. -/
theorem Holds.submit (h : r.Holds energy) (hused : cfg.energyUsed = true)
    (henergy : ∀ date, 0 ≤ energy date) {t : Option Thread}
    (hsubmits : ∀ workload phase, t = some (.jobSubmitter workload phase) →
      (s.nbSubmissions < s'.nbSubmissions ↔
        (jobSubmitterKind s workload).jobsToSend s (jobsToSubmit s workload) phase ≠ [])) :
    { r.submit cfg energy s t with
      staticSubmissions := (r.note s t s').staticSubmissions }.Holds energy := by
  by_cases ht : ∃ workload phase, t = some (.jobSubmitter workload phase)
  · obtain ⟨workload, phase, rfl⟩ := ht
    have hiff := hsubmits workload phase rfl
    by_cases hsend :
        (jobSubmitterKind s workload).jobsToSend s (jobsToSubmit s workload) phase = []
    · have hnot : ¬ s.nbSubmissions < s'.nbSubmissions := fun hlt => hiff.mp hlt hsend
      have hsame : r.submit cfg energy s (some (.jobSubmitter workload phase)) = r := if_pos hsend
      rw [hsame]
      exact ⟨by simpa [note, hnot] using h.first, h.last, by simpa [note, hnot] using h.pushing⟩
    · have hlt : s.nbSubmissions < s'.nbSubmissions := hiff.mpr hsend
      have hpush : r.submit cfg energy s (some (.jobSubmitter workload phase)) =
          r.push cfg energy s workload := if_neg hsend
      rw [hpush]
      have hholds := h.push (s := s) hused henergy workload
      exact ⟨by simpa [note, hlt] using hholds.first, hholds.last,
        by simpa [note, hlt] using hholds.pushing⟩
  · have hsame : r.submit cfg energy s t = r := by
      unfold EnergyRecord.submit
      split
      · exact absurd ⟨_, _, rfl⟩ ht
      · rfl
    have hdates : (r.note s t s').staticSubmissions = r.staticSubmissions := by
      simp only [note]
      split
      · exact absurd ⟨_, _, rfl⟩ ht
      · rfl
    rw [hsame, hdates]
    exact ⟨h.first, h.last, h.pushing⟩

theorem submit_ends (cfg : Config) (energy : Date → ℚ) (r : EnergyRecord) (s : Sim)
    (t : Option Thread) :
    (r.submit cfg energy s t).ends = r.ends ∧
      (r.submit cfg energy s t).submissions = r.submissions ∧
      (r.submit cfg energy s t).staticSubmissions = r.staticSubmissions := by
  unfold EnergyRecord.submit EnergyRecord.push
  repeat' split
  all_goals exact ⟨rfl, rfl, rfl⟩

theorem addJobEnd_ends (cfg : Config) (energy : Date → ℚ) (r : EnergyRecord) (s s' : Sim) :
    (r.addJobEnd cfg energy s s').ends = r.ends ∧
      (r.addJobEnd cfg energy s s').submissions = r.submissions := by
  unfold addJobEnd
  split <;> exact ⟨rfl, rfl⟩

theorem Holds.step (h : r.Holds energy) (hused : cfg.energyUsed = true)
    (henergy : ∀ date, 0 ≤ energy date)
    (hsubmits : ∀ workload phase, s.running? c = some (.jobSubmitter workload phase) →
      (s.nbSubmissions < s'.nbSubmissions ↔
        (jobSubmitterKind s workload).jobsToSend s (jobsToSubmit s workload) phase ≠ [])) :
    (r.step cfg energy s c s').Holds energy := by
  have hsubmit := h.submit hused henergy hsubmits
  have hfirst := hsubmit.first
  have hpushing := hsubmit.pushing
  have hlast := hsubmit.last
  obtain ⟨hends, -, hstatic⟩ := submit_ends cfg energy r s (s.running? c)
  unfold EnergyRecord.step addJobEnd
  by_cases hend : s'.history.ends ≠ s.history.ends
  · rw [if_pos ⟨hused, hend⟩]
    refine ⟨?_, ?_, ?_⟩
    · simpa [note, hstatic] using hfirst
    · simp [note, hend, totalConsumedEnergy, hused]
    · simpa [note, hstatic] using hpushing
  · rw [if_neg fun hand => hend hand.2]
    refine ⟨?_, ?_, ?_⟩
    · simpa [note, hstatic] using hfirst
    · simpa [note, hend] using hlast
    · simpa [note, hstatic] using hpushing

theorem Records.step (h : r.Records s) : (r.step cfg energy s c s').Records s' := by
  obtain ⟨hends, hsubmissions, -⟩ := submit_ends cfg energy r s (s.running? c)
  obtain ⟨hends', hsubmissions'⟩ := addJobEnd_ends cfg energy
    (r.submit cfg energy s (s.running? c)) s s'
  constructor
  · intro hnone
    simp only [EnergyRecord.step, note, hsubmissions', hsubmissions] at hnone
    split at hnone
    · simp at hnone
    · next hnot =>
      have hold := h.submissions hnone
      omega
  · intro hnone
    simp only [EnergyRecord.step, note, hends', hends] at hnone
    split at hnone
    · simp at hnone
    · next hsame =>
      rw [not_not] at hsame
      rw [hsame, h.ends hnone]

end EnergyRecord

section runs

variable {cfg : Config} {energy : Date → ℚ} {guard : Sim → Choice → Prop} {s : Sim}
  {r : EnergyRecord}

theorem reaches_energyRecord (hused : cfg.energyUsed = true) (henergy : ∀ date, 0 ≤ energy date)
    (h : Reaches (tracedBatsim cfg energy) (fun x c => guard x.1 c) (s, r)) :
    r.Holds energy ∧ r.Records s := by
  refine h.invariant (P := fun x => x.2.Holds energy ∧ x.2.Records x.1) ?_ ?_
  · exact ⟨⟨rfl, rfl, fun _ => rfl⟩, ⟨fun _ => rfl, fun _ => rfl⟩⟩
  · rintro ⟨s, r⟩ ⟨s', r'⟩ c - ⟨hholds, hrecords⟩ - hstep
    obtain ⟨hstep, hr'⟩ := observe_step_eq_ok.mp hstep
    rw [hr']
    exact ⟨hholds.step hused henergy fun workload phase => step_submits_iff hstep, hrecords.step⟩

/-- Once a job has ended, `consumed_joules` is the energy consumed between the first submission
and the last end exactly when the submitter of a workload has submitted a job and nothing was
consumed between the first submission and its first one. -/
theorem consumed_joules_iff (hused : cfg.energyUsed = true) (henergy : ∀ date, 0 ≤ energy date)
    (h : Reaches (tracedBatsim cfg energy) (fun x c => guard x.1 c) (s, r))
    (hends : s.history.ends ≠ []) :
    ∃ t₀ t₁, r.submissions.head? = some t₀ ∧ r.ends.getLast? = some t₁ ∧
      (r.consumedJoules = energy t₁ - energy t₀ ↔
        ∃ date, r.staticSubmissions.head? = some date ∧ energy date = energy t₀) := by
  obtain ⟨hholds, hrecords⟩ := reaches_energyRecord hused henergy h
  have hsubmitted : r.submissions ≠ [] := fun hnil =>
    (reaches_nbSubmissions h.of_observe hends).ne' (hrecords.submissions hnil)
  have hended : r.ends ≠ [] := fun hnil => hends (hrecords.ends hnil)
  obtain ⟨t₀, dates, hfirst⟩ := List.exists_cons_of_ne_nil hsubmitted
  refine ⟨t₀, r.ends.getLast hended, by rw [hfirst, List.head?_cons],
    List.getLast?_eq_some_getLast hended, ?_⟩
  rw [EnergyRecord.consumedJoules, hholds.first, hholds.last,
    List.getLast?_eq_some_getLast hended, Option.elim_some]
  cases r.staticSubmissions.head? with
  | none =>
    have hnonneg := henergy t₀
    simp only [Option.elim_none, reduceCtorEq, false_and, exists_false, iff_false]
    grind
  | some date =>
    simp only [Option.elim_some, Option.some.injEq, exists_eq_left']
    grind

end runs

/-- The lone host, with its energy measured. -/
def meteredHost : Config :=
  { loneHost with
    energyUsed := true
    machines :=
      { machines := [{ permissions := 7, pstates := AList.singleton 0 .computationPstate
                       sleepPstates := ∅, hostNbPstates := 1, hostPstate := 0 }]
        nbMachinesInEachState := fun s => if s = .idle then 1 else 0 }
    machines_created := rfl }

/-- The same host, with the job of a workload that is submitted at 10. -/
def meteredJob : Config :=
  let d : WorkloadDescription :=
    { name := "w0", profiles := delayProfiles
      jobs := [{ description := loneJobDescription
                 profile := { name := "delay", type := .delay } }] }
  { meteredHost with
    workloadDescriptions := [d]
    workloads := (loadWorkloadsAndWorkflows [d] []).toOption.getD ⟨∅⟩
    workloads_loaded := rfl }

/-- One joule a second from the date 0 on. -/
def oneWatt (date : Date) : ℚ := max 0 date

/-- The job of the workload is executed from 10 to 15, for five joules. -/
theorem static_job_energy_captured : ∃ (s : Sim) (r : EnergyRecord) (t₀ t₁ : Date),
    Reaches (tracedBatsim meteredJob oneWatt) (fun x c => anyStep x.1 c) (s, r) ∧
      r.submissions.head? = some t₀ ∧ r.ends.getLast? = some t₁ ∧
      r.consumedJoules = oneWatt t₁ - oneWatt t₀ := by
  let nothing : Reply := { now := 0, events := [] }
  let execute : Reply := { now := 10, events := [⟨10, .executeJob loneJob loneMachine none⟩] }
  let choices : List (Sim → Choice) :=
    [.next, .next, .next (.reply nothing), .receive, .next, .next, .receive, .next,
      .pass 10 false fun _ => true, .next, .receive, .next, .next, .next (.reply execute), .receive,
      .next, .receive, .next, .next, .next (.task (.leaf .other)),
      .pass 15 true fun t => t.actor?.isSome, .next, .next (.task (.finish 0))]
  obtain ⟨⟨s, r⟩, hreaches, hends, hsubmissions, hstatic⟩ :=
    exists_reaches_of_run (tracedBatsim meteredJob oneWatt) (fun x c => anyStep x.1 c)
      (fun x => x.1.history.ends ≠ [] ∧ x.2.submissions = [10] ∧ x.2.staticSubmissions = [10])
      (choices.map fun choose x => choose x.1) (by decide +kernel)
  obtain ⟨t₀, t₁, hfirst, hlast, hiff⟩ :=
    consumed_joules_iff rfl (fun date => le_max_left 0 date) hreaches hends
  refine ⟨s, r, t₀, t₁, hreaches, hfirst, hlast, hiff.mpr ⟨10, ?_, ?_⟩⟩
  · rw [show r.staticSubmissions = [10] from hstatic, List.head?_cons]
  · rw [show r.submissions = [10] from hsubmissions, List.head?_cons, Option.some.injEq] at hfirst
    rw [hfirst]

/-- The only job is registered by the scheduler at 0, and executed until 5, for five joules; six
are reported. -/
theorem registered_job_energy_not_captured :
    ¬ ∀ (cfg : Config) (energy : Date → ℚ), cfg.energyUsed = true → (∀ date, 0 ≤ energy date) →
      Monotone energy → ∀ (s : Sim) (r : EnergyRecord),
        Reaches (tracedBatsim cfg energy) (fun x c => anyStep x.1 c) (s, r) → s.exited = true →
        s.history.ends ≠ [] →
        ∃ t₀ t₁, r.submissions.head? = some t₀ ∧ r.ends.getLast? = some t₁ ∧
          r.consumedJoules = energy t₁ - energy t₀ := by
  intro hclaim
  let nothing (now : Date) : Reply := { now := now, events := [] }
  let register : Reply :=
    { now := 0
      events := [⟨0, .registerJob loneJob loneJobDescription⟩,
        ⟨0, .executeJob loneJob loneMachine none⟩] }
  let finish : Reply := { now := 5, events := [⟨5, .notify "registration_finished"⟩] }
  let choices : List (Sim → Choice) :=
    [.next, .next, .next (.reply (nothing 0)), .receive, .next, .next, .receive, .next, .receive,
      .next, .next (.reply register), .receive, .next, .next, .receive, .next, .next,
      .next (.task (.leaf .other)), .receive, .next, .next (.reply (nothing 0)), .receive, .next,
      .pass 5 false fun t => t.actor?.isSome, .next (.task (.finish 0)), .receive, .next, .next,
      .next (.reply finish), .receive, .next, .next, .receive, .next, .next (.reply (nothing 5)),
      .receive, .next]
  obtain ⟨⟨s, r⟩, hreaches, hexited, hends, hsubmissions, hdates, hjoules⟩ :=
    exists_reaches_of_run (tracedBatsim meteredHost oneWatt) (fun x c => anyStep x.1 c)
      (fun x => x.1.exited = true ∧ x.1.history.ends ≠ [] ∧ x.2.submissions = [0] ∧
        x.2.ends = [5] ∧ x.2.consumedJoules = 6)
      (choices.map fun choose x => choose x.1) (by decide +kernel)
  obtain ⟨t₀, t₁, hfirst, hlast, hright⟩ := hclaim meteredHost oneWatt rfl
    (fun date => le_max_left 0 date) (fun _ _ h => max_le_max le_rfl h) s r hreaches hexited hends
  rw [show r.submissions = [0] from hsubmissions, List.head?_cons, Option.some.injEq] at hfirst
  rw [show r.ends = [5] from hdates, List.getLast?_singleton, Option.some.injEq] at hlast
  rw [show r.consumedJoules = 6 from hjoules, ← hfirst, ← hlast] at hright
  exact absurd hright (by decide +kernel)

end Batsim
