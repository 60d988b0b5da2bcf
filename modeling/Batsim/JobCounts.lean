import Batsim.Lib.Ledgers
import Batsim.LifeRuns

/-!
The accounts of the server: what `nb_running_jobs`, `nb_completed_jobs` and `jobs_to_be_deleted`
hold, in every state of every run.
-/

namespace Batsim

open Checked Workloads Sim StepSystem

/-- The job whose end an event tells. -/
def ProtocolEvent.completed? : ProtocolEvent → Option JobIdentifier
  | .jobCompleted id _ _ _ => some id
  | _ => none

/-- The ends of jobs told to the scheduler, in order. -/
def toldEnds (es : List DatedEvent) : List JobIdentifier :=
  es.filterMap fun e => e.event.completed?

theorem toldEnds_append (es es' : List DatedEvent) :
    toldEnds (es ++ es') = toldEnds es ++ toldEnds es' :=
  List.filterMap_append

theorem toldEnds_of_quiet {es : List DatedEvent} (h : ∀ e ∈ es, e.event.isAccount = false) :
    toldEnds es = [] := by
  refine List.filterMap_eq_nil_iff.mpr fun e he => ?_
  have hquiet := h e he
  cases hevent : e.event <;> first | rfl | (rw [hevent] at hquiet; cases hquiet)

/-- The job is where its identifier says. -/
def Named (p : JobPtr) : Prop := p = ptr p.id

theorem named_ptr (id : JobIdentifier) : Named (ptr id) := rfl

theorem Named.eq_of_id {p q : JobPtr} (hp : Named p) (hq : Named q) (h : p.id = q.id) : p = q := by
  rw [hp, hq, h]

/-- The accounts of the server. -/
def Sim.ledger (s : Sim) : Ledger JobPtr JobIdentifier where
  started := s.history.started
  counted := s.history.counted
  told := toldEnds s.history.appended
  pushed := s.history.pushed
  running := s.data.nbRunningJobs
  completed := s.data.nbCompletedJobs

theorem ledger_logged (s : Sim) {e : ProtocolEvent} (he : e.completed? = none) :
    (s.logged e).ledger = s.ledger := by
  have happended : (s.logged e).history.appended = s.history.appended ++ [⟨s.clock, e⟩] := rfl
  have htold : toldEnds (s.logged e).history.appended = toldEnds s.history.appended := by
    rw [happended, toldEnds_append]
    simp [toldEnds, he]
  simp only [Sim.ledger, htold]
  rfl

theorem Sim.SameJobs.ledger {s s' : Sim} (h : SameJobs s s') : s'.ledger = s.ledger := by
  obtain ⟨es, hlogs, hquiet⟩ := h.accounts
  have htold : toldEnds s'.history.appended = toldEnds s.history.appended := by
    rw [hlogs.appended, toldEnds_append, toldEnds_of_quiet hquiet, List.append_nil]
  simp only [Sim.ledger, h.started, h.counted, htold, h.pushed, h.nbRunningJobs,
    h.nbCompletedJobs]

/-! ### Handlers -/

/-- Every job is in some stage of its life. -/
def Sim.Alive (s : Sim) : Prop := ∀ p, ∃ l : Life, l.Shows p (s.view p)

section handlers

variable {cfg : Config} {s u t : Sim} {p q : JobPtr} {l : Life}

theorem Life.Shows.fits_of_submitted (h : l.Shows q (u.view q))
    (hstate : (u.job q).state = .submitted) : q ∉ u.history.started ∧ q ∉ u.history.counted := by
  obtain rfl := h.of_submitted hstate
  exact ⟨List.count_eq_zero.mp h.started, List.count_eq_zero.mp h.counted⟩

theorem ledger_submitJob {submitter : Submitter} (h : submitJob cfg submitter u q = .ok t) :
    t.ledger = u.ledger := by
  obtain ⟨-, job, profile, rfl⟩ := submitJob_effect h
  refine (ledger_logged _ rfl).trans ?_
  simp only [submit, track, noteResubmission, countSubmitted, setJob]
  split <;> split <;> rfl

theorem ledger_completeJob (u : Sim) (q : JobPtr) :
    (u.completeJob q).ledger = u.ledger.enter JobPtr.id (.complete q) := by
  have happended : (u.completeJob q).history.appended =
      u.history.appended ++ [⟨u.clock, u.endRunning.countCompleted q |>.completionOf q⟩] := rfl
  have htold : toldEnds (u.completeJob q).history.appended =
      toldEnds u.history.appended ++ [q.id] := by
    rw [happended, toldEnds_append]
    rfl
  simp only [Sim.ledger, htold]
  rfl

theorem countKilledJob_posts {id : JobIdentifier} (halive : u.Alive) (howned : u.workloads.Owned)
    (hnew : ptr id ∉ u.history.countedKilled) (h : countKilledJob u id = .ok t) :
    Ledger.Posts JobPtr.id Named u.ledger t.ledger := by
  obtain ⟨q, hq, ⟨-, rfl⟩ | ⟨hstate, -, rfl⟩⟩ := countKilledJob_effect h
  · exact .refl
  · obtain rfl := howned.jobAt_ptr hq
    refine .single ⟨.complete (ptr id), named_ptr id, ?_, ledger_completeJob (u.noteCountedKilled (ptr id)) _⟩
    obtain ⟨l, hl⟩ := halive (ptr id)
    obtain rfl | rfl := hl.of_killed hstate
    · have hcount : u.history.started.count (ptr id) = 1 := hl.started
      have hpos : 0 < u.history.started.count (ptr id) := by omega
      exact ⟨List.count_pos_iff.mp hpos, List.count_eq_zero.mp hl.counted⟩
    · have hcount : u.history.countedKilled.count (ptr id) = 1 := hl.buried
      exact absurd (List.count_pos_iff.mp (by omega)) hnew

theorem countKilledJobs_posts {ids : List JobIdentifier} (halive : u.Alive)
    (howned : u.workloads.Owned) (hnodup : ids.Nodup)
    (hnew : ∀ id ∈ ids, ptr id ∉ u.history.countedKilled)
    (hloop : forEach countKilledJob u ids = .ok t) :
    Ledger.Posts JobPtr.id Named u.ledger t.ledger := by
  let I : List JobIdentifier → Sim → Prop := fun done v =>
    v.workloads = u.workloads ∧ v.Alive ∧ Ledger.Posts JobPtr.id Named u.ledger v.ledger ∧
      ∀ p ∈ v.history.countedKilled, p ∈ u.history.countedKilled ∨ ∃ id ∈ done, p = ptr id
  suffices hall : I ids t from hall.2.2.1
  refine forEach_invariant I ⟨rfl, halive, .refl, fun p hp => .inl hp⟩ ?_ hloop
  intro done id rest v v' hsplit ⟨hworkloads, hv, hposts, hcounted⟩ hstep
  have howned' : v.workloads.Owned := hworkloads ▸ howned
  have hlate : ptr id ∉ v.history.countedKilled := by
    intro hin
    cases hcounted _ hin with
    | inl hold => exact hnew id (by simp [hsplit]) hold
    | inr hdone =>
      -- it would be in the list twice
      obtain ⟨id', hid', hp'⟩ := hdone
      have heq : id' = id := congrArg JobPtr.id hp'.symm
      rw [hsplit] at hnodup
      exact (List.nodup_append.mp hnodup).2.2 id' hid' id (by simp) heq
  refine ⟨?_, fun p => ?_, hposts.trans (countKilledJob_posts hv howned' hlate hstep),
    fun p hp => ?_⟩
  · obtain ⟨q, -, ⟨-, rfl⟩ | ⟨-, -, rfl⟩⟩ := countKilledJob_effect hstep
    · exact hworkloads
    · exact hworkloads
  · obtain ⟨l, hl⟩ := hv p
    obtain ⟨l', -, hl'⟩ := countKilledJob_lives hl howned' (fun heq => heq ▸ hlate) hstep
    exact ⟨l', hl'⟩
  · cases countKilledJob_buries howned' hstep hp with
    | inl hold =>
      exact (hcounted p hold).imp_right fun ⟨id', hid', heq⟩ => ⟨id', by simp [hid'], heq⟩
    | inr heq => exact .inr ⟨id, by simp, heq⟩

/-- The handling of a message posts entries that fit. -/
theorem handleMessage_posts {m : IPMessage} (howned : u.workloads.Owned)
    (halive : (∀ q, m ≠ .jobCompleted q) → u.Alive)
    (hcompleted : ∀ q, m = .jobCompleted q →
      Named q ∧ q ∈ u.history.started ∧ q ∉ u.history.counted)
    (hexecutes : ∀ a, m = .schedExecuteJob a → Named a.job)
    (hkills : ∀ ids, m.kills? = some ids →
      ids.Nodup ∧ ∀ id ∈ ids, ptr id ∉ u.history.countedKilled)
    (ht : handleMessage cfg u m = .ok t) : Ledger.Posts JobPtr.id Named u.ledger t.ledger := by
  have hsame : t.ledger = u.ledger → Ledger.Posts JobPtr.id Named u.ledger t.ledger := by
    intro heq
    rw [heq]
  cases hjobs : m.touchesJobs with
  | false =>
    obtain ⟨ts, hhandled⟩ := handleMessage_effect ht
    exact hsame (hhandled.jobs hjobs).ledger
  | true =>
    cases m with
    | jobSubmitted name jobs =>
      obtain rfl | ⟨submitter, -, hloop⟩ := serverOnJobSubmitted_effect ht
      · exact .refl
      · exact hsame (forEach_unchanged Sim.ledger (fun _ _ _ _ hstep => ledger_submitJob hstep) hloop)
    | jobRegisteredByDP q =>
      obtain rfl | ⟨job, profile, rfl⟩ := serverOnRegisterJob_effect ht
      · exact .refl
      · exact hsame (ledger_logged (u.countSubmitted q) rfl)
    | jobCompleted q =>
      obtain ⟨submitter, -, rfl⟩ | ⟨-, hcount⟩ := serverOnJobCompleted_effect ht
      · exact .refl
      · obtain ⟨-, -, rfl⟩ := countJobCompletion_effect hcount
        obtain ⟨hnamed, hfits⟩ := hcompleted q rfl
        exact .single ⟨.complete q, hnamed, hfits, ledger_completeJob u q⟩
    | schedExecuteJob a =>
      obtain ⟨hstate, -, -, rfl⟩ := serverOnExecuteJob_effect ht
      obtain ⟨l, hl⟩ := halive (by simp) a.job
      exact .single ⟨.start a.job, hexecutes a rfl, hl.fits_of_submitted hstate, rfl⟩
    | schedChangeJobState id state =>
      obtain ⟨q, hq, hstate, -, -, rfl⟩ := serverOnChangeJobState_effect ht
      obtain rfl := howned.jobAt_ptr hq
      obtain ⟨l, hl⟩ := halive (by simp) (ptr id)
      exact .single ⟨.start (ptr id), named_ptr id, hl.fits_of_submitted hstate, rfl⟩
    | schedRejectJob id =>
      obtain ⟨q, hq, hstate, rfl⟩ := serverOnRejectJob_effect ht
      obtain rfl := howned.jobAt_ptr hq
      obtain ⟨l, hl⟩ := halive (by simp) (ptr id)
      exact .single ⟨.reject (ptr id), named_ptr id, hl.fits_of_submitted hstate, rfl⟩
    | schedKillJob ids =>
      obtain ⟨v, toKill, hloop, rfl⟩ := serverOnKillJobs_effect ht
      obtain ⟨-, rfl⟩ := requestKills_effect howned hloop
      refine hsame ?_
      unfold launchKiller
      split <;> rfl
    | killingDone ids acknowledge =>
      obtain ⟨v, hloop, rfl⟩ := serverOnKillingDone_effect ht
      obtain ⟨hnodup, hnew⟩ := hkills ids rfl
      have hposts := countKilledJobs_posts (halive (by simp)) howned hnodup hnew hloop
      cases acknowledge with
      | true =>
        have hlogged := ledger_logged v (e := .jobKilled ids) rfl
        exact (congrArg (Ledger.Posts JobPtr.id Named u.ledger) hlogged).mpr hposts
      | false => exact hposts
    | _ => cases hjobs

theorem ledger_endOfTurn (h : endOfTurn cfg u = .ok t) : t.ledger = u.ledger := by
  obtain rfl | ⟨workloads, hflush⟩ | hfinish := endOfTurn_cases h
  · rfl
  · rw [hflush.eq]
    rfl
  · rw [hfinish.eq]
    exact ledger_logged u (e := .simulationEnds) rfl

theorem ActorKeeps.ledger (h : ActorKeeps u t) : t.ledger = u.ledger := by
  simp only [Sim.ledger, h.started, h.counted, h.appended, h.pushed, h.data]

end handlers

/-! ### Every state -/

section runs

variable {cfg : Config} {guard : Sim → Choice → Prop} {s s' : Sim} {p : JobPtr}

/-- Every state of every run in which no job is submitted twice. -/
theorem exists_life (h : Reaches (batsim cfg) guard s) (hp : p ∉ s.history.resubmitted) :
    ∃ l : Life, l.Shows p (s.view p) := by
  obtain ⟨past, hvisits⟩ := h.visits
  obtain ⟨lives, hlived⟩ := visits_lived hvisits hp
  cases lives with
  | nil => cases hlived.shows
  | cons l lives => exact ⟨l, (List.forall₂_cons.mp hlived.shows).1⟩

theorem reaches_alive (h : Reaches (batsim cfg) guard s) (hnone : s.history.resubmitted = []) :
    s.Alive :=
  fun p => exists_life (p := p) h (by simp [hnone])

theorem jobCompleted_fits (halive : s.Alive) (hp : .ended ∈ traceOf p s.pool ∨
      ∃ mailbox, .thread (.serverCallback p mailbox) ∈ traceOf p s.pool) :
    p ∈ s.history.started ∧ p ∉ s.history.counted := by
  obtain ⟨l, hl⟩ := halive p
  have htrace : traceOf p s.pool = l.trace p := hl.trace
  have hlast : l.started = 1 ∧ l.counted = 0 := by
    rw [htrace] at hp
    cases l with
    | ended _ | calling _ _ => exact ⟨rfl, rfl⟩
    | _ => simp [Life.trace] at hp
  have hstarted : s.history.started.count p = l.started := hl.started
  have hcounted : s.history.counted.count p = l.counted := hl.counted
  exact ⟨List.count_pos_iff.mp (by omega), List.count_eq_zero.mp (by omega)⟩

/-- A request of the scheduler comes from an event of a reply, or closes one. -/
theorem request_of_event (h : Reaches (batsim cfg) guard s) {m : IPMessage}
    (hm : m ∈ s.history.handled ++ s.pool.queue) (hfrom : m.fromScheduler = true) :
    m = .schedReady ∨ ∃ x ∈ s.history.replies, ∃ e ∈ x.1.events, m ∈ e.data.messages := by
  have hreads := (reaches_exchange h).reads
  have hsent : m ∈ s.history.replies.flatMap Prod.snd := by
    rw [← hreads.order]
    exact List.mem_filter.mpr ⟨hm, hfrom⟩
  obtain ⟨x, hx, hmx⟩ := List.mem_flatMap.mp hsent
  have hmessages : m ∈ x.1.messages := by
    by_cases hidle : ∀ now todo, .applyReply now todo ∉ s.pool.threads
    · rwa [← hreads.idle hidle x hx]
    · push Not at hidle
      obtain ⟨now, todo, hreader⟩ := hidle
      obtain ⟨r, ms, hlast, hsplit, -⟩ := hreads.present now todo hreader
      obtain ⟨rest, hreplies⟩ := List.getLast?_eq_some_iff.mp hlast
      have hdrop : s.history.replies.dropLast = rest := by simp [hreplies]
      rw [hreplies, List.mem_append, List.mem_singleton] at hx
      obtain hx | rfl := hx
      · rwa [← hreads.past x (hdrop ▸ hx)]
      · rw [← hsplit]
        exact List.mem_append_left _ hmx
  simp only [Reply.messages, List.mem_append, List.mem_flatMap, List.mem_singleton] at hmessages
  obtain ⟨e, he, hme⟩ | hready := hmessages
  · exact .inr ⟨x, hx, e, he, hme⟩
  · exact .inl hready

theorem schedExecuteJob_named (h : Reaches (batsim cfg) guard s) {a : SchedulingAllocation}
    (hm : .schedExecuteJob a ∈ s.pool.queue) : Named a.job := by
  obtain heq | ⟨x, -, e, -, hme⟩ := request_of_event h (List.mem_append_right _ hm) rfl
  · cases heq
  · cases hdata : e.data with
    | executeJob id alloc mapping =>
      rw [hdata] at hme
      simp only [SchedulerEventData.messages, List.mem_singleton,
        IPMessage.schedExecuteJob.injEq] at hme
      rw [hme]
      rfl
    | query requests =>
      rw [hdata] at hme
      simp only [SchedulerEventData.messages, List.mem_map] at hme
      obtain ⟨q, -, hq⟩ := hme
      cases q <;> cases hq
    | notify type =>
      rw [hdata] at hme
      simp only [SchedulerEventData.messages, List.mem_singleton] at hme
      split at hme <;> cases hme
    | _ =>
      rw [hdata] at hme
      simp [SchedulerEventData.messages] at hme

/-- One step posts entries that fit. -/
theorem step_posts {c : Choice} (hr : Reaches (batsim cfg) guard s) (halive : s.Alive)
    (hbalanced : s.ledger.Balanced JobPtr.id Named)
    (hstep : (batsim cfg).step s c = .ok s') : Ledger.Posts JobPtr.id Named s.ledger s'.ledger := by
  have howned := reaches_owned hr
  cases step_kind hstep with
  | solve clock receive wakes rest order pool hcan hsolve hs' =>
    subst hs'
    exact .refl
  | turn o m pool hnext hturn =>
    obtain ⟨t, ht, hend⟩ := turn_cases hturn
    have hposts : Ledger.Posts JobPtr.id Named s.ledger t.ledger := by
      refine handleMessage_posts (u := { s with pool := pool }) howned (fun hm p => ?_) ?_ ?_ ?_ ht
      · have hlabels := traceOf_deliver (p := p) hnext
        have hnone : m.trace? p = none := by
          cases hx : m.trace? p with
          | none => rfl
          | some x => exact absurd (IPMessage.trace_eq_some hx).2 (hm p)
        rw [hnone, Option.toList_none, Multiset.coe_nil, zero_add] at hlabels
        rw [view_pool hlabels.symm]
        exact halive p
      · rintro q rfl
        have hfits : q ∈ s.history.started ∧ q ∉ s.history.counted := by
          refine jobCompleted_fits halive (.inl ?_)
          rw [traceOf_deliver hnext]
          simp [IPMessage.trace?]
        exact ⟨hbalanced.known q (.inl hfits.1), hfits⟩
      · rintro a rfl
        refine schedExecuteJob_named hr ?_
        rw [(Pool.next?_deliver hnext).2.1]
        exact List.mem_cons_self ..
      · exact fun ids hids => killingDone_new hr hnext hids
    obtain ⟨-, rfl⟩ | ⟨-, hend⟩ := hend
    · exact hposts
    · rw [ledger_endOfTurn hend]
      exact hposts
  | callback o q mailbox pool hnext hrun =>
    obtain ⟨t, ht, hend⟩ := serverCallback_cases hrun
    obtain ⟨-, -, rfl⟩ := serverOnCallbackReceived_effect ht
    rw [ledger_endOfTurn hend]
    have hfits : q ∈ s.history.started ∧ q ∉ s.history.counted := by
      refine jobCompleted_fits halive (.inr ⟨mailbox, ?_⟩)
      rw [traceOf_resume hnext]
      simp [Thread.trace?]
    exact .single ⟨.complete q, hbalanced.known q (.inl hfits.1), hfits, ledger_completeJob _ q⟩
  | start o pool hnext hrun =>
    have hsame : s'.ledger = s.ledger := by
      rw [serverProcess_effect hrun]
      exact ledger_logged (e := .simulationBegins) { s with pool := pool } rfl
    rw [hsame]
  | actor o t pool ht hnext hrun =>
    obtain ⟨-, hkeeps⟩ := runThread_moves (s := { s with pool := pool }) howned ht hrun
    rw [hkeeps.ledger]
    exact .refl

/-- No job is submitted twice by the states before, either. -/
theorem resubmitted_nil {c : Choice} (hr : Reaches (batsim cfg) guard s)
    (hstep : (batsim cfg).step s c = .ok s') (hnone : s'.history.resubmitted = []) :
    s.history.resubmitted = [] := by
  refine List.eq_nil_iff_forall_not_mem.mpr fun p hp => ?_
  have hin := step_resubmitted (reaches_owned hr) hstep hp
  rw [hnone] at hin
  cases hin

theorem reaches_balanced (h : Reaches (batsim cfg) guard s) (hnone : s.history.resubmitted = []) :
    s.ledger.Balanced JobPtr.id Named := by
  revert hnone
  refine h.invariant (P := fun s => s.history.resubmitted = [] →
    s.ledger.Balanced JobPtr.id Named) (fun _ => .empty) ?_
  intro s s' c hr ih _ hstep hnone
  have hold := resubmitted_nil hr hstep hnone
  exact (ih hold).posts (step_posts hr (reaches_alive hr hold) (ih hold) hstep)

end runs

/-! ### Registrations on their way -/

/-- The job whose registration a message tells the server. -/
def IPMessage.registers? : IPMessage → Option JobPtr
  | jobRegisteredByDP p => some p
  | _ => none

def ReplyItem.registers? : ReplyItem → Option JobPtr
  | .send _ m => m.registers?
  | .event _ => none

def Thread.registering : Thread → List JobPtr
  | applyReply _ todo => todo.filterMap ReplyItem.registers?
  | _ => []

/-- The jobs that are registered, while the server was not told yet. -/
def registering (p : Pool IPMessage Thread) : List JobPtr :=
  p.threads.flatMap Thread.registering ++ p.queue.filterMap IPMessage.registers?

theorem mem_registering {p : Pool IPMessage Thread} {job : JobPtr} :
    job ∈ registering p ↔
      (∃ t ∈ p.threads, job ∈ t.registering) ∨ .jobRegisteredByDP job ∈ p.queue := by
  have hmessage : ∀ m : IPMessage, m.registers? = some job ↔ m = .jobRegisteredByDP job := by
    intro m
    cases m <;> simp [IPMessage.registers?]
  simp [registering, hmessage]

theorem registering_of_reader {t : Thread} {job : JobPtr} (h : job ∈ t.registering) :
    t.isReader = true := by
  cases t <;> first | rfl | cases h

section registrations

variable {cfg : Config} {guard : Sim → Choice → Prop} {s s' : Sim} {job : JobPtr}

/-- The actors that read no reply neither lose nor make a registration. -/
theorem registering_moves {t : Thread} {p q p' : Pool IPMessage Thread} (hp : Placed p)
    (hserver : t.isServer = false) (ht : t.isReader = false)
    (hnext : p.next? = some (.resume t, q)) (hmoves : t.Moves q p') :
    job ∈ registering p' ↔ job ∈ registering p := by
  obtain ⟨-, hrequests, hreaders⟩ := hmoves.requests hp hserver ht hnext
  have hqueue : ∀ r : Pool IPMessage Thread,
      IPMessage.jobRegisteredByDP job ∈ r.queue ↔ .jobRegisteredByDP job ∈ requests r := by
    intro r
    simp [requests, IPMessage.fromScheduler]
  rw [mem_registering, mem_registering, hqueue, hqueue, hrequests]
  refine or_congr_left ⟨?_, ?_⟩
  · rintro ⟨u, hu, hjob⟩
    exact ⟨u, (hreaders u (registering_of_reader hjob)).mp hu, hjob⟩
  · rintro ⟨u, hu, hjob⟩
    exact ⟨u, (hreaders u (registering_of_reader hjob)).mpr hu, hjob⟩

/-- What a reader has to send, and the registration that it makes, are on their way. -/
theorem applyReply_registering {now : Date} {todo : List ReplyItem} (howned : s.workloads.Owned)
    (h : applyReply cfg now s todo = .ok s') :
    (∀ job, job ∈ registering s.pool ∨ job ∈ todo.filterMap ReplyItem.registers? →
      job ∈ registering s'.pool) ∧
    ∀ job, (s'.job job).state = (s.job job).state ∨ job ∈ registering s'.pool := by
  have hquiet : ∀ {items : List ReplyItem} {job : JobPtr}, (∀ i ∈ items, i.messages = []) →
      job ∉ items.filterMap ReplyItem.registers? := by
    intro items job hitems hjob
    obtain ⟨i, hi, hregisters⟩ := List.mem_filterMap.mp hjob
    cases i with
    | event e => cases hregisters
    | send date m => cases hitems _ hi
  obtain ⟨rfl, hnone⟩ | ⟨skipped, item, tail, u, new, date, m, ms, rfl, hskipped, hitem, hadds, hnew,
    rfl⟩ := applyReply_effect howned h
  · exact ⟨fun job hjob => hjob.resolve_right (hquiet hnone), fun job => .inl rfl⟩
  · have hold : ∀ job, job ∈ registering s.pool → job ∈ registering u.pool := by
      intro job hjob
      rwa [hadds.pool]
    have hsent : ∀ job, m = .jobRegisteredByDP job →
        job ∈ registering (sendAtTime now u date m (ms.map (.send date) ++ tail)).pool := by
      rintro job rfl
      rw [mem_registering]
      obtain hsend | hsend := sendAtTime_cases now u date (.jobRegisteredByDP job)
        (ms.map (.send date) ++ tail) <;> rw [hsend]
      · refine .inl ⟨_, (Pool.mem_threads_block _ _).mpr (.inl rfl), ?_⟩
        simp [Thread.registering, ReplyItem.registers?, IPMessage.registers?]
      · refine .inr ?_
        rw [noteSent_pool, pool_put, Pool.queue_put]
        simp
    have hkept : ∀ job, job ∈ registering u.pool ∨
        job ∈ (ms.map (ReplyItem.send date) ++ tail).filterMap ReplyItem.registers? →
        job ∈ registering (sendAtTime now u date m (ms.map (.send date) ++ tail)).pool := by
      intro job hjob
      rw [mem_registering] at hjob ⊢
      obtain hsend | hsend := sendAtTime_cases now u date m (ms.map (.send date) ++ tail) <;>
        rw [hsend]
      · obtain (⟨t, ht, hin⟩ | hin) | hin := hjob
        · exact .inl ⟨t, (Pool.mem_threads_block _ _).mpr (.inr ht), hin⟩
        · exact .inr hin
        · refine .inl ⟨_, (Pool.mem_threads_block _ _).mpr (.inl rfl), ?_⟩
          rw [Thread.registering, List.filterMap_cons]
          split
          · exact hin
          · exact List.mem_cons_of_mem _ hin
      · rw [noteSent_pool, pool_put]
        obtain (⟨t, ht, hin⟩ | hin) | hin := hjob
        · exact .inl ⟨t, (Pool.mem_threads_put _ _ _).mpr (.inr ht), hin⟩
        · refine .inr ?_
          rw [Pool.queue_put]
          exact List.mem_append_left _ hin
        · have hne : ms.map (ReplyItem.send date) ++ tail ≠ [] := by
            intro hnil
            rw [hnil] at hin
            cases hin
          rw [if_neg hne]
          exact .inl ⟨_, (Pool.mem_threads_put _ _ _).mpr (.inl rfl), hin⟩
    refine ⟨fun job hjob => ?_, fun job => ?_⟩
    · obtain hjob | hjob := hjob
      · exact hkept job (.inl (hold job hjob))
      · rw [List.filterMap_append, List.mem_append, List.filterMap_cons] at hjob
        obtain hjob | hjob := hjob
        · exact absurd hjob (hquiet hskipped)
        · cases item with
          | event e =>
            refine hkept job (.inr ?_)
            rw [List.filterMap_append]
            exact List.mem_append_right _ hjob
          | send d m' =>
            obtain ⟨rfl, rfl⟩ := List.cons.inj hitem
            cases hregisters : m'.registers? with
            | none =>
              simp only [ReplyItem.registers?, hregisters] at hjob
              exact hkept job (.inr hjob)
            | some job' =>
              simp only [ReplyItem.registers?, hregisters, List.mem_cons] at hjob
              obtain rfl | hjob := hjob
              · refine hsent job ?_
                cases m' <;> simp_all [IPMessage.registers?]
              · exact hkept job (.inr hjob)
    · have hstate : ((sendAtTime now u date m (ms.map (.send date) ++ tail)).job job).state =
          (u.job job).state := by
        obtain hsend | hsend := sendAtTime_cases now u date m (ms.map (.send date) ++ tail) <;>
          rw [hsend]
        · rfl
        · unfold noteSent
          split <;> rfl
      have hadded := congrArg (fun v : Sim => (v.job job).state) hadds.eq
      rw [hstate]
      cases new with
      | none => exact .inl hadded
      | some x =>
        by_cases hjob : job = x.1
        · subst hjob
          exact .inr (hsent _ (hnew x.1 x.2 rfl).2)
        · exact .inl (hadded.trans (by simp [withStore, setJob, hjob]))

/-- Every job that was submitted once is counted, or its registration is on its way. -/
structure Entered (s : Sim) : Prop where
  nbSubmittedJobs : s.data.nbSubmittedJobs = s.history.submitted.length
  covered : ∀ p, p ∉ s.history.resubmitted → (s.job p).state ≠ .notSubmitted →
    p ∈ s.history.submitted ∨ p ∈ registering s.pool

theorem Entered.of_same {s s' : Sim} (h : Entered s)
    (hdata : s'.data.nbSubmittedJobs = s.data.nbSubmittedJobs)
    (hsubmitted : s'.history.submitted = s.history.submitted)
    (hresubmitted : s'.history.resubmitted = s.history.resubmitted)
    (hjob : ∀ p, p ∉ s.history.resubmitted → (s'.job p).state ≠ .notSubmitted →
      (s.job p).state ≠ .notSubmitted ∨ p ∈ registering s'.pool)
    (hpool : ∀ p, p ∈ registering s.pool → p ∈ registering s'.pool) : Entered s' := by
  refine ⟨by rw [hdata, hsubmitted, h.nbSubmittedJobs], fun p hp hstate => ?_⟩
  rw [hsubmitted]
  rw [hresubmitted] at hp
  cases hjob p hp hstate with
  | inl hold => exact (h.covered p hp hold).imp_right (hpool p)
  | inr hnew => exact .inr hnew

/-- What is counted as submitted, and which jobs may have left the state before. -/
structure Admits (s t : Sim) (more : List JobPtr) : Prop where
  submitted : t.history.submitted = s.history.submitted ++ more
  nbSubmittedJobs : t.data.nbSubmittedJobs = s.data.nbSubmittedJobs + more.length
  job : ∀ p, (t.job p).state ≠ .notSubmitted → (s.job p).state ≠ .notSubmitted ∨ p ∈ more

theorem Admits.of_same {s t : Sim} (hsubmitted : t.history.submitted = s.history.submitted)
    (hnumber : t.data.nbSubmittedJobs = s.data.nbSubmittedJobs)
    (hjob : ∀ p, (t.job p).state ≠ .notSubmitted → (s.job p).state ≠ .notSubmitted) :
    Admits s t [] :=
  ⟨by simp [hsubmitted], by simp [hnumber], fun p hp => .inl (hjob p hp)⟩

theorem Admits.trans {s t u : Sim} {more more' : List JobPtr} (h : Admits s t more)
    (h' : Admits t u more') : Admits s u (more ++ more') := by
  refine ⟨by rw [h'.submitted, h.submitted, List.append_assoc], ?_, fun p hp => ?_⟩
  · rw [h'.nbSubmittedJobs, h.nbSubmittedJobs, List.length_append]
    omega
  · cases h'.job p hp with
    | inl hold => exact (h.job p hold).imp_right (List.mem_append_left _)
    | inr hnew => exact .inr (List.mem_append_right _ hnew)

/-- A job that was submitted changes its state. -/
theorem state_of_setJob {s t : Sim} {q : JobPtr} {j : Job} (hjob : t.job = (s.setJob q j).job)
    (hstate : (s.job q).state ≠ .notSubmitted) (p : JobPtr)
    (hp : (t.job p).state ≠ .notSubmitted) : (s.job p).state ≠ .notSubmitted := by
  by_cases hq : p = q
  · exact hq ▸ hstate
  · rw [hjob] at hp
    simpa [setJob, hq] using hp

theorem submitJob_admits {submitter : Submitter} {q : JobPtr} {t : Sim}
    (h : submitJob cfg submitter s q = .ok t) : Admits s t [q] := by
  obtain ⟨-, j, profile, rfl⟩ := submitJob_effect h
  have hsubmitted : (s.submit submitter q).history.submitted = s.history.submitted ++ [q] := by
    simp only [submit, track, noteResubmission, countSubmitted, setJob]
    split <;> split <;> rfl
  have hnumber : (s.submit submitter q).data.nbSubmittedJobs = s.data.nbSubmittedJobs + 1 := by
    simp only [submit, track, noteResubmission, countSubmitted, setJob]
    split <;> split <;> rfl
  refine ⟨hsubmitted, hnumber, fun p hp => ?_⟩
  by_cases hq : p = q
  · exact .inr (by simp [hq])
  · left
    rw [show ((s.submit submitter q).logged (.jobSubmitted q.id j profile)).job =
      (s.submit submitter q).job from rfl, job_submit] at hp
    simpa [setJob, hq] using hp

/-- The jobs that a message makes the server count as submitted. -/
def IPMessage.enters : IPMessage → List JobPtr
  | jobSubmitted _ jobs => jobs
  | jobRegisteredByDP p => [p]
  | _ => []

/-- Handling a message counts what it submits, and no other job becomes submitted. -/
theorem handleMessage_admits {t : Sim} {m : IPMessage} (howned : s.workloads.Owned)
    (h : handleMessage cfg s m = .ok t) :
    ∃ more, Admits s t more ∧ more.Sublist m.enters ∧ ∀ p, m = .jobRegisteredByDP p → p ∈ more := by
  cases hjobs : m.touchesJobs with
  | false =>
    obtain ⟨ts, hhandled⟩ := handleMessage_effect h
    have hsame := hhandled.jobs hjobs
    refine ⟨[], .of_same hsame.submitted hsame.nbSubmittedJobs fun p hp => by rwa [← hsame.state p],
      List.nil_sublist _, ?_⟩
    rintro p rfl
    cases hjobs
  | true =>
    cases m with
    | jobSubmitted name jobs =>
      obtain rfl | ⟨submitter, -, hloop⟩ := serverOnJobSubmitted_effect h
      · exact ⟨[], .of_same rfl rfl fun _ hp => hp, List.nil_sublist _, by simp⟩
      · have hall : Admits s t jobs := by
          refine forEach_invariant (fun done u => Admits s u done)
            (.of_same rfl rfl fun _ hp => hp) ?_ hloop
          intro done q rest u u' _ hu hstep
          exact hu.trans (submitJob_admits hstep)
        exact ⟨jobs, hall, List.Sublist.refl _, by simp⟩
    | jobRegisteredByDP q =>
      refine ⟨[q], ?_, List.Sublist.refl _, by simp⟩
      obtain rfl | ⟨job, profile, rfl⟩ := serverOnRegisterJob_effect h
      · exact ⟨rfl, rfl, fun p hp => .inl hp⟩
      · exact ⟨rfl, rfl, fun p hp => .inl hp⟩
    | jobCompleted q =>
      refine ⟨[], ?_, List.nil_sublist _, by simp⟩
      obtain ⟨submitter, -, rfl⟩ | ⟨-, hcount⟩ := serverOnJobCompleted_effect h
      · exact .of_same rfl rfl fun _ hp => hp
      · obtain ⟨-, -, rfl⟩ := countJobCompletion_effect hcount
        exact .of_same rfl rfl fun _ hp => hp
    | schedExecuteJob a =>
      refine ⟨[], ?_, List.nil_sublist _, by simp⟩
      obtain ⟨hstate, -, -, rfl⟩ := serverOnExecuteJob_effect h
      exact .of_same rfl rfl (state_of_setJob (s := s) (q := a.job) (by rfl) (by simp [hstate]))
    | schedChangeJobState id state =>
      refine ⟨[], ?_, List.nil_sublist _, by simp⟩
      obtain ⟨q, -, hstate, -, -, rfl⟩ := serverOnChangeJobState_effect h
      exact .of_same rfl rfl (state_of_setJob (s := s) (q := q) (by rfl) (by simp [hstate]))
    | schedRejectJob id =>
      refine ⟨[], ?_, List.nil_sublist _, by simp⟩
      obtain ⟨q, -, hstate, rfl⟩ := serverOnRejectJob_effect h
      exact .of_same rfl rfl (state_of_setJob (s := s) (q := q) (by rfl) (by simp [hstate]))
    | schedKillJob ids =>
      refine ⟨[], ?_, List.nil_sublist _, by simp⟩
      obtain ⟨u, toKill, hloop, rfl⟩ := serverOnKillJobs_effect h
      obtain ⟨-, rfl⟩ := requestKills_effect howned hloop
      have hjob : (((s.requestKills toKill).noteKillRequest ids toKill).launchKiller toKill).job =
          (s.requestKills toKill).job := by
        unfold launchKiller
        split <;> rfl
      refine .of_same ?_ ?_ fun p hp => ?_
      · unfold launchKiller
        split <;> rfl
      · unfold launchKiller
        split <;> rfl
      · rw [hjob, requestKills] at hp
        dsimp only at hp
        split at hp
        · exact hp
        · exact hp
    | killingDone ids acknowledge =>
      refine ⟨[], ?_, List.nil_sublist _, by simp⟩
      obtain ⟨u, hloop, rfl⟩ := serverOnKillingDone_effect h
      have hu : Admits s u [] := by
        refine forEach_preserves (P := fun v => Admits s v []) (.of_same rfl rfl fun _ hp => hp) ?_
          hloop
        intro id _ v v' hv hstep
        obtain ⟨q, -, ⟨-, rfl⟩ | ⟨-, -, rfl⟩⟩ := countKilledJob_effect hstep
        · exact hv
        · exact hv.trans (.of_same rfl rfl fun _ hp => hp)
      refine hu.trans (.of_same ?_ ?_ fun p hp => ?_)
      · cases acknowledge <;> rfl
      · cases acknowledge <;> rfl
      · cases acknowledge <;> exact hp
    | _ => cases hjobs

/-- A message that is taken out of the pool. -/
theorem registering_deliver {m : IPMessage} {pool : Pool IPMessage Thread}
    (hnext : s.pool.next? = some (.deliver m, pool)) (hjob : job ∈ registering s.pool) :
    m = .jobRegisteredByDP job ∨ job ∈ registering pool := by
  rw [mem_registering] at hjob ⊢
  obtain ⟨hthreads, hqueue, -⟩ := Pool.next?_deliver hnext
  rw [← hthreads, hqueue, List.mem_cons] at hjob
  obtain hthread | heq | hin := hjob
  · exact .inr (.inl hthread)
  · exact .inl heq.symm
  · exact .inr (.inr hin)

theorem registering_of_pool {p q : Pool IPMessage Thread} {b c : List Thread}
    (hp : p = { q with fresh := q.fresh ++ b, blocked := q.blocked ++ c })
    (hjob : job ∈ registering q) : job ∈ registering p := by
  rw [mem_registering] at hjob ⊢
  obtain ⟨t, ht, hin⟩ | hin := hjob
  · exact .inl ⟨t, (mem_threads_of_pool hp).mpr (.inl ht), hin⟩
  · have hqueue : p.queue = q.queue := by rw [hp]; rfl
    exact .inr (hqueue ▸ hin)

/-- The run of a thread, from the pool that it has left. -/
theorem registering_resume {t : Thread} {pool : Pool IPMessage Thread}
    (hnext : s.pool.next? = some (.resume t, pool)) (hjob : job ∈ registering s.pool) :
    job ∈ registering pool ∨ job ∈ t.registering := by
  rw [mem_registering] at hjob ⊢
  obtain ⟨hperm, hqueue⟩ := Pool.next?_resume hnext
  obtain ⟨u, hu, hin⟩ | hin := hjob
  · obtain rfl | hu := List.mem_cons.mp (hperm.mem_iff.mp hu)
    · exact .inr hin
    · exact .inl (.inl ⟨u, hu, hin⟩)
  · exact .inl (.inr (hqueue ▸ hin))

/-- The end of a turn, from the state that the handling of the message leaves. -/
theorem Entered.endOfTurn {u : Sim} (h : Entered u) (hend : endOfTurn cfg u = .ok s') :
    Entered s' := by
  obtain ⟨ts, hpool, -⟩ := endOfTurn_pool hend
  have hsame : s'.data.nbSubmittedJobs = u.data.nbSubmittedJobs ∧
      s'.history.submitted = u.history.submitted := by
    obtain rfl | ⟨workloads, hflush⟩ | hfinish := endOfTurn_cases hend
    · exact ⟨rfl, rfl⟩
    · rw [hflush.eq]
      exact ⟨rfl, rfl⟩
    · rw [hfinish.eq]
      exact ⟨rfl, rfl⟩
  have hpool' : s'.pool = { u.pool with
      fresh := u.pool.fresh ++ ts, blocked := u.pool.blocked ++ [] } := by simpa using hpool
  refine h.of_same hsame.1 hsame.2 (endOfTurn_resubmitted hend) (fun p _ hp => .inl ?_)
    fun p => registering_of_pool hpool'
  rwa [(endOfTurn_hands hend).1] at hp

/-- A workflow submitter registers jobs, and submits none by itself. -/
theorem workflowLoop_state {run : WorkflowRun} (h : workflowLoop cfg s run = .ok s') (p : JobPtr)
    (hp : (s.job p).state = .notSubmitted) : (s'.job p).state = .notSubmitted := by
  have hdoes := workflowLoop_effect h
  cases hdoes with
  | send t id j run' i _ _ _ hstate hadds =>
    have hadded := congrArg (fun v : Sim => (v.job p).state) hadds.eq
    refine hadded.trans ?_
    by_cases hid : p = ⟨run.workflow.name, id⟩
    · simp [withStore, setJob, hid, hstate]
    · simp [withStore, setJob, hid, hp]
  | wait _ => exact hp
  | bye _ => exact hp

theorem killJob_state {id : JobIdentifier} (h : killJob s id = .ok s') (p : JobPtr)
    (hp : (s.job p).state = .notSubmitted) : (s'.job p).state = .notSubmitted := by
  obtain ⟨q, -, -, -, -, ⟨-, rfl⟩ | ⟨n, hrunning, -, ⟨-, rfl⟩ |
    ⟨-, -, j, machines, -, -, -, -, -, -, rfl⟩⟩⟩ := killJob_effect h
  · exact hp
  · exact hp
  · have hne : p ≠ q := by
      rintro rfl
      rw [hp] at hrunning
      cases hrunning
    have hjob : (s.killActors q j machines).job p = s.job p := by
      simp [killActors, noteSilentEnd, Sim.endJob, setJob, hne]
    rw [hjob, hp]

/-- The actors that read no reply make no job submitted. -/
theorem notSubmitted_of_other {o : Outcome} {t : Thread} {pool : Pool IPMessage Thread}
    {p : JobPtr} (halive : ∃ l : Life, l.Shows p (s.view p)) (hserver : t.isServer = false)
    (hreader : t.isReader = false)
    (hnext : s.pool.next? = some (.resume t, pool))
    (hrun : runThread cfg { s with pool := pool } o t = .ok s')
    (hp : (s.job p).state = .notSubmitted) : (s'.job p).state = .notSubmitted := by
  obtain ⟨l, hl⟩ := halive
  have hidle : l.trace p = 0 := by
    have hstate : l.state = .notSubmitted := hl.state.symm.trans hp
    cases l with
    | unmet | waiting => rfl
    | ended o' | calling _ o' => exact absurd hstate (o'.ne rfl)
    | settled o' => rfl
    | _ => first | rfl | cases hstate
  have hexecution : ∀ a, t.actor? = some a → t.trace? a.allocation.job = some (.thread t) →
      (s'.job p).state = .notSubmitted := by
    intro a hactor htrace
    by_cases hjob : p = a.allocation.job
    · subst hjob
      have htaken := traceOf_resume (p := a.allocation.job) hnext
      rw [htrace, show traceOf a.allocation.job s.pool = 0 from hl.trace.trans hidle] at htaken
      simp at htaken
    · have hview := view_execution hnext hactor hjob hrun
      exact (congrArg JobView.state hview).trans hp
  cases t with
  | serverProcess | serverCallback _ _ => cases hserver
  | requestReply _ | applyReply _ _ => cases hreader
  | executeJob a => exact hexecution a rfl (if_pos rfl)
  | executing a _ => exact hexecution a rfl (if_pos rfl)
  | cancelled a => exact hexecution a rfl (if_pos rfl)
  | notified a =>
    simp only [runThread, Except.ok.injEq] at hrun
    subst hrun
    by_cases hjob : p = a.allocation.job
    · subst hjob
      simpa [eraseActor, setJob] using hp
    · simpa [eraseActor, setJob, hjob] using hp
  | killer ids acknowledge =>
    obtain ⟨u, hkills, rfl⟩ := killerProcess_effect hrun
    have hu : (u.job p).state = .notSubmitted :=
      forEach_preserves (s := { s with pool := pool })
        (P := fun v : Sim => (v.job p).state = .notSubmitted) hp
        (fun id _ v v' hv hstep => killJob_state hstep p hv) hkills
    exact hu
  | waiter date =>
    simp only [runThread, Except.ok.injEq] at hrun
    subst hrun
    obtain ⟨d, heq⟩ | heq := waiterProcess_cases { s with pool := pool } date <;> rw [heq]
    · exact hp
    · obtain ⟨heq, -⟩ | ⟨heq, -⟩ := endOfWait_cases { s with pool := pool } <;> rw [heq] <;>
        exact hp
  | waiting date =>
    simp only [runThread, Except.ok.injEq] at hrun
    subst hrun
    obtain ⟨heq, -⟩ | ⟨heq, -⟩ := endOfWait_cases { s with pool := pool } <;> rw [heq] <;>
      exact hp
  | switchOn id pstate =>
    obtain ⟨m, sleep, -, -, -, rfl⟩ := switchOnMachineProcess_effect hrun
    exact hp
  | switchOff id pstate =>
    obtain ⟨m, sleep, -, -, -, rfl⟩ := switchOffMachineProcess_effect hrun
    exact hp
  | switchingOn id pstate | switchingOff id pstate =>
    obtain ⟨m, machines, -, -, -, rfl⟩ := endOfSwitch_effect hrun
    exact hp
  | jobSubmitter w phase =>
    rw [(SubmitterKind.resume_bystands hrun).job]
    exact hp
  | eventSubmitter l phase =>
    rw [(SubmitterKind.resume_bystands hrun).job]
    exact hp
  | workflowSubmitter run phase =>
    cases phase with
    | started | greeted =>
      simp only [runThread, workflowSubmitterProcess, Except.ok.injEq] at hrun
      subst hrun
      exact hp
    | asleep date => exact workflowLoop_state (s := { s with pool := pool }) hrun p hp
    | submitted id i => exact workflowLoop_state (s := { s with pool := pool }) hrun p hp
    | waiting =>
      simp only [runThread, workflowSubmitterProcess] at hrun
      repeat' split at hrun
      any_goals cases hrun
      exact workflowLoop_state hrun p hp

/-- In every state of every run, each job that was submitted once is counted in
`nb_submitted_jobs`, or its registration is on its way to the server. -/
theorem reaches_entered (h : Reaches (batsim cfg) guard s) : Entered s := by
  refine h.invariant (P := Entered) ⟨rfl, fun p _ hp => ?_⟩ ?_
  · obtain ⟨l, rfl | rfl, hshows⟩ := start_lives cfg p
    · exact absurd hshows.state hp
    · exact absurd hshows.state hp
  intro s s' c hr hs _ hstep
  have howned := reaches_owned hr
  cases step_kind hstep with
  | solve clock receive wakes rest order pool hcan hsolve hs' =>
    subst hs'
    refine hs.of_same rfl rfl rfl (fun p _ hp => .inl hp) fun p hp => ?_
    rw [mem_registering] at hp ⊢
    have hqueue : pool.queue = s.pool.queue := Pool.queue_solve hsolve
    rw [hqueue]
    exact hp.imp_left fun ⟨t, ht, hin⟩ => ⟨t, (Pool.threads_solve hsolve).mem_iff.mpr ht, hin⟩
  | turn o m pool hnext hturn =>
    obtain ⟨t, ht, hend⟩ := turn_cases hturn
    obtain ⟨more, hadmits, -, hregistered⟩ :=
      handleMessage_admits (s := { s with pool := pool }) howned ht
    have hmore := handleMessage_resubmitted (s := { s with pool := pool }) howned ht
    obtain ⟨ts, bs, hpool, -, -⟩ := handleMessage_pool ht
    have hnoted : Entered t := by
      refine ⟨?_, fun p hp hstate => ?_⟩
      · rw [hadmits.nbSubmittedJobs, hadmits.submitted, List.length_append]
        have hnumber := hs.nbSubmittedJobs
        push_cast
        exact congrArg (· + (more.length : Int)) hnumber
      · rw [hadmits.submitted, List.mem_append]
        cases hadmits.job p hstate with
        | inr hnew => exact .inl (.inr hnew)
        | inl hbefore =>
          obtain hcounted | hway := hs.covered p (fun hin => hp (hmore hin)) hbefore
          · exact .inl (.inl hcounted)
          · obtain hm | hway := registering_deliver hnext hway
            · exact .inl (.inr (hregistered p hm))
            · exact .inr (registering_of_pool hpool hway)
    obtain ⟨-, rfl⟩ | ⟨-, hend⟩ := hend
    · exact hnoted
    · refine Entered.endOfTurn (u := t.noteHandled m) ?_ hend
      exact hnoted.of_same rfl rfl rfl (fun _ _ hp => .inl hp) fun _ hp => hp
  | callback o q mailbox pool hnext hrun =>
    obtain ⟨t, ht, hend⟩ := serverCallback_cases hrun
    obtain ⟨-, -, rfl⟩ := serverOnCallbackReceived_effect ht
    refine Entered.endOfTurn (u := Sim.noteHandled _ _) ?_ hend
    refine hs.of_same rfl rfl rfl (fun _ _ hp => .inl hp) fun p hp => ?_
    exact (registering_resume hnext hp).resolve_right (by simp [Thread.registering])
  | start o pool hnext hrun =>
    rw [serverProcess_effect hrun]
    refine hs.of_same rfl rfl rfl (fun _ _ hp => .inl hp) fun p hp => ?_
    have hold := (registering_resume hnext hp).resolve_right (by simp [Thread.registering])
    refine registering_of_pool
      (b := [.requestReply (({ s with pool := pool } : Sim).logged .simulationBegins).writer.events])
      (c := []) ?_ hold
    simp [messageSent, logged, Pool.spawn]
  | actor o t pool ht hnext hrun =>
    obtain ⟨hmoves, hkeeps⟩ := runThread_moves (s := { s with pool := pool }) howned ht hrun
    have hdata : s'.data.nbSubmittedJobs = s.data.nbSubmittedJobs := by rw [hkeeps.data]
    cases hreader : t.isReader with
    | false =>
      refine hs.of_same hdata hkeeps.submitted hkeeps.resubmitted
        (fun p hp hstate => .inl fun hold => hstate ?_) fun p hp => ?_
      · exact notSubmitted_of_other (exists_life hr hp) ht hreader hnext hrun hold
      · exact (registering_moves (reaches_placed hr) ht hreader hnext hmoves).mpr hp
    | true =>
      have hread : ∀ {u : Sim} {now : Date} {todo : List ReplyItem}, u.workloads = s.workloads →
          u.pool = pool → u.job = s.job → applyReply cfg now u todo = .ok s' →
          (∀ p, p ∈ t.registering → p ∈ todo.filterMap ReplyItem.registers?) → Entered s' := by
        intro u now todo hw hu hjob happly htodo
        obtain ⟨hway, hstate⟩ := applyReply_registering (hw ▸ howned) happly
        refine hs.of_same hdata hkeeps.submitted hkeeps.resubmitted (fun p _ hp => ?_)
          fun p hp => ?_
        · obtain hsame | hnew := hstate p
          · exact .inl (by rwa [← hjob, ← hsame])
          · exact .inr hnew
        · refine hway p ?_
          rw [hu]
          exact (registering_resume hnext hp).imp_right (htodo p)
      cases t with
      | requestReply message =>
        cases o with
        | reply r =>
          exact hread (u := { s with pool := pool, history := { s.history with
            replies := s.history.replies ++ [(r, [])] } }) rfl rfl rfl (requestReply_effect hrun)
            (by simp [Thread.registering])
        | _ => simp [runThread] at hrun
      | applyReply now todo =>
        exact hread (u := { s with pool := pool }) rfl rfl rfl hrun fun _ hp => hp
      | _ => cases hreader

/-- The accounts of the server in one state. -/
structure Accounts (s : Sim) : Prop where
  started : s.history.started.Nodup
  counted : s.history.counted.Nodup
  nbCompletedJobs : s.data.nbCompletedJobs = s.history.counted.length
  nbRunningJobs : s.data.nbRunningJobs =
    (s.history.started.filter (· ∉ s.history.counted)).length
  nbSubmittedJobs : s.data.nbSubmittedJobs = s.history.submitted.length
  /-- the registered jobs that the server has not heard of may be over before it does -/
  bounded : s.data.nbCompletedJobs + s.data.nbRunningJobs ≤
    s.data.nbSubmittedJobs + (registering s.pool).length
  pushed : s.history.pushed.Nodup ∧ s.history.pushed = s.history.counted.map JobPtr.id
  /-- the ends told to the scheduler are those of the jobs that were started, in order -/
  told : (toldEnds s.history.appended).Nodup ∧ toldEnds s.history.appended =
    (s.history.counted.filter (· ∈ s.history.started)).map JobPtr.id

/-- In every state of every run in which no job is submitted twice, the accounts are right. -/
theorem accounts_right (h : Reaches (batsim cfg) guard s) (hnone : s.history.resubmitted = []) :
    Accounts s := by
  have hbalanced := reaches_balanced h hnone
  have hentered := reaches_entered h
  have halive := reaches_alive h hnone
  have hname : ∀ p q, Named p → Named q → p.id = q.id → p = q := fun p q hp hq heq =>
    hp.eq_of_id hq heq
  have hin : ∀ p, s.history.started.count p ≠ 0 ∨ s.history.counted.count p ≠ 0 →
      p ∈ s.history.submitted ++ registering s.pool := by
    intro p hp
    obtain ⟨l, hl⟩ := halive p
    rw [List.mem_append]
    refine hentered.covered p (by simp [hnone]) ?_
    have hstarted : s.history.started.count p = l.started := hl.started
    have hcounted : s.history.counted.count p = l.counted := hl.counted
    have hstate : (s.job p).state = l.state := hl.state
    rw [hstarted, hcounted] at hp
    rw [hstate]
    cases l with
    | unmet | waiting => simp [Life.started, Life.counted] at hp
    | ended o | calling _ o => exact o.ne rfl
    | settled o =>
      cases o with
      | none => simp [Life.state]
      | some o => exact o.ne rfl
    | _ => simp [Life.state]
  have htotal := hbalanced.total_le (l := s.history.submitted ++ registering s.pool)
    (fun p hp => hin p (.inl (List.count_pos_iff.mpr hp).ne'))
    (fun p hp => hin p (.inr (List.count_pos_iff.mpr hp).ne'))
  refine ⟨hbalanced.started, hbalanced.counted, hbalanced.completed, hbalanced.running,
    hentered.nbSubmittedJobs, ?_, ⟨hbalanced.pushed_nodup hname, hbalanced.pushed⟩,
    hbalanced.told_nodup hname, hbalanced.told⟩
  rw [hentered.nbSubmittedJobs]
  rw [List.length_append] at htotal
  push_cast at htotal
  exact htotal

theorem killed_job_accounted : ∃ s, s.history.countedKilled = [ptr loneJob] ∧ Accounts s := by
  obtain ⟨s, past, hvisits, hnone, hkilled⟩ := exists_killed_run
  exact ⟨s, hkilled, accounts_right hvisits.reaches hnone⟩

end registrations

end Batsim
