import Batsim.Alternation

/-!
Kill requests: what their killers hold, and what becomes of it.
-/

namespace Batsim

open Checked Workloads Sim StepSystem

/-! ### What a request asks for -/

/-- The simulation once the kill of some jobs is requested. -/
def Sim.requestKills (s : Sim) (ids : List JobIdentifier) : Sim :=
  { s with job := fun p =>
      if p ∈ ids.map ptr then { s.job p with killRequested := true } else s.job p }

/-- The jobs that a request finds, and those that it gives to the killer: each of these once,
and none whose kill was requested before. -/
structure Requests (s : Sim) (ids toKill : List JobIdentifier) : Prop where
  nodup : toKill.Nodup
  stored : ∀ id ∈ ids, s.workloads.Stored (ptr id)
  covered : ∀ id ∈ ids, id ∈ toKill ∨ (s.job (ptr id)).killRequested = true
  mem : ∀ id ∈ toKill, id ∈ ids
  new : ∀ id ∈ toKill, (s.job (ptr id)).killRequested = false
  started : ∀ id ∈ toKill, (s.job (ptr id)).state = .running ∨ (s.job (ptr id)).isComplete = true

theorem ptr_mem_map {id : JobIdentifier} {ids : List JobIdentifier} :
    ptr id ∈ ids.map ptr ↔ id ∈ ids := by
  simp only [List.mem_map]
  constructor
  · rintro ⟨id', hmem, heq⟩
    have hid : id' = id := congrArg JobPtr.id heq
    exact hid ▸ hmem
  · exact fun hmem => ⟨id, hmem, rfl⟩

theorem requestKills_effect {s t : Sim} {ids toKill : List JobIdentifier}
    (howned : s.workloads.Owned) (h : forEach requestKill (s, []) ids = .ok (t, toKill)) :
    Requests s ids toKill ∧ t = s.requestKills toKill := by
  let I : List JobIdentifier → Sim × List JobIdentifier → Prop := fun done acc =>
    Requests s done acc.2 ∧ acc.1 = s.requestKills acc.2
  suffices hloop : I ids (t, toKill) from hloop
  refine forEach_invariant I ⟨⟨by simp, by simp, by simp, by simp, by simp, by simp⟩, ?_⟩ ?_ h
  · simp [requestKills]
  rintro done id rest ⟨u, k⟩ acc' - ⟨hk, heq⟩ hstep
  obtain rfl : u = s.requestKills k := heq
  obtain ⟨p, hp, hcases⟩ := requestKill_effect hstep
  obtain ⟨rfl, hstored⟩ := howned.jobAt_eq_ok.mp hp
  have hkill : ((s.requestKills k).job (ptr id)).killRequested = true ↔
      id ∈ k ∨ (s.job (ptr id)).killRequested = true := by
    simp only [requestKills, ptr_mem_map]
    split <;> simp [*]
  have hstate : ((s.requestKills k).job (ptr id)).state = (s.job (ptr id)).state := by
    simp only [requestKills]
    split <;> rfl
  obtain ⟨hold, rfl⟩ | ⟨hnew, hstarted, rfl⟩ := hcases
  · refine ⟨⟨hk.nodup, ?_, ?_, fun id' h' => List.mem_append_left _ (hk.mem id' h'), hk.new,
      hk.started⟩, rfl⟩
    · simpa [or_imp, forall_and] using ⟨hk.stored, hstored⟩
    · simpa [or_imp, forall_and] using ⟨hk.covered, hkill.mp hold⟩
  · rw [← Bool.not_eq_true, hkill, not_or] at hnew
    refine ⟨⟨?_, ?_, ?_, ?_, ?_, ?_⟩, ?_⟩
    · refine List.nodup_append.mpr ⟨hk.nodup, by simp, fun a ha b hb heq => ?_⟩
      rw [heq, List.mem_singleton.mp hb] at ha
      exact hnew.1 ha
    · simpa [or_imp, forall_and] using ⟨hk.stored, hstored⟩
    · intro id' hid'
      rcases List.mem_append.mp hid' with hid' | hid'
      · exact (hk.covered id' hid').imp_left (List.mem_append_left _)
      · exact .inl (List.mem_append_right _ hid')
    · intro id' hid'
      rcases List.mem_append.mp hid' with hid' | hid'
      · exact List.mem_append_left _ (hk.mem id' hid')
      · exact List.mem_append_right _ hid'
    · simpa [or_imp, forall_and] using ⟨hk.new, Bool.not_eq_true _ ▸ hnew.2⟩
    · have hid : (s.job (ptr id)).state = .running ∨ (s.job (ptr id)).isComplete = true := by
        simpa only [Job.isComplete, hstate] using hstarted
      simpa [or_imp, forall_and] using ⟨hk.started, hid⟩
    · simp only [requestKills, setJob, Sim.mk.injEq, true_and, and_true]
      funext q
      by_cases hq : q = ptr id
      · subst hq
        simp [ptr_mem_map, hnew.1]
      · simp [hq]

/-! ### What killers hold -/

/-- A killer, or the message that a killer leaves, holds an identifier. -/
def Holds (p : Pool IPMessage Thread) (id : JobIdentifier) : Prop :=
  ∃ ids acknowledge, id ∈ ids ∧
    (.killer ids acknowledge ∈ p.threads ∨ .killingDone ids acknowledge ∈ p.queue)

theorem KillSteps.mem_queue {p q : Pool IPMessage Thread} (h : KillSteps p q) {m : IPMessage}
    (hm : m ∈ q.queue) : m ∈ p.queue := by
  induction h with
  | refl => exact hm
  | interrupt n _ ih => exact ih hm
  | kill actors _ ih => exact ih ((Pool.queue_kill _ _).subset hm)

/-- The messages on their way after a move were so before, or are what the thread sends. -/
theorem Thread.Moves.mem_queue {t : Thread} {q p' : Pool IPMessage Thread} (h : t.Moves q p')
    {m : IPMessage} (hm : m ∈ p'.queue) : m ∈ q.queue ∨ ∃ sender, t.Puts m sender := by
  cases h with
  | ends => exact .inl hm
  | waits u _ => exact .inl hm
  | puts q' m' sender hputs hkill =>
    rw [Pool.queue_put, List.mem_append, List.mem_singleton] at hm
    obtain hm | rfl := hm
    · obtain rfl | ⟨-, hsteps⟩ := hkill
      · exact .inl hm
      · exact .inl (hsteps.mem_queue hm)
    · exact .inr ⟨sender, hputs⟩

theorem Thread.Puts.killer_of_killingDone {t : Thread} {ids : List JobIdentifier}
    {acknowledge : Bool} {sender : Option Thread} (hreads : t.ReadsReply)
    (h : t.Puts (.killingDone ids acknowledge) sender) : t = .killer ids acknowledge := by
  cases hreader : t.isReader with
  | true => cases h.of_reader hreads hreader
  | false =>
    cases h with
    | firstReply | reply => cases hreader
    | killed => rfl

theorem Holds.of_next {p q : Pool IPMessage Thread} {e : Entry IPMessage Thread}
    (hnext : p.next? = some (e, q)) {id : JobIdentifier} (hid : Holds q id) : Holds p id := by
  have hthreads : ∀ t, t ∈ q.threads → t ∈ p.threads := by
    intro t ht
    cases e with
    | deliver m => rwa [← (Pool.next?_deliver hnext).1]
    | resume u => exact (Pool.next?_resume hnext).1.mem_iff.mpr (List.mem_cons_of_mem _ ht)
  have hqueue : ∀ m, m ∈ q.queue → m ∈ p.queue := by
    intro m hm
    cases e with
    | deliver m' =>
      rw [(Pool.next?_deliver hnext).2.1]
      exact List.mem_cons_of_mem _ hm
    | resume u => rwa [(Pool.next?_resume hnext).2]
  obtain ⟨ids, acknowledge, hmem, hkiller | hdone⟩ := hid
  · exact ⟨ids, acknowledge, hmem, .inl (hthreads _ hkiller)⟩
  · exact ⟨ids, acknowledge, hmem, .inr (hqueue _ hdone)⟩

/-- A run of an actor makes no identifier held. -/
theorem Thread.Moves.holds {t : Thread} {p q p' : Pool IPMessage Thread} (h : t.Moves q p')
    (hreads : t.ReadsReply) (hnext : p.next? = some (.resume t, q)) {id : JobIdentifier}
    (hid : Holds p' id) : Holds p id := by
  obtain ⟨hthreads, hqueue⟩ := Pool.next?_resume hnext
  obtain ⟨ids, acknowledge, hmem, hkiller | hdone⟩ := hid
  · refine ⟨ids, acknowledge, hmem, .inl (hthreads.mem_iff.mpr (List.mem_cons_of_mem _ ?_))⟩
    obtain hold | ⟨m, hputs⟩ | hwaits | ⟨a, heq, -⟩ := h.mem_threads hkiller
    · exact hold
    · exact absurd hputs.sender_startsFresh.1 (by simp [Thread.startsFresh])
    · exact absurd hwaits.startsFresh.1 (by simp [Thread.startsFresh])
    · cases heq
  · obtain hold | ⟨sender, hputs⟩ := h.mem_queue hdone
    · exact ⟨ids, acknowledge, hmem, .inr (hqueue ▸ hold)⟩
    · obtain rfl := hputs.killer_of_killingDone hreads
      exact ⟨ids, acknowledge, hmem, .inl (hthreads.mem_iff.mpr (List.mem_cons_self ..))⟩

/-! ### The turns of the server -/

/-- A killer runs in the round in which it is created. -/
theorem Placed.killer_fresh {p : Pool IPMessage Thread} (h : Placed p) {t : Thread}
    (ht : t.startsFresh = true) (hmem : t ∈ p.threads) : t ∈ p.fresh := by
  rcases Pool.mem_threads.mp hmem with hw | hf | ⟨m, hm⟩ | hb
  · rw [h.woken t hw] at ht
    cases ht
  · exact hf
  · obtain ⟨u, hu⟩ := h.mailbox m t hm
    rw [hu.sender_startsFresh.1] at ht
    cases ht
  · obtain hback | ⟨u, hu⟩ := h.blocked t hb
    · cases t <;> simp_all [Thread.isCallback, Thread.startsFresh]
    · rw [hu.startsFresh.1] at ht
      cases ht

/-- When the server runs, nothing that was created waits to run, and no message but the one it
handles is out of the mailbox. -/
structure AtServer (p q : Pool IPMessage Thread) : Prop where
  fresh : q.fresh = []
  queue : q.queue = q.mailbox.map Prod.fst
  mailbox : q.mailbox = p.mailbox
  threads : ∀ t : Thread, t.startsFresh = true → t ∉ q.threads

theorem Placed.atServer_deliver {p q : Pool IPMessage Thread} {m : IPMessage} (h : Placed p)
    (hnext : p.next? = some (.deliver m, q)) : AtServer p q := by
  obtain ⟨hthreads, -, hfresh, hwoken⟩ := Pool.next?_deliver hnext
  have hnone : p.fresh = [] := h.settled (.inl ⟨m, by simp [hwoken]⟩)
  refine ⟨hfresh.trans hnone, ?_, Pool.next?_mailbox hnext, fun t ht hmem => ?_⟩
  · have hsingle := h.single
    rw [hwoken, Entry.filterMap_message?_deliver, List.length_cons] at hsingle
    have hnil : q.woken.filterMap Entry.message? = [] := List.length_eq_zero_iff.mp (by omega)
    simp [Pool.queue, hnil]
  · rw [hthreads] at hmem
    simpa [hnone] using h.killer_fresh ht hmem

theorem Placed.atServer_resume {p q : Pool IPMessage Thread} {t : Thread} (h : Placed p)
    (hserver : t.isServer = true) (hback : t.startsFresh = false)
    (hnext : p.next? = some (.resume t, q)) : AtServer p q := by
  obtain ⟨hthreads, -⟩ := Pool.next?_resume hnext
  obtain ⟨es, hwoken, rfl⟩ | ⟨-, u, ts, hfresh, he, -⟩ := Pool.next?_cases hnext
  · have hnone : p.fresh = [] := h.settled (.inr ⟨t, by simp [hwoken], hserver⟩)
    refine ⟨hnone, ?_, rfl, fun u hu hmem => ?_⟩
    · have hsingle := h.single
      have hpos : 0 < p.count Thread.isServer :=
        Pool.count_pos.mpr ⟨t, hthreads.mem_iff.mpr (List.mem_cons_self ..), hserver⟩
      rw [hwoken, Entry.filterMap_message?_resume] at hsingle
      have hnil : es.filterMap Entry.message? = [] := List.length_eq_zero_iff.mp (by omega)
      simp [Pool.queue, hnil]
    · have hfresh := h.killer_fresh hu (hthreads.mem_iff.mpr (List.mem_cons_of_mem _ hmem))
      simp [hnone] at hfresh
  · cases he
    rw [h.fresh t (by simp [hfresh])] at hback
    cases hback

/-- While the server waits for a reply, it sends nothing. -/
theorem not_canSend_of_fromScheduler {cfg : Config} {s t : Sim} {m : IPMessage}
    {p : Pool IPMessage Thread} (hs : Exchange s) (hnext : s.pool.next? = some (.deliver m, p))
    (hm : m.fromScheduler = true) (hne : m ≠ .schedReady)
    (h : handleMessage cfg { s with pool := p } m = .ok t) : t.data.schedReady = false := by
  obtain ⟨_, hhandled⟩ := handleMessage_effect h
  rw [(hhandled.exchange hne).schedReady]
  cases hready : s.data.schedReady with
  | false => rfl
  | true =>
    have hquiet := hs.alternates.quiet hready
    rw [requests, (Pool.next?_deliver hnext).2.1, List.filter_cons_of_pos (by simpa using hm)] at hquiet
    cases hquiet

theorem serverOnKillJobs_pool {s s' : Sim} {ids : List JobIdentifier} (howned : s.workloads.Owned)
    (h : serverOnKillJobs s ids = .ok s') :
    ∃ toKill, Requests s ids toKill ∧ s'.workloads = s.workloads ∧
      s'.pool = if toKill = [] then s.pool else s.pool.spawn (.killer toKill true) := by
  obtain ⟨t, toKill, ht, rfl⟩ := serverOnKillJobs_effect h
  obtain ⟨hrequests, rfl⟩ := requestKills_effect howned ht
  refine ⟨toKill, hrequests, ?_, ?_⟩ <;> unfold launchKiller <;> split <;> rfl

/-- What the handling of a message makes held is stored. -/
theorem handleMessage_holds {cfg : Config} {s t : Sim} {m : IPMessage}
    (howned : s.workloads.Owned) (h : handleMessage cfg s m = .ok t) {id : JobIdentifier}
    (hid : Holds t.pool id) : Holds s.pool id ∨ t.workloads.Stored (ptr id) := by
  obtain ⟨ids, acknowledge, hmem, hkiller | hdone⟩ := hid
  · by_cases hm : ∃ req, m = .schedKillJob req
    · obtain ⟨req, rfl⟩ := hm
      obtain ⟨toKill, hrequests, hworkloads, hpool⟩ := serverOnKillJobs_pool howned h
      rw [hpool] at hkiller
      split at hkiller
      · exact .inl ⟨ids, acknowledge, hmem, .inl hkiller⟩
      · obtain heq | hold := (Pool.mem_threads_spawn _ _).mp hkiller
        · cases heq
          rw [hworkloads]
          exact .inr (hrequests.stored id (hrequests.mem id hmem))
        · exact .inl ⟨ids, acknowledge, hmem, .inl hold⟩
    · obtain ⟨ts, bs, hpool, hts, hbs⟩ := handleMessage_pool h
      obtain hold | hnew | hback := (mem_threads_of_pool hpool).mp hkiller
      · exact .inl ⟨ids, acknowledge, hmem, .inl hold⟩
      · have hlaunched := hts _ hnew
        cases m <;> first | exact absurd ⟨_, rfl⟩ hm | cases hlaunched
      · obtain ⟨-, rfl⟩ | ⟨_, _, rfl⟩ := hbs <;> simp at hback
  · obtain ⟨ts, bs, hpool, -⟩ := handleMessage_pool h
    have hqueue : t.pool.queue = s.pool.queue := by rw [hpool]; rfl
    exact .inl ⟨ids, acknowledge, hmem, .inr (hqueue ▸ hdone)⟩

/-- A message is sent to the scheduler only when nothing is held. -/
theorem AtServer.not_holds {p q r : Pool IPMessage Thread} {ts bs : List Thread}
    (h : AtServer p q) (hr : r = { q with fresh := q.fresh ++ ts, blocked := q.blocked ++ bs })
    (hts : ∀ t ∈ ts ++ bs, t.isKiller = false) (hmailbox : r.mailbox = []) (id : JobIdentifier) :
    ¬ Holds r id := by
  rintro ⟨ids, acknowledge, -, hkiller | hdone⟩
  · obtain hold | hnew | hback := (mem_threads_of_pool hr).mp hkiller
    · exact h.threads _ rfl hold
    · cases hts _ (List.mem_append_left _ hnew)
    · cases hts _ (List.mem_append_right _ hback)
  · have hqueue : r.queue = q.queue := by rw [hr]; rfl
    have hempty : q.mailbox = [] := by rw [← hmailbox, hr]
    rw [hqueue, h.queue, hempty] at hdone
    cases hdone

/-- Threads that are not killers make nothing held. -/
theorem Holds.of_pool {p q : Pool IPMessage Thread} {ts bs : List Thread}
    (hp : p = { q with fresh := q.fresh ++ ts, blocked := q.blocked ++ bs })
    (hts : ∀ t ∈ ts ++ bs, t.isKiller = false) {id : JobIdentifier} (hid : Holds p id) :
    Holds q id := by
  obtain ⟨ids, acknowledge, hmem, hkiller | hdone⟩ := hid
  · refine ⟨ids, acknowledge, hmem, .inl ?_⟩
    obtain hold | hnew | hback := (mem_threads_of_pool hp).mp hkiller
    · exact hold
    · cases hts _ (List.mem_append_left _ hnew)
    · cases hts _ (List.mem_append_right _ hback)
  · have hqueue : p.queue = q.queue := by rw [hp]; rfl
    exact ⟨ids, acknowledge, hmem, .inr (hqueue ▸ hdone)⟩

theorem endOfTurn_holds {cfg : Config} {s s' : Sim} (h : endOfTurn cfg s = .ok s')
    (hstored : ∀ id, Holds s.pool id → s.workloads.Stored (ptr id))
    (hnone : s.CanSend → ∀ id, ¬ Holds s.pool id) {id : JobIdentifier} (hid : Holds s'.pool id) :
    s'.workloads.Stored (ptr id) := by
  have hold : Holds s.pool id := by
    obtain ⟨ts, hpool, hts⟩ := endOfTurn_pool h
    have hpool' : s'.pool = { s.pool with
        fresh := s.pool.fresh ++ ts, blocked := s.pool.blocked ++ [] } := by simpa using hpool
    refine hid.of_pool hpool' fun t ht => ?_
    obtain ⟨message, rfl⟩ := hts t (by simpa using ht)
    rfl
  obtain rfl | ⟨workloads, hflush⟩ | hfinish := endOfTurn_cases h
  · exact hstored id hold
  · exact absurd hold (hnone hflush.canSend id)
  · exact absurd hold (hnone hfinish.canSend id)

section runs

variable {cfg : Config} {guard : Sim → Choice → Prop} {s s' : Sim}

theorem reaches_holds (h : Reaches (batsim cfg) guard s) :
    ∀ id, Holds s.pool id → s.workloads.Stored (ptr id) := by
  refine h.invariant (P := fun s => ∀ id, Holds s.pool id → s.workloads.Stored (ptr id)) ?_ ?_
  · rintro id ⟨ids, acknowledge, -, hkiller | hdone⟩
    · simp only [batsim, start, Pool.threads, List.filterMap_nil, List.nil_append,
        List.append_nil, initialThreads, List.mem_append, List.mem_map, List.mem_singleton] at hkiller
      obtain ((⟨d, -, heq⟩ | ⟨d, -, heq⟩) | ⟨d, -, heq⟩) | heq := hkiller <;> cases heq
    · cases hdone
  intro s s' c hr hs _ hstep id hid
  have howned := reaches_owned hr
  have hplaced := reaches_placed hr
  cases step_kind hstep with
  | solve clock receive wakes rest order pool hcan hsolve hs' =>
    subst hs'
    obtain ⟨ids, acknowledge, hmem, hkiller | hdone⟩ := hid
    · exact hs id ⟨ids, acknowledge, hmem, .inl ((Pool.threads_solve hsolve).mem_iff.mp hkiller)⟩
    · have hqueue : pool.queue = s.pool.queue := Pool.queue_solve hsolve
      exact hs id ⟨ids, acknowledge, hmem, .inr (hqueue ▸ hdone)⟩
  | turn o m pool hnext hturn =>
    obtain ⟨t, ht, hend⟩ := turn_cases hturn
    have hworkloads : t.workloads = s.workloads := by
      obtain ⟨_, hhandled⟩ := handleMessage_effect ht
      exact hhandled.keeps.workloads
    have hstored : ∀ id, Holds t.pool id → t.workloads.Stored (ptr id) := by
      intro id hid
      obtain hold | hstored := handleMessage_holds (s := { s with pool := pool }) howned ht hid
      · rw [hworkloads]
        exact hs id (Holds.of_next hnext hold)
      · exact hstored
    obtain ⟨-, rfl⟩ | ⟨-, hend⟩ := hend
    · exact hstored id hid
    · refine endOfTurn_holds hend hstored ?_ hid
      rintro ⟨hready, -, hmailbox⟩ id
      obtain ⟨ts, bs, hpool, hts, hbs⟩ := handleMessage_pool ht
      refine (hplaced.atServer_deliver hnext).not_holds hpool (fun u hu => ?_) hmailbox id
      rcases List.mem_append.mp hu with hu | hu
      · by_cases hm : ∃ req, m = .schedKillJob req
        · obtain ⟨req, rfl⟩ := hm
          have hbusy := not_canSend_of_fromScheduler (reaches_exchange hr) hnext rfl (by simp) ht
          rw [show (t.noteHandled (.schedKillJob req)).data = t.data from rfl, hbusy] at hready
          cases hready
        · have hlaunched := hts u hu
          cases u <;> first | rfl | cases m <;> first | exact absurd ⟨_, rfl⟩ hm | cases hlaunched
      · obtain ⟨-, rfl⟩ | ⟨_, _, rfl⟩ := hbs
        · cases hu
        · rw [List.mem_singleton.mp hu]
          rfl
  | callback o p mailbox pool hnext hrun =>
    obtain ⟨t, ht, hend⟩ := serverCallback_cases hrun
    obtain ⟨hkeeps, -, hpool, -⟩ := serverOnCallbackReceived_frame ht
    refine endOfTurn_holds hend (fun id hid => ?_) ?_ hid
    · have hworkloads : t.workloads = s.workloads := hkeeps.workloads
      rw [show (t.noteHandled (.jobCompleted p)).workloads = s.workloads from hworkloads]
      have hpool' : Holds pool id := by
        have hsame : t.pool = pool := hpool
        exact hsame ▸ hid
      exact hs id (hpool'.of_next hnext)
    · rintro ⟨-, -, hmailbox⟩ id
      have hpool' : (t.noteHandled (.jobCompleted p)).pool = { pool with
          fresh := pool.fresh ++ [], blocked := pool.blocked ++ [] } := by simp [noteHandled, hpool]
      exact (hplaced.atServer_resume rfl rfl hnext).not_holds hpool' (by simp) hmailbox id
  | start o pool hnext hrun =>
    have heffect := serverProcess_effect hrun
    have hpool : s'.pool = { pool with
        fresh := pool.fresh ++ [.requestReply (s.logged .simulationBegins).writer.events]
        blocked := pool.blocked ++ [] } := by
      rw [heffect]
      simp [messageSent, logged, Pool.spawn]
    have hworkloads : s'.workloads = s.workloads := by rw [heffect]; rfl
    rw [hworkloads]
    exact hs id (Holds.of_next hnext (hid.of_pool hpool (by simp [Thread.isKiller])))
  | actor o t pool ht hnext hrun =>
    obtain ⟨new, hregisters⟩ := runThread_registers (s := { s with pool := pool }) howned ht hrun
    have hmoves := (runThread_moves (s := { s with pool := pool }) howned ht hrun).1
    have hthread : t ∈ s.pool.threads :=
      (Pool.next?_resume hnext).1.mem_iff.mpr (List.mem_cons_self ..)
    exact (hregisters.stored _).mpr
      (.inl (hs id (hmoves.holds (reaches_readsReply hr hthread) hnext hid)))

/-- Whatever the order of kills, completions and deletions, the lookup of a job that a killer or
its message holds finds the job. -/
theorem held_job_is_found (h : Reaches (batsim cfg) guard s) {ids : List JobIdentifier}
    {acknowledge : Bool} (hheld : .killer ids acknowledge ∈ s.pool.threads ∨
      .killingDone ids acknowledge ∈ s.pool.queue) :
    ∀ id ∈ ids, ∃ p, s.jobAt id = .ok p ∧ p.id = id ∧ s.workloads.Stored p := by
  intro id hid
  have hstored := reaches_holds h id ⟨ids, acknowledge, hid, hheld⟩
  exact ⟨ptr id, ((reaches_owned h).jobAt_eq_ok).mpr ⟨rfl, hstored⟩, rfl, hstored⟩

end runs

/-- A job is registered, executed and killed by one reply; its killer is about to run. -/
theorem held_job_is_found_by_killer : ∃ s : Sim,
    .killer [loneJob] true ∈ s.pool.threads ∧
      ∀ id ∈ [loneJob], ∃ p, s.jobAt id = .ok p ∧ p.id = id ∧ s.workloads.Stored p := by
  let reply : Reply :=
    { now := 0
      events := [⟨0, .registerJob loneJob loneJobDescription⟩,
        ⟨0, .executeJob loneJob loneMachine none⟩, ⟨0, .killJob [loneJob]⟩] }
  obtain ⟨s, hreaches, hheld⟩ := exists_reaches_of_run (batsim loneHost) anyStep
    (fun s => .killer [loneJob] true ∈ s.pool.threads)
    [.next, .next, .next (.reply reply), .receive, .next, .next, .receive, .next, .next,
      .receive, .next, .next, .next (.task (.leaf .other)), .receive, .next] (by decide +kernel)
  exact ⟨s, hheld, held_job_is_found hreaches (.inl hheld)⟩

end Batsim
