import Batsim.Lib.Precedence
import Batsim.KillAnswers

/-!
The order of the events about kills: a `JOB_KILLED` comes after the `JOB_COMPLETED` of each of its
jobs.
-/

namespace Batsim

open Checked Workloads Sim StepSystem

/-- The execution of the job is over, or its parallel task is cancelled. -/
def Sim.Struck (s : Sim) (p : JobPtr) : Prop := ∃ l : Life, l.Shows p (s.view p) ∧ 5 ≤ l.rank

/-! ### Killers -/

section killers

variable {u t : Sim} {p : JobPtr} {l : Life}

/-- A job that is neither running nor still to be started is over. -/
theorem Life.Shows.over (h : l.Shows p (u.view p)) (hrejected : (u.job p).state ≠ .rejected)
    (hsubmitted : (u.job p).state ≠ .submitted) (hnot : (u.job p).state ≠ .notSubmitted)
    (hrunning : (u.job p).state ≠ .running) : 5 ≤ l.rank := by
  have hstate : (u.job p).state = l.state := h.state
  rw [hstate] at hrejected hsubmitted hnot hrunning
  cases l with
  | ended _ | calling _ _ | killed | settled _ => simp [Life.rank]
  | unmet | waiting => exact absurd rfl hnot
  | submitted => exact absurd rfl hsubmitted
  | rejected => exact absurd rfl hrejected
  | _ => exact absurd rfl hrunning

/-- The parallel task of a job is cancelled, if its actor waits on one. -/
theorem cancelPtask_strikes (h : l.Shows p (u.view p)) (hnumbered : Numbered u)
    (hplaced : Placed u.pool) (hwoken : u.pool.woken = []) {n : Nat}
    (hstate : (u.job p).state = .running) (htask : (u.job p).task = some n)
    (hptask : u.ptask n = true) : (u.cancelPtask n).Struck p := by
  obtain ⟨l', hleads, hshows⟩ := cancelPtask_lives h hplaced hwoken n
  refine ⟨l', hshows, ?_⟩
  have hno : ∀ actors, l.hands ≠ some (none, actors) := by
    intro actors hhands
    have hnone : (u.job p).task = none := congrArg Prod.fst (h.hands _ hhands)
    rw [htask] at hnone
    cases hnone
  obtain rfl | hactive := h.of_running hstate
  · exact absurd rfl (hno [])
  · cases l with
    | launched a => exact absurd rfl (hno [a.number])
    | cancelled a => exact hleads.rank_le
    | executing a leaf =>
      have htrace : traceOf p u.pool = {.thread (.executing a leaf)} := h.trace
      have hnumber : (u.job p).task = some a.number := congrArg Prod.fst (h.hands _ rfl)
      obtain rfl : n = a.number := Option.some.inj (htask.symm.trans hnumber)
      have hin : Trace.thread (.executing a leaf) ∈ traceOf p u.pool := by simp [htrace]
      have hthread := (traceOf_thread hin).1
      rw [hnumbered.leaf a leaf hthread, decide_eq_true_eq] at hptask
      subst hptask
      have hcancelled : l'.trace p = {.thread (.cancelled a)} := by
        rw [← hshows.trace]
        refine (traceOf_cancelPtask hplaced hwoken a.number).trans ?_
        rw [htrace]
        simp [Trace.cancel, Thread.waitsOnPtask, Thread.cancel]
      cases l' <;> simp_all [Life.trace, Life.rank]
    | _ => cases hactive

theorem killJob_strikes {id : JobIdentifier} (h : l.Shows (ptr id) (u.view (ptr id)))
    (howned : u.workloads.Owned) (hnumbered : Numbered u) (hplaced : Placed u.pool)
    (hwoken : u.pool.woken = []) (hkill : killJob u id = .ok t) : t.Struck (ptr id) := by
  obtain ⟨l', hleads, hshows⟩ := killJob_lives h hnumbered hplaced hwoken hkill
  obtain ⟨q, hq, hrejected, hsubmitted, hnot, hcases⟩ := killJob_effect hkill
  obtain rfl := howned.jobAt_ptr hq
  obtain ⟨hrunning, rfl⟩ | ⟨n, hstate, htask, ⟨hptask, rfl⟩ |
    ⟨-, -, j, machines, -, -, -, -, -, hj, rfl⟩⟩ := hcases
  · exact ⟨l, h, h.over hrejected hsubmitted hnot hrunning⟩
  · exact cancelPtask_strikes h hnumbered hplaced hwoken hstate htask hptask
  · refine ⟨l', hshows, ?_⟩
    have hkilled : ((u.killActors (ptr id) j machines).job (ptr id)).state = .completedKilled := by
      simp [killActors, Sim.endJob, noteSilentEnd, setJob, hj]
    obtain rfl | rfl := hshows.of_killed hkilled
    · decide
    · decide

/-- A killer leaves each of its jobs struck. -/
theorem killerProcess_strikes {ids : List JobIdentifier} {acknowledge : Bool} {id : JobIdentifier}
    (h : l.Shows (ptr id) (u.view (ptr id))) (howned : u.workloads.Owned) (hnumbered : Numbered u)
    (hplaced : Placed u.pool) (hwoken : u.pool.woken = [])
    (hrun : killerProcess u ids acknowledge = .ok t) (hid : id ∈ ids) : t.Struck (ptr id) := by
  obtain ⟨v, hkills, rfl⟩ := killerProcess_effect hrun
  let I : List JobIdentifier → Sim → Prop := fun done v =>
    v.workloads = u.workloads ∧ Numbered v ∧ Placed v.pool ∧ v.pool.woken = [] ∧
      (∃ l' : Life, l'.Shows (ptr id) (v.view (ptr id))) ∧ (id ∈ done → v.Struck (ptr id))
  have hall : I ids v := by
    refine forEach_invariant I ⟨rfl, hnumbered, hplaced, hwoken, ⟨l, h⟩, by simp⟩ ?_ hkills
    intro done id' rest v v' _ ⟨hworkloads, hnumbered, hplaced, hwoken, ⟨l', hl'⟩, hdone⟩ hstep
    have hsteps : KillSteps v.pool v'.pool := by
      obtain ⟨heq | ⟨n, heq⟩ | ⟨actors, heq⟩, -⟩ := killJob_frame hstep <;> rw [heq]
      · exact .refl _
      · exact .interrupt n (.refl _)
      · exact .kill actors (.refl _)
    obtain ⟨hplaced', hwoken'⟩ := hplaced.killSteps hwoken hsteps
    obtain ⟨l'', -, hl''⟩ := killJob_lives hl' hnumbered hplaced hwoken hstep
    refine ⟨(killJob_frame hstep).2.2.1.trans hworkloads, killJob_numbered hnumbered hstep,
      hplaced', hwoken', ⟨l'', hl''⟩, fun hin => ?_⟩
    obtain hin | hin := List.mem_append.mp hin
    · obtain ⟨k, hk, hrank⟩ := hdone hin
      obtain ⟨k', hleads, hk'⟩ := killJob_lives hk hnumbered hplaced hwoken hstep
      exact ⟨k', hk', hrank.trans hleads.rank_le⟩
    · obtain rfl := List.mem_singleton.mp hin
      exact killJob_strikes hl' (hworkloads ▸ howned) hnumbered hplaced hwoken hstep
  obtain ⟨-, -, -, -, -, hstruck⟩ := hall
  obtain ⟨k, hk, hrank⟩ := hstruck hid
  refine ⟨k, ?_, hrank⟩
  rw [view_put rfl rfl]
  exact hk

end killers

/-! ### Ends on their way -/

/-- The message that a killer leaves about a job comes after the job was struck, and after the
message about its end, if there is one. -/
structure Hunted (id : JobIdentifier) (s : Sim) : Prop where
  struck : ∀ ids acknowledge, .killingDone ids acknowledge ∈ s.pool.queue → id ∈ ids →
    s.Struck (ptr id)
  last : ∀ ids acknowledge, id ∈ ids →
    ¬ [IPMessage.killingDone ids acknowledge, .jobCompleted (ptr id)].Sublist s.pool.queue

theorem KillSteps.queue_sublist {p q : Pool IPMessage Thread} (h : KillSteps p q) :
    q.queue.Sublist p.queue := by
  induction h with
  | refl => exact List.Sublist.refl _
  | interrupt n _ ih => exact ih
  | kill actors _ ih => exact (Pool.queue_kill _ _).trans ih

/-- Messages leave the queue. -/
theorem Hunted.of_fewer {s s' : Sim} {id : JobIdentifier} (h : Hunted id s)
    (hqueue : s'.pool.queue.Sublist s.pool.queue)
    (hstruck : s.Struck (ptr id) → s'.Struck (ptr id)) : Hunted id s' :=
  ⟨fun ids acknowledge hm hid => hstruck (h.struck ids acknowledge (hqueue.subset hm) hid),
    fun ids acknowledge hid hsub => h.last ids acknowledge hid (hsub.trans hqueue)⟩

/-- A message joins the queue, after others have left it. -/
theorem Hunted.of_put {s s' : Sim} {id : JobIdentifier} {queue : List IPMessage} {m : IPMessage}
    (h : Hunted id s) (hqueue : queue.Sublist s.pool.queue) (hput : s'.pool.queue = queue ++ [m])
    (hstruck : s.Struck (ptr id) → s'.Struck (ptr id))
    (hnew : ∀ ids acknowledge, m = .killingDone ids acknowledge → id ∈ ids → s'.Struck (ptr id))
    (hend : m = .jobCompleted (ptr id) → ¬ s.Struck (ptr id)) : Hunted id s' := by
  refine ⟨fun ids acknowledge hm hid => ?_, fun ids acknowledge hid hsub => ?_⟩
  · rw [hput, List.mem_append, List.mem_singleton] at hm
    obtain hold | heq := hm
    · exact hstruck (h.struck ids acknowledge (hqueue.subset hold) hid)
    · exact hnew ids acknowledge heq.symm hid
  · rw [hput, List.sublist_append_iff] at hsub
    obtain ⟨front, back, hsplit, hfront, hback⟩ := hsub
    obtain rfl | rfl := List.sublist_singleton.mp hback
    · rw [List.append_nil] at hsplit
      exact h.last ids acknowledge hid (hsplit ▸ hfront.trans hqueue)
    · have hpair : [IPMessage.killingDone ids acknowledge] ++ [.jobCompleted (ptr id)] =
          front ++ [m] := hsplit
      obtain ⟨rfl, hm⟩ := List.append_inj' hpair rfl
      obtain rfl := List.singleton_inj.mp hm
      have hkilling := hqueue.subset (List.singleton_sublist.mp hfront)
      exact hend rfl (h.struck ids acknowledge hkilling hid)

section runs

variable {cfg : Config} {guard : Sim → Choice → Prop} {s s' : Sim} {id : JobIdentifier}

/-- A cancelled actor does not tell the server about the end of its job. -/
theorem queue_of_cancelled {o : Outcome} {a : ExecutionActor}
    (h : runThread cfg s o (.cancelled a) = .ok s') : s'.pool.queue = s.pool.queue := by
  obtain ⟨j, machines, -, -, -, -, -, ⟨-, hcode, -⟩ | ⟨-, -, rfl⟩⟩ := finishJob_effect h
  · exact absurd rfl hcode
  · rfl

/-- The actor that tells the server about the end of a job executes the job until then. -/
theorem not_struck_of_puts {t : Thread} {m : IPMessage} {sender : Option Thread}
    {pool : Pool IPMessage Thread} (hreads : t.ReadsReply)
    (hnext : s.pool.next? = some (.resume t, pool)) (hcancelled : ∀ a, t ≠ .cancelled a)
    (hputs : t.Puts m sender) (hm : m = .jobCompleted (ptr id)) : ¬ s.Struck (ptr id) := by
  rintro ⟨l, hl, hrank⟩
  cases hreader : t.isReader with
  | true =>
    have hfrom := hputs.of_reader hreads hreader
    subst hm
    cases hfrom
  | false =>
    have hexecution : ∀ a, t.actor? = some a → a.allocation.job = ptr id →
        t.trace? (ptr id) = some (.thread t) → l.rank ≤ 4 := by
      intro a ha hjob htrace
      have htaken := traceOf_resume (p := ptr id) hnext
      rw [htrace, Option.toList_some] at htaken
      obtain ⟨hlife, -⟩ := hl.taken htaken
      cases l with
      | cancelled b => exact absurd (by simpa [Life.trace] using hlife.symm) (hcancelled b)
      | ended _ => simp [Life.trace] at hlife
      | calling mailbox _ =>
        simp only [Life.trace, Multiset.singleton_inj, Trace.thread.injEq] at hlife
        subst hlife
        cases ha
      | _ => simp_all [Life.trace, Life.rank]
    cases hputs with
    | firstReply | reply => cases hreader
    | completed _ a ha hne =>
      have hjob : a.allocation.job = ptr id := IPMessage.jobCompleted.inj hm
      have hlow : l.rank ≤ 4 := by
        cases t with
        | executeJob b | executing b _ =>
          obtain rfl := Option.some.inj ha
          exact hexecution b rfl hjob (if_pos hjob)
        | cancelled b => exact absurd rfl (hcancelled b)
        | notified b => exact absurd (congrArg Thread.notified (Option.some.inj ha)) hne
        | _ => cases ha
      omega
    | _ => cases hm

/-- In every state of every run, for each job submitted once. -/
theorem reaches_hunted (h : Reaches (batsim cfg) guard s)
    (hp : ptr id ∉ s.history.resubmitted) : Hunted id s := by
  revert hp
  refine h.invariant (P := fun s => ptr id ∉ s.history.resubmitted → Hunted id s)
    (fun _ => ⟨fun _ _ hm => (by cases hm), fun _ _ _ hsub => (by cases hsub)⟩) ?_
  intro s s' c hr ih _ hstep hp
  have howned := reaches_owned hr
  have hbefore : ptr id ∉ s.history.resubmitted := fun hin =>
    hp (step_resubmitted howned hstep hin)
  have hs := ih hbefore
  have hstruck : s.Struck (ptr id) → s'.Struck (ptr id) := by
    rintro ⟨l, hl, hrank⟩
    obtain ⟨l', hleads, hl'⟩ := step_lives hr hl hstep hp
    exact ⟨l', hl', hrank.trans hleads.rank_le⟩
  cases step_kind hstep with
  | solve clock receive wakes rest order pool hcan hsolve hs' =>
    subst hs'
    refine hs.of_fewer ?_ hstruck
    rw [show pool.queue = s.pool.queue from Pool.queue_solve hsolve]
  | turn o m pool hnext hturn =>
    obtain ⟨ts, bs, hpool, -⟩ := turn_pool hturn
    refine hs.of_fewer ?_ hstruck
    have hqueue : s'.pool.queue = pool.queue := by rw [hpool]; rfl
    rw [hqueue, (Pool.next?_deliver hnext).2.1]
    exact List.sublist_cons_self _ _
  | callback o p mailbox pool hnext hrun =>
    obtain ⟨ts, hpool, -⟩ := callback_pool hrun
    refine hs.of_fewer ?_ hstruck
    have hqueue : s'.pool.queue = pool.queue := by rw [hpool]; rfl
    rw [hqueue, (Pool.next?_resume hnext).2]
  | start o pool hnext hrun =>
    refine hs.of_fewer ?_ hstruck
    rw [serverProcess_effect hrun, (Pool.next?_resume hnext).2]
    exact List.Sublist.refl _
  | actor o t pool ht hnext hrun =>
    obtain ⟨hthreads, hqueue⟩ := Pool.next?_resume hnext
    have hreads := reaches_readsReply hr (hthreads.mem_iff.mpr (List.mem_cons_self ..))
    have hmoves := (runThread_moves (s := { s with pool := pool }) howned ht hrun).1
    by_cases hcancelled : ∃ a, t = .cancelled a
    · obtain ⟨a, rfl⟩ := hcancelled
      refine hs.of_fewer ?_ hstruck
      rw [queue_of_cancelled hrun, hqueue]
    generalize hafter : s'.pool = after at hmoves
    cases hmoves with
    | ends hend =>
      refine hs.of_fewer ?_ hstruck
      rw [hafter, hqueue]
    | waits x hwaits =>
      refine hs.of_fewer ?_ hstruck
      rw [hafter, hqueue]
      exact List.Sublist.refl _
    | puts q m sender hputs hkill =>
      have hsub : q.queue.Sublist s.pool.queue := by
        rw [hqueue]
        obtain rfl | ⟨-, hsteps⟩ := hkill
        · exact List.Sublist.refl _
        · exact hsteps.queue_sublist
      refine hs.of_put hsub (by rw [hafter, Pool.queue_put]) hstruck ?_ ?_
      · rintro ids acknowledge rfl hid
        obtain rfl := hputs.killer_of_killingDone hreads
        obtain ⟨l, hl⟩ := exists_life hr hbefore
        have hplaced := reaches_placed hr
        exact killerProcess_strikes (u := { s with pool := pool })
          ((view_resume hnext rfl).symm ▸ hl) howned ((reaches_numbered hr).next hnext)
          (hplaced.next ht hnext) (hplaced.woken_eq_nil rfl hnext).2 hrun hid
      · rintro rfl
        exact not_struck_of_puts hreads hnext (fun a heq => hcancelled ⟨a, heq⟩) hputs rfl

/-! ### The log -/

/-- When the server hears that a killing is done, each job of it was killed, or is counted. -/
theorem over_of_killingDone (h : Reaches (batsim cfg) guard s)
    (hp : ptr id ∉ s.history.resubmitted) {ids : List JobIdentifier} {acknowledge : Bool}
    {pool : Pool IPMessage Thread}
    (hnext : s.pool.next? = some (.deliver (.killingDone ids acknowledge), pool)) (hid : id ∈ ids) :
    ∃ l : Life, l.Shows (ptr id) (s.view (ptr id)) ∧ (l = .killed ∨ ∃ o, l = .settled o) := by
  have hhunted := reaches_hunted h hp
  have hplaced := reaches_placed h
  obtain ⟨hthreads, hqueue, -⟩ := Pool.next?_deliver hnext
  obtain ⟨l, hl, hrank⟩ := hhunted.struck ids acknowledge (by simp [hqueue]) hid
  have htrace : traceOf (ptr id) s.pool = l.trace (ptr id) := hl.trace
  refine ⟨l, hl, ?_⟩
  cases l with
  | killed => exact .inl rfl
  | settled o => exact .inr ⟨o, rfl⟩
  | cancelled a =>
    -- a cancelled actor runs in the same round, and the server in a later one
    have hin : Trace.thread (.cancelled a) ∈ traceOf (ptr id) s.pool := by simp [htrace, Life.trace]
    exact absurd (hthreads ▸ (traceOf_thread hin).1)
      ((hplaced.atServer_deliver hnext).threads _ rfl)
  | calling mailbox o =>
    have hin : Trace.thread (.serverCallback (ptr id) mailbox) ∈ traceOf (ptr id) s.pool := by
      simp [htrace, Life.trace]
    have hpos : 0 < s.pool.count Thread.isServer :=
      Pool.count_pos.mpr ⟨_, (traceOf_thread hin).1, rfl⟩
    have hsingle := hplaced.single
    rw [(Pool.next?_deliver hnext).2.2.2, Entry.filterMap_message?_deliver, List.length_cons]
      at hsingle
    omega
  | ended o =>
    -- the message about the end would come later
    have hin : Trace.ended ∈ traceOf (ptr id) s.pool := by simp [htrace, Life.trace]
    rw [traceOf, Pool.labels, Multiset.mem_add, Multiset.mem_coe, Multiset.mem_coe,
      List.mem_filterMap, List.mem_filterMap] at hin
    obtain ⟨t, -, ht⟩ | ⟨m, hm, hended⟩ := hin
    · cases (Thread.trace_eq_some ht).1
    · obtain rfl := (IPMessage.trace_eq_some hended).2
      rw [hqueue, List.mem_cons] at hm
      obtain heq | hlater := hm
      · cases heq
      · refine absurd ?_ (hhunted.last ids acknowledge hid)
        rw [hqueue]
        exact (List.singleton_sublist.mpr hlater).cons_cons _
  | _ => simp [Life.rank] at hrank

theorem told_of_settled (h : Reaches (batsim cfg) guard s) (hnone : s.history.resubmitted = [])
    {p : JobPtr} {o : Option Ending} (hl : (Life.settled o).Shows p (s.view p)) :
    p.id ∈ toldEnds s.history.appended := by
  have htold : toldEnds s.history.appended =
      (s.history.counted.filter (· ∈ s.history.started)).map JobPtr.id :=
    (reaches_balanced h hnone).told
  have hstarted : s.history.started.count p = 1 := hl.started
  have hcounted : s.history.counted.count p = 1 := hl.counted
  rw [htold]
  refine List.mem_map_of_mem (List.mem_filter.mpr ⟨List.count_pos_iff.mp (by omega), ?_⟩)
  exact decide_eq_true (List.count_pos_iff.mp (by omega))

/-- The server tells the ends of the jobs that were killed. -/
theorem countKilledJobs_told {u t : Sim} {ids : List JobIdentifier} (howned : u.workloads.Owned)
    (hover : ∀ id ∈ ids, (u.job (ptr id)).state = .completedKilled ∨
      id ∈ toldEnds u.history.appended)
    (hloop : forEach countKilledJob u ids = .ok t) :
    ∀ id ∈ ids, id ∈ toldEnds t.history.appended := by
  let I : List JobIdentifier → Sim → Prop := fun done v =>
    v.workloads = u.workloads ∧ (∀ p, (v.job p).state = (u.job p).state) ∧
      toldEnds u.history.appended ⊆ toldEnds v.history.appended ∧
      ∀ id ∈ done, id ∈ toldEnds v.history.appended
  have hall : I ids t := by
    refine forEach_invariant I ⟨rfl, fun _ => rfl, List.Subset.refl _, by simp⟩ ?_ hloop
    intro done id rest v v' hsplit ⟨hworkloads, hstate, hsub, hdone⟩ hstep
    have howned' : v.workloads.Owned := hworkloads ▸ howned
    obtain ⟨q, hq, ⟨hkilled, rfl⟩ | ⟨-, -, rfl⟩⟩ := countKilledJob_effect hstep
    · obtain rfl := howned'.jobAt_ptr hq
      refine ⟨hworkloads, hstate, hsub, ?_⟩
      have hid : id ∈ toldEnds u.history.appended := by
        refine (hover id (by simp [hsplit])).resolve_left fun heq => hkilled ?_
        rw [hstate, heq]
      simpa [or_imp, forall_and] using ⟨hdone, hsub hid⟩
    · obtain rfl := howned'.jobAt_ptr hq
      have htold : toldEnds ((v.noteCountedKilled (ptr id)).completeJob (ptr id)).history.appended =
          toldEnds v.history.appended ++ [id] :=
        congrArg Ledger.told (ledger_completeJob (v.noteCountedKilled (ptr id)) (ptr id))
      refine ⟨hworkloads, hstate, ?_, ?_⟩
      · rw [htold]
        exact List.Subset.trans hsub (List.subset_append_left _ _)
      · rw [htold]
        intro id' hid'
        obtain hid' | hid' := List.mem_append.mp hid'
        · exact List.mem_append_left _ (hdone id' hid')
        · exact List.mem_append_right _ hid'
  exact hall.2.2.2

/-- The log of a simulation, where each answer to a request to kill jobs comes after the ends of
these jobs. -/
def Answered (es : List DatedEvent) : Prop :=
  Preceded (fun e => e.event.killed?.getD []) (fun e => e.event.completed?) es

theorem Answered.concat {es : List DatedEvent} {e : DatedEvent} (h : Answered es)
    (he : ∀ ids, e.event.killed? = some ids → ∀ id ∈ ids, id ∈ toldEnds es) :
    Answered (es ++ [e]) := by
  refine Preceded.concat h fun id hid => ?_
  cases hkilled : e.event.killed? with
  | none => simp [hkilled] at hid
  | some ids => exact he ids hkilled id (by simpa [hkilled] using hid)

theorem Answered.append_quiet {es more : List DatedEvent} (h : Answered es)
    (hmore : ∀ e ∈ more, e.event.killed? = none) : Answered (es ++ more) :=
  Preceded.append_quiet h fun e he => by rw [hmore e he, Option.getD_none]

theorem Answered.endOfTurn {u : Sim} (h : Answered u.history.appended)
    (hend : endOfTurn cfg u = .ok s') : Answered s'.history.appended := by
  obtain ⟨-, -, last, happended, hlast⟩ := endOfTurn_appended hend
  rw [happended]
  refine h.append_quiet fun e he => ?_
  obtain rfl | rfl := hlast
  · cases he
  · rw [List.mem_singleton.mp he]
    rfl

theorem handleMessage_answered {m : IPMessage} {pool : Pool IPMessage Thread} {t : Sim}
    (hr : Reaches (batsim cfg) guard s) (hnone : s.history.resubmitted = [])
    (hs : Answered s.history.appended) (hnext : s.pool.next? = some (.deliver m, pool))
    (ht : handleMessage cfg { s with pool := pool } m = .ok t) : Answered t.history.appended := by
  by_cases hdone : m.killing? = none
  · obtain ⟨es, happended, hquiet⟩ := handleMessage_killed hdone ht
    rw [happended]
    exact hs.append_quiet hquiet
  · cases m with
    | killingDone ids acknowledge =>
      have howned := reaches_owned hr
      obtain ⟨u, hloop, rfl⟩ := serverOnKillingDone_effect ht
      have hu : Answered u.history.appended := by
        refine forEach_preserves (s := { s with pool := pool })
          (P := fun v : Sim => Answered v.history.appended) hs ?_ hloop
        intro id _ v v' hv hstep
        obtain ⟨es, happended, hes⟩ := (countKilledJob_appends hstep).events
        rw [happended]
        refine hv.append_quiet fun e he => ?_
        obtain ⟨q, state, alloc, code, hevent⟩ := (hes e he).2
        rw [hevent]
        rfl
      have htold : ∀ id ∈ ids, id ∈ toldEnds u.history.appended := by
        refine countKilledJobs_told (u := { s with pool := pool }) howned (fun id hid => ?_) hloop
        obtain ⟨l, hl, rfl | ⟨o, rfl⟩⟩ := over_of_killingDone hr (by simp [hnone]) hnext hid
        · exact .inl hl.state
        · exact .inr (told_of_settled hr hnone hl)
      cases acknowledge with
      | false => exact hu
      | true =>
        refine hu.concat (e := ⟨u.clock, .jobKilled ids⟩) fun ids' heq => ?_
        cases heq
        exact htold
    | _ => exact absurd rfl hdone

/-- In every state of every run in which no job is submitted twice, the end of each job of a
`JOB_KILLED` was told before it. -/
theorem killed_after_completed (h : Reaches (batsim cfg) guard s)
    (hnone : s.history.resubmitted = []) : Answered s.history.appended := by
  revert hnone
  refine h.invariant (P := fun s => s.history.resubmitted = [] → Answered s.history.appended)
    (fun _ => ?_) ?_
  · exact Preceded.nil
  intro s s' c hr ih _ hstep hlate
  have hnone := resubmitted_nil hr hstep hlate
  have hs := ih hnone
  cases step_kind hstep with
  | solve clock receive wakes rest order pool hcan hsolve hs' =>
    subst hs'
    exact hs
  | turn o m pool hnext hturn =>
    obtain ⟨t, ht, hend⟩ := turn_cases hturn
    have hanswered := handleMessage_answered hr hnone hs hnext ht
    obtain ⟨-, rfl⟩ | ⟨-, hend⟩ := hend
    · exact hanswered
    · exact Answered.endOfTurn (u := t.noteHandled m) hanswered hend
  | callback o p mailbox pool hnext hrun =>
    obtain ⟨t, ht, hend⟩ := serverCallback_cases hrun
    obtain ⟨-, -, rfl⟩ := serverOnCallbackReceived_effect ht
    refine Answered.endOfTurn (u := Sim.noteHandled _ _) ?_ hend
    exact hs.concat_quiet (by simp [completionOf, ProtocolEvent.killed?])
  | start o pool hnext hrun =>
    rw [serverProcess_effect hrun]
    exact hs.concat_quiet (by simp [ProtocolEvent.killed?])
  | actor o t pool ht hnext hrun =>
    have howned := reaches_owned hr
    obtain ⟨-, hkeeps⟩ := runThread_moves (s := { s with pool := pool }) howned ht hrun
    rw [hkeeps.appended]
    exact hs

end runs

theorem killed_job_told_first : ∃ s : Sim, s.history.countedKilled = [ptr loneJob] ∧
    Answered s.history.appended := by
  obtain ⟨s, past, hvisits, hnone, hkilled⟩ := exists_killed_run
  exact ⟨s, hkilled, killed_after_completed hvisits.reaches hnone⟩

end Batsim
