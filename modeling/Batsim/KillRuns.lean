import Mathlib.Data.Multiset.Bind
import Batsim.ActorNumbers
import Batsim.Flows

/-!
Whole runs of kill requests: no job is given to two killers, nor twice to one.
-/

namespace Batsim

open Checked Workloads Sim StepSystem

/-! ### What killers carry -/

/-- The jobs to kill, and whether the scheduler is told once that is done. -/
def Thread.killing? : Thread → Option (List JobIdentifier × Bool)
  | killer ids acknowledge => some (ids, acknowledge)
  | _ => none

def IPMessage.killing? : IPMessage → Option (List JobIdentifier × Bool)
  | killingDone ids acknowledge => some (ids, acknowledge)
  | _ => none

theorem killing_flow : Flow Thread.killing? IPMessage.killing? := by
  refine .of_others ?_ ?_ ?_ (fun _ => rfl) (fun _ _ => rfl) ?_ ?_
  · intro t ht
    cases t <;> first | rfl | cases ht
  · intro t ht
    cases t <;> first | rfl | cases ht
  · intro m hm
    cases m <;> first | rfl | cases hm
  · intro t m sender hreader hactor hputs
    cases hputs with
    | firstReply | reply => cases hreader
    | killed ids acknowledge => rfl
    | completed _ a ha | fromJob _ a _ ha =>
      rw [hactor] at ha
      cases ha
    | waited _ hw => cases t <;> first | rfl | cases hw
    | _ => rfl
  · intro t u hreader hactor hwaits
    cases hwaits with
    | reply _ _ _ ht =>
      obtain ⟨message, rfl⟩ | ⟨todo, rfl⟩ := ht <;> cases hreader
    | leaf _ a _ ha =>
      rw [hactor] at ha
      cases ha
    | _ => rfl

def Thread.kills? : Thread → Option (List JobIdentifier)
  | killer ids _ => some ids
  | _ => none

def IPMessage.kills? : IPMessage → Option (List JobIdentifier)
  | killingDone ids _ => some ids
  | _ => none

theorem Thread.kills_eq : kills? = fun t => t.killing?.map Prod.fst := by
  funext t
  cases t <;> rfl

theorem IPMessage.kills_eq : kills? = fun m => m.killing?.map Prod.fst := by
  funext m
  cases m <;> rfl

theorem kill_flow : Flow Thread.kills? IPMessage.kills? := by
  rw [Thread.kills_eq, IPMessage.kills_eq]
  exact killing_flow.map Prod.fst

/-- All that some lists of identifiers hold. -/
def gathered (lists : Multiset (List JobIdentifier)) : Multiset JobIdentifier :=
  lists.bind Multiset.ofList

@[simp] theorem gathered_zero : gathered 0 = 0 := rfl

@[simp] theorem gathered_add (lists more : Multiset (List JobIdentifier)) :
    gathered (lists + more) = gathered lists + gathered more :=
  Multiset.add_bind ..

@[simp] theorem gathered_one (ids : List JobIdentifier) :
    gathered ([ids] : List (List JobIdentifier)) = (ids : Multiset JobIdentifier) := by
  simp [gathered, Multiset.bind]

theorem mem_gathered {lists : Multiset (List JobIdentifier)} {id : JobIdentifier} :
    id ∈ gathered lists ↔ ∃ ids ∈ lists, id ∈ ids := by
  simp [gathered]

/-- The identifiers given to killers so far, whether their killing is done or not. -/
def requestedKills (s : Sim) : Multiset JobIdentifier :=
  gathered (Flow.total Thread.kills? IPMessage.kills? s)

/-- The identifiers whose killing is done. -/
def doneKills (s : Sim) : Multiset JobIdentifier :=
  gathered (s.history.handled.filterMap IPMessage.kills? : List (List JobIdentifier))

/-- The identifiers that a killer, or the message that it leaves, holds. -/
def heldKills (p : Pool IPMessage Thread) : Multiset JobIdentifier :=
  gathered (p.labels Thread.kills? IPMessage.kills?)

theorem requestedKills_eq (s : Sim) :
    requestedKills s = heldKills s.pool + doneKills s :=
  gathered_add _ _

/-! ### Kill requests and the jobs -/

theorem killRequested_setJob {s t : Sim} {p : JobPtr} {j : Job}
    (hjob : t.job = (s.setJob p j).job) (hkill : j.killRequested = (s.job p).killRequested)
    (q : JobPtr) : (t.job q).killRequested = (s.job q).killRequested := by
  rw [hjob]
  by_cases hq : q = p
  · simp [setJob, hq, hkill]
  · simp [setJob, hq]

/-- Only a kill request changes whether the kill of a job was requested. -/
theorem handleMessage_killRequested {cfg : Config} {s t : Sim} {m : IPMessage}
    (hm : ∀ ids, m ≠ .schedKillJob ids) (h : handleMessage cfg s m = .ok t) (p : JobPtr) :
    (t.job p).killRequested = (s.job p).killRequested := by
  cases hjobs : m.touchesJobs with
  | false =>
    obtain ⟨ts, hhandled⟩ := handleMessage_effect h
    exact (hhandled.jobs hjobs).killRequested p
  | true =>
    cases m with
    | jobSubmitted name jobs =>
      obtain rfl | ⟨submitter, -, hloop⟩ := serverOnJobSubmitted_effect h
      · rfl
      · refine forEach_unchanged (fun u : Sim => (u.job p).killRequested) ?_ hloop
        intro q _ u u' hstep
        obtain ⟨-, job, profile, rfl⟩ := submitJob_effect hstep
        exact killRequested_setJob (job_submit u submitter q) rfl p
    | jobRegisteredByDP q =>
      obtain rfl | ⟨job, profile, rfl⟩ := serverOnRegisterJob_effect h <;> rfl
    | jobCompleted q =>
      obtain ⟨submitter, -, rfl⟩ | ⟨-, hcount⟩ := serverOnJobCompleted_effect h
      · rfl
      · obtain ⟨-, -, rfl⟩ := countJobCompletion_effect hcount
        rfl
    | schedExecuteJob a =>
      obtain ⟨-, -, -, rfl⟩ := serverOnExecuteJob_effect h
      exact killRequested_setJob (s := s) (by rfl) (by rfl) p
    | schedChangeJobState id state =>
      obtain ⟨q, -, -, -, -, rfl⟩ := serverOnChangeJobState_effect h
      exact killRequested_setJob (s := s) (by rfl) (by rfl) p
    | schedRejectJob id =>
      obtain ⟨q, -, -, rfl⟩ := serverOnRejectJob_effect h
      exact killRequested_setJob (s := s) (by rfl) (by rfl) p
    | schedKillJob ids => exact absurd rfl (hm ids)
    | killingDone ids acknowledge =>
      obtain ⟨u, hloop, rfl⟩ := serverOnKillingDone_effect h
      have hu : (u.job p).killRequested = (s.job p).killRequested := by
        refine forEach_unchanged (fun u : Sim => (u.job p).killRequested) ?_ hloop
        intro id _ v v' hstep
        obtain ⟨q, -, ⟨-, rfl⟩ | ⟨-, -, rfl⟩⟩ := countKilledJob_effect hstep <;> rfl
      cases acknowledge <;> exact hu
    | _ => cases hjobs

theorem finishJob_killRequested {s s' : Sim} {a : ExecutionActor} {returnCode : Int}
    (h : finishJob s a returnCode = .ok s') (p : JobPtr) :
    (s'.job p).killRequested = (s.job p).killRequested := by
  obtain ⟨j, machines, -, hkill, -, -, -, ⟨-, -, rfl⟩ | ⟨-, -, rfl⟩⟩ := finishJob_effect h
  · exact killRequested_setJob (s := s) rfl hkill p
  · refine Eq.trans ?_ (killRequested_setJob (s := s) (t := s.endJob a.allocation.job j machines)
      rfl hkill p)
    exact killRequested_setJob (s := (s.endJob a.allocation.job j machines).noteSilentEnd
      a.allocation.job) (by rfl) (by rfl) p

theorem executeTask_killRequested {s s' : Sim} {a : ExecutionActor} {step : TaskStep}
    (h : executeTask s a step = .ok s') (p : JobPtr) :
    (s'.job p).killRequested = (s.job p).killRequested := by
  obtain ⟨l, -, rfl⟩ | ⟨message, -, rfl⟩ | ⟨returnCode, -, hfinish⟩ := executeTask_effect h
  · rfl
  · rfl
  · exact finishJob_killRequested hfinish p

/-- An actor changes nothing about the kills that were requested; a job that it registers was
never met. -/
theorem runThread_killRequested {cfg : Config} {s s' : Sim} {o : Outcome} {t : Thread}
    (howned : s.workloads.Owned) (hserver : t.isServer = false)
    (h : runThread cfg s o t = .ok s') (p : JobPtr) :
    (s'.job p).killRequested = (s.job p).killRequested ∨
      (¬ s.workloads.Met p ∧ (s'.job p).killRequested = false) := by
  cases hactor : t.actor? with
  | none =>
    cases hkiller : t.isKiller with
    | true =>
      cases t with
      | killer ids acknowledge =>
        obtain ⟨u, hloop, rfl⟩ := killerProcess_effect h
        have hu : (u.job p).killRequested = (s.job p).killRequested := by
          refine forEach_unchanged (fun v : Sim => (v.job p).killRequested) ?_ hloop
          intro id _ v v' hstep
          obtain ⟨q, -, -, -, -, ⟨-, rfl⟩ |
            ⟨n, -, -, ⟨-, rfl⟩ | ⟨-, -, j, machines, -, hkill, -, -, -, -, rfl⟩⟩⟩ :=
            killJob_effect hstep
          · rfl
          · rfl
          · exact killRequested_setJob (s := v) (by rfl) hkill p
        exact .inl hu
      | _ => cases hkiller
    | false =>
      obtain ⟨new, hby⟩ := runThread_bystands howned hserver hactor hkiller h
      rw [hby.job]
      cases new with
      | none => exact .inl rfl
      | some x =>
        by_cases hp : p = x.1
        · subst hp
          exact .inr ⟨hby.registers.fresh x.1 rfl, by simp [(hby.blank x.1 x.2 rfl).1]⟩
        · exact .inl (by simp [hp])
  | some a =>
    cases t with
    | executeJob b =>
      cases o with
      | task step =>
        simp only [runThread, bind_eq_ok] at h
        obtain ⟨u, hu, h⟩ := h
        obtain ⟨machines, -, rfl⟩ := startJob_effect hu
        exact .inl ((executeTask_killRequested h p).trans
          (killRequested_setJob (s := s) (by rfl) (by rfl) p))
      | _ => simp [runThread] at h
    | executing b l =>
      cases o with
      | task step => exact .inl (executeTask_killRequested h p)
      | _ => simp [runThread] at h
    | cancelled b => exact .inl (finishJob_killRequested h p)
    | notified b =>
      simp only [runThread, Except.ok.injEq] at h
      subst h
      exact .inl (killRequested_setJob (s := s) (by rfl) (by rfl) p)
    | _ => cases hactor

/-! ### Jobs counted after a kill -/

theorem countKilledJob_buries {s s' : Sim} {id : JobIdentifier} (howned : s.workloads.Owned)
    (h : countKilledJob s id = .ok s') {p : JobPtr} (hp : p ∈ s'.history.countedKilled) :
    p ∈ s.history.countedKilled ∨ p = ptr id := by
  obtain ⟨q, hq, ⟨-, rfl⟩ | ⟨-, -, rfl⟩⟩ := countKilledJob_effect h
  · exact .inl hp
  · obtain rfl := howned.jobAt_ptr hq
    have happend : ((s.noteCountedKilled (ptr id)).completeJob (ptr id)).history.countedKilled =
        s.history.countedKilled ++ [ptr id] := rfl
    rw [happend, List.mem_append, List.mem_singleton] at hp
    exact hp

/-- Only the end of a killing makes jobs counted as killed. -/
theorem handleMessage_buries {cfg : Config} {s t : Sim} {m : IPMessage}
    (howned : s.workloads.Owned) (h : handleMessage cfg s m = .ok t) {p : JobPtr}
    (hp : p ∈ t.history.countedKilled) :
    p ∈ s.history.countedKilled ∨ ∃ ids, m.kills? = some ids ∧ ∃ id ∈ ids, p = ptr id := by
  cases hjobs : m.touchesJobs with
  | false =>
    obtain ⟨ts, hhandled⟩ := handleMessage_effect h
    exact .inl ((hhandled.jobs hjobs).countedKilled ▸ hp)
  | true =>
    cases m with
    | killingDone ids acknowledge =>
      obtain ⟨u, hloop, rfl⟩ := serverOnKillingDone_effect h
      have hu : p ∈ u.history.countedKilled := by cases acknowledge <;> exact hp
      let I : List JobIdentifier → Sim → Prop := fun done v =>
        v.workloads.Owned ∧ (p ∈ v.history.countedKilled →
          p ∈ s.history.countedKilled ∨ ∃ id ∈ done, p = ptr id)
      have hall : I ids u := by
        refine forEach_invariant I ⟨howned, .inl⟩ ?_ hloop
        intro done id rest v v' _ ⟨hown, hdone⟩ hstep
        refine ⟨?_, fun hin => ?_⟩
        · obtain ⟨q, -, ⟨-, rfl⟩ | ⟨-, -, rfl⟩⟩ := countKilledJob_effect hstep
          · exact hown
          · exact hown
        · cases countKilledJob_buries hown hstep hin with
          | inl hold =>
            exact (hdone hold).imp_right fun ⟨id', hid', hp'⟩ => ⟨id', by simp [hid'], hp'⟩
          | inr heq => exact .inr ⟨id, by simp, heq⟩
      exact (hall.2 hu).imp_right fun hids => ⟨ids, rfl, hids⟩
    | jobSubmitted name jobs =>
      obtain rfl | ⟨submitter, -, hloop⟩ := serverOnJobSubmitted_effect h
      · exact .inl hp
      · have hsame : t.history.countedKilled = s.history.countedKilled := by
          refine forEach_unchanged (fun u : Sim => u.history.countedKilled) ?_ hloop
          intro q _ u u' hstep
          obtain ⟨-, job, profile, rfl⟩ := submitJob_effect hstep
          simp only [logged, submit, track, noteResubmission, countSubmitted, setJob]
          split <;> split <;> rfl
        exact .inl (hsame ▸ hp)
    | jobRegisteredByDP q =>
      obtain rfl | ⟨job, profile, rfl⟩ := serverOnRegisterJob_effect h
      · exact .inl hp
      · exact .inl hp
    | jobCompleted q =>
      obtain ⟨submitter, -, rfl⟩ | ⟨-, hcount⟩ := serverOnJobCompleted_effect h
      · exact .inl hp
      · obtain ⟨-, -, rfl⟩ := countJobCompletion_effect hcount
        exact .inl hp
    | schedExecuteJob a =>
      obtain ⟨-, -, -, rfl⟩ := serverOnExecuteJob_effect h
      exact .inl hp
    | schedChangeJobState id state =>
      obtain ⟨q, -, -, -, -, rfl⟩ := serverOnChangeJobState_effect h
      exact .inl hp
    | schedRejectJob id =>
      obtain ⟨q, -, -, rfl⟩ := serverOnRejectJob_effect h
      exact .inl hp
    | schedKillJob ids =>
      obtain ⟨u, toKill, hloop, rfl⟩ := serverOnKillJobs_effect h
      obtain ⟨-, rfl⟩ := requestKills_effect howned hloop
      have hsame : (((s.requestKills toKill).noteKillRequest ids toKill).launchKiller
          toKill).history.countedKilled = s.history.countedKilled := by
        unfold launchKiller
        split <;> rfl
      exact .inl (hsame ▸ hp)
    | _ => cases hjobs

/-! ### Every state -/

/-- The jobs whose kill was requested are those given to killers, each to one and once. -/
structure KillsOnce (s : Sim) : Prop where
  nodup : (requestedKills s).Nodup
  requested : ∀ p, (s.job p).killRequested = true ↔ ∃ id ∈ requestedKills s, p = ptr id
  met : ∀ id ∈ requestedKills s, s.workloads.Met (ptr id)

/-- What is given to killers, and so what is known of it, does not change. -/
theorem KillsOnce.of_same {s s' : Sim} (h : KillsOnce s)
    (hkills : requestedKills s' = requestedKills s)
    (hjob : ∀ p, (s'.job p).killRequested = (s.job p).killRequested ∨
      (¬ s.workloads.Met p ∧ (s'.job p).killRequested = false))
    (hmet : ∀ p, s.workloads.Met p → s'.workloads.Met p) : KillsOnce s' := by
  refine ⟨hkills ▸ h.nodup, fun p => ?_, fun id hid => ?_⟩
  · rw [hkills]
    obtain hsame | ⟨hnot, hfalse⟩ := hjob p
    · rw [hsame]
      exact h.requested p
    · rw [hfalse]
      refine iff_of_false (by simp) ?_
      rintro ⟨id, hid, rfl⟩
      exact hnot (h.met id hid)
  · rw [hkills] at hid
    exact hmet _ (h.met id hid)

section runs

variable {cfg : Config} {guard : Sim → Choice → Prop} {s s' : Sim}

/-- The rest of a turn, once its message is handled. -/
theorem KillsOnce.endOfTurn {u : Sim} (h : KillsOnce u) (howned : u.workloads.Owned)
    (hend : endOfTurn cfg u = .ok s') : KillsOnce s' := by
  refine h.of_same (congrArg gathered (kill_flow.total_endOfTurn hend)) (fun p => .inl ?_)
    fun p hp => (endOfTurn_met hend howned p).mpr hp
  rw [(endOfTurn_hands hend).1]

/-- What a turn gives to killers, after the handling of its message. -/
theorem requestedKills_handled {m : IPMessage} {pool : Pool IPMessage Thread} {t : Sim}
    (hnext : s.pool.next? = some (.deliver m, pool))
    (ht : handleMessage cfg { s with pool := pool } m = .ok t) :
    ∃ ts : List Thread, t.pool.fresh = pool.fresh ++ ts ∧ (∀ u ∈ ts, u.launchedBy m = true) ∧
      requestedKills (t.noteHandled m) =
        gathered (ts.filterMap Thread.kills? : List (List JobIdentifier)) + requestedKills s := by
  obtain ⟨ts, hfresh, hts, hlabels⟩ := kill_flow.labels_handleMessage hnext ht
  obtain ⟨_, hhandled⟩ := handleMessage_effect ht
  refine ⟨ts, hfresh, hts, ?_⟩
  rw [requestedKills, Flow.total_noteHandled, Flow.total, ← add_assoc, hlabels,
    hhandled.keeps.handled, requestedKills, Flow.total, gathered_add, gathered_add, gathered_add,
    add_assoc]

/-- What a kill request leaves: the jobs whose kill is now requested, and their killer. -/
theorem serverOnKillJobs_given {ids : List JobIdentifier} (howned : s.workloads.Owned)
    (h : serverOnKillJobs s ids = .ok s') :
    ∃ toKill, Requests s ids toKill ∧
      (∀ p, (s'.job p).killRequested = true ↔
        (∃ id ∈ toKill, p = ptr id) ∨ (s.job p).killRequested = true) ∧
      s'.pool.fresh = s.pool.fresh ++ if toKill = [] then [] else [.killer toKill true] := by
  obtain ⟨u, toKill, hloop, rfl⟩ := serverOnKillJobs_effect h
  obtain ⟨hrequests, rfl⟩ := requestKills_effect howned hloop
  refine ⟨toKill, hrequests, fun p => ?_, ?_⟩
  · have hjob : (((s.requestKills toKill).noteKillRequest ids toKill).launchKiller toKill).job p =
        if p ∈ toKill.map ptr then { s.job p with killRequested := true } else s.job p := by
      unfold launchKiller
      split <;> rfl
    have hmem : p ∈ toKill.map ptr ↔ ∃ id ∈ toKill, p = ptr id := by
      simp only [List.mem_map, eq_comm]
    rw [hjob, ← hmem]
    split
    · next hp => exact iff_of_true rfl (.inl hp)
    · next hp => simp [hp]
  · unfold launchKiller
    split
    · simp [noteKillRequest, Sim.requestKills]
    · rfl

theorem gathered_killers (toKill : List JobIdentifier) :
    gathered ((if toKill = [] then [] else [.killer toKill true] : List Thread).filterMap
      Thread.kills? : List (List JobIdentifier)) = (toKill : Multiset JobIdentifier) := by
  split
  · next hnil =>
    rw [hnil]
    rfl
  · exact gathered_one toKill

theorem turn_killsOnce {m : IPMessage} {pool : Pool IPMessage Thread} (howned : s.workloads.Owned)
    (h : KillsOnce s) (hnext : s.pool.next? = some (.deliver m, pool))
    (hturn : turn cfg { s with pool := pool } m = .ok s') : KillsOnce s' := by
  obtain ⟨t, ht, hend⟩ := turn_cases hturn
  obtain ⟨ts, hfresh, hts, hkills⟩ := requestedKills_handled hnext ht
  obtain ⟨_, hhandled⟩ := handleMessage_effect ht
  have hworkloads : t.workloads = s.workloads := hhandled.keeps.workloads
  have hnoted : KillsOnce (t.noteHandled m) := by
    by_cases hm : ∃ ids, m = .schedKillJob ids
    · obtain ⟨ids, rfl⟩ := hm
      obtain ⟨toKill, hrequests, hjob, hkillers⟩ :=
        serverOnKillJobs_given (s := { s with pool := pool }) howned ht
      have hgiven : gathered (ts.filterMap Thread.kills? : List (List JobIdentifier)) =
          (toKill : Multiset JobIdentifier) := by
        have hts' := List.append_cancel_left (hfresh.symm.trans hkillers)
        rw [hts']
        exact gathered_killers toKill
      refine ⟨?_, fun p => ?_, fun id hid => ?_⟩
      · rw [hkills, hgiven]
        refine Multiset.nodup_add.mpr ⟨by simpa using hrequests.nodup, h.nodup, ?_⟩
        refine Multiset.disjoint_left.mpr fun {id} hnew hold => ?_
        have hfalse := hrequests.new id (by simpa using hnew)
        have htrue : (s.job (ptr id)).killRequested = true := (h.requested _).mpr ⟨id, hold, rfl⟩
        exact absurd (htrue.symm.trans hfalse) (by simp)
      · rw [show (t.noteHandled (.schedKillJob ids)).job = t.job from rfl, hjob p, hkills, hgiven]
        rw [show (({ s with pool := pool } : Sim).job p) = s.job p from rfl, h.requested p]
        simp only [Multiset.mem_add, Multiset.mem_coe]
        constructor
        · rintro (⟨id, hid, rfl⟩ | ⟨id, hid, rfl⟩)
          · exact ⟨id, .inl hid, rfl⟩
          · exact ⟨id, .inr hid, rfl⟩
        · rintro ⟨id, hid | hid, rfl⟩
          · exact .inl ⟨id, hid, rfl⟩
          · exact .inr ⟨id, hid, rfl⟩
      · rw [hkills, hgiven, Multiset.mem_add, Multiset.mem_coe] at hid
        rw [show (t.noteHandled (.schedKillJob ids)).workloads = s.workloads from hworkloads]
        obtain hid | hid := hid
        · exact (hrequests.stored id (hrequests.mem id hid)).met
        · exact h.met id hid
    · have hnone : ts.filterMap Thread.kills? = [] := by
        rw [List.filterMap_eq_nil_iff]
        intro u hu
        have hlaunched := hts u hu
        cases u <;> first | rfl | (cases m <;> first | exact absurd ⟨_, rfl⟩ hm | cases hlaunched)
      rw [hnone, Multiset.coe_nil, gathered_zero, zero_add] at hkills
      refine h.of_same hkills (fun p => .inl ?_) fun p hp => ?_
      · exact handleMessage_killRequested (fun ids heq => hm ⟨ids, heq⟩) ht p
      · rw [show (t.noteHandled m).workloads = s.workloads from hworkloads]
        exact hp
  obtain ⟨hback, rfl⟩ | ⟨-, hend⟩ := hend
  · obtain ⟨p, _, rfl, -⟩ := callsBack_eq_true.mp hback
    refine hnoted.of_same ?_ (fun _ => .inl rfl) fun _ hp => hp
    simp [requestedKills, Flow.total_noteHandled, IPMessage.kills?]
  · exact hnoted.endOfTurn (by rw [show (t.noteHandled m).workloads = s.workloads from hworkloads]
                               exact howned) hend

/-- In every state of every run, each job is given to at most one killer, and once. -/
theorem reaches_killsOnce (h : Reaches (batsim cfg) guard s) : KillsOnce s := by
  have hstart : requestedKills (start cfg) = 0 := by
    refine Multiset.eq_zero_of_forall_notMem fun id hid => ?_
    obtain ⟨ids, hids, -⟩ := mem_gathered.mp hid
    simp only [Flow.total, Pool.labels, start, Pool.threads, Pool.queue, List.filterMap_nil,
      List.map_nil, List.append_nil, List.nil_append, Multiset.coe_nil, add_zero,
      Multiset.mem_coe, List.mem_filterMap] at hids
    obtain ⟨t, ht, hkills⟩ := hids
    simp only [initialThreads, List.mem_append, List.mem_map, List.mem_singleton] at ht
    obtain ((⟨d, -, rfl⟩ | ⟨d, -, rfl⟩) | ⟨d, -, rfl⟩) | rfl := ht <;> cases hkills
  refine h.invariant (P := KillsOnce) ⟨?_, fun p => ?_, fun id hid => ?_⟩ ?_
  · exact hstart ▸ Multiset.nodup_zero
  · have hfalse : ((batsim cfg).start.job p).killRequested = false := by
      simp only [batsim, start, Config.job]
      split
      · rfl
      · split <;> rfl
    rw [hfalse]
    refine iff_of_false (by simp) ?_
    rintro ⟨id, hid, -⟩
    rw [show (batsim cfg).start = start cfg from rfl, hstart] at hid
    exact Multiset.notMem_zero id hid
  · rw [show (batsim cfg).start = start cfg from rfl, hstart] at hid
    exact absurd hid (Multiset.notMem_zero id)
  intro s s' c hr hs _ hstep
  have howned := reaches_owned hr
  cases step_kind hstep with
  | solve clock receive wakes rest order pool hcan hsolve hs' =>
    subst hs'
    refine hs.of_same (congrArg gathered ?_) (fun _ => .inl rfl) fun _ hp => hp
    rw [Flow.total, Flow.total, Pool.labels_solve _ _ hsolve]
  | turn o m pool hnext hturn => exact turn_killsOnce howned hs hnext hturn
  | callback o p mailbox pool hnext hrun =>
    obtain ⟨t, ht, hend⟩ := serverCallback_cases hrun
    obtain ⟨hkeeps, -, hpool, -⟩ := serverOnCallbackReceived_frame ht
    have hworkloads : t.workloads = s.workloads := hkeeps.workloads
    have hnoted : KillsOnce (t.noteHandled (.jobCompleted p)) := by
      obtain ⟨-, -, htis⟩ := serverOnCallbackReceived_effect ht
      refine hs.of_same (congrArg gathered ?_) (fun q => .inl ?_) fun q hq => ?_
      · have hlabels := Pool.labels_resume Thread.kills? IPMessage.kills? hnext
        rw [Flow.total_noteHandled, Flow.total, hkeeps.handled, hpool, Flow.total, hlabels]
        simp [IPMessage.kills?, Thread.kills?]
      · rw [htis]
        rfl
      · rw [show (t.noteHandled (.jobCompleted p)).workloads = s.workloads from hworkloads]
        exact hq
    refine hnoted.endOfTurn ?_ hend
    rw [show (t.noteHandled (.jobCompleted p)).workloads = s.workloads from hworkloads]
    exact howned
  | start o pool hnext hrun =>
    have hlabels := kill_flow.labels_start hnext hrun
    refine hs.of_same (congrArg gathered ?_) (fun q => .inl ?_) fun q hq => ?_
    · rw [Flow.total, Flow.total, hlabels, serverProcess_effect hrun]
      rfl
    · rw [serverProcess_effect hrun]
      rfl
    · rw [serverProcess_effect hrun]
      exact hq
  | actor o t pool ht hnext hrun =>
    have hlabels := kill_flow.labels_actor hr ht hnext hrun
    obtain ⟨-, hkeeps⟩ := runThread_moves (s := { s with pool := pool }) howned ht hrun
    obtain ⟨new, hregisters⟩ := runThread_registers (s := { s with pool := pool }) howned ht hrun
    refine hs.of_same (congrArg gathered ?_)
      (runThread_killRequested (s := { s with pool := pool }) howned ht hrun) fun q hq => ?_
    · rw [Flow.total, Flow.total, hlabels, hkeeps.handled]
    · exact (hregisters.met q).mpr (.inl hq)

/-- The killing of a job that is counted as killed is done. -/
def BuriedDone (s : Sim) : Prop :=
  ∀ p ∈ s.history.countedKilled, ∃ id ∈ doneKills s, p = ptr id

theorem doneKills_noteHandled (s : Sim) (m : IPMessage) :
    doneKills (s.noteHandled m) =
      doneKills s + gathered ((m.kills?).toList : List (List JobIdentifier)) := by
  have hhandled : (s.noteHandled m).history.handled = s.history.handled ++ [m] := rfl
  rw [doneKills, doneKills, hhandled, List.filterMap_append, ← Multiset.coe_add, gathered_add]
  cases hkills : m.kills? <;> simp [hkills]

theorem BuriedDone.of_same {s s' : Sim} (h : BuriedDone s)
    (hcounted : s'.history.countedKilled = s.history.countedKilled)
    (hhandled : s'.history.handled = s.history.handled) : BuriedDone s' := by
  intro p hp
  rw [hcounted] at hp
  rw [doneKills, hhandled]
  exact h p hp

theorem BuriedDone.noteHandled {s : Sim} (h : BuriedDone s) (m : IPMessage) :
    BuriedDone (s.noteHandled m) := by
  intro p hp
  obtain ⟨id, hid, heq⟩ := h p hp
  refine ⟨id, ?_, heq⟩
  rw [doneKills_noteHandled]
  exact Multiset.mem_add.mpr (.inl hid)

theorem BuriedDone.endOfTurn {u : Sim} (h : BuriedDone u) (hend : endOfTurn cfg u = .ok s') :
    BuriedDone s' := by
  obtain rfl | ⟨workloads, hflush⟩ | hfinish := endOfTurn_cases hend
  · exact h
  · rw [hflush.eq]
    exact h
  · rw [hfinish.eq]
    exact h

theorem reaches_buriedDone (h : Reaches (batsim cfg) guard s) : BuriedDone s := by
  refine h.invariant (P := BuriedDone) (fun p hp => by cases hp) ?_
  intro s s' c hr hs _ hstep
  have howned := reaches_owned hr
  cases step_kind hstep with
  | solve clock receive wakes rest order pool hcan hsolve hs' =>
    subst hs'
    exact hs
  | turn o m pool hnext hturn =>
    obtain ⟨t, ht, hend⟩ := turn_cases hturn
    obtain ⟨ts, hhandled⟩ := handleMessage_effect ht
    obtain ⟨hback, rfl⟩ | ⟨-, hend⟩ := hend
    · obtain ⟨p, submitter, -, -, rfl⟩ := handleMessage_callsBack hback ht
      exact hs
    · refine BuriedDone.endOfTurn (u := t.noteHandled m) (fun p hp => ?_) hend
      have hold : doneKills t = doneKills s := by
        rw [doneKills, hhandled.keeps.handled]
        rfl
      rw [doneKills_noteHandled, hold]
      cases handleMessage_buries (s := { s with pool := pool }) howned ht hp with
      | inl hp =>
        obtain ⟨id, hid, heq⟩ := hs p hp
        exact ⟨id, Multiset.mem_add.mpr (.inl hid), heq⟩
      | inr hkilled =>
        obtain ⟨ids, hids, id, hid, heq⟩ := hkilled
        refine ⟨id, Multiset.mem_add.mpr (.inr ?_), heq⟩
        rw [hids, Option.toList_some, gathered_one]
        exact Multiset.mem_coe.mpr hid
  | callback o p mailbox pool hnext hrun =>
    obtain ⟨t, ht, hend⟩ := serverCallback_cases hrun
    obtain ⟨-, -, rfl⟩ := serverOnCallbackReceived_effect ht
    exact BuriedDone.endOfTurn (BuriedDone.noteHandled (hs.of_same (by rfl) (by rfl)) _) hend
  | start o pool hnext hrun =>
    rw [serverProcess_effect hrun]
    exact hs
  | actor o t pool ht hnext hrun =>
    obtain ⟨-, hkeeps⟩ := runThread_moves (s := { s with pool := pool }) howned ht hrun
    exact hs.of_same hkeeps.countedKilled hkeeps.handled

/-- What a killer brings back was not brought before. -/
theorem killingDone_new (h : Reaches (batsim cfg) guard s) {m : IPMessage} {ids : List JobIdentifier}
    {pool : Pool IPMessage Thread} (hnext : s.pool.next? = some (.deliver m, pool))
    (hm : m.kills? = some ids) :
    ids.Nodup ∧ ∀ id ∈ ids, ptr id ∉ s.history.countedKilled := by
  have hnodup := (reaches_killsOnce h).nodup
  have hlabels := Pool.labels_deliver Thread.kills? IPMessage.kills? hnext
  rw [requestedKills_eq, heldKills, hlabels, hm, gathered_add, Option.toList_some,
    gathered_one, add_assoc] at hnodup
  obtain ⟨hids, -, hdisjoint⟩ := Multiset.nodup_add.mp hnodup
  refine ⟨Multiset.coe_nodup.mp hids, fun id hid hcounted => ?_⟩
  obtain ⟨id', hid', heq⟩ := reaches_buriedDone h _ hcounted
  have hsame : id = id' := congrArg JobPtr.id heq
  exact Multiset.disjoint_left.mp hdisjoint (by simpa using hid)
    (Multiset.mem_add.mpr (.inr (hsame ▸ hid')))

end runs

end Batsim
