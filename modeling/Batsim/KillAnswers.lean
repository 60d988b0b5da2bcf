import Batsim.AppendedEvents
import Batsim.JobCounts

/-!
The answers to kill requests: how many, for which jobs, and after which ends of jobs.
-/

namespace Batsim

open Checked Workloads Sim StepSystem

/-! ### Requests, killers and answers -/

def IPMessage.killRequest? : IPMessage → Option (List JobIdentifier)
  | schedKillJob ids => some ids
  | _ => none

def ProtocolEvent.killed? : ProtocolEvent → Option (List JobIdentifier)
  | .jobKilled ids => some ids
  | _ => none

namespace Sim

/-- The lists of jobs given to killers, one for each request that has any new job. -/
def killsGiven (s : Sim) : List (List JobIdentifier) :=
  (s.history.killRequests.map Prod.snd).filter (· ≠ [])

/-- The lists that killers hold, or that they have left to the server. -/
def killsHeld (s : Sim) : Multiset (List JobIdentifier) :=
  s.pool.labels Thread.kills? IPMessage.kills?

/-- The lists of the `JOB_KILLED` events. -/
def killsTold (s : Sim) : List (List JobIdentifier) :=
  s.history.appended.filterMap fun e => e.event.killed?

theorem killsTold_append {s s' : Sim} {e : DatedEvent}
    (happended : s'.history.appended = s.history.appended ++ [e]) (he : e.event.killed? = none) :
    s'.killsTold = s.killsTold := by
  rw [killsTold, happended, List.filterMap_append, killsTold]
  simp [he]

end Sim

/-- What the server knows of the kills. -/
structure KillBook (s : Sim) : Prop where
  heard : s.history.killRequests.map Prod.fst = s.history.handled.filterMap IPMessage.killRequest?
  given : Flow.total Thread.killing? IPMessage.killing? s =
    (s.killsGiven.map fun ids => (ids, true) : List (List JobIdentifier × Bool))
  told : s.history.handled.filterMap IPMessage.kills? = s.killsTold
  covered : ∀ r ∈ s.history.killRequests, ∀ id ∈ r.1, id ∈ s.killsGiven.flatten

/-- Nothing about kills happens. -/
theorem KillBook.of_same {s s' : Sim} (h : KillBook s)
    (hrequests : s'.history.killRequests = s.history.killRequests)
    (hhandled : ∀ {A : Type} (f : IPMessage → Option A), (∀ p, f (.jobCompleted p) = none) →
      s'.history.handled.filterMap f = s.history.handled.filterMap f)
    (hlabels : s'.pool.labels Thread.killing? IPMessage.killing? =
      s.pool.labels Thread.killing? IPMessage.killing?)
    (htold : s'.killsTold = s.killsTold) : KillBook s' := by
  have hlists : s'.killsGiven = s.killsGiven := by rw [killsGiven, hrequests, killsGiven]
  refine ⟨?_, ?_, ?_, ?_⟩
  · rw [hrequests, hhandled _ fun _ => rfl, h.heard]
  · rw [Flow.total, hlabels, hhandled _ fun _ => rfl, hlists]
    exact h.given
  · rw [hhandled _ fun _ => rfl, htold, h.told]
  · rw [hrequests, hlists]
    exact h.covered

/-- The jobs given to killers are those of the lists. -/
theorem KillBook.requestedKills {s : Sim} (h : KillBook s) :
    requestedKills s = (s.killsGiven.flatten : Multiset JobIdentifier) := by
  have hfst := congrArg (Multiset.map Prod.fst) h.given
  rw [Flow.total, Multiset.map_add, ← Pool.labels_map, Multiset.map_coe, Multiset.map_coe,
    List.map_filterMap, ← Thread.kills_eq, ← IPMessage.kills_eq] at hfst
  rw [Batsim.requestedKills, Flow.total, hfst, gathered, Multiset.coe_bind, List.map_map]
  simp [List.flatMap, Function.comp_def]

section runs

variable {cfg : Config} {guard : Sim → Choice → Prop} {s s' : Sim}

theorem KillBook.endOfTurn {u : Sim} (h : KillBook u) (hend : endOfTurn cfg u = .ok s') :
    KillBook s' := by
  obtain ⟨hhandled, -, last, happended, hlast⟩ := endOfTurn_appended hend
  have htold : s'.killsTold = u.killsTold := by
    rw [killsTold, happended, List.filterMap_append, killsTold]
    obtain rfl | rfl := hlast <;> simp [ProtocolEvent.killed?]
  have hsame : s'.history.killRequests = u.history.killRequests := by
    obtain rfl | ⟨workloads, hflush⟩ | hfinish := endOfTurn_cases hend
    · rfl
    · rw [hflush.eq]
      rfl
    · rw [hfinish.eq]
      rfl
  exact h.of_same hsame (fun f _ => by rw [hhandled]) (killing_flow.labels_endOfTurn hend) htold

/-- The handling of a message that is no request leaves the requests as they are. -/
theorem killRequests_of_other {t : Sim} {m : IPMessage} (hm : m.killRequest? = none)
    (h : handleMessage cfg s m = .ok t) : t.history.killRequests = s.history.killRequests := by
  cases hjobs : m.touchesJobs with
  | false =>
    obtain ⟨ts, hhandled⟩ := handleMessage_effect h
    exact (hhandled.jobs hjobs).killRequests
  | true =>
    cases m with
    | jobSubmitted name jobs =>
      obtain rfl | ⟨submitter, -, hloop⟩ := serverOnJobSubmitted_effect h
      · rfl
      · refine forEach_unchanged (fun u : Sim => u.history.killRequests) ?_ hloop
        intro q _ u u' hstep
        obtain ⟨-, job, profile, rfl⟩ := submitJob_effect hstep
        simp only [logged, submit, track, noteResubmission, countSubmitted, setJob]
        split <;> split <;> rfl
    | jobRegisteredByDP q =>
      obtain rfl | ⟨job, profile, rfl⟩ := serverOnRegisterJob_effect h <;> rfl
    | jobCompleted q =>
      obtain ⟨submitter, -, rfl⟩ | ⟨-, hcount⟩ := serverOnJobCompleted_effect h
      · rfl
      · obtain ⟨-, -, rfl⟩ := countJobCompletion_effect hcount
        rfl
    | schedExecuteJob a =>
      obtain ⟨-, -, -, rfl⟩ := serverOnExecuteJob_effect h
      rfl
    | schedChangeJobState id state =>
      obtain ⟨q, -, -, -, -, rfl⟩ := serverOnChangeJobState_effect h
      rfl
    | schedRejectJob id =>
      obtain ⟨q, -, -, rfl⟩ := serverOnRejectJob_effect h
      rfl
    | schedKillJob ids => cases hm
    | killingDone ids acknowledge =>
      obtain ⟨u, hloop, rfl⟩ := serverOnKillingDone_effect h
      have hu : u.history.killRequests = s.history.killRequests := by
        refine forEach_unchanged (fun v : Sim => v.history.killRequests) ?_ hloop
        intro id _ v v' hstep
        obtain ⟨q, -, ⟨-, rfl⟩ | ⟨-, -, rfl⟩⟩ := countKilledJob_effect hstep <;> rfl
      cases acknowledge <;> exact hu
    | _ => cases hjobs

/-- What a request adds to the book. -/
theorem serverOnKillJobs_book {t : Sim} {ids : List JobIdentifier} (howned : s.workloads.Owned)
    (h : serverOnKillJobs s ids = .ok t) :
    ∃ toKill, Requests s ids toKill ∧
      t.history.killRequests = s.history.killRequests ++ [(ids, toKill)] ∧
      t.pool = { s.pool with
        fresh := s.pool.fresh ++ if toKill = [] then [] else [.killer toKill true]
        blocked := s.pool.blocked ++ [] } := by
  obtain ⟨u, toKill, hloop, rfl⟩ := serverOnKillJobs_effect h
  obtain ⟨hrequests, rfl⟩ := requestKills_effect howned hloop
  refine ⟨toKill, hrequests, ?_, ?_⟩ <;> unfold launchKiller <;> split <;>
    simp [noteKillRequest, Sim.requestKills, Pool.spawn]

theorem serverOnKillingDone_book {t : Sim} {ids : List JobIdentifier} {acknowledge : Bool}
    (h : serverOnKillingDone s ids acknowledge = .ok t) :
    t.pool = s.pool ∧
      t.killsTold = s.killsTold ++ if acknowledge then [ids] else [] := by
  obtain ⟨u, hloop, rfl⟩ := serverOnKillingDone_effect h
  have hpool : u.pool = s.pool := by
    refine forEach_unchanged (fun v : Sim => v.pool) ?_ hloop
    intro id _ v v' hstep
    obtain ⟨q, -, ⟨-, rfl⟩ | ⟨-, -, rfl⟩⟩ := countKilledJob_effect hstep <;> rfl
  have htold : u.killsTold = s.killsTold := by
    refine forEach_unchanged (fun v : Sim => v.killsTold) ?_ hloop
    intro id _ v v' hstep
    obtain ⟨es, happended, hes⟩ := (countKilledJob_appends hstep).events
    have hnone : es.filterMap (fun e => e.event.killed?) = [] := by
      refine List.filterMap_eq_nil_iff.mpr fun e he => ?_
      obtain ⟨q, state, alloc, code, hevent⟩ := (hes e he).2
      rw [hevent]
      rfl
    rw [killsTold, happended, List.filterMap_append, hnone, List.append_nil, killsTold]
  refine ⟨?_, ?_⟩
  · cases acknowledge <;> exact hpool
  · rw [← htold]
    cases acknowledge
    · exact (List.append_nil _).symm
    · exact List.filterMap_append

/-- Only the end of a killing is answered. -/
theorem handleMessage_killed {t : Sim} {m : IPMessage} (hdone : m.killing? = none)
    (h : handleMessage cfg s m = .ok t) :
    ∃ es, t.history.appended = s.history.appended ++ es ∧ ∀ e ∈ es, e.event.killed? = none := by
  obtain ⟨es, happended, hes⟩ := (handleMessage_appends h).events
  refine ⟨es, happended, fun e he => ?_⟩
  have hmay := (hes e he).2
  cases hevent : e.event with
  | jobKilled ids =>
    rw [hevent] at hmay
    cases m with
    | killingDone ids' acknowledge => cases hdone
    | submitterBye name type isWorkflow =>
      cases type <;> simp [IPMessage.mayAppend, SubmitterType.endNotification] at hmay
    | _ => simp [IPMessage.mayAppend, ProtocolEvent.isExternal] at hmay
  | _ => rfl

/-- Any other message. -/
theorem killers_of_other {t : Sim} {m : IPMessage} {pool : Pool IPMessage Thread}
    (hrequest : m.killRequest? = none) (hdone : m.killing? = none)
    (hnext : s.pool.next? = some (.deliver m, pool))
    (h : handleMessage cfg { s with pool := pool } m = .ok t) :
    t.pool.labels Thread.killing? IPMessage.killing? =
        s.pool.labels Thread.killing? IPMessage.killing? ∧
      t.killsTold = s.killsTold := by
  obtain ⟨ts, hfresh, hts, hlabels⟩ := killing_flow.labels_handleMessage hnext h
  have hnone : ∀ u : Thread, u.launchedBy m = true → u.isKiller = false := by
    intro u hu
    cases u with
    | killer ids acknowledge =>
      cases m with
      | schedKillJob _ => cases hrequest
      | _ => cases hu
    | _ => rfl
  refine ⟨?_, ?_⟩
  · have hnil : ts.filterMap Thread.killing? = [] := by
      refine List.filterMap_eq_nil_iff.mpr fun u hu => ?_
      have hquiet := hnone u (hts u hu)
      cases u <;> first | rfl | cases hquiet
    rw [hdone, hnil] at hlabels
    simpa using hlabels
  · obtain ⟨es, happended, hquiet⟩ := handleMessage_killed hdone h
    rw [killsTold, happended, List.filterMap_append, List.filterMap_eq_nil_iff.mpr hquiet,
      List.append_nil]
    rfl

theorem KillBook.turn {m : IPMessage} {pool : Pool IPMessage Thread} (howned : s.workloads.Owned)
    (honce : KillsOnce s) (hs : KillBook s) (hnext : s.pool.next? = some (.deliver m, pool))
    (hturn : turn cfg { s with pool := pool } m = .ok s') : KillBook s' := by
  obtain ⟨t, ht, hend⟩ := turn_cases hturn
  have hlabels := Pool.labels_deliver Thread.killing? IPMessage.killing? hnext
  obtain ⟨_, hhandled⟩ := handleMessage_effect ht
  have hsplit : ∀ {A : Type} (f : IPMessage → Option A),
      (t.noteHandled m).history.handled.filterMap f =
        s.history.handled.filterMap f ++ (f m).toList := by
    intro A f
    have hsame : t.history.handled = s.history.handled := hhandled.keeps.handled
    cases hf : f m <;> simp [noteHandled, hsame, hf]
  have hgiven := hs.given
  rw [Flow.total] at hgiven
  suffices hnoted : KillBook (t.noteHandled m) by
    obtain ⟨hback, rfl⟩ | ⟨-, hend⟩ := hend
    · obtain ⟨p, submitter, rfl, -, -⟩ := handleMessage_callsBack hback ht
      refine hnoted.of_same rfl ?_ rfl rfl
      intro A f hf
      simp [noteHandled, hf p]
    · exact hnoted.endOfTurn hend
  by_cases hrequest : m.killRequest? = none
  · have hrequests : t.history.killRequests = s.history.killRequests :=
      killRequests_of_other (s := { s with pool := pool }) hrequest ht
    have hheard : (t.noteHandled m).history.killRequests.map Prod.fst =
        (t.noteHandled m).history.handled.filterMap IPMessage.killRequest? := by
      rw [hsplit, hrequest, Option.toList_none, List.append_nil, ← hs.heard]
      exact congrArg (List.map Prod.fst) hrequests
    have hlists : (t.noteHandled m).killsGiven = s.killsGiven := by
      rw [killsGiven, killsGiven]
      exact congrArg (fun l => (l.map Prod.snd).filter (· ≠ [])) hrequests
    have hcovered : ∀ r ∈ (t.noteHandled m).history.killRequests, ∀ id ∈ r.1,
        id ∈ (t.noteHandled m).killsGiven.flatten := by
      rw [hlists]
      exact hrequests ▸ hs.covered
    by_cases hdone : m.killing? = none
    · obtain ⟨hheld, htold⟩ := killers_of_other hrequest hdone hnext ht
      have hkills : m.kills? = none := by simp [IPMessage.kills_eq, hdone]
      refine ⟨hheard, ?_, ?_, hcovered⟩
      · rw [Flow.total, hsplit, hdone, hlists, ← hgiven, Option.toList_none, List.append_nil]
        exact congrArg (· + _) hheld
      · rw [hsplit, hkills, Option.toList_none, List.append_nil, hs.told]
        exact htold.symm
    · cases m with
      | killingDone ids acknowledge =>
        obtain ⟨hpool, htold⟩ := serverOnKillingDone_book (s := { s with pool := pool }) ht
        rw [hlabels] at hgiven
        have hack : acknowledge = true := by
          have hmem : (ids, acknowledge) ∈ s.killsGiven.map fun ids => (ids, true) := by
            rw [← Multiset.mem_coe, ← hgiven]
            simp [IPMessage.killing?]
          obtain ⟨_, -, heq⟩ := List.mem_map.mp hmem
          exact (congrArg Prod.snd heq).symm
        subst hack
        have hheld : (t.noteHandled (.killingDone ids true)).pool = pool := hpool
        refine ⟨hheard, ?_, ?_, hcovered⟩
        · rw [Flow.total, hsplit, hheld, hlists, ← hgiven, ← Multiset.coe_add]
          ac_rfl
        · rw [hsplit, hs.told]
          exact htold.symm
      | _ => exact absurd rfl hdone
  · cases m with
    | schedKillJob ids =>
      obtain ⟨toKill, hasked, hrequests, hpool⟩ :=
        serverOnKillJobs_book (s := { s with pool := pool }) howned ht
      have hkillers : ((if toKill = [] then [] else [.killer toKill true] : List Thread) ++
          []).filterMap Thread.killing? = if toKill = [] then [] else [(toKill, true)] := by
        split <;> rfl
      have hheld : t.pool.labels Thread.killing? IPMessage.killing? =
          ((if toKill = [] then [] else [(toKill, true)] : List _) : Multiset _) +
            s.pool.labels Thread.killing? IPMessage.killing? := by
        rw [Pool.labels_of_eq _ _ hpool, hkillers, hlabels]
        simp [IPMessage.killing?]
      have hlists : (t.noteHandled (.schedKillJob ids)).killsGiven =
          s.killsGiven ++ if toKill = [] then [] else [toKill] := by
        rw [killsGiven, killsGiven, show (t.noteHandled (.schedKillJob ids)).history.killRequests =
          s.history.killRequests ++ [(ids, toKill)] from hrequests, List.map_append,
          List.filter_append]
        by_cases hnil : toKill = [] <;> simp [hnil]
      refine ⟨?_, ?_, ?_, ?_⟩
      · rw [hsplit, ← hs.heard, show (t.noteHandled (.schedKillJob ids)).history.killRequests =
          s.history.killRequests ++ [(ids, toKill)] from hrequests, List.map_append]
        rfl
      · rw [Flow.total, hsplit, hlists, List.map_append,
          ← Multiset.coe_add (s.killsGiven.map fun ids => (ids, true)), ← hgiven]
        have hhere : (t.noteHandled (.schedKillJob ids)).pool = t.pool := rfl
        rw [hhere, hheld]
        split
        · simp [IPMessage.killing?, add_comm]
        · simp [IPMessage.killing?, add_comm, add_assoc]
      · rw [hsplit, hs.told]
        obtain ⟨-, happended⟩ := serverOnKillJobs_appended ht
        rw [killsTold, killsTold, show (t.noteHandled (.schedKillJob ids)).history.appended =
          s.history.appended from happended]
        exact List.append_nil _
      · intro r hr id hid
        rw [hlists, List.flatten_append, List.mem_append]
        rw [show (t.noteHandled (.schedKillJob ids)).history.killRequests =
          s.history.killRequests ++ [(ids, toKill)] from hrequests, List.mem_append,
          List.mem_singleton] at hr
        obtain hold | rfl := hr
        · exact .inl (hs.covered r hold id hid)
        · obtain hnew | hold := hasked.covered id hid
          · refine .inr ?_
            rw [if_neg (List.ne_nil_of_mem hnew)]
            simpa using hnew
          · refine .inl ?_
            obtain ⟨id', hid', heq⟩ := (honce.requested (ptr id)).mp hold
            obtain rfl : id = id' := congrArg JobPtr.id heq
            exact Multiset.mem_coe.mp (hs.requestedKills ▸ hid')
    | _ => exact absurd rfl hrequest

theorem initialThreads_killing (cfg : Config) : ∀ t ∈ initialThreads cfg, t.killing? = none := by
  intro t ht
  simp only [initialThreads, List.mem_append, List.mem_map, List.mem_singleton] at ht
  obtain ((⟨d, -, rfl⟩ | ⟨d, -, rfl⟩) | ⟨d, -, rfl⟩) | rfl := ht <;> rfl

theorem killer_counts : Counts Thread.killing? IPMessage.killing? fun s => s.data.nbKillers where
  flow := killing_flow
  same h := h.nbKillers
  handled {m s s' ts} h := by
    have hthread : ∀ t : Thread, t.killing?.isSome = t.isKiller := fun t => by cases t <;> rfl
    have hmessage : m.killing?.isSome = m.endsKiller := by cases m <;> rfl
    simp only [hthread, hmessage]
    exact h.nbKillers

/-- `nb_killers` is the number of the killers whose end the server has not handled. -/
theorem reaches_nbKillers (h : Reaches (batsim cfg) guard s) :
    s.data.nbKillers = (s.pool.labels Thread.killing? IPMessage.killing?).card :=
  killer_counts.reaches rfl (initialThreads_killing cfg) h

theorem reaches_killBook (h : Reaches (batsim cfg) guard s) : KillBook s := by
  have hnone : (initialThreads cfg).filterMap Thread.killing? = [] :=
    List.filterMap_eq_nil_iff.mpr (initialThreads_killing cfg)
  have hstart : (start cfg).pool.labels Thread.killing? IPMessage.killing? = 0 := by
    simp [Pool.labels, start, Pool.threads, Pool.queue, hnone]
  refine h.invariant (P := KillBook) ⟨rfl, ?_, rfl, by simp [batsim, start]⟩ ?_
  · rw [Flow.total, show (batsim cfg).start = start cfg from rfl, hstart]
    rfl
  intro s s' c hr hs _ hstep
  have howned := reaches_owned hr
  cases step_kind hstep with
  | solve clock receive wakes rest order pool hcan hsolve hs' =>
    subst hs'
    exact hs.of_same rfl (fun _ _ => rfl) (Pool.labels_solve _ _ hsolve) rfl
  | turn o m pool hnext hturn => exact hs.turn howned (reaches_killsOnce hr) hnext hturn
  | callback o p mailbox pool hnext hrun =>
    obtain ⟨t, ht, hend⟩ := serverCallback_cases hrun
    obtain ⟨hkeeps, -, hpool, -⟩ := serverOnCallbackReceived_frame ht
    have hnoted : KillBook (t.noteHandled (.jobCompleted p)) := by
      have hsame : t.history.handled = s.history.handled := hkeeps.handled
      obtain ⟨-, -, rfl⟩ := serverOnCallbackReceived_effect ht
      refine hs.of_same rfl ?_ ?_ (killsTold_append rfl rfl)
      · intro A f hf
        simp [noteHandled, hf p, hsame]
      · have hlabels := Pool.labels_resume Thread.killing? IPMessage.killing? hnext
        rw [hlabels]
        exact (zero_add _).symm
    exact hnoted.endOfTurn hend
  | start o pool hnext hrun =>
    have hlabels := killing_flow.labels_start hnext hrun
    rw [serverProcess_effect hrun] at hlabels ⊢
    exact hs.of_same rfl (fun _ _ => rfl) hlabels (killsTold_append rfl rfl)
  | actor o t pool ht hnext hrun =>
    have hlabels := killing_flow.labels_actor hr ht hnext hrun
    obtain ⟨-, hkeeps⟩ := runThread_moves (s := { s with pool := pool }) howned ht hrun
    refine hs.of_same hkeeps.killRequests (fun f _ => by rw [hkeeps.handled]) hlabels ?_
    rw [killsTold, hkeeps.appended]
    rfl

/-- In every state of every run, the answers to kill requests are the lists of jobs given to
killers, but for those that the killers still hold: one answer for each request that names a job
not named before, no job twice, and no job of any request forgotten. -/
theorem kills_answered (h : Reaches (batsim cfg) guard s) :
    (s.killsGiven : Multiset (List JobIdentifier)) = s.killsHeld + (s.killsTold : List _) ∧
      s.data.nbKillers = s.killsHeld.card ∧ s.killsGiven.flatten.Nodup ∧
      ∀ ids, .schedKillJob ids ∈ s.history.handled → ∀ id ∈ ids, id ∈ s.killsGiven.flatten := by
  have hbook := reaches_killBook h
  have hheld : s.killsHeld =
      (s.pool.labels Thread.killing? IPMessage.killing?).map Prod.fst := by
    rw [killsHeld, Thread.kills_eq, IPMessage.kills_eq, Pool.labels_map]
  refine ⟨?_, ?_, ?_, ?_⟩
  · have hfst := congrArg (Multiset.map Prod.fst) hbook.given
    rw [Flow.total, Multiset.map_add, ← hheld, Multiset.map_coe, Multiset.map_coe,
      List.map_filterMap, ← IPMessage.kills_eq, hbook.told] at hfst
    simpa [Function.comp_def] using hfst.symm
  · rw [hheld, Multiset.card_map]
    exact reaches_nbKillers h
  · have hnodup := (reaches_killsOnce h).nodup
    rwa [hbook.requestedKills, Multiset.coe_nodup] at hnodup
  · intro ids hids id hid
    have hrequest : ids ∈ s.history.killRequests.map Prod.fst := by
      rw [hbook.heard]
      exact List.mem_filterMap.mpr ⟨_, hids, rfl⟩
    obtain ⟨r, hr, rfl⟩ := List.mem_map.mp hrequest
    exact hbook.covered r hr id hid

end runs

theorem killed_job_answered : ∃ s : Sim, s.history.countedKilled = [ptr loneJob] ∧
    (s.killsGiven : Multiset (List JobIdentifier)) = s.killsHeld + (s.killsTold : List _) ∧
      s.data.nbKillers = s.killsHeld.card ∧ s.killsGiven.flatten.Nodup ∧
      ∀ ids, .schedKillJob ids ∈ s.history.handled →
        ∀ id ∈ ids, id ∈ s.killsGiven.flatten := by
  obtain ⟨s, past, hvisits, -, hkilled⟩ := exists_killed_run
  exact ⟨s, hkilled, kills_answered hvisits.reaches⟩

end Batsim
