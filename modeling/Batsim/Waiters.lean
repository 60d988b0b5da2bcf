import Mathlib.Algebra.Order.Ring.Rat
import Mathlib.Tactic.Linarith
import Batsim.Flows
import Batsim.AppendedEvents
import Batsim.Lib.Promises

/-!
The requests of the scheduler to be called later, and how each of them is answered.
-/

namespace Batsim

open Checked Sim StepSystem

/-- The date before which a waiter does not wake up. -/
def Thread.wakes? : Thread → Option Date
  | waiter date | waiting date => some date
  | _ => none

def IPMessage.target? : IPMessage → Option Date
  | schedCallMeLater date => some date
  | _ => none

def IPMessage.waited? : IPMessage → Option Unit
  | waitingDone => some ()
  | _ => none

/-- The date of a call that the scheduler asked for. -/
def DatedEvent.call? (e : DatedEvent) : Option Date :=
  if e.event = .requestedCall then some e.timestamp else none

/-- The dates at which the living waiters wake up. -/
def waiters (p : Pool IPMessage Thread) : Multiset Date :=
  p.labels Thread.wakes? fun _ => none

/-- How many messages of waiters are on their way. -/
def nbWaitingDone (p : Pool IPMessage Thread) : Nat :=
  (p.labels (fun _ => none) IPMessage.waited?).card

theorem waiters_eq (p : Pool IPMessage Thread) :
    waiters p = (p.threads.filterMap Thread.wakes? : List Date) := by
  simp [waiters, Pool.labels]

theorem card_waiters (p : Pool IPMessage Thread) : (waiters p).card = p.count Thread.isWaiter := by
  have hwakes : ∀ t : Thread, (t.wakes?).isSome = t.isWaiter := by
    intro t
    cases t <;> rfl
  rw [waiters_eq, Multiset.coe_card, List.length_filterMap_eq_countP, Pool.count]
  exact List.countP_congr fun t _ => by rw [hwakes]

theorem nbWaitingDone_eq (p : Pool IPMessage Thread) :
    nbWaitingDone p = p.queue.count .waitingDone := by
  have hwaited : ∀ m : IPMessage, (m.waited?).isSome = (m == .waitingDone) := by
    intro m
    cases m <;> rfl
  simp only [nbWaitingDone, Pool.labels, List.filterMap_none, Multiset.coe_nil, zero_add,
    Multiset.coe_card, List.length_filterMap_eq_countP, List.count]
  exact List.countP_congr fun m _ => by rw [hwaited]

/-- The requests to be called later, as promises of the server to the scheduler. -/
def Sim.calls (s : Sim) : Promises Date where
  made := (s.history.handled.filterMap IPMessage.target? : List Date)
  timers := (s.pool.threads.filterMap Thread.wakes? : List Date)
  flying := s.pool.queue.count .waitingDone
  kept := (s.history.appended.filterMap DatedEvent.call? : List Date)

theorem Sim.calls_timers (s : Sim) : s.calls.timers = waiters s.pool := (waiters_eq _).symm

theorem Sim.calls_flying (s : Sim) : s.calls.flying = nbWaitingDone s.pool :=
  (nbWaitingDone_eq _).symm

theorem Sim.calls_eq {s : Sim} {made timers kept : Multiset Date} {flying : Nat}
    (hmade : (s.history.handled.filterMap IPMessage.target? : List Date) = made)
    (htimers : waiters s.pool = timers) (hflying : nbWaitingDone s.pool = flying)
    (hkept : (s.history.appended.filterMap DatedEvent.call? : List Date) = kept) :
    s.calls = ⟨made, timers, flying, kept⟩ := by
  rw [← hmade, ← htimers, ← hflying, ← hkept, waiters_eq, nbWaitingDone_eq]
  rfl

/-- A thread that is not a waiter goes on. -/
theorem waiters_resume {t : Thread} {p q : Pool IPMessage Thread} (ht : t.wakes? = none)
    (hnext : p.next? = some (.resume t, q)) :
    waiters p = waiters q ∧ nbWaitingDone p = nbWaitingDone q := by
  refine ⟨?_, ?_⟩
  · rw [waiters, Pool.labels_resume _ _ hnext, ht]
    simp [waiters]
  · rw [nbWaitingDone, Pool.labels_resume _ _ hnext]
    simp [nbWaitingDone]

/-- New actors none of which is a waiter. -/
theorem waiters_of_pool {p q : Pool IPMessage Thread} {ts bs : List Thread}
    (hp : p = { q with fresh := q.fresh ++ ts, blocked := q.blocked ++ bs })
    (hts : ∀ t ∈ ts ++ bs, t.wakes? = none) :
    waiters p = waiters q ∧ nbWaitingDone p = nbWaitingDone q := by
  refine ⟨?_, ?_⟩
  · rw [waiters, Pool.labels_of_eq _ _ hp, List.filterMap_eq_nil_iff.mpr hts]
    simp [waiters]
  · rw [nbWaitingDone, Pool.labels_of_eq _ _ hp]
    simp [nbWaitingDone]

/-- Nothing about the requests, when no call is appended. -/
theorem Sim.calls_of_same {s s' : Sim} {es : List DatedEvent}
    (hhandled : s'.history.handled = s.history.handled)
    (hwaiters : waiters s'.pool = waiters s.pool)
    (hdone : nbWaitingDone s'.pool = nbWaitingDone s.pool)
    (happended : s'.history.appended = s.history.appended ++ es)
    (hes : es.filterMap DatedEvent.call? = []) : s'.calls = s.calls := by
  refine Sim.calls_eq (by rw [hhandled]) ?_ ?_ ?_
  · rw [hwaiters, waiters_eq]
  · rw [hdone, nbWaitingDone_eq]
  · rw [happended, List.filterMap_append, hes, List.append_nil]

/-- A message that asks for no call is handled. -/
theorem calls_noteHandled (s : Sim) {m : IPMessage} (hm : m.target? = none) :
    (s.noteHandled m).calls = s.calls := by
  have hnone : [m].filterMap IPMessage.target? = [] := by simp [hm]
  refine Sim.calls_eq ?_ (waiters_eq _) (nbWaitingDone_eq _) rfl
  rw [noteHandled, List.filterMap_append, hnone, List.append_nil]

/-! ### The other actors -/

/-- What the actors of jobs carry neither waits nor asks for a call. -/
theorem KillSteps.waiters {p q : Pool IPMessage Thread} (h : KillSteps p q) (hp : Placed p)
    (hwoken : p.woken = []) :
    Batsim.waiters q = Batsim.waiters p ∧ nbWaitingDone q = nbWaitingDone p := by
  have hactor : ∀ {t : Thread} {a : ExecutionActor}, t.actor? = some a → t.wakes? = none := by
    intro t a ht
    cases t <;> first | rfl | cases ht
  have hmessage : ∀ {u t : Thread} {m : IPMessage} {a : ExecutionActor}, u.Puts m (some t) →
      t.actor? = some a → m.waited? = none := by
    intro u t m a hputs ht
    cases hputs with
    | firstReply _ _ _ _ hsender _ =>
      obtain ⟨rest, rfl⟩ := hsender t rfl
      cases ht
    | reply _ _ _ _ hsender _ =>
      obtain ⟨rest, rfl⟩ := hsender t rfl
      cases ht
    | _ => rfl
  refine ⟨h.labels hactor (fun _ _ => rfl) hp hwoken, ?_⟩
  rw [nbWaitingDone, h.labels (fun _ => rfl) hmessage hp hwoken, nbWaitingDone]

/-- Only a waiter sends `WAITING_DONE`, and no thread goes on as a waiter once it has sent. -/
theorem Thread.Puts.waited_eq_none {t : Thread} {m : IPMessage} {sender : Option Thread}
    (h : t.Puts m sender) (ht : t.isWaiter = false) (hreads : t.ReadsReply) :
    sender.bind Thread.wakes? = none ∧ m.waited? = none := by
  have hreader : ∀ {m : IPMessage} {sender : Option Thread},
      (∀ u, sender = some u → ∃ now rest, u = .applyReply now rest) → m.fromScheduler = true →
        sender.bind Thread.wakes? = none ∧ m.waited? = none := by
    intro m sender hsender hfrom
    refine ⟨?_, by cases m <;> first | rfl | cases hfrom⟩
    cases sender with
    | none => rfl
    | some u =>
      obtain ⟨now, rest, rfl⟩ := hsender u rfl
      rfl
  have hfrom := h.of_reader hreads
  cases h with
  | firstReply _ now _ _ hsender _ => exact hreader (fun u hu => ⟨now, hsender u hu⟩) (hfrom rfl)
  | reply now _ _ _ hsender _ => exact hreader (fun u hu => ⟨now, hsender u hu⟩) (hfrom rfl)
  | waited _ hw =>
    rw [ht] at hw
    cases hw
  | _ => exact ⟨rfl, rfl⟩

section runs

variable {cfg : Config} {guard : Sim → Choice → Prop} {s s' : Sim}

/-- An actor that is not a waiter leaves the waiters and their messages alone. -/
theorem Thread.Moves.waiters {t : Thread} {p q p' : Pool IPMessage Thread} (hp : Placed p)
    (hserver : t.isServer = false) (ht : t.isWaiter = false) (hreads : t.ReadsReply)
    (hnext : p.next? = some (.resume t, q)) (hmoves : t.Moves q p') :
    Batsim.waiters p' = Batsim.waiters p ∧ nbWaitingDone p' = nbWaitingDone p := by
  have hnone : t.wakes? = none := by cases t <;> first | rfl | cases ht
  obtain ⟨hwaiters, hdone⟩ := waiters_resume hnone hnext
  rw [hwaiters, hdone]
  cases hmoves with
  | ends => exact ⟨rfl, rfl⟩
  | waits u hu =>
    have hu : u.wakes? = none := by
      cases hu with
      | waiter => cases ht
      | _ => rfl
    rw [Batsim.waiters, nbWaitingDone, Pool.labels_block, Pool.labels_block, hu]
    simp [Batsim.waiters, nbWaitingDone]
  | puts q' m sender hputs hkill =>
    have hsame : Batsim.waiters q' = Batsim.waiters q ∧ nbWaitingDone q' = nbWaitingDone q := by
      obtain rfl | ⟨hkiller, hsteps⟩ := hkill
      · exact ⟨rfl, rfl⟩
      · have hfresh : t.startsFresh = true := by cases t <;> first | rfl | cases hkiller
        exact hsteps.waiters (hp.next hserver hnext) (hp.woken_eq_nil hfresh hnext).2
    obtain ⟨hsender, hm⟩ := hputs.waited_eq_none ht hreads
    rw [Batsim.waiters, nbWaitingDone, Pool.labels_put, Pool.labels_put, hsender, hm, ← hsame.1,
      ← hsame.2]
    simp [Batsim.waiters, nbWaitingDone]

/-! ### The waiters -/

/-- A waiter that has been woken has waited long enough. -/
theorem reaches_due (h : Reaches (batsim cfg) guard s) :
    ∀ date, .resume (.waiting date) ∈ s.pool.woken → date ≤ s.clock := by
  refine h.invariant (P := fun s => ∀ date, .resume (.waiting date) ∈ s.pool.woken →
    date ≤ s.clock) (by simp [batsim, Batsim.start]) ?_
  intro s s' c hr hs _ hstep date hdate
  cases c with
  | run o =>
    obtain ⟨hclock, hwoken⟩ := run_clock hr hstep
    rw [hclock]
    exact hs date (hwoken _ hdate)
  | solve clock receive wakes rest order =>
    cases step_kind hstep with
    | solve _ _ _ _ _ pool hcan hsolve hs' =>
      subst hs'
      obtain hwakes | ⟨-, m, hhead⟩ := (Pool.resume_mem_woken_solve hsolve).mp hdate
      · simp only [canSolve, Bool.and_eq_true, List.all_eq_true] at hcan
        simpa [Thread.wakeDate] using hcan.1.1.1.2 _ hwakes
      · obtain ⟨u, hputs⟩ := (reaches_placed hr).mailbox m (.waiting date)
          (List.mem_of_mem_head? hhead)
        cases hputs with
        | firstReply _ _ _ _ hsender _ | reply _ _ _ _ hsender _ =>
          obtain ⟨rest, heq⟩ := hsender _ rfl
          cases heq

/-- The end of the simulation is acknowledged after it was told. -/
theorem reaches_ack (h : Reaches (batsim cfg) guard s) :
    s.data.endOfSimulationAckReceived = true → s.data.endOfSimulationSent = true := by
  refine h.invariant (P := fun s => s.data.endOfSimulationAckReceived = true →
    s.data.endOfSimulationSent = true) (by simp [batsim, Batsim.start]) ?_
  intro s s' c hr hs _ hstep
  have hend : ∀ {u u' : Sim}, endOfTurn cfg u = .ok u' →
      (u.data.endOfSimulationAckReceived = true → u.data.endOfSimulationSent = true) →
      u'.data.endOfSimulationAckReceived = true → u'.data.endOfSimulationSent = true := by
    intro u u' hrun hu
    obtain rfl | ⟨workloads, hflush⟩ | hfinish := endOfTurn_cases hrun
    · exact hu
    · rw [hflush.eq]
      exact hu
    · rw [hfinish.eq]
      exact fun _ => rfl
  cases step_kind hstep with
  | solve clock receive wakes rest order pool hcan hsolve hs' =>
    subst hs'
    exact hs
  | turn o m pool hnext hturn =>
    obtain ⟨t, ht, hor⟩ := turn_cases hturn
    obtain ⟨_, hhandled⟩ := handleMessage_effect ht
    have hsent : t.data.endOfSimulationSent = s.data.endOfSimulationSent :=
      hhandled.keeps.endOfSimulationSent
    have htold : t.data.endOfSimulationAckReceived = true → t.data.endOfSimulationSent = true := by
      rw [hsent]
      by_cases hm : m = .schedReady
      · subst hm
        obtain ⟨-, hack, -⟩ := serverOnSchedReady_effect ht
        rw [hack, Bool.or_eq_true]
        exact fun hor => hor.elim id hs
      · rw [(hhandled.exchange hm).endOfSimulationAckReceived]
        exact hs
    obtain ⟨-, rfl⟩ | ⟨-, hrun⟩ := hor
    · exact htold
    · exact hend hrun htold
  | callback o p mailbox pool hnext hrun =>
    obtain ⟨t, ht, hrun⟩ := serverCallback_cases hrun
    obtain ⟨hkeeps, -, -, -, hexchange, -⟩ := serverOnCallbackReceived_frame ht
    refine hend hrun ?_
    have hsent : t.data.endOfSimulationSent = s.data.endOfSimulationSent :=
      hkeeps.endOfSimulationSent
    have hack : t.data.endOfSimulationAckReceived = s.data.endOfSimulationAckReceived :=
      hexchange.endOfSimulationAckReceived
    intro htold
    exact hsent.trans (hs (hack ▸ htold))
  | start o pool hnext hrun =>
    rw [serverProcess_effect hrun]
    exact hs
  | actor o t pool ht hnext hrun =>
    have howned := reaches_owned hr
    obtain ⟨-, hkeeps⟩ := runThread_moves (s := { s with pool := pool }) howned ht hrun
    rw [hkeeps.data]
    exact hs

/-- A run of a waiter: it goes to sleep, it asks for its call, or it ends without a word once the
scheduler knows about the end of the simulation. -/
inductive WaiterRuns (s s' : Sim) (date : Date) (pool : Pool IPMessage Thread) : Prop
  | sleeps (date' : Date) : date ≤ date' → waiters s'.pool = date' ::ₘ waiters pool →
      nbWaitingDone s'.pool = nbWaitingDone pool → WaiterRuns s s' date pool
  | calls : date ≤ s.clock → s.data.endOfSimulationSent = false →
      waiters s'.pool = waiters pool → nbWaitingDone s'.pool = nbWaitingDone pool + 1 →
      WaiterRuns s s' date pool
  | ends : s.data.endOfSimulationSent = true → s'.pool = pool → WaiterRuns s s' date pool

theorem waiter_runs (hr : Reaches (batsim cfg) guard s) {o : Outcome} {t : Thread}
    {pool : Pool IPMessage Thread} (ht : t.isWaiter = true)
    (hnext : s.pool.next? = some (.resume t, pool))
    (hrun : runThread cfg { s with pool := pool } o t = .ok s') :
    ∃ date, waiters s.pool = date ::ₘ waiters pool ∧ nbWaitingDone s.pool = nbWaitingDone pool ∧
      WaiterRuns s s' date pool := by
  have hlabels : ∀ date, t.wakes? = some date → waiters s.pool = date ::ₘ waiters pool ∧
      nbWaitingDone s.pool = nbWaitingDone pool := by
    intro date hdate
    refine ⟨?_, ?_⟩
    · rw [waiters, Pool.labels_resume _ _ hnext, hdate]
      rfl
    · rw [nbWaitingDone, Pool.labels_resume _ _ hnext]
      simp [nbWaitingDone]
  have htold := reaches_ack hr
  have hwait : ∀ date, date ≤ s.clock → s' = endOfWait { s with pool := pool } →
      WaiterRuns s s' date pool := by
    rintro date hdate rfl
    obtain ⟨heq, hend⟩ | ⟨heq, hsent⟩ := endOfWait_cases { s with pool := pool }
    · rw [heq]
      exact .ends (hend.elim id htold) rfl
    · rw [heq]
      refine .calls hdate hsent ?_ ?_
      · simp [Sim.put, waiters, Pool.labels_put]
      · simp [Sim.put, nbWaitingDone, Pool.labels_put, IPMessage.waited?]
  cases t with
  | waiter date =>
    refine ⟨date, (hlabels date rfl).1, (hlabels date rfl).2, ?_⟩
    simp only [runThread, Except.ok.injEq] at hrun
    subst hrun
    by_cases hlt : s.clock < date
    · refine .sleeps (s.clock + if date - s.clock < 1 / 100000 then 1 / 100000
        else date - s.clock) ?_ ?_ ?_
      · split <;> linarith
      · simp [waiterProcess, hlt, Sim.block, waiters, Pool.labels_block, Thread.wakes?]
      · simp [waiterProcess, hlt, Sim.block, nbWaitingDone, Pool.labels_block]
    · have heq : waiterProcess { s with pool := pool } date = endOfWait { s with pool := pool } := by
        simp [waiterProcess, hlt]
      exact hwait date (not_lt.mp hlt) heq
  | waiting date =>
    refine ⟨date, (hlabels date rfl).1, (hlabels date rfl).2, ?_⟩
    simp only [runThread, Except.ok.injEq] at hrun
    refine hwait date (reaches_due hr date ?_) hrun.symm
    obtain ⟨es, hwoken, -⟩ | ⟨-, u, ts, hfresh, heq, -⟩ := Pool.next?_cases hnext
    · rw [hwoken]
      exact List.mem_cons_self ..
    · cases heq
      have hfirst := (reaches_placed hr).fresh (.waiting date) (by rw [hfresh]; exact List.mem_cons_self ..)
      cases hfirst
  | _ => cases ht

/-! ### The server -/

/-- What handling a message does to the requests. -/
inductive CallsStep (s u : Sim) (m : IPMessage) : Prop
  | made (date : Date) : m = .schedCallMeLater date →
      u.calls = { s.calls with
        made := date ::ₘ s.calls.made, timers := date ::ₘ s.calls.timers } →
      u.data.nbWaiters = s.data.nbWaiters + 1 → CallsStep s u m
  | kept (n : Nat) : m = .waitingDone → s.calls.flying = n + 1 →
      u.calls = { s.calls with flying := n, kept := s.clock ::ₘ s.calls.kept } →
      u.data.nbWaiters = s.data.nbWaiters - 1 → CallsStep s u m
  | same : m.target? = none → m.waited? = none → u.calls = s.calls →
      u.data.nbWaiters = s.data.nbWaiters → CallsStep s u m

/-- Only `WAITING_DONE` makes the server call the scheduler back. -/
theorem IPMessage.waited_of_mayAppend {m : IPMessage} {e : DatedEvent} (hm : m.waited? = none)
    (h : m.mayAppend e.event = true) : e.call? = none := by
  unfold DatedEvent.call?
  split
  · next hcall =>
    rw [hcall] at h
    cases m with
    | waitingDone => cases hm
    | submitterBye name type isWorkflow => cases type <;> cases h
    | _ => cases h
  · rfl

theorem coe_concat (dates : List Date) (date : Date) :
    ((dates ++ [date] : List Date) : Multiset Date) = date ::ₘ (dates : Multiset Date) :=
  Multiset.coe_eq_coe.mpr (List.perm_append_singleton date dates)

/-- A message that neither asks for a call nor ends a wait. -/
theorem handleMessage_waiters {m : IPMessage} {t : Sim} (hm : m.target? = none)
    (ht : handleMessage cfg s m = .ok t) :
    waiters t.pool = waiters s.pool ∧ nbWaitingDone t.pool = nbWaitingDone s.pool := by
  obtain ⟨ts, bs, hpool, hts, hbs⟩ := handleMessage_pool ht
  refine waiters_of_pool hpool fun u hu => ?_
  rcases List.mem_append.mp hu with hu | hu
  · have hlaunched := hts u hu
    cases m with
    | schedCallMeLater date => cases hm
    | _ => cases u <;> first | rfl | cases hlaunched
  · obtain ⟨-, rfl⟩ | ⟨job, mailbox, rfl⟩ := hbs
    · cases hu
    · rw [List.mem_singleton.mp hu]
      rfl

theorem handleMessage_calls {m : IPMessage} {pool : Pool IPMessage Thread} {t : Sim}
    (hnext : s.pool.next? = some (.deliver m, pool))
    (ht : handleMessage cfg { s with pool := pool } m = .ok t) :
    CallsStep s (t.noteHandled m) m := by
  have hwaiters : waiters s.pool = waiters pool := by
    rw [waiters, Pool.labels_deliver _ _ hnext]
    simp [waiters]
  have hdone : nbWaitingDone s.pool = m.waited?.toList.length + nbWaitingDone pool := by
    rw [nbWaitingDone, Pool.labels_deliver _ _ hnext]
    simp [nbWaitingDone]
  obtain ⟨ts, hhandled⟩ := handleMessage_effect ht
  have hmade : (t.noteHandled m).history.handled.filterMap IPMessage.target? =
      s.history.handled.filterMap IPMessage.target? ++ m.target?.toList := by
    have hsame : t.history.handled = s.history.handled := hhandled.keeps.handled
    cases hm : m.target? <;> simp [noteHandled, hsame, hm]
  by_cases hwaited : m.waited? = none
  · by_cases htarget : m.target? = none
    · -- nothing about the requests
      obtain ⟨hsame, hsame'⟩ := handleMessage_waiters htarget ht
      obtain ⟨es, happended, hes⟩ := (handleMessage_appends ht).events
      have hcalls : es.filterMap DatedEvent.call? = [] :=
        List.filterMap_eq_nil_iff.mpr fun e he =>
          IPMessage.waited_of_mayAppend hwaited (hes e he).2
      have hkept : (t.noteHandled m).history.appended.filterMap DatedEvent.call? =
          s.history.appended.filterMap DatedEvent.call? := by
        have hsplit : (t.noteHandled m).history.appended = s.history.appended ++ es := happended
        rw [hsplit, List.filterMap_append, hcalls, List.append_nil]
      have htimers : waiters (t.noteHandled m).pool = waiters pool := hsame
      have hflying : nbWaitingDone (t.noteHandled m).pool = nbWaitingDone pool := hsame'
      refine .same htarget hwaited ?_ ?_
      · refine Sim.calls_eq ?_ ?_ ?_ ?_
        · simp [hmade, htarget]
        · rw [htimers, ← hwaiters, waiters_eq]
        · rw [hflying, ← nbWaitingDone_eq, hdone, hwaited]
          simp
        · rw [hkept]
      · have hnone : ts.countP Thread.isWaiter = 0 := by
          rw [List.countP_eq_zero]
          intro u hu hwaiter
          have hlaunched := hhandled.launched u hu
          cases u with
          | waiter date =>
            cases m with
            | schedCallMeLater date' => cases htarget
            | _ => cases hlaunched
          | waiting date => cases m <;> cases hlaunched
          | _ => cases hwaiter
        have hends : m.endsWaiter = false := by cases m <;> first | rfl | cases hwaited
        have hcount := hhandled.nbWaiters
        rw [hnone, hends] at hcount
        simpa [noteHandled] using hcount
    · cases m with
      | schedCallMeLater date =>
        obtain ⟨-, rfl⟩ := serverOnCallMeLater_effect ht
        have hpool : pool.spawn (.waiter date) = { pool with
            fresh := pool.fresh ++ [.waiter date], blocked := pool.blocked ++ [] } := by
          simp [Pool.spawn]
        refine .made date rfl (Sim.calls_eq ?_ ?_ ?_ rfl) rfl
        · rw [hmade]
          exact coe_concat _ date
        · rw [Sim.calls_timers, hwaiters]
          exact Pool.labels_of_eq _ _ hpool
        · rw [Sim.calls_flying, hdone, nbWaitingDone]
          simp only [noteHandled, Pool.labels_of_eq _ _ hpool]
          simp [nbWaitingDone, IPMessage.waited?]
      | _ => exact absurd rfl htarget
  · cases m with
    | waitingDone =>
      obtain ⟨hn, -, -, hquiet, -⟩ := serverOnWaitingDone_effect ht
      obtain ⟨-, happended⟩ := serverOnWaitingDone_appended ht
      have hpool : t.pool = pool := hquiet.pool
      have hkept : t.history.appended.filterMap DatedEvent.call? =
          s.history.appended.filterMap DatedEvent.call? ++ [s.clock] := by
        rw [happended, List.filterMap_append]
        rfl
      refine .kept (nbWaitingDone pool) rfl ?_ (Sim.calls_eq ?_ ?_ ?_ ?_) hn
      · rw [Sim.calls_flying, hdone]
        exact Nat.add_comm _ _
      · simp [hmade, IPMessage.target?, Sim.calls]
      · rw [Sim.calls_timers, hwaiters, ← hpool]
        rfl
      · rw [← hpool]
        rfl
      · have hsame : (t.noteHandled .waitingDone).history.appended = t.history.appended := rfl
        rw [hsame, hkept]
        exact coe_concat _ _
    | _ => exact absurd rfl hwaited

/-- The end of a turn answers no request, and makes none. -/
theorem endOfTurn_calls {u : Sim} (h : endOfTurn cfg u = .ok s') :
    s'.calls = u.calls ∧ s'.data.nbWaiters = u.data.nbWaiters := by
  obtain ⟨ts, hpool, hts⟩ := endOfTurn_pool h
  have hpool' : s'.pool = { u.pool with
      fresh := u.pool.fresh ++ ts, blocked := u.pool.blocked ++ [] } := by simpa using hpool
  obtain ⟨htimers, hflying⟩ := waiters_of_pool hpool' fun t ht => by
    obtain ⟨message, rfl⟩ := hts t (by simpa using ht)
    rfl
  obtain ⟨hhandled, -, last, happended, hlast⟩ := endOfTurn_appended h
  have hcalls : last.filterMap DatedEvent.call? = [] := by
    obtain rfl | rfl := hlast <;> rfl
  refine ⟨Sim.calls_of_same hhandled htimers hflying happended hcalls, ?_⟩
  · obtain rfl | ⟨workloads, hflush⟩ | hfinish := endOfTurn_cases h
    · rfl
    · rw [hflush.eq]
      rfl
    · rw [hfinish.eq]
      rfl

/-! ### Runs -/

/-- The requests are as promised, and the server counts those that are not answered yet. -/
structure Awaits (s : Sim) : Prop where
  balanced : s.calls.Balanced s.clock
  nbWaiters : s.data.nbWaiters = s.pool.count Thread.isWaiter + s.pool.queue.count .waitingDone

/-- Since the scheduler was told the end of the simulation, in the turn taken in the state `u`:
all the requests were answered, and none is any more. -/
structure CallsOver (s u : Sim) (later : List IPMessage) (post : List DatedEvent) : Prop where
  notSent : u.data.endOfSimulationSent = false
  answered : Multiset.Rel (· ≤ ·) u.calls.made u.calls.kept
  handled : s.history.handled = u.history.handled ++ later
  appended : s.history.appended = u.history.appended ++ ⟨u.clock, .simulationEnds⟩ :: post
  silent : ∀ e ∈ post, e.event ≠ .requestedCall
  nbWaitingDone : s.pool.queue.count .waitingDone = 0
  nbWaiters : s.data.nbWaiters = (later.filterMap IPMessage.target?).length

theorem awaits_iff {s : Sim} : Awaits s ↔ s.calls.Balanced s.clock ∧
    s.data.nbWaiters = s.calls.timers.card + s.calls.flying := by
  rw [Sim.calls_timers, card_waiters]
  exact ⟨fun h => ⟨h.balanced, h.nbWaiters⟩, fun h => ⟨h.1, h.2⟩⟩

theorem Awaits.of_calls {u : Sim} (h : Awaits s) (hclock : s.clock ≤ u.clock)
    (hcalls : u.calls = s.calls) (hnb : u.data.nbWaiters = s.data.nbWaiters) : Awaits u := by
  obtain ⟨hbalanced, hcount⟩ := awaits_iff.mp h
  refine awaits_iff.mpr ⟨hcalls ▸ hbalanced.mono hclock, ?_⟩
  rw [hnb, hcalls, hcount]

theorem Awaits.of_handled {m : IPMessage} {u : Sim} (h : Awaits s) (hclock : u.clock = s.clock)
    (hstep : CallsStep s u m) : Awaits u := by
  obtain ⟨hbalanced, hcount⟩ := awaits_iff.mp h
  cases hstep with
  | made date _ hcalls hnb =>
    refine awaits_iff.mpr ⟨?_, ?_⟩
    · rw [hcalls, hclock]
      exact hbalanced.make date
    · rw [hnb, hcalls, hcount, Multiset.card_cons]
      push_cast
      omega
  | kept n _ hn hcalls hnb =>
    refine awaits_iff.mpr ⟨?_, ?_⟩
    · rw [hcalls, hclock]
      exact hbalanced.keep hn
    · rw [hnb, hcalls, hcount, hn]
      push_cast
      omega
  | same _ _ hcalls hnb => exact h.of_calls hclock.ge hcalls hnb

/-- A run of an actor before the end is told. -/
theorem Awaits.actor (h : Awaits s) (hr : Reaches (batsim cfg) guard s) {o : Outcome} {t : Thread}
    {pool : Pool IPMessage Thread} (ht : t.isServer = false)
    (hsent : s.data.endOfSimulationSent = false) (hnext : s.pool.next? = some (.resume t, pool))
    (hrun : runThread cfg { s with pool := pool } o t = .ok s') : Awaits s' := by
  have howned := reaches_owned hr
  obtain ⟨hmoves, hkeeps⟩ := runThread_moves (s := { s with pool := pool }) howned ht hrun
  have hclock : s'.clock = s.clock := hkeeps.clock
  have hnb : s'.data.nbWaiters = s.data.nbWaiters := congrArg ServerData.nbWaiters hkeeps.data
  have hmade : s'.history.handled = s.history.handled := hkeeps.handled
  have hkept : s'.history.appended = s.history.appended := hkeeps.appended
  obtain ⟨hbalanced, hcount⟩ := awaits_iff.mp h
  cases hwaiter : t.isWaiter with
  | false =>
    have hthread : t ∈ s.pool.threads :=
      (Pool.next?_resume hnext).1.mem_iff.mpr (List.mem_cons_self ..)
    obtain ⟨htimers, hflying⟩ := hmoves.waiters (reaches_placed hr) ht hwaiter
      (reaches_readsReply hr hthread) hnext
    exact h.of_calls hclock.ge
      (Sim.calls_of_same hmade htimers hflying (by rw [hkept, List.append_nil]) rfl) hnb
  | true =>
    obtain ⟨date, htimers, hflying, hruns⟩ := waiter_runs hr hwaiter hnext hrun
    have hdate : s.calls.timers = date ::ₘ waiters pool := (Sim.calls_timers s).trans htimers
    cases hruns with
    | sleeps date' hle htimers' hflying' =>
      have hcalls : s'.calls = { s.calls with timers := date' ::ₘ waiters pool } := by
        refine Sim.calls_eq (by rw [hmade]; rfl) htimers' ?_ (by rw [hkept]; rfl)
        rw [hflying', ← hflying, nbWaitingDone_eq]
        rfl
      refine awaits_iff.mpr ⟨?_, ?_⟩
      · rw [hcalls, hclock]
        exact hbalanced.delay hdate hle
      · rw [hnb, hcount, hcalls, hdate, Multiset.card_cons, Multiset.card_cons]
    | calls hle _ htimers' hflying' =>
      have hcalls : s'.calls = { s.calls with
          timers := waiters pool, flying := s.calls.flying + 1 } := by
        refine Sim.calls_eq (by rw [hmade]; rfl) htimers' ?_ (by rw [hkept]; rfl)
        rw [hflying', ← hflying, nbWaitingDone_eq]
        rfl
      refine awaits_iff.mpr ⟨?_, ?_⟩
      · rw [hcalls, hclock]
        exact hbalanced.expire hdate hle
      · rw [hnb, hcount, hcalls, hdate, Multiset.card_cons]
        push_cast
        omega
    | ends hend _ =>
      rw [hsent] at hend
      cases hend

theorem CallsOver.of_calls {u : Sim} {later : List IPMessage} {post : List DatedEvent}
    (h : CallsOver s u later post) (hhandled : s'.history.handled = s.history.handled)
    (happended : s'.history.appended = s.history.appended)
    (hflying : s'.calls.flying = s.calls.flying) (hnb : s'.data.nbWaiters = s.data.nbWaiters) :
    CallsOver s' u later post where
  notSent := h.notSent
  answered := h.answered
  handled := hhandled.trans h.handled
  appended := happended.trans h.appended
  silent := h.silent
  nbWaitingDone := hflying.trans h.nbWaitingDone
  nbWaiters := hnb.trans h.nbWaiters

/-- A message handled after the end was told: it answers no request. -/
theorem CallsOver.of_handled {u v : Sim} {m : IPMessage} {later : List IPMessage}
    {post es : List DatedEvent} (h : CallsOver s u later post) (hstep : CallsStep s v m)
    (hhandled : v.history.handled = s.history.handled ++ [m])
    (happended : v.history.appended = s.history.appended ++ es)
    (hes : ∀ e ∈ es, m.mayAppend e.event = true) : CallsOver v u (later ++ [m]) (post ++ es) := by
  have hzero : s.calls.flying = 0 := h.nbWaitingDone
  have hm : m.waited? = none ∧ v.calls.flying = 0 ∧
      v.data.nbWaiters = s.data.nbWaiters + ([m].filterMap IPMessage.target?).length := by
    cases hstep with
    | made date heq hcalls hnb =>
      subst heq
      exact ⟨rfl, by rw [hcalls]; exact hzero, hnb⟩
    | kept n heq hn => omega
    | same htarget hwaited hcalls hnb =>
      exact ⟨hwaited, by rw [hcalls]; exact hzero, by simp [hnb, htarget]⟩
  refine ⟨h.notSent, h.answered, ?_, ?_, ?_, hm.2.1, ?_⟩
  · rw [hhandled, h.handled, List.append_assoc]
  · rw [happended, h.appended, List.append_assoc]
    rfl
  · intro e he hcall
    rcases List.mem_append.mp he with he | he
    · exact h.silent e he hcall
    · have hnone := IPMessage.waited_of_mayAppend hm.1 (hes e he)
      simp [DatedEvent.call?, hcall] at hnone
  · rw [hm.2.2, h.nbWaiters, List.filterMap_append, List.length_append]
    push_cast
    rfl

/-- The end is told: all the requests are answered. -/
theorem CallsOver.of_finishes {v : Sim} {m : IPMessage} (hstep : CallsStep s v m)
    (hv : Awaits v) (hsent : s.data.endOfSimulationSent = false) (hclock : v.clock = s.clock)
    (hhandled : v.history.handled = s.history.handled ++ [m])
    (happended : v.history.appended = s.history.appended) (hfinish : Finishes cfg v s')
    (hend : endOfTurn cfg v = .ok s') : CallsOver s' s [m] [] := by
  obtain ⟨hbalanced, hcount⟩ := awaits_iff.mp hv
  obtain ⟨hcalls', hnb'⟩ := endOfTurn_calls hend
  have hnone : v.data.nbWaiters = 0 := by
    have hfinished := hfinish.finished
    simp only [isSimulationFinished, Bool.and_eq_true, decide_eq_true_eq] at hfinished
    exact hfinished.1.2
  have htimers : v.calls.timers = 0 := Multiset.card_eq_zero.mp (by omega)
  have hflying : v.calls.flying = 0 := by omega
  have hsame : v.calls = s.calls ∧ m.target? = none := by
    cases hstep with
    | made date _ hcalls _ =>
      have hempty : date ::ₘ s.calls.timers = 0 := by rwa [hcalls] at htimers
      exact absurd hempty Multiset.cons_ne_zero
    | kept n _ _ hcalls _ =>
      have hkept : v.calls.kept = s.calls.kept := by simp [Sim.calls, happended]
      have hcard := congrArg Multiset.card hkept
      rw [hcalls, Multiset.card_cons] at hcard
      omega
    | same htarget _ hcalls _ => exact ⟨hcalls, htarget⟩
  refine ⟨hsent, ?_, ?_, ?_, by simp, ?_, ?_⟩
  · rw [← hsame.1]
    exact hbalanced.all_kept htimers hflying
  · rw [hfinish.eq]
    exact hhandled
  · rw [hfinish.eq, ← hclock, ← happended]
    rfl
  · exact (congrArg Promises.flying hcalls').trans hflying
  · rw [hnb', hnone]
    simp [hsame.2]

/-- A run of an actor after the end is told: no waiter asks for a call any more. -/
theorem nbWaitingDone_actor (hr : Reaches (batsim cfg) guard s) {o : Outcome} {t : Thread}
    {pool : Pool IPMessage Thread} (ht : t.isServer = false)
    (hsent : s.data.endOfSimulationSent = true) (hnext : s.pool.next? = some (.resume t, pool))
    (hrun : runThread cfg { s with pool := pool } o t = .ok s') :
    nbWaitingDone s'.pool = nbWaitingDone s.pool := by
  cases hwaiter : t.isWaiter with
  | false =>
    have howned := reaches_owned hr
    obtain ⟨hmoves, -⟩ := runThread_moves (s := { s with pool := pool }) howned ht hrun
    have hthread : t ∈ s.pool.threads :=
      (Pool.next?_resume hnext).1.mem_iff.mpr (List.mem_cons_self ..)
    exact (hmoves.waiters (reaches_placed hr) ht hwaiter (reaches_readsReply hr hthread) hnext).2
  | true =>
    obtain ⟨date, -, hflying, hruns⟩ := waiter_runs hr hwaiter hnext hrun
    cases hruns with
    | sleeps date' _ _ hflying' => exact hflying'.trans hflying.symm
    | calls _ hfalse _ _ =>
      rw [hsent] at hfalse
      cases hfalse
    | ends _ hpool => rw [hpool, hflying]

/-- The requests in a run: promised until the end is told, over from then on. -/
structure CallsKept (s : Sim) (past : List Sim) : Prop where
  before : s.data.endOfSimulationSent = false → Awaits s
  after : s.data.endOfSimulationSent = true → ∃ u ∈ past, ∃ later post, CallsOver s u later post

theorem CallsKept.of_calls {past : List Sim} (h : CallsKept s past) (hclock : s.clock ≤ s'.clock)
    (hsent : s'.data.endOfSimulationSent = s.data.endOfSimulationSent)
    (hhandled : s'.history.handled = s.history.handled)
    (happended : s'.history.appended = s.history.appended) (hcalls : s'.calls = s.calls)
    (hnb : s'.data.nbWaiters = s.data.nbWaiters) : CallsKept s' (s :: past) := by
  refine ⟨fun hfalse => (h.before (hsent ▸ hfalse)).of_calls hclock hcalls hnb, fun htrue => ?_⟩
  obtain ⟨u, hu, later, post, hover⟩ := h.after (hsent ▸ htrue)
  exact ⟨u, List.mem_cons_of_mem _ hu, later, post,
    hover.of_calls hhandled happended (by rw [hcalls]) hnb⟩

/-- A turn of the server, once the handler of its message is over. -/
theorem CallsKept.turn {past : List Sim} {v : Sim} {m : IPMessage} {es : List DatedEvent}
    (h : CallsKept s past) (hstep : CallsStep s v m) (hclock : v.clock = s.clock)
    (hsent : v.data.endOfSimulationSent = s.data.endOfSimulationSent)
    (hhandled : v.history.handled = s.history.handled ++ [m])
    (happended : v.history.appended = s.history.appended ++ es)
    (hes : ∀ e ∈ es, m.mayAppend e.event = true) (hempty : v.writer.isEmpty = true → es = [])
    (hend : endOfTurn cfg v = .ok s') : CallsKept s' (s :: past) := by
  obtain ⟨hcalls, hnb⟩ := endOfTurn_calls hend
  obtain ⟨hhandled', hclock', -⟩ := endOfTurn_appended hend
  have hquiet : s'.data.endOfSimulationSent = v.data.endOfSimulationSent →
      s'.history.appended = v.history.appended → CallsKept s' (s :: past) := by
    intro hsent' happended'
    refine ⟨fun hfalse => ?_, fun htrue => ?_⟩
    · have hs := h.before (by rw [← hsent, ← hsent', hfalse])
      exact (hs.of_handled hclock hstep).of_calls hclock'.ge hcalls hnb
    · obtain ⟨u, hu, later, post, hover⟩ := h.after (by rw [← hsent, ← hsent', htrue])
      refine ⟨u, List.mem_cons_of_mem _ hu, later ++ [m], post ++ es, ?_⟩
      exact (hover.of_handled hstep hhandled happended hes).of_calls hhandled' happended'
        (by rw [hcalls]) hnb
  obtain heq | ⟨workloads, hflush⟩ | hfinish := endOfTurn_cases hend
  · exact hquiet (by rw [heq]) (by rw [heq])
  · exact hquiet (by rw [hflush.eq]; rfl) (by rw [hflush.eq]; rfl)
  · have hfalse : s.data.endOfSimulationSent = false := hsent ▸ hfinish.notSent
    have hnone := hempty hfinish.empty
    rw [hnone, List.append_nil] at happended
    refine ⟨fun hfalse' => ?_, fun _ => ⟨s, List.mem_cons_self .., [m], [], ?_⟩⟩
    · rw [hfinish.eq] at hfalse'
      cases hfalse'
    · exact .of_finishes hstep ((h.before hfalse).of_handled hclock hstep) hfalse hclock hhandled
        happended hfinish hend

theorem visits_callsKept {past : List Sim} (h : Visits (batsim cfg) guard (s :: past)) :
    CallsKept s past := by
  refine h.invariant (P := CallsKept) ⟨fun _ => ?_, ?_⟩ ?_
  · have hcalls : (batsim cfg).start.calls = ⟨0, 0, 0, 0⟩ := by
      refine Sim.calls_eq rfl ?_ ?_ rfl
      · rw [waiters_eq, Multiset.coe_eq_zero]
        simp [batsim, Batsim.start, Pool.threads, initialThreads, Thread.wakes?]
      · rw [nbWaitingDone_eq]
        rfl
    refine awaits_iff.mpr ⟨?_, ?_⟩
    · rw [hcalls]
      exact Promises.balanced_empty
    · rw [hcalls]
      rfl
  · simp [batsim, Batsim.start]
  intro s s' past c hr hs _ hstep
  cases step_kind hstep with
  | solve clock receive wakes rest order pool hcan hsolve hs' =>
    subst hs'
    have hclock : s.clock ≤ clock := by
      simp only [canSolve, Bool.and_eq_true, decide_eq_true_eq] at hcan
      exact hcan.1.1.1.1
    have hcalls : ({ s with clock := clock, pool := pool } : Sim).calls = s.calls :=
      Sim.calls_of_same rfl (Pool.labels_solve _ _ hsolve)
        (congrArg Multiset.card (Pool.labels_solve _ _ hsolve)) (List.append_nil _).symm rfl
    exact hs.of_calls hclock rfl rfl rfl hcalls rfl
  | turn o m pool hnext hturn =>
    obtain ⟨t, ht, hor⟩ := turn_cases hturn
    obtain ⟨_, hhandled⟩ := handleMessage_effect ht
    obtain ⟨hback, rfl⟩ | ⟨-, hend⟩ := hor
    · obtain ⟨p, submitter, rfl, -, rfl⟩ := handleMessage_callsBack hback ht
      have hstep' := handleMessage_calls hnext ht
      cases hstep' with
      | made date heq _ _ => cases heq
      | kept n heq _ _ _ => cases heq
      | same _ _ hcalls hnb =>
        -- the message counts as handled once the callback is received
        exact hs.of_calls le_rfl rfl rfl rfl ((calls_noteHandled _ rfl).symm.trans hcalls) hnb
    · obtain ⟨es, hlogs, -⟩ := hhandled.keeps.logs
      obtain ⟨es', happended, hes⟩ := (handleMessage_appends ht).events
      have hsame : es' = es := List.append_cancel_left (happended.symm.trans hlogs.appended)
      subst hsame
      refine hs.turn (handleMessage_calls hnext ht) hhandled.keeps.clock
        hhandled.keeps.endOfSimulationSent (congrArg (· ++ [m]) hhandled.keeps.handled) happended
        (fun e he => (hes e he).2) (fun hempty => ?_) hend
      have hboth := hlogs.isEmpty.symm.trans hempty
      rw [Bool.and_eq_true] at hboth
      exact List.isEmpty_iff.mp hboth.2
  | callback o p mailbox pool hnext hrun =>
    obtain ⟨t, ht, hend⟩ := serverCallback_cases hrun
    obtain ⟨hkeeps, -, hpool, -, -, hactivities⟩ := serverOnCallbackReceived_frame ht
    obtain ⟨es, hlogs, -⟩ := hkeeps.logs
    obtain ⟨es', happended, hes⟩ := (countJobCompletion_appends ht).events
    have hsame : es' = es := List.append_cancel_left (happended.symm.trans hlogs.appended)
    subst hsame
    obtain ⟨hwaiters, hdone⟩ := waiters_resume rfl hnext
    have hpool' : t.pool = pool := hpool
    have hcalls : es'.filterMap DatedEvent.call? = [] :=
      List.filterMap_eq_nil_iff.mpr fun e he =>
        IPMessage.waited_of_mayAppend (m := .jobCompleted p) rfl (hes e he).2
    have hmade : (t.noteHandled (.jobCompleted p)).calls = s.calls := by
      rw [calls_noteHandled t rfl]
      exact Sim.calls_of_same hkeeps.handled ((congrArg waiters hpool').trans hwaiters.symm)
        ((congrArg nbWaitingDone hpool').trans hdone.symm) happended hcalls
    refine hs.turn (m := .jobCompleted p) (.same rfl rfl hmade hactivities.nbWaiters) hkeeps.clock
      hkeeps.endOfSimulationSent (congrArg (· ++ [_]) hkeeps.handled) happended
      (fun e he => (hes e he).2) (fun hempty => ?_) hend
    have hboth := hlogs.isEmpty.symm.trans hempty
    rw [Bool.and_eq_true] at hboth
    exact List.isEmpty_iff.mp hboth.2
  | start o pool hnext hrun =>
    obtain ⟨hwaiters, hdone⟩ := waiters_resume rfl hnext
    have hpool : s'.pool = { pool with
        fresh := pool.fresh ++ [.requestReply (s.logged .simulationBegins).writer.events]
        blocked := pool.blocked ++ [] } := by
      rw [serverProcess_effect hrun]
      simp [messageSent, logged, Pool.spawn]
    obtain ⟨hwaiters', hdone'⟩ := waiters_of_pool hpool (by simp [Thread.wakes?])
    have hhandled : s'.history.handled = s.history.handled := by
      rw [serverProcess_effect hrun]
      rfl
    have happended : s'.history.appended = s.history.appended ++ [⟨s.clock, .simulationBegins⟩] := by
      rw [serverProcess_effect hrun]
      rfl
    have hcalls : s'.calls = s.calls := Sim.calls_of_same hhandled (hwaiters'.trans hwaiters.symm)
      (hdone'.trans hdone.symm) happended rfl
    obtain ⟨done, todo, -, heq⟩ := reaches_unstarted hr
      ((Pool.next?_resume hnext).1.mem_iff.mpr (List.mem_cons_self ..))
    have hfalse : s.data.endOfSimulationSent = false := by
      rw [heq]
      rfl
    refine ⟨fun _ => (hs.before hfalse).of_calls ?_ hcalls ?_, fun htrue => ?_⟩
    · rw [serverProcess_effect hrun]
      exact le_rfl
    · rw [serverProcess_effect hrun]
      rfl
    · rw [serverProcess_effect hrun] at htrue
      exact absurd (hfalse.symm.trans htrue) (by decide)
  | actor o t pool ht hnext hrun =>
    have howned := reaches_owned hr
    have hkeeps := (runThread_moves (s := { s with pool := pool }) howned ht hrun).2
    have hsent : s'.data.endOfSimulationSent = s.data.endOfSimulationSent :=
      congrArg ServerData.endOfSimulationSent hkeeps.data
    refine ⟨fun hfalse => ?_, fun htrue => ?_⟩
    · exact (hs.before (hsent ▸ hfalse)).actor hr ht (hsent ▸ hfalse) hnext hrun
    · obtain ⟨u, hu, later, post, hover⟩ := hs.after (hsent ▸ htrue)
      refine ⟨u, List.mem_cons_of_mem _ hu, later, post, hover.of_calls hkeeps.handled
        hkeeps.appended ?_ (congrArg ServerData.nbWaiters hkeeps.data)⟩
      rw [Sim.calls_flying, Sim.calls_flying]
      exact nbWaitingDone_actor hr ht (hsent ▸ htrue) hnext hrun

theorem IPMessage.not_mayAppend_simulationEnds (m : IPMessage) :
    m.mayAppend .simulationEnds = false := by
  cases m with
  | submitterBye name type isWorkflow => cases type <;> rfl
  | _ => rfl

/-- Until the server says that it has told the end, nothing appended tells it. -/
theorem reaches_notEnded (h : Reaches (batsim cfg) guard s) :
    s.data.endOfSimulationSent = false → ∀ e ∈ s.history.appended, e.event ≠ .simulationEnds := by
  refine h.invariant (P := fun s => s.data.endOfSimulationSent = false →
    ∀ e ∈ s.history.appended, e.event ≠ .simulationEnds) (by simp [batsim, Batsim.start]) ?_
  intro s s' c hr hs _ hstep
  have hend : ∀ {u u' : Sim} {es : List DatedEvent} {m : IPMessage}, endOfTurn cfg u = .ok u' →
      u.data.endOfSimulationSent = s.data.endOfSimulationSent →
      u.history.appended = s.history.appended ++ es →
      (∀ e ∈ es, m.mayAppend e.event = true) → u'.data.endOfSimulationSent = false →
      ∀ e ∈ u'.history.appended, e.event ≠ .simulationEnds := by
    intro u u' es m hrun hsent happended hes hfalse e he
    have hu : u.data.endOfSimulationSent = false ∧ u'.history.appended = u.history.appended := by
      obtain heq | ⟨workloads, hflush⟩ | hfinish := endOfTurn_cases hrun
      · subst heq
        exact ⟨hfalse, rfl⟩
      · rw [hflush.eq] at hfalse ⊢
        exact ⟨hfalse, rfl⟩
      · rw [hfinish.eq] at hfalse
        cases hfalse
    rw [hu.2, happended] at he
    rcases List.mem_append.mp he with he | he
    · exact hs (hsent ▸ hu.1) e he
    · intro heq
      have hmay := hes e he
      rw [heq, m.not_mayAppend_simulationEnds] at hmay
      cases hmay
  cases step_kind hstep with
  | solve clock receive wakes rest order pool hcan hsolve hs' =>
    subst hs'
    exact hs
  | turn o m pool hnext hturn =>
    obtain ⟨t, ht, hor⟩ := turn_cases hturn
    obtain ⟨_, hhandled⟩ := handleMessage_effect ht
    obtain ⟨hback, rfl⟩ | ⟨-, hrun⟩ := hor
    · obtain ⟨p, submitter, rfl, -, rfl⟩ := handleMessage_callsBack hback ht
      exact hs
    · obtain ⟨es, happended, hes⟩ := (handleMessage_appends ht).events
      exact hend hrun hhandled.keeps.endOfSimulationSent happended fun e he => (hes e he).2
  | callback o p mailbox pool hnext hrun =>
    obtain ⟨t, ht, hrun⟩ := serverCallback_cases hrun
    obtain ⟨es, happended, hes⟩ := (countJobCompletion_appends ht).events
    exact hend (m := .jobCompleted p) hrun
      (serverOnCallbackReceived_frame ht).1.endOfSimulationSent happended fun e he => (hes e he).2
  | start o pool hnext hrun =>
    rw [serverProcess_effect hrun]
    intro hfalse e he
    rcases List.mem_append.mp he with he | he
    · exact hs hfalse e he
    · cases List.mem_singleton.mp he
      simp
  | actor o t pool ht hnext hrun =>
    have howned := reaches_owned hr
    obtain ⟨-, hkeeps⟩ := runThread_moves (s := { s with pool := pool }) howned ht hrun
    rw [hkeeps.data, hkeeps.appended]
    exact hs

/-- In every run, each `CALL_ME_LATER` accepted before the end of the simulation is told is
answered by one `REQUESTED_CALL`, not before its date and before `SIMULATION_ENDS`; until then
`nb_waiters` counts the living waiters and their messages. -/
theorem calls_answered_before_end {past : List Sim}
    (h : Visits (batsim cfg) anyStep (s :: past)) :
    (s.data.endOfSimulationSent = false ∧ Awaits s ∧
        ∀ e ∈ s.history.appended, e.event ≠ .simulationEnds) ∨
      s.data.endOfSimulationSent = true ∧ ∃ u ∈ past, ∃ later post, CallsOver s u later post ∧
        ∀ e ∈ u.history.appended, e.event ≠ .simulationEnds := by
  have hkept := visits_callsKept h
  cases hsent : s.data.endOfSimulationSent with
  | false => exact .inl ⟨rfl, hkept.before hsent, reaches_notEnded h.reaches hsent⟩
  | true =>
    obtain ⟨u, hu, later, post, hover⟩ := hkept.after hsent
    have hreaches := h.reaches_mem (List.mem_cons_of_mem s hu)
    exact .inr ⟨rfl, u, hu, later, post, hover, reaches_notEnded hreaches hover.notSent⟩

end runs

/-- The scheduler asks to be called at date 5, and is. -/
def untilCalled : List (Sim → Choice) :=
  [.next, .next, .next (.reply { now := 0, events := [⟨0, .callMeLater 5⟩] }),
    .receive, .next, .next, .receive, .next, .next, .next, .receive, .next, .receive, .next,
    .next (.reply { now := 0, events := [] }), .receive, .next,
    .pass 5 false fun t => t.isWaiter, .next, .receive, .next]

/-- The call is answered at its date, and the simulation ends. -/
theorem call_at_5_answered : ∃ s past, Visits (batsim loneHost) anyStep (s :: past) ∧
    s.calls.made = {5} ∧ s.calls.kept = {5} ∧ s.data.endOfSimulationSent = true ∧
      ∃ u ∈ past, ∃ later post, CallsOver s u later post ∧
        ∀ e ∈ u.history.appended, e.event ≠ .simulationEnds := by
  obtain ⟨s, hreaches, hsent, hmade, hkept⟩ := exists_reaches_of_run (batsim loneHost) anyStep
    (fun s => s.data.endOfSimulationSent = true ∧ s.calls.made = {5} ∧ s.calls.kept = {5})
    (untilCalled ++ [.next (.reply { now := 5, events := [⟨5, .notify "registration_finished"⟩] }),
      .receive, .next, .next, .receive, .next])
    (by decide +kernel)
  obtain ⟨past, hvisits⟩ := hreaches.visits
  obtain ⟨hfalse, -⟩ | ⟨-, hover⟩ := calls_answered_before_end hvisits
  · exact absurd (hsent.symm.trans hfalse) (by decide)
  · exact ⟨s, past, hvisits, hmade, hkept, hsent, hover⟩

/-- The scheduler answers `SIMULATION_ENDS` by asking to be called at date 5, and acknowledges
later: the waiter ends without a word. -/
theorem late_call_unanswered : ∃ s, Reaches (batsim loneHost) anyStep s ∧
    s.data.nbWaiters ≠ s.pool.count Thread.isWaiter + s.pool.queue.count .waitingDone := by
  refine exists_reaches_of_run (batsim loneHost) anyStep
    (fun s => s.data.nbWaiters ≠ s.pool.count Thread.isWaiter + s.pool.queue.count .waitingDone)
    [.next, .next, .next (.reply { now := 0, events := [⟨0, .notify "registration_finished"⟩] }),
      .receive, .next, .next, .receive, .next, .next, .receive, .next, .receive, .next,
      .next (.reply { now := 0, events := [] }), .receive, .next,
      .next (.reply { now := 10, events := [⟨0, .callMeLater 5⟩] }), .receive, .next, .next, .next,
      .pass 5 false fun t => t.isWaiter, .next]
    (by decide +kernel)

end Batsim
