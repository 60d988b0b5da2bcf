import Batsim.Kills

/-!
What actors carry from their start to their last message: it is neither lost nor doubled on the way
to the server.
-/

namespace Batsim

open Checked Sim StepSystem

/-! ### Messages on their way -/

section runs

variable {cfg : Config} {guard : Sim → Choice → Prop} {s : Sim}

/-- Every message on its way to the server was sent by an actor. -/
theorem reaches_queue (h : Reaches (batsim cfg) guard s) :
    ∀ m ∈ s.pool.queue, ∃ (t : Thread) (sender : Option Thread), t.ReadsReply ∧
      t.Puts m sender := by
  refine h.invariant (P := fun s => ∀ m ∈ s.pool.queue, ∃ (t : Thread) (sender : Option Thread),
    t.ReadsReply ∧ t.Puts m sender) (by simp [batsim, start, Pool.queue]) ?_
  intro s s' c hr hs _ hstep m hm
  cases step_kind hstep with
  | solve clock receive wakes rest order pool hcan hsolve hs' =>
    subst hs'
    have hqueue : pool.queue = s.pool.queue := Pool.queue_solve hsolve
    exact hs m (hqueue ▸ hm)
  | turn o m' pool hnext hturn =>
    obtain ⟨ts, bs, hpool, -⟩ := turn_pool hturn
    have hqueue : s'.pool.queue = pool.queue := by rw [hpool]; rfl
    rw [hqueue] at hm
    exact hs m (by rw [(Pool.next?_deliver hnext).2.1]; exact List.mem_cons_of_mem _ hm)
  | callback o p mailbox pool hnext hrun =>
    obtain ⟨ts, hpool, -⟩ := callback_pool hrun
    have hqueue : s'.pool.queue = pool.queue := by rw [hpool]; rfl
    exact hs m (by rw [(Pool.next?_resume hnext).2, ← hqueue]; exact hm)
  | start o pool hnext hrun =>
    rw [serverProcess_effect hrun] at hm
    exact hs m (by rw [(Pool.next?_resume hnext).2]; exact hm)
  | actor o t pool ht hnext hrun =>
    obtain ⟨hthreads, hqueue⟩ := Pool.next?_resume hnext
    have howned := reaches_owned hr
    have hmoves := (runThread_moves (s := { s with pool := pool }) howned ht hrun).1
    obtain hold | ⟨sender, hputs⟩ := hmoves.mem_queue hm
    · exact hs m (hqueue ▸ hold)
    · exact ⟨t, sender, reaches_readsReply hr (hthreads.mem_iff.mpr (List.mem_cons_self ..)), hputs⟩

/-- A submission is never empty. -/
theorem jobSubmitted_ne_nil (h : Reaches (batsim cfg) guard s) {name : String}
    {jobs : List JobPtr} (hm : .jobSubmitted name jobs ∈ s.pool.queue) : jobs ≠ [] := by
  obtain ⟨t, sender, hreads, hputs⟩ := reaches_queue h _ hm
  cases hreader : t.isReader with
  | true => cases hputs.of_reader hreads hreader
  | false =>
    cases hputs with
    | firstReply | reply => cases hreader
    | jobs _ _ _ _ _ _ hbatch => exact hbatch
    | workflowJob => simp

end runs

/-! ### Flows -/

theorem Thread.of_isWaiter {t : Thread} (h : t.isWaiter = true) :
    t.actor? = none ∧ t.isReader = false := by
  cases t <;> first | exact ⟨rfl, rfl⟩ | cases h

/-- Killers take away nothing that neither the actors of jobs nor their messages carry. -/
theorem KillSteps.labels {A : Type} {f : Thread → Option A} {g : IPMessage → Option A}
    (hactor : ∀ {t : Thread} {a : ExecutionActor}, t.actor? = some a → f t = none)
    (hmessage : ∀ {u t : Thread} {m : IPMessage} {a : ExecutionActor}, u.Puts m (some t) →
      t.actor? = some a → g m = none)
    {p q : Pool IPMessage Thread} (hsteps : KillSteps p q) (hp : Placed p)
    (hwoken : p.woken = []) : q.labels f g = p.labels f g := by
  induction hsteps with
  | refl => rfl
  | @interrupt q n hsteps ih =>
    rw [Pool.labels_interrupt f g, ih]
    intro t _ ht
    obtain ⟨a, rfl, -⟩ := Thread.waitsOnPtask_eq_true ht
    exact (hactor (a := a) rfl).trans (hactor (a := a) rfl).symm
  | @kill q actors hsteps ih =>
    obtain ⟨hq, -⟩ := hp.killSteps hwoken hsteps
    have hdead : ∀ t : Thread, t.isActorIn actors = true → ∃ a, t.actor? = some a := by
      intro t ht
      cases hat : t.actor? with
      | none => simp [Thread.isActorIn, hat] at ht
      | some a => exact ⟨a, rfl⟩
    rw [Pool.labels_kill f g, ih]
    · intro t ht
      obtain ⟨a, ha⟩ := hdead t ht
      exact hactor ha
    · intro m t hmem ht
      obtain ⟨a, ha⟩ := hdead t ht
      obtain ⟨u, hu⟩ := hq.mailbox m t hmem
      exact hmessage hu ha

/-- What some threads carry: each keeps it as it goes on, and leaves it on its last message. -/
structure Flow {A : Type} (f : Thread → Option A) (g : IPMessage → Option A) : Prop where
  puts : ∀ {t : Thread} {m : IPMessage} {sender : Option Thread}, t.ReadsReply →
    t.Puts m sender → (f t).toList = (sender.bind f).toList ++ (g m).toList
  waits : ∀ {t u : Thread}, t.Waits u → f u = f t
  ends : ∀ {t : Thread}, t.mayEnd = true → f t = none
  server : ∀ {t : Thread}, t.isServer = true → f t = none

namespace Flow

variable {A : Type} {f : Thread → Option A} {g : IPMessage → Option A}

/-- A part of what is carried. -/
theorem map {B : Type} (h : Flow f g) (part : A → B) :
    Flow (fun t => (f t).map part) fun m => (g m).map part where
  puts {t m sender} hreads hputs := by
    have hcarried := congrArg (List.map part) (h.puts hreads hputs)
    have hlist : ∀ x : Option A, (x.map part).toList = x.toList.map part := by
      intro x
      cases x <;> rfl
    have hsender : sender.bind (fun t => (f t).map part) = (sender.bind f).map part := by
      cases sender <;> rfl
    rw [hlist, hcarried, List.map_append, hsender, hlist, hlist]
  waits hwaits := congrArg (Option.map part) (h.waits hwaits)
  ends hends := congrArg (Option.map part) (h.ends hends)
  server hserver := congrArg (Option.map part) (h.server hserver)

/-- What neither readers nor the actors of jobs carry, nor their messages. -/
theorem of_others (hends : ∀ {t : Thread}, t.mayEnd = true → f t = none)
    (hserver : ∀ {t : Thread}, t.isServer = true → f t = none)
    (hrequest : ∀ {m : IPMessage}, m.fromScheduler = true → g m = none)
    (hcompleted : ∀ p, g (.jobCompleted p) = none) (hfrom : ∀ id m, g (.fromJobMsg id m) = none)
    (hputs : ∀ {t : Thread} {m : IPMessage} {sender : Option Thread}, t.isReader = false →
      t.actor? = none → t.Puts m sender →
      (f t).toList = (sender.bind f).toList ++ (g m).toList)
    (hwaits : ∀ {t u : Thread}, t.isReader = false → t.actor? = none → t.Waits u → f u = f t) :
    Flow f g where
  puts := by
    intro t m sender hreads h
    cases hactor : t.actor? with
    | some a =>
      have ht : f t = none := hends (by cases t <;> first | rfl | cases hactor)
      have hsender : sender.bind f = none ∧ g m = none := by
        cases h with
        | completed => exact ⟨hends rfl, hcompleted _⟩
        | fromJob => exact ⟨hends rfl, hfrom _ _⟩
        | waited _ hw =>
          rw [(Thread.of_isWaiter hw).1] at hactor
          cases hactor
        | _ => cases hactor
      rw [ht, hsender.1, hsender.2]
      rfl
    | none =>
      cases hreader : t.isReader with
      | false => exact hputs hreader hactor h
      | true =>
        have ht : f t = none := hends (by cases t <;> first | rfl | cases hreader)
        have hm : g m = none := hrequest (h.of_reader hreads hreader)
        have hsender : sender.bind f = none := by
          cases h with
          | firstReply _ _ _ _ hsender _ | reply _ _ _ _ hsender _ =>
            cases sender with
            | none => rfl
            | some u =>
              obtain ⟨rest, rfl⟩ := hsender u rfl
              exact hends rfl
          | completed _ a ha | fromJob _ a _ ha =>
            rw [hactor] at ha
            cases ha
          | waited _ hw =>
            rw [(Thread.of_isWaiter hw).2] at hreader
            cases hreader
          | _ => cases hreader
        rw [ht, hm, hsender]
        rfl
  waits := by
    intro t u h
    have hnone : t.isReader = true ∨ (∃ a, t.actor? = some a) → f u = none ∧ f t = none := by
      intro hor
      have ht : f t = none := by
        refine hends ?_
        obtain hreader | ⟨a, ha⟩ := hor
        · cases t <;> first | rfl | cases hreader
        · cases t <;> first | rfl | cases ha
      refine ⟨?_, ht⟩
      cases h with
      | reply => exact hends rfl
      | leaf => exact hends rfl
      | waiter => exact hends rfl
      | _ => obtain hreader | ⟨a, ha⟩ := hor <;> contradiction
    cases hactor : t.actor? with
    | some a =>
      obtain ⟨hu, ht⟩ := hnone (.inr ⟨a, hactor⟩)
      rw [hu, ht]
    | none =>
      cases hreader : t.isReader with
      | false => exact hwaits hreader hactor h
      | true =>
        obtain ⟨hu, ht⟩ := hnone (.inl hreader)
        rw [hu, ht]
  ends := hends
  server := hserver

theorem actor (h : Flow f g) {t : Thread} {a : ExecutionActor} (ht : t.actor? = some a) :
    f t = none := by
  refine h.ends ?_
  cases t <;> first | rfl | cases ht

/-- What an actor of a job sends carries nothing. -/
theorem message_of_actor (h : Flow f g) {u t : Thread} {m : IPMessage} {a : ExecutionActor}
    (hputs : u.Puts m (some t)) (ht : t.actor? = some a) : g m = none := by
  have hu : ∃ b, u.actor? = some b := by
    cases hputs with
    | firstReply _ _ _ _ hsender _ =>
      obtain ⟨rest, rfl⟩ := hsender _ rfl
      cases ht
    | reply _ _ _ _ hsender _ =>
      obtain ⟨rest, rfl⟩ := hsender _ rfl
      cases ht
    | completed _ b hb _ => exact ⟨b, hb⟩
    | fromJob _ b _ hb _ => exact ⟨b, hb⟩
    | _ => cases ht
  obtain ⟨b, hb⟩ := hu
  have hreads : u.ReadsReply := by
    rintro now todo rfl
    cases hb
  have hlabels := h.puts hreads hputs
  rw [h.actor hb] at hlabels
  simpa using (List.append_eq_nil_iff.mp hlabels.symm).2

theorem jobCompleted (h : Flow f g) (p : JobPtr) : g (.jobCompleted p) = none := by
  let a : ExecutionActor := ⟨0, { job := p, machineIds := { elements := [] } }⟩
  have hputs : (Thread.cancelled a).Puts (.jobCompleted p) (some (.notified a)) :=
    .completed _ a rfl (by simp)
  exact h.message_of_actor hputs rfl

theorem killSteps (h : Flow f g) {p q : Pool IPMessage Thread} (hsteps : KillSteps p q)
    (hp : Placed p) (hwoken : p.woken = []) : q.labels f g = p.labels f g :=
  hsteps.labels (fun ht => h.actor ht) (fun hputs ht => h.message_of_actor hputs ht) hp hwoken

/-- A run of an actor moves labels, and neither loses nor makes one. -/
theorem moves (h : Flow f g) {t : Thread} {p q p' : Pool IPMessage Thread} (hp : Placed p)
    (ht : t.isServer = false) (hreads : t.ReadsReply) (hnext : p.next? = some (.resume t, q))
    (hmoves : t.Moves q p') : p'.labels f g = p.labels f g := by
  rw [Pool.labels_resume f g hnext]
  cases hmoves with
  | ends hend => simp [h.ends hend]
  | waits u hu => rw [Pool.labels_block, h.waits hu]
  | puts q' m sender hputs hkill =>
    have hsame : q'.labels f g = q.labels f g := by
      obtain rfl | ⟨hkiller, hsteps⟩ := hkill
      · rfl
      · have hfresh : t.startsFresh = true := by cases t <;> first | rfl | cases hkiller
        exact h.killSteps hsteps (hp.next ht hnext) (hp.woken_eq_nil hfresh hnext).2
    rw [Pool.labels_put, hsame, h.puts hreads hputs, Multiset.coe_add]

variable {cfg : Config} {guard : Sim → Choice → Prop} {s s' : Sim} {c : Choice}

theorem labels_endOfTurn (h : Flow f g) {u : Sim} (hend : endOfTurn cfg u = .ok s') :
    s'.pool.labels f g = u.pool.labels f g := by
  obtain ⟨ts, hpool, hts⟩ := endOfTurn_pool hend
  have hpool' : s'.pool = { u.pool with
      fresh := u.pool.fresh ++ ts, blocked := u.pool.blocked ++ [] } := by simpa using hpool
  have hnone : (ts ++ []).filterMap f = [] := by
    rw [List.filterMap_eq_nil_iff]
    intro t ht
    obtain ⟨message, rfl⟩ := hts t (by simpa using ht)
    exact h.ends rfl
  rw [Pool.labels_of_eq f g hpool', hnone]
  simp

/-- The server takes what is left on the message that it handles, and creates what the actors
`ts` carry. -/
theorem labels_handleMessage (h : Flow f g) {m : IPMessage} {pool : Pool IPMessage Thread}
    {t : Sim} (hnext : s.pool.next? = some (.deliver m, pool))
    (ht : handleMessage cfg { s with pool := pool } m = .ok t) :
    ∃ ts : List Thread, t.pool.fresh = pool.fresh ++ ts ∧ (∀ u ∈ ts, u.launchedBy m = true) ∧
      ((g m).toList : Multiset A) + t.pool.labels f g =
        (ts.filterMap f : List A) + s.pool.labels f g := by
  obtain ⟨ts, bs, hpool, hts, hbs⟩ := handleMessage_pool ht
  have hlaunched : (ts ++ bs).filterMap f = ts.filterMap f := by
    obtain ⟨-, rfl⟩ | ⟨job, mailbox, rfl⟩ := hbs
    · simp
    · have hback : f (.serverCallback job mailbox) = none := h.server rfl
      simp [hback]
  refine ⟨ts, by rw [hpool], hts, ?_⟩
  rw [Pool.labels_of_eq f g hpool, hlaunched, Pool.labels_deliver f g hnext]
  ac_rfl

theorem labels_callback (h : Flow f g) {o : Outcome} {p : JobPtr} {mailbox : String}
    {pool : Pool IPMessage Thread}
    (hnext : s.pool.next? = some (.resume (.serverCallback p mailbox), pool))
    (hrun : runThread cfg { s with pool := pool } o (.serverCallback p mailbox) = .ok s') :
    s'.pool.labels f g = s.pool.labels f g := by
  obtain ⟨t, ht, hend⟩ := serverCallback_cases hrun
  obtain ⟨-, -, hpool, -⟩ := serverOnCallbackReceived_frame ht
  have hback : f (.serverCallback p mailbox) = none := h.server rfl
  have hsame : (t.noteHandled (.jobCompleted p)).pool = pool := hpool
  rw [h.labels_endOfTurn hend, hsame, Pool.labels_resume f g hnext, hback]
  simp

theorem labels_start (h : Flow f g) {pool : Pool IPMessage Thread}
    (hnext : s.pool.next? = some (.resume .serverProcess, pool))
    (hrun : serverProcess cfg { s with pool := pool } = .ok s') :
    s'.pool.labels f g = s.pool.labels f g := by
  have hserver : f .serverProcess = none := h.server rfl
  have hpool : s'.pool = { pool with
      fresh := pool.fresh ++ [.requestReply (s.logged .simulationBegins).writer.events]
      blocked := pool.blocked ++ [] } := by
    rw [serverProcess_effect hrun]
    simp [messageSent, logged, Pool.spawn]
  have hreader : f (.requestReply (s.logged .simulationBegins).writer.events) = none := h.ends rfl
  rw [Pool.labels_of_eq f g hpool, Pool.labels_resume f g hnext, hserver]
  simp [hreader]

theorem labels_actor (h : Flow f g) (hr : Reaches (batsim cfg) guard s) {o : Outcome} {t : Thread}
    {pool : Pool IPMessage Thread} (ht : t.isServer = false)
    (hnext : s.pool.next? = some (.resume t, pool))
    (hrun : runThread cfg { s with pool := pool } o t = .ok s') :
    s'.pool.labels f g = s.pool.labels f g := by
  have howned := reaches_owned hr
  obtain ⟨hmoves, -⟩ := runThread_moves (s := { s with pool := pool }) howned ht hrun
  have hthread : t ∈ s.pool.threads :=
    (Pool.next?_resume hnext).1.mem_iff.mpr (List.mem_cons_self ..)
  exact h.moves (reaches_placed hr) ht (reaches_readsReply hr hthread) hnext hmoves

/-- What is carried, and what was left to the server. -/
def total (f : Thread → Option A) (g : IPMessage → Option A) (s : Sim) : Multiset A :=
  s.pool.labels f g + (s.history.handled.filterMap g : List A)

theorem total_noteHandled (s : Sim) (m : IPMessage) :
    total f g (s.noteHandled m) = ((g m).toList : Multiset A) + total f g s := by
  have hmessage : [m].filterMap g = (g m).toList := by
    cases hg : g m <;> simp [hg]
  simp only [total, Sim.noteHandled, List.filterMap_append, hmessage, ← Multiset.coe_add]
  ac_rfl

theorem total_endOfTurn (h : Flow f g) {u : Sim} (hend : endOfTurn cfg u = .ok s') :
    total f g s' = total f g u := by
  have hhandled : s'.history.handled = u.history.handled := by
    obtain rfl | ⟨workloads, hflush⟩ | hfinish := endOfTurn_cases hend
    · rfl
    · rw [hflush.eq]
      rfl
    · rw [hfinish.eq]
      rfl
  rw [total, h.labels_endOfTurn hend, hhandled, total]

/-- In a step, only the actors that the server creates bring something new. -/
theorem total_step (h : Flow f g) (hr : Reaches (batsim cfg) guard s)
    (hstep : (batsim cfg).step s c = .ok s') :
    ∃ ts : List Thread, (∀ t ∈ ts, ∃ m, t.launchedBy m = true) ∧
      total f g s' = (ts.filterMap f : List A) + total f g s := by
  have hsame : s'.pool.labels f g = s.pool.labels f g →
      s'.history.handled = s.history.handled → ∃ ts : List Thread,
        (∀ t ∈ ts, ∃ m, t.launchedBy m = true) ∧
          total f g s' = (ts.filterMap f : List A) + total f g s :=
    fun hlabels hhandled => ⟨[], by simp, by simp [total, hlabels, hhandled]⟩
  cases step_kind hstep with
  | solve clock receive wakes rest order pool hcan hsolve hs' =>
    subst hs'
    exact hsame (Pool.labels_solve f g hsolve) rfl
  | turn o m pool hnext hturn =>
    obtain ⟨t, ht, hend⟩ := turn_cases hturn
    obtain ⟨ts, -, hts, hlabels⟩ := h.labels_handleMessage hnext ht
    have hhandled : t.history.handled = s.history.handled := by
      obtain ⟨_, hhandled⟩ := handleMessage_effect ht
      exact hhandled.keeps.handled
    have htotal : ((g m).toList : Multiset A) + total f g t =
        (ts.filterMap f : List A) + total f g s := by
      rw [total, ← add_assoc, hlabels, hhandled, total, add_assoc]
    refine ⟨ts, fun u hu => ⟨m, hts u hu⟩, ?_⟩
    obtain ⟨hback, rfl⟩ | ⟨-, hend⟩ := hend
    · obtain ⟨p, _, rfl, -⟩ := callsBack_eq_true.mp hback
      simpa [h.jobCompleted] using htotal
    · rw [h.total_endOfTurn hend, total_noteHandled, htotal]
  | callback o p mailbox pool hnext hrun =>
    have hlabels := h.labels_callback hnext hrun
    obtain ⟨t, ht, hend⟩ := serverCallback_cases hrun
    obtain ⟨hkeeps, -⟩ := serverOnCallbackReceived_frame ht
    have hhandled : t.history.handled = s.history.handled := hkeeps.handled
    refine ⟨[], by simp, ?_⟩
    have htotal := h.total_endOfTurn hend
    have hpool : t.pool.labels f g = s.pool.labels f g := by
      rw [← hlabels, h.labels_endOfTurn hend]
      rfl
    rw [htotal, total_noteHandled, h.jobCompleted, total, total, hhandled, hpool]
    simp
  | start o pool hnext hrun =>
    refine hsame (h.labels_start hnext hrun) ?_
    rw [serverProcess_effect hrun]
    rfl
  | actor o t pool ht hnext hrun =>
    have howned := reaches_owned hr
    obtain ⟨-, hkeeps⟩ := runThread_moves (s := { s with pool := pool }) howned ht hrun
    exact hsame (h.labels_actor hr ht hnext hrun) hkeeps.handled

/-- When no created actor brings something, what the first actors carry is all there ever is. -/
theorem total_eq (h : Flow f g) (hlaunched : ∀ m t, t.launchedBy m = true → f t = none)
    (hr : Reaches (batsim cfg) guard s) :
    total f g s = ((initialThreads cfg).filterMap f : List A) := by
  induction hr with
  | start => simp [total, batsim, start, Pool.labels, Pool.threads, Pool.queue]
  | @step s s' c hr _ hstep ih =>
    obtain ⟨ts, hts, htotal⟩ := h.total_step hr hstep
    have hnone : ts.filterMap f = [] := by
      rw [List.filterMap_eq_nil_iff]
      intro t ht
      obtain ⟨m, hm⟩ := hts t ht
      exact hlaunched m t hm
    rw [htotal, hnone, ih]
    simp

end Flow

/-! ### Counters of activities -/

theorem endOfTurn_activities {cfg : Config} {u s' : Sim} (h : endOfTurn cfg u = .ok s') :
    SameActivities u s' := by
  obtain rfl | ⟨workloads, hflush⟩ | hfinish := endOfTurn_cases h
  · exact ⟨rfl, rfl, rfl⟩
  · rw [hflush.eq]
    exact ⟨rfl, rfl, rfl⟩
  · rw [hfinish.eq]
    exact ⟨rfl, rfl, rfl⟩

/-- A number that grows with the actors created and shrinks with the messages handled is the number
of those under way. -/
structure Counts {A : Type} (f : Thread → Option A) (g : IPMessage → Option A) (nb : Sim → Int) :
    Prop where
  flow : Flow f g
  same : ∀ {s s' : Sim}, SameActivities s s' → nb s' = nb s
  handled : ∀ {m : IPMessage} {s s' : Sim} {ts : List Thread}, Handled m s s' ts →
    nb s' = nb s + ts.countP (fun t => (f t).isSome) - if (g m).isSome then 1 else 0

theorem Counts.reaches {A : Type} {f : Thread → Option A} {g : IPMessage → Option A}
    {nb : Sim → Int} {cfg : Config} {guard : Sim → Choice → Prop} {s : Sim} (h : Counts f g nb)
    (hzero : nb (start cfg) = 0)
    (hinitial : ∀ t ∈ initialThreads cfg, f t = none)
    (hr : Reaches (batsim cfg) guard s) : nb s = (s.pool.labels f g).card := by
  refine hr.invariant (P := fun s => nb s = (s.pool.labels f g).card) ?_ ?_
  · have hnone : (initialThreads cfg).filterMap f = [] := List.filterMap_eq_nil_iff.mpr hinitial
    have hlabels : (start cfg).pool.labels f g = 0 := by
      simp [start, Pool.labels, Pool.threads, Pool.queue, hnone]
    exact hzero.trans (congrArg (fun x => (x.card : Int)) hlabels).symm
  intro s s' c hr hs _ hstep
  have hkept : ∀ {u : Sim}, SameActivities s u → u.pool.labels f g = s.pool.labels f g →
      nb u = (u.pool.labels f g).card := by
    intro u hsame hlabels
    rw [h.same hsame, hlabels, hs]
  cases step_kind hstep with
  | solve clock receive wakes rest order pool hcan hsolve hs' =>
    subst hs'
    exact hkept ⟨rfl, rfl, rfl⟩ (Pool.labels_solve f g hsolve)
  | turn o m pool hnext hturn =>
    obtain ⟨t, ht, hend⟩ := turn_cases hturn
    obtain ⟨ts, hfresh, -, hlabels⟩ := h.flow.labels_handleMessage hnext ht
    obtain ⟨ts', hhandled⟩ := handleMessage_effect ht
    obtain rfl : ts = ts' := List.append_cancel_left (hfresh.symm.trans hhandled.fresh)
    have hnb : nb t = (t.pool.labels f g).card := by
      have hold : nb { s with pool := pool } = nb s := h.same ⟨rfl, rfl, rfl⟩
      have hcard := congrArg Multiset.card hlabels
      rw [Multiset.card_add, Multiset.card_add, Multiset.coe_card, Multiset.coe_card,
        List.length_filterMap_eq_countP] at hcard
      have hone : (g m).toList.length = if (g m).isSome then 1 else 0 := by
        cases g m <;> rfl
      rw [h.handled hhandled, hold, hs]
      rw [hone] at hcard
      split at hcard <;> simp_all <;> omega
    obtain ⟨-, rfl⟩ | ⟨-, hend⟩ := hend
    · exact hnb
    · rw [h.flow.labels_endOfTurn hend, h.same (endOfTurn_activities hend)]
      have hnoted : nb (t.noteHandled m) = nb t := h.same ⟨rfl, rfl, rfl⟩
      exact hnoted.trans hnb
  | callback o p mailbox pool hnext hrun =>
    obtain ⟨t, ht, hend⟩ := serverCallback_cases hrun
    obtain ⟨-, -, -, -, -, hsame⟩ := serverOnCallbackReceived_frame ht
    have hfirst : SameActivities s (t.noteHandled (.jobCompleted p)) :=
      ⟨hsame.nbSwitchingMachines, hsame.nbWaiters, hsame.nbKillers⟩
    exact hkept (hfirst.trans (endOfTurn_activities hend)) (h.flow.labels_callback hnext hrun)
  | start o pool hnext hrun =>
    refine hkept ?_ (h.flow.labels_start hnext hrun)
    rw [serverProcess_effect hrun]
    exact ⟨rfl, rfl, rfl⟩
  | actor o t pool ht hnext hrun =>
    have howned := reaches_owned hr
    obtain ⟨-, hkeeps⟩ := runThread_moves (s := { s with pool := pool }) howned ht hrun
    refine hkept ?_ (h.flow.labels_actor hr ht hnext hrun)
    exact ⟨congrArg ServerData.nbSwitchingMachines hkeeps.data,
      congrArg ServerData.nbWaiters hkeeps.data, congrArg ServerData.nbKillers hkeeps.data⟩

end Batsim
