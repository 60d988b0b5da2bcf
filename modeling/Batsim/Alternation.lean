import Batsim.Threads

/-!
The exchange with the scheduler: one request at a time, its answer read in order, no event lost.
-/

namespace Batsim

open Checked Workloads Sim StepSystem

/-- The actors that read a reply of the scheduler. -/
def Thread.isReader : Thread → Bool
  | requestReply _ | applyReply _ _ => true
  | _ => false

/-- The messages of readers that the server has not handled yet, in order. -/
def requests (p : Pool IPMessage Thread) : List IPMessage :=
  p.queue.filter IPMessage.fromScheduler

@[simp] theorem requests_put (p : Pool IPMessage Thread) (m : IPMessage)
    (sender : Option Thread) :
    requests (p.put m sender) = requests p ++ if m.fromScheduler then [m] else [] := by
  cases hm : m.fromScheduler <;> simp [requests, hm]

@[simp] theorem requests_block (p : Pool IPMessage Thread) (t : Thread) :
    requests (p.block t) = requests p := rfl

/-- A request and the reader of its reply are never outstanding twice: while the scheduler is
ready there is none, else a reader lives or its last message is on its way. -/
structure Alternates (p : Pool IPMessage Thread) (ready : Bool) : Prop where
  balance : p.count Thread.isReader + (requests p).count .schedReady = if ready then 0 else 1
  quiet : ready = true → requests p = []
  last : (requests p).Pairwise fun a _ => a ≠ .schedReady

/-! ### Actors that are not readers -/

theorem Thread.Puts.of_not_reader {t : Thread} {m : IPMessage} {sender : Option Thread}
    (h : t.Puts m sender) (ht : t.isReader = false) :
    m.fromScheduler = false ∧ ∀ u, sender = some u → u.isReader = false := by
  cases h with
  | firstReply | reply => cases ht
  | _ => exact ⟨rfl, by simp [Thread.isReader]⟩

/-- The messages that actors of jobs send are not requests of the scheduler. -/
theorem Thread.Puts.of_actor {t u : Thread} {m : IPMessage} (h : t.Puts m (some u))
    {a : ExecutionActor} (hu : u.actor? = some a) : m.fromScheduler = false := by
  cases h with
  | firstReply _ _ _ _ hsender _ =>
    obtain ⟨rest, rfl⟩ := hsender _ rfl
    cases hu
  | reply _ _ _ _ hsender _ =>
    obtain ⟨rest, rfl⟩ := hsender _ rfl
    cases hu
  | _ => rfl

/-- A killer loses no request and no reader. -/
theorem KillSteps.requests {p q : Pool IPMessage Thread} (h : KillSteps p q) (hp : Placed p)
    (hwoken : p.woken = []) :
    q.count Thread.isReader = p.count Thread.isReader ∧ Batsim.requests q = Batsim.requests p ∧
      ∀ u : Thread, u.isReader = true → (u ∈ q.threads ↔ u ∈ p.threads) := by
  induction h with
  | refl => exact ⟨rfl, rfl, fun _ _ => Iff.rfl⟩
  | @interrupt q n hsteps ih =>
    obtain ⟨hcount, hrequests, hmem⟩ := ih
    have hhit : ∀ t : Thread, t.waitsOnPtask n = true →
        t.isReader = false ∧ t.cancel.isReader = false := by
      intro t ht
      obtain ⟨a, rfl, -⟩ := Thread.waitsOnPtask_eq_true ht
      exact ⟨rfl, rfl⟩
    refine ⟨?_, hrequests, fun u hu => ?_⟩
    · rw [Pool.count_interrupt q _ _ fun t _ ht => by rw [(hhit t ht).1, (hhit t ht).2], hcount]
    · rw [← hmem u hu, Pool.mem_threads_interrupt, Pool.mem_threads]
      have hcancelled : ¬ ∃ t ∈ q.blocked, t.waitsOnPtask n = true ∧ t.cancel = u := by
        rintro ⟨t, -, ht, rfl⟩
        rw [(hhit t ht).2] at hu
        cases hu
      have hstays : u.waitsOnPtask n = false := by
        cases hw : u.waitsOnPtask n with
        | false => rfl
        | true =>
          rw [(hhit u hw).1] at hu
          cases hu
      simp [hcancelled, hstays]
  | @kill q actors hsteps ih =>
    obtain ⟨hcount, hrequests, hmem⟩ := ih
    obtain ⟨hq, hqwoken⟩ := hp.killSteps hwoken hsteps
    have hdead : ∀ t : Thread, t.isReader = true → t.isActorIn actors = false := by
      intro t ht
      cases t <;> first | rfl | cases ht
    refine ⟨?_, ?_, fun u hu => ?_⟩
    · rw [Pool.count_kill_of_disjoint q _ hdead, hcount]
    · rw [← hrequests]
      simp only [Batsim.requests, Pool.queue, Pool.kill, hqwoken, List.filter_nil,
        List.filterMap_nil, List.nil_append, List.filter_map, List.filter_filter]
      congr 1
      refine List.filter_congr fun x hx => ?_
      obtain ⟨m, sender⟩ := x
      cases sender with
      | none => simp
      | some t =>
        cases hdt : t.isActorIn actors with
        | false => simp [hdt]
        | true =>
          obtain ⟨u, hu⟩ := hq.mailbox m t hx
          simp only [Thread.isActorIn] at hdt
          cases hactor : t.actor? with
          | none => simp [hactor] at hdt
          | some a => simp [hu.of_actor hactor]
    · rw [Pool.mem_threads_kill, hmem u hu, hdead u hu]
      simp

/-- A run of an actor that is not a reader changes neither the requests nor the readers. -/
theorem Thread.Moves.requests {t : Thread} {p q p' : Pool IPMessage Thread} (hp : Placed p)
    (hserver : t.isServer = false) (ht : t.isReader = false)
    (hnext : p.next? = some (.resume t, q)) (h : t.Moves q p') :
    p'.count Thread.isReader = p.count Thread.isReader ∧ Batsim.requests p' = Batsim.requests p ∧
      ∀ u : Thread, u.isReader = true → (u ∈ p'.threads ↔ u ∈ p.threads) := by
  obtain ⟨hperm, hqueue⟩ := Pool.next?_resume hnext
  have hcount : p.count Thread.isReader = q.count Thread.isReader := by
    simpa [ht] using Pool.count_next?_resume hnext Thread.isReader
  have hrequests : Batsim.requests q = Batsim.requests p := by
    rw [Batsim.requests, Batsim.requests, hqueue]
  have hmem : ∀ u : Thread, u.isReader = true → (u ∈ q.threads ↔ u ∈ p.threads) := by
    intro u hu
    rw [hperm.mem_iff, List.mem_cons]
    constructor
    · exact .inr
    · rintro (rfl | hmem)
      · rw [ht] at hu
        cases hu
      · exact hmem
  cases h with
  | ends => exact ⟨hcount.symm, hrequests, hmem⟩
  | waits u hu =>
    have hreader : u.isReader = false := by
      cases hu with
      | reply _ _ _ hor => obtain ⟨_, rfl⟩ | ⟨_, rfl⟩ := hor <;> cases ht
      | _ => rfl
    refine ⟨by simp [hreader, hcount], hrequests, fun v hv => ?_⟩
    rw [Pool.mem_threads_block, ← hmem v hv]
    constructor
    · rintro (rfl | hmem)
      · rw [hreader] at hv
        cases hv
      · exact hmem
    · exact .inr
  | puts q' m sender hputs hkill =>
    obtain ⟨hm, hsender⟩ := hputs.of_not_reader ht
    have hsteps : q'.count Thread.isReader = q.count Thread.isReader ∧
        Batsim.requests q' = Batsim.requests q ∧
        ∀ u : Thread, u.isReader = true → (u ∈ q'.threads ↔ u ∈ q.threads) := by
      obtain rfl | ⟨hkiller, hsteps⟩ := hkill
      · exact ⟨rfl, rfl, fun _ _ => Iff.rfl⟩
      · have hfresh : t.startsFresh = true := by cases t <;> first | rfl | cases hkiller
        exact hsteps.requests (hp.next hserver hnext) (hp.woken_eq_nil hfresh hnext).2
    obtain ⟨hcount', hrequests', hmem'⟩ := hsteps
    have hany : sender.any Thread.isReader = false := by
      cases sender with
      | none => rfl
      | some u => exact hsender u rfl
    refine ⟨by simp [hany, hcount', hcount], by simp [hm, hrequests', hrequests], fun u hu => ?_⟩
    rw [Pool.mem_threads_put, hmem' u hu, hmem u hu]
    constructor
    · rintro (hsome | hmem)
      · rw [hsender u hsome] at hu
        cases hu
      · exact hmem
    · exact .inr

/-! ### Readers -/

/-- What the readers have sent so far: all that past replies ask for, and the beginning of what
the present one does. -/
structure Reads (s : Sim) : Prop where
  order : (s.history.handled ++ s.pool.queue).filter IPMessage.fromScheduler =
    s.history.replies.flatMap Prod.snd
  past : ∀ x ∈ s.history.replies.dropLast, x.2 = x.1.messages
  present : ∀ now todo, .applyReply now todo ∈ s.pool.threads → ∃ r ms,
    s.history.replies.getLast? = some (r, ms) ∧
    ms ++ todo.flatMap ReplyItem.messages = r.messages ∧
    ∃ d, todo.getLast? = some (.send d .schedReady)
  idle : (∀ now todo, .applyReply now todo ∉ s.pool.threads) →
    ∀ x ∈ s.history.replies, x.2 = x.1.messages

theorem Reply.messages_fromScheduler {r : Reply} {m : IPMessage} (h : m ∈ r.messages) :
    m.fromScheduler = true := by
  simp only [messages, List.mem_append, List.mem_flatMap, List.mem_singleton] at h
  obtain ⟨e, -, hm⟩ | rfl := h
  · exact SchedulerEventData.fromScheduler_of_mem hm
  · rfl

theorem SchedulerEventData.ne_schedReady_of_mem {d : SchedulerEventData} {m : IPMessage}
    (h : m ∈ d.messages) : m ≠ .schedReady := by
  cases d with
  | query requests =>
    simp only [messages, List.mem_map] at h
    obtain ⟨q, -, rfl⟩ := h
    cases q <;> simp
  | answer => simp [messages] at h
  | notify type =>
    simp only [messages, List.mem_singleton] at h
    subst h
    split <;> simp
  | _ =>
    simp only [messages, List.mem_singleton] at h
    simp [h]

/-- Before the last message of a reply, no message says that the scheduler is ready. -/
theorem Reply.ne_schedReady_of_not_last {r : Reply} {ms rest : List IPMessage} {m : IPMessage}
    (h : ms ++ m :: rest = r.messages) (hrest : rest ≠ []) : m ≠ .schedReady := by
  have hinit : (ms ++ m :: rest).dropLast = r.events.flatMap fun e => e.data.messages := by
    rw [h, messages, List.dropLast_concat]
  rw [List.dropLast_append_of_ne_nil (by simp), List.dropLast_cons_of_ne_nil hrest] at hinit
  have hmem : m ∈ r.events.flatMap fun e => e.data.messages := by
    rw [← hinit]
    simp
  obtain ⟨e, -, hm⟩ := List.mem_flatMap.mp hmem
  exact SchedulerEventData.ne_schedReady_of_mem hm

theorem flatMap_messages_ne_nil {items : List ReplyItem} {d : Date}
    (h : items.getLast? = some (.send d .schedReady)) :
    items.flatMap ReplyItem.messages ≠ [] := by
  have hmem : IPMessage.schedReady ∈ items.flatMap ReplyItem.messages :=
    List.mem_flatMap.mpr ⟨_, List.mem_of_getLast? h, by simp [ReplyItem.messages]⟩
  exact List.ne_nil_of_mem hmem

theorem flatMap_messages_map_send (date : Date) (ms : List IPMessage) :
    (ms.map (ReplyItem.send date)).flatMap ReplyItem.messages = ms := by
  simp [List.flatMap_map, ReplyItem.messages]

/-- The only reader sends its next message, or waits to send it. -/
theorem sendAtTime_reads {now : Date} {s : Sim} {date : Date} {m : IPMessage}
    {rest : List ReplyItem} {r : Reply} {ms : List IPMessage} {init : List (Reply × List IPMessage)}
    (hreplies : s.history.replies = init ++ [(r, ms)])
    (hmessages : ms ++ m :: rest.flatMap ReplyItem.messages = r.messages)
    (hrest : (rest = [] ∧ m = .schedReady) ∨ ∃ d, rest.getLast? = some (.send d .schedReady))
    (hpast : ∀ x ∈ init, x.2 = x.1.messages) (hnone : s.pool.count Thread.isReader = 0)
    (hready : (requests s.pool).count .schedReady = 0)
    (horder : (s.history.handled ++ s.pool.queue).filter IPMessage.fromScheduler =
      s.history.replies.flatMap Prod.snd) :
    Alternates (sendAtTime now s date m rest).pool false ∧ Reads (sendAtTime now s date m rest) := by
  have hfrom : m.fromScheduler = true := by
    refine Reply.messages_fromScheduler (r := r) ?_
    rw [← hmessages]
    simp
  have hnot : ∀ a ∈ requests s.pool, a ≠ .schedReady := by
    intro a ha heq
    exact absurd (List.count_pos_iff.mpr (heq ▸ ha)) (by omega)
  have hreader : ∀ u : Thread, u.isReader = true → u ∉ s.pool.threads := by
    intro u hu hmem
    rw [Pool.count_eq_zero.mp hnone u hmem] at hu
    cases hu
  obtain hsend | hsend := sendAtTime_cases now s date m rest <;> rw [hsend]
  · -- the reader sleeps until the date of the message
    refine ⟨⟨?_, by simp, ?_⟩, horder, ?_, ?_, ?_⟩
    · simp [Sim.block, hnone, hready, Thread.isReader]
    · simp only [Sim.block, requests_block]
      exact List.pairwise_of_forall_mem_list fun a ha _ _ => hnot a ha
    · simpa [Sim.block, hreplies] using hpast
    · intro now' todo hmem
      simp only [Sim.block, Pool.mem_threads_block] at hmem
      obtain heq | hmem := hmem
      · cases heq
        refine ⟨r, ms, by simp [Sim.block, hreplies], by simpa [ReplyItem.messages] using hmessages, ?_⟩
        obtain ⟨rfl, rfl⟩ | ⟨d, hd⟩ := hrest
        · exact ⟨date, rfl⟩
        · exact ⟨d, by rw [List.getLast?_cons, hd]; rfl⟩
      · exact absurd hmem (hreader _ rfl)
    · intro hno
      exact absurd (by simp [Sim.block]) (hno now (.send date m :: rest))
  · -- the reader offers the message
    have hhistory : ((s.put m (if rest = [] then none else some (.applyReply now rest))).noteSent
        m).history.replies = init ++ [(r, ms ++ [m])] := by
      simp [noteSent, Sim.put, hreplies]
    have hhandled : ((s.put m (if rest = [] then none else some (.applyReply now rest))).noteSent
        m).history.handled = s.history.handled := by
      simp [noteSent, Sim.put, hreplies]
    generalize hu : (s.put m (if rest = [] then none
      else some (.applyReply now rest))).noteSent m = u at hhistory hhandled ⊢
    have hpool : u.pool = s.pool.put m (if rest = [] then none else some (.applyReply now rest)) := by
      rw [← hu, noteSent_pool]
      rfl
    have horder' : (u.history.handled ++ u.pool.queue).filter IPMessage.fromScheduler =
        u.history.replies.flatMap Prod.snd := by
      rw [hreplies] at horder
      simp only [List.filter_append, List.flatMap_append, List.flatMap_cons, List.flatMap_nil,
        List.append_nil] at horder
      rw [hhandled, hhistory, hpool, Pool.queue_put]
      simp only [List.filter_append, List.flatMap_append, List.flatMap_cons, List.flatMap_nil,
        List.append_nil, ← List.append_assoc, horder]
      simp [hfrom]
    refine ⟨⟨?_, by simp, ?_⟩, horder', ?_, ?_, ?_⟩
    · rw [hpool]
      obtain ⟨rfl, rfl⟩ | ⟨d, hd⟩ := hrest
      · simp [hnone, hready, IPMessage.fromScheduler]
      · have hne : rest ≠ [] := by
          rintro rfl
          cases hd
        have hm : m ≠ .schedReady :=
          Reply.ne_schedReady_of_not_last hmessages (flatMap_messages_ne_nil hd)
        simp [hnone, hready, hfrom, hne, Thread.isReader, hm]
    · rw [hpool, requests_put, hfrom, if_pos rfl, List.pairwise_append]
      exact ⟨List.pairwise_of_forall_mem_list fun a ha _ _ => hnot a ha, by simp,
        fun a ha _ _ => hnot a ha⟩
    · simpa [hhistory] using hpast
    · intro now' todo hmem
      rw [hpool, Pool.mem_threads_put] at hmem
      obtain hsome | hmem := hmem
      · obtain ⟨rfl, rfl⟩ | ⟨d, hd⟩ := hrest
        · simp at hsome
        · split at hsome
          · cases hsome
          · cases hsome
            exact ⟨r, ms ++ [m], by simp [hhistory], by simpa using hmessages, d, hd⟩
      · exact absurd hmem (hreader _ rfl)
    · intro hno x hx
      rw [hhistory] at hx
      rcases List.mem_append.mp hx with hx | hx
      · exact hpast x hx
      · obtain ⟨rfl, rfl⟩ | ⟨d, hd⟩ := hrest
        · rw [List.mem_singleton.mp hx]
          simpa using hmessages
        · have hne : rest ≠ [] := by
            rintro rfl
            cases hd
          exact absurd (by simp [hpool, hne]) (hno now rest)

/-- A reader runs, in a pool where no other does. -/
theorem applyReply_reads {cfg : Config} {now : Date} {s s' : Sim} {todo : List ReplyItem}
    {r : Reply} {ms : List IPMessage} {init : List (Reply × List IPMessage)}
    (howned : s.workloads.Owned) (h : applyReply cfg now s todo = .ok s')
    (hreplies : s.history.replies = init ++ [(r, ms)])
    (hmessages : ms ++ todo.flatMap ReplyItem.messages = r.messages)
    (hlast : ∃ d, todo.getLast? = some (.send d .schedReady))
    (hpast : ∀ x ∈ init, x.2 = x.1.messages) (hnone : s.pool.count Thread.isReader = 0)
    (hready : (requests s.pool).count .schedReady = 0)
    (horder : (s.history.handled ++ s.pool.queue).filter IPMessage.fromScheduler =
      s.history.replies.flatMap Prod.snd) :
    Alternates s'.pool false ∧ Reads s' := by
  obtain ⟨d, hd⟩ := hlast
  obtain ⟨rfl, hskip⟩ | ⟨skipped, item, tail, t, new, date, m, ms', rfl, hskip, hitem, hadds, -,
    rfl⟩ := applyReply_effect howned h
  · exact absurd (hskip _ (List.mem_of_getLast? hd)) (by simp [ReplyItem.messages])
  · have hskipped : skipped.flatMap ReplyItem.messages = [] :=
      List.flatMap_eq_nil_iff.mpr hskip
    have hpool := hadds.pool
    have hhistory : t.history = s.history := by
      rw [hadds.eq]
      cases new <;> rfl
    refine sendAtTime_reads (hhistory ▸ hreplies) ?_ ?_ hpast (hpool ▸ hnone) (hpool ▸ hready)
      (by rw [hpool, hhistory]; exact horder)
    · simpa [hskipped, hitem, flatMap_messages_map_send] using hmessages
    · cases tail with
      | nil =>
        rw [List.getLast?_append_of_ne_nil _ (by simp), List.getLast?_singleton,
          Option.some.injEq] at hd
        subst hd
        simp only [ReplyItem.messages, List.cons.injEq] at hitem
        obtain ⟨rfl, rfl⟩ := hitem
        exact .inl ⟨rfl, rfl⟩
      | cons i tail =>
        right
        refine ⟨d, ?_⟩
        rw [List.getLast?_append_of_ne_nil _ (by simp), List.getLast?_cons_cons] at hd
        rw [List.getLast?_append_of_ne_nil _ (by simp), hd]

/-! ### Every run -/

/-- The exchange with the scheduler, in one state. -/
structure Exchange (s : Sim) : Prop where
  alternates : Alternates s.pool s.data.schedReady
  reads : Reads s
  /-- the events appended are those sent and those that the writer still holds -/
  appended : s.history.appended = s.history.sent.flatten ++ s.writer.events
  isEmpty : s.writer.isEmpty = true ↔ s.writer.events = []
  readyWhenSent : ∀ b ∈ s.history.readyWhenSent, b = true

/-- The messages `ms` of the readers are handled, or none is; the readers and the record of the
replies do not change. -/
theorem Exchange.of_handled {s s' : Sim} {ms : List IPMessage} (h : Exchange s)
    (hms : ms = [] ∨ ∃ m, ms = [m])
    (hcount : s'.pool.count Thread.isReader = s.pool.count Thread.isReader)
    (hrequests : requests s.pool = ms ++ requests s'.pool)
    (hmem : ∀ u : Thread, u.isReader = true → (u ∈ s'.pool.threads ↔ u ∈ s.pool.threads))
    (hready : s'.data.schedReady = (s.data.schedReady || ms.contains .schedReady))
    (hhandled : s'.history.handled.filter IPMessage.fromScheduler =
      s.history.handled.filter IPMessage.fromScheduler ++ ms)
    (hreplies : s'.history.replies = s.history.replies)
    (hsent : s'.history.sent = s.history.sent)
    (hreadyWhenSent : s'.history.readyWhenSent = s.history.readyWhenSent)
    (hlogs : ∃ es, Logs s s' es) : Exchange s' := by
  obtain ⟨es, hlogs⟩ := hlogs
  have halternates : Alternates s'.pool s'.data.schedReady := by
    have hlast := h.alternates.last
    have hquiet := h.alternates.quiet
    have hbalance := h.alternates.balance
    rw [hrequests] at hlast hquiet hbalance
    rw [← hcount] at hbalance
    rw [hready]
    obtain rfl | ⟨m, rfl⟩ := hms
    · simp only [List.nil_append, List.contains_nil, Bool.or_false] at *
      exact ⟨hbalance, hquiet, hlast⟩
    · -- a request is handled, so the scheduler was not ready
      simp only [List.singleton_append, List.pairwise_cons] at hlast
      have hbusy : s.data.schedReady = false := by
        cases hs : s.data.schedReady with
        | false => rfl
        | true => simpa using hquiet hs
      rw [hbusy] at hbalance ⊢
      cases heq : decide (m = IPMessage.schedReady) with
      | true =>
        obtain rfl := of_decide_eq_true heq
        have hnone : requests s'.pool = [] := by
          refine List.eq_nil_iff_forall_not_mem.mpr fun a ha => ?_
          exact hlast.1 a ha rfl
        refine ⟨?_, fun _ => hnone, by simp [hnone]⟩
        simp only [hnone, List.singleton_append, List.count_singleton_self] at hbalance
        simpa [hnone] using hbalance
      | false =>
        have hne := of_decide_eq_false heq
        refine ⟨?_, by simp [Ne.symm hne], hlast.2⟩
        simpa [hne, Ne.symm hne] using hbalance
  refine ⟨halternates, ⟨?_, hreplies ▸ h.reads.past, ?_, ?_⟩, ?_, ?_, ?_⟩
  · have horder := h.reads.order
    rw [List.filter_append] at horder ⊢
    have hqueue : s.pool.queue.filter IPMessage.fromScheduler =
        ms ++ s'.pool.queue.filter IPMessage.fromScheduler := hrequests
    rw [hhandled, hreplies, ← horder, hqueue, List.append_assoc]
  · intro now todo hmem'
    rw [hreplies]
    exact h.reads.present now todo ((hmem _ rfl).mp hmem')
  · intro hno
    rw [hreplies]
    exact h.reads.idle fun now todo hmem' => hno now todo ((hmem _ rfl).mpr hmem')
  · rw [hlogs.appended, hlogs.events, hsent, h.appended, List.append_assoc]
  · rw [hlogs.events, hlogs.isEmpty, Bool.and_eq_true, h.isEmpty, List.isEmpty_iff,
      List.append_eq_nil_iff]
  · rw [hreadyWhenSent]
    exact h.readyWhenSent

/-- No message of a reader is handled, and no event appended. -/
theorem Exchange.of_same {s s' : Sim} (h : Exchange s)
    (hcount : s'.pool.count Thread.isReader = s.pool.count Thread.isReader)
    (hrequests : requests s'.pool = requests s.pool)
    (hmem : ∀ u : Thread, u.isReader = true → (u ∈ s'.pool.threads ↔ u ∈ s.pool.threads))
    (hready : s'.data.schedReady = s.data.schedReady)
    (hhandled : s'.history.handled = s.history.handled)
    (hreplies : s'.history.replies = s.history.replies)
    (happended : s'.history.appended = s.history.appended)
    (hsent : s'.history.sent = s.history.sent)
    (hreadyWhenSent : s'.history.readyWhenSent = s.history.readyWhenSent)
    (hwriter : s'.writer = s.writer) : Exchange s' :=
  h.of_handled (.inl rfl) hcount hrequests.symm hmem (by simp [hready]) (by simp [hhandled])
    hreplies hsent hreadyWhenSent ⟨[], .nil happended hwriter⟩

/-- The writer's events are sent by a new reader. -/
theorem Exchange.of_messageSent {s s' : Sim} (h : Exchange s) (hready : s.data.schedReady = true)
    (hpool : s'.pool = s.messageSent.pool) (hbusy : s'.data.schedReady = false)
    (hhistory : s'.history = s.messageSent.history) (hwriter : s'.writer = s.writer.clear) :
    Exchange s' := by
  have hbalance := h.alternates.balance
  rw [hready, if_pos rfl, Nat.add_eq_zero_iff] at hbalance
  have hrequests : requests s'.pool = requests s.pool := by rw [hpool]; rfl
  have happly : ∀ now todo, .applyReply now todo ∈ s'.pool.threads ↔
      .applyReply now todo ∈ s.pool.threads := by
    intro now todo
    simp [hpool, messageSent]
  refine ⟨⟨?_, by simp [hbusy], hrequests ▸ h.alternates.last⟩, ⟨?_, ?_, ?_, ?_⟩, ?_, ?_, ?_⟩
  · rw [hrequests, hbalance.2, hbusy, hpool, messageSent, Pool.count_spawn, hbalance.1]
    rfl
  · rw [hhistory, hpool]
    exact h.reads.order
  · rw [hhistory]
    exact h.reads.past
  · intro now todo hmem
    rw [hhistory]
    exact h.reads.present now todo ((happly now todo).mp hmem)
  · intro hno
    rw [hhistory]
    exact h.reads.idle fun now todo hmem => hno now todo ((happly now todo).mpr hmem)
  · rw [hhistory, hwriter]
    simp [messageSent, h.appended, ProtocolWriter.clear]
  · simp [hwriter, ProtocolWriter.clear]
  · rw [hhistory]
    intro b hb
    rcases List.mem_append.mp hb with hb | hb
    · exact h.readyWhenSent b hb
    · rw [List.mem_singleton.mp hb, hready]

theorem Exchange.logged {s : Sim} (h : Exchange s) (e : ProtocolEvent) : Exchange (s.logged e) :=
  h.of_handled (.inl rfl) rfl rfl (fun _ _ => Iff.rfl) (by simp [Sim.logged])
    (by simp [Sim.logged]) rfl rfl rfl ⟨_, logs_logged s e⟩

/-- The end of a turn keeps the exchange. -/
theorem endOfTurn_exchange {cfg : Config} {s s' : Sim} (h : endOfTurn cfg s = .ok s')
    (hs : Exchange s) : Exchange s' := by
  obtain rfl | ⟨workloads, hflush⟩ | hfinish := endOfTurn_cases h
  · exact hs.of_same rfl rfl (fun _ _ => Iff.rfl) rfl rfl rfl rfl rfl rfl rfl
  · refine hs.of_messageSent hflush.canSend.1 ?_ ?_ ?_ ?_ <;> rw [hflush.eq] <;> rfl
  · refine (hs.logged .simulationEnds).of_messageSent hfinish.canSend.1 ?_ ?_ ?_ ?_ <;>
      rw [hfinish.eq] <;> rfl

theorem Thread.launchedBy_not_reader {m : IPMessage} {t : Thread} (h : t.launchedBy m = true) :
    t.isReader = false := by
  cases m <;> cases t <;> first | rfl | cases h

/-- The server takes a message that is handled now, or in the middle of its turn. -/
theorem handleMessage_exchange {cfg : Config} {m : IPMessage} {s t u : Sim}
    {p : Pool IPMessage Thread} (hs : Exchange s) (hnext : s.pool.next? = some (.deliver m, p))
    (h : handleMessage cfg { s with pool := p } m = .ok t)
    (hu : u = t.noteHandled m ∨ (u = t ∧ m.fromScheduler = false)) : Exchange u := by
  obtain ⟨ts, bs, hpool, hts, hbs⟩ := handleMessage_pool h
  obtain ⟨_, hhandled⟩ := handleMessage_effect h
  obtain ⟨hthreads, hqueue, -, -⟩ := Pool.next?_deliver hnext
  have hkeeps := hhandled.keeps
  have hreader : ∀ v : Thread, v.isReader = true → (v ∈ t.pool.threads ↔ v ∈ s.pool.threads) := by
    intro v hv
    rw [mem_threads_of_pool hpool, hthreads]
    constructor
    · rintro (hold | hnew | hback)
      · exact hold
      · rw [Thread.launchedBy_not_reader (hts v hnew)] at hv
        cases hv
      · obtain ⟨-, rfl⟩ | ⟨job, mailbox, rfl⟩ := hbs
        · cases hback
        · rw [List.mem_singleton.mp hback] at hv
          cases hv
    · exact .inl
  have hcount : t.pool.count Thread.isReader = s.pool.count Thread.isReader := by
    have hnew : ts.countP Thread.isReader = 0 :=
      List.countP_eq_zero.mpr fun v hv => by simp [Thread.launchedBy_not_reader (hts v hv)]
    have hback : bs.countP Thread.isReader = 0 := by
      obtain ⟨-, rfl⟩ | ⟨job, mailbox, rfl⟩ := hbs <;> rfl
    rw [count_of_pool hpool, hnew, hback, Pool.count, hthreads]
    rfl
  have hrequests : requests s.pool =
      (if m.fromScheduler then [m] else []) ++ requests t.pool := by
    have hrest : requests t.pool = requests p := by rw [hpool]; rfl
    rw [hrest, requests, hqueue, List.filter_cons]
    cases m.fromScheduler <;> rfl
  have hready : t.data.schedReady = (s.data.schedReady ||
      (if m.fromScheduler then [m] else []).contains .schedReady) := by
    by_cases hm : m = .schedReady
    · subst hm
      simp [(serverOnSchedReady_effect h).1, IPMessage.fromScheduler]
    · rw [(hhandled.exchange hm).schedReady]
      cases m.fromScheduler <;> simp [Ne.symm hm]
  obtain ⟨es, hlogs, -⟩ := hkeeps.logs
  have hms : (if m.fromScheduler then [m] else []) = [] ∨
      ∃ m', (if m.fromScheduler then [m] else []) = [m'] := by
    cases m.fromScheduler <;> simp
  obtain rfl | ⟨rfl, hm⟩ := hu
  · refine hs.of_handled hms hcount hrequests hreader hready ?_ hkeeps.replies hkeeps.sent
      hkeeps.readyWhenSent ⟨es, hlogs.appended, hlogs.events, hlogs.isEmpty⟩
    cases hm : m.fromScheduler <;> simp [noteHandled, hkeeps.handled, hm]
  · rw [hm] at hrequests hready hms
    exact hs.of_handled hms hcount hrequests hreader hready (by simp [hkeeps.handled])
      hkeeps.replies hkeeps.sent hkeeps.readyWhenSent ⟨es, hlogs.appended, hlogs.events, hlogs.isEmpty⟩

/-- Only readers change the record of the replies. -/
theorem runThread_replies {cfg : Config} {s s' : Sim} {o : Outcome} {t : Thread}
    (ht : t.isReader = false) (hserver : t.isServer = false)
    (h : runThread cfg s o t = .ok s') : s'.history.replies = s.history.replies := by
  have hfinish : ∀ {u : Sim} {a : ExecutionActor} {rc : Int}, finishJob u a rc = .ok s' →
      s'.history.replies = u.history.replies := by
    intro u a rc hrun
    obtain ⟨j, machines, -, -, -, -, -, ⟨-, -, rfl⟩ | ⟨-, -, rfl⟩⟩ := finishJob_effect hrun <;> rfl
  have htask : ∀ {u : Sim} {a : ExecutionActor} {step : TaskStep}, executeTask u a step = .ok s' →
      s'.history.replies = u.history.replies := by
    intro u a step hrun
    obtain ⟨l, -, rfl⟩ | ⟨message, -, rfl⟩ | ⟨returnCode, -, hrun⟩ := executeTask_effect hrun
    · rfl
    · rfl
    · exact hfinish hrun
  have hloop : ∀ {u : Sim} {run : WorkflowRun}, workflowLoop cfg u run = .ok s' →
      s'.history.replies = u.history.replies := by
    intro u run hrun
    have hdoes := workflowLoop_effect hrun
    cases hdoes with
    | send v id j run' i _ _ _ _ hadds =>
      rw [hadds.eq]
      rfl
    | wait _ | bye _ => rfl
  have hwait : (endOfWait s).history = s.history := by
    unfold endOfWait
    split <;> rfl
  cases t with
  | serverProcess | serverCallback p mailbox => cases hserver
  | requestReply message | applyReply now todo => cases ht
  | executeJob a =>
    cases o with
    | task step =>
      simp only [runThread, bind_eq_ok] at h
      obtain ⟨u, hu, h⟩ := h
      obtain ⟨machines, -, rfl⟩ := startJob_effect hu
      exact (htask h).trans rfl
    | _ => simp [runThread] at h
  | executing a l =>
    cases o with
    | task step => exact htask h
    | _ => simp [runThread] at h
  | cancelled a => exact hfinish h
  | notified a =>
    simp only [runThread, Except.ok.injEq] at h
    exact h ▸ rfl
  | killer ids acknowledge =>
    obtain ⟨u, hu, rfl⟩ := killerProcess_effect h
    exact (killJobs_frame hu).2.2.2
  | waiter date =>
    simp only [runThread, Except.ok.injEq] at h
    subst h
    obtain ⟨d, heq⟩ | heq := waiterProcess_cases s date <;> rw [heq]
    · rfl
    · rw [hwait]
  | waiting date =>
    simp only [runThread, Except.ok.injEq] at h
    rw [← h, hwait]
  | switchOn id pstate =>
    obtain ⟨m, sleep, -, -, -, rfl⟩ := switchOnMachineProcess_effect h
    rfl
  | switchingOn id pstate | switchingOff id pstate =>
    obtain ⟨m, machines, -, -, -, rfl⟩ := endOfSwitch_effect h
    rfl
  | switchOff id pstate =>
    obtain ⟨m, sleep, -, -, -, rfl⟩ := switchOffMachineProcess_effect h
    rfl
  | jobSubmitter w phase =>
    have hdoes : ∀ {items : List JobPtr}, (jobSubmitterKind s w).Does s items s' →
        s'.history.replies = s.history.replies := by
      intro items hdoes
      cases hdoes <;> rfl
    obtain ⟨-, rfl⟩ | ⟨-, list, -, hd⟩ | ⟨-, -, hd⟩ := SubmitterKind.resume_effect _ h
    · rfl
    · exact hdoes hd
    · exact hdoes hd
  | eventSubmitter l phase =>
    have hdoes : ∀ {items : List ExternalEvent}, (eventSubmitterKind l).Does s items s' →
        s'.history.replies = s.history.replies := by
      intro items hdoes
      cases hdoes <;> rfl
    obtain ⟨-, rfl⟩ | ⟨-, list, -, hd⟩ | ⟨-, -, hd⟩ := SubmitterKind.resume_effect _ h
    · rfl
    · exact hdoes hd
    · exact hdoes hd
  | workflowSubmitter run phase =>
    cases phase with
    | started | greeted =>
      simp only [runThread, workflowSubmitterProcess, Except.ok.injEq] at h
      exact h ▸ rfl
    | asleep date => exact hloop h
    | submitted id i => exact hloop h
    | waiting =>
      simp only [runThread, workflowSubmitterProcess] at h
      repeat' split at h
      any_goals cases h
      exact (hloop h).trans rfl

/-- A reader runs. -/
theorem runReader_exchange {cfg : Config} {s s' : Sim} {o : Outcome} {t : Thread}
    {p : Pool IPMessage Thread} (howned : s.workloads.Owned) (hs : Exchange s)
    (ht : t.isReader = true) (hnext : s.pool.next? = some (.resume t, p))
    (h : runThread cfg { s with pool := p } o t = .ok s') : Exchange s' := by
  have hbalance := hs.alternates.balance
  have hcount := Pool.count_next?_resume hnext Thread.isReader
  obtain ⟨hthreads, hqueue⟩ := Pool.next?_resume hnext
  rw [hcount, ht, if_pos rfl] at hbalance
  have hbusy : s.data.schedReady = false := by
    cases hready : s.data.schedReady with
    | false => rfl
    | true => simp [hready] at hbalance
  rw [hbusy] at hbalance
  simp only [Bool.false_eq_true, if_false] at hbalance
  have hnone : p.count Thread.isReader = 0 := by omega
  have hrequests : requests p = requests s.pool := by rw [requests, requests, hqueue]
  have hready : (requests p).count .schedReady = 0 := by
    rw [hrequests]
    omega
  have horder := hs.reads.order
  rw [hqueue] at horder
  have hlive : t ∈ s.pool.threads := hthreads.mem_iff.mpr (List.mem_cons_self ..)
  have hother : ∀ u : Thread, u.isReader = true → u ∈ s.pool.threads → u = t := by
    intro u hu hmem
    rcases List.mem_cons.mp (hthreads.mem_iff.mp hmem) with rfl | hmem
    · rfl
    · rw [Pool.count_eq_zero.mp hnone u hmem] at hu
      cases hu
  have hmoves := runThread_moves (s := { s with pool := p }) howned
    (by cases t <;> first | rfl | cases ht) h
  obtain ⟨-, hkeeps⟩ := hmoves
  have hreads : Alternates s'.pool false ∧ Reads s' := by
    cases t with
    | requestReply message =>
      cases o with
      | reply r =>
        have hidle : ∀ x ∈ s.history.replies, x.2 = x.1.messages :=
          hs.reads.idle fun now todo hmem => by cases hother _ rfl hmem
        have hrun := requestReply_effect h
        refine applyReply_reads (r := r) (by exact howned) hrun rfl ?_
          ⟨r.now, by simp [Reply.todo]⟩ hidle hnone hready ?_
        · simp [Reply.todo, Reply.messages, List.flatMap_map, ReplyItem.messages]
        · simpa using horder
      | _ => simp [runThread] at h
    | applyReply now todo =>
      obtain ⟨r, ms, hreplies, hmessages, hlast⟩ := hs.reads.present now todo hlive
      obtain ⟨init, hinit⟩ := List.getLast?_eq_some_iff.mp hreplies
      have hpast := hs.reads.past
      rw [hinit, List.dropLast_concat] at hpast
      have hrun : applyReply cfg now { s with pool := p } todo = .ok s' := h
      exact applyReply_reads (by exact howned) hrun hinit hmessages hlast hpast hnone hready horder
    | _ => cases ht
  obtain ⟨halternates, hreads⟩ := hreads
  refine ⟨?_, hreads, ?_, ?_, ?_⟩
  · rw [hkeeps.data, hbusy]
    exact halternates
  · rw [hkeeps.appended, hkeeps.sent, hkeeps.writer]
    exact hs.appended
  · rw [hkeeps.writer]
    exact hs.isEmpty
  · rw [hkeeps.readyWhenSent]
    exact hs.readyWhenSent

theorem start_exchange (cfg : Config) : Exchange (start cfg) := by
  have hreader : ∀ t ∈ (start cfg).pool.threads, t.isReader = false := by
    intro t ht
    simp only [start, Pool.threads, List.filterMap_nil, List.nil_append, List.append_nil,
      initialThreads, List.mem_append, List.mem_map, List.mem_singleton] at ht
    obtain ((⟨d, -, rfl⟩ | ⟨d, -, rfl⟩) | ⟨d, -, rfl⟩) | rfl := ht <;> rfl
  refine ⟨⟨?_, fun _ => rfl, .nil⟩, ⟨rfl, by simp [start], ?_, fun _ => by simp [start]⟩, rfl, by
    simp [start], by simp [start]⟩
  · rw [Pool.count_eq_zero.mpr hreader]
    rfl
  · intro now todo hmem
    cases hreader _ hmem

section runs

variable {cfg : Config} {guard : Sim → Choice → Prop} {s s' : Sim}

/-- The exchange with the scheduler, in every state of every run. -/
theorem reaches_exchange (h : Reaches (batsim cfg) guard s) : Exchange s := by
  refine h.invariant (P := Exchange) (start_exchange cfg) ?_
  intro s s' c hr hs _ hstep
  have howned := reaches_owned hr
  cases step_kind hstep with
  | solve clock receive wakes rest order pool hcan hsolve hs' =>
    subst hs'
    have hrequests : requests pool = requests s.pool := by
      rw [requests, requests, Pool.queue_solve hsolve]
    exact hs.of_same (Pool.count_solve hsolve _) hrequests
      (fun _ _ => (Pool.threads_solve hsolve).mem_iff) rfl rfl rfl rfl rfl rfl rfl
  | turn o m pool hnext hturn =>
    obtain ⟨t, ht, ⟨hback, rfl⟩ | ⟨-, hend⟩⟩ := turn_cases hturn
    · refine handleMessage_exchange hs hnext ht (.inr ⟨rfl, ?_⟩)
      obtain ⟨p, _, rfl, -⟩ := callsBack_eq_true.mp hback
      rfl
    · exact endOfTurn_exchange hend (handleMessage_exchange hs hnext ht (.inl rfl))
  | callback o p mailbox pool hnext hrun =>
    obtain ⟨t, ht, hend⟩ := serverCallback_cases hrun
    obtain ⟨hkeeps, -, hpool, -, hexchange, -⟩ := serverOnCallbackReceived_frame ht
    obtain ⟨hthreads, hqueue⟩ := Pool.next?_resume hnext
    obtain ⟨es, hlogs, -⟩ := hkeeps.logs
    refine endOfTurn_exchange hend (hs.of_handled (.inl rfl) ?_ ?_ ?_ ?_ ?_ hkeeps.replies
      hkeeps.sent hkeeps.readyWhenSent ⟨es, hlogs.appended, hlogs.events, hlogs.isEmpty⟩)
    · have hcount := Pool.count_next?_resume hnext Thread.isReader
      simp [noteHandled, hpool, hcount, Thread.isReader]
    · simp [noteHandled, hpool, requests, hqueue]
    · intro u hu
      simp only [noteHandled, hpool, hthreads.mem_iff, List.mem_cons]
      constructor
      · exact .inr
      · rintro (rfl | hmem)
        · cases hu
        · exact hmem
    · simp [noteHandled, hexchange.schedReady]
    · simp [noteHandled, hkeeps.handled, IPMessage.fromScheduler]
  | start o pool hnext hrun =>
    obtain ⟨hthreads, hqueue⟩ := Pool.next?_resume hnext
    obtain ⟨done, todo, -, hs'⟩ := reaches_unstarted hr (hthreads.mem_iff.mpr (by simp))
    have hpool : Exchange { s with pool := pool } := by
      have hrequests : requests pool = requests s.pool := by rw [requests, requests, hqueue]
      refine hs.of_same ?_ hrequests ?_ rfl rfl rfl rfl rfl rfl rfl
      · have hcount := Pool.count_next?_resume hnext Thread.isReader
        simp [hcount, Thread.isReader]
      · intro u hu
        simp only [hthreads.mem_iff, List.mem_cons]
        constructor
        · exact .inr
        · rintro (rfl | hmem)
          · cases hu
          · exact hmem
    have hready : s.data.schedReady = true := by
      rw [hs']
      rfl
    have heffect := serverProcess_effect hrun
    refine (hpool.logged .simulationBegins).of_messageSent hready ?_ ?_ ?_ ?_ <;> rw [heffect] <;> rfl
  | actor o t pool ht hnext hrun =>
    cases hreader : t.isReader with
    | true => exact runReader_exchange howned hs hreader hnext hrun
    | false =>
      obtain ⟨hmoves, hkeeps⟩ := runThread_moves (s := { s with pool := pool }) howned ht hrun
      obtain ⟨hcount, hrequests, hmem⟩ :=
        hmoves.requests (reaches_placed hr) ht hreader hnext
      have hreplies := runThread_replies hreader ht hrun
      exact hs.of_same hcount hrequests hmem (by rw [hkeeps.data]) hkeeps.handled hreplies hkeeps.appended hkeeps.sent hkeeps.readyWhenSent
        hkeeps.writer

/-- If the thread reads a reply, what it still has to send comes from the scheduler. -/
def Thread.ReadsReply (t : Thread) : Prop :=
  ∀ now todo, t = .applyReply now todo → ∀ i ∈ todo, ∀ m ∈ i.messages, m.fromScheduler = true

theorem Thread.Puts.of_reader {t : Thread} {m : IPMessage} {sender : Option Thread}
    (h : t.Puts m sender) (hreads : t.ReadsReply) (ht : t.isReader = true) :
    m.fromScheduler = true := by
  cases h with
  | firstReply _ _ _ _ _ hfrom => exact hfrom
  | reply now todo _ _ _ hitem =>
    obtain ⟨i, hi, hm⟩ := hitem
    exact hreads now todo rfl i hi m hm
  | completed t a hactor | fromJob t a _ hactor => cases t <;> simp_all [isReader, actor?]
  | waited t hwaiter => cases t <;> simp_all [isReader, isWaiter]
  | _ => cases ht

theorem reaches_readsReply (h : Reaches (batsim cfg) guard s) {t : Thread}
    (ht : t ∈ s.pool.threads) : t.ReadsReply := by
  rintro now todo rfl i hi m hm
  obtain ⟨r, ms, -, hmessages, -⟩ := (reaches_exchange h).reads.present now todo ht
  refine Reply.messages_fromScheduler (r := r) ?_
  rw [← hmessages]
  exact List.mem_append_right _ (List.mem_flatMap.mpr ⟨i, hi, hm⟩)

/-- What the writer holds is never dropped: it stays there, or is sent. -/
def Forwards (s s' : Sim) : Prop :=
  (s'.history.sent = s.history.sent ∧ s.writer.events <+: s'.writer.events) ∨
    ∃ message, s'.history.sent = s.history.sent ++ [message] ∧ s.writer.events <+: message ∧
      s'.writer.events = []

theorem Forwards.of_logs {s t s' : Sim} {es : List DatedEvent} (hlogs : Logs s t es)
    (hsent : t.history.sent = s.history.sent) (h : Forwards t s') : Forwards s s' := by
  have hevents : s.writer.events <+: t.writer.events := hlogs.events ▸ List.prefix_append _ _
  obtain ⟨hsent', hprefix⟩ | ⟨message, hsent', hprefix, hempty⟩ := h
  · exact .inl ⟨hsent'.trans hsent, hevents.trans hprefix⟩
  · exact .inr ⟨message, hsent ▸ hsent', hevents.trans hprefix, hempty⟩

theorem endOfTurn_forwards {s s' : Sim} (h : endOfTurn cfg s = .ok s') : Forwards s s' := by
  obtain rfl | ⟨workloads, hflush⟩ | hfinish := endOfTurn_cases h
  · exact .inl ⟨rfl, List.prefix_rfl⟩
  · rw [hflush.eq]
    exact .inr ⟨_, rfl, List.prefix_rfl, rfl⟩
  · rw [hfinish.eq]
    exact .inr ⟨_, rfl, List.prefix_append _ _, rfl⟩

theorem step_forwards {c : Choice} (howned : s.workloads.Owned)
    (hstep : (batsim cfg).step s c = .ok s') : Forwards s s' := by
  cases step_kind hstep with
  | solve clock receive wakes rest order pool hcan hsolve hs' =>
    subst hs'
    exact .inl ⟨rfl, List.prefix_rfl⟩
  | turn o m pool hnext hturn =>
    obtain ⟨t, ht, hend⟩ := turn_cases hturn
    obtain ⟨_, hhandled⟩ := handleMessage_effect ht
    obtain ⟨es, hlogs, -⟩ := hhandled.keeps.logs
    have hlogs' : Logs s t es := ⟨hlogs.appended, hlogs.events, hlogs.isEmpty⟩
    refine .of_logs hlogs' hhandled.keeps.sent ?_
    obtain ⟨-, rfl⟩ | ⟨-, hend⟩ := hend
    · exact .inl ⟨rfl, List.prefix_rfl⟩
    · have hforwards := endOfTurn_forwards hend
      exact hforwards
  | callback o p mailbox pool hnext hrun =>
    obtain ⟨t, ht, hend⟩ := serverCallback_cases hrun
    have hkeeps := (serverOnCallbackReceived_frame ht).1
    obtain ⟨es, hlogs, -⟩ := hkeeps.logs
    have hlogs' : Logs s t es := ⟨hlogs.appended, hlogs.events, hlogs.isEmpty⟩
    have hforwards := endOfTurn_forwards hend
    exact .of_logs hlogs' hkeeps.sent hforwards
  | start o pool hnext hrun =>
    rw [serverProcess_effect hrun]
    exact .inr ⟨_, rfl, List.prefix_append _ _, rfl⟩
  | actor o t pool ht hnext hrun =>
    obtain ⟨-, hkeeps⟩ := runThread_moves (s := { s with pool := pool }) howned ht hrun
    have hwriter : s'.writer = s.writer := hkeeps.writer
    exact .inl ⟨hkeeps.sent, hwriter ▸ List.prefix_rfl⟩

/-- Requests and replies alternate: at most one reader lives, none while the scheduler is ready,
and one is created only then. What readers send reaches the server in the order of the events of
the replies, with `SCHED_READY` at the end of each, and every event appended is sent. -/
theorem requests_alternate_with_replies (h : Reaches (batsim cfg) anyStep s) :
    (s.pool.count Thread.isReader ≤ 1 ∧
      (s.data.schedReady = true → ∀ t ∈ s.pool.threads, t.isReader = false) ∧
      ∀ b ∈ s.history.readyWhenSent, b = true) ∧
    ((s.history.handled ++ s.pool.queue).filter IPMessage.fromScheduler =
        s.history.replies.flatMap Prod.snd ∧
      (∀ x ∈ s.history.replies, x.2 <+:
        (x.1.events.flatMap fun e => e.data.messages) ++ [.schedReady]) ∧
      (∀ x ∈ s.history.replies.dropLast, x.2 =
        (x.1.events.flatMap fun e => e.data.messages) ++ [.schedReady]) ∧
      ((∀ t ∈ s.pool.threads, t.isReader = false) → ∀ x ∈ s.history.replies, x.2 =
        (x.1.events.flatMap fun e => e.data.messages) ++ [.schedReady])) ∧
    s.history.appended = s.history.sent.flatten ++ s.writer.events ∧
    ∀ c s', (batsim cfg).step s c = .ok s' → Forwards s s' := by
  have hs := reaches_exchange h
  have hbalance := hs.alternates.balance
  refine ⟨⟨?_, fun hready => ?_, hs.readyWhenSent⟩, ⟨hs.reads.order, fun x hx => ?_,
    hs.reads.past, fun hno => ?_⟩, hs.appended, fun c s' => step_forwards (reaches_owned h)⟩
  · split at hbalance <;> omega
  · rw [hready, if_pos rfl] at hbalance
    exact Pool.count_eq_zero.mp (by omega)
  · by_cases hlive : ∃ now todo, .applyReply now todo ∈ s.pool.threads
    · obtain ⟨now, todo, hmem⟩ := hlive
      obtain ⟨r, ms, hlast, hmessages, -⟩ := hs.reads.present now todo hmem
      obtain ⟨init, hinit⟩ := List.getLast?_eq_some_iff.mp hlast
      have hpast := hs.reads.past
      rw [hinit, List.dropLast_concat] at hpast
      rw [hinit] at hx
      rcases List.mem_append.mp hx with hx | hx
      · rw [hpast x hx]
        exact List.prefix_rfl
      · rw [List.mem_singleton.mp hx]
        exact ⟨_, hmessages⟩
    · rw [hs.reads.idle (fun now todo hmem => hlive ⟨now, todo, hmem⟩) x hx]
      exact List.prefix_rfl
  · exact hs.reads.idle fun now todo hmem => by cases hno _ hmem

end runs

/-- A reply with two events is being read. -/
theorem requests_alternate_with_replies_while_reading :
    ∃ s : Sim, (s.history.replies.map fun x => x.2.length) = [1] ∧ s.data.schedReady = false ∧
      s.pool.count Thread.isReader ≤ 1 ∧
      (s.history.handled ++ s.pool.queue).filter IPMessage.fromScheduler =
        s.history.replies.flatMap Prod.snd ∧
      s.history.appended = s.history.sent.flatten ++ s.writer.events := by
  let reply : Reply := { now := 0, events := [⟨0, .callMeLater 10⟩, ⟨0, .callMeLater 20⟩] }
  obtain ⟨s, hreaches, hread, hbusy⟩ := exists_reaches_of_run (batsim loneHost) anyStep
    (fun s => (s.history.replies.map fun x => x.2.length) = [1] ∧ s.data.schedReady = false)
    [.next, .next, .next (.reply reply)] (by decide)
  obtain ⟨⟨hone, -, -⟩, ⟨horder, -⟩, happended, -⟩ := requests_alternate_with_replies hreaches
  exact ⟨s, hread, hbusy, hone, horder, happended⟩

end Batsim
