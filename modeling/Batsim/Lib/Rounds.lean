import Mathlib.Data.List.Perm.Basic
import Mathlib.Data.Multiset.OrderedMonoid

/-!
Cooperative threads around one receiver, scheduled in rounds.

A thread runs without interruption up to its next blocking call. The threads that an instant of
simulated time wakes run first, in any order; the threads that they create or interrupt run
next; only when no thread can run do messages move and does time pass. Sending is a rendezvous:
the continuation of the sender stays with its message until the receiver takes it.
-/

/-- One thing that can run: the receiver with the message it was given, or a thread. -/
inductive Entry (M T : Type) where
  | deliver (message : M)
  | resume (thread : T)
deriving DecidableEq, Repr

namespace Entry

variable {M T : Type}

def message? : Entry M T → Option M
  | .deliver m => some m
  | .resume _ => none

def thread? : Entry M T → Option T
  | .deliver _ => none
  | .resume t => some t

@[simp] theorem message?_deliver (m : M) : (deliver m : Entry M T).message? = some m := rfl

@[simp] theorem message?_resume (t : T) : (resume t : Entry M T).message? = none := rfl

@[simp] theorem thread?_deliver (m : M) : (deliver m : Entry M T).thread? = none := rfl

@[simp] theorem thread?_resume (t : T) : (resume t : Entry M T).thread? = some t := rfl

@[simp] theorem message?_eq_some {e : Entry M T} {m : M} : e.message? = some m ↔ e = deliver m := by
  cases e <;> simp

@[simp] theorem thread?_eq_some {e : Entry M T} {t : T} : e.thread? = some t ↔ e = resume t := by
  cases e <;> simp

@[simp] theorem filterMap_thread?_deliver (m : M) (es : List (Entry M T)) :
    (deliver m :: es).filterMap thread? = es.filterMap thread? := rfl

@[simp] theorem filterMap_thread?_resume (t : T) (es : List (Entry M T)) :
    (resume t :: es).filterMap thread? = t :: es.filterMap thread? := rfl

@[simp] theorem filterMap_message?_deliver (m : M) (es : List (Entry M T)) :
    (deliver m :: es).filterMap message? = m :: es.filterMap message? := rfl

@[simp] theorem filterMap_message?_resume (t : T) (es : List (Entry M T)) :
    (resume t :: es).filterMap message? = es.filterMap message? := rfl

@[simp] theorem filterMap_thread?_map_resume (ts : List T) :
    (ts.map (resume (M := M))).filterMap thread? = ts := by
  induction ts with
  | nil => rfl
  | cons t ts ih => simpa using ih

@[simp] theorem filterMap_message?_map_resume (ts : List T) :
    (ts.map (resume (M := M))).filterMap message? = [] := by
  simp

end Entry

/-- The threads of a system by where they are. -/
structure Pool (M T : Type) where
  /-- what the current round still has to run -/
  woken : List (Entry M T)
  /-- created or interrupted in the current round -/
  fresh : List T
  /-- messages not yet received, each with the sender that waits on it -/
  mailbox : List (M × Option T)
  /-- waiting for time to pass or for an activity to end -/
  blocked : List T
deriving DecidableEq, Repr

namespace Pool

variable {M T : Type}

def spawn (p : Pool M T) (t : T) : Pool M T :=
  { p with fresh := p.fresh ++ [t] }

def block (p : Pool M T) (t : T) : Pool M T :=
  { p with blocked := p.blocked ++ [t] }

/-- Offer a message; `sender` continues once it is received. -/
def put (p : Pool M T) (m : M) (sender : Option T) : Pool M T :=
  { p with mailbox := p.mailbox ++ [(m, sender)] }

/-- Kill the threads selected by `dead`, wherever they are; what they were sending is lost. -/
def kill (p : Pool M T) (dead : T → Bool) : Pool M T where
  woken := p.woken.filter fun e => !(e.thread?.any dead)
  fresh := p.fresh.filter fun t => !dead t
  mailbox := p.mailbox.filter fun x => !(x.2.any dead)
  blocked := p.blocked.filter fun t => !dead t

/-- End the waiting of the blocked threads selected by `hit`: they go on as `next t`. -/
def interrupt (p : Pool M T) (hit : T → Bool) (next : T → T) : Pool M T :=
  { p with
    fresh := p.fresh ++ (p.blocked.filter hit).map next
    blocked := p.blocked.filter fun t => !hit t }

/-- What runs next, and the pool without it. -/
def next? (p : Pool M T) : Option (Entry M T × Pool M T) :=
  match p.woken, p.fresh with
  | e :: es, _ => some (e, { p with woken := es })
  | [], t :: ts => some (.resume t, { p with fresh := ts })
  | [], [] => none

/-- What the receiver gets and who goes on when it takes the first message. -/
def received : List (M × Option T) → List (Entry M T)
  | [] => []
  | (m, sender) :: _ => .deliver m :: sender.toList.map .resume

/-- Let time pass: the receiver takes the first message if `receive`, the threads `wakes` end
their waiting, the threads `rest` go on waiting, and `order` is the order of the next round. -/
def solve [DecidableEq M] [DecidableEq T] (p : Pool M T) (receive : Bool) (wakes rest : List T)
    (order : List (Entry M T)) : Option (Pool M T) :=
  if p.woken = [] ∧ p.fresh = [] ∧ (wakes ++ rest).isPerm p.blocked ∧
      (receive → p.mailbox ≠ []) ∧
      order.isPerm ((if receive then received p.mailbox else []) ++ wakes.map .resume) then
    some { woken := order
           fresh := []
           mailbox := if receive then p.mailbox.tail else p.mailbox
           blocked := rest }
  else none

/-- All living threads. -/
def threads (p : Pool M T) : List T :=
  p.woken.filterMap Entry.thread? ++ p.fresh ++ p.mailbox.filterMap Prod.snd ++ p.blocked

/-- The messages sent and not yet handled, in the order in which they will be. -/
def queue (p : Pool M T) : List M :=
  p.woken.filterMap Entry.message? ++ p.mailbox.map Prod.fst

theorem mem_threads {p : Pool M T} {t : T} :
    t ∈ p.threads ↔ .resume t ∈ p.woken ∨ t ∈ p.fresh ∨ (∃ m, (m, some t) ∈ p.mailbox) ∨
      t ∈ p.blocked := by
  simp [threads]

theorem mem_queue {p : Pool M T} {m : M} :
    m ∈ p.queue ↔ .deliver m ∈ p.woken ∨ ∃ sender, (m, sender) ∈ p.mailbox := by
  simp [queue]

section operations

variable (p : Pool M T) (t : T) (m : M) (sender : Option T)

@[simp] theorem woken_spawn : (p.spawn t).woken = p.woken := rfl

@[simp] theorem fresh_spawn : (p.spawn t).fresh = p.fresh ++ [t] := rfl

@[simp] theorem mailbox_spawn : (p.spawn t).mailbox = p.mailbox := rfl

@[simp] theorem blocked_spawn : (p.spawn t).blocked = p.blocked := rfl

@[simp] theorem woken_block : (p.block t).woken = p.woken := rfl

@[simp] theorem fresh_block : (p.block t).fresh = p.fresh := rfl

@[simp] theorem mailbox_block : (p.block t).mailbox = p.mailbox := rfl

@[simp] theorem blocked_block : (p.block t).blocked = p.blocked ++ [t] := rfl

@[simp] theorem woken_put : (p.put m sender).woken = p.woken := rfl

@[simp] theorem fresh_put : (p.put m sender).fresh = p.fresh := rfl

@[simp] theorem mailbox_put : (p.put m sender).mailbox = p.mailbox ++ [(m, sender)] := rfl

@[simp] theorem blocked_put : (p.put m sender).blocked = p.blocked := rfl

theorem threads_spawn : (p.spawn t).threads.Perm (t :: p.threads) := by
  simp only [threads, woken_spawn, fresh_spawn, mailbox_spawn, blocked_spawn, List.append_assoc]
  rw [← List.append_assoc, ← List.append_assoc (List.filterMap _ _) p.fresh]
  exact List.perm_middle

theorem threads_block : (p.block t).threads.Perm (t :: p.threads) := by
  simp only [threads, woken_block, fresh_block, mailbox_block, blocked_block]
  rw [← List.append_assoc]
  exact List.perm_append_singleton _ _

theorem threads_put : (p.put m sender).threads.Perm (sender.toList ++ p.threads) := by
  have hsplit : (p.put m sender).threads =
      (p.woken.filterMap Entry.thread? ++ p.fresh ++ p.mailbox.filterMap Prod.snd) ++
        (sender.toList ++ p.blocked) := by
    cases sender <;> simp [threads]
  rw [hsplit]
  simp only [threads, List.append_assoc]
  have hswap := List.perm_append_comm_assoc
    (p.woken.filterMap Entry.thread? ++ p.fresh ++ p.mailbox.filterMap Prod.snd)
    sender.toList p.blocked
  simpa only [List.append_assoc] using hswap

@[simp] theorem queue_spawn : (p.spawn t).queue = p.queue := rfl

@[simp] theorem queue_block : (p.block t).queue = p.queue := rfl

@[simp] theorem queue_put : (p.put m sender).queue = p.queue ++ [m] := by
  simp [queue]

@[simp] theorem mem_threads_spawn {u : T} : u ∈ (p.spawn t).threads ↔ u = t ∨ u ∈ p.threads := by
  rw [(threads_spawn p t).mem_iff, List.mem_cons]

@[simp] theorem mem_threads_block {u : T} : u ∈ (p.block t).threads ↔ u = t ∨ u ∈ p.threads := by
  rw [(threads_block p t).mem_iff, List.mem_cons]

@[simp] theorem mem_threads_put {u : T} :
    u ∈ (p.put m sender).threads ↔ sender = some u ∨ u ∈ p.threads := by
  rw [(threads_put p m sender).mem_iff, List.mem_append, Option.mem_toList]

end operations

section counting

variable (q : T → Bool) (p : Pool M T)

/-- How many living threads satisfy `q`. -/
def count (q : T → Bool) (p : Pool M T) : Nat := p.threads.countP q

@[simp] theorem count_spawn (t : T) : (p.spawn t).count q = p.count q + (if q t then 1 else 0) := by
  rw [count, (threads_spawn p t).countP_eq, List.countP_cons, count]

@[simp] theorem count_block (t : T) : (p.block t).count q = p.count q + (if q t then 1 else 0) := by
  rw [count, (threads_block p t).countP_eq, List.countP_cons, count]

@[simp] theorem count_put (m : M) (sender : Option T) :
    (p.put m sender).count q = p.count q + (if sender.any q then 1 else 0) := by
  rw [count, (threads_put p m sender).countP_eq, List.countP_append, count]
  cases sender <;> simp [List.countP_cons, Nat.add_comm]

theorem count_eq_zero {q : T → Bool} {p : Pool M T} :
    p.count q = 0 ↔ ∀ t ∈ p.threads, q t = false := by
  simp [count, List.countP_eq_zero]

theorem count_pos {q : T → Bool} {p : Pool M T} :
    0 < p.count q ↔ ∃ t ∈ p.threads, q t = true := by
  simp [count, List.countP_pos_iff]

theorem count_le_of_imp {q r : T → Bool} {p : Pool M T} (h : ∀ t ∈ p.threads, q t → r t) :
    p.count q ≤ p.count r :=
  List.countP_mono_left h

end counting

section killing

variable (p : Pool M T) (dead : T → Bool)

theorem threads_kill : (p.kill dead).threads = p.threads.filter fun t => !dead t := by
  have hwoken : ∀ es : List (Entry M T),
      (es.filter fun e => !(e.thread?.any dead)).filterMap Entry.thread? =
        (es.filterMap Entry.thread?).filter fun t => !dead t := by
    intro es
    induction es with
    | nil => rfl
    | cons e es ih =>
      cases e with
      | deliver m => simpa using ih
      | resume t => cases hd : dead t <;> simp [hd, ih]
  have hmail : ∀ xs : List (M × Option T),
      (xs.filter fun x => !(x.2.any dead)).filterMap Prod.snd =
        (xs.filterMap Prod.snd).filter fun t => !dead t := by
    intro xs
    induction xs with
    | nil => rfl
    | cons x xs ih =>
      obtain ⟨m, sender⟩ := x
      cases sender with
      | none => simpa using ih
      | some t => cases hd : dead t <;> simp [hd, ih]
  simp [threads, kill, hwoken, hmail]

@[simp] theorem mem_threads_kill {t : T} :
    t ∈ (p.kill dead).threads ↔ t ∈ p.threads ∧ dead t = false := by
  simp [threads_kill]

theorem queue_kill : (p.kill dead).queue.Sublist p.queue := by
  refine List.Sublist.append ?_ ?_
  · exact List.Sublist.filterMap _ List.filter_sublist
  · exact List.Sublist.map _ List.filter_sublist

theorem count_kill (q : T → Bool) :
    (p.kill dead).count q = p.count fun t => q t && !dead t := by
  simp [count, threads_kill, List.countP_filter]

theorem count_kill_of_disjoint {q : T → Bool} (h : ∀ t, q t → dead t = false) :
    (p.kill dead).count q = p.count q := by
  rw [count_kill]
  congr 1
  funext t
  cases hq : q t with
  | false => rfl
  | true => simp [h t hq]

end killing

section interrupting

variable (p : Pool M T) (hit : T → Bool) (next : T → T)

@[simp] theorem queue_interrupt : (p.interrupt hit next).queue = p.queue := rfl

theorem threads_interrupt : (p.interrupt hit next).threads.Perm
    (p.woken.filterMap Entry.thread? ++ p.fresh ++ p.mailbox.filterMap Prod.snd ++
      ((p.blocked.filter hit).map next ++ p.blocked.filter fun t => !hit t)) := by
  simp only [threads, interrupt, List.append_assoc]
  refine List.Perm.append_left _ (List.Perm.append_left _ ?_)
  simpa only [List.append_assoc] using
    List.perm_append_comm_assoc ((p.blocked.filter hit).map next) (p.mailbox.filterMap Prod.snd)
      (p.blocked.filter fun t => !hit t)

theorem mem_threads_interrupt {t : T} :
    t ∈ (p.interrupt hit next).threads ↔
      .resume t ∈ p.woken ∨ t ∈ p.fresh ∨ (∃ m, (m, some t) ∈ p.mailbox) ∨
        (∃ u ∈ p.blocked, hit u = true ∧ next u = t) ∨ (t ∈ p.blocked ∧ hit t = false) := by
  rw [(threads_interrupt p hit next).mem_iff]
  simp [and_assoc]

/-- Interrupting changes no count of a predicate that looks at a thread in the same way before
and after. -/
theorem count_interrupt {q : T → Bool} (h : ∀ t ∈ p.blocked, hit t → q (next t) = q t) :
    (p.interrupt hit next).count q = p.count q := by
  have hsplit : ((p.blocked.filter hit).map next).countP q +
      (p.blocked.filter fun t => !hit t).countP q = p.blocked.countP q := by
    rw [List.countP_map]
    have hsame : (p.blocked.filter hit).countP (q ∘ next) = (p.blocked.filter hit).countP q :=
      List.countP_congr fun t ht => by
        have ht' := List.mem_filter.mp ht
        simp [h t ht'.1 ht'.2]
    rw [hsame, ← List.countP_append]
    exact (List.filter_append_perm hit p.blocked).countP_eq q
  rw [count, (threads_interrupt p hit next).countP_eq]
  simp only [count, threads, List.countP_append]
  omega

end interrupting

section rounds

variable {p p' : Pool M T} {e : Entry M T}

/-- The two ways in which something runs. -/
theorem next?_cases (h : p.next? = some (e, p')) :
    (∃ es, p.woken = e :: es ∧ p' = { p with woken := es }) ∨
    (p.woken = [] ∧ ∃ t ts, p.fresh = t :: ts ∧ e = .resume t ∧ p' = { p with fresh := ts }) := by
  unfold next? at h
  cases hwoken : p.woken with
  | cons d es =>
    simp only [hwoken, Option.some.injEq, Prod.mk.injEq] at h
    obtain ⟨rfl, rfl⟩ := h
    exact .inl ⟨es, rfl, rfl⟩
  | nil =>
    cases hfresh : p.fresh with
    | nil => simp [hwoken, hfresh] at h
    | cons t ts =>
      simp only [hwoken, hfresh, Option.some.injEq, Prod.mk.injEq] at h
      obtain ⟨rfl, rfl⟩ := h
      exact .inr ⟨rfl, t, ts, rfl, rfl, rfl⟩

theorem next?_mailbox (h : p.next? = some (e, p')) : p'.mailbox = p.mailbox := by
  obtain ⟨es, -, rfl⟩ | ⟨-, t, ts, -, -, rfl⟩ := next?_cases h <;> rfl

theorem next?_blocked (h : p.next? = some (e, p')) : p'.blocked = p.blocked := by
  obtain ⟨es, -, rfl⟩ | ⟨-, t, ts, -, -, rfl⟩ := next?_cases h <;> rfl

theorem mem_woken_of_next? (h : p.next? = some (e, p')) {e' : Entry M T} (he : e' ∈ p'.woken) :
    e' ∈ p.woken := by
  obtain ⟨es, hwoken, rfl⟩ | ⟨-, t, ts, -, -, rfl⟩ := next?_cases h
  · rw [hwoken]
    exact List.mem_cons_of_mem _ he
  · exact he

theorem next?_resume {t : T} (h : p.next? = some (.resume t, p')) :
    p.threads.Perm (t :: p'.threads) ∧ p.queue = p'.queue := by
  obtain ⟨es, hwoken, rfl⟩ | ⟨hwoken, u, ts, hfresh, he, rfl⟩ := next?_cases h
  · simp [threads, queue, hwoken]
  · cases he
    simp [threads, queue, hwoken, hfresh]

theorem next?_deliver {m : M} (h : p.next? = some (.deliver m, p')) :
    p'.threads = p.threads ∧ p.queue = m :: p'.queue ∧ p'.fresh = p.fresh ∧
      p.woken = .deliver m :: p'.woken := by
  obtain ⟨es, hwoken, rfl⟩ | ⟨-, u, ts, -, he, -⟩ := next?_cases h
  · simp [threads, queue, hwoken]
  · cases he

theorem count_next?_resume {t : T} (h : p.next? = some (.resume t, p')) (q : T → Bool) :
    p.count q = p'.count q + (if q t then 1 else 0) := by
  rw [count, (next?_resume h).1.countP_eq, List.countP_cons, count]

theorem count_next?_deliver {m : M} (h : p.next? = some (.deliver m, p')) (q : T → Bool) :
    p'.count q = p.count q := by
  rw [count, (next?_deliver h).1, count]

theorem received_threads (xs : List (M × Option T)) :
    (received xs).filterMap Entry.thread? ++ xs.tail.filterMap Prod.snd =
      xs.filterMap Prod.snd := by
  cases xs with
  | nil => rfl
  | cons x xs =>
    obtain ⟨m, sender⟩ := x
    cases sender <;> simp [received]

theorem received_messages (xs : List (M × Option T)) :
    (received xs).filterMap Entry.message? ++ xs.tail.map Prod.fst = xs.map Prod.fst := by
  cases xs with
  | nil => rfl
  | cons x xs =>
    obtain ⟨m, sender⟩ := x
    cases sender <;> simp [received]

section solving

variable [DecidableEq M] [DecidableEq T] {receive : Bool} {wakes rest : List T}
  {order : List (Entry M T)}

/-- What letting time pass requires and does. -/
theorem solve_cases (h : p.solve receive wakes rest order = some p') :
    p.woken = [] ∧ p.fresh = [] ∧ (wakes ++ rest).Perm p.blocked ∧
      (receive → p.mailbox ≠ []) ∧
      order.Perm ((if receive then received p.mailbox else []) ++ wakes.map .resume) ∧
      p' = { woken := order, fresh := [],
             mailbox := if receive then p.mailbox.tail else p.mailbox, blocked := rest } := by
  simp only [solve, Option.ite_none_right_eq_some, Option.some.injEq] at h
  obtain ⟨⟨hwoken, hfresh, hblocked, hreceive, horder⟩, hp'⟩ := h
  exact ⟨hwoken, hfresh, List.isPerm_iff.mp hblocked, hreceive, List.isPerm_iff.mp horder, hp'.symm⟩

theorem fresh_solve (h : p.solve receive wakes rest order = some p') : p'.fresh = [] := by
  obtain ⟨-, -, -, -, -, rfl⟩ := solve_cases h
  rfl

theorem threads_solve (h : p.solve receive wakes rest order = some p') :
    p'.threads.Perm p.threads := by
  obtain ⟨hwoken, hfresh, hblocked, -, horder, rfl⟩ := solve_cases h
  simp only [threads, hwoken, hfresh, List.filterMap_nil, List.nil_append, List.append_nil]
  have hround := horder.filterMap Entry.thread?
  rw [List.filterMap_append, Entry.filterMap_thread?_map_resume] at hround
  cases receive with
  | false =>
    simp only [Bool.false_eq_true, if_false, List.filterMap_nil, List.nil_append] at hround ⊢
    calc order.filterMap Entry.thread? ++ p.mailbox.filterMap Prod.snd ++ rest
        |>.Perm (wakes ++ p.mailbox.filterMap Prod.snd ++ rest) :=
          (hround.append_right _).append_right _
      _ |>.Perm (p.mailbox.filterMap Prod.snd ++ (wakes ++ rest)) := by
          rw [List.append_assoc]
          exact List.perm_append_comm_assoc _ _ _
      _ |>.Perm (p.mailbox.filterMap Prod.snd ++ p.blocked) := hblocked.append_left _
  | true =>
    simp only [if_true] at hround ⊢
    calc order.filterMap Entry.thread? ++ p.mailbox.tail.filterMap Prod.snd ++ rest
        |>.Perm ((received p.mailbox).filterMap Entry.thread? ++ wakes ++
            p.mailbox.tail.filterMap Prod.snd ++ rest) :=
          (hround.append_right _).append_right _
      _ |>.Perm ((received p.mailbox).filterMap Entry.thread? ++
            (p.mailbox.tail.filterMap Prod.snd ++ (wakes ++ rest))) := by
          simp only [List.append_assoc]
          exact List.Perm.append_left _ (List.perm_append_comm_assoc _ _ _)
      _ |>.Perm (p.mailbox.filterMap Prod.snd ++ p.blocked) := by
          rw [← List.append_assoc, received_threads]
          exact hblocked.append_left _

theorem count_solve (h : p.solve receive wakes rest order = some p') (q : T → Bool) :
    p'.count q = p.count q :=
  (threads_solve h).countP_eq q

/-- The queue is the same before and after: at most its first message is now being delivered. -/
theorem queue_solve (h : p.solve receive wakes rest order = some p') : p'.queue = p.queue := by
  obtain ⟨hwoken, hfresh, -, -, horder, rfl⟩ := solve_cases h
  have hround := horder.filterMap Entry.message?
  rw [List.filterMap_append, Entry.filterMap_message?_map_resume, List.append_nil] at hround
  simp only [queue, hwoken, List.filterMap_nil, List.nil_append]
  cases receive with
  | false =>
    simp only [Bool.false_eq_true, if_false, List.filterMap_nil, List.perm_nil] at hround
    simp [hround]
  | true =>
    have hdelivered : order.filterMap Entry.message? =
        (received p.mailbox).filterMap Entry.message? := by
      cases hm : p.mailbox with
      | nil =>
        simp only [if_true, hm, received, List.filterMap_nil, List.perm_nil] at hround
        simp [hround, received]
      | cons x xs =>
        obtain ⟨m, sender⟩ := x
        have hone : (received ((m, sender) :: xs)).filterMap (Entry.message? (T := T)) = [m] := by
          cases sender <;> simp [received]
        simp only [if_true, hm] at hround
        rw [hone] at hround ⊢
        exact List.perm_singleton.mp hround
    simp only [if_true, hdelivered, received_messages]

/-- The round that starts has a delivery only if a message was taken, and at most one. -/
theorem delivers_solve (h : p.solve receive wakes rest order = some p') :
    p'.woken.filterMap Entry.message? = if receive then (p.mailbox.map Prod.fst).take 1 else [] := by
  have hqueue := queue_solve h
  obtain ⟨hwoken, hfresh, -, -, -, rfl⟩ := solve_cases h
  simp only [queue, hwoken, List.filterMap_nil, List.nil_append] at hqueue ⊢
  cases receive with
  | false => simpa using hqueue
  | true =>
    simp only [if_true] at hqueue ⊢
    cases hm : p.mailbox with
    | nil => simpa [hm] using hqueue
    | cons x xs =>
      rw [hm, List.tail_cons, List.map_cons] at hqueue
      exact List.append_cancel_right (by simpa using hqueue)

theorem resume_mem_woken_solve (h : p.solve receive wakes rest order = some p') {t : T} :
    .resume t ∈ p'.woken ↔
      t ∈ wakes ∨ (receive = true ∧ ∃ m, p.mailbox.head? = some (m, some t)) := by
  obtain ⟨-, -, -, -, horder, rfl⟩ := solve_cases h
  rw [horder.mem_iff]
  cases receive with
  | false => simp
  | true =>
    cases hm : p.mailbox with
    | nil => simp [received]
    | cons x xs =>
      obtain ⟨m, sender⟩ := x
      cases sender <;> simp [received, or_comm, eq_comm]

end solving

end rounds

/-! ### Labels

What threads carry and leave on their messages. -/

section labels

variable {A : Type*} (f : T → Option A) (g : M → Option A)

/-- The labels of the living threads and of the messages on their way. -/
def labels (p : Pool M T) : Multiset A :=
  (p.threads.filterMap f : List A) + (p.queue.filterMap g : List A)

variable {p p' : Pool M T}

variable {f g} in
theorem mem_labels {a : A} {t : T} (ht : t ∈ p.threads) (ha : f t = some a) : a ∈ p.labels f g :=
  Multiset.mem_add.mpr (.inl (Multiset.mem_coe.mpr (List.mem_filterMap.mpr ⟨t, ht, ha⟩)))

variable {f g} in
theorem labels_eq_zero (h : p.labels f g = 0) {t : T} (ht : t ∈ p.threads) : f t = none := by
  refine Option.eq_none_iff_forall_ne_some.mpr fun a ha => ?_
  have hmem : a ∈ p.labels f g := mem_labels ht ha
  rw [h] at hmem
  exact Multiset.notMem_zero a hmem

theorem labels_map {B : Type} (part : A → B) (p : Pool M T) :
    p.labels (fun t => (f t).map part) (fun m => (g m).map part) = (p.labels f g).map part := by
  rw [labels, labels, Multiset.map_add, Multiset.map_coe, Multiset.map_coe, List.map_filterMap,
    List.map_filterMap]

theorem labels_block (p : Pool M T) (t : T) :
    (p.block t).labels f g = ((f t).toList : Multiset A) + p.labels f g := by
  have hthreads := (threads_block p t).filterMap f
  rw [List.filterMap_cons] at hthreads
  have hcoe : (((p.block t).threads.filterMap f : List A) : Multiset A) =
      (f t).toList + (p.threads.filterMap f : List A) := by
    rw [Multiset.coe_add]
    refine Multiset.coe_eq_coe.mpr (hthreads.trans ?_)
    cases f t <;> simp
  rw [labels, hcoe, queue_block, labels, add_assoc]

theorem labels_put (p : Pool M T) (m : M) (sender : Option T) :
    (p.put m sender).labels f g =
      ((sender.bind f).toList : Multiset A) + ((g m).toList : List A) + p.labels f g := by
  have hthreads := (threads_put p m sender).filterMap f
  rw [List.filterMap_append] at hthreads
  have hsender : sender.toList.filterMap f = (sender.bind f).toList := by
    cases sender with
    | none => rfl
    | some t => cases hf : f t <;> simp [hf]
  have hmessage : [m].filterMap g = (g m).toList := by
    cases hg : g m <;> simp [hg]
  rw [hsender] at hthreads
  rw [labels, Multiset.coe_eq_coe.mpr hthreads, queue_put, List.filterMap_append, hmessage,
    ← Multiset.coe_add, ← Multiset.coe_add, labels]
  ac_rfl

theorem labels_resume {t : T} (h : p.next? = some (.resume t, p')) :
    p.labels f g = ((f t).toList : Multiset A) + p'.labels f g := by
  obtain ⟨hthreads, hqueue⟩ := next?_resume h
  have hperm := hthreads.filterMap f
  rw [List.filterMap_cons] at hperm
  have hcoe : ((p.threads.filterMap f : List A) : Multiset A) =
      (f t).toList + (p'.threads.filterMap f : List A) := by
    rw [Multiset.coe_add]
    refine Multiset.coe_eq_coe.mpr (hperm.trans ?_)
    cases f t <;> simp
  rw [labels, hcoe, hqueue, labels, add_assoc]

theorem labels_deliver {m : M} (h : p.next? = some (.deliver m, p')) :
    p.labels f g = ((g m).toList : Multiset A) + p'.labels f g := by
  obtain ⟨hthreads, hqueue, -⟩ := next?_deliver h
  have hcoe : ((p.queue.filterMap g : List A) : Multiset A) =
      (g m).toList + (p'.queue.filterMap g : List A) := by
    rw [hqueue, List.filterMap_cons, Multiset.coe_add]
    cases g m <;> simp
  rw [labels, hcoe, ← hthreads, labels]
  ac_rfl

theorem labels_solve [DecidableEq M] [DecidableEq T] {receive : Bool} {wakes rest : List T}
    {order : List (Entry M T)} (h : p.solve receive wakes rest order = some p') :
    p'.labels f g = p.labels f g := by
  rw [labels, labels, queue_solve h, Multiset.coe_eq_coe.mpr ((threads_solve h).filterMap f)]

/-- Threads are created and blocked. -/
theorem labels_of_eq {ts bs : List T}
    (h : p' = { p with fresh := p.fresh ++ ts, blocked := p.blocked ++ bs }) :
    p'.labels f g = ((ts ++ bs).filterMap f : List A) + p.labels f g := by
  subst h
  simp only [labels, threads, queue, List.filterMap_append, ← Multiset.coe_add]
  ac_rfl

/-- Killing threads without label, whose messages have none, changes no label. -/
theorem labels_kill {dead : T → Bool} (hthreads : ∀ t, dead t = true → f t = none)
    (hmessages : ∀ m t, (m, some t) ∈ p.mailbox → dead t = true → g m = none) :
    (p.kill dead).labels f g = p.labels f g := by
  have hlive : ∀ ts : List T, (ts.filter fun t => !dead t).filterMap f = ts.filterMap f := by
    intro ts
    induction ts with
    | nil => rfl
    | cons t ts ih =>
      cases hd : dead t with
      | true => simp [hd, hthreads t hd, ih]
      | false => simp [hd, List.filterMap_cons, ih]
  have hwoken : ∀ es : List (Entry M T), (es.filter fun e => !(e.thread?.any dead)).filterMap
      Entry.message? = es.filterMap Entry.message? := by
    intro es
    induction es with
    | nil => rfl
    | cons e es ih =>
      cases e with
      | deliver m => simpa using ih
      | resume t => cases hd : dead t <;> simp [hd, ih]
  have hmail : ∀ xs : List (M × Option T), (∀ x ∈ xs, x ∈ p.mailbox) →
      ((xs.filter fun x => !(x.2.any dead)).map Prod.fst).filterMap g =
        (xs.map Prod.fst).filterMap g := by
    intro xs
    induction xs with
    | nil => simp
    | cons x xs ih =>
      intro hmem
      obtain ⟨m, sender⟩ := x
      have htail := ih fun y hy => hmem y (List.mem_cons_of_mem _ hy)
      cases sender with
      | none => simp [List.filterMap_cons, htail]
      | some t =>
        cases hd : dead t with
        | false => simp [hd, List.filterMap_cons, htail]
        | true =>
          have hnone := hmessages m t (hmem _ (List.mem_cons_self ..)) hd
          simp [hd, hnone, htail]
  have hqueue : (p.kill dead).queue.filterMap g = p.queue.filterMap g := by
    simp only [queue, kill, List.filterMap_append, hwoken, hmail _ fun _ hx => hx]
  rw [labels, labels, hqueue, threads_kill, hlive]

/-- Interrupting threads that keep their labels changes no label. -/
theorem labels_interrupt {hit : T → Bool} {next : T → T}
    (h : ∀ t ∈ p.blocked, hit t = true → f (next t) = f t) :
    (p.interrupt hit next).labels f g = p.labels f g := by
  have hhit : ((p.blocked.filter hit).map next).filterMap f = (p.blocked.filter hit).filterMap f := by
    rw [List.filterMap_map]
    refine List.filterMap_congr fun t ht => ?_
    obtain ⟨hmem, ht⟩ := List.mem_filter.mp ht
    exact h t hmem ht
  have hsplit := (List.filter_append_perm hit p.blocked).filterMap f
  rw [List.filterMap_append] at hsplit
  have hperm := (threads_interrupt p hit next).filterMap f
  simp only [List.filterMap_append, hhit] at hperm
  have hthreads : ((p.interrupt hit next).threads.filterMap f).Perm (p.threads.filterMap f) := by
    refine hperm.trans ?_
    simp only [threads, List.filterMap_append]
    exact hsplit.append_left _
  rw [labels, labels, queue_interrupt, Multiset.coe_eq_coe.mpr hthreads]

end labels

end Pool
