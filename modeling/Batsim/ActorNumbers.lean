import Batsim.Lib.Interruptions
import Batsim.Submissions

/-!
The numbers of execution actors: no two living actors share one, and what a job remembers of its
actors names actors of that job only.
-/

namespace Batsim

open Checked Workloads Sim StepSystem

/-- The number of the execution actor that a thread is. -/
def Thread.number? (t : Thread) : Option Nat := t.actor?.map ExecutionActor.number

/-- The numbers of the living execution actors. -/
def actorNumbers (p : Pool IPMessage Thread) : Multiset Nat :=
  p.labels Thread.number? fun _ => none

theorem mem_actorNumbers {p : Pool IPMessage Thread} {n : Nat} :
    n ∈ actorNumbers p ↔ ∃ t ∈ p.threads, ∃ a, t.actor? = some a ∧ a.number = n := by
  simp [actorNumbers, Pool.labels, Thread.number?]

/-- Every living actor numbered `n` executes the job `p`, and no other will be. -/
def Sim.Serves (s : Sim) (p : JobPtr) (n : Nat) : Prop :=
  n < s.nextActor ∧
    ∀ t ∈ s.pool.threads, ∀ a, t.actor? = some a → a.number = n → a.allocation.job = p

structure Numbered (s : Sim) : Prop where
  nodup : (actorNumbers s.pool).Nodup
  lt : ∀ n ∈ actorNumbers s.pool, n < s.nextActor
  leaf : ∀ a l, .executing a l ∈ s.pool.threads → s.ptask a.number = decide (l = Leaf.ptask)
  actors : ∀ p, ∀ n ∈ (s.job p).executionActors, s.Serves p n
  task : ∀ p n, (s.job p).task = some n → s.Serves p n

/-! ### Jobs and their actors -/

/-- What the jobs remember of their actors is as before. -/
structure SameHands (s s' : Sim) : Prop where
  task : ∀ p, (s'.job p).task = (s.job p).task
  executionActors : ∀ p, (s'.job p).executionActors = (s.job p).executionActors
  nextActor : s'.nextActor = s.nextActor

theorem SameHands.refl (s : Sim) : SameHands s s := ⟨fun _ => rfl, fun _ => rfl, rfl⟩

theorem SameHands.trans {s s' s'' : Sim} (h : SameHands s s') (h' : SameHands s' s'') :
    SameHands s s'' :=
  ⟨fun p => (h'.task p).trans (h.task p),
    fun p => (h'.executionActors p).trans (h.executionActors p), h'.nextActor.trans h.nextActor⟩

theorem Sim.SameJobs.hands {s s' : Sim} (h : SameJobs s s') : SameHands s s' :=
  ⟨h.task, h.executionActors, h.nextActor⟩

theorem sameHands_setJob {s s' : Sim} {p : JobPtr} {j : Job}
    (hjob : s'.job = (s.setJob p j).job) (htask : j.task = (s.job p).task)
    (hactors : j.executionActors = (s.job p).executionActors)
    (hnext : s'.nextActor = s.nextActor) :
    SameHands s s' := by
  refine ⟨fun q => ?_, fun q => ?_, hnext⟩ <;> rw [hjob] <;> by_cases hq : q = p
  · simp [setJob, hq, htask]
  · simp [setJob, hq]
  · simp [setJob, hq, hactors]
  · simp [setJob, hq]

theorem job_noteResubmission (s : Sim) (p : JobPtr) : (s.noteResubmission p).job = s.job := by
  unfold noteResubmission
  split <;> rfl

theorem nextActor_noteResubmission (s : Sim) (p : JobPtr) :
    (s.noteResubmission p).nextActor = s.nextActor := by
  unfold noteResubmission
  split <;> rfl

theorem job_track (s : Sim) (submitter : Submitter) (p : JobPtr) :
    (s.track submitter p).job = s.job := by
  unfold track
  split <;> rfl

theorem nextActor_track (s : Sim) (submitter : Submitter) (p : JobPtr) :
    (s.track submitter p).nextActor = s.nextActor := by
  unfold track
  split <;> rfl

theorem job_submit (s : Sim) (submitter : Submitter) (p : JobPtr) :
    (s.submit submitter p).job = (s.setJob p { s.job p with state := .submitted }).job := by
  simp only [submit, countSubmitted, setJob, job_noteResubmission, job_track]

/-- Handling a message changes no task, and gives an actor to a job only to execute it. -/
theorem handleMessage_hands {cfg : Config} {s t : Sim} {m : IPMessage}
    (h : handleMessage cfg s m = .ok t) :
    SameHands s t ∨ ∃ a, m = .schedExecuteJob a ∧ t = s.launch a := by
  cases hm : m.touchesJobs with
  | false =>
    obtain ⟨ts, hhandled⟩ := handleMessage_effect h
    exact .inl (hhandled.jobs hm).hands
  | true =>
    cases m with
    | jobSubmitted name jobs =>
      obtain rfl | ⟨submitter, -, hjobs⟩ := serverOnJobSubmitted_effect h
      · exact .inl (.refl t)
      · refine .inl (forEach_preserves (P := fun u => SameHands s u) (.refl s) ?_ hjobs)
        intro p _ u u' hu hstep
        obtain ⟨-, job, profile, rfl⟩ := submitJob_effect hstep
        exact hu.trans (sameHands_setJob (job_submit u submitter p) rfl rfl (by
          simp [logged, submit, countSubmitted, setJob, nextActor_noteResubmission,
            nextActor_track]))
    | jobRegisteredByDP p =>
      obtain rfl | ⟨job, profile, rfl⟩ := serverOnRegisterJob_effect h
      · exact .inl ⟨fun _ => rfl, fun _ => rfl, rfl⟩
      · exact .inl ⟨fun _ => rfl, fun _ => rfl, rfl⟩
    | jobCompleted p =>
      obtain ⟨submitter, -, rfl⟩ | ⟨-, hcount⟩ := serverOnJobCompleted_effect h
      · exact .inl ⟨fun _ => rfl, fun _ => rfl, rfl⟩
      · obtain ⟨-, -, rfl⟩ := countJobCompletion_effect hcount
        exact .inl ⟨fun _ => rfl, fun _ => rfl, rfl⟩
    | schedExecuteJob a =>
      obtain ⟨-, -, -, rfl⟩ := serverOnExecuteJob_effect h
      exact .inr ⟨a, rfl, rfl⟩
    | schedChangeJobState id state =>
      obtain ⟨p, -, -, -, -, rfl⟩ := serverOnChangeJobState_effect h
      exact .inl (sameHands_setJob rfl rfl rfl rfl)
    | schedRejectJob id =>
      obtain ⟨p, -, -, rfl⟩ := serverOnRejectJob_effect h
      exact .inl (sameHands_setJob rfl rfl rfl rfl)
    | schedKillJob ids =>
      obtain ⟨u, toKill, hkills, rfl⟩ := serverOnKillJobs_effect h
      have hu : SameHands s u := by
        refine forEach_preserves (P := fun acc : Sim × List JobIdentifier => SameHands s acc.1)
          (.refl s) ?_ hkills
        intro id _ acc acc' hacc hstep
        obtain ⟨p, -, ⟨-, rfl⟩ | ⟨-, -, rfl⟩⟩ := requestKill_effect hstep
        · exact hacc
        · exact hacc.trans (sameHands_setJob rfl rfl rfl rfl)
      refine .inl (hu.trans ?_)
      unfold launchKiller
      split <;> exact ⟨fun _ => rfl, fun _ => rfl, rfl⟩
    | killingDone ids acknowledge =>
      obtain ⟨u, hcounts, rfl⟩ := serverOnKillingDone_effect h
      have hu : SameHands s u := by
        refine forEach_preserves (P := fun u => SameHands s u) (.refl s) ?_ hcounts
        intro id _ u u' hu hstep
        obtain ⟨p, -, ⟨-, rfl⟩ | ⟨-, -, rfl⟩⟩ := countKilledJob_effect hstep
        · exact hu
        · exact hu.trans ⟨fun _ => rfl, fun _ => rfl, rfl⟩
      refine .inl (hu.trans ?_)
      cases acknowledge <;> exact ⟨fun _ => rfl, fun _ => rfl, rfl⟩
    | _ => cases hm

theorem endOfTurn_hands {cfg : Config} {s s' : Sim} (h : endOfTurn cfg s = .ok s') :
    s'.job = s.job ∧ s'.nextActor = s.nextActor ∧ s'.ptask = s.ptask := by
  obtain rfl | ⟨workloads, hflush⟩ | hfinish := endOfTurn_cases h
  · exact ⟨rfl, rfl, rfl⟩
  · rw [hflush.eq]
    exact ⟨rfl, rfl, rfl⟩
  · rw [hfinish.eq]
    exact ⟨rfl, rfl, rfl⟩

/-! ### What keeps the numbers apart -/

/-- What matters of a change: the actors that live are not more, and the jobs remember no more of
them. -/
theorem Numbered.of_fewer {s s' : Sim} (h : Numbered s)
    (numbers : actorNumbers s'.pool ≤ actorNumbers s.pool)
    (threads : ∀ t ∈ s'.pool.threads, ∀ a, t.actor? = some a →
      ∃ u ∈ s.pool.threads, u.actor? = some a)
    (leaf : ∀ a l, .executing a l ∈ s'.pool.threads → s'.ptask a.number = decide (l = Leaf.ptask))
    (actors : ∀ p, (s'.job p).executionActors ⊆ (s.job p).executionActors)
    (task : ∀ p n, (s'.job p).task = some n → (s.job p).task = some n ∨ s.Serves p n)
    (nextActor : s.nextActor = s'.nextActor) : Numbered s' := by
  have hserves : ∀ p n, s.Serves p n → s'.Serves p n := by
    intro p n ⟨hlt, hthreads⟩
    refine ⟨nextActor ▸ hlt, fun t ht a ha hn => ?_⟩
    obtain ⟨u, hu, hua⟩ := threads t ht a ha
    exact hthreads u hu a hua hn
  refine ⟨Multiset.nodup_of_le numbers h.nodup, fun n hn => ?_, leaf, fun p n hn => ?_,
    fun p n hn => ?_⟩
  · rw [← nextActor]
    exact h.lt n (Multiset.mem_of_le numbers hn)
  · exact hserves p n (h.actors p n (actors p hn))
  · cases task p n hn with
    | inl hold => exact hserves p n (h.task p n hold)
    | inr hnew => exact hserves p n hnew

/-- The same jobs, around the same actors. -/
theorem Numbered.of_same {s u : Sim} (h : Numbered s) (hands : SameHands s u)
    (ptask : u.ptask = s.ptask)
    (numbers : actorNumbers u.pool ≤ actorNumbers s.pool)
    (threads : ∀ t ∈ u.pool.threads, (∃ a, t.actor? = some a) → t ∈ s.pool.threads) :
    Numbered u := by
  refine h.of_fewer numbers (fun t ht a ha => ⟨t, threads t ht ⟨a, ha⟩, ha⟩) (fun a l ht => ?_)
    (fun p => by rw [hands.executionActors p]; exact List.Subset.refl _)
    (fun p n hn => .inl ((hands.task p) ▸ hn))
    hands.nextActor.symm
  rw [ptask]
  exact h.leaf a l (threads _ ht ⟨a, rfl⟩)

theorem actorNumbers_of_pool {p q : Pool IPMessage Thread} {ts bs : List Thread}
    (hp : p = { q with fresh := q.fresh ++ ts, blocked := q.blocked ++ bs })
    (hnone : ∀ t ∈ ts ++ bs, t.actor? = none) : actorNumbers p = actorNumbers q := by
  have hempty : (ts ++ bs).filterMap Thread.number? = [] := by
    rw [List.filterMap_eq_nil_iff]
    intro t ht
    simp [Thread.number?, hnone t ht]
  rw [actorNumbers, Pool.labels_of_eq _ _ hp, hempty, Multiset.coe_nil, zero_add, actorNumbers]

/-- Threads without a number are created and blocked. -/
theorem Numbered.of_pool {s s' : Sim} {b c : List Thread} (h : Numbered s)
    (hands : SameHands s s') (ptask : s'.ptask = s.ptask)
    (pool : s'.pool = { s.pool with
      fresh := s.pool.fresh ++ b, blocked := s.pool.blocked ++ c })
    (hnone : ∀ t ∈ b ++ c, t.actor? = none) : Numbered s' := by
  refine h.of_same hands ptask (actorNumbers_of_pool pool hnone).le fun t ht ha => ?_
  obtain ⟨a, ha⟩ := ha
  obtain hold | hnew | hnew := (mem_threads_of_pool pool).mp ht
  · exact hold
  · rw [hnone t (List.mem_append_left _ hnew)] at ha
    cases ha
  · rw [hnone t (List.mem_append_right _ hnew)] at ha
    cases ha

theorem actorNumbers_resume {p q : Pool IPMessage Thread} {t : Thread}
    (hnext : p.next? = some (.resume t, q)) :
    actorNumbers p = (t.number?.toList : Multiset Nat) + actorNumbers q :=
  Pool.labels_resume _ _ hnext

/-- Taking something out of the pool to run it. -/
theorem Numbered.next {s : Sim} {e : Entry IPMessage Thread} {pool : Pool IPMessage Thread}
    (h : Numbered s) (hnext : s.pool.next? = some (e, pool)) :
    Numbered { s with pool := pool } := by
  have hthreads : ∀ t ∈ pool.threads, t ∈ s.pool.threads := by
    intro t ht
    cases e with
    | deliver m => rwa [← (Pool.next?_deliver hnext).1]
    | resume u => exact (Pool.next?_resume hnext).1.mem_iff.mpr (List.mem_cons_of_mem _ ht)
  refine h.of_same (u := { s with pool := pool }) ⟨fun _ => rfl, fun _ => rfl, rfl⟩ rfl ?_
    fun t ht _ => hthreads t ht
  cases e with
  | deliver m =>
    have hlabels := Pool.labels_deliver Thread.number? (fun _ => none) hnext
    simp only [Option.toList_none, Multiset.coe_nil, zero_add] at hlabels
    exact hlabels.ge
  | resume u =>
    rw [actorNumbers_resume hnext]
    exact Multiset.le_add_left _ _

/-- The actor that was taken out was the only one with its number. -/
theorem Numbered.other {s : Sim} {t : Thread} {a b : ExecutionActor}
    {pool : Pool IPMessage Thread} (h : Numbered s)
    (hnext : s.pool.next? = some (.resume t, pool)) (ha : t.actor? = some a) {u : Thread}
    (hu : u ∈ pool.threads) (hb : u.actor? = some b) : b.number ≠ a.number := by
  intro heq
  have hnodup := h.nodup
  have hnumber : t.number? = some a.number := by simp [Thread.number?, ha]
  rw [actorNumbers_resume hnext, hnumber] at hnodup
  have hmem : a.number ∈ actorNumbers pool := mem_actorNumbers.mpr ⟨u, hu, b, hb, heq⟩
  have hcons : (a.number ::ₘ actorNumbers pool).Nodup := by simpa using hnodup
  exact (Multiset.nodup_cons.mp hcons).1 hmem

/-! ### Labels of executions -/

/-- The run of a bystander makes no actor of a job. -/
theorem Thread.Moves.actor_mem {t u : Thread} {q p : Pool IPMessage Thread} {a : ExecutionActor}
    (h : t.Moves q p) (ht : t.actor? = none) (hkiller : t.isKiller = false)
    (hu : u ∈ p.threads) (ha : u.actor? = some a) : u ∈ q.threads := by
  cases h with
  | ends => exact hu
  | waits v hv =>
    obtain rfl | hold := (Pool.mem_threads_block _ _).mp hu
    · obtain ⟨b, hb⟩ := hv.actor_of_waiting ha
      rw [ht] at hb
      cases hb
    · exact hold
  | puts q' m sender hputs hkill =>
    obtain rfl | ⟨hk, -⟩ := hkill
    · obtain rfl | hold := (Pool.mem_threads_put _ _ _).mp hu
      · obtain ⟨b, hb⟩ := hputs.actor_of_sender ha
        rw [ht] at hb
        cases hb
      · exact hold
    · rw [hkiller] at hk
      cases hk

/-- Labels that only the actors of jobs and the server carry, with the ends of jobs. -/
structure OnActors {A : Type} (f : Thread → Option A) (g : IPMessage → Option A) : Prop where
  thread : ∀ t : Thread, t.actor? = none → t.isServer = false → f t = none
  message : ∀ m : IPMessage, (∀ p, m ≠ .jobCompleted p) → g m = none

namespace OnActors

variable {A : Type} {f : Thread → Option A} {g : IPMessage → Option A}

theorem numbers : OnActors Thread.number? fun _ => none :=
  ⟨fun t ht _ => by simp [Thread.number?, ht], fun _ _ => rfl⟩

/-- What a bystander sends is not the end of a job. -/
theorem of_puts (h : OnActors f g) {t : Thread} {m : IPMessage} {sender : Option Thread}
    (ht : t.actor? = none) (hreads : t.ReadsReply) (hputs : t.Puts m sender) :
    g m = none ∧ sender.bind f = none := by
  refine ⟨h.message m ?_, ?_⟩
  · rintro p rfl
    cases hreader : t.isReader with
    | true => cases hputs.of_reader hreads hreader
    | false =>
      cases hputs with
      | firstReply | reply => cases hreader
      | completed _ a ha => rw [ht] at ha; cases ha
  · cases sender with
    | none => rfl
    | some u =>
      refine h.thread u ?_ hputs.sender_startsFresh.2
      cases hu : u.actor? with
      | none => rfl
      | some a =>
        obtain ⟨b, hb⟩ := hputs.actor_of_sender hu
        rw [ht] at hb
        cases hb

theorem of_waits (h : OnActors f g) {t u : Thread} (ht : t.actor? = none) (hwaits : t.Waits u) :
    f u = none := by
  refine h.thread u ?_ hwaits.startsFresh.2.1
  cases hu : u.actor? with
  | none => rfl
  | some a =>
    obtain ⟨b, hb⟩ := hwaits.actor_of_waiting hu
    rw [ht] at hb
    cases hb

/-- The run of a bystander changes no label. -/
theorem moves (h : OnActors f g) {t : Thread} {q p : Pool IPMessage Thread}
    (ht : t.actor? = none) (hkiller : t.isKiller = false) (hreads : t.ReadsReply)
    (hmoves : t.Moves q p) : p.labels f g = q.labels f g := by
  cases hmoves with
  | ends => rfl
  | waits u hu => simp [Pool.labels_block, h.of_waits ht hu]
  | puts q' m sender hputs hkill =>
    obtain rfl | ⟨hk, -⟩ := hkill
    · obtain ⟨hm, hsender⟩ := h.of_puts ht hreads hputs
      simp [Pool.labels_put, hm, hsender]
    · rw [hkiller] at hk
      cases hk

theorem launchedBy (h : OnActors f g) {m : IPMessage} {t : Thread} (ht : t.launchedBy m = true)
    (hm : ∀ a, m ≠ .schedExecuteJob a) : f t = none := by
  refine h.thread t ?_ (Thread.launchedBy_startsFresh ht).2
  cases m <;> cases t <;> first | rfl | cases ht | exact absurd rfl (hm _)

/-- Handling a message that neither starts a job nor calls back changes no label. -/
theorem handleMessage (h : OnActors f g) {cfg : Config} {s t : Sim} {m : IPMessage}
    (hm : ∀ a, m ≠ .schedExecuteJob a) (hback : callsBack s m = false)
    (ht : handleMessage cfg s m = .ok t) : t.pool.labels f g = s.pool.labels f g := by
  obtain ⟨ts, hhandled⟩ := handleMessage_effect ht
  have hpool : t.pool = { s.pool with
      fresh := s.pool.fresh ++ ts, blocked := s.pool.blocked ++ [] } := by
    rw [← hhandled.fresh, List.append_nil, ← hhandled.blocked hback]
    simp only [← hhandled.keeps.woken, ← hhandled.keeps.mailbox]
  have hnone : (ts ++ []).filterMap f = [] := by
    rw [List.filterMap_eq_nil_iff]
    intro u hu
    exact h.launchedBy (hhandled.launched u (by simpa using hu)) hm
  rw [Pool.labels_of_eq f g hpool, hnone]
  simp

theorem endOfTurn (h : OnActors f g) {cfg : Config} {s s' : Sim}
    (hend : endOfTurn cfg s = .ok s') : s'.pool.labels f g = s.pool.labels f g := by
  obtain ⟨ts, hpool, hts⟩ := endOfTurn_pool hend
  have hpool' : s'.pool = { s.pool with
      fresh := s.pool.fresh ++ ts, blocked := s.pool.blocked ++ [] } := by simpa using hpool
  have hnone : (ts ++ []).filterMap f = [] := by
    rw [List.filterMap_eq_nil_iff]
    intro u hu
    obtain ⟨message, rfl⟩ := hts u (by simpa using hu)
    exact h.thread _ rfl rfl
  rw [Pool.labels_of_eq f g hpool', hnone]
  simp

end OnActors

/-! ### Runs of actors -/

/-- An actor goes on as `go`, or ends. -/
theorem Numbered.resumes {s s' : Sim} {t : Thread} {a : ExecutionActor}
    {pool : Pool IPMessage Thread} {g : Option Thread} (h : Numbered s)
    (hnext : s.pool.next? = some (.resume t, pool)) (ha : t.actor? = some a)
    (hpool : s'.pool.threads.Perm (g.toList ++ pool.threads))
    (hgo : ∀ v, g = some v → v.actor? = some a)
    (hleaf : ∀ l, g = some (.executing a l) → s'.ptask a.number = decide (l = Leaf.ptask))
    (hptask : ∀ n, n ≠ a.number → s'.ptask n = s.ptask n)
    (hactors : ∀ p, (s'.job p).executionActors ⊆ (s.job p).executionActors)
    (htask : ∀ p n, (s'.job p).task = some n →
      (s.job p).task = some n ∨ (p = a.allocation.job ∧ n = a.number))
    (hactor : s.nextActor = s'.nextActor) : Numbered s' := by
  have ht : t ∈ s.pool.threads :=
    (Pool.next?_resume hnext).1.mem_iff.mpr (List.mem_cons_self ..)
  have hold : ∀ v ∈ pool.threads, v ∈ s.pool.threads := fun v hu =>
    (Pool.next?_resume hnext).1.mem_iff.mpr (List.mem_cons_of_mem _ hu)
  have hnumbers : actorNumbers s'.pool ≤ actorNumbers s.pool := by
    have hlabels : actorNumbers s'.pool =
        ((g.toList.filterMap Thread.number? : List Nat) : Multiset Nat) + actorNumbers pool := by
      have hperm := hpool.filterMap Thread.number?
      rw [List.filterMap_append] at hperm
      simp only [actorNumbers, Pool.labels, Multiset.coe_eq_coe.mpr hperm, List.filterMap_none,
        Multiset.coe_nil, add_zero, Multiset.coe_add]
    rw [hlabels, actorNumbers_resume hnext]
    refine add_le_add_left ?_ _
    cases g with
    | none => exact Multiset.zero_le _
    | some v => simp [Thread.number?, hgo v rfl, ha]
  have hserves : s.Serves a.allocation.job a.number := by
    refine ⟨h.lt _ (mem_actorNumbers.mpr ⟨t, ht, a, ha, rfl⟩), fun v hu b hb hn => ?_⟩
    obtain rfl | hu := List.mem_cons.mp ((Pool.next?_resume hnext).1.mem_iff.mp hu)
    · rw [ha, Option.some.injEq] at hb
      rw [hb]
    · exact absurd hn (h.other hnext ha hu hb)
  refine h.of_fewer hnumbers (fun v hu b hb => ?_) (fun b l hu => ?_) hactors (fun p n hn => ?_)
    hactor
  · rcases List.mem_append.mp (hpool.mem_iff.mp hu) with hu | hu
    · rw [Option.mem_toList] at hu
      exact ⟨t, ht, by rw [ha, ← hgo v hu, hb]⟩
    · exact ⟨v, hold v hu, hb⟩
  · rcases List.mem_append.mp (hpool.mem_iff.mp hu) with hu | hu
    · rw [Option.mem_toList] at hu
      obtain rfl : b = a := Option.some.inj (hgo _ hu)
      exact hleaf l hu
    · rw [hptask _ (h.other hnext ha hu rfl)]
      exact h.leaf b l (hold _ hu)
  · obtain hn | ⟨rfl, rfl⟩ := htask p n hn
    · exact .inl hn
    · exact .inr hserves

/-- One job changes, up to its actors and its task. -/
theorem setJob_hands {s s' : Sim} {p : JobPtr} {j : Job} (hjob : s'.job = (s.setJob p j).job)
    (hactors : j.executionActors ⊆ (s.job p).executionActors) (q : JobPtr) :
    (s'.job q).executionActors ⊆ (s.job q).executionActors := by
  rw [hjob]
  by_cases hq : q = p
  · subst hq
    simpa [setJob] using hactors
  · simp [setJob, hq]

theorem setJob_task {s s' : Sim} {p : JobPtr} {j : Job} {P : JobPtr → Nat → Prop}
    (hjob : s'.job = (s.setJob p j).job)
    (htask : ∀ n, j.task = some n → (s.job p).task = some n ∨ P p n) (q : JobPtr) (n : Nat)
    (h : (s'.job q).task = some n) : (s.job q).task = some n ∨ P q n := by
  rw [hjob] at h
  by_cases hq : q = p
  · subst hq
    exact htask n (by simpa [setJob] using h)
  · exact .inl (by simpa [setJob, hq] using h)

theorem task_eraseActor (s : Sim) (a : ExecutionActor) (p : JobPtr) :
    ((eraseActor s a).job p).task = (s.job p).task := by
  by_cases hp : p = a.allocation.job
  · subst hp
    simp [eraseActor, setJob]
  · simp [eraseActor, setJob, hp]

/-- The threads once a job has ended by itself. -/
theorem finishJob_numbered {s u s' : Sim} {t : Thread} {a : ExecutionActor} {returnCode : Int}
    (h : Numbered s) (hnext : s.pool.next? = some (.resume t, u.pool)) (ha : t.actor? = some a)
    (hactors : ∀ p, (u.job p).executionActors ⊆ (s.job p).executionActors)
    (htask : ∀ p n, (u.job p).task = some n →
      (s.job p).task = some n ∨ (p = a.allocation.job ∧ n = a.number))
    (hptask : u.ptask = s.ptask) (hactor : s.nextActor = u.nextActor)
    (hrun : finishJob u a returnCode = .ok s') : Numbered s' := by
  obtain ⟨j, machines, -, -, -, hj, hjactors, hs'⟩ := finishJob_effect hrun
  have hsub : ∀ p, ((u.setJob a.allocation.job j).job p).executionActors ⊆
      (s.job p).executionActors := fun p =>
    List.Subset.trans (setJob_hands (s := u) rfl (by simp [hjactors]) p) (hactors p)
  have hkeep : ∀ p n, ((u.setJob a.allocation.job j).job p).task = some n →
      (s.job p).task = some n ∨ (p = a.allocation.job ∧ n = a.number) := by
    intro p n hn
    obtain hold | hfalse := setJob_task (s := u) (P := fun _ _ => False) rfl
      (fun n hn => .inl (hj ▸ hn)) p n hn
    · exact htask p n hold
    · exact hfalse.elim
  obtain ⟨-, -, rfl⟩ | ⟨-, -, rfl⟩ := hs'
  · refine h.resumes (g := some (.notified a)) hnext ha ?_ (by simp [Thread.actor?]) (by simp)
      (fun n _ => congrFun hptask n) hsub hkeep hactor
    exact Pool.threads_put _ _ _
  · refine h.resumes (g := none) hnext ha (List.Perm.refl _) (by simp) (by simp)
      (fun n _ => congrFun hptask n) (fun p => ?_) (fun p n hn => ?_) hactor
    · refine List.Subset.trans ?_ (hsub p)
      exact setJob_hands (s := (u.endJob a.allocation.job j machines).noteSilentEnd
        a.allocation.job) rfl (List.erase_subset ..) p
    · rw [task_eraseActor] at hn
      exact hkeep p n hn

theorem executeTask_numbered {s u s' : Sim} {t : Thread} {a : ExecutionActor} {step : TaskStep}
    (h : Numbered s) (hnext : s.pool.next? = some (.resume t, u.pool)) (ha : t.actor? = some a)
    (hactors : ∀ p, (u.job p).executionActors ⊆ (s.job p).executionActors)
    (htask : ∀ p n, (u.job p).task = some n →
      (s.job p).task = some n ∨ (p = a.allocation.job ∧ n = a.number))
    (hptask : u.ptask = s.ptask) (hactor : s.nextActor = u.nextActor)
    (hrun : executeTask u a step = .ok s') : Numbered s' := by
  have hupdate : ∀ b n, n ≠ a.number → Function.update u.ptask a.number b n = s.ptask n := by
    intro b n hn
    simp [Function.update_of_ne hn, hptask]
  obtain ⟨l, -, rfl⟩ | ⟨message, -, rfl⟩ | ⟨returnCode, -, hfinish⟩ := executeTask_effect hrun
  · refine h.resumes (g := some (.executing a l)) hnext ha ?_ (by simp [Thread.actor?]) ?_
      (hupdate _) hactors htask hactor
    · exact Pool.threads_block _ _
    · intro l' hl
      cases hl
      simp [waitOnLeaf, Sim.block]
  · refine h.resumes (g := some (.executing a .other)) hnext ha ?_ (by simp [Thread.actor?]) ?_
      (hupdate _) hactors htask hactor
    · exact Pool.threads_put _ _ _
    · intro l' hl
      cases hl
      simp [sendFromJob, Sim.put]
  · exact finishJob_numbered h hnext ha hactors htask hptask hactor hfinish

/-! ### Killers -/

theorem killJob_numbered {s s' : Sim} {id : JobIdentifier} (h : Numbered s)
    (hkill : killJob s id = .ok s') : Numbered s' := by
  obtain ⟨p, -, -, -, -, ⟨-, rfl⟩ |
    ⟨n, -, -, ⟨-, rfl⟩ | ⟨-, -, j, machines, -, -, -, hj, hjactors, -, rfl⟩⟩⟩ := killJob_effect hkill
  · exact h
  · -- a cancelled actor keeps its number
    have hsame : actorNumbers (s.cancelPtask n).pool = actorNumbers s.pool := by
      refine Pool.labels_interrupt _ _ fun t _ ht => ?_
      obtain ⟨a, rfl, -⟩ := Thread.waitsOnPtask_eq_true ht
      rfl
    have hthreads : ∀ t ∈ (s.cancelPtask n).pool.threads, t ∈ s.pool.threads ∨
        ∃ a, t = .cancelled a ∧ .executing a .ptask ∈ s.pool.threads := fun t ht =>
      KillSteps.mem_threads (.interrupt n (.refl s.pool)) ht
    refine h.of_fewer hsame.le (fun t ht a ha => ?_) (fun a l ht => ?_)
      (fun _ => List.Subset.refl _) (fun p m hm => .inl hm) rfl
    · obtain hold | ⟨b, rfl, hold⟩ := hthreads t ht
      · exact ⟨t, hold, ha⟩
      · exact ⟨_, hold, ha⟩
    · obtain hold | ⟨b, hb, -⟩ := hthreads _ ht
      · exact h.leaf a l hold
      · cases hb
  · have hthreads : ∀ t ∈ (s.killActors p j machines).pool.threads, t ∈ s.pool.threads :=
      fun t ht => ((Pool.mem_threads_kill _ _).mp ht).1
    refine h.of_fewer (Pool.labels_kill_le _ _ _) (fun t ht a ha => ⟨t, hthreads t ht, ha⟩)
      (fun a l ht => h.leaf a l (hthreads _ ht)) (setJob_hands (s := s) rfl (by simp [hjactors]))
      (fun q m hm => ?_) rfl
    exact (setJob_task (s := s) (P := fun _ _ => False) rfl (fun n hn => .inl (hj ▸ hn)) q m hm).imp_right
      False.elim

theorem killerProcess_numbered {s s' : Sim} {ids : List JobIdentifier} {acknowledge : Bool}
    (h : Numbered s) (hrun : killerProcess s ids acknowledge = .ok s') : Numbered s' := by
  obtain ⟨t, hkills, rfl⟩ := killerProcess_effect hrun
  have ht : Numbered t := forEach_preserves h (fun _ _ _ _ hu hkill => killJob_numbered hu hkill)
    hkills
  refine ht.of_same ⟨fun _ => rfl, fun _ => rfl, rfl⟩ rfl ?_ fun u hu _ => ?_
  · have hlabels := Pool.labels_put Thread.number? (fun _ => none) t.pool
      (.killingDone ids acknowledge) none
    exact (hlabels.trans (by simp [actorNumbers])).le
  · simpa [Sim.put] using hu

/-! ### Every state -/

section runs

variable {cfg : Config} {guard : Sim → Choice → Prop} {s s' : Sim}

theorem Numbered.launch {s : Sim} (h : Numbered s) (a : SchedulingAllocation) :
    Numbered (s.launch a) := by
  have hnumbers : actorNumbers (s.launch a).pool = s.nextActor ::ₘ actorNumbers s.pool := by
    have hpool : (s.launch a).pool = { s.pool with
        fresh := s.pool.fresh ++ [.executeJob ⟨s.nextActor, a⟩]
        blocked := s.pool.blocked ++ [] } := by simp [Sim.launch, Pool.spawn]
    rw [actorNumbers, Pool.labels_of_eq _ _ hpool]
    rfl
  have hthreads : ∀ t ∈ (s.launch a).pool.threads, ∀ b, t.actor? = some b →
      (t ∈ s.pool.threads ∧ b.number < s.nextActor) ∨ (b = ⟨s.nextActor, a⟩ ∧ ∀ c l,
        t ≠ .executing c l) := by
    intro t ht b hb
    obtain rfl | hold := (Pool.mem_threads_spawn _ _).mp ht
    · exact .inr ⟨(Option.some.inj hb).symm, by simp⟩
    · exact .inl ⟨hold, h.lt _ (mem_actorNumbers.mpr ⟨t, hold, b, hb, rfl⟩)⟩
  have hserves : ∀ p n, s.Serves p n → (s.launch a).Serves p n := by
    rintro p n ⟨hlt, hserves⟩
    refine ⟨Nat.lt_succ_of_lt hlt, fun t ht b hb hn => ?_⟩
    obtain ⟨hold, -⟩ | ⟨rfl, -⟩ := hthreads t ht b hb
    · exact hserves t hold b hb hn
    · exact absurd hn (Nat.ne_of_gt hlt)
  refine ⟨?_, fun n hn => ?_, fun b l ht => ?_, fun p n hn => ?_, fun p n hn => ?_⟩
  · rw [hnumbers]
    exact Multiset.nodup_cons.mpr ⟨fun hmem => Nat.lt_irrefl _ (h.lt _ hmem), h.nodup⟩
  · rw [hnumbers, Multiset.mem_cons] at hn
    obtain rfl | hn := hn
    · exact Nat.lt_succ_self _
    · exact Nat.lt_succ_of_lt (h.lt n hn)
  · obtain ⟨hold, -⟩ | ⟨-, hnot⟩ := hthreads _ ht b rfl
    · exact h.leaf b l hold
    · exact absurd rfl (hnot b l)
  · by_cases hp : p = a.job
    · subst hp
      have hmem : n ∈ (s.job a.job).executionActors ++ [s.nextActor] := by
        simpa [Sim.launch, countRunning, setJob] using hn
      rcases List.mem_append.mp hmem with hmem | hmem
      · exact hserves _ n (h.actors _ n hmem)
      · obtain rfl := List.mem_singleton.mp hmem
        refine ⟨Nat.lt_succ_self _, fun t ht b hb hn => ?_⟩
        obtain ⟨-, hlt⟩ | ⟨rfl, -⟩ := hthreads t ht b hb
        · exact absurd hn (Nat.ne_of_lt hlt)
        · rfl
    · have hold : n ∈ (s.job p).executionActors := by
        simpa [Sim.launch, countRunning, setJob, hp] using hn
      exact hserves p n (h.actors p n hold)
  · refine hserves p n (h.task p n ?_)
    by_cases hp : p = a.job
    · subst hp
      simpa [Sim.launch, countRunning, setJob] using hn
    · simpa [Sim.launch, countRunning, setJob, hp] using hn

theorem endOfTurn_numbered (h : Numbered s) (hend : endOfTurn cfg s = .ok s') : Numbered s' := by
  obtain ⟨hjob, hactor, hptask⟩ := endOfTurn_hands hend
  obtain ⟨ts, hpool, hts⟩ := endOfTurn_pool hend
  refine h.of_pool (b := ts) (c := []) ⟨fun p => by rw [hjob], fun p => by rw [hjob], hactor⟩
    hptask (by simpa using hpool) fun t ht => ?_
  obtain ⟨message, rfl⟩ := hts t (by simpa using ht)
  rfl

theorem turn_numbered {m : IPMessage} (h : Numbered s) (hturn : turn cfg s m = .ok s') :
    Numbered s' := by
  obtain ⟨t, ht, hend⟩ := turn_cases hturn
  have hnumbered : Numbered t := by
    obtain hsame | ⟨a, rfl, rfl⟩ := handleMessage_hands ht
    · obtain ⟨ts, bs, hpool, hts, hbs⟩ := handleMessage_pool ht
      obtain ⟨us, hhandled⟩ := handleMessage_effect ht
      have hnone : ∀ u ∈ ts ++ bs, u.actor? = none := by
        intro u hu
        rcases List.mem_append.mp hu with hu | hu
        · by_cases hm : ∃ a, m = .schedExecuteJob a
          · -- the number of the actor that would be created is not used
            obtain ⟨a, rfl⟩ := hm
            obtain ⟨-, -, -, rfl⟩ := serverOnExecuteJob_effect ht
            exact absurd hsame.nextActor (Nat.succ_ne_self _)
          · have hlaunched := hts u hu
            cases m <;> cases u <;> first | rfl | cases hlaunched | exact absurd ⟨_, rfl⟩ hm
        · obtain ⟨-, rfl⟩ | ⟨job, mailbox, rfl⟩ := hbs
          · cases hu
          · rw [List.mem_singleton.mp hu]
            rfl
      exact h.of_pool hsame hhandled.keeps.ptask hpool hnone
    · exact h.launch a
  obtain ⟨-, rfl⟩ | ⟨-, hend⟩ := hend
  · exact hnumbered
  · refine endOfTurn_numbered (s := t.noteHandled m) ?_ hend
    exact hnumbered.of_same ⟨fun _ => rfl, fun _ => rfl, rfl⟩ rfl (le_refl _) fun u hu _ => hu

/-- The run of an actor. -/
theorem runThread_numbered {o : Outcome} {t : Thread} {pool : Pool IPMessage Thread}
    (howned : s.workloads.Owned) (hreads : t.ReadsReply) (h : Numbered s)
    (ht : t.isServer = false) (hnext : s.pool.next? = some (.resume t, pool))
    (hrun : runThread cfg { s with pool := pool } o t = .ok s') : Numbered s' := by
  cases hactor : t.actor? with
  | none =>
    cases hkiller : t.isKiller with
    | true =>
      cases t with
      | killer ids acknowledge => exact killerProcess_numbered (h.next hnext) hrun
      | _ => cases hkiller
    | false =>
      obtain ⟨new, hby⟩ := runThread_bystands (s := { s with pool := pool }) howned ht hactor
        hkiller hrun
      obtain ⟨hmoves, hkeeps⟩ := runThread_moves (s := { s with pool := pool }) howned ht hrun
      have hnumbers := OnActors.numbers.moves hactor hkiller hreads hmoves
      have hthreads : ∀ u ∈ s'.pool.threads, ∀ a, u.actor? = some a → u ∈ pool.threads :=
        fun u hu a ha => hmoves.actor_mem hactor hkiller hu ha
      have hjob : ∀ p, s'.job p = s.job p ∨
          ((s'.job p).task = none ∧ (s'.job p).executionActors = []) := by
        intro p
        rw [hby.job]
        cases new with
        | none => exact .inl rfl
        | some x =>
          obtain ⟨-, htask, hactors, -⟩ := hby.blank x.1 x.2 rfl
          by_cases hp : p = x.1
          · subst hp
            exact .inr (by simp [htask, hactors])
          · exact .inl (by simp [hp])
      refine (h.next hnext).of_fewer hnumbers.le (fun u hu a ha => ⟨u, hthreads u hu a ha, ha⟩)
        (fun a l hu => ?_) (fun p => ?_) (fun p n hn => ?_) hkeeps.nextActor.symm
      · rw [hby.ptask]
        exact (h.next hnext).leaf a l (hthreads _ hu a rfl)
      · obtain heq | ⟨-, hnil⟩ := hjob p
        · rw [heq]
          exact List.Subset.refl _
        · rw [hnil]
          exact List.nil_subset _
      · obtain heq | ⟨hnone, -⟩ := hjob p
        · exact .inl (heq ▸ hn)
        · rw [hnone] at hn
          cases hn
  | some a =>
    have hsame : ∀ p, ((s.job p).executionActors ⊆ (s.job p).executionActors) :=
      fun _ => List.Subset.refl _
    cases t with
    | executeJob b =>
      obtain rfl : b = a := Option.some.inj hactor
      cases o with
      | task step =>
        simp only [runThread, bind_eq_ok] at hrun
        obtain ⟨u, hu, hrun⟩ := hrun
        obtain ⟨machines, -, rfl⟩ := startJob_effect hu
        have hbegun : ∀ p n, (({ s with pool := pool } : Sim).beginJob b machines |>.job p).task =
            some n → (s.job p).task = some n ∨ (p = b.allocation.job ∧ n = b.number) :=
          setJob_task (s := s) rfl fun n hn => .inr ⟨rfl, (Option.some.inj hn).symm⟩
        exact executeTask_numbered (u := ({ s with pool := pool } : Sim).beginJob b machines) h hnext
          hactor (setJob_hands (s := s) rfl (List.Subset.refl _)) hbegun rfl rfl hrun
      | _ => simp [runThread] at hrun
    | executing b l =>
      obtain rfl : b = a := Option.some.inj hactor
      cases o with
      | task step =>
        exact executeTask_numbered (u := { s with pool := pool }) h hnext hactor hsame
          (fun p n hn => .inl hn) rfl rfl hrun
      | _ => simp [runThread] at hrun
    | cancelled b =>
      obtain rfl : b = a := Option.some.inj hactor
      exact finishJob_numbered (u := { s with pool := pool }) h hnext hactor hsame
        (fun p n hn => .inl hn) rfl rfl hrun
    | notified b =>
      obtain rfl : b = a := Option.some.inj hactor
      simp only [runThread, Except.ok.injEq] at hrun
      subst hrun
      refine h.resumes (g := none) hnext hactor (List.Perm.refl _) (by simp) (by simp)
        (fun _ _ => rfl) (setJob_hands (s := s) rfl (List.erase_subset ..)) (fun p n hn => ?_) rfl
      rw [task_eraseActor] at hn
      exact .inl hn
    | _ => cases hactor

theorem start_numbered (cfg : Config) : Numbered (start cfg) := by
  have hjob : ∀ p, (cfg.job p).task = none ∧ (cfg.job p).executionActors = [] := by
    intro p
    unfold Config.job
    split
    · exact ⟨rfl, rfl⟩
    · split
      · exact ⟨rfl, rfl⟩
      · exact ⟨rfl, rfl⟩
  have hthreads : ∀ t ∈ (start cfg).pool.threads, t.actor? = none := by
    intro t ht
    have hinitial : t ∈ initialThreads cfg := by simpa [start, Pool.threads] using ht
    simp only [initialThreads, List.mem_append, List.mem_map, List.mem_singleton] at hinitial
    obtain ((⟨d, -, rfl⟩ | ⟨d, -, rfl⟩) | ⟨d, -, rfl⟩) | rfl := hinitial <;> rfl
  have hnumbers : actorNumbers (start cfg).pool = 0 := by
    refine Multiset.eq_zero_of_forall_notMem fun n hn => ?_
    obtain ⟨t, ht, a, ha, -⟩ := mem_actorNumbers.mp hn
    rw [hthreads t ht] at ha
    cases ha
  refine ⟨by simp [hnumbers], by simp [hnumbers], fun a l ht => ?_, fun p n hn => ?_,
    fun p n hn => ?_⟩
  · cases hthreads _ ht
  · have hnil : ((start cfg).job p).executionActors = [] := (hjob p).2
    rw [hnil] at hn
    cases hn
  · have hnone : ((start cfg).job p).task = none := (hjob p).1
    rw [hnone] at hn
    cases hn

/-- In every state of every run, the numbers of execution actors tell them apart. -/
theorem reaches_numbered (h : Reaches (batsim cfg) guard s) : Numbered s := by
  refine h.invariant (start_numbered cfg) ?_
  intro s s' c hr hs _ hstep
  have howned := reaches_owned hr
  cases step_kind hstep with
  | solve clock receive wakes rest order pool hcan hsolve hs' =>
    subst hs'
    refine hs.of_same ⟨fun _ => rfl, fun _ => rfl, rfl⟩ rfl
      (Pool.labels_solve _ _ hsolve).le fun t ht _ => (Pool.threads_solve hsolve).mem_iff.mp ht
  | turn o m pool hnext hturn => exact turn_numbered (hs.next hnext) hturn
  | callback o p mailbox pool hnext hrun =>
    obtain ⟨t, ht, hend⟩ := serverCallback_cases hrun
    obtain ⟨-, -, rfl⟩ := serverOnCallbackReceived_effect ht
    refine endOfTurn_numbered (s := Sim.noteHandled _ _) ?_ hend
    exact (hs.next hnext).of_same ⟨fun _ => rfl, fun _ => rfl, rfl⟩ rfl (le_refl _)
      fun u hu _ => hu
  | start o pool hnext hrun =>
    rw [serverProcess_effect hrun]
    refine (hs.next hnext).of_pool
      (b := [.requestReply (s.logged .simulationBegins).writer.events]) (c := [])
      ⟨fun _ => rfl, fun _ => rfl, rfl⟩ rfl ?_ (by simp [Thread.actor?])
    simp [messageSent, logged, Pool.spawn]
  | actor o t pool ht hnext hrun =>
    have hmem : t ∈ s.pool.threads :=
      (Pool.next?_resume hnext).1.mem_iff.mpr (List.mem_cons_self ..)
    exact runThread_numbered howned (reaches_readsReply hr hmem) hs ht hnext hrun

end runs

end Batsim
