import Batsim.KillRuns
import Batsim.Life
import Batsim.MachineUsers

/-!
The life of every job, in every run: where it is shows in the jobs, in the pool of threads, in the
counters and on the machines, all at once.
-/

namespace Batsim

open Checked Workloads Sim StepSystem Machines

/-! ### What a state shows of a job -/

def Thread.trace? (p : JobPtr) : Thread → Option Trace
  | executeJob a => if a.allocation.job = p then some (.thread (executeJob a)) else none
  | executing a l => if a.allocation.job = p then some (.thread (executing a l)) else none
  | cancelled a => if a.allocation.job = p then some (.thread (cancelled a)) else none
  | serverCallback q mailbox => if q = p then some (.thread (serverCallback q mailbox)) else none
  | _ => none

def IPMessage.trace? (p : JobPtr) : IPMessage → Option Trace
  | jobCompleted q => if q = p then some .ended else none
  | _ => none

/-- The traces of a job in the pool. -/
def traceOf (p : JobPtr) (pool : Pool IPMessage Thread) : Multiset Trace :=
  pool.labels (Thread.trace? p) (IPMessage.trace? p)

theorem onActors_trace (p : JobPtr) : OnActors (Thread.trace? p) (IPMessage.trace? p) where
  thread t ht hserver := by
    cases t with
    | executeJob _ | executing _ _ | cancelled _ => cases ht
    | serverCallback _ _ => cases hserver
    | _ => rfl
  message m hm := by
    cases m <;> first | rfl | exact absurd rfl (hm _)

structure JobView where
  met : Prop
  state : JobState
  hands : Option Nat × List Nat
  allocation : IntervalSet
  trace : Multiset Trace
  started : Nat
  counted : Nat
  buried : Nat
  runs : Nat
  ends : Nat
  uses : Nat → Nat

def Sim.view (s : Sim) (p : JobPtr) : JobView where
  met := s.workloads.Met p
  state := (s.job p).state
  hands := ((s.job p).task, (s.job p).executionActors)
  allocation := (s.job p).allocation
  trace := traceOf p s.pool
  started := s.history.started.count p
  counted := s.history.counted.count p
  buried := s.history.countedKilled.count p
  runs := s.history.runs.count p
  ends := s.history.ends.count p
  uses := fun id => (s.machines.users id).count p

/-- The view `v` is that of the job `p` in the stage `l` of its life. -/
structure Life.Shows (p : JobPtr) (l : Life) (v : JobView) : Prop where
  met : v.met ↔ l ≠ .unmet
  state : v.state = l.state
  hands : ∀ x, l.hands = some x → v.hands = x
  allocation : ∀ ids, l.machines? = some ids → v.allocation = ids
  trace : v.trace = l.trace p
  started : v.started = l.started
  counted : v.counted = l.counted
  buried : v.buried = l.buried
  runs : v.runs = l.runs
  ends : v.ends = l.ends
  uses : ∀ id, v.uses id = l.uses id

/-- The stage of a job is no matter of opinion. -/
theorem Life.Shows.unique {p : JobPtr} {l l' : Life} {v : JobView} (h : l.Shows p v)
    (h' : l'.Shows p v) : l = l' := by
  have hstate : l.state = l'.state := h.state.symm.trans h'.state
  have htrace : l.trace p = l'.trace p := h.trace.symm.trans h'.trace
  have hcounted : l.counted = l'.counted := h.counted.symm.trans h'.counted
  have hmet : l ≠ .unmet ↔ l' ≠ .unmet := h.met.symm.trans h'.met
  cases l with
  | ended o =>
    cases l' with
    | ended o' => exact congrArg ended (Subtype.ext hstate)
    | _ => simp [Life.trace] at htrace
  | calling mailbox o =>
    cases l' with
    | calling mailbox' o' =>
      simp only [Life.trace, Multiset.singleton_inj, Trace.thread.injEq,
        Thread.serverCallback.injEq, true_and] at htrace
      exact congrArg₂ calling htrace (Subtype.ext hstate)
    | _ => simp [Life.trace] at htrace
  | settled o =>
    cases l' with
    | settled o' =>
      cases o with
      | none =>
        cases o' with
        | none => rfl
        | some o' =>
          have hends := o'.2
          rw [← show JobState.completedKilled = o'.1 from hstate] at hends
          cases hends
      | some o =>
        cases o' with
        | none =>
          have hends := o.2
          rw [show o.1 = JobState.completedKilled from hstate] at hends
          cases hends
        | some o' => exact congrArg (fun o => settled (some o)) (Subtype.ext hstate)
    | rejected =>
      cases o with
      | none => cases hstate
      | some o =>
        have hends := o.2
        rw [show o.1 = JobState.rejected from hstate] at hends
        cases hends
    | _ => simp [Life.counted] at hcounted
  | rejected =>
    cases l' with
    | rejected => rfl
    | settled o =>
      cases o with
      | none => cases hstate
      | some o =>
        have hends := o.2
        rw [← show JobState.rejected = o.1 from hstate] at hends
        cases hends
    | _ => simp [Life.counted] at hcounted
  | _ => cases l' <;> simp_all [Life.trace, Life.state, Life.counted]

/-- Two states that agree on a job show the same. -/
theorem view_eq {s t : Sim} {p : JobPtr}
    (met : t.workloads.Met p ↔ s.workloads.Met p)
    (state : (t.job p).state = (s.job p).state)
    (task : (t.job p).task = (s.job p).task)
    (actors : (t.job p).executionActors = (s.job p).executionActors)
    (allocation : (t.job p).allocation = (s.job p).allocation)
    (trace : traceOf p t.pool = traceOf p s.pool)
    (started : t.history.started.count p = s.history.started.count p)
    (counted : t.history.counted.count p = s.history.counted.count p)
    (buried : t.history.countedKilled.count p = s.history.countedKilled.count p)
    (runs : t.history.runs.count p = s.history.runs.count p)
    (ends : t.history.ends.count p = s.history.ends.count p)
    (uses : ∀ id, (t.machines.users id).count p = (s.machines.users id).count p) :
    t.view p = s.view p := by
  have hmet : t.workloads.Met p = s.workloads.Met p := propext met
  have huses : (fun id => (t.machines.users id).count p) =
      fun id => (s.machines.users id).count p := funext uses
  simp only [Sim.view, hmet, state, task, actors, allocation, trace, started, counted, buried, runs,
    ends, huses]

/-! ### Taking threads and messages out of the pool -/

section taking

variable {s : Sim} {pool : Pool IPMessage Thread} {p : JobPtr} {l : Life}

theorem traceOf_deliver {m : IPMessage} (hnext : s.pool.next? = some (.deliver m, pool)) :
    traceOf p s.pool = ((m.trace? p).toList : Multiset Trace) + traceOf p pool :=
  Pool.labels_deliver _ _ hnext

theorem traceOf_resume {t : Thread} (hnext : s.pool.next? = some (.resume t, pool)) :
    traceOf p s.pool = ((t.trace? p).toList : Multiset Trace) + traceOf p pool :=
  Pool.labels_resume _ _ hnext

theorem view_pool (htrace : traceOf p pool = traceOf p s.pool) :
    ({ s with pool := pool } : Sim).view p = s.view p := by
  simp only [Sim.view, htrace]

/-- What has just run was the only trace of the job. -/
theorem Life.Shows.taken {x : Trace} (h : l.Shows p (s.view p))
    (htrace : traceOf p s.pool = (([x] : List Trace) : Multiset Trace) + traceOf p pool) :
    l.trace p = {x} ∧ traceOf p pool = 0 := by
  have hl : l.trace p = x ::ₘ traceOf p pool := by
    rw [← h.trace, show (s.view p).trace = traceOf p s.pool from rfl, htrace]
    simp
  have hcard : (l.trace p).card ≤ 1 := by
    cases l <;> simp [Life.trace]
  rw [hl, Multiset.card_cons] at hcard
  have hzero : traceOf p pool = 0 := Multiset.card_eq_zero.mp (by omega)
  rw [hl, hzero]
  exact ⟨rfl, rfl⟩

end taking

/-! ### The server -/

theorem Ending.ne (o : Ending) {state : JobState} (h : state.endsItself = false) :
    o.1 ≠ state := by
  intro heq
  have hends := o.2
  rw [heq, h] at hends
  cases hends

namespace Life.Shows

variable {p : JobPtr} {l : Life} {v : JobView}

theorem of_notSubmitted (h : l.Shows p v) (hmet : v.met) (hstate : v.state = .notSubmitted) :
    l = .waiting := by
  have hl : l.state = .notSubmitted := h.state.symm.trans hstate
  cases l with
  | unmet => exact absurd rfl (h.met.mp hmet)
  | waiting => rfl
  | ended o | calling _ o => exact absurd hl (o.ne rfl)
  | settled o =>
    cases o with
    | none => cases hl
    | some o => exact absurd hl (o.ne rfl)
  | _ => cases hl

theorem of_submitted (h : l.Shows p v) (hstate : v.state = .submitted) : l = .submitted := by
  have hl : l.state = .submitted := h.state.symm.trans hstate
  cases l with
  | submitted => rfl
  | ended o | calling _ o => exact absurd hl (o.ne rfl)
  | settled o =>
    cases o with
    | none => cases hl
    | some o => exact absurd hl (o.ne rfl)
  | _ => cases hl

theorem of_killed (h : l.Shows p v) (hstate : v.state = .completedKilled) :
    l = .killed ∨ l = .settled none := by
  have hl : l.state = .completedKilled := h.state.symm.trans hstate
  cases l with
  | killed => exact .inl rfl
  | ended o | calling _ o => exact absurd hl (o.ne rfl)
  | settled o =>
    cases o with
    | none => exact .inr rfl
    | some o => exact absurd hl (o.ne rfl)
  | _ => cases hl

/-- What a job that runs may be doing. -/
theorem of_running (h : l.Shows p v) (hstate : v.state = .running) :
    l = .forced ∨ l.isActive = true := by
  have hl : l.state = .running := h.state.symm.trans hstate
  cases l with
  | forced => exact .inl rfl
  | launched _ | executing _ _ | cancelled _ => exact .inr rfl
  | ended o | calling _ o => exact absurd hl (o.ne rfl)
  | settled o =>
    cases o with
    | none => cases hl
    | some o => exact absurd hl (o.ne rfl)
  | _ => cases hl

end Life.Shows

section server

variable {cfg : Config} {u t : Sim} {p q : JobPtr} {l : Life}

/-- What a submission leaves alone. -/
theorem submit_leaves (u : Sim) (submitter : Submitter) (q : JobPtr) :
    (u.submit submitter q).workloads = u.workloads ∧
      (u.submit submitter q).pool = u.pool ∧
      (u.submit submitter q).machines = u.machines ∧
      (u.submit submitter q).history.started = u.history.started ∧
      (u.submit submitter q).history.counted = u.history.counted ∧
      (u.submit submitter q).history.countedKilled = u.history.countedKilled ∧
      (u.submit submitter q).history.runs = u.history.runs ∧
      (u.submit submitter q).history.ends = u.history.ends ∧
      (u.submit submitter q).history.resubmitted =
        u.history.resubmitted ++ if (u.job q).state = .notSubmitted then [] else [q] := by
  simp only [submit, track, noteResubmission, countSubmitted, setJob]
  split <;> split <;> simp_all

theorem submitJob_lives {submitter : Submitter} (h : l.Shows p (u.view p))
    (hmet : u.workloads.Met q) (hstep : submitJob cfg submitter u q = .ok t)
    (hp : p ∉ t.history.resubmitted) : ∃ l', l.Leads l' ∧ l'.Shows p (t.view p) := by
  obtain ⟨-, job, profile, rfl⟩ := submitJob_effect hstep
  obtain ⟨hworkloads, hpool, hmachines, hstarted, hcounted, hburied, hruns, hends, hresubmitted⟩ :=
    submit_leaves u submitter q
  have hjob := job_submit u submitter q
  have hview : ∀ e, ((u.submit submitter q).logged e).view p = { u.view p with
      state := if p = q then .submitted else (u.job p).state } := by
    intro e
    by_cases hq : p = q
    · subst hq
      simp [Sim.view, logged, hworkloads, hpool, hmachines, hstarted, hcounted, hburied, hruns, hends, hjob,
        setJob]
    · simp [Sim.view, logged, hworkloads, hpool, hmachines, hstarted, hcounted, hburied, hruns, hends, hjob,
        setJob, hq]
  by_cases hq : p = q
  · subst hq
    have hstate : (u.job p).state = .notSubmitted := by
      by_contra hnot
      exact hp (by simp [logged, hresubmitted, hnot])
    obtain rfl := h.of_notSubmitted hmet hstate
    refine ⟨.submitted, .single .submit, ?_⟩
    rw [hview, if_pos rfl]
    exact ⟨by simpa using h.met, rfl, h.hands, by simp [Life.machines?], h.trace, h.started,
      h.counted, h.buried, h.runs, h.ends, h.uses⟩
  · refine ⟨l, .refl, ?_⟩
    rw [hview, if_neg hq]
    exact h

theorem traceOf_of_pool {pool pool' : Pool IPMessage Thread} {ts bs : List Thread}
    (h : pool' = { pool with fresh := pool.fresh ++ ts, blocked := pool.blocked ++ bs }) :
    traceOf p pool' = ((ts ++ bs).filterMap (Thread.trace? p) : List Trace) + traceOf p pool :=
  Pool.labels_of_eq _ _ h

theorem launch_lives (h : l.Shows p (u.view p)) {a : SchedulingAllocation}
    (hstate : (u.job a.job).state = .submitted) :
    ∃ l', l.Leads l' ∧ l'.Shows p ((u.launch a).view p) := by
  have hpool : (u.launch a).pool = { u.pool with
      fresh := u.pool.fresh ++ [.executeJob ⟨u.nextActor, a⟩]
      blocked := u.pool.blocked ++ [] } := by simp [Sim.launch, Pool.spawn]
  have htrace := traceOf_of_pool (p := p) hpool
  by_cases hq : p = a.job
  · subst hq
    obtain rfl := h.of_submitted hstate
    refine ⟨.launched ⟨u.nextActor, a⟩, .single (.launch _), ?_⟩
    have hhands := h.hands _ rfl
    have hnone : (u.job a.job).task = none := congrArg Prod.fst hhands
    have hactors : (u.job a.job).executionActors = [] := congrArg Prod.snd hhands
    have hold : traceOf a.job u.pool = 0 := h.trace
    have hnew : traceOf a.job (u.launch a).pool = {.thread (.executeJob ⟨u.nextActor, a⟩)} := by
      rw [htrace, hold]
      simp [Thread.trace?]
    refine ⟨iff_of_true (h.met.mpr (by simp)) (by simp),
      by simp [Sim.view, Sim.launch, countRunning, setJob, Life.state],
      fun x hx => ?_, by simp [Life.machines?], hnew, ?_, h.counted, h.buried, h.runs, h.ends, h.uses⟩
    · cases hx
      simp [Sim.view, Sim.launch, countRunning, setJob, hnone, hactors]
    · have hstarted : u.history.started.count a.job = 0 := h.started
      have happend : (u.launch a).history.started = u.history.started ++ [a.job] := rfl
      simp [Sim.view, happend, hstarted, Life.started]
  · refine ⟨l, .refl, ?_⟩
    have hne : ¬ a.job = p := fun heq => hq heq.symm
    have hsame : traceOf p (u.launch a).pool = traceOf p u.pool := by
      rw [htrace]
      simp [Thread.trace?, hne]
    have hjob : (u.launch a).job p = u.job p := by simp [Sim.launch, countRunning, setJob, hq]
    have hstarted : (u.launch a).history.started = u.history.started ++ [a.job] := rfl
    rw [view_eq (s := u) (t := u.launch a) Iff.rfl (by rw [hjob]) (by rw [hjob]) (by rw [hjob])
      (by rw [hjob]) hsame (by simp [hstarted, hne]) rfl rfl rfl rfl fun _ => rfl]
    exact h

/-- One job changes, without its actors or its machines, and it may be counted. -/
theorem view_counted (hworkloads : t.workloads = u.workloads) (hpool : t.pool = u.pool)
    (hmachines : t.machines = u.machines) (hruns : t.history.runs = u.history.runs)
    (hends : t.history.ends = u.history.ends)
    (hburied : t.history.countedKilled = u.history.countedKilled) {j : Job} (hjob : t.job = (u.setJob q j).job)
    (htask : j.task = (u.job q).task) (hactors : j.executionActors = (u.job q).executionActors)
    (halloc : j.allocation = (u.job q).allocation) {started counted : List JobPtr}
    (hstarted : t.history.started = u.history.started ++ started)
    (hcounted : t.history.counted = u.history.counted ++ counted) (p : JobPtr) :
    t.view p = { u.view p with
      state := if p = q then j.state else (u.job p).state
      started := (u.view p).started + started.count p
      counted := (u.view p).counted + counted.count p } := by
  by_cases hq : p = q
  · subst hq
    simp [Sim.view, hworkloads, hpool, hmachines, hburied, hruns, hends, hjob, setJob, htask, hactors,
      halloc, hstarted, hcounted]
  · simp [Sim.view, hworkloads, hpool, hmachines, hburied, hruns, hends, hjob, setJob, hstarted,
      hcounted, hq]

theorem reject_lives (h : l.Shows p (u.view p)) {id : JobIdentifier}
    (hstate : (u.job q).state = .submitted)
    (ht : t = ((u.setJob q { u.job q with state := .rejected }).countCompleted q).pushDeleted id) :
    ∃ l', l.Leads l' ∧ l'.Shows p (t.view p) := by
  have hview : t.view p = { u.view p with
      state := if p = q then .rejected else (u.job p).state
      started := (u.view p).started + ([] : List JobPtr).count p
      counted := (u.view p).counted + [q].count p } := by
    subst ht
    apply view_counted (u := u) (j := { u.job q with state := .rejected }) <;>
      first | rfl | exact (List.append_nil _).symm
  rw [hview]
  by_cases hq : p = q
  · subst hq
    obtain rfl := h.of_submitted hstate
    refine ⟨.rejected, .single .reject, ?_⟩
    exact ⟨iff_of_true (h.met.mpr (by simp)) (by simp), by simp [Life.state], h.hands,
      by simp [Life.machines?], h.trace, by simp [h.started, Life.started],
      by simp [h.counted, Life.counted], h.buried, h.runs, h.ends, h.uses⟩
  · refine ⟨l, .refl, ?_⟩
    have hcount : ([q] : List JobPtr).count p = 0 := by simp [Ne.symm hq]
    rw [if_neg hq, hcount]
    exact h

theorem force_lives (h : l.Shows p (u.view p)) (hstate : (u.job q).state = .submitted)
    (ht : t = (u.setJob q { u.job q with
      startingTime := u.clock, state := .running }).countRunning q) :
    ∃ l', l.Leads l' ∧ l'.Shows p (t.view p) := by
  have hview : t.view p = { u.view p with
      state := if p = q then .running else (u.job p).state
      started := (u.view p).started + [q].count p
      counted := (u.view p).counted + ([] : List JobPtr).count p } := by
    subst ht
    apply view_counted (u := u) (j := { u.job q with startingTime := u.clock, state := .running }) <;>
      first | rfl | exact (List.append_nil _).symm
  rw [hview]
  by_cases hq : p = q
  · subst hq
    obtain rfl := h.of_submitted hstate
    refine ⟨.forced, .single .force, ?_⟩
    exact ⟨iff_of_true (h.met.mpr (by simp)) (by simp), by simp [Life.state], h.hands,
      by simp [Life.machines?], h.trace, by simp [h.started, Life.started],
      by simp [h.counted, Life.counted], h.buried, h.runs, h.ends, h.uses⟩
  · refine ⟨l, .refl, ?_⟩
    have hcount : ([q] : List JobPtr).count p = 0 := by simp [Ne.symm hq]
    rw [if_neg hq, hcount]
    exact h

/-- The end of a job is counted, and nothing else of it changes. -/
theorem view_completeJob (u : Sim) (q p : JobPtr) :
    (u.completeJob q).view p =
      { u.view p with counted := (u.view p).counted + [q].count p } := by
  simp [Sim.view, completeJob, endRunning, countCompleted, logged, pushDeleted]

/-- A killed job is counted, once. -/
theorem countKilledJob_lives (h : l.Shows p (u.view p)) {id : JobIdentifier}
    (howned : u.workloads.Owned) (hnew : p = ptr id → p ∉ u.history.countedKilled)
    (hstep : countKilledJob u id = .ok t) : ∃ l', l.Leads l' ∧ l'.Shows p (t.view p) := by
  obtain ⟨q, hq, ⟨-, rfl⟩ | ⟨hstate, -, rfl⟩⟩ := countKilledJob_effect hstep
  · exact ⟨l, .refl, h⟩
  · obtain rfl := howned.jobAt_ptr hq
    have hview : ((u.noteCountedKilled (ptr id)).completeJob (ptr id)).view p =
        { u.view p with
          counted := (u.view p).counted + [ptr id].count p
          buried := (u.view p).buried + [ptr id].count p } := by
      rw [view_completeJob]
      simp [Sim.view, noteCountedKilled]
    rw [hview]
    by_cases hp : p = ptr id
    · subst hp
      obtain rfl | rfl := h.of_killed hstate
      · refine ⟨.settled none, .single .bury, ?_⟩
        exact ⟨by simpa using h.met, h.state, by simp [Life.hands], by simp [Life.machines?],
          h.trace, h.started, by simp [h.counted, Life.counted],
          by simp [h.buried, Life.buried], h.runs, h.ends, h.uses⟩
      · have hcount : u.history.countedKilled.count (ptr id) = 1 := h.buried
        exact absurd (List.count_pos_iff.mp (by omega)) (hnew rfl)
    · refine ⟨l, .refl, ?_⟩
      have hcount : ([ptr id] : List JobPtr).count p = 0 := by simp [Ne.symm hp]
      rw [hcount]
      exact h

theorem countKilledJobs_lives (h : l.Shows p (u.view p)) {ids : List JobIdentifier}
    (howned : u.workloads.Owned) (hnodup : ids.Nodup)
    (hnew : ∀ id ∈ ids, p = ptr id → p ∉ u.history.countedKilled)
    (hloop : forEach countKilledJob u ids = .ok t) : ∃ l', l.Leads l' ∧ l'.Shows p (t.view p) := by
  let I : List JobIdentifier → Sim → Prop := fun done v =>
    v.workloads = u.workloads ∧ (∃ l', l.Leads l' ∧ l'.Shows p (v.view p)) ∧
      (p ∈ v.history.countedKilled → p ∈ u.history.countedKilled ∨ ∃ id ∈ done, p = ptr id)
  suffices hall : I ids t from hall.2.1
  refine forEach_invariant I ⟨rfl, ⟨l, .refl, h⟩, .inl⟩ ?_ hloop
  intro done id rest v v' hsplit ⟨hworkloads, ⟨l', hleads, hshows⟩, hcounted⟩ hstep
  have hlate : p = ptr id → p ∉ v.history.countedKilled := by
    intro hp hin
    cases hcounted hin with
    | inl hold => exact hnew id (by simp [hsplit]) hp hold
    | inr hdone =>
      -- it would be in the list twice
      obtain ⟨id', hid', hp'⟩ := hdone
      have heq : id' = id := congrArg JobPtr.id (hp'.symm.trans hp)
      rw [hsplit] at hnodup
      exact (List.nodup_append.mp hnodup).2.2 id' hid' id (by simp) heq
  obtain ⟨l'', hleads', hshows'⟩ := countKilledJob_lives hshows (hworkloads ▸ howned) hlate hstep
  refine ⟨?_, ⟨l'', hleads.trans hleads', hshows'⟩, fun hin => ?_⟩
  · obtain ⟨q, -, ⟨-, rfl⟩ | ⟨-, -, rfl⟩⟩ := countKilledJob_effect hstep
    · exact hworkloads
    · exact hworkloads
  · cases countKilledJob_buries (hworkloads ▸ howned) hstep hin with
    | inl hold => exact (hcounted hold).imp_right fun ⟨id', hid', hp⟩ => ⟨id', by simp [hid'], hp⟩
    | inr hp => exact .inr ⟨id, by simp, hp⟩

theorem submitJobs_lives {submitter : Submitter} {jobs : List JobPtr} (h : l.Shows p (u.view p))
    (hmet : ∀ q ∈ jobs, u.workloads.Met q) (hloop : forEach (submitJob cfg submitter) u jobs = .ok t)
    (hp : p ∉ t.history.resubmitted) : ∃ l', l.Leads l' ∧ l'.Shows p (t.view p) := by
  let I : List JobPtr → Sim → Prop := fun _ v =>
    v.workloads = u.workloads ∧
      (p ∈ v.history.resubmitted ∨ ∃ l', l.Leads l' ∧ l'.Shows p (v.view p))
  suffices hall : I jobs t from hall.2.resolve_left hp
  refine forEach_invariant I ⟨rfl, .inr ⟨l, .refl, h⟩⟩ ?_ hloop
  intro done q rest v v' hsplit ⟨hworkloads, hlives⟩ hstep
  have hq : v.workloads.Met q := hworkloads ▸ hmet q (by simp [hsplit])
  obtain ⟨-, job, profile, hv'⟩ := submitJob_effect hstep
  obtain ⟨hsame, -, -, -, -, -, -, -, hresubmitted⟩ := submit_leaves v submitter q
  have hmore : v'.history.resubmitted = v.history.resubmitted ++
      if (v.job q).state = .notSubmitted then [] else [q] := by
    rw [hv']
    exact hresubmitted
  refine ⟨?_, ?_⟩
  · rw [hv']
    exact hsame.trans hworkloads
  · by_cases hlate : p ∈ v'.history.resubmitted
    · exact .inl hlate
    · cases hlives with
      | inl hold => exact absurd (hmore ▸ List.mem_append_left _ hold) hlate
      | inr hold =>
        obtain ⟨l', hleads, hshows⟩ := hold
        obtain ⟨l'', hleads', hshows'⟩ := submitJob_lives hshows hq hstep hlate
        exact .inr ⟨l'', hleads.trans hleads', hshows'⟩

/-- A request to kill jobs changes nothing of their lives. -/
theorem view_killJobs {ids : List JobIdentifier} (howned : u.workloads.Owned)
    (h : serverOnKillJobs u ids = .ok t) (p : JobPtr) : t.view p = u.view p := by
  obtain ⟨v, toKill, hloop, rfl⟩ := serverOnKillJobs_effect h
  obtain ⟨-, rfl⟩ := requestKills_effect howned hloop
  have hpool : (((u.requestKills toKill).noteKillRequest ids toKill).launchKiller toKill).pool =
      { u.pool with
        fresh := u.pool.fresh ++ if toKill = [] then [] else [.killer toKill true]
        blocked := u.pool.blocked ++ [] } := by
    unfold launchKiller
    split <;> simp [noteKillRequest, requestKills, Pool.spawn]
  have htrace := traceOf_of_pool (p := p) hpool
  have hnone : ((if toKill = [] then [] else [.killer toKill true] : List Thread) ++ []).filterMap
      (Thread.trace? p) = [] := by
    split <;> rfl
  rw [hnone, Multiset.coe_nil, zero_add] at htrace
  have hjob : (((u.requestKills toKill).noteKillRequest ids toKill).launchKiller toKill).job p =
      if p ∈ toKill.map ptr then { u.job p with killRequested := true } else u.job p := by
    unfold launchKiller
    split <;> rfl
  apply view_eq <;> first
    | exact htrace
    | (rw [hjob]; split <;> rfl)
    | (unfold launchKiller; split <;> first | rfl | exact Iff.rfl | exact fun _ => rfl)

/-- The handling of a message, but for the end of the job itself. -/
theorem handle_lives {m : IPMessage} (h : l.Shows p (u.view p)) (howned : u.workloads.Owned)
    (hsubmits : ∀ q ∈ m.submits, u.workloads.Met q)
    (hkills : ∀ ids, m.kills? = some ids →
      ids.Nodup ∧ ∀ id ∈ ids, ptr id ∉ u.history.countedKilled)
    (hm : m ≠ .jobCompleted p) (ht : handleMessage cfg u m = .ok t)
    (hp : p ∉ t.history.resubmitted) : ∃ l', l.Leads l' ∧ l'.Shows p (t.view p) := by
  have hsame : t.view p = u.view p → ∃ l', l.Leads l' ∧ l'.Shows p (t.view p) :=
    fun hview => ⟨l, .refl, hview ▸ h⟩
  cases hjobs : m.touchesJobs with
  | false =>
    obtain ⟨ts, hhandled⟩ := handleMessage_effect ht
    have hj := hhandled.jobs hjobs
    have hback : callsBack u m = false := by
      cases m <;> first | rfl | cases hjobs
    have htrace := (onActors_trace p).handleMessage (by rintro a rfl; cases hjobs) hback ht
    refine hsame (view_eq (by rw [hhandled.keeps.workloads]) (hj.state p) (hj.task p)
      (hj.executionActors p) (hj.allocation p) htrace (by rw [hj.started]) (by rw [hj.counted])
      (by rw [hj.countedKilled]) (by rw [hhandled.keeps.runs]) (by rw [hhandled.keeps.ends])
      fun id => by rw [users_handleMessage ht])
  | true =>
    cases m with
    | jobSubmitted name jobs =>
      obtain rfl | ⟨submitter, -, hloop⟩ := serverOnJobSubmitted_effect ht
      · exact ⟨l, .refl, h⟩
      · exact submitJobs_lives h hsubmits hloop hp
    | jobRegisteredByDP q =>
      obtain rfl | ⟨job, profile, rfl⟩ := serverOnRegisterJob_effect ht
      · exact ⟨l, .refl, h⟩
      · exact ⟨l, .refl, h⟩
    | jobCompleted q =>
      have hq : ¬ q = p := fun heq => hm (heq ▸ rfl)
      obtain ⟨submitter, -, rfl⟩ | ⟨-, hcount⟩ := serverOnJobCompleted_effect ht
      · refine hsame (view_eq Iff.rfl rfl rfl rfl rfl ?_ rfl rfl rfl rfl rfl fun _ => rfl)
        simp [traceOf, Pool.labels_block, Thread.trace?, hq]
      · obtain ⟨-, -, rfl⟩ := countJobCompletion_effect hcount
        refine hsame ?_
        have hcount : ([q] : List JobPtr).count p = 0 := by simp [hq]
        rw [view_completeJob, hcount]
        rfl
    | schedExecuteJob a =>
      obtain ⟨hstate, -, -, rfl⟩ := serverOnExecuteJob_effect ht
      exact launch_lives h hstate
    | schedChangeJobState id state =>
      obtain ⟨q, -, hstate, -, -, rfl⟩ := serverOnChangeJobState_effect ht
      exact force_lives h hstate rfl
    | schedRejectJob id =>
      obtain ⟨q, -, hstate, rfl⟩ := serverOnRejectJob_effect ht
      exact reject_lives h hstate rfl
    | schedKillJob ids => exact hsame (view_killJobs howned ht p)
    | killingDone ids acknowledge =>
      obtain ⟨v, hloop, rfl⟩ := serverOnKillingDone_effect ht
      obtain ⟨hnodup, hnew⟩ := hkills ids rfl
      obtain ⟨l', hleads, hshows⟩ := countKilledJobs_lives h howned hnodup
        (fun id hid heq => heq ▸ hnew id hid) hloop
      refine ⟨l', hleads, ?_⟩
      cases acknowledge with
      | true => exact hshows
      | false => exact hshows
    | _ => cases hjobs

/-- The end of a turn shows nothing of a job. -/
theorem view_endOfTurn (howned : u.workloads.Owned) (h : endOfTurn cfg u = .ok t) (p : JobPtr) :
    t.view p = u.view p := by
  have hjob := (endOfTurn_hands h).1
  have hhistory : t.history.started = u.history.started ∧ t.history.counted = u.history.counted ∧
      t.history.countedKilled = u.history.countedKilled ∧ t.history.runs = u.history.runs ∧
      t.history.ends = u.history.ends := by
    obtain rfl | ⟨workloads, hflush⟩ | hfinish := endOfTurn_cases h
    · exact ⟨rfl, rfl, rfl, rfl, rfl⟩
    · rw [hflush.eq]
      exact ⟨rfl, rfl, rfl, rfl, rfl⟩
    · rw [hfinish.eq]
      exact ⟨rfl, rfl, rfl, rfl, rfl⟩
  obtain ⟨hstarted, hcounted, hburied, hruns, hends⟩ := hhistory
  exact view_eq (endOfTurn_met h howned p) (by rw [hjob]) (by rw [hjob]) (by rw [hjob])
    (by rw [hjob]) ((onActors_trace p).endOfTurn h) (by rw [hstarted]) (by rw [hcounted])
    (by rw [hburied]) (by rw [hruns]) (by rw [hends]) fun id => by rw [endOfTurn_machines h]

/-- The server hears of the end of the job: its submitter is called back, or it is counted. -/
theorem ended_lives {s : Sim} {pool : Pool IPMessage Thread} (h : l.Shows p (s.view p))
    (hnext : s.pool.next? = some (.deliver (.jobCompleted p), pool))
    (ht : handleMessage cfg { s with pool := pool } (.jobCompleted p) = .ok t) :
    ∃ l', l.Leads l' ∧ l'.Shows p (t.view p) := by
  have hmessage : (IPMessage.jobCompleted p).trace? p = some .ended := if_pos rfl
  have htaken := traceOf_deliver (p := p) hnext
  rw [hmessage, Option.toList_some] at htaken
  obtain ⟨htrace, hzero⟩ := h.taken htaken
  cases l with
  | ended o =>
    obtain ⟨submitter, -, rfl⟩ | ⟨-, hcount⟩ := serverOnJobCompleted_effect ht
    · refine ⟨.calling submitter.mailbox o, .single (.callBack _ o), ?_⟩
      refine ⟨iff_of_true (h.met.mpr (by simp)) (by simp), h.state, by simp [Life.hands],
        by simp [Life.machines?], ?_, h.started, h.counted, h.buried, h.runs, h.ends, h.uses⟩
      have hpool : traceOf p (pool.block (.serverCallback p submitter.mailbox)) =
          {.thread (.serverCallback p submitter.mailbox)} := by
        rw [traceOf, Pool.labels_block, show pool.labels (Thread.trace? p) (IPMessage.trace? p) = 0
          from hzero]
        simp [Thread.trace?]
      exact hpool
    · obtain ⟨-, -, rfl⟩ := countJobCompletion_effect hcount
      refine ⟨.settled (some o), .single (.count o), ?_⟩
      rw [view_completeJob]
      exact ⟨iff_of_true (h.met.mpr (by simp)) (by simp), h.state, by simp [Life.hands],
        by simp [Life.machines?], hzero, h.started,
        by simp [Life.counted, show s.history.counted.count p = 0 from h.counted, Sim.view],
        h.buried, h.runs, h.ends, h.uses⟩
  | _ => simp [Life.trace] at htrace

/-- The submitter has taken the callback about the job. -/
theorem called_lives {s : Sim} {pool : Pool IPMessage Thread} {q : JobPtr} {mailbox : String}
    (h : l.Shows p (s.view p))
    (hnext : s.pool.next? = some (.resume (.serverCallback q mailbox), pool))
    (ht : serverOnCallbackReceived { s with pool := pool } q = .ok t) :
    ∃ l', l.Leads l' ∧ l'.Shows p (t.view p) := by
  obtain ⟨-, -, rfl⟩ := serverOnCallbackReceived_effect ht
  rw [view_completeJob]
  have hview : (({ s with pool := pool } : Sim).untrack q).view p =
      { s.view p with trace := traceOf p pool } := rfl
  rw [hview]
  by_cases hq : q = p
  · subst hq
    have hthread : (Thread.serverCallback q mailbox).trace? q =
        some (.thread (.serverCallback q mailbox)) := if_pos rfl
    have htaken := traceOf_resume (p := q) hnext
    rw [hthread, Option.toList_some] at htaken
    obtain ⟨htrace, hzero⟩ := h.taken htaken
    cases l with
    | calling mailbox' o =>
      refine ⟨.settled (some o), .single (.answer mailbox' o), ?_⟩
      exact ⟨iff_of_true (h.met.mpr (by simp)) (by simp), h.state, by simp [Life.hands],
        by simp [Life.machines?], hzero, h.started,
        by simp [Life.counted, show s.history.counted.count q = 0 from h.counted, Sim.view],
        h.buried, h.runs, h.ends, h.uses⟩
    | _ => simp [Life.trace] at htrace
  · have hthread : (Thread.serverCallback q mailbox).trace? p = none := if_neg hq
    have htrace := traceOf_resume (p := p) hnext
    rw [hthread, Option.toList_none, Multiset.coe_nil, zero_add] at htrace
    have hcount : ([q] : List JobPtr).count p = 0 := by simp [hq]
    rw [hcount, ← htrace]
    exact ⟨l, .refl, h⟩

end server

end Batsim
