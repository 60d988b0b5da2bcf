import Mathlib.Tactic.Linarith
import Mathlib.Tactic.FieldSimp
import Batsim.ForcedStates

/-!
The metrics of the schedule: what `JobsTracer::finalize` makes of the counters that `write_job`
kept, and when it is what the metrics say of the finished jobs.
-/

namespace Batsim

open Checked

namespace JobsTracer

/-- `write_job`, as far as the counters go -/
def writeJob (t : JobsTracer) (p : JobPtr) (j : Job) : Except String JobsTracer := do
  let t := { t with nbJobs := t.nbJobs + 1 }
  xbtAssert (j.isComplete = true) ("Job " ++ p.id.jobName ++ " did not complete")
  .ok { t.countComplete j with rows := t.rows ++ [jobRow p j] }

/-- It is what the handlers of the server do with their tracer. -/
theorem handler_writeJob {x : Traced} {p : JobPtr} (h : (x.sim.job p).isComplete = true) :
    ∃ t, x.tracer.writeJob p (x.sim.job p) = .ok t ∧
      Handler.writeJob p x = .ok () { x with tracer := t } := by
  refine ⟨_, ?_, Handler.writeJob_complete h⟩
  rw [writeJob, xbtAssert_of h]
  rfl

end JobsTracer

/-- A quotient of numbers, when it is a number. -/
def quotient (x y : ℚ) : Option ℚ := if y = 0 then none else some (x / y)

/-- What `finalize` makes of the counters, before it turns numbers into texts. -/
structure ScheduleMetrics where
  nbJobs : Nat
  nbJobsFinished : Nat
  nbJobsSuccess : Nat
  nbJobsKilled : Nat
  nbJobsRejected : Nat
  successRate : Option ℚ
  makespan : ℚ
  meanWaitingTime : Option ℚ
  meanTurnaroundTime : Option ℚ
  meanSlowdown : Option ℚ
  maxWaitingTime : ℚ
  maxTurnaroundTime : ℚ
  maxSlowdown : ℚ
  meanTimeRunning : Option ℚ
  maxTimeRunning : ℚ

/-- `finalize`, as far as the jobs go. -/
def JobsTracer.finalize (t : JobsTracer) (nbMachines : Nat) : ScheduleMetrics :=
  let timesRunning := (List.range nbMachines).map t.machinesUtilization
  { nbJobs := t.nbJobs
    nbJobsFinished := t.nbJobsFinished
    nbJobsSuccess := t.nbJobsSuccess
    nbJobsKilled := t.nbJobsKilled
    nbJobsRejected := t.nbJobsRejected
    successRate := quotient t.nbJobsSuccess t.nbJobs
    makespan := t.makespan
    meanWaitingTime := quotient t.sumWaitingTime t.nbJobs
    meanTurnaroundTime := quotient t.sumTurnaroundTime t.nbJobs
    meanSlowdown := quotient t.sumSlowdown t.nbJobs
    maxWaitingTime := t.maxWaitingTime
    maxTurnaroundTime := t.maxTurnaroundTime
    maxSlowdown := t.maxSlowdown
    meanTimeRunning := quotient timesRunning.sum nbMachines
    maxTimeRunning := timesRunning.foldl max 0 }

/-! ### What the metrics say -/

/-- A complete job; one that ran lasted. -/
structure CompleteJob where
  ptr : JobPtr
  job : Job
  complete : job.isComplete = true
  lasts : job.state ≠ .rejected → 0 < job.runtime

namespace CompleteJob

variable (c : CompleteJob)

abbrev Finished : Prop := c.job.state ≠ .rejected

def waitingTime : ℚ := c.job.startingTime - c.job.submissionTime

def completionTime : ℚ := c.job.startingTime + c.job.runtime

def turnaroundTime : ℚ := c.completionTime - c.job.submissionTime

def slowdown : ℚ := c.turnaroundTime / c.job.runtime

end CompleteJob

def finished (jobs : List CompleteJob) : List CompleteJob := jobs.filter fun c => c.Finished

/-- The maximum of some numbers, if there are any. -/
def Maximum (xs : List ℚ) (maximum : ℚ) : Prop :=
  xs ≠ [] → maximum ∈ xs ∧ ∀ x ∈ xs, x ≤ maximum

/-- The mean is a number: the average of some numbers, if there are any, which is at most their
maximum. -/
def Average (xs : List ℚ) (mean : Option ℚ) (maximum : ℚ) : Prop :=
  ∃ m, mean = some m ∧ (xs ≠ [] → m * xs.length = xs.sum ∧ m ≤ maximum)

/-- The metrics are those of the finished jobs. -/
structure Summarizes (jobs : List CompleteJob) (m : ScheduleMetrics) : Prop where
  nbJobs : m.nbJobs = jobs.length ∧ m.nbJobs = m.nbJobsFinished + m.nbJobsRejected
  nbJobsFinished : m.nbJobsFinished = (finished jobs).length ∧
    m.nbJobsFinished = m.nbJobsSuccess + m.nbJobsKilled
  successRate : m.successRate.isSome = true
  makespan : Maximum ((finished jobs).map CompleteJob.completionTime) m.makespan
  maxWaitingTime : Maximum ((finished jobs).map CompleteJob.waitingTime) m.maxWaitingTime
  maxTurnaroundTime : Maximum ((finished jobs).map CompleteJob.turnaroundTime) m.maxTurnaroundTime
  maxSlowdown : Maximum ((finished jobs).map CompleteJob.slowdown) m.maxSlowdown
  meanWaitingTime : Average ((finished jobs).map CompleteJob.waitingTime) m.meanWaitingTime
    m.maxWaitingTime
  meanTurnaroundTime : Average ((finished jobs).map CompleteJob.turnaroundTime)
    m.meanTurnaroundTime m.maxTurnaroundTime
  meanSlowdown : Average ((finished jobs).map CompleteJob.slowdown) m.meanSlowdown m.maxSlowdown

/-! ### The counters after some jobs -/

def writeJobs (t : JobsTracer) (jobs : List CompleteJob) : Except String JobsTracer :=
  forEach (fun t c => t.writeJob c.ptr c.job) t jobs

/-- The counters of `t'` are those of `t` with the jobs added. -/
structure Counted (t : JobsTracer) (jobs : List CompleteJob) (t' : JobsTracer) : Prop where
  nbJobs : t'.nbJobs = t.nbJobs + jobs.length
  nbJobsRejected : t'.nbJobsRejected = t.nbJobsRejected + (jobs.length - (finished jobs).length)
  nbJobsFinished : t'.nbJobsFinished = t.nbJobsFinished + (finished jobs).length
  ended : t'.nbJobsSuccess + t'.nbJobsKilled =
    t.nbJobsSuccess + t.nbJobsKilled + (finished jobs).length
  sumWaitingTime : t'.sumWaitingTime =
    t.sumWaitingTime + ((finished jobs).map CompleteJob.waitingTime).sum
  sumTurnaroundTime : t'.sumTurnaroundTime =
    t.sumTurnaroundTime + ((finished jobs).map CompleteJob.turnaroundTime).sum
  sumSlowdown : t'.sumSlowdown = t.sumSlowdown + ((finished jobs).map CompleteJob.slowdown).sum
  makespan : t'.makespan = ((finished jobs).map CompleteJob.completionTime).foldl max t.makespan
  maxWaitingTime : t'.maxWaitingTime =
    ((finished jobs).map CompleteJob.waitingTime).foldl max t.maxWaitingTime
  maxTurnaroundTime : t'.maxTurnaroundTime =
    ((finished jobs).map CompleteJob.turnaroundTime).foldl max t.maxTurnaroundTime
  maxSlowdown : t'.maxSlowdown =
    ((finished jobs).map CompleteJob.slowdown).foldl max t.maxSlowdown

theorem writeJob_succeeds (t : JobsTracer) (c : CompleteJob) :
    t.writeJob c.ptr c.job = .ok { ({ t with nbJobs := t.nbJobs + 1 } : JobsTracer).countComplete
      c.job with rows := t.rows ++ [jobRow c.ptr c.job] } := by
  rw [JobsTracer.writeJob, xbtAssert_of c.complete]
  rfl

theorem length_finished_le (jobs : List CompleteJob) : (finished jobs).length ≤ jobs.length :=
  List.length_filter_le _ _

theorem writeJobs_counted (t : JobsTracer) (jobs : List CompleteJob) :
    ∃ t', writeJobs t jobs = .ok t' ∧ Counted t jobs t' := by
  induction jobs generalizing t with
  | nil =>
    refine ⟨t, rfl, ?_⟩
    constructor <;> simp [finished]
  | cons c jobs ih =>
    obtain ⟨t', ht', h⟩ := ih { ({ t with nbJobs := t.nbJobs + 1 } : JobsTracer).countComplete
      c.job with rows := t.rows ++ [jobRow c.ptr c.job] }
    have hle := length_finished_le jobs
    refine ⟨t', ?_, ?_⟩
    · rw [writeJobs, forEach_cons, writeJob_succeeds]
      exact ht'
    · by_cases hc : c.Finished
      · have hfinished : finished (c :: jobs) = c :: finished jobs :=
          List.filter_cons_of_pos (decide_eq_true hc)
        have hcount : ∀ t : JobsTracer, t.countComplete c.job = t.countFinished c.job :=
          fun _ => if_neg hc
        rw [hcount] at h
        have hsuccess : (if c.job.state = .completedSuccessfully then 1 else 0) +
            (if c.job.state = .completedSuccessfully then 0 else 1) = 1 := by
          split <;> rfl
        have hended := h.ended
        simp only [JobsTracer.countFinished] at hended
        constructor
        · rw [h.nbJobs, List.length_cons]
          exact Nat.add_right_comm t.nbJobs 1 jobs.length
        · rw [h.nbJobsRejected, hfinished, List.length_cons, List.length_cons,
            Nat.add_sub_add_right]
          rfl
        · rw [h.nbJobsFinished, hfinished, List.length_cons]
          exact Nat.add_right_comm t.nbJobsFinished 1 (finished jobs).length
        · rw [hfinished, List.length_cons]
          omega
        · rw [h.sumWaitingTime, hfinished, List.map_cons, List.sum_cons, ← add_assoc]
          rfl
        · rw [h.sumTurnaroundTime, hfinished, List.map_cons, List.sum_cons, ← add_assoc]
          rfl
        · rw [h.sumSlowdown, hfinished, List.map_cons, List.sum_cons, ← add_assoc]
          rfl
        · rw [h.makespan, hfinished]
          rfl
        · rw [h.maxWaitingTime, hfinished]
          rfl
        · rw [h.maxTurnaroundTime, hfinished]
          rfl
        · rw [h.maxSlowdown, hfinished]
          rfl
      · have hrejected : c.job.state = .rejected := not_not.mp hc
        have hfinished : finished (c :: jobs) = finished jobs :=
          List.filter_cons_of_neg (by simp [hc])
        have hcount : ∀ t : JobsTracer, t.countComplete c.job =
            { t with nbJobsRejected := t.nbJobsRejected + 1 } := fun _ => if_pos hrejected
        rw [hcount] at h
        obtain ⟨hjobs, hnbRejected, hnbFinished, hended, hw, ht, hs, hm, hmw, hmt, hms⟩ := h
        rw [← hfinished] at hnbRejected hnbFinished hended hw ht hs hm hmw hmt hms
        refine ⟨?_, ?_, hnbFinished, hended, hw, ht, hs, hm, hmw, hmt, hms⟩
        · rw [hjobs, List.length_cons]
          exact Nat.add_right_comm t.nbJobs 1 jobs.length
        · rw [← hfinished] at hle
          dsimp only at hnbRejected
          rw [hnbRejected, List.length_cons]
          omega

/-! ### Maxima and averages -/

theorem foldl_max_mem (xs : List ℚ) (least : ℚ) :
    xs.foldl max least = least ∨ xs.foldl max least ∈ xs := by
  have hmem : xs.foldl max least ∈ least :: xs := List.max?_mem List.max?_cons'
  exact List.mem_cons.mp hmem

theorem le_foldl_max {xs : List ℚ} {least x : ℚ} (h : x ∈ least :: xs) :
    x ≤ xs.foldl max least :=
  (List.max?_le_iff List.max?_cons').mp le_rfl x h

/-- A maximum that starts from zero is one of the numbers when one of them is at least zero. -/
theorem maximum_foldl_iff {xs : List ℚ} :
    Maximum xs (xs.foldl max 0) ↔ xs = [] ∨ ∃ x ∈ xs, 0 ≤ x := by
  constructor
  · intro h
    by_cases hne : xs = []
    · exact .inl hne
    · exact .inr ⟨_, (h hne).1, le_foldl_max List.mem_cons_self⟩
  · intro h hne
    obtain ⟨x, hx, hpos⟩ := h.resolve_left hne
    refine ⟨?_, fun y hy => le_foldl_max (List.mem_cons_of_mem 0 hy)⟩
    rcases foldl_max_mem xs 0 with h0 | hmem
    · -- zero is then one of the numbers
      have hle := le_foldl_max (List.mem_cons_of_mem 0 hx)
      rw [h0] at hle ⊢
      rwa [le_antisymm hpos hle]
    · exact hmem

theorem sum_le_of_le {xs : List ℚ} {m : ℚ} (h : ∀ x ∈ xs, x ≤ m) : xs.sum ≤ m * xs.length := by
  induction xs with
  | nil => simp
  | cons x xs ih =>
    have hx := h x List.mem_cons_self
    have hxs := ih fun y hy => h y (List.mem_cons_of_mem x hy)
    rw [List.sum_cons, List.length_cons, Nat.cast_add, Nat.cast_one]
    linarith

/-- A mean over `n` of the sum of some numbers is their average when `n` is how many there are, or
when their sum is zero. -/
theorem average_quotient_iff {xs : List ℚ} {n : Nat} {maximum : ℚ} (hn : 0 < n)
    (hmax : Maximum xs maximum) :
    Average xs (quotient xs.sum n) maximum ↔ xs = [] ∨ xs.sum = 0 ∨ n = xs.length := by
  have hn' : (n : ℚ) ≠ 0 := Nat.cast_ne_zero.mpr hn.ne'
  have hquotient : quotient xs.sum n = some (xs.sum / n) := if_neg hn'
  constructor
  · intro ⟨m, hm, h⟩
    by_cases hne : xs = []
    · exact .inl hne
    · have hmean := (h hne).1
      rw [hquotient, Option.some.injEq] at hm
      rw [← hm, div_mul_eq_mul_div, div_eq_iff hn'] at hmean
      have hcases : xs.sum = 0 ∨ (xs.length : ℚ) = n := by
        by_cases hsum : xs.sum = 0
        · exact .inl hsum
        · exact .inr (mul_left_cancel₀ hsum hmean)
      rcases hcases with hsum | hlength
      · exact .inr (.inl hsum)
      · exact .inr (.inr (Nat.cast_injective hlength.symm))
  · intro h
    refine ⟨_, hquotient, fun hne => ?_⟩
    have hle := sum_le_of_le (hmax hne).2
    have hlength : (0 : ℚ) < xs.length := Nat.cast_pos.mpr (List.length_pos_iff.mpr hne)
    rcases h.resolve_left hne with hsum | hlen
    · rw [hsum] at hle ⊢
      rw [zero_div, zero_mul]
      exact ⟨rfl, nonneg_of_mul_nonneg_left hle hlength⟩
    · rw [hlen]
      exact ⟨div_mul_cancel₀ _ hlength.ne', (div_le_iff₀ hlength).mpr hle⟩

/-! ### When the metrics are those of the finished jobs -/

/-- No job finished; or every job did, one of them started no sooner than it was submitted, and one
ended at a date that is not negative. -/
def Comparable (jobs : List CompleteJob) : Prop :=
  (∀ c ∈ jobs, ¬ c.Finished) ∨
    (∀ c ∈ jobs, c.Finished) ∧ (∃ c ∈ jobs, c.job.submissionTime ≤ c.job.startingTime) ∧
      ∃ c ∈ jobs, 0 ≤ c.completionTime

theorem finished_eq_nil_iff {jobs : List CompleteJob} :
    finished jobs = [] ↔ ∀ c ∈ jobs, ¬ c.Finished := by
  simp [finished]

theorem finished_eq_self_iff {jobs : List CompleteJob} :
    (finished jobs).length = jobs.length ↔ ∀ c ∈ jobs, c.Finished := by
  simp [finished]

theorem sum_turnaroundTime (jobs : List CompleteJob) :
    (jobs.map CompleteJob.turnaroundTime).sum =
      (jobs.map CompleteJob.waitingTime).sum + (jobs.map fun c => c.job.runtime).sum := by
  induction jobs with
  | nil => simp
  | cons c jobs ih =>
    simp only [List.map_cons, List.sum_cons, ih, CompleteJob.turnaroundTime,
      CompleteJob.completionTime, CompleteJob.waitingTime]
    linarith

theorem sum_runtime_pos {jobs : List CompleteJob} (hne : jobs ≠ [])
    (h : ∀ c ∈ jobs, c.Finished) : 0 < (jobs.map fun c => c.job.runtime).sum := by
  induction jobs with
  | nil => exact absurd rfl hne
  | cons c jobs ih =>
    have hc := c.lasts (h c List.mem_cons_self)
    rw [List.map_cons, List.sum_cons]
    by_cases hjobs : jobs = []
    · simpa [hjobs] using hc
    · have hrest := ih hjobs fun d hd => h d (List.mem_cons_of_mem c hd)
      linarith

/-- The metrics in terms of the finished jobs. -/
structure Computed (jobs : List CompleteJob) (m : ScheduleMetrics) : Prop where
  nbJobs : m.nbJobs = jobs.length ∧ m.nbJobs = m.nbJobsFinished + m.nbJobsRejected
  nbJobsFinished : m.nbJobsFinished = (finished jobs).length ∧
    m.nbJobsFinished = m.nbJobsSuccess + m.nbJobsKilled
  successRate : m.successRate.isSome = true
  makespan : m.makespan = ((finished jobs).map CompleteJob.completionTime).foldl max 0
  maxWaitingTime : m.maxWaitingTime = ((finished jobs).map CompleteJob.waitingTime).foldl max 0
  maxTurnaroundTime : m.maxTurnaroundTime =
    ((finished jobs).map CompleteJob.turnaroundTime).foldl max 0
  maxSlowdown : m.maxSlowdown = ((finished jobs).map CompleteJob.slowdown).foldl max 0
  meanWaitingTime : m.meanWaitingTime =
    quotient ((finished jobs).map CompleteJob.waitingTime).sum jobs.length
  meanTurnaroundTime : m.meanTurnaroundTime =
    quotient ((finished jobs).map CompleteJob.turnaroundTime).sum jobs.length
  meanSlowdown : m.meanSlowdown =
    quotient ((finished jobs).map CompleteJob.slowdown).sum jobs.length

theorem finalize_computed {jobs : List CompleteJob} {t : JobsTracer} (hne : jobs ≠ [])
    (h : Counted {} jobs t) (nbMachines : Nat) : Computed jobs (t.finalize nbMachines) := by
  have hjobs : t.nbJobs = jobs.length := h.nbJobs.trans (Nat.zero_add _)
  have hfinished : t.nbJobsFinished = (finished jobs).length :=
    h.nbJobsFinished.trans (Nat.zero_add _)
  have hrejected : t.nbJobsRejected = jobs.length - (finished jobs).length :=
    h.nbJobsRejected.trans (Nat.zero_add _)
  have hended : t.nbJobsSuccess + t.nbJobsKilled = (finished jobs).length :=
    h.ended.trans (Nat.zero_add _)
  have hle := length_finished_le jobs
  have hnonzero : (t.nbJobs : ℚ) ≠ 0 := by
    rw [hjobs]
    exact Nat.cast_ne_zero.mpr (List.length_pos_iff.mpr hne).ne'
  constructor
  · exact ⟨hjobs, by simp only [JobsTracer.finalize]; omega⟩
  · exact ⟨hfinished, by simp only [JobsTracer.finalize]; omega⟩
  · rw [JobsTracer.finalize, quotient, if_neg hnonzero]
    rfl
  · exact h.makespan
  · exact h.maxWaitingTime
  · exact h.maxTurnaroundTime
  · exact h.maxSlowdown
  · rw [JobsTracer.finalize, hjobs, h.sumWaitingTime, zero_add]
  · rw [JobsTracer.finalize, hjobs, h.sumTurnaroundTime, zero_add]
  · rw [JobsTracer.finalize, hjobs, h.sumSlowdown, zero_add]

theorem Summarizes.comparable {jobs : List CompleteJob} {m : ScheduleMetrics} (hne : jobs ≠ [])
    (hm : Computed jobs m) (h : Summarizes jobs m) : Comparable jobs := by
  by_cases hsome : ∀ c ∈ jobs, ¬ c.Finished
  · exact .inl hsome
  have hpos : 0 < jobs.length := List.length_pos_iff.mpr hne
  have hfinished : finished jobs ≠ [] := fun hnil => hsome (finished_eq_nil_iff.mp hnil)
  have hwaiting := (average_quotient_iff hpos h.maxWaitingTime).mp
    (hm.meanWaitingTime ▸ h.meanWaitingTime)
  have hturnaround := (average_quotient_iff hpos h.maxTurnaroundTime).mp
    (hm.meanTurnaroundTime ▸ h.meanTurnaroundTime)
  rw [List.length_map, List.map_eq_nil_iff] at hwaiting hturnaround
  have hall : ∀ c ∈ jobs, c.Finished := by
    rw [← finished_eq_self_iff]
    rcases hwaiting.resolve_left hfinished with hw | hlength
    · rcases hturnaround.resolve_left hfinished with ht | hlength
      · -- both sums are zero only if the jobs did not last
        have hruntime := sum_runtime_pos hfinished fun c hc => by
          simpa using (List.mem_filter.mp hc).2
        rw [sum_turnaroundTime, hw, zero_add] at ht
        exact absurd ht hruntime.ne'
      · exact hlength.symm
    · exact hlength.symm
  have hself : finished jobs = jobs :=
    List.filter_eq_self.mpr fun c hc => decide_eq_true (hall c hc)
  have hmax := h.maxWaitingTime
  have hspan := h.makespan
  rw [hm.maxWaitingTime, maximum_foldl_iff, List.map_eq_nil_iff, hself] at hmax
  rw [hm.makespan, maximum_foldl_iff, List.map_eq_nil_iff, hself] at hspan
  obtain ⟨_, hx, hwait⟩ := hmax.resolve_left hne
  obtain ⟨c, hc, rfl⟩ := List.mem_map.mp hx
  obtain ⟨_, hy, hcompletion⟩ := hspan.resolve_left hne
  obtain ⟨d, hd, rfl⟩ := List.mem_map.mp hy
  exact .inr ⟨hall, ⟨c, hc, sub_nonneg.mp hwait⟩, d, hd, hcompletion⟩

/-- A measure of the jobs whose mean is over all of them and whose maximum starts from zero. -/
theorem average_of_nonneg {jobs : List CompleteJob} {f : CompleteJob → ℚ} {maximum : ℚ}
    (hne : jobs ≠ []) (hmax : Maximum ((finished jobs).map f) maximum)
    (h : (∀ c ∈ jobs, ¬ c.Finished) ∨ ∀ c ∈ jobs, c.Finished) :
    Average ((finished jobs).map f) (quotient ((finished jobs).map f).sum jobs.length)
      maximum := by
  rw [average_quotient_iff (List.length_pos_iff.mpr hne) hmax, List.map_eq_nil_iff,
    List.length_map]
  rcases h with hnone | hall
  · exact .inl (finished_eq_nil_iff.mpr hnone)
  · exact .inr (.inr (finished_eq_self_iff.mpr hall).symm)

theorem Comparable.summarizes {jobs : List CompleteJob} {m : ScheduleMetrics} (hne : jobs ≠ [])
    (hm : Computed jobs m) (h : Comparable jobs) : Summarizes jobs m := by
  have hmaximum : ∀ f : CompleteJob → ℚ, (finished jobs = [] ∨ ∃ c ∈ finished jobs, 0 ≤ f c) →
      Maximum ((finished jobs).map f) (((finished jobs).map f).foldl max 0) := by
    intro f hf
    rw [maximum_foldl_iff, List.map_eq_nil_iff]
    exact hf.imp_right fun ⟨c, hc, hpos⟩ => ⟨f c, List.mem_map_of_mem hc, hpos⟩
  have hreached : finished jobs = [] ∨
      (∃ c ∈ finished jobs, 0 ≤ c.waitingTime ∧ 0 ≤ c.turnaroundTime ∧ 0 ≤ c.slowdown) ∧
        ∃ c ∈ finished jobs, 0 ≤ c.completionTime := by
    rcases h with hnone | ⟨hall, ⟨c, hc, hstart⟩, hend⟩
    · exact .inl (finished_eq_nil_iff.mpr hnone)
    · have hself : finished jobs = jobs :=
        List.filter_eq_self.mpr fun c hc => decide_eq_true (hall c hc)
      have hlasts := c.lasts (hall c hc)
      have hwaiting : 0 ≤ c.waitingTime := sub_nonneg.mpr hstart
      have hturnaround : 0 ≤ c.turnaroundTime := by
        rw [CompleteJob.turnaroundTime, CompleteJob.completionTime]
        linarith
      rw [hself]
      exact .inr ⟨⟨c, hc, hwaiting, hturnaround, div_nonneg hturnaround hlasts.le⟩, hend⟩
  have hmakespan := hmaximum _ (hreached.imp_right fun h => h.2)
  have hwaiting := hmaximum _ (hreached.imp_right fun ⟨⟨c, hc, h⟩, _⟩ => ⟨c, hc, h.1⟩)
  have hturnaround := hmaximum _ (hreached.imp_right fun ⟨⟨c, hc, h⟩, _⟩ => ⟨c, hc, h.2.1⟩)
  have hslowdown := hmaximum _ (hreached.imp_right fun ⟨⟨c, hc, h⟩, _⟩ => ⟨c, hc, h.2.2⟩)
  rw [← hm.makespan] at hmakespan
  rw [← hm.maxWaitingTime] at hwaiting
  rw [← hm.maxTurnaroundTime] at hturnaround
  rw [← hm.maxSlowdown] at hslowdown
  have hpopulation := h.imp_right And.left
  exact ⟨hm.nbJobs, hm.nbJobsFinished, hm.successRate, hmakespan, hwaiting, hturnaround, hslowdown,
    hm.meanWaitingTime ▸ average_of_nonneg hne hwaiting hpopulation,
    hm.meanTurnaroundTime ▸ average_of_nonneg hne hturnaround hpopulation,
    hm.meanSlowdown ▸ average_of_nonneg hne hslowdown hpopulation⟩

/-- For every sequence of complete jobs, the metrics are those of the finished jobs exactly when no
rejected job is counted with finished ones, and the maxima reach zero, where they start. -/
theorem metrics_summarize_iff {jobs : List CompleteJob} (hne : jobs ≠ []) (nbMachines : Nat) :
    ∃ t, writeJobs {} jobs = .ok t ∧
      (Summarizes jobs (t.finalize nbMachines) ↔ Comparable jobs) := by
  obtain ⟨t, hwrite, h⟩ := writeJobs_counted {} jobs
  have hm := finalize_computed hne h nbMachines
  exact ⟨t, hwrite, fun hs => hs.comparable hne hm, fun hc => hc.summarizes hne hm⟩

/-- A job submitted at 0 that ran from 10 to 20. -/
def ranJob : CompleteJob where
  ptr := ⟨"w0", { workloadName := "w0", jobName := "0" }⟩
  job := { profile := { name := "delay", type := .delay }, submissionTime := 0
           requestedNbRes := 1, state := .completedSuccessfully, startingTime := 10
           runtime := 10 }
  complete := rfl
  lasts := by intro _; norm_num

/-- A rejected job is complete. -/
theorem rejected_isComplete : JobState.isComplete .rejected = true := rfl

/-- A job submitted at 0 and rejected. -/
def rejectedJob : CompleteJob where
  ptr := ⟨"w0", { workloadName := "w0", jobName := "1"
                  lexically_valid := JobIdentifier.first_valid }⟩
  job := { profile := { name := "delay", type := .delay }, submissionTime := 0
           requestedNbRes := 1, state := .rejected }
  complete := rejected_isComplete
  lasts := fun h => absurd rfl h

/-- The one job that waited did so for 10; the mean says 5. -/
theorem rejected_job_halves_mean :
    ∃ t, writeJobs {} [ranJob, rejectedJob] = .ok t ∧
      (t.finalize 1).meanWaitingTime = some 5 ∧
      ¬ Summarizes [ranJob, rejectedJob] (t.finalize 1) := by
  obtain ⟨t, hwrite, h⟩ := writeJobs_counted {} [ranJob, rejectedJob]
  have hm := finalize_computed (List.cons_ne_nil _ _) h 1
  have hfinished : finished [ranJob, rejectedJob] = [ranJob] := rfl
  have hwaiting : ranJob.waitingTime = 10 := sub_zero (10 : ℚ)
  have hmean : (t.finalize 1).meanWaitingTime = some 5 := by
    rw [hm.meanWaitingTime, hfinished, List.map_cons, List.map_nil, hwaiting, quotient]
    norm_num
  refine ⟨t, hwrite, hmean, fun hs => ?_⟩
  obtain ⟨m, hm, haverage⟩ := hs.meanWaitingTime
  rw [hmean, Option.some.injEq] at hm
  rw [hfinished, List.map_cons, List.map_nil, hwaiting, ← hm] at haverage
  have hsum := (haverage (List.cons_ne_nil _ _)).1
  norm_num at hsum

theorem one_job_summarized :
    [ranJob] ≠ [] ∧ ∃ t, writeJobs {} [ranJob] = .ok t ∧
      (Summarizes [ranJob] (t.finalize 1) ↔ Comparable [ranJob]) :=
  ⟨List.cons_ne_nil _ _, metrics_summarize_iff (List.cons_ne_nil _ _) 1⟩

end Batsim
