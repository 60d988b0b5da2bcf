import Batsim.ActorEffects
import Batsim.JobIdentifiers
import Batsim.System

/-!
What a submitter of jobs or events that are known in advance sends from its start to its end,
whatever the others do while it waits.
-/

namespace Batsim

open Checked

/-- The submitter gets to its end, and what it has sent by then satisfies `P`. Its messages are
received at once, it wakes up exactly when it wants to, and whenever it waits, the state changes in
any way that `Env` allows. -/
inductive Sends {α : Type} (step : Sim → SubmitterPhase α → Except String Sim)
    (thread : SubmitterPhase α → Thread) (Env : SubmitterPhase α → Sim → Sim → Prop)
    (P : List (Date × IPMessage) → Prop) :
    List (Date × IPMessage) → Sim → SubmitterPhase α → Prop
  | over {sent s phase m} (hstep : step s phase = .ok (s.put m none))
      (hsent : P (sent ++ [(s.clock, m)])) : Sends step thread Env P sent s phase
  | send {sent s phase m next} (hstep : step s phase = .ok (s.put m (some (thread next))))
      (hreceived : ∀ t, Env next s t → t.clock = s.clock →
        Sends step thread Env P (sent ++ [(s.clock, m)]) t next) : Sends step thread Env P sent s phase
  | sleep {sent s phase next date} (hstep : step s phase = .ok (s.block (thread next)))
      (hdate : (thread next).wakeDate = some date) (hlater : s.clock < date)
      (hawake : ∀ t, Env next s t → t.clock = date → Sends step thread Env P sent t next) :
      Sends step thread Env P sent s phase

namespace SubmitterKind

variable {α : Type} (k : SubmitterKind α)

/-- The batches of the items `done`, each item at its date, or at `start` if it was past. -/
structure Batched (start : Date) (done : List α) (batches : List (Date × List α)) : Prop where
  nonempty : ∀ b ∈ batches, b.2 ≠ []
  dates : (batches.flatMap fun b => b.2.map fun a => (b.1, a)) =
    done.map fun a => (max start (k.time a), a)

/-- The messages of the batches, after the hello. -/
def messages (hello : IPMessage) (start : Date) (batches : List (Date × List α)) :
    List (Date × IPMessage) :=
  (start, hello) :: batches.map fun b => (b.1, k.message b.2)

/-- What a submitter that starts at `start` sends, up to its bye. -/
def SendsItems (hello : IPMessage) (start : Date) (items : List α)
    (sent : List (Date × IPMessage)) : Prop :=
  ∃ batches, k.Batched start items batches ∧
    sent = k.messages hello start batches ++ [((batches.map Prod.fst).getLastD start, k.bye)]

/-! ### Batches -/

/-- A batch is made of the items that are not in the future. -/
theorem nextBatch_cases (time : α → Date) (date : Date) (batch items : List α) :
    ∃ taken rest, nextBatch time date batch items = (batch ++ taken, rest) ∧
      items = taken ++ rest ∧ (∀ a ∈ taken, time a ≤ date) ∧ ∀ a ∈ rest.head?, date < time a := by
  induction items generalizing batch with
  | nil => exact ⟨[], [], by simp [nextBatch]⟩
  | cons a items ih =>
    unfold nextBatch
    split
    · next hlater => exact ⟨[], a :: items, by simpa using hlater⟩
    · next hnow =>
      obtain ⟨taken, rest, heq, rfl, htaken, hrest⟩ := ih (batch ++ [a])
      refine ⟨a :: taken, rest, by simp [heq], rfl, ?_, hrest⟩
      intro b hb
      rcases List.mem_cons.mp hb with rfl | hb
      · exact not_lt.mp hnow
      · exact htaken b hb

theorem nextBatch_congr {time time' : α → Date} {date : Date} {batch items : List α}
    (h : ∀ a ∈ items, time a = time' a) :
    nextBatch time date batch items = nextBatch time' date batch items := by
  induction items generalizing batch with
  | nil => rfl
  | cons a items ih =>
    unfold nextBatch
    rw [h a (by simp), ih fun b hb => h b (by simp [hb])]

theorem sleep_congr {time : α → Date} (s : Sim) (date : Date) {items : List α}
    (h : ∀ a ∈ items, time a = k.time a) :
    ({ k with time := time } : SubmitterKind α).sleep s date items = k.sleep s date items := by
  cases items with
  | nil => rfl
  | cons a rest =>
    simp only [sleep, h a (by simp)]

theorem submit_congr {time : α → Date} (s : Sim) (date : Date) (batch : List α) {items : List α}
    (h : ∀ a ∈ items, time a = k.time a) :
    ({ k with time := time } : SubmitterKind α).submit s date batch items =
      k.submit s date batch items := by
  obtain ⟨taken, rest, heq, rfl, -⟩ := nextBatch_cases k.time date batch items
  unfold submit
  rw [nextBatch_congr h, heq]
  dsimp only
  rw [k.sleep_congr s date fun a ha => h a (by simp [ha])]

variable {k} {start date : Date} {done : List α} {batches : List (Date × List α)}

theorem batched_nil : k.Batched start [] [] := ⟨by simp, rfl⟩

theorem Batched.snoc (h : k.Batched start done batches) {batch : List α} (hne : batch ≠ [])
    (hdates : ∀ a ∈ batch, max start (k.time a) = date) :
    k.Batched start (done ++ batch) (batches ++ [(date, batch)]) where
  nonempty := by
    intro b hb
    rcases List.mem_append.mp hb with hb | hb
    · exact h.nonempty b hb
    · rw [List.mem_singleton.mp hb]
      exact hne
  dates := by
    have hlast : (batch.map fun a => (date, a)) = batch.map fun a => (max start (k.time a), a) :=
      List.map_congr_left fun a ha => by rw [hdates a ha]
    simp only [List.flatMap_append, List.map_append, h.dates, List.flatMap_cons, List.flatMap_nil,
      List.append_nil, hlast]

theorem messages_snoc (hello : IPMessage) (batch : List α) :
    k.messages hello start (batches ++ [(date, batch)]) =
      k.messages hello start batches ++ [(date, k.message batch)] := by
  simp [messages]

/-! ### Whole runs -/

/-- Once it is greeted, a submitter does what its kind says, as long as `Keeps` holds. -/
structure Follows (k : SubmitterKind α) (step : Sim → SubmitterPhase α → Except String Sim)
    (Env : SubmitterPhase α → Sim → Sim → Prop) (Keeps : Sim → Prop) (items : List α) :
    Prop where
  env : ∀ next t u, next ≠ .greeted → Keeps t → Env next t u → Keeps u
  sent : ∀ t date rest, Keeps t → (∀ a ∈ rest, a ∈ items) →
    step t (.sent date rest) = .ok (k.sleep t date rest)
  asleep : ∀ t date a rest, Keeps t → (∀ b ∈ a :: rest, b ∈ items) →
    step t (.asleep date a rest) = .ok (k.submit t t.clock [a] rest)
  wake : ∀ date a rest, (k.thread (.asleep date a rest)).wakeDate = some date

variable {step : Sim → SubmitterPhase α → Except String Sim}
  {Env : SubmitterPhase α → Sim → Sim → Prop} {Keeps : Sim → Prop}
  {P : List (Date × IPMessage) → Prop} {hello : IPMessage} {items : List α}

/-- From a date at which the first remaining item is in the future. -/
theorem Follows.sends_sleep (h : Follows k step Env Keeps items)
    (hsorted : items.Pairwise fun a b => k.time a ≤ k.time b)
    (hP : ∀ sent, k.SendsItems hello start items sent → P sent) {rest : List α}
    (hitems : items = done ++ rest) (hbatched : k.Batched start done batches) {s : Sim}
    {phase : SubmitterPhase α} (hkeeps : Keeps s) (hstart : start ≤ s.clock)
    (hclock : s.clock = (batches.map Prod.fst).getLastD start)
    (hnext : ∀ a ∈ rest.head?, s.clock < k.time a)
    (hstep : step s phase = .ok (k.sleep s s.clock rest)) :
    Sends step k.thread Env P (k.messages hello start batches) s phase := by
  induction hn : rest.length using Nat.strong_induction_on generalizing rest done batches s phase with
  | _ n ih =>
    cases rest with
    | nil =>
      refine .over hstep (hP _ ⟨batches, ?_, ?_⟩)
      · rw [hitems, List.append_nil]
        exact hbatched
      · rw [hclock]
    | cons a rest =>
      have hlater : s.clock < k.time a := hnext a rfl
      have hwake : s.clock + (k.time a - s.clock) = k.time a := by grind
      rw [sleep, hwake] at hstep
      refine .sleep hstep (h.wake _ a rest) hlater fun t henv htime => ?_
      have hkeepsT := h.env _ s t (by simp) hkeeps henv
      have hmem : ∀ b ∈ a :: rest, b ∈ items := fun b hb => by simp [hitems, List.mem_append.mpr (.inr hb)]
      have hawake := h.asleep t (k.time a) a rest hkeepsT hmem
      obtain ⟨taken, rest', heq, rfl, htaken, hrest⟩ := nextBatch_cases k.time t.clock [a] rest
      rw [submit, heq] at hawake
      simp only [List.singleton_append, reduceCtorEq, ↓reduceIte] at hawake
      refine .send hawake fun u henv' htime' => ?_
      rw [← messages_snoc]
      have hdates : ∀ b ∈ a :: taken, max start (k.time b) = t.clock := by
        intro b hb
        have hle : k.time b ≤ t.clock := by
          rcases List.mem_cons.mp hb with rfl | hb
          · exact htime.ge
          · exact htaken b hb
        have hge : k.time a ≤ k.time b := by
          rcases List.mem_cons.mp hb with rfl | hb
          · exact le_rfl
          · rw [hitems] at hsorted
            have htail := (List.pairwise_append.mp hsorted).2.1
            exact (List.pairwise_cons.mp htail).1 b (by simp [hb])
        grind
      have hsplit : items = (done ++ a :: taken) ++ rest' := by
        rw [hitems]
        simp
      have hkeepsU := h.env _ t u (by simp) hkeepsT henv'
      refine ih rest'.length ?_ hsplit (hbatched.snoc (by simp) hdates) hkeepsU ?_ ?_ ?_ ?_ rfl
      · rw [← hn]
        simp only [List.length_cons, List.length_append]
        omega
      · rw [htime', htime]
        exact hstart.trans hlater.le
      · rw [htime', List.map_append]
        simp
      · rw [htime']
        exact hrest
      · rw [htime']
        refine h.sent u t.clock rest' hkeepsU fun b hb => hmem b ?_
        simp [hb]

/-- From the moment when the server has received the hello. -/
theorem Follows.sends (h : Follows k step Env Keeps items)
    (hsorted : items.Pairwise fun a b => k.time a ≤ k.time b)
    (hP : ∀ sent, k.SendsItems hello start items sent → P sent) {s : Sim} (hkeeps : Keeps s)
    (hstart : s.clock = start) (hstep : step s .greeted = .ok (k.submit s s.clock [] items)) :
    Sends step k.thread Env P [(start, hello)] s .greeted := by
  obtain ⟨taken, rest, heq, hitems, htaken, hrest⟩ := nextBatch_cases k.time s.clock [] items
  rw [submit, heq] at hstep
  dsimp only at hstep
  cases taken with
  | nil =>
    simp only [List.append_nil, ↓reduceIte] at hstep
    exact h.sends_sleep hsorted hP hitems batched_nil hkeeps hstart.ge hstart hrest hstep
  | cons a taken =>
    simp only [List.nil_append, reduceCtorEq, ↓reduceIte] at hstep
    refine .send hstep fun t henv htime => ?_
    have hdates : ∀ b ∈ a :: taken, max start (k.time b) = s.clock := by
      intro b hb
      rw [max_eq_left (hstart ▸ htaken b hb), hstart]
    have hkeepsT := h.env _ s t (by simp) hkeeps henv
    have hsent := h.sent t s.clock rest hkeepsT fun b hb => by simp [hitems, hb]
    rw [← htime] at hsent
    have hrun := h.sends_sleep hsorted hP hitems (batched_nil.snoc (by simp) hdates) hkeepsT
      (by rw [htime, hstart]) (by simp [htime]) (by rw [htime]; exact hrest) hsent
    rw [htime] at hrun
    exact hrun

end SubmitterKind

/-! ### The jobs of a workload -/

/-- The jobs of a workload. -/
def Workload.jobList (wl : Workload) : List JobPtr := wl.jobs.jobs.entries.map fun e => e.2

/-- The job is submitted before the other one. -/
def Sim.SubmittedBefore (s : Sim) (p q : JobPtr) : Prop :=
  (s.job p).submissionTime < (s.job q).submissionTime ∨
    (s.job p).submissionTime = (s.job q).submissionTime ∧ p.id.operatorLt q.id = true

/-- What others do while the submitter of a workload waits: the jobs of the workload keep their
submission times, and the workload its jobs until the submitter has read them. -/
def Workload.JobsKept (wl : Workload) (name : String) (next : SubmitterPhase JobPtr) (s t : Sim) :
    Prop :=
  (∀ p ∈ wl.jobList, (t.job p).submissionTime = (s.job p).submissionTime) ∧
    (next = .greeted → t.workloads.at? name = s.workloads.at? name)

theorem Workload.jobList_ids_nodup (wl : Workload) : (wl.jobList.map fun p => p.id).Nodup := by
  have hids : (wl.jobList.map fun p => p.id) = wl.jobs.jobs.keys := by
    rw [jobList, List.map_map]
    refine List.map_congr_left fun e he => ?_
    exact wl.jobs.id_of_lookup e.1 e.2 (AList.mem_lookup_iff.mpr he)
  rw [hids]
  exact wl.jobs.jobs.keys_nodup

section comparator

variable (job : JobPtr → Job)

theorem jobComparatorSubtimeNumber_total :
    Std.Total fun p q => jobComparatorSubtimeNumber job p q = true := by
  constructor
  intro p q
  unfold jobComparatorSubtimeNumber
  rcases lt_trichotomy (job p).submissionTime (job q).submissionTime with h | h | h
  · simp [h.ne, h]
  · rw [if_pos h, if_pos h.symm]
    rcases lt_trichotomy p.id.toString q.id.toString with hid | hid | hid <;> simp [hid]
  · simp [h.ne, h]

theorem jobComparatorSubtimeNumber_iff {p q : JobPtr} :
    jobComparatorSubtimeNumber job p q = true ↔
      (job p).submissionTime < (job q).submissionTime ∨
        (job p).submissionTime = (job q).submissionTime ∧ p.id.toString ≤ q.id.toString := by
  unfold jobComparatorSubtimeNumber
  by_cases heq : (job p).submissionTime = (job q).submissionTime
  · simp [heq, le_iff_lt_or_eq]
  · simp [heq]

theorem jobComparatorSubtimeNumber_trans :
    IsTrans JobPtr fun p q => jobComparatorSubtimeNumber job p q = true := by
  constructor
  intro p q r hpq hqr
  rw [jobComparatorSubtimeNumber_iff] at hpq hqr ⊢
  rcases hpq with hpq | ⟨hpq, hid⟩ <;> rcases hqr with hqr | ⟨hqr, hid'⟩
  · exact .inl (hpq.trans hqr)
  · exact .inl (hqr ▸ hpq)
  · exact .inl (hpq ▸ hqr)
  · exact .inr ⟨hpq.trans hqr, hid.trans hid'⟩

end comparator

/-- The jobs of a workload in the order of their submissions. -/
theorem exists_sorted_jobs (s : Sim) (wl : Workload) :
    ∃ jobs : List JobPtr, jobs.Perm wl.jobList ∧ jobs.Pairwise s.SubmittedBefore ∧
      ∀ t : Sim, (∀ p ∈ wl.jobList, (t.job p).submissionTime = (s.job p).submissionTime) →
        wl.jobList.insertionSort (fun p q => jobComparatorSubtimeNumber t.job p q = true) =
          jobs := by
  have htotal := jobComparatorSubtimeNumber_total s.job
  have htrans := jobComparatorSubtimeNumber_trans s.job
  have hperm := List.perm_insertionSort
    (fun p q => jobComparatorSubtimeNumber s.job p q = true) wl.jobList
  have hsorted := List.pairwise_insertionSort
    (fun p q => jobComparatorSubtimeNumber s.job p q = true) wl.jobList
  refine ⟨_, hperm, ?_, ?_⟩
  · have hnodup := (hperm.map fun p => p.id).nodup_iff.mpr wl.jobList_ids_nodup
    rw [List.Nodup, List.pairwise_map] at hnodup
    refine (hsorted.and hnodup).imp ?_
    rintro p q ⟨hle, hne⟩
    rcases (jobComparatorSubtimeNumber_iff s.job).mp hle with hlt | ⟨heq, hid⟩
    · exact .inl hlt
    · refine .inr ⟨heq, JobIdentifier.operatorLt_iff.mpr (lt_of_le_of_ne hid ?_)⟩
      exact fun hsame => hne (JobIdentifier.toString_inj.mp hsame)
  · intro t htimes
    have hmap := List.map_insertionSort
      (r := fun p q => jobComparatorSubtimeNumber t.job p q = true)
      (s := fun p q => jobComparatorSubtimeNumber s.job p q = true) id wl.jobList ?_
    · simpa using hmap
    · intro p hp q hq
      simp only [id, jobComparatorSubtimeNumber_iff, htimes p hp, htimes q hq]

theorem jobSubmitter_follows (s : Sim) (name : String) (wl : Workload) {jobs : List JobPtr}
    (hjobs : ∀ p ∈ jobs, p ∈ wl.jobList) :
    (jobSubmitterKind s name).Follows (fun t phase => staticJobSubmitterProcess t name phase)
      (wl.JobsKept name)
      (fun t => ∀ p ∈ wl.jobList, (t.job p).submissionTime = (s.job p).submissionTime) jobs where
  env := fun next t u _ hkeeps henv p hp => (henv.1 p hp).trans (hkeeps p hp)
  sent := by
    intro t date rest hkeeps hrest
    have hsame := (jobSubmitterKind s name).sleep_congr t date
      fun p hp => hkeeps p (hjobs p (hrest p hp))
    exact congrArg Except.ok hsame
  asleep := by
    intro t date p rest hkeeps hrest
    have hsame := (jobSubmitterKind s name).submit_congr t t.clock [p]
      fun q hq => hkeeps q (hjobs q (hrest q (List.mem_cons_of_mem p hq)))
    exact congrArg Except.ok hsame
  wake := fun _ _ _ => rfl

/-- A submitter of the jobs of a workload sends each of them once, in the order of their submission
times and identifiers, at its submission time or at once if it is past, and then its bye. -/
theorem jobs_submitted_on_time {s : Sim} {name : String} {wl : Workload}
    (hwl : s.workloads.at? name = .ok wl) :
    ∃ jobs : List JobPtr, jobs.Perm wl.jobList ∧ jobs.Pairwise s.SubmittedBefore ∧
      Sends (fun t phase => staticJobSubmitterProcess t name phase) (Thread.jobSubmitter name)
        (wl.JobsKept name)
        ((jobSubmitterKind s name).SendsItems (.submitterHello (name ++ "_submitter") false
          .jobSubmitter) s.clock jobs) [] s .started := by
  obtain ⟨jobs, hperm, hsorted, hjobs⟩ := exists_sorted_jobs s wl
  refine ⟨jobs, hperm, hsorted, .send rfl fun t henv htime => ?_⟩
  have hmem : ∀ p ∈ jobs, p ∈ wl.jobList := fun p hp => hperm.mem_iff.mp hp
  have htimes : jobs.Pairwise fun p q => (s.job p).submissionTime ≤ (s.job q).submissionTime :=
    hsorted.imp fun h => h.elim le_of_lt fun h => h.1.le
  refine (jobSubmitter_follows s name wl hmem).sends htimes (fun _ hsent => hsent) henv.1 htime ?_
  -- the submitter reads the jobs of the workload once it is greeted
  have hread : t.workloads.at? name = .ok wl := (henv.2 rfl).trans hwl
  have hstep : staticJobSubmitterProcess t name .greeted =
      .ok ((jobSubmitterKind t name).submit t t.clock [] jobs) := by
    refine bind_eq_ok.mpr ⟨_, bind_eq_ok.mpr ⟨wl, hread, rfl⟩, ?_⟩
    exact congrArg (fun js => Except.ok ((jobSubmitterKind t name).submit t t.clock [] js))
      (hjobs t henv.1)
  have hsame := (jobSubmitterKind s name).submit_congr t t.clock []
    fun p hp => henv.1 p (hmem p hp)
  exact hstep.trans (congrArg Except.ok hsame)

/-- A submitter that starts at 5, with a job of the date 3 and a job of the date 10. -/
def twoJobs : WorkloadDescription where
  name := "w0"
  profiles := delayProfiles
  jobs := [{ description := loneJobDescription, profile := { name := "delay", type := .delay } },
    { description := { id := { workloadName := "w0", jobName := "8" }, subtime := 3, res := 1
                       profile := "delay" }
      profile := { name := "delay", type := .delay } }]

theorem two_jobs_submitted : ∃ s wl jobs, s.clock = 5 ∧ s.workloads.at? "w0" = .ok wl ∧
    wl.jobList.length = 2 ∧ jobs.Perm wl.jobList ∧ jobs.Pairwise s.SubmittedBefore ∧
      Sends (fun t phase => staticJobSubmitterProcess t "w0" phase) (Thread.jobSubmitter "w0")
        (wl.JobsKept "w0")
        ((jobSubmitterKind s "w0").SendsItems (.submitterHello "w0_submitter" false .jobSubmitter) 5
          jobs) [] s .started := by
  have hload : succeedsWith (do
      let ws ← loadWorkloadsAndWorkflows [twoJobs] []
      let wl ← ws.at? "w0"
      .ok (ws, wl)) (fun r => r.2.jobList.length = 2) = true := by decide +kernel
  obtain ⟨⟨ws, wl⟩, hloaded, hlength⟩ := exists_of_succeedsWith hload
  simp only [bind_eq_ok, Except.ok.injEq, Prod.mk.injEq] at hloaded
  obtain ⟨loaded, -, read, hwl, rfl, rfl⟩ := hloaded
  let dated (p : JobPtr) : Job :=
    { (start loneHost).job p with submissionTime := if p.id = loneJob then 10 else 3 }
  obtain ⟨s, hclock, hworkloads⟩ : ∃ s : Sim, s.clock = 5 ∧ s.workloads = loaded :=
    ⟨{ start loneHost with clock := 5, workloads := loaded, job := dated }, rfl, rfl⟩
  rw [← hworkloads] at hwl
  obtain ⟨jobs, hperm, hsorted, hsends⟩ := jobs_submitted_on_time hwl
  rw [hclock] at hsends
  exact ⟨s, read, jobs, hclock, hwl, of_decide_eq_true hlength, hperm, hsorted, hsends⟩

end Batsim
