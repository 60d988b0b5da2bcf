import Batsim.ExecutionPermission

/-!
On which hosts the ranks of SMPI and usage-trace profiles are placed when the job has no mapping of
its own. The mapping is made for the first such profile that the job executes, and stays in the job.
-/

namespace Batsim

open Checked

/-- The loop that fills the default mapping, from the host `host_to_use` on. -/
def defaultMapping (requestedNbRes : Nat) : Nat → Nat → List Nat
  | _, 0 => []
  | hostToUse, n + 1 => hostToUse :: defaultMapping requestedNbRes ((hostToUse + 1) % requestedNbRes) n

/-- The part of `execute_task` on the profiles with `nb_ranks` traces, up to the creation of the
actors: the mapping that the job has then, and the host of each rank. -/
def executeReplay (id : JobIdentifier) (requestedNbRes : Nat) (hosts mapping : List Nat)
    (nbRanks : Nat) : Except String (List Nat × List Nat) := do
  let mapping := if mapping = [] then defaultMapping requestedNbRes 0 nbRanks else mapping
  xbtAssert (nbRanks = mapping.length)
    ("Invalid job " ++ id.toString ++ ": SMPI ranks_to_host mapping has an invalid size, as it" ++
      " should use " ++ toString nbRanks ++ " MPI ranks but the ranking states that there are " ++
      toString mapping.length ++ " ranks.")
  let hostsToUse ← collect (fun rank => do
    let host ← vectorAt mapping rank
    vectorAt hosts host) (List.range nbRanks)
  .ok (mapping, hostsToUse)

/-- The profiles that a job executes one after the other, by number of ranks. -/
def executeReplays (id : JobIdentifier) (requestedNbRes : Nat) (hosts : List Nat) :
    List Nat → List Nat → Except String (List (List Nat))
  | _, [] => .ok []
  | mapping, nbRanks :: rest => do
    let (mapping, hostsToUse) ← executeReplay id requestedNbRes hosts mapping nbRanks
    let others ← executeReplays id requestedNbRes hosts mapping rest
    .ok (hostsToUse :: others)

/-- The numbers of ranks of the replays among the leaves that were started, in order. -/
def replayedRanks (started : List LeafStart) : List Nat :=
  started.filterMap fun leaf => match leaf.profile.data with
    | .replay traceFilenames => some traceFilenames.length
    | _ => none

/-- The profile replays traces, directly or through sequences. -/
def Profile.Replays (p : Profile) : Prop :=
  p.type = .smpi ∨ p.type = .usageTrace ∨
    p.type = .sequence ∧
      ∃ sub ∈ p.profileSequence, sub.type = .smpi ∨ sub.type = .usageTrace ∨ sub.type = .sequence

/-- Each rank is on the host of its number modulo the number of requested resources. -/
structure RoundRobin (requestedNbRes : Nat) (hosts : List Nat) (nbRanks : Nat)
    (hostsToUse : List Nat) : Prop where
  length : hostsToUse.length = nbRanks
  host : ∀ rank < nbRanks, ∃ h, hosts[rank % requestedNbRes]? = some h ∧
    hostsToUse[rank]? = some h

/-- All the replays succeed, and place their ranks as they should. -/
def ReplaysPlaced (id : JobIdentifier) (requestedNbRes : Nat) (hosts mapping ranks : List Nat) :
    Prop :=
  ∃ placements, executeReplays id requestedNbRes hosts mapping ranks = .ok placements ∧
    List.Forall₂ (RoundRobin requestedNbRes hosts) ranks placements

/-- From the first replay with a rank on, all have the same number of ranks. -/
def OneNumberOfRanks (ranks : List Nat) : Prop :=
  ∃ n, ∀ m ∈ ranks.dropWhile (· = 0), m = n

/-! ### The mapping -/

section mapping

variable {id : JobIdentifier} {requestedNbRes : Nat} {hosts : List Nat}

theorem length_defaultMapping (hostToUse n : Nat) :
    (defaultMapping requestedNbRes hostToUse n).length = n := by
  induction n generalizing hostToUse with
  | zero => rfl
  | succ n ih => rw [defaultMapping, List.length_cons, ih]

theorem getElem?_defaultMapping {hostToUse n rank : Nat} (hhost : hostToUse < requestedNbRes)
    (hrank : rank < n) : (defaultMapping requestedNbRes hostToUse n)[rank]? =
      some ((hostToUse + rank) % requestedNbRes) := by
  induction n generalizing hostToUse rank with
  | zero => omega
  | succ n ih =>
    rw [defaultMapping]
    cases rank with
    | zero =>
      rw [List.getElem?_cons_zero, Nat.add_zero, Nat.mod_eq_of_lt hhost]
    | succ rank =>
      have hnext : (hostToUse + 1) % requestedNbRes < requestedNbRes :=
        Nat.mod_lt _ (Nat.zero_lt_of_lt hhost)
      rw [List.getElem?_cons_succ, ih hnext (by omega), Nat.mod_add_mod, Nat.add_assoc,
        Nat.add_comm 1 rank]

/-- A replay with as many ranks as the mapping that was made for the first one. -/
theorem executeReplay_same (id : JobIdentifier) (hhosts : hosts.length = requestedNbRes) (hpos : 0 < requestedNbRes)
    {n : Nat} {mapping : List Nat}
    (hmapping : mapping = [] ∨ mapping = defaultMapping requestedNbRes 0 n) :
    ∃ hostsToUse, executeReplay id requestedNbRes hosts mapping n =
        .ok (defaultMapping requestedNbRes 0 n, hostsToUse) ∧
      RoundRobin requestedNbRes hosts n hostsToUse := by
  have hused : (if mapping = [] then defaultMapping requestedNbRes 0 n else mapping) =
      defaultMapping requestedNbRes 0 n := by
    split
    · rfl
    · next hne => exact hmapping.resolve_left hne
  have hrank : ∀ rank < n, ∃ h, hosts[rank % requestedNbRes]? = some h ∧
      (do
        let host ← vectorAt (defaultMapping requestedNbRes 0 n) rank
        vectorAt hosts host) = .ok h := by
    intro rank hlt
    have hentry := getElem?_defaultMapping hpos hlt
    rw [Nat.zero_add] at hentry
    have hin : rank % requestedNbRes < hosts.length := by
      rw [hhosts]
      exact Nat.mod_lt rank hpos
    refine ⟨_, List.getElem?_eq_getElem hin, ?_⟩
    simp only [bind_eq_ok, vectorAt_eq_ok]
    exact ⟨_, hentry, List.getElem?_eq_getElem hin⟩
  obtain ⟨hostsToUse, hcollect⟩ : ∃ hostsToUse, collect (fun rank => do
      let host ← vectorAt (defaultMapping requestedNbRes 0 n) rank
      vectorAt hosts host) (List.range n) = .ok hostsToUse :=
    collect_succeeds fun rank hin => (hrank rank (List.mem_range.mp hin)).imp fun _ h => h.2
  refine ⟨hostsToUse, ?_, ?_, ?_⟩
  · simp only [executeReplay, hused, bind_eq_ok, xbtAssert_eq_ok, length_defaultMapping]
    exact ⟨(), trivial, hostsToUse, hcollect, rfl⟩
  · rw [← (collect_eq_ok.mp hcollect).length_eq, List.length_range]
  · intro rank hlt
    obtain ⟨h, hhost, hplaced⟩ := hrank rank hlt
    obtain ⟨h', hat, hsame⟩ := getElem?_of_collect hcollect (List.getElem?_range hlt)
    cases hplaced.symm.trans hsame
    exact ⟨h, hhost, hat⟩

/-- A replay with another number of ranks. -/
theorem executeReplay_other (id : JobIdentifier) (requestedNbRes : Nat) (hosts : List Nat)
    {n : Nat} {mapping : List Nat} (hne : mapping ≠ []) (hn : n ≠ mapping.length) :
    ∃ e, executeReplay id requestedNbRes hosts mapping n = .error e := by
  rw [executeReplay, if_neg hne, xbtAssert, require, if_neg hn]
  exact ⟨_, rfl⟩

/-- Once there is a mapping, it has to fit every replay. -/
theorem replaysPlaced_of_mapping (hhosts : hosts.length = requestedNbRes)
    (hpos : 0 < requestedNbRes) {n : Nat} (hn : 0 < n) (ranks : List Nat) :
    ReplaysPlaced id requestedNbRes hosts (defaultMapping requestedNbRes 0 n) ranks ↔
      ∀ m ∈ ranks, m = n := by
  have hne : defaultMapping requestedNbRes 0 n ≠ [] := by
    rw [← List.length_pos_iff, length_defaultMapping]
    exact hn
  induction ranks with
  | nil =>
    refine iff_of_true ⟨[], rfl, .nil⟩ ?_
    intro m hm
    cases hm
  | cons m ranks ih =>
    rw [List.forall_mem_cons]
    constructor
    · rintro ⟨placements, hrun, hplaced⟩
      simp only [executeReplays, bind_eq_ok, Except.ok.injEq, Prod.exists] at hrun
      obtain ⟨mapping, hostsToUse, hfirst, others, hrest, rfl⟩ := hrun
      have hm : m = n := by
        by_contra hother
        obtain ⟨e, he⟩ := executeReplay_other id requestedNbRes hosts hne
          (by rw [length_defaultMapping]; exact hother)
        rw [he] at hfirst
        cases hfirst
      subst hm
      obtain ⟨_, hsame, -⟩ := executeReplay_same id hhosts hpos (.inr rfl)
      cases hsame.symm.trans hfirst
      cases hplaced with
      | cons _ hothers => exact ⟨rfl, ih.mp ⟨others, hrest, hothers⟩⟩
    · rintro ⟨rfl, hall⟩
      obtain ⟨others, hrest, hothers⟩ := ih.mpr hall
      obtain ⟨hostsToUse, hfirst, hplaced⟩ := executeReplay_same id hhosts hpos (.inr rfl)
      refine ⟨hostsToUse :: others, ?_, .cons hplaced hothers⟩
      simp only [executeReplays, bind_eq_ok, Except.ok.injEq, Prod.exists]
      exact ⟨_, hostsToUse, hfirst, others, hrest, rfl⟩

/-- From the start, the replays without ranks leave the job without mapping. -/
theorem replaysPlaced_iff (hhosts : hosts.length = requestedNbRes) (hpos : 0 < requestedNbRes)
    (ranks : List Nat) :
    ReplaysPlaced id requestedNbRes hosts [] ranks ↔ OneNumberOfRanks ranks := by
  induction ranks with
  | nil =>
    refine iff_of_true ⟨[], rfl, .nil⟩ ⟨0, ?_⟩
    intro m hm
    cases hm
  | cons n ranks ih =>
    obtain ⟨hostsToUse, hfirst, hplaced⟩ :=
      executeReplay_same (n := n) id hhosts hpos (.inl rfl)
    have hstep : ReplaysPlaced id requestedNbRes hosts [] (n :: ranks) ↔
        ReplaysPlaced id requestedNbRes hosts (defaultMapping requestedNbRes 0 n) ranks := by
      constructor
      · rintro ⟨placements, hrun, hall⟩
        simp only [executeReplays, bind_eq_ok, Except.ok.injEq, Prod.exists] at hrun
        obtain ⟨mapping, _, hsame, others, hrest, rfl⟩ := hrun
        cases hfirst.symm.trans hsame
        cases hall with
        | cons _ hothers => exact ⟨others, hrest, hothers⟩
      · rintro ⟨others, hrest, hothers⟩
        refine ⟨hostsToUse :: others, ?_, .cons hplaced hothers⟩
        simp only [executeReplays, bind_eq_ok, Except.ok.injEq, Prod.exists]
        exact ⟨_, hostsToUse, hfirst, others, hrest, rfl⟩
    rw [hstep, OneNumberOfRanks]
    by_cases hn : n = 0
    · subst hn
      rw [List.dropWhile_cons_of_pos (by decide)]
      exact ih
    · rw [replaysPlaced_of_mapping hhosts hpos (Nat.pos_of_ne_zero hn),
        List.dropWhile_cons_of_neg (by simpa using hn)]
      constructor
      · intro hall
        refine ⟨n, ?_⟩
        rw [List.forall_mem_cons]
        exact ⟨rfl, hall⟩
      · rintro ⟨m, hall⟩
        rw [List.forall_mem_cons] at hall
        obtain ⟨rfl, hall⟩ := hall
        exact hall

end mapping

/-! ### The jobs -/

/-- A job that replays traces gets as many executors as the resources that it asks for. -/
theorem length_executors_of_accepted {cfg : Config} {s s' : Sim} {p : JobPtr} {a : TaskAllocation}
    (hserver : serverOnExecuteJob cfg s (a.scheduled p) = .ok s')
    (hreplays : (s.job p).profile.Replays) : a.executors.length = (s.job p).requestedNbRes := by
  have htotal : (s.job p).profile.isParallelHomogeneousTotal = false := by
    rw [Profile.isParallelHomogeneousTotal]
    rcases hreplays with htype | htype | ⟨htype, sub, hsub, hsubType⟩
    · simp [htype]
    · simp [htype]
    · rw [Bool.or_eq_false_iff, Bool.and_eq_false_iff]
      refine ⟨by simp [htype], .inr ?_⟩
      rw [List.all_eq_false]
      refine ⟨sub, hsub, ?_⟩
      rcases hsubType with h | h | h <;> simp [h]
  simp only [serverOnExecuteJob, bind_eq_ok] at hserver
  obtain ⟨_, -, _, -, _, -, _, hnumber, -⟩ := hserver
  have hjob : checkNumberOfMachines { s.job p with state := .running } p (a.scheduled p) =
      .ok () := by
    simp only [Sim.setJob, Sim.countRunning, Function.update_self] at hnumber
    exact hnumber
  rw [checkNumberOfMachines, htotal, if_neg Bool.false_ne_true] at hjob
  rw [TaskAllocation.executors]
  by_cases hmapping : a.mapping = []
  · rw [if_pos hmapping, List.length_range]
    rw [if_neg (by simp [TaskAllocation.scheduled, hmapping]), xbtAssert_eq_ok] at hjob
    exact hjob
  · rw [if_neg hmapping]
    rw [if_pos (by simpa [TaskAllocation.scheduled] using hmapping), xbtAssert_eq_ok] at hjob
    exact hjob

/-- In every run of the tasks of a job that replays traces, the ranks are placed as they should
exactly when, from the first replay with a rank on, all have the same number of ranks. -/
theorem replays_placed_iff_one_number {cfg : Config} {s s' : Sim} {p : JobPtr} {a : TaskAllocation}
    {hosts : List Nat} (hpos : 0 < a.machineIds.size)
    (hserver : serverOnExecuteJob cfg s (a.scheduled p) = .ok s')
    (hreplays : (s.job p).profile.Replays) (hhosts : jobHosts s.machines a = .ok hosts)
    (ctx : TaskContext) (depth : Nat) (task : BatTask) (e : Execution) :
    ReplaysPlaced p.id (s.job p).requestedNbRes hosts []
        (replayedRanks (BatTask.execute ctx depth task e).2.2.started) ↔
      OneNumberOfRanks (replayedRanks (BatTask.execute ctx depth task e).2.2.started) := by
  have hnumber := length_executors_of_accepted hserver hreplays
  have hexecutors : 0 < a.executors.length := by
    rw [TaskAllocation.executors]
    split
    · rw [List.length_range]
      exact hpos
    · next hne => exact List.length_pos_iff.mpr hne
  exact replaysPlaced_iff ((length_jobHosts hhosts).trans hnumber) (hnumber ▸ hexecutors) _

/-- A replay on one rank per trace. -/
def replayProfile (name : String) (traceFilenames : List String) : ProfileObject where
  name := name
  data := .replay traceFilenames

/-- The tasks of the sequence of two replays. -/
def replaysTask (first second : List String) : BatTask where
  profile :=
    { name := "replays"
      data := .sequence { repeats := 1, sequence := ["first", "second"], repeats_pos := Nat.one_pos
                          sequence_ne_nil := by decide } }
  subTasks := [{ profile := replayProfile "first" first },
    { profile := replayProfile "second" second }]

/-- All the traces are replayed. -/
def replaysExecution : Execution where
  clock := 0
  remainingTime := -1
  answers := List.replicate 3 {}

def replaysContext : TaskContext where
  regexMatch := fun _ _ => false
  profileAt := fun _ => .error ""

/-- The job of the sequence waits on the only machine. -/
def replayingJob : Sim :=
  { start loneHost with
    job := fun _ =>
      { Job.new loneJobDescription
          { name := "replays", type := .sequence
            profileSequence := [⟨"first", .smpi⟩, ⟨"second", .smpi⟩] } with
        state := .submitted }
    data := { nbSubmittedJobs := 1 } }

theorem replays_of_one_rank_placed :
    ReplaysPlaced loneJob 1 [0] [] (replayedRanks
      (BatTask.execute replaysContext 2 (replaysTask ["a"] ["b"]) replaysExecution).2.2.started) := by
  obtain ⟨s', hserver, -⟩ := exists_of_succeedsWith (P := fun _ => true)
    (x := serverOnExecuteJob loneHost replayingJob (onLoneMachine.scheduled loneJobPtr))
    (by decide +kernel)
  have hreplays : (replayingJob.job loneJobPtr).profile.Replays :=
    .inr (.inr ⟨rfl, _, List.mem_cons_self, .inl rfl⟩)
  refine (replays_placed_iff_one_number (by decide) hserver hreplays (by decide +kernel)
    replaysContext 2 (replaysTask ["a"] ["b"]) replaysExecution).mpr ⟨1, ?_⟩
  decide +kernel

/-- The mapping of the first replay, with one rank, does not fit the second one, with two ranks. -/
theorem second_replay_refused :
    ¬ ∀ (cfg : Config) (s s' : Sim) (p : JobPtr) (a : TaskAllocation) (hosts : List Nat)
      (ctx : TaskContext) (depth : Nat) (task : BatTask) (e : Execution), 0 < a.machineIds.size →
      serverOnExecuteJob cfg s (a.scheduled p) = .ok s' → (s.job p).profile.Replays →
      jobHosts s.machines a = .ok hosts →
      ReplaysPlaced p.id (s.job p).requestedNbRes hosts []
        (replayedRanks (BatTask.execute ctx depth task e).2.2.started) := by
  intro hall
  obtain ⟨s', hserver, -⟩ := exists_of_succeedsWith (P := fun _ => true)
    (x := serverOnExecuteJob loneHost replayingJob (onLoneMachine.scheduled loneJobPtr))
    (by decide +kernel)
  have hreplays : (replayingJob.job loneJobPtr).profile.Replays :=
    .inr (.inr ⟨rfl, _, List.mem_cons_self, .inl rfl⟩)
  have hplaced := hall loneHost replayingJob s' loneJobPtr onLoneMachine [0] replaysContext 2
    (replaysTask ["a"] ["b", "c"]) replaysExecution (by decide) hserver hreplays
    (by decide +kernel)
  have hranks : replayedRanks (BatTask.execute replaysContext 2 (replaysTask ["a"] ["b", "c"])
      replaysExecution).2.2.started = [1, 2] := by decide +kernel
  rw [hranks] at hplaced
  obtain ⟨placements, hrun, -⟩ := hplaced
  have herror : executeReplays loneJob 1 [0] [] [1, 2] =
      .error ("Invalid job " ++ loneJob.toString ++ ": SMPI ranks_to_host mapping has an invalid" ++
        " size, as it should use 2 MPI ranks but the ranking states that there are 1 ranks.") := by
    decide +kernel
  cases hrun.symm.trans herror

end Batsim
