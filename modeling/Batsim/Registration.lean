import Batsim.JobStore
import Batsim.Simulation

/-!
The job objects that a store holds and has held, across its workloads.
-/

namespace Batsim

open Checked

namespace Workloads

/-- The job object is in memory. -/
def Stored (ws : Workloads) (p : JobPtr) : Prop :=
  ∃ wl, ws.workloads.lookup p.workload = some wl ∧ wl.jobs.jobs.lookup p.id = some p

/-- The identifier of the job object has been used in its workload. -/
def Met (ws : Workloads) (p : JobPtr) : Prop :=
  ∃ wl, ws.workloads.lookup p.workload = some wl ∧ p.id ∈ wl.jobs.jobsMet

/-- Every workload stores job objects of its own. -/
def Owned (ws : Workloads) : Prop :=
  ∀ name wl id p, ws.workloads.lookup name = some wl → wl.jobs.jobs.lookup id = some p →
    p.workload = name

theorem Stored.met {ws : Workloads} {p : JobPtr} (h : ws.Stored p) : ws.Met p := by
  obtain ⟨wl, hwl, hp⟩ := h
  exact ⟨wl, hwl, wl.jobs.met_of_lookup _ _ hp⟩

/-- The object that the whole program means by an identifier. -/
def ptr (id : JobIdentifier) : JobPtr := ⟨id.workloadName, id⟩

@[simp] theorem ptr_id (id : JobIdentifier) : (ptr id).id = id := rfl

theorem Owned.jobAt_eq_ok {ws : Workloads} (h : ws.Owned) {id : JobIdentifier} {p : JobPtr} :
    ws.jobAt id = .ok p ↔ p = ptr id ∧ ws.Stored p := by
  rw [Workloads.jobAt_eq_ok]
  constructor
  · rintro ⟨wl, hwl, hp⟩
    have hptr : p = ptr id := by
      have hid := wl.jobs.id_of_lookup id p hp
      have hname := h _ _ _ _ hwl hp
      rw [ptr, ← hname, ← hid]
    exact ⟨hptr, wl, by rw [hptr]; exact hwl, by rw [hptr] at hp ⊢; exact hp⟩
  · rintro ⟨rfl, wl, hwl, hp⟩
    exact ⟨wl, hwl, hp⟩

theorem Owned.jobAt_ptr {ws : Workloads} (h : ws.Owned) {id : JobIdentifier} {p : JobPtr}
    (hp : ws.jobAt id = .ok p) : p = ptr id :=
  (h.jobAt_eq_ok.mp hp).1

/-- The store `ws'` is `ws` with the new job object, if any. -/
structure Registers (ws ws' : Workloads) (new : Option JobPtr) : Prop where
  owned : ws.Owned → ws'.Owned
  stored : ∀ p, ws'.Stored p ↔ ws.Stored p ∨ new = some p
  met : ∀ p, ws'.Met p ↔ ws.Met p ∨ new = some p
  fresh : ∀ p, new = some p → ¬ ws.Met p

theorem Registers.refl (ws : Workloads) : Registers ws ws none :=
  ⟨id, by simp, by simp, by simp⟩

/-- Replacing a workload by one with the same jobs, or adding one without jobs. -/
theorem registers_set {ws : Workloads} {name : String} {wl : Workload}
    (h : ∀ old, ws.workloads.lookup name = some old → wl.jobs = old.jobs)
    (hnew : ws.workloads.lookup name = none → wl.jobs = .empty) :
    Registers ws (ws.set name wl) none := by
  have hjobs : ∀ n (P : Jobs → Prop), ¬ P .empty →
      ((∃ w, (ws.set name wl).workloads.lookup n = some w ∧ P w.jobs) ↔
        ∃ w, ws.workloads.lookup n = some w ∧ P w.jobs) := by
    intro n P hP
    rw [lookup_set]
    by_cases hn : n = name
    · subst hn
      cases hold : ws.workloads.lookup n with
      | none => simp [hnew hold, hP]
      | some old => simp [h old hold]
    · simp [hn]
  refine ⟨?_, fun p => ?_, fun p => ?_, by simp⟩
  · intro howned n w id p hw hp
    by_cases hn : n = name
    · subst hn
      rw [lookup_set, if_pos rfl, Option.some.injEq] at hw
      subst hw
      cases hold : ws.workloads.lookup n with
      | none => simp [hnew hold, Jobs.empty] at hp
      | some old => exact howned n old id p hold (h old hold ▸ hp)
    · rw [lookup_set, if_neg hn] at hw
      exact howned n w id p hw hp
  · simpa [Stored] using
      hjobs p.workload (fun js => js.jobs.lookup p.id = some p) (by simp [Jobs.empty])
  · simpa [Met] using hjobs p.workload (fun js => p.id ∈ js.jobsMet) (by simp [Jobs.empty])

/-- Adding a job to a workload. -/
theorem registers_addJob {ws : Workloads} {p : JobPtr} {wl : Workload} {jobs : Jobs}
    {profiles : Profiles} (hwl : ws.workloads.lookup p.workload = some wl)
    (hadd : wl.jobs.addJob p = .ok jobs) :
    Registers ws (ws.set p.workload { wl with jobs := jobs, profiles := profiles }) (some p) := by
  obtain ⟨hmet, rfl⟩ := Jobs.addJob_eq_ok.mp hadd
  refine ⟨?_, fun q => ?_, fun q => ?_, ?_⟩
  · intro howned n w id q hw hq
    by_cases hn : n = p.workload
    · subst hn
      rw [lookup_set, if_pos rfl, Option.some.injEq] at hw
      subst hw
      rw [Jobs.lookup_insert] at hq
      split at hq
      · rw [Option.some.injEq] at hq
        rw [← hq]
      · exact howned _ wl id q hwl hq
    · rw [lookup_set, if_neg hn] at hw
      exact howned n w id q hw hq
  · simp only [Stored, lookup_set, Option.some.injEq]
    obtain ⟨w, id⟩ := q
    by_cases hn : w = p.workload
    · subst hn
      simp only [if_true, Option.some.injEq, exists_eq_left', Jobs.lookup_insert, hwl]
      by_cases hid : id = p.id
      · subst hid
        simp
      · have hpq : p ≠ ⟨p.workload, id⟩ := fun h => hid (by rw [h])
        simp [hid, hpq]
    · have hpq : p ≠ ⟨w, id⟩ := fun h => hn (by rw [h])
      simp [hn, hpq]
  · simp only [Met, lookup_set, Option.some.injEq]
    obtain ⟨w, id⟩ := q
    by_cases hn : w = p.workload
    · subst hn
      simp only [if_true, Option.some.injEq, exists_eq_left', Jobs.jobsMet_insert, List.mem_cons,
        hwl]
      have hpq : p = ⟨p.workload, id⟩ ↔ id = p.id :=
        ⟨fun h => by rw [h], fun h => by rw [h]⟩
      rw [hpq, or_comm]
    · have hpq : p ≠ ⟨w, id⟩ := fun h => hn (by rw [h])
      simp [hn, hpq]
  · intro q hq ⟨w, hw, hmem⟩
    rw [Option.some.injEq] at hq
    subst hq
    rw [hwl, Option.some.injEq] at hw
    exact hmet (hw ▸ hmem)

/-- What deleting jobs does to the store: nothing but forget them. -/
theorem deleteJobs_effect {job : JobPtr → Job} {ws ws' : Workloads} {ids : List JobIdentifier}
    {gc : Bool} (h : ws.deleteJobs job ids gc = .ok ws') (howned : ws.Owned) :
    ws'.Owned ∧ (∀ p, ws'.Stored p ↔ ws.Stored p ∧ (∀ id ∈ ids, p ≠ ptr id)) ∧
      ∀ p, ws'.Met p ↔ ws.Met p := by
  refine forEach_invariant (fun done t => t.Owned ∧
    (∀ p, t.Stored p ↔ ws.Stored p ∧ (∀ id ∈ done, p ≠ ptr id)) ∧ ∀ p, t.Met p ↔ ws.Met p)
    ⟨howned, by simp, by simp⟩ ?_ h
  rintro done id - t t' - ⟨hown, hstored, hmet⟩ hdel
  simp only [bind_eq_ok, at?_eq_ok, Except.ok.injEq] at hdel
  obtain ⟨wl, hwl, wl', hdelete, rfl⟩ := hdel
  obtain ⟨-, hjobs, -, -⟩ := Workload.deleteJob_cases hdelete
  refine ⟨?_, fun p => ?_, fun p => ?_⟩
  · intro n w id' q hw hq
    by_cases hn : n = id.workloadName
    · subst hn
      rw [lookup_set, if_pos rfl, Option.some.injEq] at hw
      subst hw
      rw [hjobs, Jobs.lookup_erase] at hq
      split at hq
      · cases hq
      · exact hown _ wl id' q hwl hq
    · rw [lookup_set, if_neg hn] at hw
      exact hown n w id' q hw hq
  · have hone : (t.set id.workloadName wl').Stored p ↔ t.Stored p ∧ p ≠ ptr id := by
      simp only [Stored, lookup_set]
      obtain ⟨w, id'⟩ := p
      by_cases hn : w = id.workloadName
      · subst hn
        simp only [if_true, Option.some.injEq, exists_eq_left', hjobs, Jobs.lookup_erase, hwl]
        have hptr : (⟨id.workloadName, id'⟩ : JobPtr) = ptr id ↔ id' = id := by simp [ptr]
        rw [Ne, hptr]
        by_cases hid : id' = id <;> simp [hid]
      · have hne : (⟨w, id'⟩ : JobPtr) ≠ ptr id := fun h => hn (congrArg JobPtr.workload h)
        simp [hn, hne]
    rw [hone, hstored]
    simp only [List.mem_append, List.mem_singleton, or_imp, forall_and, forall_eq, and_assoc]
  · have hone : (t.set id.workloadName wl').Met p ↔ t.Met p := by
      simp only [Met, lookup_set]
      obtain ⟨w, id'⟩ := p
      by_cases hn : w = id.workloadName
      · subst hn
        simp [hjobs, hwl]
      · simp [hn]
    rw [hone, hmet]

end Workloads

end Batsim
