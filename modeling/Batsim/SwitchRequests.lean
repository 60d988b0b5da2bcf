import Mathlib.Algebra.GroupWithZero.Nat
import Batsim.Lib.Batches
import Batsim.Flows

/-!
The requests to switch machines: each machine that has reached its pstate is credited to the first
request that waits for it, and a request is acknowledged when it waits for no machine.
-/

namespace Batsim

open Checked Sim StepSystem

/-! ### Requests as batches -/

/-- A request as the batch of the machines that it still waits for. -/
def Switch.batch (s : Switch) : Batch IntervalSet Nat where
  name := s.allMachines
  waiting := s.switchingMachines.elements.toFinset

namespace IntervalSet

def toFinset (s : IntervalSet) : Finset Nat := s.elements.toFinset

theorem mem_toFinset {s : IntervalSet} {m : Nat} : m ∈ s.toFinset ↔ m ∈ s := by
  simp [toFinset]

theorem card_toFinset (s : IntervalSet) : s.toFinset.card = s.size :=
  List.toFinset_card_of_nodup s.nodup

theorem toFinset_remove (s : IntervalSet) (m : Nat) :
    (s.remove m).toFinset = s.toFinset.erase m := by
  ext n
  simp [mem_toFinset, and_comm]

end IntervalSet

namespace CurrentSwitches

variable {cs cs' : CurrentSwitches} {id : Nat} {pstate other : Int} {done : Option IntervalSet}

/-- The requests under way for a pstate, the oldest first. -/
def pending (cs : CurrentSwitches) (pstate : Int) : List (Batch IntervalSet Nat) :=
  ((cs.switches.lookup pstate).getD []).map Switch.batch

/-- The sum over the requests under way of the numbers of their machines still switching. -/
def nbSwitching (cs : CurrentSwitches) : Nat :=
  (cs.switches.entries.map fun e => (e.2.map fun s => s.switchingMachines.size).sum).sum

theorem markFirst_batch {list list' : List Switch} (h : markFirst id list = some (list', done)) :
    Batch.credit id (list.map Switch.batch) = some (list'.map Switch.batch, done) := by
  induction list generalizing list' with
  | nil => cases h
  | cons s list ih =>
    simp only [markFirst] at h
    have hmem : id ∈ s.batch.waiting ↔ id ∈ s.switchingMachines := IntervalSet.mem_toFinset
    split at h
    · next hid =>
      have hwaiting : s.batch.waiting.erase id = (s.switchingMachines.remove id).toFinset :=
        (IntervalSet.toFinset_remove _ _).symm
      rw [List.map_cons, Batch.credit, if_pos (hmem.mpr hid), hwaiting]
      split at h
      · next hsize =>
        cases h
        rw [if_pos]
        · rfl
        · rw [← Finset.card_eq_zero, IntervalSet.card_toFinset]
          exact hsize
      · next hsize =>
        cases h
        rw [if_neg]
        · rfl
        · rw [← Finset.card_eq_zero, IntervalSet.card_toFinset]
          exact hsize
    · next hid =>
      obtain ⟨⟨tail, done'⟩, htail, heq⟩ := Option.map_eq_some_iff.mp h
      cases heq
      rw [List.map_cons, Batch.credit, if_neg (fun hin => hid (hmem.mp hin)), ih htail]
      rfl

/-- Marking a switch as done credits the machine to the requests for its pstate. -/
theorem markSwitchAsDone_pending (h : cs.markSwitchAsDone id pstate = .ok (cs', done)) :
    Batch.credit id (cs.pending pstate) = some (cs'.pending pstate, done) ∧
      ∀ other, other ≠ pstate → cs'.pending other = cs.pending other := by
  unfold markSwitchAsDone at h
  cases hlookup : cs.switches.lookup pstate with
  | none => simp [hlookup] at h
  | some list =>
    simp only [hlookup] at h
    cases hmark : markFirst id list with
    | none => simp [hmark] at h
    | some r =>
      obtain ⟨list', done'⟩ := r
      have hcredit := markFirst_batch hmark
      rw [hmark] at h
      cases list' with
      | nil =>
        cases h
        refine ⟨?_, fun other hne => ?_⟩
        · simpa [pending, hlookup] using hcredit
        · simp [pending, AList.lookup_erase_ne hne]
      | cons s list' =>
        cases h
        refine ⟨?_, fun other hne => ?_⟩
        · simpa [pending, hlookup] using hcredit
        · simp [pending, AList.lookup_insert_ne hne]

theorem addSwitch_pending (cs : CurrentSwitches) (ids : IntervalSet) (pstate other : Int) :
    (cs.addSwitch ids pstate).pending other =
      cs.pending other ++ if other = pstate then [⟨ids, ids.toFinset⟩] else [] := by
  unfold addSwitch
  cases hlookup : cs.switches.lookup pstate with
  | none =>
    by_cases hother : other = pstate
    · subst hother
      simp [pending, hlookup, Switch.batch, IntervalSet.toFinset]
    · simp [pending, AList.lookup_insert_ne hother, hother]
  | some list =>
    by_cases hother : other = pstate
    · subst hother
      simp [pending, hlookup, Switch.batch, IntervalSet.toFinset]
    · simp [pending, AList.lookup_insert_ne hother, hother]

/-! ### The number of machines still switching -/

/-- A sum over the entries of a map, with one of them apart. -/
theorem sum_entries {α : Type} [DecidableEq α] {β : α → Type} (s : AList β)
    (f : Sigma β → Nat) (a : α) :
    (s.entries.map f).sum =
      ((s.lookup a).elim 0 fun b => f ⟨a, b⟩) + ((s.erase a).entries.map f).sum := by
  cases hlookup : s.lookup a with
  | none =>
    have hnot : a ∉ s.entries.keys := AList.lookup_eq_none.mp hlookup
    have herase : (s.erase a).entries = s.entries := List.kerase_of_notMem_keys hnot
    rw [herase]
    simp
  | some b =>
    have hmem : a ∈ s.entries.keys := by
      have hin : a ∈ s := AList.lookup_isSome.mp (by rw [hlookup]; rfl)
      exact hin
    obtain ⟨b', before, after, -, hsplit, herase⟩ := List.exists_of_kerase hmem
    have hb : b' = b := by
      have hmem' : (⟨a, b'⟩ : Sigma β) ∈ s.entries := by simp [hsplit]
      have hlookup' := AList.mem_lookup_iff.mpr hmem'
      rw [hlookup] at hlookup'
      exact (Option.some.inj hlookup').symm
    have herase : (s.erase a).entries = before ++ after := herase
    rw [hsplit, herase, hb]
    simp only [List.map_append, List.map_cons, List.sum_append, List.sum_cons, Option.elim_some]
    omega

theorem load_pending (cs : CurrentSwitches) (pstate : Int) :
    Batch.load (cs.pending pstate) =
      ((cs.switches.lookup pstate).elim 0 fun list =>
        (list.map fun s => s.switchingMachines.size).sum) := by
  have hload : ∀ list : List Switch, Batch.load (list.map Switch.batch) =
      (list.map fun s => s.switchingMachines.size).sum := by
    intro list
    rw [Batch.load, List.map_map]
    congr 1
    exact List.map_congr_left fun s _ => IntervalSet.card_toFinset s.switchingMachines
  rw [pending, hload]
  cases cs.switches.lookup pstate <;> rfl

/-- A change of the requests for one pstate. -/
theorem nbSwitching_of_erase (h : cs'.switches.erase pstate = cs.switches.erase pstate) :
    cs'.nbSwitching + Batch.load (cs.pending pstate) =
      cs.nbSwitching + Batch.load (cs'.pending pstate) := by
  rw [nbSwitching, nbSwitching, sum_entries cs'.switches _ pstate,
    sum_entries cs.switches _ pstate, h, load_pending, load_pending]
  dsimp only
  omega

theorem erase_insert (s : AList (fun _ : Int => List Switch)) (pstate : Int)
    (list : List Switch) : (s.insert pstate list).erase pstate = s.erase pstate := by
  refine AList.ext ?_
  have hinsert : ((s.insert pstate list).erase pstate).entries =
      List.kerase pstate (⟨pstate, list⟩ :: List.kerase pstate s.entries) := by
    rw [← AList.entries_insert]
    rfl
  exact hinsert.trans (List.kerase_cons_eq rfl)

theorem nbSwitching_addSwitch (cs : CurrentSwitches) (ids : IntervalSet) (pstate : Int) :
    (cs.addSwitch ids pstate).nbSwitching = cs.nbSwitching + ids.size := by
  have herase : (cs.addSwitch ids pstate).switches.erase pstate = cs.switches.erase pstate := by
    unfold addSwitch
    split <;> exact erase_insert _ _ _
  have hsum := nbSwitching_of_erase herase
  rw [addSwitch_pending, if_pos rfl] at hsum
  simp only [Batch.load, List.map_append, List.map_singleton, List.sum_append, List.sum_singleton,
    IntervalSet.card_toFinset] at hsum
  omega

theorem nbSwitching_markSwitchAsDone (h : cs.markSwitchAsDone id pstate = .ok (cs', done)) :
    cs.nbSwitching = cs'.nbSwitching + 1 := by
  have hload := Batch.load_credit (markSwitchAsDone_pending h).1
  have herase : cs'.switches.erase pstate = cs.switches.erase pstate := by
    unfold markSwitchAsDone at h
    repeat' split at h
    all_goals cases h
    · refine AList.ext (List.kerase_of_notMem_keys ?_)
      exact List.notMem_keys_kerase pstate cs.switches.nodupKeys
    · exact erase_insert _ _ _
  have hsum := nbSwitching_of_erase herase
  omega

end CurrentSwitches

/-! ### What is requested and acknowledged -/

/-- The set of machines, if the message requests that they switch to the pstate. -/
def IPMessage.requestsSwitch? (pstate : Int) : IPMessage → Option IntervalSet
  | pstateModification ids p => if p = pstate then some ids else none
  | _ => none

/-- The set of machines, if the event tells that they have switched to the pstate. -/
def ProtocolEvent.switched? (pstate : Int) : ProtocolEvent → Option IntervalSet
  | resourceStateChanged ids state => if state = toString pstate then some ids else none
  | _ => none

namespace Sim

/-- The requests for a pstate that were handled, in order. -/
def requested (s : Sim) (pstate : Int) : List IntervalSet :=
  s.history.handled.filterMap (IPMessage.requestsSwitch? pstate)

/-- The requests for a pstate that were acknowledged, in order. -/
def acknowledged (s : Sim) (pstate : Int) : List IntervalSet :=
  s.history.appended.filterMap fun e => e.event.switched? pstate

/-- Nothing changed about the requests to switch. -/
structure SameSwitches (s s' : Sim) : Prop where
  currentSwitches : s'.currentSwitches = s.currentSwitches
  acknowledged : ∀ pstate, s'.acknowledged pstate = s.acknowledged pstate

theorem SameSwitches.refl (s : Sim) : SameSwitches s s := ⟨rfl, fun _ => rfl⟩

theorem SameSwitches.trans {s s' s'' : Sim} (h : SameSwitches s s') (h' : SameSwitches s' s'') :
    SameSwitches s s'' :=
  ⟨h'.currentSwitches.trans h.currentSwitches,
    fun pstate => (h'.acknowledged pstate).trans (h.acknowledged pstate)⟩

theorem acknowledged_logged (s : Sim) (e : ProtocolEvent) (pstate : Int) :
    (s.logged e).acknowledged pstate = s.acknowledged pstate ++ (e.switched? pstate).toList := by
  cases he : e.switched? pstate <;> simp [acknowledged, logged, he]

theorem sameSwitches_logged (s : Sim) {e : ProtocolEvent}
    (he : ∀ pstate, e.switched? pstate = none) : SameSwitches s (s.logged e) :=
  ⟨rfl, fun pstate => by simp [acknowledged_logged, he]⟩

theorem sameSwitches_append {s s' : Sim} {e : ProtocolEvent} (h : s.append e = .ok s')
    (he : ∀ pstate, e.switched? pstate = none) : SameSwitches s s' := by
  obtain ⟨-, rfl⟩ := append_eq_ok.mp h
  exact sameSwitches_logged s he

theorem sameSwitches_completeJob (s : Sim) (p : JobPtr) : SameSwitches s (s.completeJob p) := by
  have hcount : SameSwitches s (s.endRunning.countCompleted p) := ⟨rfl, fun _ => rfl⟩
  have hlog := sameSwitches_logged (s.endRunning.countCompleted p) (e := s.completionOf p)
    fun _ => rfl
  exact (hcount.trans hlog).trans ⟨rfl, fun _ => rfl⟩

end Sim

/-- The messages about switches. -/
def IPMessage.touchesSwitches : IPMessage → Bool
  | pstateModification _ _ | switchedOn _ _ | switchedOff _ _ => true
  | _ => false

theorem submitJob_sameSwitches {cfg : Config} {submitter : Submitter} {s s' : Sim} {p : JobPtr}
    (h : submitJob cfg submitter s p = .ok s') : SameSwitches s s' := by
  obtain ⟨-, job, profile, rfl⟩ := submitJob_effect h
  have hsubmit : SameSwitches s (s.submit submitter p) := by
    unfold submit track noteResubmission
    split <;> split <;> exact ⟨rfl, fun _ => rfl⟩
  exact hsubmit.trans (sameSwitches_logged _ fun _ => rfl)

theorem occur_sameSwitches {s s' : Sim} {e : ExternalEvent} (h : occur s e = .ok s') :
    SameSwitches s s' := by
  have hset : ∀ {make : Sim → Nat → Except String Sim} {ids : List Nat} {t : Sim},
      make = makeAvailable ∨ make = makeUnavailable → forEach make s ids = .ok t →
        SameSwitches s t := by
    intro make ids t hmake hrun
    refine forEach_preserves (P := fun t => SameSwitches s t) (.refl s) ?_ hrun
    rintro id - t t' ht hstep
    obtain rfl | rfl := hmake
    · obtain ⟨_, machines, -, -, -, rfl⟩ := makeAvailable_effect hstep
      exact ht.trans ⟨rfl, fun _ => rfl⟩
    · obtain ⟨_, machines, -, -, -, rfl⟩ := makeUnavailable_effect hstep
      exact ht.trans ⟨rfl, fun _ => rfl⟩
  unfold occur at h
  cases he : e.data with
  | machineAvailable ids =>
    simp only [he, serverOnEventMachineAvailable] at h
    split at h
    · obtain ⟨t, ht, happend⟩ := bind_eq_ok.mp h
      exact (hset (.inl rfl) ht).trans (sameSwitches_append happend fun _ => rfl)
    · cases h
      exact .refl s
  | machineUnavailable ids =>
    simp only [he, serverOnEventMachineUnavailable] at h
    split at h
    · obtain ⟨t, ht, happend⟩ := bind_eq_ok.mp h
      exact (hset (.inr rfl) ht).trans (sameSwitches_append happend fun _ => rfl)
    · cases h
      exact .refl s
  | generic json =>
    simp only [he] at h
    exact sameSwitches_append h fun _ => rfl

theorem serverOnSubmitterBye_sameSwitches {s s' : Sim} {name : String} {type : SubmitterType}
    {isWorkflow : Bool} (h : serverOnSubmitterBye s name type isWorkflow = .ok s') :
    SameSwitches s s' := by
  simp only [serverOnSubmitterBye, bind_eq_ok] at h
  obtain ⟨_, -, h⟩ := h
  generalize hs₁ : ({ s with data := _ } : Sim) = s₁ at h
  have hfirst : SameSwitches s s₁ := by
    subst hs₁
    exact ⟨rfl, fun _ => rfl⟩
  have hnotify : ∀ {b : Bool} {e : String} {t : Sim},
      (if b = true then s₁.append (.notify e) else .ok s₁) = .ok t → SameSwitches s₁ t := by
    intro b e t ht
    split at ht
    · exact sameSwitches_append ht fun _ => rfl
    · cases ht
      exact .refl s₁
  cases type with
  | eventSubmitter => exact hfirst.trans (hnotify h)
  | jobSubmitter =>
    obtain ⟨t, ht, heq⟩ := bind_eq_ok.mp h
    refine hfirst.trans ((hnotify ht).trans ?_)
    cases heq
    split <;> exact ⟨rfl, fun _ => rfl⟩

/-- The other messages change nothing about the requests to switch. -/
theorem handleMessage_sameSwitches {cfg : Config} {s s' : Sim} {m : IPMessage}
    (hm : m.touchesSwitches = false) (h : handleMessage cfg s m = .ok s') : SameSwitches s s' := by
  cases m with
  | pstateModification | switchedOn | switchedOff => cases hm
  | jobSubmitted name jobs =>
    obtain rfl | ⟨submitter, -, hrun⟩ := serverOnJobSubmitted_effect h
    · exact .refl _
    · refine forEach_preserves (P := fun t => SameSwitches s t) (.refl s) ?_ hrun
      rintro p - t t' ht hstep
      exact ht.trans (submitJob_sameSwitches hstep)
  | jobRegisteredByDP p =>
    obtain rfl | ⟨job, profile, rfl⟩ := serverOnRegisterJob_effect h
    · exact ⟨rfl, fun _ => rfl⟩
    · have hcount : SameSwitches s (s.countSubmitted p) := ⟨rfl, fun _ => rfl⟩
      exact hcount.trans (sameSwitches_logged _ fun _ => rfl)
  | profileRegisteredByDP _ _ =>
    cases h
    exact .refl s
  | jobCompleted p =>
    obtain ⟨submitter, -, rfl⟩ | ⟨-, hcount⟩ := serverOnJobCompleted_effect h
    · exact ⟨rfl, fun _ => rfl⟩
    · obtain ⟨-, -, rfl⟩ := countJobCompletion_effect hcount
      exact sameSwitches_completeJob s p
  | schedExecuteJob a =>
    obtain ⟨-, -, -, rfl⟩ := serverOnExecuteJob_effect h
    exact ⟨rfl, fun _ => rfl⟩
  | schedChangeJobState id state =>
    obtain ⟨p, -, -, -, -, rfl⟩ := serverOnChangeJobState_effect h
    exact ⟨rfl, fun _ => rfl⟩
  | toJobMsg _ _ =>
    obtain ⟨p, -, heq⟩ := bind_eq_ok.mp h
    cases heq
    exact ⟨rfl, fun _ => rfl⟩
  | fromJobMsg _ _ =>
    obtain ⟨p, -, happend⟩ := bind_eq_ok.mp h
    exact sameSwitches_append happend fun _ => rfl
  | schedRejectJob id =>
    obtain ⟨p, -, -, rfl⟩ := serverOnRejectJob_effect h
    exact ⟨rfl, fun _ => rfl⟩
  | schedKillJob ids =>
    obtain ⟨t, toKill, ht, rfl⟩ := serverOnKillJobs_effect h
    have hloop : SameSwitches s (t, toKill).1 := by
      refine forEach_preserves (P := fun acc : Sim × List JobIdentifier => SameSwitches s acc.1)
        (.refl s) ?_ ht
      rintro id - u u' hu hstep
      obtain ⟨p, -, ⟨-, rfl⟩ | ⟨-, -, rfl⟩⟩ := requestKill_effect hstep
      · exact hu
      · exact hu.trans ⟨rfl, fun _ => rfl⟩
    refine hloop.trans ?_
    unfold launchKiller
    split <;> exact ⟨rfl, fun _ => rfl⟩
  | schedCallMeLater date =>
    obtain ⟨-, rfl⟩ := serverOnCallMeLater_effect h
    exact ⟨rfl, fun _ => rfl⟩
  | schedTellMeEnergy | schedTellMeCarbonFootprint | schedTellMeWaterFootprint =>
    obtain ⟨_, -, happend⟩ := bind_eq_ok.mp h
    exact sameSwitches_append happend fun _ => rfl
  | schedSetJobMetadata _ _ =>
    obtain ⟨p, -, heq⟩ := bind_eq_ok.mp h
    cases heq
    exact ⟨rfl, fun _ => rfl⟩
  | schedReady =>
    cases h
    exact ⟨rfl, fun _ => rfl⟩
  | waitingDone =>
    obtain ⟨t, ht, heq⟩ := bind_eq_ok.mp h
    cases heq
    exact (sameSwitches_append ht fun _ => rfl).trans ⟨rfl, fun _ => rfl⟩
  | killingDone ids acknowledge =>
    obtain ⟨t, ht, rfl⟩ := serverOnKillingDone_effect h
    have hloop : SameSwitches s t := by
      refine forEach_preserves (P := fun t => SameSwitches s t) (.refl s) ?_ ht
      rintro id - u u' hu hstep
      obtain ⟨p, -, ⟨-, rfl⟩ | ⟨-, -, rfl⟩⟩ := countKilledJob_effect hstep
      · exact hu
      · have hnote : SameSwitches u (u.noteCountedKilled p) := ⟨rfl, fun _ => rfl⟩
        exact hu.trans (hnote.trans (sameSwitches_completeJob _ p))
    refine hloop.trans ?_
    cases acknowledge with
    | true => exact (sameSwitches_logged t fun _ => rfl).trans ⟨rfl, fun _ => rfl⟩
    | false => exact ⟨rfl, fun _ => rfl⟩
  | submitterHello _ _ _ =>
    obtain ⟨_, -, hrest⟩ := bind_eq_ok.mp h
    obtain ⟨_, -, heq⟩ := bind_eq_ok.mp hrest
    cases heq
    exact ⟨rfl, fun _ => rfl⟩
  | submitterBye _ _ _ => exact serverOnSubmitterBye_sameSwitches h
  | endDynamicRegister | continueDynamicRegister =>
    cases h
    exact ⟨rfl, fun _ => rfl⟩
  | eventOccurred name events =>
    have hrun : forEach occur s events = .ok s' := h
    refine forEach_preserves (P := fun t => SameSwitches s t) (.refl s) ?_ hrun
    rintro e - t t' ht hstep
    exact ht.trans (occur_sameSwitches hstep)

theorem endOfTurn_sameSwitches {cfg : Config} {s s' : Sim} (h : endOfTurn cfg s = .ok s') :
    SameSwitches s s' := by
  obtain rfl | ⟨workloads, hflush⟩ | hfinish := endOfTurn_cases h
  · exact ⟨rfl, fun _ => rfl⟩
  · rw [hflush.eq]
    exact ⟨rfl, fun _ => rfl⟩
  · rw [hfinish.eq]
    exact (sameSwitches_logged s fun _ => rfl).trans ⟨rfl, fun _ => rfl⟩

end Batsim
