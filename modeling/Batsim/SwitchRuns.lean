import Mathlib
import Batsim.SwitchRequests

/-!
The books of the switches over whole runs: what is pending, what is acknowledged, and when.
-/

namespace Batsim

open Checked Sim StepSystem

/-! ### Switches under way -/

/-- The machine and the target of a switch that an actor carries out. -/
def Thread.switch? : Thread → Option (Nat × Int)
  | switchOn id pstate | switchingOn id pstate => some (id, pstate)
  | switchOff id pstate | switchingOff id pstate => some (id, pstate)
  | _ => none

/-- The switch whose end is told. -/
def IPMessage.switched? : IPMessage → Option (Nat × Int)
  | switchedOn id pstate | switchedOff id pstate => some (id, pstate)
  | _ => none

/-- A switch is under way until its end is handled. -/
theorem switch_flow : Flow Thread.switch? IPMessage.switched? := by
  refine .of_others ?_ ?_ ?_ (fun _ => rfl) (fun _ _ => rfl) ?_ ?_
  · intro t ht
    cases t <;> first | rfl | cases ht
  · intro t ht
    cases t <;> first | rfl | cases ht
  · intro m hm
    cases m <;> first | rfl | cases hm
  · intro t m sender hreader hactor hputs
    cases hputs with
    | firstReply | reply => cases hreader
    | completed _ a ha | fromJob _ a _ ha =>
      rw [hactor] at ha
      cases ha
    | waited _ hw => cases t <;> first | rfl | cases hw
    | _ => rfl
  · intro t u hreader hactor hwaits
    cases hwaits with
    | reply _ _ _ hor => obtain ⟨_, rfl⟩ | ⟨_, rfl⟩ := hor <;> cases hreader
    | leaf _ a _ ha =>
      rw [hactor] at ha
      cases ha
    | _ => rfl

namespace Sim

/-- The switches under way: their actor lives, or its last message is on its way. -/
def switching (s : Sim) : Multiset (Nat × Int) :=
  s.pool.labels Thread.switch? IPMessage.switched?

/-- The machine has the pstate. -/
def machineAt (s : Sim) (pstate : Int) (id : Nat) : Prop :=
  ∃ m ∈ s.machines.machines[id]?, (m.hostPstate : Int) = pstate

end Sim

/-! ### The books -/

/-- The books, when the machines of `todo` have been requested to switch and nothing was done about
it yet. `requested` are the requests so far. -/
structure Books (requested : Int → List IntervalSet)
    (Since : Int → IntervalSet → Nat → Nat → Prop) (todo : List (Nat × Int)) (s : Sim) :
    Prop where
  nbSwitching : (s.currentSwitches.nbSwitching : Int) = s.data.nbSwitchingMachines + todo.length
  waits : ∀ id pstate, Batch.waits id (s.currentSwitches.pending pstate) =
    (s.switching + (todo : Multiset (Nat × Int))).count (id, pstate)
  requests : ∀ pstate, (requested pstate).Perm
    (s.acknowledged pstate ++ (s.currentSwitches.pending pstate).map Batch.name)
  ledger : ∀ pstate, Batch.Ledger IntervalSet.toFinset (Since pstate)
    (s.currentSwitches.pending pstate) (s.acknowledged pstate)

namespace Books

variable {requested : Int → List IntervalSet} {Since : Int → IntervalSet → Nat → Nat → Prop}
  {todo : List (Nat × Int)} {s s' : Sim}

theorem mono {Since' : Int → IntervalSet → Nat → Nat → Prop} (h : Books requested Since todo s)
    (himp : ∀ pstate k n a, Since pstate k n a → Since' pstate k n a) :
    Books requested Since' todo s :=
  ⟨h.nbSwitching, h.waits, h.requests, fun pstate => (h.ledger pstate).mono (himp pstate)⟩

theorem of_same (h : Books requested Since todo s) (hsame : SameSwitches s s')
    (hnb : s'.data.nbSwitchingMachines = s.data.nbSwitchingMachines)
    (hswitching : s'.switching = s.switching) : Books requested Since todo s' where
  nbSwitching := by
    rw [hsame.currentSwitches, hnb]
    exact h.nbSwitching
  waits := by
    rw [hsame.currentSwitches, hswitching]
    exact h.waits
  requests pstate := by
    rw [hsame.currentSwitches, hsame.acknowledged]
    exact h.requests pstate
  ledger pstate := by
    rw [hsame.currentSwitches, hsame.acknowledged]
    exact h.ledger pstate

/-- The number of the requests of one name. -/
theorem count_requested (h : Books requested Since todo s) (pstate : Int) (k : IntervalSet) :
    (requested pstate).count k = (s.acknowledged pstate).count k +
      Batch.countName k (s.currentSwitches.pending pstate) := by
  rw [(h.requests pstate).count_eq, List.count_append, Batch.countName, List.count,
    List.countP_map]
  rfl

/-- A request comes. -/
theorem come {ids : IntervalSet} {target : Int} (h : Books requested Since [] s)
    (hids : ids.elements ≠ []) (machines : Machines) :
    Books (fun pstate => requested pstate ++ if pstate = target then [ids] else []) Since
      (ids.elements.map fun id => (id, target)) (s.requestSwitches machines ids target) where
  nbSwitching := by
    have hnb := h.nbSwitching
    simp only [requestSwitches, CurrentSwitches.nbSwitching_addSwitch, List.length_map,
      List.length_nil] at hnb ⊢
    rw [IntervalSet.size]
    omega
  waits id pstate := by
    have hwaits := h.waits id pstate
    have hcount : ((ids.elements.map fun id => (id, target) : List (Nat × Int)) :
        Multiset (Nat × Int)).count (id, pstate) = if pstate = target ∧ id ∈ ids then 1 else 0 := by
      have hnodup : (ids.elements.map fun id => (id, target)).Nodup :=
        ids.nodup.map fun a b hab => congrArg Prod.fst hab
      have hmem : (id, pstate) ∈ ((ids.elements.map fun id => (id, target) : List (Nat × Int)) :
          Multiset (Nat × Int)) ↔ pstate = target ∧ id ∈ ids := by
        simp only [Multiset.mem_coe, List.mem_map, Prod.mk.injEq]
        constructor
        · rintro ⟨_, hid, rfl, rfl⟩
          exact ⟨rfl, hid⟩
        · rintro ⟨rfl, hid⟩
          exact ⟨id, hid, rfl, rfl⟩
      rw [Multiset.count_eq_of_nodup (Multiset.coe_nodup.mpr hnodup), if_congr hmem rfl rfl]
    have hswitching : (s.requestSwitches machines ids target).switching = s.switching := rfl
    rw [Multiset.count_add, hcount, hswitching]
    simp only [requestSwitches, CurrentSwitches.addSwitch_pending, Batch.waits,
      List.countP_append, Multiset.coe_nil, add_zero] at hwaits ⊢
    rw [hwaits]
    by_cases hp : pstate = target
    · simp [hp, List.countP_cons, IntervalSet.mem_toFinset]
    · simp [hp]
  requests pstate := by
    have hack : (s.requestSwitches machines ids target).acknowledged pstate =
        s.acknowledged pstate := rfl
    rw [hack]
    simp only [requestSwitches, CurrentSwitches.addSwitch_pending, List.map_append]
    rw [← List.append_assoc]
    refine (h.requests pstate).append (.of_eq ?_)
    split <;> rfl
  ledger pstate := by
    have hack : (s.requestSwitches machines ids target).acknowledged pstate =
        s.acknowledged pstate := rfl
    rw [hack]
    simp only [requestSwitches, CurrentSwitches.addSwitch_pending]
    split
    · refine (h.ledger pstate).come fun hempty => hids ?_
      exact List.toFinset_eq_empty_iff _ |>.mp hempty
    · simpa using h.ledger pstate

/-- The end of a switch is credited to a request, which is acknowledged if it is over. -/
theorem credit {id : Nat} {target : Int} {switches : CurrentSwitches} {done : Option IntervalSet}
    (h : Books requested Since ((id, target) :: todo) s)
    (hmark : s.currentSwitches.markSwitchAsDone id target = .ok (switches, done))
    (hswitches : s'.currentSwitches = switches)
    (hack : ∀ pstate, s'.acknowledged pstate =
      s.acknowledged pstate ++ if pstate = target then done.toList else [])
    (hnb : s'.data.nbSwitchingMachines = s.data.nbSwitchingMachines)
    (hswitching : s'.switching = s.switching)
    (hreached : ∀ k n, n ≤ (requested target).count k → Since target k n id) :
    Books requested Since todo s' := by
  obtain ⟨hcredit, hother⟩ := CurrentSwitches.markSwitchAsDone_pending hmark
  subst hswitches
  refine ⟨?_, fun m pstate => ?_, fun pstate => ?_, fun pstate => ?_⟩
  · have hsum := CurrentSwitches.nbSwitching_markSwitchAsDone hmark
    have hold := h.nbSwitching
    rw [List.length_cons] at hold
    rw [hnb]
    omega
  · have hold := h.waits m pstate
    rw [← Multiset.cons_coe, Multiset.add_cons, Multiset.count_cons,
      if_congr Prod.mk_inj rfl rfl] at hold
    rw [hswitching]
    by_cases hp : pstate = target
    · subst hp
      have hwaits := Batch.waits_credit hcredit m
      simp only [and_true] at hold
      omega
    · rw [if_neg fun hand => hp hand.2] at hold
      rw [hother pstate hp]
      exact hold
  · rw [hack]
    by_cases hp : pstate = target
    · subst hp
      rw [if_pos rfl, List.append_assoc]
      exact (h.requests pstate).trans ((Batch.names_credit hcredit).symm.append_left _)
    · rw [if_neg hp, List.append_nil, hother pstate hp]
      exact h.requests pstate
  · rw [hack]
    by_cases hp : pstate = target
    · subst hp
      rw [if_pos rfl]
      refine (h.ledger pstate).credit hcredit fun k n hle => hreached k n ?_
      rwa [h.count_requested]
    · rw [if_neg hp, List.append_nil, hother pstate hp]
      exact h.ledger pstate

/-- An actor is launched to switch a machine. -/
theorem launch {id : Nat} {target : Int} {machines : Machines} {t : Thread}
    (h : Books requested Since ((id, target) :: todo) s) (ht : t.switch? = some (id, target)) :
    Books requested Since todo (s.launchSwitch machines t) where
  nbSwitching := by
    have hnb := h.nbSwitching
    simp only [launchSwitch, List.length_cons] at hnb ⊢
    push_cast at hnb
    omega
  waits m pstate := by
    have hpool : (s.launchSwitch machines t).pool = { s.pool with
        fresh := s.pool.fresh ++ [t], blocked := s.pool.blocked ++ [] } := by
      simp [launchSwitch, Pool.spawn]
    have hnew : ([t] ++ []).filterMap Thread.switch? = [(id, target)] := by simp [ht]
    rw [Sim.switching, Pool.labels_of_eq _ _ hpool, hnew, ← Sim.switching, Multiset.coe_singleton,
      add_assoc, Multiset.singleton_add, ← Multiset.add_cons, Multiset.cons_coe]
    exact h.waits m pstate
  requests := h.requests
  ledger := h.ledger

end Books

/-! ### Requests -/

theorem acknowledged_acknowledge (s : Sim) (target pstate : Int) (done : Option IntervalSet) :
    (s.acknowledge target done).acknowledged pstate =
      s.acknowledged pstate ++ if pstate = target then done.toList else [] := by
  cases done with
  | none => simp [acknowledge]
  | some all =>
    have hevent : (ProtocolEvent.resourceStateChanged all (toString target)).switched? pstate =
        if pstate = target then some all else none := by
      by_cases hp : pstate = target
      · subst hp
        simp [ProtocolEvent.switched?]
      · have hne : toString target ≠ toString pstate := fun heq =>
          hp (Int.repr_injective heq).symm
        rw [ProtocolEvent.switched?, if_neg hne, if_neg hp]
    rw [acknowledge, acknowledged_logged, hevent]
    split <;> rfl

/-- What an acknowledgement leaves as it was. -/
theorem acknowledge_frame (s : Sim) (target : Int) (done : Option IntervalSet) :
    (s.acknowledge target done).currentSwitches = s.currentSwitches ∧
      (s.acknowledge target done).data = s.data ∧ (s.acknowledge target done).pool = s.pool ∧
      (s.acknowledge target done).machines = s.machines := by
  cases done <;> exact ⟨rfl, rfl, rfl, rfl⟩

/-- A machine that is neither in transition nor asked to be. -/
def Machine.CanSwitch (m : Machine) (newPstate : Int) : Prop :=
  m.pstateType m.hostPstate ≠ .transitionVirtualPstate ∧
    m.pstateType newPstate ≠ .transitionVirtualPstate

instance (m : Machine) (newPstate : Int) : Decidable (m.CanSwitch newPstate) :=
  inferInstanceAs (Decidable (_ ∧ _))

/-- None of the machines would be refused. -/
def Sim.CanSwitch (s : Sim) (ids : List Nat) (newPstate : Int) : Prop :=
  ∀ id ∈ ids, ∀ m ∈ s.machines.machines[id]?, m.CanSwitch newPstate

instance (s : Sim) (ids : List Nat) (newPstate : Int) : Decidable (s.CanSwitch ids newPstate) :=
  inferInstanceAs (Decidable (∀ id ∈ ids, ∀ m ∈ s.machines.machines[id]?, m.CanSwitch newPstate))

/-- A turn of the loop touches its own machine only. -/
theorem switchMachine_other {newPstate : Int} {s s' : Sim} {id other : Nat}
    (h : switchMachine newPstate s id = .ok s') (hne : other ≠ id) :
    s'.machines.machines[other]? = s.machines.machines[other]? := by
  obtain ⟨m, hm, hor⟩ := switchMachine_effect h
  have hput : ∀ m', (s.machines.put id m').machines[other]? = s.machines.machines[other]? := by
    intro m'
    rw [Machines.getElem?_put hm, if_neg hne]
  have hupdate : ∀ {state : MachineState} {m' : Machine} {machines : Machines},
      (s.machines.put id m').updateMachineState id state s.clock = .ok machines →
        machines.machines[other]? = s.machines.machines[other]? := by
    intro state m' machines hmachines
    obtain ⟨_, -, -, hall⟩ := Machines.updateMachineState_cases hmachines
    rw [hall, if_neg hne, hput]
  obtain ⟨-, -, m', switches, done, -, -, rfl⟩ | ⟨-, -, machines, hmachines, rfl⟩ |
    ⟨-, -, machines, hmachines, rfl⟩ | ⟨-, rfl⟩ := hor
  · obtain ⟨-, -, -, hmachines⟩ :=
      acknowledge_frame (s.setSwitches (s.machines.put id m') switches) newPstate done
    rw [hmachines]
    exact hput m'
  · exact hupdate hmachines
  · exact hupdate hmachines
  · exact hput _

theorem switchMachines_other {newPstate : Int} {s s' : Sim} {ids : List Nat} {other : Nat}
    (h : forEach (switchMachine newPstate) s ids = .ok s') (hne : other ∉ ids) :
    s'.machines.machines[other]? = s.machines.machines[other]? :=
  forEach_unchanged (fun t : Sim => t.machines.machines[other]?)
    (fun _ hid _ _ hstep => switchMachine_other hstep fun heq => hne (heq ▸ hid)) h

namespace Books

variable {requested : Int → List IntervalSet} {Since : Int → IntervalSet → Nat → Nat → Prop}

/-- A turn of the loop: the machine reaches the pstate at once, or an actor is launched. -/
theorem switchMachine {todo : List (Nat × Int)} {s s' : Sim} {id : Nat} {target : Int}
    (h : Books requested Since ((id, target) :: todo) s)
    (hrun : switchMachine target s id = .ok s')
    (hcan : ∀ m ∈ s.machines.machines[id]?, m.CanSwitch target)
    (hreached : s'.machineAt target id →
      ∀ k n, n ≤ (requested target).count k → Since target k n id) :
    Books requested Since todo s' := by
  obtain ⟨m, hm, hor⟩ := switchMachine_effect hrun
  obtain ⟨-, -, m', switches, done, hset, hmark, rfl⟩ | ⟨-, -, machines, -, rfl⟩ |
    ⟨-, -, machines, -, rfl⟩ | ⟨hrefused, -⟩ := hor
  · obtain ⟨hswitches, hdata, hpool, hmachines⟩ :=
      acknowledge_frame (s.setSwitches (s.machines.put id m') switches) target done
    refine h.credit hmark hswitches (fun pstate => acknowledged_acknowledge _ target pstate done)
      (by rw [hdata]; rfl) (by rw [Sim.switching, hpool]; rfl) (hreached ?_)
    obtain ⟨⟨hpos, -⟩, rfl⟩ := Machine.setPstate_eq_ok.mp hset
    have hthere : (s.machines.put id
        { m.lookUp target with hostPstate := target.toNat }).machines[id]? =
          some { m.lookUp target with hostPstate := target.toNat } := by
      rw [Machines.getElem?_put hm, if_pos rfl]
    refine ⟨_, by rw [hmachines]; exact hthere, ?_⟩
    exact Int.toNat_of_nonneg hpos
  · exact h.launch rfl
  · exact h.launch rfl
  · obtain ⟨hcurrent, hnew⟩ := hcan m hm
    exact absurd hrefused (not_or.mpr ⟨hcurrent, hnew⟩)

/-- The loop: each machine of the request is switched or is being switched. -/
theorem switchMachines {s s' : Sim} {ids : List Nat} {target : Int} (hnodup : ids.Nodup)
    (h : Books requested Since (ids.map fun id => (id, target)) s)
    (hrun : forEach (Batsim.switchMachine target) s ids = .ok s')
    (hcan : s.CanSwitch ids target)
    (hreached : ∀ id, s'.machineAt target id →
      ∀ k n, n ≤ (requested target).count k → Since target k n id) :
    Books requested Since [] s' := by
  induction ids generalizing s with
  | nil =>
    cases hrun
    exact h
  | cons id ids ih =>
    obtain ⟨t, hstep, hrest⟩ := bind_eq_ok.mp hrun
    obtain ⟨hnot, hnodup⟩ := List.nodup_cons.mp hnodup
    refine ih hnodup ?_ hrest ?_
    · refine h.switchMachine hstep (hcan id (List.mem_cons_self ..)) fun hat => hreached id ?_
      -- the other turns leave the machine where it is
      obtain ⟨m, hm, hpstate⟩ := hat
      exact ⟨m, by rwa [switchMachines_other hrest hnot], hpstate⟩
    · intro other hother m hm
      rw [switchMachine_other hstep fun heq => hnot (heq ▸ hother)] at hm
      exact hcan other (List.mem_cons_of_mem id hother) m hm

/-- A request that would not be refused is taken. -/
theorem pstateModification {cfg : Config} {s s' : Sim} {ids : IntervalSet} {target : Int}
    (h : Books s.requested Since [] s)
    (hrun : serverOnPstateModification cfg s ids target = .ok s')
    (hcan : s.CanSwitch ids.elements target)
    (hreached : ∀ id, s'.machineAt target id → ∀ k n,
      n ≤ ((s'.noteHandled (.pstateModification ids target)).requested target).count k →
        Since target k n id) :
    Books (s'.noteHandled (.pstateModification ids target)).requested Since []
      (s'.noteHandled (.pstateModification ids target)) := by
  have hkeeps : Keeps s s' := by
    obtain ⟨ts, hhandled⟩ := handleMessage_effect (m := .pstateModification ids target) hrun
    exact hhandled.keeps
  have hrequested : (s'.noteHandled (.pstateModification ids target)).requested = fun pstate =>
      s.requested pstate ++ if pstate = target then [ids] else [] := by
    funext pstate
    simp only [requested, noteHandled, hkeeps.handled, List.filterMap_append, List.filterMap_cons,
      IPMessage.requestsSwitch?, List.filterMap_nil, @eq_comm _ target pstate]
    split <;> simp_all
  rw [hrequested] at hreached ⊢
  obtain ⟨-, first, m, hm, hloop⟩ := serverOnPstateModification_effect hrun
  have hids : ids.elements ≠ [] := by
    intro hnil
    simp [serverOnPstateModification, hnil, bind_eq_ok] at hrun
  have hcome := @Books.come s.requested Since s ids target h hids
    (s.machines.put first (m.touchPstate target))
  have hend := hcome.switchMachines ids.nodup hloop ?_ hreached
  · exact hend.of_same ⟨rfl, fun _ => rfl⟩ rfl rfl
  · -- looking a pstate up changes no type
    intro id hid m' hm'
    have hm' : (s.machines.put first (m.touchPstate target)).machines[id]? = some m' := hm'
    rw [Machines.getElem?_put hm] at hm'
    split at hm'
    · next heq =>
      cases hm'
      subst heq
      simpa [Machine.CanSwitch] using hcan id hid m hm
    · exact hcan id hid m' hm'

/-- The end of a switch is told. -/
theorem switched {s s' : Sim} {todo : List (Nat × Int)} {id : Nat} {target : Int}
    (h : Books requested Since ((id, target) :: todo)
      { s with data := { s.data with nbSwitchingMachines := s.data.nbSwitchingMachines - 1 } })
    (hrun : serverOnSwitched s id target = .ok s')
    (hreached : s'.machineAt target id →
      ∀ k n, n ≤ (requested target).count k → Since target k n id) :
    Books requested Since todo s' := by
  obtain ⟨m, switches, done, hm, hpstate, hmark, rfl⟩ := serverOnSwitched_cases hrun
  obtain ⟨hswitches, -, hpool, hmachines⟩ :=
    acknowledge_frame ({ s with currentSwitches := switches } : Sim) target done
  refine h.credit hmark hswitches (fun pstate => acknowledged_acknowledge _ target pstate done)
    rfl (by rw [Sim.switching]; exact congrArg _ hpool) (hreached ⟨m, ?_, hpstate⟩)
  show m ∈ (({ s with currentSwitches := switches } : Sim).acknowledge target
    done).machines.machines[id]?
  rw [hmachines]
  exact hm

end Books

/-! ### Runs -/

/-- What the end of a turn leaves as it was. -/
theorem endOfTurn_frame {cfg : Config} {s s' : Sim} (h : endOfTurn cfg s = .ok s') :
    s'.machines = s.machines ∧ s'.history.handled = s.history.handled ∧
      s'.data.nbSwitchingMachines = s.data.nbSwitchingMachines := by
  obtain rfl | ⟨workloads, hflush⟩ | hfinish := endOfTurn_cases h
  · exact ⟨rfl, rfl, rfl⟩
  · rw [hflush.eq]
    exact ⟨rfl, rfl, rfl⟩
  · rw [hfinish.eq]
    exact ⟨rfl, rfl, rfl⟩

/-- Since `n` requests of the same set for the same pstate were handled, the machine has had the
pstate. -/
def SwitchedSince (run : List Sim) (pstate : Int) (ids : IntervalSet) (n id : Nat) : Prop :=
  ∃ t ∈ run, n ≤ (t.requested pstate).count ids ∧ t.machineAt pstate id

theorem SwitchedSince.cons {run : List Sim} {pstate : Int} {ids : IntervalSet} {n id : Nat}
    (h : SwitchedSince run pstate ids n id) (s : Sim) :
    SwitchedSince (s :: run) pstate ids n id := by
  obtain ⟨t, ht, hat⟩ := h
  exact ⟨t, List.mem_cons_of_mem s ht, hat⟩

/-- The message that the server handles next, if it is its turn. -/
def Sim.nextMessage? (s : Sim) : Option IPMessage := s.pool.next?.bind fun r => r.1.message?

/-- A request names no machine that would be refused. -/
def IPMessage.CanSwitch (s : Sim) : IPMessage → Prop
  | pstateModification ids newPstate => s.CanSwitch ids.elements newPstate
  | _ => True

instance (s : Sim) (m : IPMessage) : Decidable (m.CanSwitch s) := by
  cases m <;> unfold IPMessage.CanSwitch <;> infer_instance

/-- No request that is handled names a machine that is refused. -/
def nothingRefused (s : Sim) (_ : Choice) : Prop := ∀ m ∈ s.nextMessage?, m.CanSwitch s

instance (s : Sim) (c : Choice) : Decidable (nothingRefused s c) :=
  inferInstanceAs (Decidable (∀ m ∈ s.nextMessage?, m.CanSwitch s))

theorem requested_noteHandled {s : Sim} {m : IPMessage} (hm : m.touchesSwitches = false) :
    (s.noteHandled m).requested = s.requested := by
  funext pstate
  cases m <;> first | (simp [requested, noteHandled, IPMessage.requestsSwitch?]; done) | cases hm

section runs

variable {cfg : Config} {guard : Sim → Choice → Prop} {s s' : Sim} {past : List Sim}

/-- The books are in order. -/
def InOrder (s : Sim) (past : List Sim) : Prop :=
  Books s.requested (SwitchedSince (s :: past)) [] s

theorem InOrder.of_same (h : InOrder s past) (hsame : SameSwitches s s')
    (hnb : s'.data.nbSwitchingMachines = s.data.nbSwitchingMachines)
    (hswitching : s'.switching = s.switching) (hrequested : s'.requested = s.requested) :
    InOrder s' (s :: past) := by
  rw [InOrder, hrequested]
  exact (Books.of_same h hsame hnb hswitching).mono fun _ _ _ _ hsince => hsince.cons s'

/-- The messages about something else. -/
theorem handleMessage_books {requested : Int → List IntervalSet}
    {Since : Int → IntervalSet → Nat → Nat → Prop} {m : IPMessage} {pool : Pool IPMessage Thread}
    {t : Sim} (h : Books requested Since [] s) (hm : m.touchesSwitches = false)
    (hnext : s.pool.next? = some (.deliver m, pool))
    (ht : handleMessage cfg { s with pool := pool } m = .ok t) : Books requested Since [] t := by
  obtain ⟨ts, hhandled⟩ := handleMessage_effect ht
  obtain ⟨us, -, hus, hlabels⟩ := switch_flow.labels_handleMessage hnext ht
  have hsame := handleMessage_sameSwitches hm ht
  have hnone : ∀ u : Thread, u.launchedBy m = true → u.isSwitch = false ∧ u.switch? = none := by
    intro u hu
    cases m <;> cases u <;> first | exact ⟨rfl, rfl⟩ | (cases hu; done) | cases hm
  have hmessage : m.switched? = none ∧ m.endsSwitch = false := by
    cases m <;> first | exact ⟨rfl, rfl⟩ | cases hm
  have hsame : SameSwitches s t := ⟨hsame.currentSwitches, hsame.acknowledged⟩
  refine h.of_same hsame ?_ ?_
  · have hcount : ts.countP Thread.isSwitch = 0 :=
      List.countP_eq_zero.mpr fun u hu => by simp [(hnone u (hhandled.launched u hu)).1]
    have hnb := hhandled.nbSwitchingMachines
    rw [hcount, hmessage.2] at hnb
    simpa using hnb
  · have hlaunched : us.filterMap Thread.switch? = [] :=
      List.filterMap_eq_nil_iff.mpr fun u hu => (hnone u (hus u hu)).2
    rw [hmessage.1, hlaunched] at hlabels
    simpa [Sim.switching] using hlabels

theorem Books.endOfTurn {requested : Int → List IntervalSet}
    {Since : Int → IntervalSet → Nat → Nat → Prop} (h : Books requested Since [] s)
    (hend : endOfTurn cfg s = .ok s') : Books requested Since [] s' :=
  h.of_same (endOfTurn_sameSwitches hend) (endOfTurn_frame hend).2.2
    (switch_flow.labels_endOfTurn hend)

/-- The last message of an actor that switched a machine. -/
theorem Books.told {requested : Int → List IntervalSet}
    {Since : Int → IntervalSet → Nat → Nat → Prop} {m : IPMessage} {pool : Pool IPMessage Thread}
    {id : Nat} {target : Int} (h : Books requested Since [] s)
    (hnext : s.pool.next? = some (.deliver m, pool)) (hm : m.switched? = some (id, target)) :
    Books requested Since [(id, target)] { s with
      pool := pool
      data := { s.data with nbSwitchingMachines := s.data.nbSwitchingMachines - 1 } } where
  nbSwitching := by
    have hnb := h.nbSwitching
    simp only [List.length_nil, List.length_singleton] at hnb ⊢
    omega
  waits id' pstate := by
    have hlabels := Pool.labels_deliver Thread.switch? IPMessage.switched? hnext
    rw [hm, Option.toList_some] at hlabels
    have hwaits := h.waits id' pstate
    rw [Sim.switching, hlabels, Multiset.coe_nil, add_zero, add_comm] at hwaits
    exact hwaits
  requests := h.requests
  ledger := h.ledger

/-- What the handling of a message about switches does to the books. -/
theorem handleMessage_switches {m : IPMessage} {pool : Pool IPMessage Thread} {t : Sim}
    {Since : Int → IntervalSet → Nat → Nat → Prop} (h : Books s.requested Since [] s)
    (hm : m.touchesSwitches = true) (hnext : s.pool.next? = some (.deliver m, pool))
    (hcan : m.CanSwitch s) (ht : handleMessage cfg { s with pool := pool } m = .ok t)
    (hreached : ∀ pstate id, t.machineAt pstate id → ∀ k n,
      n ≤ ((t.noteHandled m).requested pstate).count k → Since pstate k n id) :
    Books (t.noteHandled m).requested Since [] (t.noteHandled m) := by
  obtain ⟨_, hhandled⟩ := handleMessage_effect ht
  have htold : ∀ {id : Nat} {target : Int}, m.switched? = some (id, target) →
      (∀ pstate, m.requestsSwitch? pstate = none) →
      serverOnSwitched { s with pool := pool } id target = .ok t →
      Books (t.noteHandled m).requested Since [] (t.noteHandled m) := by
    intro id target hswitched hrequests hrun
    have hrequested : (t.noteHandled m).requested = s.requested := by
      funext pstate
      simp [requested, noteHandled, hhandled.keeps.handled, hrequests]
    rw [hrequested] at hreached ⊢
    exact ((h.told hnext hswitched).switched hrun (hreached target id)).of_same
      ⟨rfl, fun _ => rfl⟩ rfl rfl
  cases m with
  | pstateModification ids target =>
    have hpool : Books s.requested Since [] { s with pool := pool } := by
      refine h.of_same ⟨rfl, fun _ => rfl⟩ rfl ?_
      have hlabels := Pool.labels_deliver Thread.switch? IPMessage.switched? hnext
      simpa [Sim.switching, IPMessage.switched?] using hlabels.symm
    exact hpool.pstateModification ht hcan (hreached target)
  | switchedOn id target =>
    exact htold rfl (by simp [IPMessage.requestsSwitch?]) ht
  | switchedOff id target =>
    exact htold rfl (by simp [IPMessage.requestsSwitch?]) ht
  | _ => cases hm

/-- In the runs without a refusal, the books are always in order. -/
theorem visits_books (h : Visits (batsim cfg) nothingRefused (s :: past)) : InOrder s past := by
  refine h.invariant (P := InOrder) ?_ ?_
  · refine ⟨rfl, fun id pstate => ?_, fun pstate => .refl [], fun pstate => .nil⟩
    have hnone : (initialThreads cfg).filterMap Thread.switch? = [] := by
      simp [initialThreads, Thread.switch?]
    simp [Sim.switching, batsim, start, Pool.labels, Pool.threads, Pool.queue, hnone,
      CurrentSwitches.pending, Batch.waits]
  intro s s' past c hr hs hg hstep
  cases step_kind hstep with
  | solve clock receive wakes rest order pool hcan hsolve hs' =>
    subst hs'
    exact hs.of_same ⟨rfl, fun _ => rfl⟩ rfl (Pool.labels_solve _ _ hsolve) rfl
  | turn o m pool hnext hturn =>
    obtain ⟨t, ht, hor⟩ := turn_cases hturn
    cases hm : m.touchesSwitches with
    | false =>
      have hold := Books.mono hs fun _ _ _ _ hsince => hsince.cons s'
      have hbooks := handleMessage_books hold hm hnext ht
      have hrequested : t.requested = s.requested := by
        obtain ⟨_, hhandled⟩ := handleMessage_effect ht
        funext pstate
        rw [requested, hhandled.keeps.handled]
        rfl
      obtain ⟨-, rfl⟩ | ⟨-, hend⟩ := hor
      · rw [InOrder, hrequested]
        exact hbooks
      · have hnoted : Books s.requested (SwitchedSince (s' :: s :: past)) [] (t.noteHandled m) :=
          hbooks.of_same ⟨rfl, fun _ => rfl⟩ rfl rfl
        have hsame : s'.requested = s.requested := by
          funext pstate
          rw [requested, (endOfTurn_frame hend).2.1, ← requested, requested_noteHandled hm,
            hrequested]
        rw [InOrder, hsame]
        exact hnoted.endOfTurn hend
    | true =>
      obtain ⟨hback, rfl⟩ | ⟨-, hend⟩ := hor
      · obtain ⟨_, _, rfl, -⟩ := callsBack_eq_true.mp hback
        cases hm
      · obtain ⟨hmachines, hhandled, -⟩ := endOfTurn_frame hend
        have hsame : s'.requested = (t.noteHandled m).requested := by
          funext pstate
          rw [requested, hhandled, ← requested]
        have hcan : m.CanSwitch s := hg m (by simp [nextMessage?, hnext])
        have hold := Books.mono hs fun _ _ _ _ hsince => hsince.cons s'
        have hbooks := handleMessage_switches hold hm hnext hcan ht ?_
        · rw [InOrder, hsame]
          exact hbooks.endOfTurn hend
        · rintro pstate id ⟨x, hx, hpstate⟩ k n hle
          refine ⟨s', List.mem_cons_self .., by rw [hsame]; exact hle, x, ?_, hpstate⟩
          rw [hmachines]
          exact hx
  | callback o p mailbox pool hnext hrun =>
    obtain ⟨t, ht, hend⟩ := serverCallback_cases hrun
    obtain ⟨hkeeps, -, -, -, -, hactivities⟩ := serverOnCallbackReceived_frame ht
    have hcount : SameSwitches s t := by
      obtain ⟨-, -, rfl⟩ := countJobCompletion_effect ht
      have huntrack : SameSwitches s (({ s with pool := pool } : Sim).untrack p) :=
        ⟨rfl, fun _ => rfl⟩
      exact huntrack.trans (sameSwitches_completeJob _ p)
    have hnoted : SameSwitches s (t.noteHandled (.jobCompleted p)) :=
      hcount.trans ⟨rfl, fun _ => rfl⟩
    have hsame := hnoted.trans (endOfTurn_sameSwitches hend)
    obtain ⟨-, hhandled, hnb⟩ := endOfTurn_frame hend
    refine hs.of_same hsame (hnb.trans hactivities.nbSwitchingMachines)
      (switch_flow.labels_callback hnext hrun) ?_
    funext pstate
    rw [requested, hhandled, ← requested, requested_noteHandled rfl, requested, hkeeps.handled]
    rfl
  | start o pool hnext hrun =>
    have hswitching := switch_flow.labels_start hnext hrun
    rw [serverProcess_effect hrun] at hswitching ⊢
    have hlogged := sameSwitches_logged ({ s with pool := pool } : Sim)
      (e := .simulationBegins) fun _ => rfl
    refine hs.of_same ⟨hlogged.currentSwitches, fun pstate => ?_⟩ rfl hswitching rfl
    exact hlogged.acknowledged pstate
  | actor o t pool ht hnext hrun =>
    have howned := reaches_owned hr
    obtain ⟨-, hkeeps⟩ := runThread_moves (s := { s with pool := pool }) howned ht hrun
    refine hs.of_same ⟨hkeeps.currentSwitches, fun pstate => ?_⟩
      (congrArg ServerData.nbSwitchingMachines hkeeps.data)
      (switch_flow.labels_actor hr ht hnext hrun) ?_
    · rw [acknowledged, hkeeps.appended]
      rfl
    · funext pstate
      rw [requested, hkeeps.handled]
      rfl

/-- What each request still waits for is under way. -/
theorem InOrder.mem_switching (h : InOrder s past) {pstate : Int} {b : Batch IntervalSet Nat}
    (hb : b ∈ s.currentSwitches.pending pstate) {id : Nat} (hid : id ∈ b.waiting) :
    (id, pstate) ∈ s.switching := by
  have hwaits := h.waits id pstate
  rw [Multiset.coe_nil, add_zero] at hwaits
  refine Multiset.count_pos.mp ?_
  rw [← hwaits, Batch.waits]
  exact List.countP_pos_iff.mpr ⟨b, hb, by simpa using hid⟩

/-- A request that waits is a part of the sum. -/
theorem InOrder.pending_eq_nil (h : InOrder s past) (hzero : s.data.nbSwitchingMachines = 0)
    (pstate : Int) : s.currentSwitches.pending pstate = [] := by
  refine List.eq_nil_iff_forall_not_mem.mpr fun b hb => ?_
  obtain ⟨id, hid⟩ := Finset.nonempty_iff_ne_empty.mpr ((h.ledger pstate).nonempty b hb)
  have hnb := h.nbSwitching
  have hload : b.waiting.card ≤ Batch.load (s.currentSwitches.pending pstate) :=
    List.le_sum_of_mem (List.mem_map_of_mem hb)
  have hsum : Batch.load (s.currentSwitches.pending pstate) ≤ s.currentSwitches.nbSwitching := by
    rw [CurrentSwitches.load_pending, CurrentSwitches.nbSwitching,
      CurrentSwitches.sum_entries _ _ pstate]
    exact Nat.le_add_right ..
  have hcard : 0 < b.waiting.card := Finset.card_pos.mpr ⟨id, hid⟩
  rw [hzero, List.length_nil] at hnb
  omega

/-- In every run in which no machine of a request is refused, the sum over the pending requests is
the counter; the requests for a pstate are those acknowledged and those pending; what a pending
request waits for is under way; nothing is pending when the counter is null; and the `n`th
acknowledgement of a set comes after each machine of the set has had the pstate, since the `n`th
request of that set. -/
theorem switches_acknowledged_once (h : Visits (batsim cfg) nothingRefused (s :: past)) :
    (s.currentSwitches.nbSwitching : Int) = s.data.nbSwitchingMachines ∧
      ∀ pstate,
        (s.requested pstate).Perm
          (s.acknowledged pstate ++ (s.currentSwitches.pending pstate).map Batch.name) ∧
        (∀ b ∈ s.currentSwitches.pending pstate, b.waiting ≠ ∅ ∧
          ∀ id ∈ b.waiting, id ∈ b.name ∧ (id, pstate) ∈ s.switching) ∧
        (s.data.nbSwitchingMachines = 0 → (s.requested pstate).Perm (s.acknowledged pstate)) ∧
        ∀ ids n, 0 < n → n ≤ (s.acknowledged pstate).count ids →
          ∀ id ∈ ids, SwitchedSince (s :: past) pstate ids n id := by
  have hbooks := visits_books h
  refine ⟨by simpa using hbooks.nbSwitching, fun pstate => ⟨hbooks.requests pstate, ?_, ?_, ?_⟩⟩
  · intro b hb
    refine ⟨(hbooks.ledger pstate).nonempty b hb, fun id hid => ⟨?_, ?_⟩⟩
    · exact IntervalSet.mem_toFinset.mp ((hbooks.ledger pstate).subset b hb hid)
    · exact hbooks.mem_switching hb hid
  · intro hzero
    have hrequests := hbooks.requests pstate
    rwa [hbooks.pending_eq_nil hzero, List.map_nil, List.append_nil] at hrequests
  · intro ids n hpos hle id hid
    exact (hbooks.ledger pstate).done ids n id hpos hle (IntervalSet.mem_toFinset.mpr hid)

end runs

/-- The scheduler asks the host to sleep, and to wake up 5 s later. -/
def sleepThenWake : Reply where
  now := 5
  events := [⟨0, .setResourceState loneMachine 1⟩, ⟨5, .setResourceState loneMachine 0⟩]

/-- The host is switching off. -/
def untilSwitchingOff : List (Sim → Choice) :=
  [.next, .next (.reply sleepThenWake), .receive, .next, .next, .next]

theorem switch_off_acknowledged : ∃ (s : Sim) (past : List Sim),
    s.acknowledged 1 = [loneMachine] ∧ s.data.nbSwitchingMachines = 0 ∧
      (s.requested 1).Perm (s.acknowledged 1) ∧
      SwitchedSince (s :: past) 1 loneMachine 1 0 := by
  obtain ⟨s, hreaches, hack, hzero⟩ := exists_reaches_of_run (batsim sleepyHost) nothingRefused
    (fun s => s.acknowledged 1 = [loneMachine] ∧ s.data.nbSwitchingMachines = 0)
    (untilSwitchingOff ++ [.pass 1 false (fun t => t.isSwitch), .next, .receive, .next])
    (by decide +kernel)
  obtain ⟨past, hvisits⟩ := hreaches.visits
  obtain ⟨-, hall⟩ := switches_acknowledged_once hvisits
  obtain ⟨-, -, hperm, hdone⟩ := hall 1
  exact ⟨s, past, hack, hzero, hperm hzero, hdone loneMachine 1 (by decide) (by simp [hack]) 0
    (by decide)⟩

/-- The host is asked to wake up while it switches off: it is never told to have woken up, although
nothing is under way any more. -/
theorem request_in_transition_not_acknowledged : ∃ s : Sim,
    Reaches (batsim sleepyHost) anyStep s ∧
      (s.currentSwitches.nbSwitching : Int) ≠ s.data.nbSwitchingMachines ∧
      s.requested 0 = [loneMachine] ∧ s.acknowledged 0 = [] ∧
      s.data.nbSwitchingMachines = 0 ∧ s.switching = 0 :=
  exists_reaches_of_run (batsim sleepyHost) anyStep
    (fun s => (s.currentSwitches.nbSwitching : Int) ≠ s.data.nbSwitchingMachines ∧
      s.requested 0 = [loneMachine] ∧ s.acknowledged 0 = [] ∧
      s.data.nbSwitchingMachines = 0 ∧ s.switching = 0)
    (untilSwitchingOff ++ [.pass 5 false (fun t => t.wakeDate.isSome), .next, .receive, .next,
      .next, .pass 6 false (fun t => t.isSwitch), .next, .receive, .next, .receive, .next])
    (by decide +kernel)

end Batsim
