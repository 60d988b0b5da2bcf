import Batsim.ExternalEvents
import Batsim.SubmitterRuns

/-!
External events from the file that lists them to the machines that they make available and
unavailable.
-/

namespace Batsim

open Checked Json

/-! ### The server -/

/-- The machines of `up` are available, and no other of the `nb` machines is. -/
structure Sim.Shows (nb : Nat) (up : Set Nat) (s : Sim) : Prop where
  machine : ∀ id < nb, ∃ m, s.machines.machines[id]? = some m ∧
    (id ∈ up ↔ m.state ≠ .unavailable) ∧ m.lastStateChangeDate ≤ s.clock
  writer : s.writer.lastDate ≤ s.clock

/-- What others do while time passes: they make no machine available or unavailable. -/
structure Sim.AvailabilityKept (s t : Sim) : Prop where
  clock : s.clock ≤ t.clock
  machine : ∀ (id : Nat) (m : Machine), s.machines.machines[id]? = some m →
    ∃ m', t.machines.machines[id]? = some m' ∧
      (m'.state = .unavailable ↔ m.state = .unavailable) ∧ m'.lastStateChangeDate ≤ t.clock
  writer : t.writer.lastDate ≤ t.clock

/-- The server handles the events that occur at these dates, whatever others do in between. -/
def Handles : Sim → List (Date × List ExternalEvent) → Prop
  | _, [] => True
  | s, (date, events) :: rest => ∀ t, s.AvailabilityKept t → t.clock = date →
    ∃ u, serverOnEventOccurred t events = .ok u ∧ Handles u rest

section handlers

variable {nb : Nat} {up : Set Nat} {s s' : Sim}

theorem Sim.Shows.kept (h : s.Shows nb up) (hkept : s.AvailabilityKept s') : s'.Shows nb up where
  machine := by
    intro id hid
    obtain ⟨m, hm, hup, -⟩ := h.machine id hid
    obtain ⟨m', hm', hstate, hdate⟩ := hkept.machine id m hm
    exact ⟨m', hm', hup.trans (not_congr hstate).symm, hdate⟩
  writer := hkept.writer

theorem Sim.Shows.update (h : s.Shows nb up) {id : Nat} {newState : MachineState} {ms : Machines}
    (hstate : s.machines.updateMachineState id newState s.clock = .ok ms) {c : Bool}
    (hc : c = true ↔ newState ≠ .unavailable) (unavailable : List Nat) :
    (s.setMachines ms unavailable).Shows nb {j | j = id ∧ c = true ∨ j ≠ id ∧ j ∈ up} where
  machine := by
    intro j hj
    obtain ⟨m₀, -, -, hall⟩ := Machines.updateMachineState_cases hstate
    rw [setMachines, hall j]
    by_cases hsame : j = id
    · subst hsame
      exact ⟨m₀.enter newState s.clock, by simp, by simpa using hc, le_rfl⟩
    · obtain ⟨m, hm, hup, hdate⟩ := h.machine j hj
      exact ⟨m, by simp [hsame, hm], by simpa [hsame] using hup, hdate⟩
  writer := h.writer

theorem Sim.Shows.logged (h : s.Shows nb up) (e : ProtocolEvent) : (s.logged e).Shows nb up :=
  ⟨h.machine, le_rfl⟩

/-- A turn of the loops over the machines of an event. -/
def changeAvailability (c : Bool) : Sim → Nat → Except String Sim :=
  if c = true then makeAvailable else makeUnavailable

theorem changeAvailability_succeeds {c : Bool} (h : s.Shows nb up) {id : Nat} (hid : id < nb)
    (hlegal : c = true ↔ id ∉ up) : ∃ s', changeAvailability c s id = .ok s' ∧
      s'.clock = s.clock ∧ s'.Shows nb {j | j = id ∧ c = true ∨ j ≠ id ∧ j ∈ up} := by
  obtain ⟨m, hm, hup, hdate⟩ := h.machine id hid
  have hat : s.machines.at? id = .ok m := Machines.at?_eq_ok.mpr hm
  cases c with
  | false =>
    have hstate : m.state ≠ .unavailable := hup.mp (by simpa using hlegal)
    obtain ⟨ms, hms⟩ :=
      @Machines.updateMachineState_succeeds s.machines id .unavailable s.clock m hm hdate
    refine ⟨s.setMachines ms (id :: s.history.unavailable), ?_, rfl, h.update hms (by simp) _⟩
    simp only [changeAvailability, makeUnavailable, Bool.false_eq_true, ↓reduceIte, bind_eq_ok,
      xbtAssert_eq_ok]
    exact ⟨m, hat, (), hstate, ms, hms, rfl⟩
  | true =>
    have hstate : m.state = .unavailable := by
      by_contra hother
      exact hlegal.mp rfl (hup.mpr hother)
    obtain ⟨ms, hms⟩ := @Machines.updateMachineState_succeeds s.machines id
      (if m.jobsBeingComputed = [] then .idle else .computing) s.clock m hm hdate
    refine ⟨s.setMachines ms (s.history.unavailable.filter (· ≠ id)), ?_, rfl, h.update hms ?_ _⟩
    · simp only [changeAvailability, makeAvailable, ↓reduceIte, bind_eq_ok, xbtAssert_eq_ok]
      exact ⟨m, hat, (), hstate, ms, hms, rfl⟩
    · split <;> simp

theorem changes_succeed {c : Bool} {ids : List Nat} (hnodup : ids.Nodup) (h : s.Shows nb up)
    (hlegal : ∀ id ∈ ids, id < nb ∧ (c = true ↔ id ∉ up)) :
    ∃ s', forEach (changeAvailability c) s ids = .ok s' ∧ s'.clock = s.clock ∧
      s'.Shows nb {j | j ∈ ids ∧ c = true ∨ j ∉ ids ∧ j ∈ up} := by
  induction ids generalizing s up with
  | nil =>
    refine ⟨s, rfl, rfl, ?_⟩
    simpa using h
  | cons id ids ih =>
    obtain ⟨hid, hc⟩ := hlegal id (by simp)
    obtain ⟨t, ht, hclock, hshows⟩ := changeAvailability_succeeds h hid hc
    obtain ⟨hnew, hrest⟩ := List.nodup_cons.mp hnodup
    obtain ⟨u, hu, hclock', hshows'⟩ := ih hrest hshows fun j hj => by
      have hne : j ≠ id := fun heq => hnew (heq ▸ hj)
      simpa [hne] using hlegal j (by simp [hj])
    refine ⟨u, ?_, hclock'.trans hclock, ?_⟩
    · rw [forEach_cons]
      exact bind_eq_ok.mpr ⟨t, ht, hu⟩
    · have hsame : {j | j ∈ id :: ids ∧ c = true ∨ j ∉ id :: ids ∧ j ∈ up} =
          {j | j ∈ ids ∧ c = true ∨ j ∉ ids ∧ (j = id ∧ c = true ∨ j ≠ id ∧ j ∈ up)} := by
        ext j
        by_cases hj : j = id
        · subst hj
          simp [hnew]
        · simp [hj]
      rw [hsame]
      exact hshows'

/-- An event that is legal is handled. -/
theorem occur_succeeds {e : ExternalEvent} (h : s.Shows nb up)
    (hlegal : ∀ id c, e.makes id = some c → id < nb ∧ (c = true ↔ id ∉ up)) :
    ∃ s', occur s e = .ok s' ∧ s'.clock = s.clock ∧
      s'.Shows nb {id | e.makes id = some true ∨ id ∈ up ∧ e.makes id = none} := by
  have hloop : ∀ (c : Bool) (ids : IntervalSet) (told : ProtocolEvent),
      (∀ id ∈ ids, e.makes id = some c) → (∀ id ∉ ids, e.makes id = none) →
        ∃ s', (if ids.size > 0 then do
            let s ← forEach (changeAvailability c) s ids.elements
            s.append told
          else .ok s) = .ok s' ∧ s'.clock = s.clock ∧
            s'.Shows nb {id | e.makes id = some true ∨ id ∈ up ∧ e.makes id = none} := by
    intro c ids told hin hout
    obtain ⟨t, ht, hclock, hshows⟩ := changes_succeed ids.nodup h
      fun id hid => hlegal id c (hin id hid)
    have hsame : {id | e.makes id = some true ∨ id ∈ up ∧ e.makes id = none} =
        {id | id ∈ ids.elements ∧ c = true ∨ id ∉ ids.elements ∧ id ∈ up} := by
      ext id
      by_cases hid : id ∈ ids
      · simp [hin id hid, hid]
      · simp [hout id hid, hid]
    rw [hsame]
    split
    · refine ⟨t.logged told, bind_eq_ok.mpr ⟨t, ht, ?_⟩, hclock, hshows.logged told⟩
      exact Sim.append_eq_ok.mpr ⟨hshows.writer, rfl⟩
    · next hempty =>
      have hnil : ids.elements = [] := List.eq_nil_of_length_eq_zero (Nat.eq_zero_of_not_pos hempty)
      rw [hnil] at ht
      obtain rfl : s = t := Except.ok.inj ht
      exact ⟨s, rfl, rfl, hshows⟩
  unfold occur
  cases hdata : e.data with
  | generic json =>
    refine ⟨_, Sim.append_eq_ok.mpr ⟨h.writer, rfl⟩, rfl, ?_⟩
    have hmakes : ∀ id, e.makes id = none := by simp [ExternalEvent.makes, hdata]
    simpa [hmakes] using h.logged _
  | machineAvailable ids =>
    exact hloop true ids (.notifyResourceEvent "event_machine_available" ids)
      (fun id hid => by simp [ExternalEvent.makes, hdata, hid])
      (fun id hid => by simp [ExternalEvent.makes, hdata, hid])
  | machineUnavailable ids =>
    exact hloop false ids (.notifyResourceEvent "event_machine_unavailable" ids)
      (fun id hid => by simp [ExternalEvent.makes, hdata, hid])
      (fun id hid => by simp [ExternalEvent.makes, hdata, hid])

/-- The events of a message are handled if they are legal, and those that follow remain so. -/
theorem eventOccurred_succeeds {events rest : List ExternalEvent} (h : s.Shows nb up)
    (hlegal : Legal nb up (events ++ rest)) :
    ∃ s' up', serverOnEventOccurred s events = .ok s' ∧ s'.Shows nb up' ∧ Legal nb up' rest := by
  rw [serverOnEventOccurred_eq]
  induction events generalizing s up with
  | nil => exact ⟨s, up, rfl, h, hlegal⟩
  | cons e events ih =>
    obtain ⟨hfirst, hnext⟩ := hlegal
    obtain ⟨t, ht, -, hshows⟩ := occur_succeeds h hfirst
    obtain ⟨u, up', hu, hshows', hlegal'⟩ := ih hshows hnext
    refine ⟨u, up', ?_, hshows', hlegal'⟩
    rw [forEach_cons]
    exact bind_eq_ok.mpr ⟨t, ht, hu⟩

theorem handles_of_legal {batches : List (Date × List ExternalEvent)} (h : s.Shows nb up)
    (hlegal : Legal nb up (batches.flatMap Prod.snd)) : Handles s batches := by
  induction batches generalizing s up with
  | nil => trivial
  | cons batch batches ih =>
    intro t hkept _
    rw [List.flatMap_cons] at hlegal
    obtain ⟨u, up', hu, hshows, hrest⟩ := eventOccurred_succeeds (h.kept hkept) hlegal
    exact ⟨u, hu, ih hshows hrest⟩

end handlers

/-! ### The submitter -/

theorem eventSubmitter_follows (cfg : Config) (list : String) (events : List ExternalEvent) :
    (eventSubmitterKind list).Follows (fun t phase => staticEventSubmitterProcess cfg t list phase)
      (fun _ _ _ => True) (fun _ => True) events where
  env := fun _ _ _ _ _ _ => trivial
  sent := fun _ _ _ _ _ => rfl
  asleep := fun _ _ _ _ _ _ => rfl
  wake := fun _ _ _ => rfl

variable {N : Type} {x : EventReader N} {filename : String} {unknownAsGeneric : Bool}
  {lines : List String} {read events : List ExternalEvent}

theorem timestamp_nonneg {desc : Value N} {errorPrefix : String} {e : ExternalEvent}
    (h : x.fromJson desc unknownAsGeneric errorPrefix = .ok e) : 0 ≤ e.timestamp := by
  simp only [EventReader.fromJson, bind_eq_ok, xbtAssert_eq_ok] at h
  obtain ⟨-, -, typeStr, -, date, -, type, -, -, hdate, h⟩ := h
  cases type with
  | generic =>
    obtain rfl := Except.ok.inj h
    exact hdate
  | machineAvailable | machineUnavailable =>
    obtain ⟨ids, -, h⟩ := bind_eq_ok.mp h
    obtain rfl := Except.ok.inj h
    exact hdate

theorem readEvents_nonneg (h : x.readEvents filename unknownAsGeneric lines = .ok read) :
    ∀ e ∈ read, 0 ≤ e.timestamp := by
  refine forEach_preserves (P := fun es : List ExternalEvent => ∀ e ∈ es, 0 ≤ e.timestamp)
    (by simp) ?_ h
  intro line _ es es' hes hstep
  split at hstep
  · split at hstep
    · obtain ⟨e, he, hsame⟩ := bind_eq_ok.mp hstep
      obtain rfl := Except.ok.inj hsame
      intro e' he'
      rcases List.mem_append.mp he' with hold | hnew
      · exact hes e' hold
      · rw [List.mem_singleton.mp hnew]
        exact timestamp_nonneg he
    · cases hstep
  · obtain rfl := Except.ok.inj hstep
    exact hes

/-- The order that a file of events is given is legal exactly when some order of dates is, in which
no machine is made available after having been made unavailable at the same date. It is then sent
in this order, each event once and at its own date, and handled. -/
theorem events_occur_in_order (hread : x.readEvents filename unknownAsGeneric lines = .ok read)
    (hsorted : StdSorted eventComparatorTimestampNumber read events) {cfg : Config}
    {d : EventListDescription} {list : String}
    (hlist : cfg.eventLists.find? (fun d => d.name = list) = some d) (hevents : d.events = events)
    {s : Sim} (hstart : s.clock = 0) (nb : Nat) :
    (Legal nb {id | id < nb} events ↔
      ∃ order : List ExternalEvent, order.Perm read ∧ Dated order ∧ Legal nb {id | id < nb} order) ∧
    (Legal nb {id | id < nb} events →
      Sends (fun t phase => staticEventSubmitterProcess cfg t list phase) (Thread.eventSubmitter list)
        (fun _ _ _ => True)
        (fun sent => ∃ batches : List (Date × List ExternalEvent),
          (batches.flatMap fun b => b.2.map fun e => (b.1, e)) =
            events.map (fun e => (e.timestamp, e)) ∧
          sent = (0, .submitterHello (list ++ "_submitter") false .eventSubmitter) ::
            batches.map (fun b => (b.1, .eventOccurred (list ++ "_submitter") b.2)) ++
              [((batches.map Prod.fst).getLastD 0,
                .submitterBye (list ++ "_submitter") .eventSubmitter false)] ∧
          ∀ t : Sim, t.Shows nb {id | id < nb} → Handles t batches) [] s .started) := by
  refine ⟨hsorted.legal_iff, fun hlegal => .send rfl fun t _ htime => ?_⟩
  have hdates : events.Pairwise fun e e' => e.timestamp ≤ e'.timestamp :=
    hsorted.dated.imp fun h => h.1
  have hstep : staticEventSubmitterProcess cfg t list .greeted =
      .ok ((eventSubmitterKind list).submit t t.clock [] events) := by
    simp only [staticEventSubmitterProcess, hlist, hevents]
    rfl
  rw [hstart] at htime
  rw [hstart]
  refine (eventSubmitter_follows cfg list events).sends hdates ?_ trivial htime hstep
  rintro sent ⟨batches, hbatched, hsent⟩
  have hown : (batches.flatMap fun b => b.2.map fun e => (b.1, e)) =
      events.map fun e => (e.timestamp, e) := by
    refine hbatched.dates.trans (List.map_congr_left fun e he => ?_)
    have hnonneg := readEvents_nonneg hread e (hsorted.perm.mem_iff.mp he)
    exact Prod.ext (max_eq_right hnonneg) rfl
  refine ⟨batches, hown, hsent, fun u hshows => handles_of_legal hshows ?_⟩
  have hall := congrArg (List.map Prod.snd) hown
  simp only [List.map_flatMap, List.map_map, Function.comp_def, List.map_id'] at hall
  rw [hall]
  exact hlegal

/-! ### Files about one machine -/

/-- A reader of the machine 0. -/
def machineReader : EventReader Int where
  num := integerNumbers
  fromStringHyphen s := if s = "0" then .ok loneMachine else .error "not an interval set"

def unavailableLine : String :=
  "\x7b\"type\": \"machine_unavailable\", \"resources\": \"0\", \"timestamp\": 5\x7d"

def availableLine (timestamp : String) : String :=
  "\x7b\"type\": \"machine_available\", \"resources\": \"0\", \"timestamp\": " ++ timestamp ++ "\x7d"

/-- The machine 0 is made unavailable at 5 and available again at `date`. -/
def outage (date : Date) : List ExternalEvent :=
  [⟨5, .machineUnavailable loneMachine⟩, ⟨date, .machineAvailable loneMachine⟩]

theorem outage_legal (date : Date) : Legal 1 {id | id < 1} (outage date) := by
  have hmem : ∀ id, id ∈ loneMachine ↔ id < 1 := by
    intro id
    rw [← IntervalSet.mem_elements, loneMachine, List.mem_singleton]
    omega
  refine ⟨fun id c hc => ?_, fun id c hc => ?_, trivial⟩
  · simp only [ExternalEvent.makes, hmem, Option.ite_none_right_eq_some, Option.some.injEq] at hc
    obtain ⟨hid, rfl⟩ := hc
    simp [Nat.lt_one_iff.mp hid]
  · simp only [ExternalEvent.makes, hmem, Option.ite_none_right_eq_some, Option.some.injEq] at hc
    obtain ⟨hid, rfl⟩ := hc
    simp [ExternalEvent.makes, hmem, hid]

/-- The machine 0 is made unavailable and available again at the date 5, which is legal: the list
begins with the event that makes it available, which stops the program. -/
theorem outage_at_one_date :
    (∃ read, machineReader.readEvents "events.txt" false [unavailableLine, availableLine "5"] =
        .ok read ∧ read = outage 5 ∧
          StdSorted eventComparatorTimestampNumber read (outage 5).reverse) ∧
      (outage 5).Pairwise (fun e e' => e.timestamp ≤ e'.timestamp) ∧
      Legal 1 {id | id < 1} (outage 5) ∧ ¬Legal 1 {id | id < 1} (outage 5).reverse ∧
      (start loneHost).Shows 1 {id | id < 1} ∧
      ¬∃ s, serverOnEventOccurred { start loneHost with clock := 5 } (outage 5).reverse = .ok s := by
  refine ⟨⟨outage 5, by decide +kernel, rfl, ?_, by decide +kernel⟩, by decide +kernel,
    outage_legal 5, ?_, ⟨?_, by decide +kernel⟩, ?_⟩
  · exact (outage 5).reverse_perm
  · rintro ⟨hfirst, -⟩
    have hup := hfirst 0 true (by decide)
    simp at hup
  · intro id hid
    obtain rfl := Nat.lt_one_iff.mp hid
    exact ⟨_, rfl, by simp, by decide⟩
  · rintro ⟨s, hs⟩
    have hfails : succeedsWith (serverOnEventOccurred { start loneHost with clock := 5 }
        (outage 5).reverse) (fun _ => true) = false := by decide +kernel
    rw [hs] at hfails
    cases hfails

/-- The lone host, with an outage of its machine. -/
def outageHost : Config :=
  { loneHost with eventLists := [{ name := "e", events := outage 7 }] }

/-- The outage ends at a later date. -/
theorem outage_occurs :
    Sends (fun t phase => staticEventSubmitterProcess outageHost t "e" phase)
      (Thread.eventSubmitter "e") (fun _ _ _ => True)
      (fun sent => ∃ batches : List (Date × List ExternalEvent),
        (batches.flatMap fun b => b.2.map fun e => (b.1, e)) =
          (outage 7).map (fun e => (e.timestamp, e)) ∧
        sent = (0, .submitterHello "e_submitter" false .eventSubmitter) ::
          batches.map (fun b => (b.1, .eventOccurred "e_submitter" b.2)) ++
            [((batches.map Prod.fst).getLastD 0, .submitterBye "e_submitter" .eventSubmitter false)] ∧
        ∀ t : Sim, t.Shows 1 {id | id < 1} → Handles t batches) [] (start outageHost) .started := by
  have hread : machineReader.readEvents "events.txt" false [unavailableLine, availableLine "7"] =
      .ok (outage 7) := by decide +kernel
  have hsorted : StdSorted eventComparatorTimestampNumber (outage 7) (outage 7) :=
    ⟨.refl _, by decide +kernel⟩
  have hlist : outageHost.eventLists.find? (fun d => d.name = "e") =
      some { name := "e", events := outage 7 } := rfl
  exact (events_occur_in_order hread hsorted hlist rfl rfl 1).2 (outage_legal 7)

end Batsim
