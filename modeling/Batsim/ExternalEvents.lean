import Mathlib.Data.Set.Basic
import Batsim.Handlers
import Batsim.JobDescriptions

/-!
External events: how a file of events is read and sorted, and the orders in which machines can
become available and unavailable.
-/

namespace Batsim

open Checked Json

inductive EventType where
  | machineAvailable
  | machineUnavailable
  | generic
deriving DecidableEq, Repr

/-- The values of the enumeration. -/
def EventType.number : EventType → Nat
  | .machineAvailable => 0
  | .machineUnavailable => 1
  | .generic => 2

def ExternalEvent.type (e : ExternalEvent) : EventType :=
  match e.data with
  | .machineAvailable _ => .machineAvailable
  | .machineUnavailable _ => .machineUnavailable
  | .generic _ => .generic

def eventTypeFromString (typeStr : String) (unknownAsGeneric : Bool) : Except String EventType :=
  if typeStr = "machine_available" then .ok .machineAvailable
  else if typeStr = "machine_unavailable" then .ok .machineUnavailable
  else if unknownAsGeneric then .ok .generic
  else .error ("Unknown event type: " ++ typeStr)

/-! ### Event files -/

/-- What the reader of an event takes from elsewhere. -/
structure EventReader (N : Type) where
  num : Numbers N
  /-- `IntervalSet::from_string_hyphen` -/
  fromStringHyphen : String → Except String IntervalSet

namespace EventReader

variable {N : Type} (x : EventReader N)

/-- The `resources` member of an event about machines. -/
def resources (errorPrefix : String) (desc : Value N) : Except String IntervalSet :=
  match desc.member? "resources" with
  | none => .error (errorPrefix ++ ": one event has no 'resources' field")
  | some (.str s) =>
    match x.fromStringHyphen (cString s) with
    | .ok machineIds => .ok machineIds
    | .error e => .error ("Invalid JSON message: " ++ e)
  | some _ => .error
    (errorPrefix ++ ": one event resources field is not valid, it should be a string.")

/-- `Event::from_json` -/
def fromJson (desc : Value N) (unknownAsGeneric : Bool)
    (errorPrefix : String := "Invalid JSON event") : Except String ExternalEvent := do
  xbtAssert (isObject desc = true) (errorPrefix ++ ": one event is not an object")
  let typeStr ← (match desc.member? "type" with
    | none => .error (errorPrefix ++ ": one event has no 'type' field")
    | some (.str s) => .ok (cString s)
    | some _ => .error
      (errorPrefix ++ ": one event type field is not valid, it should be a string."))
  let date ← (match desc.member? "timestamp" with
    | none => .error (errorPrefix ++ ": one event has no 'timestamp' field")
    | some (.num n) => .ok (x.num.getDouble n)
    | some _ => .error
      (errorPrefix ++ ": one event timestamp field is not valid, it should be a number."))
  let type ← eventTypeFromString typeStr unknownAsGeneric
  xbtAssert (date ≥ 0) (errorPrefix ++ ": one event has a non-positive timestamp.")
  match type with
  | .machineAvailable => do
    let machineIds ← x.resources errorPrefix desc
    .ok { timestamp := date, data := .machineAvailable machineIds }
  | .machineUnavailable => do
    let machineIds ← x.resources errorPrefix desc
    .ok { timestamp := date, data := .machineUnavailable machineIds }
  | .generic =>
    let jsonDesc := String.ofList (write x.num.toNumberFormat desc)
    .ok { timestamp := date, data := .generic jsonDesc }

/-- The loop of `EventList::load_from_json` over the lines of the file. -/
def readEvents (filename : String) (unknownAsGeneric : Bool) (lines : List String) :
    Except String (List ExternalEvent) :=
  forEach (fun events line =>
    if line.length > 0 then
      match parse x.num.toNumberFormat (cString line).toList with
      | some (.obj members) => do
        let e ← x.fromJson (.obj members) unknownAsGeneric
        .ok (events ++ [e])
      | _ => .error ("Invalid JSON event file " ++ filename ++ ", an event could not be parsed.")
    else .ok events) [] lines

end EventReader

def eventComparatorTimestampNumber (a b : ExternalEvent) : Bool :=
  if a.timestamp = b.timestamp then a.type.number < b.type.number else a.timestamp < b.timestamp

/-- A result that `std::sort` may have: elements that compare equal come in any order. -/
structure StdSorted {α : Type} (comp : α → α → Bool) (l sorted : List α) : Prop where
  perm : sorted.Perm l
  ordered : sorted.Pairwise fun a b => comp b a = false

/-! ### Legal orders -/

/-- The event makes the machine available, or unavailable. -/
def ExternalEvent.makes (e : ExternalEvent) (id : Nat) : Option Bool :=
  match e.data with
  | .machineAvailable ids => if id ∈ ids then some true else none
  | .machineUnavailable ids => if id ∈ ids then some false else none
  | .generic _ => none

/-- The events can occur in this order, of `nb` machines when those of `up` are available. -/
def Legal (nb : Nat) : Set Nat → List ExternalEvent → Prop
  | _, [] => True
  | up, e :: es =>
    (∀ id c, e.makes id = some c → id < nb ∧ (c = true ↔ id ∉ up)) ∧
      Legal nb {id | e.makes id = some true ∨ id ∈ up ∧ e.makes id = none} es

/-- An order of dates, in which no machine is made available after having been made unavailable at
the same date. -/
def Dated (es : List ExternalEvent) : Prop :=
  es.Pairwise fun e e' => e.timestamp ≤ e'.timestamp ∧
    (e.timestamp = e'.timestamp → ∀ id, ¬(e.makes id = some false ∧ e'.makes id = some true))

/-! ### One machine at a time -/

/-- The dates at which the machine becomes available or unavailable. -/
def changes (id : Nat) (es : List ExternalEvent) : List (Date × Bool) :=
  es.filterMap fun e => (e.makes id).map fun c => (e.timestamp, c)

/-- A machine becomes available and unavailable in turn. -/
def InTurn : Prop → List (Date × Bool) → Prop
  | _, [] => True
  | up, (_, c) :: l => (c = true ↔ ¬up) ∧ InTurn (c = true) l

theorem legal_iff {nb : Nat} {up : Set Nat} {es : List ExternalEvent} :
    Legal nb up es ↔ (∀ e ∈ es, ∀ id c, e.makes id = some c → id < nb) ∧
      ∀ id, InTurn (id ∈ up) (changes id es) := by
  induction es generalizing up with
  | nil => simp [Legal, changes, InTurn]
  | cons e es ih =>
    have hchanges : ∀ id, InTurn (id ∈ up) (changes id (e :: es)) ↔
        (∀ c, e.makes id = some c → (c = true ↔ id ∉ up)) ∧
          InTurn (e.makes id = some true ∨ id ∈ up ∧ e.makes id = none) (changes id es) := by
      intro id
      cases hmakes : e.makes id with
      | none => simp [changes, hmakes]
      | some c => simp [changes, hmakes, InTurn]
    simp only [Legal, ih, hchanges, List.forall_mem_cons, Set.mem_ofPred_eq]
    constructor
    · rintro ⟨hfirst, hrest, hall⟩
      exact ⟨⟨fun id c hc => (hfirst id c hc).1, hrest⟩,
        fun id => ⟨fun c hc => (hfirst id c hc).2, hall id⟩⟩
    · rintro ⟨⟨hfirst, hrest⟩, hall⟩
      exact ⟨fun id c hc => ⟨hfirst id c hc, (hall id).1 c hc⟩, hrest, fun id => (hall id).2⟩

/-- A date of availability comes before the later ones, and before those of unavailability of the
same date. -/
def ComesBefore (p q : Date × Bool) : Prop :=
  p.1 < q.1 ∨ p.1 = q.1 ∧ (p.2 = true ∨ q.2 = false)

theorem ComesBefore.antisymm {p q : Date × Bool} (hpq : ComesBefore p q) (hqp : ComesBefore q p) :
    p = q := by
  obtain ⟨d, c⟩ := p
  obtain ⟨d', c'⟩ := q
  unfold ComesBefore at hpq hqp
  dsimp only at hpq hqp
  have hdate : d = d' := by grind
  have hsame : c = c' := by grind
  rw [hdate, hsame]

theorem Dated.changes {es : List ExternalEvent} (h : Dated es) (id : Nat) :
    (changes id es).Pairwise ComesBefore := by
  refine List.Pairwise.filterMap _ ?_ h
  rintro e e' ⟨hle, hsame⟩ p hp q hq
  obtain ⟨c, hc, rfl⟩ := Option.map_eq_some_iff.mp hp
  obtain ⟨c', hc', rfl⟩ := Option.map_eq_some_iff.mp hq
  rcases lt_or_eq_of_le hle with hlt | heq
  · exact .inl hlt
  · refine .inr ⟨heq, ?_⟩
    have hnot := hsame heq id
    rw [hc, hc'] at hnot
    cases c <;> cases c' <;> simp at hnot ⊢

theorem number_of_makes {e : ExternalEvent} {id : Nat} {c : Bool} (h : e.makes id = some c) :
    e.type.number = if c = true then 0 else 1 := by
  unfold ExternalEvent.makes at h
  unfold ExternalEvent.type
  cases hdata : e.data with
  | machineAvailable ids =>
    simp only [hdata, Option.ite_none_right_eq_some, Option.some.injEq] at h
    rw [← h.2]
    rfl
  | machineUnavailable ids =>
    simp only [hdata, Option.ite_none_right_eq_some, Option.some.injEq] at h
    rw [← h.2]
    rfl
  | generic json =>
    simp only [hdata, reduceCtorEq] at h

/-- The order that the list is given. -/
theorem StdSorted.dated {read events : List ExternalEvent}
    (h : StdSorted eventComparatorTimestampNumber read events) : Dated events := by
  refine h.ordered.imp ?_
  intro e e' hcomp
  unfold eventComparatorTimestampNumber at hcomp
  split at hcomp
  · next hsame =>
    refine ⟨hsame.ge, fun _ id ⟨hdown, hup⟩ => ?_⟩
    rw [number_of_makes hdown, number_of_makes hup] at hcomp
    exact absurd hcomp (by decide)
  · next hdiffers =>
    have hle : e.timestamp ≤ e'.timestamp := by simpa using hcomp
    exact ⟨hle, fun heq => absurd heq.symm hdiffers⟩

/-- The order that the list is given is legal exactly when some order of dates is, in which no
machine is made available after having been made unavailable at the same date. -/
theorem StdSorted.legal_iff {nb : Nat} {up : Set Nat} {read events : List ExternalEvent}
    (h : StdSorted eventComparatorTimestampNumber read events) :
    Legal nb up events ↔ ∃ order : List ExternalEvent, order.Perm read ∧ Dated order ∧
      Legal nb up order := by
  constructor
  · exact fun hlegal => ⟨events, h.perm, h.dated, hlegal⟩
  · rintro ⟨order, hperm, hdated, hlegal⟩
    rw [Batsim.legal_iff] at hlegal ⊢
    have hboth : events.Perm order := h.perm.trans hperm.symm
    refine ⟨fun e he => hlegal.1 e (hboth.mem_iff.mp he), fun id => ?_⟩
    -- both orders make the machine available and unavailable at the same dates
    have hsame : Batsim.changes id events = Batsim.changes id order :=
      List.Perm.eq_of_pairwise (fun p q _ _ => ComesBefore.antisymm) (h.dated.changes id)
        (hdated.changes id) (hboth.filterMap _)
    rw [hsame]
    exact hlegal.2 id

end Batsim
