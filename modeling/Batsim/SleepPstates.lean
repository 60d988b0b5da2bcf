import Batsim.JobDescriptions
import Batsim.Lib.Splitting
import Batsim.Machines

/-!
The `sleep_pstates` property of a host: what it gives to the pstates of the machine.
-/

namespace Batsim

open Checked

/-! ### The text of the property -/

/-- `boost::trim` -/
def trim (cs : List Char) : List Char :=
  ((cs.dropWhile isSpace).reverse.dropWhile isSpace).reverse

/-- `boost::lexical_cast<unsigned int>`: a sign may come first, and a minus wraps the value. -/
def lexicalCastUnsigned (cs : List Char) : Option Nat :=
  let negative := cs.head? = some '-'
  let digits := if cs.head? = some '-' ∨ cs.head? = some '+' then cs.tail else cs
  let value := digits.foldl (fun n c => 10 * n + (c.toNat - 48)) 0
  if digits ≠ [] ∧ digits.all Char.isDigit ∧ value < 2 ^ 32 then
    some (if negative then (2 ^ 32 - value) % 2 ^ 32 else value)
  else none

/-- A part of the property: the triplet (sleep, off, on). An `unsigned int` that makes a negative
`int` is the number of no pstate, and is refused as such later. -/
def readTriplet (part : List Char) : Except String (Nat × Nat × Nat) :=
  match Splitting.parts ':' part with
  | [sleep, off, on] =>
    match lexicalCastUnsigned (trim sleep), lexicalCastUnsigned (trim off),
      lexicalCastUnsigned (trim on) with
    | some sleepPs, some offPs, some onPs => .ok (sleepPs, offPs, onPs)
    | _, _, _ => .error ("Invalid platform file: the pstates of a comma-separated sleep pstate" ++
        " are invalid: impossible to convert the pstates to unsigned integers")
  | _ => .error ("Invalid platform file: each comma-separated part must be composed of three" ++
      " pstates of three colon-separated pstates")

/-- The loop over the parts of the property. -/
def Machine.readSleepProperty (m : Machine) (property : String) : Except String Machine :=
  forEach (fun m part => do
    let triplet ← readTriplet part
    m.readSleepPstates [triplet]) m (Splitting.parts ',' property.toList)

/-- One turn of the loop of `create_machines` with energy, for a host with the property. -/
def Machine.createWithProperty (h : Host) (property : String) : Except String Machine := do
  let m : Machine :=
    { permissions := h.permissions, pstates := ∅, sleepPstates := ∅,
      hostNbPstates := h.nbPstates, hostPstate := h.pstate }
  let m ← m.readSleepProperty property
  .ok m.declareComputationPstates

/-- The triplets of the property. -/
def sleepTriplets (property : String) : Except String (List (Nat × Nat × Nat)) :=
  collect readTriplet (Splitting.parts ',' property.toList)

theorem readSleepPstates_singleton_append (m : Machine) (t : Nat × Nat × Nat)
    (rest : List (Nat × Nat × Nat)) :
    m.readSleepPstates (t :: rest) =
      (m.readSleepPstates [t]) >>= fun m => m.readSleepPstates rest := by
  simp only [Machine.readSleepPstates]
  rw [← List.singleton_append, forEach_append]

/-- Reading the property is reading its parts, then giving their types to the pstates. -/
theorem readSleepProperty_eq_ok {m m' : Machine} {property : String} :
    m.readSleepProperty property = .ok m' ↔
      ∃ triplets, sleepTriplets property = .ok triplets ∧ m.readSleepPstates triplets = .ok m' := by
  unfold Machine.readSleepProperty sleepTriplets
  induction Splitting.parts ',' property.toList generalizing m with
  | nil =>
    simp only [forEach_nil, collect, Except.ok.injEq, exists_eq_left', Machine.readSleepPstates]
  | cons part parts ih =>
    simp only [forEach_cons, bind_eq_ok, collect, Except.ok.injEq]
    constructor
    · rintro ⟨m₁, ⟨t, ht, hm₁⟩, hrest⟩
      obtain ⟨ts, hts, hm'⟩ := ih.mp hrest
      refine ⟨t :: ts, ⟨t, ht, ts, hts, rfl⟩, ?_⟩
      rw [readSleepPstates_singleton_append, hm₁]
      exact hm'
    · rintro ⟨_, ⟨t, ht, ts, hts, rfl⟩, hm'⟩
      rw [readSleepPstates_singleton_append, bind_eq_ok] at hm'
      obtain ⟨m₁, hm₁, hm'⟩ := hm'
      exact ⟨m₁, ⟨t, ht, hm₁⟩, ih.mpr ⟨ts, hts, hm'⟩⟩

theorem createWithProperty_eq_ok {h : Host} {property : String} {m : Machine} :
    Machine.createWithProperty h property = .ok m ↔
      ∃ triplets, sleepTriplets property = .ok triplets ∧
        Machine.create true { h with sleepPstates := triplets } = .ok m := by
  simp only [Machine.createWithProperty, Machine.create, if_true, bind_eq_ok,
    readSleepProperty_eq_ok]
  constructor
  · rintro ⟨m₁, ⟨triplets, htriplets, hm₁⟩, hm⟩
    exact ⟨triplets, htriplets, m₁, hm₁, hm⟩
  · rintro ⟨triplets, htriplets, m₁, hm₁, hm⟩
    exact ⟨m₁, ⟨triplets, htriplets, hm₁⟩, hm⟩

/-! ### The types that the triplets give -/

/-- The type that a triplet writes for a pstate: its virtual pstates are written last. -/
def tripletType (t : Nat × Nat × Nat) (ps : Nat) : Option PStateType :=
  if ps = t.2.1 ∨ ps = t.2.2 then some .transitionVirtualPstate
  else if ps = t.1 then some .sleepPstate
  else none

/-- The last type written for a pstate. -/
def lastType : List (Nat × Nat × Nat) → Nat → Option PStateType
  | [], _ => none
  | t :: rest, ps => (lastType rest ps).or (tripletType t ps)

/-- The last entry written for a sleep pstate. -/
def lastEntry : List (Nat × Nat × Nat) → Nat → Option SleepPState
  | [], _ => none
  | t :: rest, ps =>
    (lastEntry rest ps).or (if ps = t.1 then some ⟨t.1, t.2.2, t.2.1⟩ else none)

/-- What is accepted next: a virtual pstate of a triplet has no type yet, or is already virtual. -/
def Acceptable (type : Nat → Option PStateType) : List (Nat × Nat × Nat) → Prop
  | [] => True
  | t :: rest => (∀ ps, ps = t.2.1 ∨ ps = t.2.2 → ∀ old, type ps = some old →
      old = .transitionVirtualPstate) ∧
    Acceptable (fun ps => (tripletType t ps).or (type ps)) rest

/-- What one triplet changes. -/
theorem readSleepPstates_one {m m' : Machine} {t : Nat × Nat × Nat}
    (h : m.readSleepPstates [t] = .ok m') :
    (∀ ps : Nat, m'.pstates.lookup (ps : Int) = (tripletType t ps).or (m.pstates.lookup (ps : Int))) ∧
      (∀ ps : Nat, m'.sleepPstates.lookup (ps : Int) =
        (if ps = t.1 then some ⟨t.1, t.2.2, t.2.1⟩ else none).or
          (m.sleepPstates.lookup (ps : Int))) ∧
      m'.hostNbPstates = m.hostNbPstates ∧
      ∀ ps, ps = t.2.1 ∨ ps = t.2.2 → ∀ old, m.pstates.lookup (ps : Int) = some old →
        old = .transitionVirtualPstate := by
  obtain ⟨sleepPs, offPs, onPs⟩ := t
  simp only [Machine.readSleepPstates, forEach_cons, forEach_nil, bind_eq_ok, xbtAssert_eq_ok,
    Except.ok.injEq] at h
  obtain ⟨m₁, ⟨_, -, _, -, _, -, _, hon, _, hoff, rfl⟩, rfl⟩ := h
  refine ⟨fun ps => ?_, fun ps => ?_, rfl, ?_⟩
  · simp only [tripletType]
    by_cases hoffps : ps = offPs
    · subst hoffps
      simp
    · by_cases honps : ps = onPs
      · subst honps
        simp [hoffps, AList.lookup_insert_ne]
      · by_cases hsleep : ps = sleepPs
        · subst hsleep
          simp [hoffps, honps, AList.lookup_insert_ne]
        · simp [hoffps, honps, hsleep, AList.lookup_insert_ne]
  · by_cases hsleep : ps = sleepPs
    · subst hsleep
      simp
    · simp [hsleep, AList.lookup_insert_ne]
  · intro ps hps old hold
    simp only at hps
    rcases hps with rfl | rfl
    · simpa [Machine.pstateType, hold] using hoff (by simp [Machine.hasPstate, hold])
    · simpa [Machine.pstateType, hold] using hon (by simp [Machine.hasPstate, hold])

/-- What a list of triplets changes. -/
theorem readSleepPstates_effect {m m' : Machine} {triplets : List (Nat × Nat × Nat)}
    (h : m.readSleepPstates triplets = .ok m') :
    (∀ ps : Nat, m'.pstates.lookup (ps : Int) =
        (lastType triplets ps).or (m.pstates.lookup (ps : Int))) ∧
      (∀ ps : Nat, m'.sleepPstates.lookup (ps : Int) =
        (lastEntry triplets ps).or (m.sleepPstates.lookup (ps : Int))) ∧
      m'.hostNbPstates = m.hostNbPstates ∧
      Acceptable (fun ps => m.pstates.lookup (ps : Int)) triplets := by
  induction triplets generalizing m with
  | nil =>
    simp only [Machine.readSleepPstates, forEach_nil, Except.ok.injEq] at h
    subst h
    exact ⟨fun ps => rfl, fun ps => rfl, rfl, trivial⟩
  | cons t rest ih =>
    rw [readSleepPstates_singleton_append, bind_eq_ok] at h
    obtain ⟨m₁, hone, hrest⟩ := h
    obtain ⟨htype, hentry, hnb, hfirst⟩ := readSleepPstates_one hone
    obtain ⟨htypes, hentries, hnbs, haccept⟩ := ih hrest
    refine ⟨fun ps => ?_, fun ps => ?_, hnbs.trans hnb, hfirst, ?_⟩
    · rw [htypes, htype, lastType, Option.or_assoc]
    · rw [hentries, hentry, lastEntry, Option.or_assoc]
    · simpa only [htype] using haccept

/-! ### Which triplets keep their types -/

/-- The sleep pstates of the triplets. -/
def sleepPstatesOf (triplets : List (Nat × Nat × Nat)) : List Nat := triplets.map fun t => t.1

/-- A triplet that no later one replaces has no virtual pstate that is the sleep pstate of itself
or of a later triplet. -/
def VirtualsKept : List (Nat × Nat × Nat) → Prop
  | [] => True
  | (sleepPs, offPs, onPs) :: rest =>
    (sleepPs ∈ sleepPstatesOf rest ∨
      ∀ ps ∈ sleepPs :: sleepPstatesOf rest, ps ≠ offPs ∧ ps ≠ onPs) ∧
    VirtualsKept rest

/-- A pstate is a sleep pstate with an entry whose virtual pstates are virtual. -/
def SleepHeld (triplets : List (Nat × Nat × Nat)) (ps : Nat) : Prop :=
  lastType triplets ps = some .sleepPstate ∧
    ∃ entry, lastEntry triplets ps = some entry ∧ entry.sleepPstate = ps ∧
      lastType triplets entry.switchOnVirtualPstate = some .transitionVirtualPstate ∧
      lastType triplets entry.switchOffVirtualPstate = some .transitionVirtualPstate

theorem tripletType_eq_none_iff {t : Nat × Nat × Nat} {ps : Nat} :
    tripletType t ps = none ↔ ps ≠ t.1 ∧ ps ≠ t.2.1 ∧ ps ≠ t.2.2 := by
  unfold tripletType
  split
  · next h => simp; tauto
  · next h =>
    split
    · next hs => simp [hs]
    · next hs => simp; tauto

theorem tripletType_ne_computation (t : Nat × Nat × Nat) (ps : Nat) :
    tripletType t ps ≠ some .computationPstate := by
  unfold tripletType
  split
  · simp
  · split <;> simp

/-- A pstate of no triplet is given no type. -/
theorem lastType_eq_none_iff {triplets : List (Nat × Nat × Nat)} {ps : Nat} :
    lastType triplets ps = none ↔ ∀ t ∈ triplets, ps ≠ t.1 ∧ ps ≠ t.2.1 ∧ ps ≠ t.2.2 := by
  induction triplets with
  | nil => simp [lastType]
  | cons t rest ih =>
    rw [lastType, Option.or_eq_none_iff, ih, tripletType_eq_none_iff, List.forall_mem_cons]
    exact and_comm

theorem lastType_ne_computation (triplets : List (Nat × Nat × Nat)) (ps : Nat) :
    lastType triplets ps ≠ some .computationPstate := by
  induction triplets with
  | nil => simp [lastType]
  | cons t rest ih =>
    rw [lastType]
    cases hrest : lastType rest ps with
    | none => exact tripletType_ne_computation t ps
    | some type =>
      intro h
      exact ih (hrest.trans h)

/-- A pstate that is no sleep pstate is given no type, or a virtual one. -/
theorem lastType_of_notMem {triplets : List (Nat × Nat × Nat)} {ps : Nat}
    (h : ps ∉ sleepPstatesOf triplets) :
    lastType triplets ps = none ∨ lastType triplets ps = some .transitionVirtualPstate := by
  induction triplets with
  | nil => exact .inl rfl
  | cons t rest ih =>
    rw [sleepPstatesOf, List.map_cons, List.mem_cons, not_or] at h
    rw [lastType]
    rcases ih h.2 with hrest | hrest
    · rw [hrest, Option.none_or, tripletType]
      split
      · exact .inr rfl
      · rw [if_neg h.1]
        exact .inl rfl
    · exact .inr (by rw [hrest]; rfl)

/-- No later triplet takes a sleep pstate as a virtual one. -/
theorem Acceptable.sleep_kept {type : Nat → Option PStateType} {triplets : List (Nat × Nat × Nat)}
    {ps : Nat} (h : Acceptable type triplets) (hps : type ps = some .sleepPstate) :
    ∀ t ∈ triplets, ps ≠ t.2.1 ∧ ps ≠ t.2.2 := by
  induction triplets generalizing type with
  | nil => simp
  | cons t rest ih =>
    obtain ⟨hfirst, hrest⟩ := h
    have hne : ps ≠ t.2.1 ∧ ps ≠ t.2.2 := by
      rw [← not_or]
      intro hvirtual
      cases hfirst ps hvirtual _ hps
    refine List.forall_mem_cons.mpr ⟨hne, ih hrest ?_⟩
    simp only [tripletType, hne.1, hne.2, or_self, if_false]
    split
    · rfl
    · exact hps

theorem lastEntry_isSome_iff {triplets : List (Nat × Nat × Nat)} {ps : Nat} :
    (lastEntry triplets ps).isSome = true ↔ ps ∈ sleepPstatesOf triplets := by
  induction triplets with
  | nil => simp [lastEntry, sleepPstatesOf]
  | cons t rest ih =>
    rw [lastEntry, Option.isSome_or, Bool.or_eq_true, ih, sleepPstatesOf, sleepPstatesOf,
      List.map_cons, List.mem_cons]
    by_cases h : ps = t.1
    · simp [h]
    · simp [h]

/-- The pstates of the last entry are those of a triplet. -/
theorem mem_of_lastEntry {triplets : List (Nat × Nat × Nat)} {ps : Nat} {entry : SleepPState}
    (h : lastEntry triplets ps = some entry) :
    (ps, entry.switchOffVirtualPstate, entry.switchOnVirtualPstate) ∈ triplets ∧
      entry.sleepPstate = ps := by
  induction triplets with
  | nil => cases h
  | cons t rest ih =>
    rw [lastEntry, Option.or_eq_some_iff] at h
    rcases h with h | ⟨-, h⟩
    · exact ⟨List.mem_cons_of_mem _ (ih h).1, (ih h).2⟩
    · split at h
      · next hps =>
        cases h
        exact ⟨by rw [hps]; exact List.mem_cons_self, hps.symm⟩
      · cases h

/-- A pstate of a later triplet has the type that the later triplets give. -/
theorem lastType_cons_of_mem {t u : Nat × Nat × Nat} {rest : List (Nat × Nat × Nat)} {ps : Nat}
    (hu : u ∈ rest) (hps : ps = u.1 ∨ ps = u.2.1 ∨ ps = u.2.2) :
    lastType (t :: rest) ps = lastType rest ps := by
  have hsome : lastType rest ps ≠ none := by
    rw [Ne, lastType_eq_none_iff]
    intro h
    obtain ⟨h1, h2, h3⟩ := h u hu
    rcases hps with rfl | rfl | rfl
    · exact h1 rfl
    · exact h2 rfl
    · exact h3 rfl
  rw [lastType]
  cases hrest : lastType rest ps with
  | none => exact absurd hrest hsome
  | some type => rfl

/-- An earlier triplet changes nothing for a sleep pstate of a later one. -/
theorem sleepHeld_cons_of_mem {t : Nat × Nat × Nat} {rest : List (Nat × Nat × Nat)} {ps : Nat}
    (hps : ps ∈ sleepPstatesOf rest) : SleepHeld (t :: rest) ps ↔ SleepHeld rest ps := by
  obtain ⟨u, hu, rfl⟩ := List.mem_map.mp hps
  obtain ⟨entry, hentry⟩ := Option.isSome_iff_exists.mp (lastEntry_isSome_iff.mpr hps)
  have hcons : lastEntry (t :: rest) u.1 = some entry := by rw [lastEntry, hentry]; rfl
  obtain ⟨hmem, -⟩ := mem_of_lastEntry hentry
  simp only [SleepHeld, hcons, hentry, Option.some.injEq, exists_eq_left',
    lastType_cons_of_mem hu (.inl rfl), lastType_cons_of_mem hmem (.inr (.inl rfl)),
    lastType_cons_of_mem hmem (.inr (.inr rfl))]

/-- The triplet that a sleep pstate keeps: it holds exactly when no sleep pstate of it or of a
later triplet is one of its virtual pstates. -/
theorem sleepHeld_head_iff {type : Nat → Option PStateType} {sleepPs offPs onPs : Nat}
    {rest : List (Nat × Nat × Nat)} (haccept : Acceptable type ((sleepPs, offPs, onPs) :: rest))
    (hlast : sleepPs ∉ sleepPstatesOf rest) (hrest : ∀ ps ∈ sleepPstatesOf rest, SleepHeld rest ps) :
    SleepHeld ((sleepPs, offPs, onPs) :: rest) sleepPs ↔
      ∀ ps ∈ sleepPs :: sleepPstatesOf rest, ps ≠ offPs ∧ ps ≠ onPs := by
  have hentry : lastEntry ((sleepPs, offPs, onPs) :: rest) sleepPs =
      some ⟨sleepPs, onPs, offPs⟩ := by
    have hnone : lastEntry rest sleepPs = none := by
      rw [← Option.not_isSome_iff_eq_none, lastEntry_isSome_iff]
      exact hlast
    rw [lastEntry, hnone]
    simp
  simp only [SleepHeld, hentry, Option.some.injEq, exists_eq_left', true_and]
  constructor
  · rintro ⟨hsleep, hon, hoff⟩
    have hne : ∀ ps ∈ sleepPs :: sleepPstatesOf rest,
        lastType ((sleepPs, offPs, onPs) :: rest) ps = some .sleepPstate := by
      intro ps hps
      rcases List.mem_cons.mp hps with rfl | hps
      · exact hsleep
      · obtain ⟨u, hu, rfl⟩ := List.mem_map.mp hps
        rw [lastType_cons_of_mem hu (.inl rfl)]
        exact (hrest _ hps).1
    intro ps hps
    constructor
    · rintro rfl
      cases (hne _ hps).symm.trans hoff
    · rintro rfl
      cases (hne _ hps).symm.trans hon
  · intro hne
    have hself := hne sleepPs List.mem_cons_self
    have hvirtual : ∀ ps, ps = offPs ∨ ps = onPs →
        lastType ((sleepPs, offPs, onPs) :: rest) ps = some .transitionVirtualPstate := by
      intro ps hps
      have hnot : ps ∉ sleepPstatesOf rest := by
        intro hmem
        obtain ⟨hoff, hon⟩ := hne ps (List.mem_cons_of_mem _ hmem)
        exact hps.elim hoff hon
      rw [lastType]
      rcases lastType_of_notMem hnot with h | h
      · rw [h, Option.none_or, tripletType, if_pos hps]
      · rw [h]
        rfl
    refine ⟨?_, hvirtual _ (.inr rfl), hvirtual _ (.inl rfl)⟩
    have hwritten : tripletType (sleepPs, offPs, onPs) sleepPs = some .sleepPstate := by
      simp [tripletType, hself.1, hself.2]
    have hkept : ∀ u ∈ rest, sleepPs ≠ u.2.1 ∧ sleepPs ≠ u.2.2 := by
      apply haccept.2.sleep_kept
      rw [hwritten]
      rfl
    have hnone : lastType rest sleepPs = none := by
      rw [lastType_eq_none_iff]
      intro u hu
      refine ⟨?_, hkept u hu⟩
      rintro rfl
      exact hlast (List.mem_map_of_mem hu)
    rw [lastType, hnone, Option.none_or, hwritten]

/-- The accepted triplets hold exactly when their virtual pstates are kept. -/
theorem sleepHeld_iff_virtualsKept {type : Nat → Option PStateType}
    {triplets : List (Nat × Nat × Nat)} (h : Acceptable type triplets) :
    (∀ ps ∈ sleepPstatesOf triplets, SleepHeld triplets ps) ↔ VirtualsKept triplets := by
  induction triplets generalizing type with
  | nil => simp [sleepPstatesOf, VirtualsKept]
  | cons t rest ih =>
    obtain ⟨sleepPs, offPs, onPs⟩ := t
    have hlater : (∀ ps ∈ sleepPstatesOf rest, SleepHeld ((sleepPs, offPs, onPs) :: rest) ps) ↔
        ∀ ps ∈ sleepPstatesOf rest, SleepHeld rest ps :=
      forall₂_congr fun ps hps => sleepHeld_cons_of_mem hps
    have hcons : sleepPstatesOf ((sleepPs, offPs, onPs) :: rest) =
        sleepPs :: sleepPstatesOf rest := rfl
    rw [VirtualsKept, hcons, List.forall_mem_cons, hlater, ih h.2]
    by_cases hlast : sleepPs ∈ sleepPstatesOf rest
    · simp only [hlast, true_or, true_and, and_iff_right_iff_imp]
      intro hkept
      exact (sleepHeld_cons_of_mem hlast).mpr ((ih h.2).mpr hkept _ hlast)
    · simp only [hlast, false_or]
      exact and_congr_left fun hkept => sleepHeld_head_iff h hlast ((ih h.2).mpr hkept)

/-! ### The machine -/

/-- The pstates of a machine are what the triplets of the property say. -/
structure PstatesDescribed (triplets : List (Nat × Nat × Nat)) (m : Machine) : Prop where
  typed : ∀ ps : Nat, ps < m.hostNbPstates → ∃! type, m.pstates.lookup (ps : Int) = some type
  sleep : ∀ t ∈ triplets, m.pstates.lookup (t.1 : Int) = some .sleepPstate ∧
    ∃ entry, m.sleepPstates.lookup (t.1 : Int) = some entry ∧ entry.sleepPstate = t.1 ∧
      m.pstates.lookup (entry.switchOnVirtualPstate : Int) = some .transitionVirtualPstate ∧
      m.pstates.lookup (entry.switchOffVirtualPstate : Int) = some .transitionVirtualPstate
  computation : ∀ ps : Nat, ps < m.hostNbPstates →
    (m.pstates.lookup (ps : Int) = some .computationPstate ↔
      ∀ t ∈ triplets, ps ≠ t.1 ∧ ps ≠ t.2.1 ∧ ps ≠ t.2.2)

/-- The first `n` pstates get a type if they have none; nothing else changes. -/
theorem touchPstates_effect (m : Machine) (n : Nat) :
    let m' := (List.range n).foldl (fun m ps => m.touchPstate (ps : Int)) m
    (∀ ps : Nat, m'.pstates.lookup (ps : Int) =
        (m.pstates.lookup (ps : Int)).or (if ps < n then some .computationPstate else none)) ∧
      m'.sleepPstates = m.sleepPstates ∧ m'.hostNbPstates = m.hostNbPstates := by
  induction n with
  | zero => simp
  | succ n ih =>
    obtain ⟨htypes, hsleep, hnb⟩ := ih
    rw [List.range_succ, List.foldl_append, List.foldl_cons, List.foldl_nil]
    refine ⟨fun ps => ?_, (Machine.touchPstate_sleepPstates _ _).trans hsleep,
      (Machine.touchPstate_hostNbPstates _ _).trans hnb⟩
    rw [Machine.lookup_touchPstate, htypes, Option.or_assoc]
    congr 1
    rcases lt_trichotomy ps n with h | rfl | h
    · simp [h, Nat.lt_succ_of_lt h]
    · simp
    · rw [if_neg (by omega), if_neg (by omega), if_neg (by omega)]
      rfl

theorem declareComputationPstates_eq (m : Machine) :
    m.declareComputationPstates =
      (List.range m.hostNbPstates).foldl (fun m ps => m.touchPstate (ps : Int)) m := by
  unfold Machine.declareComputationPstates
  rw [bind_pure_comp, List.map_eq_map, List.foldl_map]

theorem create_effect {h : Host} {m : Machine} (hcreate : Machine.create true h = .ok m) :
    (∀ ps : Nat, m.pstates.lookup (ps : Int) = (lastType h.sleepPstates ps).or
        (if ps < h.nbPstates then some .computationPstate else none)) ∧
      (∀ ps : Nat, m.sleepPstates.lookup (ps : Int) = lastEntry h.sleepPstates ps) ∧
      m.hostNbPstates = h.nbPstates ∧ Acceptable (fun _ => none) h.sleepPstates := by
  simp only [Machine.create, if_true, bind_eq_ok, Except.ok.injEq] at hcreate
  obtain ⟨m₁, hread, rfl⟩ := hcreate
  obtain ⟨htypes, hentries, hnb, haccept⟩ := readSleepPstates_effect hread
  obtain ⟨hdeclared, hsleep, hnb'⟩ := touchPstates_effect m₁ m₁.hostNbPstates
  simp only [AList.lookup_empty, Option.or_none] at htypes hentries haccept
  rw [declareComputationPstates_eq]
  refine ⟨fun ps => ?_, fun ps => ?_, hnb'.trans hnb, haccept⟩
  · rw [hdeclared, htypes, hnb]
  · rw [hsleep, hentries]

/-- The pstates of an accepted property are what its triplets say exactly when a triplet that no
later one replaces has no virtual pstate that is the sleep pstate of itself or of a later one. -/
theorem pstates_described_iff_virtuals_kept {h : Host} {property : String} {m : Machine}
    (hcreate : Machine.createWithProperty h property = .ok m) :
    ∃ triplets, sleepTriplets property = .ok triplets ∧
      (PstatesDescribed triplets m ↔ VirtualsKept triplets) := by
  obtain ⟨triplets, htriplets, hcreate⟩ := createWithProperty_eq_ok.mp hcreate
  obtain ⟨htypes, hentries, hnb, haccept⟩ := create_effect hcreate
  refine ⟨triplets, htriplets, ?_⟩
  rw [← sleepHeld_iff_virtualsKept haccept]
  have hlookup : ∀ ps type, type ≠ PStateType.computationPstate →
      (m.pstates.lookup ((ps : Nat) : Int) = some type ↔ lastType triplets ps = some type) := by
    intro ps type hne
    rw [htypes]
    cases hlast : lastType triplets ps with
    | some type' => simp
    | none =>
      split
      · simp [hne.symm]
      · simp
  constructor
  · intro hdescribed ps hps
    obtain ⟨t, ht, rfl⟩ := List.mem_map.mp hps
    obtain ⟨hsleep, entry, hentry, hself, hon, hoff⟩ := hdescribed.sleep t ht
    rw [hentries] at hentry
    rw [hlookup _ _ (by decide)] at hsleep hon hoff
    exact ⟨hsleep, entry, hentry, hself, hon, hoff⟩
  · intro hheld
    refine ⟨fun ps hps => ?_, fun t ht => ?_, fun ps hps => ?_⟩
    · rw [hnb] at hps
      rw [htypes, if_pos hps]
      cases lastType triplets ps with
      | some type => exact ⟨type, rfl, fun other hother => (Option.some.inj hother).symm⟩
      | none => exact ⟨.computationPstate, rfl, fun other hother => (Option.some.inj hother).symm⟩
    · obtain ⟨hsleep, entry, hentry, hself, hon, hoff⟩ := hheld _ (List.mem_map_of_mem ht)
      rw [hlookup _ _ (by decide)]
      refine ⟨hsleep, entry, (hentries _).trans hentry, hself, ?_, ?_⟩
      · rw [hlookup _ _ (by decide)]
        exact hon
      · rw [hlookup _ _ (by decide)]
        exact hoff
    · rw [hnb] at hps
      rw [htypes, if_pos hps, ← lastType_eq_none_iff]
      cases hlast : lastType triplets ps with
      | none => simp
      | some type =>
        have hne := lastType_ne_computation triplets ps
        rw [hlast] at hne
        simpa using hne

theorem pstates_described_with_one_triplet :
    ∃ m, Machine.createWithProperty { nbPstates := 4 } "0:1:2" = .ok m ∧
      ∃ triplets, sleepTriplets "0:1:2" = .ok triplets ∧
        (PstatesDescribed triplets m ↔ VirtualsKept triplets) := by
  have hok : (Machine.createWithProperty { nbPstates := 4 } "0:1:2").isOk = true := by
    decide +kernel
  cases hcreate : Machine.createWithProperty { nbPstates := 4 } "0:1:2" with
  | error message =>
    rw [hcreate] at hok
    cases hok
  | ok m => exact ⟨m, rfl, pstates_described_iff_virtuals_kept hcreate⟩

/-- The second triplet makes a sleep pstate of the pstate used to switch off in the first one. -/
theorem virtual_pstate_made_sleep_pstate :
    ∃ m, Machine.createWithProperty { nbPstates := 5 } "0:1:2,1:3:4" = .ok m ∧
      sleepTriplets "0:1:2,1:3:4" = .ok [(0, 1, 2), (1, 3, 4)] ∧
      ¬PstatesDescribed [(0, 1, 2), (1, 3, 4)] m := by
  have htriplets : sleepTriplets "0:1:2,1:3:4" = .ok [(0, 1, 2), (1, 3, 4)] := by decide +kernel
  have hok : (Machine.createWithProperty { nbPstates := 5 } "0:1:2,1:3:4").isOk = true := by
    decide +kernel
  cases hcreate : Machine.createWithProperty { nbPstates := 5 } "0:1:2,1:3:4" with
  | error message =>
    rw [hcreate] at hok
    cases hok
  | ok m =>
    refine ⟨m, rfl, htriplets, fun hdescribed => ?_⟩
    obtain ⟨triplets, htriplets', hcreate'⟩ := createWithProperty_eq_ok.mp hcreate
    rw [htriplets, Except.ok.injEq] at htriplets'
    subst htriplets'
    obtain ⟨htypes, hentries, -⟩ := create_effect hcreate'
    obtain ⟨-, entry, hentry, -, -, hoff⟩ := hdescribed.sleep (0, 1, 2) (by simp)
    rw [hentries] at hentry
    obtain rfl : entry = ⟨0, 2, 1⟩ := Option.some.inj (hentry.symm.trans (by decide))
    rw [htypes] at hoff
    exact absurd hoff (by decide)

end Batsim
