import Mathlib.Data.List.Induction
import Batsim.Lib.Splitting
import Batsim.Pstate

/-!
`CurrentSwitches` as the requests that are pending, the oldest first: each machine that is done is
taken from the oldest request that waits for it.
-/

namespace Batsim

open Checked

/-- The calls on a `CurrentSwitches`. -/
inductive SwitchCall where
  | addSwitch (machines : IntervalSet) (targetPstate : Int)
  | markSwitchAsDone (machineId : Nat) (targetPstate : Int)
deriving DecidableEq

namespace SwitchCall

/-- A call, after which the values returned so far are listed: nothing for `false`. -/
def apply (r : CurrentSwitches × List (Option IntervalSet)) :
    SwitchCall → Except String (CurrentSwitches × List (Option IntervalSet))
  | addSwitch machines targetPstate => .ok (r.1.addSwitch machines targetPstate, r.2)
  | markSwitchAsDone machineId targetPstate => do
    let (switches, done) ← r.1.markSwitchAsDone machineId targetPstate
    .ok (switches, r.2 ++ [done])

/-- What a call requests. -/
def request? : SwitchCall → Option (IntervalSet × Int)
  | addSwitch machines targetPstate => some (machines, targetPstate)
  | markSwitchAsDone _ _ => none

end SwitchCall

/-! ### The requests -/

/-- A request, numbered in the order in which the requests came. -/
structure SwitchRequest where
  number : Nat
  targetPstate : Int
  allMachines : IntervalSet
  remaining : IntervalSet
deriving DecidableEq

/-- The pending requests, the oldest first, those that are complete, and what was returned. -/
structure SwitchBook where
  pending : List SwitchRequest := []
  completed : List SwitchRequest := []
  returned : List (Option IntervalSet) := []
  nbRequests : Nat := 0

namespace SwitchBook

/-- A call is allowed: it requests something, or a pending request waits for the machine. -/
def Allows (b : SwitchBook) : SwitchCall → Prop
  | .addSwitch machines _ => machines.size ≠ 0
  | .markSwitchAsDone machineId targetPstate =>
    ∃ r ∈ b.pending, r.targetPstate = targetPstate ∧ machineId ∈ r.remaining

instance (b : SwitchBook) (call : SwitchCall) : Decidable (b.Allows call) :=
  match call with
  | .addSwitch machines _ => inferInstanceAs (Decidable (machines.size ≠ 0))
  | .markSwitchAsDone machineId targetPstate => inferInstanceAs (Decidable
      (∃ r ∈ b.pending, r.targetPstate = targetPstate ∧ machineId ∈ r.remaining))

/-- What a call should do. -/
inductive Step (b : SwitchBook) : SwitchCall → SwitchBook → Prop where
  | request {machines : IntervalSet} {targetPstate : Int} (hne : machines.size ≠ 0) :
      Step b (.addSwitch machines targetPstate)
        { b with
          pending := b.pending ++ [⟨b.nbRequests, targetPstate, machines, machines⟩]
          nbRequests := b.nbRequests + 1 }
  /-- the oldest request that waits for the machine goes on waiting for others -/
  | consume {before after : List SwitchRequest} {r : SwitchRequest} {machineId : Nat}
      (hpending : b.pending = before ++ r :: after) (hmem : machineId ∈ r.remaining)
      (holdest : ∀ q ∈ before, q.targetPstate = r.targetPstate → machineId ∉ q.remaining)
      (hleft : ∃ m ∈ r.remaining, m ≠ machineId) :
      Step b (.markSwitchAsDone machineId r.targetPstate)
        { b with
          pending := before ++ { r with remaining := r.remaining.remove machineId } :: after
          returned := b.returned ++ [none] }
  /-- the oldest request that waits for the machine waits for no other -/
  | complete {before after : List SwitchRequest} {r : SwitchRequest} {machineId : Nat}
      (hpending : b.pending = before ++ r :: after) (hmem : machineId ∈ r.remaining)
      (holdest : ∀ q ∈ before, q.targetPstate = r.targetPstate → machineId ∉ q.remaining)
      (hlast : ∀ m ∈ r.remaining, m = machineId) :
      Step b (.markSwitchAsDone machineId r.targetPstate)
        { b with
          pending := before ++ after
          completed := b.completed ++ [r]
          returned := b.returned ++ [some r.allMachines] }

/-- What a sequence of calls should lead to. -/
inductive After : List SwitchCall → SwitchBook → Prop where
  | nil : After [] {}
  | snoc {calls : List SwitchCall} {call : SwitchCall} {b b' : SwitchBook} (hcalls : After calls b)
      (hstep : Step b call b') : After (calls ++ [call]) b'

theorem Step.exists_of_allows {b : SwitchBook} {call : SwitchCall} (h : b.Allows call) :
    ∃ b', Step b call b' := by
  cases call with
  | addSwitch machines targetPstate => exact ⟨_, .request h⟩
  | markSwitchAsDone machineId targetPstate =>
    obtain ⟨q, hq, hwaits⟩ := h
    let waits : SwitchRequest → Bool := fun r =>
      decide (r.targetPstate = targetPstate ∧ machineId ∈ r.remaining)
    obtain ⟨r, hr⟩ : ∃ r, b.pending.find? waits = some r := by
      apply Option.isSome_iff_exists.mp
      rw [List.find?_isSome]
      exact ⟨q, hq, decide_eq_true hwaits⟩
    obtain ⟨hfound, before, after, hpending, hbefore⟩ := List.find?_eq_some_iff_append.mp hr
    obtain ⟨rfl, hmem⟩ := of_decide_eq_true hfound
    have holdest : ∀ q ∈ before, q.targetPstate = r.targetPstate → machineId ∉ q.remaining := by
      intro q hq hsame hin
      have hnot := hbefore q hq
      simp [waits, hsame, hin] at hnot
    by_cases hleft : ∃ m ∈ r.remaining, m ≠ machineId
    · exact ⟨_, .consume hpending hmem holdest hleft⟩
    · refine ⟨_, .complete hpending hmem holdest ?_⟩
      intro m hm
      by_contra hne
      exact hleft ⟨m, hm, hne⟩

/-- The oldest request that waits for the machine is one place of the list. -/
theorem oldest_unique {waits : SwitchRequest → Prop}
    {before before' after after' : List SwitchRequest} {r r' : SwitchRequest} (h : before ++ r :: after = before' ++ r' :: after') (hr : waits r)
    (hr' : waits r') (hbefore : ∀ q ∈ before, ¬waits q) (hbefore' : ∀ q ∈ before', ¬waits q) :
    before = before' ∧ r = r' ∧ after = after' := by
  induction before generalizing before' with
  | nil =>
    cases before' with
    | nil => simpa using h
    | cons q before' =>
      obtain ⟨rfl, -⟩ := List.cons.inj h
      exact absurd hr (hbefore' _ List.mem_cons_self)
  | cons p before ih =>
    cases before' with
    | nil =>
      obtain ⟨rfl, -⟩ := List.cons.inj h
      exact absurd hr' (hbefore _ List.mem_cons_self)
    | cons q before' =>
      obtain ⟨rfl, htail⟩ := List.cons.inj h
      obtain ⟨rfl, hrest⟩ := ih htail (fun q hq => hbefore q (List.mem_cons_of_mem _ hq))
        (fun q hq => hbefore' q (List.mem_cons_of_mem _ hq))
      exact ⟨rfl, hrest⟩

theorem Step.markSwitchAsDone_cases {b b' : SwitchBook} {machineId : Nat} {targetPstate : Int}
    (h : Step b (.markSwitchAsDone machineId targetPstate) b') :
    ∃ before r after, b.pending = before ++ r :: after ∧
      (r.targetPstate = targetPstate ∧ machineId ∈ r.remaining) ∧
      (∀ q ∈ before, ¬(q.targetPstate = targetPstate ∧ machineId ∈ q.remaining)) ∧
      ((∃ m ∈ r.remaining, m ≠ machineId) ∧ b' = { b with
          pending := before ++ { r with remaining := r.remaining.remove machineId } :: after
          returned := b.returned ++ [none] } ∨
        (∀ m ∈ r.remaining, m = machineId) ∧ b' = { b with
          pending := before ++ after
          completed := b.completed ++ [r]
          returned := b.returned ++ [some r.allMachines] }) := by
  cases h with
  | consume hpending hmem holdest hleft =>
    exact ⟨_, _, _, hpending, ⟨rfl, hmem⟩, fun q hq hw => holdest q hq hw.1 hw.2,
      .inl ⟨hleft, rfl⟩⟩
  | complete hpending hmem holdest hlast =>
    exact ⟨_, _, _, hpending, ⟨rfl, hmem⟩, fun q hq hw => holdest q hq hw.1 hw.2,
      .inr ⟨hlast, rfl⟩⟩

theorem Step.unique {b b₁ b₂ : SwitchBook} {call : SwitchCall} (h₁ : Step b call b₁)
    (h₂ : Step b call b₂) : b₁ = b₂ := by
  cases call with
  | addSwitch machines targetPstate =>
    cases h₁
    cases h₂
    rfl
  | markSwitchAsDone machineId targetPstate =>
    obtain ⟨before₁, r₁, after₁, hpending₁, hwaits₁, hbefore₁, hcase₁⟩ := h₁.markSwitchAsDone_cases
    obtain ⟨before₂, r₂, after₂, hpending₂, hwaits₂, hbefore₂, hcase₂⟩ := h₂.markSwitchAsDone_cases
    have hsame : before₁ ++ r₁ :: after₁ = before₂ ++ r₂ :: after₂ := hpending₁.symm.trans hpending₂
    obtain ⟨rfl, rfl, rfl⟩ := oldest_unique hsame hwaits₁ hwaits₂ hbefore₁ hbefore₂
    rcases hcase₁ with ⟨hleft, rfl⟩ | ⟨hlast, rfl⟩ <;>
      rcases hcase₂ with ⟨hleft', rfl⟩ | ⟨hlast', rfl⟩
    · rfl
    · obtain ⟨m, hm, hne⟩ := hleft
      exact absurd (hlast' m hm) hne
    · obtain ⟨m, hm, hne⟩ := hleft'
      exact absurd (hlast m hm) hne
    · rfl

theorem After.unique {calls : List SwitchCall} {b₁ b₂ : SwitchBook} (h₁ : After calls b₁)
    (h₂ : After calls b₂) : b₁ = b₂ := by
  induction h₁ generalizing b₂ with
  | nil =>
    generalize hcalls : ([] : List SwitchCall) = calls at h₂
    cases h₂ with
    | nil => rfl
    | snoc => simp at hcalls
  | @snoc calls call b b' _ hstep ih =>
    generalize hcalls : calls ++ [call] = calls' at h₂
    cases h₂ with
    | nil => simp at hcalls
    | snoc hbefore hlast =>
      obtain ⟨rfl, hcall⟩ := List.append_inj' hcalls rfl
      obtain rfl : call = _ := List.singleton_injective hcall
      obtain rfl := ih hbefore
      exact hstep.unique hlast

end SwitchBook

/-- Each request has machines, and each machine that is done is waited for by a pending request for
its pstate. -/
def Justified (calls : List SwitchCall) : Prop :=
  ∀ before call after, calls = before ++ call :: after → ∀ b, SwitchBook.After before b →
    b.Allows call

theorem Justified.exists_after {calls : List SwitchCall} (h : Justified calls) :
    ∃ b, SwitchBook.After calls b := by
  induction calls using List.reverseRecOn with
  | nil => exact ⟨{}, .nil⟩
  | append_singleton calls call ih =>
    have hcalls : Justified calls := by
      intro before c after hsplit
      exact h before c (after ++ [call]) (by rw [hsplit]; simp)
    obtain ⟨b, hb⟩ := ih hcalls
    obtain ⟨b', hstep⟩ := SwitchBook.Step.exists_of_allows (h calls call [] rfl b hb)
    exact ⟨b', .snoc hb hstep⟩

/-- A call that a pending request waits for may follow. -/
theorem Justified.snoc {calls : List SwitchCall} {call : SwitchCall} {b : SwitchBook}
    (h : Justified calls) (hb : SwitchBook.After calls b) (hallows : b.Allows call) :
    Justified (calls ++ [call]) := by
  intro before c after hsplit b' hb'
  rcases Splitting.cases_concat hsplit with ⟨after, hcalls⟩ | ⟨rfl, rfl⟩
  · exact h before c after hcalls b' hb'
  · rw [hb'.unique hb]
    exact hallows

/-! ### The lists of switches -/

/-- A request in the list of its pstate. -/
def SwitchRequest.toSwitch (r : SwitchRequest) : Switch :=
  ⟨r.targetPstate, r.allMachines, r.remaining⟩

/-- The requests for a pstate. -/
def requestsFor (targetPstate : Int) (rs : List SwitchRequest) : List SwitchRequest :=
  rs.filter fun r => r.targetPstate = targetPstate

/-- The map has a list for each pstate that some pending requests are for: these requests. -/
structure CurrentSwitches.Represents (cs : CurrentSwitches) (pending : List SwitchRequest) :
    Prop where
  lists : ∀ p, (cs.switches.lookup p).getD [] = (requestsFor p pending).map SwitchRequest.toSwitch
  ne_nil : ∀ p, cs.switches.lookup p ≠ some []

theorem IntervalSet.size_remove_eq_zero {s : IntervalSet} {m : Nat} :
    (s.remove m).size = 0 ↔ ∀ x ∈ s, x = m := by
  rw [size, List.length_eq_zero_iff, List.eq_nil_iff_forall_not_mem]
  constructor
  · intro h x hx
    by_contra hne
    exact h x (mem_elements.mpr (mem_remove.mpr ⟨hx, hne⟩))
  · intro h x hx
    obtain ⟨hin, hne⟩ := mem_remove.mp (mem_elements.mp hx)
    exact hne (h x hin)

namespace CurrentSwitches

/-- The first switch that waits for the machine is the one that is updated. -/
theorem markFirst_append {before after : List Switch} {s : Switch} {machineId : Nat}
    (hbefore : ∀ q ∈ before, machineId ∉ q.switchingMachines)
    (hmem : machineId ∈ s.switchingMachines) :
    markFirst machineId (before ++ s :: after) =
      if (s.switchingMachines.remove machineId).size = 0 then
        some (before ++ after, some s.allMachines)
      else some (before ++
        { s with switchingMachines := s.switchingMachines.remove machineId } :: after, none) := by
  induction before with
  | nil =>
    rw [List.nil_append, markFirst, if_pos hmem]
    rfl
  | cons q before ih =>
    obtain ⟨hq, hbefore⟩ := List.forall_mem_cons.mp hbefore
    rw [List.cons_append, markFirst, if_neg hq, ih hbefore]
    split <;> rfl

variable {cs : CurrentSwitches} {pending before after : List SwitchRequest}

theorem Represents.empty : Represents ⟨∅⟩ [] where
  lists p := by rw [AList.lookup_empty]; rfl
  ne_nil p := by rw [AList.lookup_empty]; exact Option.some_ne_none _ |>.symm

theorem Represents.addSwitch (h : cs.Represents pending) (number : Nat) (machines : IntervalSet)
    (targetPstate : Int) : (cs.addSwitch machines targetPstate).Represents
      (pending ++ [⟨number, targetPstate, machines, machines⟩]) := by
  have hinsert : (cs.addSwitch machines targetPstate).switches =
      cs.switches.insert targetPstate
        ((cs.switches.lookup targetPstate).getD [] ++ [⟨targetPstate, machines, machines⟩]) := by
    unfold CurrentSwitches.addSwitch
    cases cs.switches.lookup targetPstate <;> rfl
  constructor
  · intro p
    rw [hinsert, requestsFor, List.filter_append, List.map_append]
    by_cases hp : p = targetPstate
    · subst hp
      rw [AList.lookup_insert, Option.getD_some, h.lists p]
      simp [requestsFor, SwitchRequest.toSwitch]
    · rw [AList.lookup_insert_ne hp, h.lists p]
      simp [requestsFor, Ne.symm hp]
  · intro p
    rw [hinsert]
    by_cases hp : p = targetPstate
    · subst hp
      rw [AList.lookup_insert]
      simp
    · rw [AList.lookup_insert_ne hp]
      exact h.ne_nil p

theorem requestsFor_append (p : Int) (xs ys : List SwitchRequest) :
    requestsFor p (xs ++ ys) = requestsFor p xs ++ requestsFor p ys := List.filter_append ..

theorem requestsFor_cons_self (r : SwitchRequest) (rs : List SwitchRequest) :
    requestsFor r.targetPstate (r :: rs) = r :: requestsFor r.targetPstate rs := by
  simp [requestsFor]

theorem requestsFor_cons_other {p : Int} {r : SwitchRequest} (h : r.targetPstate ≠ p)
    (rs : List SwitchRequest) : requestsFor p (r :: rs) = requestsFor p rs := by
  simp [requestsFor, h]

/-- The list of a pstate is replaced, or taken away with its last request. -/
def withList (cs : CurrentSwitches) (targetPstate : Int) : List Switch → CurrentSwitches
  | [] => ⟨cs.switches.erase targetPstate⟩
  | s :: list => ⟨cs.switches.insert targetPstate (s :: list)⟩

theorem Represents.withList {p : Int} {list : List Switch} {pending' : List SwitchRequest}
    (h : cs.Represents pending) (hlist : list = (requestsFor p pending').map SwitchRequest.toSwitch)
    (hother : ∀ q, q ≠ p → requestsFor q pending' = requestsFor q pending) :
    (cs.withList p list).Represents pending' := by
  cases list with
  | nil =>
    constructor
    · intro q
      by_cases hq : q = p
      · subst hq
        simp only [CurrentSwitches.withList, AList.lookup_erase, Option.getD_none]
        exact hlist
      · simp only [CurrentSwitches.withList, AList.lookup_erase_ne hq, hother q hq]
        exact h.lists q
    · intro q
      by_cases hq : q = p
      · subst hq
        simp only [CurrentSwitches.withList, AList.lookup_erase]
        exact (Option.some_ne_none _).symm
      · simp only [CurrentSwitches.withList, AList.lookup_erase_ne hq]
        exact h.ne_nil q
  | cons s list =>
    constructor
    · intro q
      by_cases hq : q = p
      · subst hq
        simp only [CurrentSwitches.withList, AList.lookup_insert, Option.getD_some]
        exact hlist
      · simp only [CurrentSwitches.withList, AList.lookup_insert_ne hq, hother q hq]
        exact h.lists q
    · intro q
      by_cases hq : q = p
      · subst hq
        simp only [CurrentSwitches.withList, AList.lookup_insert]
        simp
      · simp only [CurrentSwitches.withList, AList.lookup_insert_ne hq]
        exact h.ne_nil q

variable {machineId : Nat} {targetPstate : Int}

/-- `mark_switch_as_done`, when the list of the pstate is known. -/
theorem markSwitchAsDone_eq {list list' : List Switch} {done : Option IntervalSet}
    (hlookup : cs.switches.lookup targetPstate = some list)
    (hmark : markFirst machineId list = some (list', done)) :
    cs.markSwitchAsDone machineId targetPstate = .ok (cs.withList targetPstate list', done) := by
  simp only [markSwitchAsDone, hlookup, hmark]
  cases list' <;> rfl

/-- A machine that is done is taken from the oldest request that waits for it. -/
theorem Represents.markSwitchAsDone {r : SwitchRequest}
    (h : cs.Represents (before ++ r :: after)) (hmem : machineId ∈ r.remaining)
    (holdest : ∀ q ∈ before, q.targetPstate = r.targetPstate → machineId ∉ q.remaining) :
    ∃ cs', cs.markSwitchAsDone machineId r.targetPstate = .ok (cs',
        if (r.remaining.remove machineId).size = 0 then some r.allMachines else none) ∧
      cs'.Represents (if (r.remaining.remove machineId).size = 0 then before ++ after
        else before ++ { r with remaining := r.remaining.remove machineId } :: after) := by
  have hlist := h.lists r.targetPstate
  rw [requestsFor_append, requestsFor_cons_self, List.map_append, List.map_cons] at hlist
  obtain ⟨list, hlookup⟩ : ∃ list, cs.switches.lookup r.targetPstate = some list := by
    cases hnone : cs.switches.lookup r.targetPstate with
    | some list => exact ⟨list, rfl⟩
    | none =>
      rw [hnone, Option.getD_none] at hlist
      simp at hlist
  rw [hlookup, Option.getD_some] at hlist
  have hfirst : ∀ q ∈ (requestsFor r.targetPstate before).map SwitchRequest.toSwitch,
      machineId ∉ q.switchingMachines := by
    intro q hq
    obtain ⟨q', hq', rfl⟩ := List.mem_map.mp hq
    obtain ⟨hin, hsame⟩ := List.mem_filter.mp hq'
    exact holdest q' hin (of_decide_eq_true hsame)
  have hmark : markFirst machineId list =
      if (r.toSwitch.switchingMachines.remove machineId).size = 0 then
        some ((requestsFor r.targetPstate before).map SwitchRequest.toSwitch ++
          (requestsFor r.targetPstate after).map SwitchRequest.toSwitch, some r.allMachines)
      else
        some ((requestsFor r.targetPstate before).map SwitchRequest.toSwitch ++
          { r.toSwitch with switchingMachines := r.remaining.remove machineId } ::
            (requestsFor r.targetPstate after).map SwitchRequest.toSwitch, none) := by
    rw [hlist]
    exact markFirst_append hfirst hmem
  by_cases hlast : (r.remaining.remove machineId).size = 0
  · rw [show r.toSwitch.switchingMachines = r.remaining from rfl, if_pos hlast] at hmark
    rw [if_pos hlast, if_pos hlast]
    refine ⟨_, markSwitchAsDone_eq hlookup hmark, h.withList ?_ ?_⟩
    · rw [requestsFor_append, List.map_append]
    · intro q hq
      rw [requestsFor_append, requestsFor_append, requestsFor_cons_other (Ne.symm hq)]
  · rw [show r.toSwitch.switchingMachines = r.remaining from rfl, if_neg hlast] at hmark
    rw [if_neg hlast, if_neg hlast]
    let rest : SwitchRequest := { r with remaining := r.remaining.remove machineId }
    refine ⟨_, markSwitchAsDone_eq hlookup hmark, h.withList ?_ ?_⟩
    · rw [requestsFor_append, List.map_append, requestsFor_cons_self rest]
      rfl
    · intro q hq
      have hrest : rest.targetPstate ≠ q := Ne.symm hq
      rw [requestsFor_append, requestsFor_append, requestsFor_cons_other hrest,
        requestsFor_cons_other (Ne.symm hq)]

/-- What a call should do is what it does. -/
theorem Represents.apply {b b' : SwitchBook} {call : SwitchCall} (h : cs.Represents b.pending)
    (hstep : b.Step call b') :
    ∃ cs', call.apply (cs, b.returned) = .ok (cs', b'.returned) ∧ cs'.Represents b'.pending := by
  cases hstep with
  | @request machines targetPstate hne =>
    exact ⟨cs.addSwitch machines targetPstate, rfl, h.addSwitch b.nbRequests machines _⟩
  | @consume before after r machineId hpending hmem holdest hleft =>
    rw [hpending] at h
    obtain ⟨cs', hmark, hcs'⟩ := h.markSwitchAsDone hmem holdest
    have hsize : (r.remaining.remove machineId).size ≠ 0 := by
      rw [ne_eq, IntervalSet.size_remove_eq_zero]
      obtain ⟨m, hm, hne⟩ := hleft
      exact fun hall => hne (hall m hm)
    rw [if_neg hsize] at hmark hcs'
    refine ⟨cs', ?_, hcs'⟩
    simp only [SwitchCall.apply, hmark, bind, Except.bind]
  | @complete before after r machineId hpending hmem holdest hlast =>
    rw [hpending] at h
    obtain ⟨cs', hmark, hcs'⟩ := h.markSwitchAsDone hmem holdest
    rw [if_pos (IntervalSet.size_remove_eq_zero.mpr hlast)] at hmark hcs'
    refine ⟨cs', ?_, hcs'⟩
    simp only [SwitchCall.apply, hmark, bind, Except.bind]

theorem exists_of_after {calls : List SwitchCall} {b : SwitchBook} (h : SwitchBook.After calls b) :
    ∃ cs, forEach SwitchCall.apply (⟨∅⟩, []) calls = .ok (cs, b.returned) ∧
      cs.Represents b.pending := by
  induction h with
  | nil => exact ⟨⟨∅⟩, rfl, .empty⟩
  | snoc _ hstep ih =>
    obtain ⟨cs, hrun, hcs⟩ := ih
    obtain ⟨cs', hcall, hcs'⟩ := hcs.apply hstep
    refine ⟨cs', ?_, hcs'⟩
    rw [forEach_append, hrun]
    simp only [bind, Except.bind, forEach_cons, hcall, forEach_nil]

end CurrentSwitches

/-! ### The requests over whole runs -/

namespace SwitchBook

/-- The requests that came, in order. -/
def requests (calls : List SwitchCall) : List (IntervalSet × Int) :=
  calls.filterMap SwitchCall.request?

/-- Each request is pending or complete, once, and what is returned is the set of each complete one,
in the order of the completions. -/
structure Accounts (calls : List SwitchCall) (b : SwitchBook) : Prop where
  once : ((b.completed ++ b.pending).map SwitchRequest.number).Perm
    (List.range (requests calls).length)
  requested : ∀ r ∈ b.completed ++ b.pending,
    (requests calls)[r.number]? = some (r.allMachines, r.targetPstate)
  returned_sets : b.returned.filterMap id = b.completed.map SwitchRequest.allMachines
  waiting : ∀ r ∈ b.pending, r.remaining.size ≠ 0

theorem requests_append (calls : List SwitchCall) (call : SwitchCall) :
    requests (calls ++ [call]) = requests calls ++ call.request?.toList := by
  rw [requests, requests, List.filterMap_append]
  cases hrequest : call.request? <;> simp [hrequest]

theorem Accounts.request {calls : List SwitchCall} {b : SwitchBook} {machines : IntervalSet}
    (h : b.Accounts calls) (hnb : b.nbRequests = (requests calls).length)
    (targetPstate : Int) (hne : machines.size ≠ 0) :
    Accounts (calls ++ [.addSwitch machines targetPstate])
      { b with
        pending := b.pending ++ [⟨b.nbRequests, targetPstate, machines, machines⟩]
        nbRequests := b.nbRequests + 1 } := by
  have hrequests : requests (calls ++ [.addSwitch machines targetPstate]) =
      requests calls ++ [(machines, targetPstate)] := requests_append ..
  constructor
  · simp only
    rw [hrequests, ← List.append_assoc, List.map_append, List.length_append, List.length_singleton,
      List.range_succ, List.map_singleton, hnb]
    exact h.once.append_right _
  · intro r hr
    simp only at hr
    rw [← List.append_assoc, List.mem_append, List.mem_singleton] at hr
    rw [hrequests]
    rcases hr with hr | rfl
    · have hold := h.requested r hr
      obtain ⟨hlt, -⟩ := List.getElem?_eq_some_iff.mp hold
      rw [List.getElem?_append_left hlt]
      exact hold
    · rw [hnb, List.getElem?_concat_length]
  · exact h.returned_sets
  · intro r hr
    rcases List.mem_append.mp hr with hr | hr
    · exact h.waiting r hr
    · rw [List.mem_singleton.mp hr]
      exact hne

theorem Accounts.consume {calls : List SwitchCall} {b : SwitchBook}
    {before after : List SwitchRequest} {r : SwitchRequest} {machineId : Nat} (h : b.Accounts calls)
    (hpending : b.pending = before ++ r :: after) (hleft : ∃ m ∈ r.remaining, m ≠ machineId) :
    Accounts (calls ++ [.markSwitchAsDone machineId r.targetPstate])
      { b with
        pending := before ++ { r with remaining := r.remaining.remove machineId } :: after
        returned := b.returned ++ [none] } := by
  have hrequests : requests (calls ++ [.markSwitchAsDone machineId r.targetPstate]) =
      requests calls := by
    rw [requests_append]
    exact List.append_nil _
  obtain ⟨honce, hrequested, hreturned, hwaiting⟩ := h
  rw [hpending] at honce hrequested hwaiting
  constructor
  · rw [hrequests]
    simpa using honce
  · intro q hq
    rw [hrequests]
    simp only [List.mem_append, List.mem_cons] at hq hrequested
    rcases hq with hq | hq | rfl | hq
    · exact hrequested q (.inl hq)
    · exact hrequested q (.inr (.inl hq))
    · exact hrequested r (.inr (.inr (.inl rfl)))
    · exact hrequested q (.inr (.inr (.inr hq)))
  · rw [List.filterMap_append, hreturned]
    exact List.append_nil _
  · intro q hq
    simp only [List.mem_append, List.mem_cons] at hq hwaiting
    rcases hq with hq | rfl | hq
    · exact hwaiting q (.inl hq)
    · obtain ⟨m, hm, hne⟩ := hleft
      rw [ne_eq, IntervalSet.size_remove_eq_zero]
      exact fun hall => hne (hall m hm)
    · exact hwaiting q (.inr (.inr hq))

theorem Accounts.complete {calls : List SwitchCall} {b : SwitchBook}
    {before after : List SwitchRequest} {r : SwitchRequest} (machineId : Nat) (h : b.Accounts calls)
    (hpending : b.pending = before ++ r :: after) :
    Accounts (calls ++ [.markSwitchAsDone machineId r.targetPstate])
      { b with
        pending := before ++ after
        completed := b.completed ++ [r]
        returned := b.returned ++ [some r.allMachines] } := by
  have hrequests : requests (calls ++ [.markSwitchAsDone machineId r.targetPstate]) =
      requests calls := by
    rw [requests_append]
    exact List.append_nil _
  -- the request moves from the pending ones to the complete ones
  have hmoves : (b.completed ++ [r] ++ (before ++ after)).Perm (b.completed ++ b.pending) := by
    rw [hpending, List.append_assoc]
    have hmiddle : (r :: (before ++ after)).Perm (before ++ r :: after) := List.perm_middle.symm
    exact hmiddle.append_left _
  obtain ⟨honce, hrequested, hreturned, hwaiting⟩ := h
  constructor
  · rw [hrequests]
    exact (hmoves.map _).trans honce
  · intro q hq
    rw [hrequests]
    exact hrequested q (hmoves.mem_iff.mp hq)
  · rw [List.filterMap_append, hreturned, List.map_append]
    rfl
  · intro q hq
    rw [hpending] at hwaiting
    simp only [List.mem_append, List.mem_cons] at hq hwaiting
    rcases hq with hq | hq
    · exact hwaiting q (.inl hq)
    · exact hwaiting q (.inr (.inr hq))

theorem After.accounts {calls : List SwitchCall} {b : SwitchBook} (h : After calls b) :
    b.nbRequests = (requests calls).length ∧ Accounts calls b := by
  induction h with
  | nil => exact ⟨rfl, by constructor <;> simp [requests]⟩
  | snoc _ hstep ih =>
    obtain ⟨hnb, hbook⟩ := ih
    cases hstep with
    | request hne =>
      refine ⟨?_, hbook.request hnb _ hne⟩
      simp [requests_append, SwitchCall.request?, hnb]
    | consume hpending hmem _ hleft =>
      refine ⟨?_, hbook.consume hpending hleft⟩
      simp [requests_append, SwitchCall.request?, hnb]
    | complete hpending hmem _ hlast =>
      refine ⟨?_, hbook.complete _ hpending⟩
      simp [requests_append, SwitchCall.request?, hnb]

end SwitchBook

/-- The calls that each have a pending request never fail, and serve the requests as they should. -/
theorem switch_requests_served_in_order {calls : List SwitchCall} (h : Justified calls) :
    ∃ b cs, SwitchBook.After calls b ∧ b.Accounts calls ∧
      forEach SwitchCall.apply (⟨∅⟩, []) calls = .ok (cs, b.returned) ∧
      cs.Represents b.pending := by
  obtain ⟨b, hb⟩ := h.exists_after
  obtain ⟨cs, hrun, hcs⟩ := CurrentSwitches.exists_of_after hb
  exact ⟨b, cs, hb, hb.accounts.2, hrun, hcs⟩

/-- Two requests for one pstate that share a machine: the second is complete first. -/
theorem overlapping_switches_served :
    let both : IntervalSet := { elements := [0, 1] }
    let one : IntervalSet := { elements := [1] }
    let calls : List SwitchCall := [.addSwitch both 3, .addSwitch one 3, .markSwitchAsDone 1 3,
      .markSwitchAsDone 1 3, .markSwitchAsDone 0 3]
    ∃ b cs, SwitchBook.After calls b ∧ b.Accounts calls ∧
      forEach SwitchCall.apply (⟨∅⟩, []) calls = .ok (cs, b.returned) ∧
      cs.Represents b.pending ∧ b.returned = [none, some one, some both] := by
  intro both one calls
  let first : SwitchRequest := ⟨0, 3, both, both⟩
  let second : SwitchRequest := ⟨1, 3, one, one⟩
  let rest : SwitchRequest := ⟨0, 3, both, { elements := [0] }⟩
  have h₁ := SwitchBook.After.nil.snoc (@SwitchBook.Step.request {} both 3 (by decide))
  have h₂ := h₁.snoc (@SwitchBook.Step.request _ one 3 (by decide))
  have h₃ := h₂.snoc (@SwitchBook.Step.consume _ [] [second] first 1 rfl (by decide) (by decide)
    (by decide))
  have h₄ := h₃.snoc (@SwitchBook.Step.complete _ [rest] [] second 1 rfl (by decide) (by decide)
    (by decide))
  have h₅ := h₄.snoc (@SwitchBook.Step.complete _ [] [] rest 0 rfl (by decide) (by decide)
    (by decide))
  have hnone : Justified [] := by
    intro before call after hsplit
    simp at hsplit
  have hjustified : Justified calls := by
    refine Justified.snoc ?_ h₄ (by decide)
    refine Justified.snoc ?_ h₃ (by decide)
    refine Justified.snoc ?_ h₂ (by decide)
    refine Justified.snoc ?_ h₁ (by decide)
    exact hnone.snoc .nil (by decide)
  obtain ⟨b, cs, hb, hbook, hrun, hcs⟩ := switch_requests_served_in_order hjustified
  refine ⟨b, cs, hb, hbook, hrun, hcs, ?_⟩
  rw [hb.unique h₅]
  rfl

end Batsim
