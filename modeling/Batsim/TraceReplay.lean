import Mathlib.Algebra.Order.Group.Unbundled.Basic
import Batsim.EnvironmentalTrace
import Batsim.Zones
import Batsim.Lib.Alarms

/-!
The replay of a trace of the environmental footprint on a tree of zones: what the actors of its
rows, which wake in the order of their creation on one date, leave on each host.
-/

namespace Batsim

open Checked StepSystem Alarms

/-! ### The zones, breadth first -/

namespace Zone

variable {H : Type}

mutual

/-- A zone and the zones below it. -/
def zones : Zone H → List (Zone H)
  | mk name properties hosts children => mk name properties hosts children :: zonesBelow children

def zonesBelow : List (Zone H) → List (Zone H)
  | [] => []
  | z :: zs => z.zones ++ zonesBelow zs

end

/-- The zones that the queue of `find_zone_by_name` goes through. -/
def breadthFirst : Nat → List (Zone H) → List (Zone H)
  | 0, _ => []
  | _, [] => []
  | fuel + 1, z :: queue => z :: breadthFirst fuel (queue ++ z.children)

theorem zones_eq (z : Zone H) : z.zones = z :: zonesBelow z.children := by
  cases z
  rfl

theorem zonesBelow_append (zs zs' : List (Zone H)) :
    zonesBelow (zs ++ zs') = zonesBelow zs ++ zonesBelow zs' := by
  induction zs with
  | nil => rfl
  | cons z zs ih => rw [List.cons_append, zonesBelow, zonesBelow, ih, List.append_assoc]

theorem breadthFirst_perm (fuel : Nat) (queue : List (Zone H))
    (h : (zonesBelow queue).length ≤ fuel) : (breadthFirst fuel queue).Perm (zonesBelow queue) := by
  induction fuel generalizing queue with
  | zero =>
    rw [List.length_eq_zero_iff.mp (Nat.le_zero.mp h)]
    cases queue <;> exact .nil
  | succ fuel ih =>
    cases queue with
    | nil => exact .nil
    | cons z queue =>
      have hqueue : (zonesBelow (queue ++ z.children)).Perm
          (zonesBelow z.children ++ zonesBelow queue) := by
        rw [zonesBelow_append]
        exact List.perm_append_comm
      have hfuel : (zonesBelow (queue ++ z.children)).length ≤ fuel := by
        rw [hqueue.length_eq]
        rw [zonesBelow, zones_eq, List.cons_append, List.length_cons] at h
        omega
      rw [breadthFirst, zonesBelow, zones_eq, List.cons_append]
      exact ((ih _ hfuel).trans hqueue).cons z

end Zone

/-- The zones of a platform; no two have the same name. -/
structure ZoneTree where
  root : Zone Nat
  nodup : (root.zones.map Zone.name).Nodup

namespace ZoneTree

variable (tree : ZoneTree)

/-- The zones in the order of `find_zone_by_name`, with what `get_all_hosts` says of them. -/
def netZones : List NetZone :=
  (Zone.breadthFirst tree.root.zones.length [tree.root]).map fun z =>
    { name := z.name, hosts := z.subtreeHosts }

variable {tree}

theorem mem_netZones {zone : NetZone} : zone ∈ tree.netZones ↔
    ∃ z ∈ tree.root.zones, zone = { name := z.name, hosts := z.subtreeHosts } := by
  have hroot : Zone.zonesBelow [tree.root] = tree.root.zones := by
    rw [Zone.zonesBelow, Zone.zonesBelow, List.append_nil]
  have hperm := Zone.breadthFirst_perm tree.root.zones.length [tree.root] (by rw [hroot])
  rw [hroot] at hperm
  simp only [netZones, List.mem_map, hperm.mem_iff, eq_comm]

theorem findZoneByName_eq_some {z : Zone Nat} (hz : z ∈ tree.root.zones) :
    findZoneByName tree.netZones z.name =
      some { name := z.name, hosts := z.subtreeHosts } := by
  cases hfind : findZoneByName tree.netZones z.name with
  | none =>
    have hnone := List.find?_eq_none.mp hfind _ (mem_netZones.mpr ⟨z, hz, rfl⟩)
    exact absurd hnone (by simp)
  | some zone =>
    obtain ⟨w, hw, rfl⟩ := mem_netZones.mp (List.mem_of_find?_eq_some hfind)
    have hname : w.name = z.name := by simpa using List.find?_some hfind
    rw [List.inj_on_of_nodup_map tree.nodup hw hz hname]

theorem findZoneByName_eq_none {name : String} :
    findZoneByName tree.netZones name = none ↔ ∀ z ∈ tree.root.zones, z.name ≠ name := by
  simp only [findZoneByName, List.find?_eq_none, mem_netZones]
  constructor
  · intro h z hz hname
    exact h _ ⟨z, hz, rfl⟩ (by simp [hname])
  · rintro h _ ⟨z, hz, rfl⟩
    simpa using h z hz

end ZoneTree

/-! ### The actors of the rows -/

/-- A property that a trace can set. -/
inductive TraceProperty where
  | carbonIntensity
  | waterIntensity
  | wue
  | pue
deriving DecidableEq

def TraceProperty.text : TraceProperty → String
  | carbonIntensity => "carbon_intensity"
  | waterIntensity => "water_intensity"
  | wue => "wue"
  | pue => "pue"

def HostProperties.get (properties : HostProperties) : TraceProperty → Rat
  | .carbonIntensity => properties.carbonIntensity
  | .waterIntensity => properties.waterIntensity
  | .wue => properties.wue
  | .pue => properties.pue

/-- The value that a property of this name and a value give to `p`, if they do. -/
def TraceProperty.valueOf (p : TraceProperty) (propertyToUpdate : String)
    (newValuesStr : List Char) : Option Rat :=
  if propertyToUpdate = p.text then stod newValuesStr else none

theorem get_applyUpdate (properties : HostProperties) (p : TraceProperty)
    (propertyToUpdate : String) (newValuesStr : List Char) :
    (applyUpdate properties propertyToUpdate newValuesStr).get p =
      (p.valueOf propertyToUpdate newValuesStr).getD (properties.get p) := by
  unfold applyUpdate TraceProperty.valueOf
  cases stod newValuesStr with
  | none => rw [ite_self, Option.getD_none]
  | some newVal =>
    dsimp only
    split_ifs with hcarbon hwater hwue hpue
    all_goals cases p <;> simp_all [TraceProperty.text, HostProperties.get]

/-- The actors, each of which sleeps until its date and then sets the properties of its hosts. -/
def updating : Alarms (Nat → HostProperties) ZoneUpdate Date where
  date := ZoneUpdate.date
  fire u properties := fun host =>
    if host ∈ u.hosts then applyUpdate (properties host) u.propertyToUpdate u.newValuesStr
    else properties host

/-- What an actor sets a property of a host to. -/
def ZoneUpdate.valueOn (host : Nat) (p : TraceProperty) (u : ZoneUpdate) : Option Rat :=
  if host ∈ u.hosts then p.valueOf u.propertyToUpdate u.newValuesStr else none

theorem get_fire (host : Nat) (p : TraceProperty) (u : ZoneUpdate)
    (properties : Nat → HostProperties) : (updating.fire u properties host).get p =
      (u.valueOn host p).getD ((properties host).get p) := by
  by_cases hhost : host ∈ u.hosts
  · simp only [updating, ZoneUpdate.valueOn, if_pos hhost, get_applyUpdate]
  · simp only [updating, ZoneUpdate.valueOn, if_neg hhost, Option.getD_none]

/-- What a row sets a property of a host to: the host is in the zone that the row names. -/
def TraceRow.valueOn (tree : ZoneTree) (host : Nat) (p : TraceProperty) (row : TraceRow) :
    Option Rat :=
  if ∃ z ∈ tree.root.zones, z.name = row.hostName ∧ host ∈ z.subtreeHosts then
    p.valueOf row.propertyToUpdate row.newValuesStr
  else none

section replay

variable {tree : ZoneTree} {row : TraceRow} {rows : List TraceRow} {u : ZoneUpdate}
  {updates : List ZoneUpdate} {initial : Nat → HostProperties} {lines : List (List Char)} {d : Date}
  {host : Nat} {p : TraceProperty}

/-- The actor of a row that names this zone. -/
def TraceRow.planned (row : TraceRow) (z : Zone Nat) : ZoneUpdate where
  date := max 0 row.timestamp
  hosts := z.subtreeHosts
  propertyToUpdate := row.propertyToUpdate
  newValuesStr := row.newValuesStr

/-- A row makes its actor exactly if its zone exists and has a host. -/
theorem update_eq_ok : row.update tree.netZones 0 = .ok u ↔
    ∃ z ∈ tree.root.zones, z.name = row.hostName ∧ z.subtreeHosts ≠ [] ∧ row.planned z = u := by
  unfold TraceRow.update
  cases hfind : findZoneByName tree.netZones row.hostName with
  | none =>
    refine iff_of_false (fun h => by cases h) ?_
    rintro ⟨z, hz, hname, -⟩
    exact ZoneTree.findZoneByName_eq_none.mp hfind z hz hname
  | some zone =>
    obtain ⟨z, hz, rfl⟩ := ZoneTree.mem_netZones.mp (List.mem_of_find?_eq_some hfind)
    have hname : z.name = row.hostName := by simpa using List.find?_some hfind
    have hunique : ∀ w ∈ tree.root.zones, w.name = row.hostName → w = z := fun w hw hwname =>
      List.inj_on_of_nodup_map tree.nodup hw hz (hwname.trans hname.symm)
    have hdate : (0 : Date) + (if row.timestamp - 0 < 0 then 0 else row.timestamp - 0) =
        max 0 row.timestamp := by
      rw [sub_zero, zero_add, max_def]
      split_ifs <;> grind
    dsimp only
    rw [hdate]
    by_cases hhosts : z.subtreeHosts = []
    · rw [if_pos hhosts]
      refine iff_of_false (fun h => by cases h) ?_
      rintro ⟨w, hw, hwname, hne, -⟩
      rw [hunique w hw hwname] at hne
      exact hne hhosts
    · rw [if_neg hhosts, Except.ok.injEq]
      constructor
      · exact fun h => ⟨z, hz, hname, hhosts, h⟩
      · rintro ⟨w, hw, hwname, -, h⟩
        rw [hunique w hw hwname] at h
        exact h

theorem valueOn_update (h : row.update tree.netZones 0 = .ok u) :
    u.valueOn host p = row.valueOn tree host p := by
  obtain ⟨z, hz, hname, -, rfl⟩ := update_eq_ok.mp h
  have hiff : (∃ w ∈ tree.root.zones, w.name = row.hostName ∧ host ∈ w.subtreeHosts) ↔
      host ∈ z.subtreeHosts := by
    constructor
    · rintro ⟨w, hw, hwname, hhost⟩
      rwa [← List.inj_on_of_nodup_map tree.nodup hw hz (hwname.trans hname.symm)]
    · exact fun hhost => ⟨z, hz, hname, hhost⟩
  exact (if_congr hiff rfl rfl).symm

variable (tree lines initial d) in
/-- The rows until a date that set this property of this host, with their numbers. -/
def SetBy (host : Nat) (p : TraceProperty) (a : Nat × TraceRow) : Prop :=
  (traceRows lines)[a.1]? = some a.2 ∧ a.2.timestamp ≤ d ∧ (a.2.valueOn tree host p).isSome

variable (tree initial lines d) in
/-- At a date the rows until then have been applied, each once, and each property of each host is
as the last row for it says. -/
structure Shows (s : AlarmState (Nat → HostProperties) ZoneUpdate) : Prop where
  once : ∀ k row z, (traceRows lines)[k]? = some row → z ∈ tree.root.zones →
    z.name = row.hostName →
      s.fired.count (k, row.planned z) = if max 0 row.timestamp ≤ d then 1 else 0
  last : ∀ host p a, Last TraceRow.timestamp (SetBy tree lines d host p) a →
    a.2.valueOn tree host p = some ((s.state host).get p)
  kept : ∀ host p, (∀ a, ¬ SetBy tree lines d host p a) →
    (s.state host).get p = (initial host).get p

variable (tree lines) in
/-- The trace is read at date 0; from then on every date is reached, and all is as it says. -/
def Replayed : Prop :=
  ∃ updates, readTrace tree.netZones 0 lines = .ok updates ∧ ∀ initial d, 0 ≤ d →
    (∃ s, Reaches (updating.system updates initial) anyStep s ∧ updating.Until d s) ∧
      ∀ s, Reaches (updating.system updates initial) anyStep s → updating.Until d s →
        Shows tree initial lines d s

variable (tree lines) in
def ZonesHaveHosts : Prop :=
  ∀ row ∈ traceRows lines, ∃ z ∈ tree.root.zones, z.name = row.hostName ∧ z.subtreeHosts ≠ []

variable (tree lines) in
/-- The last row of the file and the last one in the order of the timestamps agree, among those
for the same property of a host that are due when the simulation starts. -/
def EarlyRowsAgree : Prop :=
  ∀ host p a b, Last (fun _ => (0 : Date)) (SetBy tree lines 0 host p) a →
    Last TraceRow.timestamp (SetBy tree lines 0 host p) b →
      a.2.valueOn tree host p = b.2.valueOn tree host p

theorem exists_getElem?_of_forall₂ {α β : Type} {R : α → β → Prop} {as : List α} {bs : List β}
    (h : List.Forall₂ R as bs) {k : Nat} {a : α} (ha : as[k]? = some a) :
    ∃ b, bs[k]? = some b ∧ R a b := by
  induction h generalizing k with
  | nil => cases ha
  | @cons a' b as bs hab _ ih =>
    cases k with
    | zero =>
      cases ha
      exact ⟨b, rfl, hab⟩
    | succ k => exact ih ha

theorem readTrace_eq_ok : readTrace tree.netZones 0 lines = .ok updates ↔
    List.Forall₂ (fun row u => row.update tree.netZones 0 = .ok u) (traceRows lines) updates := by
  rw [readTrace, collect_eq_ok]

theorem exists_readTrace_iff :
    (∃ updates, readTrace tree.netZones 0 lines = .ok updates) ↔ ZonesHaveHosts tree lines := by
  simp only [readTrace_eq_ok, ZonesHaveHosts]
  induction traceRows lines with
  | nil => exact ⟨fun _ => by simp, fun _ => ⟨[], .nil⟩⟩
  | cons row rows ih =>
    rw [List.forall_mem_cons, ← ih]
    constructor
    · rintro ⟨_, h⟩
      cases h with
      | @cons _ u _ updates hrow hrows =>
        obtain ⟨z, hz, hname, hhosts, -⟩ := update_eq_ok.mp hrow
        exact ⟨⟨z, hz, hname, hhosts⟩, updates, hrows⟩
    · rintro ⟨⟨z, hz, hname, hhosts⟩, updates, hrows⟩
      exact ⟨_, .cons (update_eq_ok.mpr ⟨z, hz, hname, hhosts, rfl⟩) hrows⟩

/-- The date at which the actor of a row wakes. -/
def wakeDate (row : TraceRow) : Date := max 0 row.timestamp

theorem wakeDate_le_iff (hd : 0 ≤ d) : wakeDate row ≤ d ↔ row.timestamp ≤ d := by
  rw [wakeDate, max_le_iff, and_iff_right hd]

theorem date_of_update (h : row.update tree.netZones 0 = .ok u) : u.date = wakeDate row := by
  obtain ⟨z, -, -, -, rfl⟩ := update_eq_ok.mp h
  rfl

section reached

variable {s : AlarmState (Nat → HostProperties) ZoneUpdate}
  (hread : List.Forall₂ (fun row u => row.update tree.netZones 0 = .ok u) (traceRows lines) updates)
  (hs : Reaches (updating.system updates initial) anyStep s) (hd : updating.Until d s)

include hs hd in
theorem mem_fired {k : Nat} :
    (k, u) ∈ s.fired ↔ updates[k]? = some u ∧ u.date ≤ d := by
  rw [mem_fired_iff (reaches_ordered hs) hd, mem_numbered]
  rfl

include hread hs hd in
theorem fired_once (k : Nat) (z : Zone Nat) (hrow : (traceRows lines)[k]? = some row)
    (hz : z ∈ tree.root.zones) (hname : z.name = row.hostName) :
    s.fired.count (k, row.planned z) = if max 0 row.timestamp ≤ d then 1 else 0 := by
  have hnodup : s.fired.Nodup := by
    have hall := (reaches_ordered hs).perm.nodup_iff.mpr (nodup_numbered updates).of_map
    exact (List.nodup_append.mp hall).1
  obtain ⟨u, hu, hupdate⟩ := exists_getElem?_of_forall₂ hread hrow
  obtain ⟨w, hw, hwname, -, hplanned⟩ := update_eq_ok.mp hupdate
  rw [List.inj_on_of_nodup_map tree.nodup hw hz (hwname.trans hname.symm)] at hplanned
  have hmem : (k, row.planned z) ∈ s.fired ↔ max 0 row.timestamp ≤ d := by
    rw [mem_fired hs hd, hplanned, and_iff_right hu, ← hplanned]
    rfl
  rw [hnodup.count]
  exact if_congr hmem rfl rfl

include hread hs hd in
/-- A property of a host is as set by the last actor that was due. -/
theorem reached_value (hnonneg : 0 ≤ d) (host : Nat) (p : TraceProperty) :
    ((∀ a, ¬ SetBy tree lines d host p a) ∧ (s.state host).get p = (initial host).get p) ∨
      ∃ a, Last wakeDate (SetBy tree lines d host p) a ∧
        a.2.valueOn tree host p = some ((s.state host).get p) := by
  have hordered := reaches_ordered hs
  -- a fired actor that sets the property is that of a row that does
  have hrow : ∀ k u, (k, u) ∈ s.fired → (u.valueOn host p).isSome →
      ∃ row, row.update tree.netZones 0 = .ok u ∧ SetBy tree lines d host p (k, row) := by
    intro k u hfired hsome
    obtain ⟨hu, hdate⟩ := (mem_fired hs hd).mp hfired
    obtain ⟨row, hrow, hupdate⟩ := exists_getElem?_of_forall₂ hread.flip hu
    rw [date_of_update hupdate, wakeDate_le_iff hnonneg] at hdate
    rw [valueOn_update hupdate] at hsome
    exact ⟨row, hupdate, hrow, hdate, hsome⟩
  have hupdate : ∀ a, SetBy tree lines d host p a →
      ∃ u, a.2.update tree.netZones 0 = .ok u ∧ (a.1, u) ∈ s.fired ∧ (u.valueOn host p).isSome := by
    intro a ⟨ha, hdate, hsome⟩
    obtain ⟨u, hu, hupdate⟩ := exists_getElem?_of_forall₂ hread ha
    refine ⟨u, hupdate, (mem_fired hs hd).mpr ⟨hu, ?_⟩, ?_⟩
    · rwa [date_of_update hupdate, wakeDate_le_iff hnonneg]
    · rwa [valueOn_update hupdate]
  have hvalue := fired_value (fun properties => (properties host).get p) (ZoneUpdate.valueOn host p)
    (get_fire host p) s.fired hordered.sorted initial
  rw [← hordered.state] at hvalue
  rcases hvalue with ⟨hnone, hstate⟩ | ⟨⟨k, u⟩, v, hv, hstate, hlast⟩
  · refine .inl ⟨fun a ha => ?_, hstate⟩
    obtain ⟨u, -, hfired, hsome⟩ := hupdate a ha
    rw [hnone _ hfired] at hsome
    cases hsome
  · obtain ⟨row, hu, hset⟩ := hrow k u hlast.mem.1 hlast.mem.2
    refine .inr ⟨(k, row), ⟨hset, fun b hb => ?_⟩, ?_⟩
    · obtain ⟨w, hw, hfired, hsome⟩ := hupdate b hb
      rcases hlast.last _ ⟨hfired, hsome⟩ with heq | hbefore
      · have hk : b.1 = k := congrArg Prod.fst heq
        refine .inl (Prod.ext hk ?_)
        have hsame := hb.1
        rw [hk, hset.1] at hsame
        exact (Option.some.inj hsame).symm
      · right
        have hwdate : w.date = wakeDate b.2 := date_of_update hw
        have hudate : u.date = wakeDate row := date_of_update hu
        simpa only [Before, updating, hwdate, hudate] using hbefore
    · rw [← valueOn_update hu, hv, hstate]

end reached

/-- The last row in the order of the timestamps, when it is not due at the start, is also the last
that acts. -/
theorem Last.wakes {P : Nat × TraceRow → Prop} {a : Nat × TraceRow}
    (h : Last TraceRow.timestamp P a) (hpos : 0 < a.2.timestamp) : Last wakeDate P a := by
  refine ⟨h.mem, fun b hb => (h.last b hb).imp_right ?_⟩
  have ha : wakeDate a.2 = a.2.timestamp := max_eq_right hpos.le
  rintro (hlt | ⟨heq, hk⟩)
  · exact .inl (ha ▸ max_lt hpos hlt)
  · refine .inr ⟨?_, hk⟩
    rw [wakeDate, wakeDate, heq]

/-- Rows that are due at the start act in the order of the file. -/
theorem last_early_iff {P : Nat × TraceRow → Prop} (hearly : ∀ a, P a → a.2.timestamp ≤ 0)
    (a : Nat × TraceRow) : Last wakeDate P a ↔ Last (fun _ => (0 : Date)) P a := by
  have hdate : ∀ b, P b → wakeDate b.2 = 0 := fun b hb => max_eq_left (hearly b hb)
  constructor
  · intro h
    refine ⟨h.mem, fun b hb => (h.last b hb).imp_right ?_⟩
    simp only [Before, hdate b hb, hdate a h.mem]
    exact id
  · intro h
    refine ⟨h.mem, fun b hb => (h.last b hb).imp_right ?_⟩
    simp only [Before, hdate b hb, hdate a h.mem]
    exact id

theorem early_of_last {b : Nat × TraceRow}
    (h : Last TraceRow.timestamp (SetBy tree lines d host p) b) (hle : b.2.timestamp ≤ 0) (hd : 0 ≤ d) (a : Nat × TraceRow) :
    SetBy tree lines d host p a ↔ SetBy tree lines 0 host p a := by
  constructor
  · intro ha
    refine ⟨ha.1, ?_, ha.2.2⟩
    rcases h.last a ha with rfl | hlt | ⟨heq, -⟩
    · exact hle
    · exact hlt.le.trans hle
    · exact heq.le.trans hle
  · exact fun ha => ⟨ha.1, ha.2.1.trans hd, ha.2.2⟩

/-- When the early rows agree, the order of the timestamps tells what the rows leave. -/
theorem last_values_agree (hagree : EarlyRowsAgree tree lines) (hd : 0 ≤ d) {a b : Nat × TraceRow}
    (ha : Last wakeDate (SetBy tree lines d host p) a)
    (hb : Last TraceRow.timestamp (SetBy tree lines d host p) b) :
    a.2.valueOn tree host p = b.2.valueOn tree host p := by
  rcases lt_or_ge 0 b.2.timestamp with hpos | hle
  · rw [ha.unique (Last.wakes hb hpos)]
  · have hiff := early_of_last hb hle hd
    refine hagree host p a b ?_ (hb.congr hiff)
    exact (last_early_iff (fun c hc => hc.2.1) a).mp (ha.congr hiff)

end replay

/-! ### A zone without hosts -/

/-- A zone with one host, over one without hosts. -/
def loneHostTree : ZoneTree where
  root := .mk "AS0" ∅ [0] [.mk "AS1" ∅ [] []]
  nodup := by decide

def hostlessTrace : List (List Char) := emptyTrace ++ ["5,AS1,pue,1.2".toList]

end Batsim
