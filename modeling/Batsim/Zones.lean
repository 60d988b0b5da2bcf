import Mathlib.Data.List.AList
import Mathlib.Data.List.Nodup

/-!
The zones of a platform, and the properties that `attach_zone_properties_to_machines` gives to the
machines in them.
-/

namespace Batsim

/-- A network zone, with its own hosts and its children. -/
inductive Zone (H : Type) where
  | mk (name : String) (properties : AList (fun _ : String => String)) (hosts : List H)
    (children : List (Zone H))

namespace Zone

variable {H : Type}

def name : Zone H → String
  | mk name _ _ _ => name

def properties : Zone H → AList (fun _ : String => String)
  | mk _ properties _ _ => properties

def hosts : Zone H → List H
  | mk _ _ hosts _ => hosts

def children : Zone H → List (Zone H)
  | mk _ _ _ children => children

mutual

/-- The hosts of a zone and of the zones below it. -/
def subtreeHosts : Zone H → List H
  | mk _ _ hosts children => hosts ++ childrenHosts children

def childrenHosts : List (Zone H) → List H
  | [] => []
  | z :: zs => subtreeHosts z ++ childrenHosts zs

end

/-- The zones from a zone down to the one that a host is in. -/
inductive Path (host : H) : Zone H → List (Zone H) → Prop
  | here {z : Zone H} (h : host ∈ z.hosts) : Path host z [z]
  | inside {z child : Zone H} {zones : List (Zone H)} (hchild : child ∈ z.children)
      (h : Path host child zones) : Path host z (z :: zones)

mutual

theorem exists_path {host : H} : ∀ (z : Zone H), host ∈ z.subtreeHosts → ∃ zones, Path host z zones
  | mk name properties hosts children, h => by
    rw [subtreeHosts, List.mem_append] at h
    rcases h with h | h
    · exact ⟨_, .here h⟩
    · obtain ⟨child, hchild, zones, hpath⟩ := exists_path_below children h
      exact ⟨_, .inside hchild hpath⟩

theorem exists_path_below {host : H} : ∀ (zs : List (Zone H)), host ∈ childrenHosts zs →
    ∃ child ∈ zs, ∃ zones, Path host child zones
  | [], h => by simp [childrenHosts] at h
  | z :: zs, h => by
    rw [childrenHosts, List.mem_append] at h
    rcases h with h | h
    · exact ⟨z, List.mem_cons_self, exists_path z h⟩
    · obtain ⟨child, hchild, hpath⟩ := exists_path_below zs h
      exact ⟨child, List.mem_cons_of_mem z hchild, hpath⟩

end

theorem subset_childrenHosts {zs : List (Zone H)} {child : Zone H} (hchild : child ∈ zs) :
    child.subtreeHosts ⊆ childrenHosts zs := by
  induction zs with
  | nil => cases hchild
  | cons z zs ih =>
    rw [childrenHosts]
    rcases List.mem_cons.mp hchild with rfl | hchild
    · exact List.subset_append_left _ _
    · exact List.Subset.trans (ih hchild) (List.subset_append_right _ _)

theorem Path.mem {host : H} {z : Zone H} {zones : List (Zone H)} (h : Path host z zones) :
    host ∈ z.subtreeHosts := by
  induction h with
  | @here z h =>
    cases z
    exact List.mem_append_left _ h
  | @inside z child zones hchild _ ih =>
    cases z
    exact List.mem_append_right _ (subset_childrenHosts hchild ih)

end Zone

/-! ### The properties of the machines -/

abbrev ZoneProperties := AList (fun _ : String => String)

/-- A machine, as far as the properties of its zones go. -/
structure ZonedMachine where
  name : String
  zoneProperties : ZoneProperties := ∅

/-- The machines but the master; the hosts that they are have different names. -/
structure ZonedMachines where
  machines : List ZonedMachine
  nodup : (machines.map ZonedMachine.name).Nodup

/-- `parent_properties[it.first] = it.second`, for each property of a zone -/
def overwrite (parentProperties properties : ZoneProperties) : ZoneProperties :=
  properties.entries.foldl (fun all e => all.insert e.1 e.2) parentProperties

namespace ZonedMachines

/-- `machine_by_name_or_null` -/
def machineByNameOrNull (ms : ZonedMachines) (name : String) : Option ZonedMachine :=
  ms.machines.find? fun m => m.name = name

/-- `m->zone_properties = parent_properties`, for the machine of this name, if there is one. -/
def setZoneProperties (properties : ZoneProperties) (ms : ZonedMachines) (name : String) :
    ZonedMachines where
  machines := ms.machines.map fun m =>
    if m.name = name then { m with zoneProperties := properties } else m
  nodup := by
    have hnames : (ms.machines.map fun m =>
        if m.name = name then { m with zoneProperties := properties } else m).map
          ZonedMachine.name = ms.machines.map ZonedMachine.name := by
      rw [List.map_map]
      refine List.map_congr_left fun m _ => ?_
      rw [Function.comp_apply]
      split <;> rfl
    rw [hnames]
    exact ms.nodup

end ZonedMachines

section Attach

variable (getAllHosts : Zone String → List String)

mutual

/-- `attach_zone_properties_to_machines` -/
def attachZoneProperties (ms : ZonedMachines) (parentProperties : ZoneProperties) :
    Zone String → ZonedMachines
  | .mk name properties hosts children =>
    let all := overwrite parentProperties properties
    let ms := (getAllHosts (.mk name properties hosts children)).foldl
      (ZonedMachines.setZoneProperties all) ms
    attachToChildren ms all children

def attachToChildren (ms : ZonedMachines) (parentProperties : ZoneProperties) :
    List (Zone String) → ZonedMachines
  | [] => ms
  | z :: zs =>
    attachToChildren (attachZoneProperties ms parentProperties z) parentProperties zs

end

end Attach

/-! ### What is overwritten -/

theorem lookup_foldl_insert {es : List (Σ _ : String, String)} {all : ZoneProperties} {key : String}
    (hnodup : es.NodupKeys) :
    (es.foldl (fun all e => all.insert e.1 e.2) all).lookup key =
      (es.dlookup key).or (all.lookup key) := by
  induction es generalizing all with
  | nil => rfl
  | cons e es ih =>
    obtain ⟨hnew, hes⟩ := List.nodupKeys_cons.mp hnodup
    rw [List.foldl_cons, ih hes]
    by_cases hkey : key = e.1
    · subst hkey
      rw [List.dlookup_eq_none.mpr hnew, AList.lookup_insert]
      cases e
      rw [List.dlookup_cons_eq]
      rfl
    · rw [AList.lookup_insert_ne hkey, List.dlookup_cons_ne _ _ hkey]

/-- The properties of a zone hide those of the same names. -/
theorem lookup_overwrite (parentProperties properties : ZoneProperties) (key : String) :
    (overwrite parentProperties properties).lookup key =
      (properties.lookup key).or (parentProperties.lookup key) :=
  lookup_foldl_insert properties.nodupKeys

/-- The properties of the zones of a path, each over those before it. -/
def pathProperties (parentProperties : ZoneProperties) (zones : List (Zone String)) :
    ZoneProperties :=
  zones.foldl (fun all z => overwrite all z.properties) parentProperties

theorem lookup_pathProperties (parentProperties : ZoneProperties) (zones : List (Zone String))
    (key : String) : (pathProperties parentProperties zones).lookup key =
      (zones.reverse.findSome? fun z => z.properties.lookup key).or
        (parentProperties.lookup key) := by
  induction zones generalizing parentProperties with
  | nil => rfl
  | cons z zones ih =>
    have hcons : pathProperties parentProperties (z :: zones) =
        pathProperties (overwrite parentProperties z.properties) zones := rfl
    rw [hcons, ih, lookup_overwrite, List.reverse_cons, List.findSome?_append, Option.or_assoc]
    simp

/-! ### Machines by name -/

namespace ZonedMachines

variable {ms : ZonedMachines} {properties : ZoneProperties} {name host : String}

/-- The properties of the machine of a name, if there is one. -/
def propertiesOf (ms : ZonedMachines) (host : String) : Option ZoneProperties :=
  (ms.machineByNameOrNull host).map ZonedMachine.zoneProperties

theorem propertiesOf_setZoneProperties :
    (ms.setZoneProperties properties name).propertiesOf host =
      if host = name then (ms.propertiesOf host).map fun _ => properties
      else ms.propertiesOf host := by
  have hname : (fun m : ZonedMachine => decide (m.name = host)) ∘
      (fun m => if m.name = name then { m with zoneProperties := properties } else m) =
        fun m => decide (m.name = host) := by
    funext m
    rw [Function.comp_apply]
    split <;> rfl
  unfold propertiesOf machineByNameOrNull setZoneProperties
  rw [List.find?_map, hname]
  cases hfind : ms.machines.find? fun m => decide (m.name = host) with
  | none => simp
  | some m =>
    have hm : m.name = host := by simpa using List.find?_some hfind
    rw [Option.map_some, Option.map_some, hm]
    split <;> rfl

/-- A machine is the one of its name. -/
theorem propertiesOf_of_mem {m : ZonedMachine} (h : m ∈ ms.machines) :
    ms.propertiesOf m.name = some m.zoneProperties := by
  have hfind : ms.machineByNameOrNull m.name = some m := by
    unfold machineByNameOrNull
    cases hfound : ms.machines.find? fun m' => decide (m'.name = m.name) with
    | none => exact absurd (List.find?_eq_none.mp hfound m h) (by simp)
    | some m' =>
      have hname : m'.name = m.name := by simpa using List.find?_some hfound
      rw [List.inj_on_of_nodup_map ms.nodup (List.mem_of_find?_eq_some hfound) h hname]
  rw [propertiesOf, hfind, Option.map_some]

/-- After a loop over hosts, those have the properties, and the others what they had. -/
theorem propertiesOf_foldl (hosts : List String) :
    (hosts.foldl (setZoneProperties properties) ms).propertiesOf host =
      if host ∈ hosts then (ms.propertiesOf host).map fun _ => properties
      else ms.propertiesOf host := by
  induction hosts generalizing ms with
  | nil => simp
  | cons name hosts ih =>
    rw [List.foldl_cons, ih, propertiesOf_setZoneProperties]
    by_cases hname : host = name
    · rw [if_pos hname, if_pos (List.mem_cons.mpr (.inl hname))]
      split
      · rw [Option.map_map]
        rfl
      · rfl
    · simp only [List.mem_cons, hname, false_or, if_false]

end ZonedMachines

/-! ### What the zones give -/

section Attach

variable {getAllHosts : Zone String → List String}
  (hgetAllHosts : ∀ z host, host ∈ getAllHosts z ↔ host ∈ z.subtreeHosts)

include hgetAllHosts

mutual

theorem propertiesOf_attach_of_notMem {host : String} : ∀ (z : Zone String) (ms : ZonedMachines)
    (parentProperties : ZoneProperties), host ∉ z.subtreeHosts →
    (attachZoneProperties getAllHosts ms parentProperties z).propertiesOf host = ms.propertiesOf host
  | .mk name properties hosts children, ms, parentProperties, h => by
    have hall : host ∉ getAllHosts (.mk name properties hosts children) := by
      rwa [hgetAllHosts]
    rw [Zone.subtreeHosts, List.mem_append, not_or] at h
    rw [attachZoneProperties, propertiesOf_children_of_notMem children _ _ h.2,
      ZonedMachines.propertiesOf_foldl, if_neg hall]

theorem propertiesOf_children_of_notMem {host : String} : ∀ (zs : List (Zone String))
    (ms : ZonedMachines) (parentProperties : ZoneProperties), host ∉ Zone.childrenHosts zs →
    (attachToChildren getAllHosts ms parentProperties zs).propertiesOf host = ms.propertiesOf host
  | [], ms, parentProperties, _ => rfl
  | z :: zs, ms, parentProperties, h => by
    rw [Zone.childrenHosts, List.mem_append, not_or] at h
    rw [attachToChildren, propertiesOf_children_of_notMem zs _ _ h.2,
      propertiesOf_attach_of_notMem z _ _ h.1]

end

mutual

/-- The machine of a host gets the properties of the zones on the path to it. -/
theorem propertiesOf_attach {host : String} : ∀ (z : Zone String) (ms : ZonedMachines)
    (parentProperties : ZoneProperties) (zones : List (Zone String)), z.subtreeHosts.Nodup →
    z.Path host zones →
    (attachZoneProperties getAllHosts ms parentProperties z).propertiesOf host =
      (ms.propertiesOf host).map fun _ => pathProperties parentProperties zones
  | .mk name properties hosts children, ms, parentProperties, zones, hnodup, hpath => by
    have hall : host ∈ getAllHosts (.mk name properties hosts children) :=
      (hgetAllHosts _ host).mpr hpath.mem
    rw [Zone.subtreeHosts, List.nodup_append'] at hnodup
    obtain ⟨-, hchildren, hdisjoint⟩ := hnodup
    rw [attachZoneProperties]
    cases hpath with
    | here h =>
      -- no child has the host, which keeps what the zone gave
      rw [propertiesOf_children_of_notMem hgetAllHosts children _ _ (hdisjoint h),
        ZonedMachines.propertiesOf_foldl, if_pos hall]
      rfl
    | inside hchild h =>
      rw [propertiesOf_children children _ _ _ _ hchildren hchild h,
        ZonedMachines.propertiesOf_foldl, if_pos hall, Option.map_map]
      rfl

theorem propertiesOf_children {host : String} : ∀ (zs : List (Zone String)) (ms : ZonedMachines)
    (parentProperties : ZoneProperties) (child : Zone String) (zones : List (Zone String)),
    (Zone.childrenHosts zs).Nodup → child ∈ zs → child.Path host zones →
    (attachToChildren getAllHosts ms parentProperties zs).propertiesOf host =
      (ms.propertiesOf host).map fun _ => pathProperties parentProperties zones
  | [], ms, parentProperties, child, zones, _, hchild, _ => by cases hchild
  | z :: zs, ms, parentProperties, child, zones, hnodup, hchild, hpath => by
    rw [Zone.childrenHosts, List.nodup_append'] at hnodup
    obtain ⟨hz, hzs, hdisjoint⟩ := hnodup
    rw [attachToChildren]
    rcases List.mem_cons.mp hchild with heq | hchild
    · rw [heq] at hpath
      rw [propertiesOf_children_of_notMem hgetAllHosts zs _ _ (hdisjoint hpath.mem),
        propertiesOf_attach z _ _ _ hz hpath]
    · have hnot : host ∉ z.subtreeHosts := fun h =>
        hdisjoint h (Zone.subset_childrenHosts hchild hpath.mem)
      rw [propertiesOf_children zs _ _ _ _ hzs hchild hpath,
        propertiesOf_attach_of_notMem hgetAllHosts z _ _ hnot]

end

end Attach

/-- In every tree of zones, each machine of a host of the tree gets, from the zones on the path from
the root to the one that the host is in, the innermost definition of each property, and no other. -/
theorem zone_properties_merged {getAllHosts : Zone String → List String}
    (hgetAllHosts : ∀ z host, host ∈ getAllHosts z ↔ host ∈ z.subtreeHosts) {root : Zone String}
    (hroot : root.subtreeHosts.Nodup) (ms : ZonedMachines) {m : ZonedMachine}
    (hm : m ∈ (attachZoneProperties getAllHosts ms ∅ root).machines)
    (hhost : m.name ∈ root.subtreeHosts) :
    (∃ zones, root.Path m.name zones) ∧
      ∀ zones, root.Path m.name zones → ∀ key, m.zoneProperties.lookup key =
        zones.reverse.findSome? fun z => z.properties.lookup key := by
  refine ⟨Zone.exists_path root hhost, fun zones hpath key => ?_⟩
  have hproperties := propertiesOf_attach hgetAllHosts root ms ∅ zones hroot hpath
  rw [ZonedMachines.propertiesOf_of_mem hm] at hproperties
  obtain ⟨_, -, hmerged⟩ := Option.map_eq_some_iff.mp hproperties.symm
  rw [← hmerged, lookup_pathProperties, AList.lookup_empty, Option.or_none]

/-- Two hosts, one of them in a zone within the zone of the other. -/
def nestedZones : Zone String :=
  .mk "world" ((AList.insert "site" "all" ∅).insert "cooling" "air") ["host0"]
    [.mk "europe" (AList.insert "cooling" "water" ∅) ["host1"] []]

def nestedMachines : ZonedMachines where
  machines := [{ name := "host0" }, { name := "host1" }]
  nodup := by decide

theorem nested_zone_merged :
    ∃ m ∈ (attachZoneProperties Zone.subtreeHosts nestedMachines ∅ nestedZones).machines,
      m.name = "host1" ∧ m.zoneProperties.lookup "cooling" = some "water" ∧
      (∃ zones, nestedZones.Path m.name zones) ∧
        ∀ zones, nestedZones.Path m.name zones → ∀ key, m.zoneProperties.lookup key =
          zones.reverse.findSome? fun z => z.properties.lookup key := by
  have hfound : ((attachZoneProperties Zone.subtreeHosts nestedMachines ∅ nestedZones).machines.find?
      fun m => m.name = "host1").map (fun m => m.zoneProperties.lookup "cooling") =
        some (some "water") := by
    decide +kernel
  obtain ⟨m, hm, hcooling⟩ := Option.map_eq_some_iff.mp hfound
  have hname : m.name = "host1" := by simpa using List.find?_some hm
  have hmem := List.mem_of_find?_eq_some hm
  exact ⟨m, hmem, hname, hcooling,
    zone_properties_merged (fun _ _ => Iff.rfl) (by decide +kernel) nestedMachines hmem
      (by rw [hname]; decide +kernel)⟩

end Batsim
