import Mathlib.Algebra.Order.Ring.Rat
import Mathlib.Algebra.Group.Pi.Basic
import Mathlib.Algebra.BigOperators.Group.List.Basic
import Mathlib.Data.List.Forall2
import Mathlib.Data.Fintype.Defs
import Mathlib.Data.Finset.Insert
import Batsim.AppendedEvents
import Batsim.Lib.Timers

/-!
The trace of the environmental footprint: how it is read, the actors that it makes beside those of
the simulation, and the footprint totals of the schedule file.
-/

namespace Batsim

open Checked StepSystem

/-! ### Reading a trace -/

/-- `std::isspace` -/
def isWhite (c : Char) : Bool := c = ' ' || (9 ≤ c.toNat && c.toNat ≤ 13)

/-- The sign of a number, and what follows it. -/
def readSign : List Char → Bool × List Char
  | '-' :: cs => (true, cs)
  | '+' :: cs => (false, cs)
  | cs => (false, cs)

def readExponent : List Char → Int
  | 'e' :: cs | 'E' :: cs =>
    let (negative, cs) := readSign cs
    let exponent : Int := Nat.ofDigitChars 10 (cs.takeWhile Char.isDigit) 0
    if negative then -exponent else exponent
  | _ => 0

/-- `std::stod` on finite numbers in decimal notation, without rounding; what follows the number
is ignored -/
def stod (str : List Char) : Option Date :=
  let (negative, str) := readSign (str.dropWhile isWhite)
  let whole := str.takeWhile Char.isDigit
  let rest := str.dropWhile Char.isDigit
  let point := rest.head? = some '.'
  let fraction := if point then rest.tail.takeWhile Char.isDigit else []
  let rest := if point then rest.tail.dropWhile Char.isDigit else rest
  if whole ++ fraction = [] then none
  else
    let digits : Int := Nat.ofDigitChars 10 (whole ++ fraction) 0
    let digits := if negative then -digits else digits
    let exponent := readExponent rest - fraction.length
    some (if 0 ≤ exponent then (digits * 10 ^ exponent.toNat : Int)
      else mkRat digits (10 ^ (-exponent).toNat))

/-- A token without the quotes around it. -/
def unquote (token : List Char) : List Char :=
  let token := if token.head? = some '"' then token.tail else token
  if token.getLast? = some '"' then token.dropLast else token

/-- `split_csv_line`; `std::getline` finds no token after a last comma -/
def splitCsvLine (line : List Char) : List (List Char) :=
  let tokens := line.splitOn ','
  (if tokens.getLast? = some [] then tokens.dropLast else tokens).map unquote

/-- A row of a trace that makes an actor. -/
structure TraceRow where
  timestamp : Date
  hostName : String
  propertyToUpdate : String
  newValuesStr : List Char
deriving DecidableEq

/-- Lines with less than four tokens are skipped, and so are those whose timestamp is no number. -/
def TraceRow.ofLine (line : List Char) : Option TraceRow :=
  match splitCsvLine line with
  | timestamp :: hostName :: propertyToUpdate :: newValuesStr :: _ =>
    (stod timestamp).map fun timestamp =>
      { timestamp := timestamp
        hostName := String.ofList hostName
        propertyToUpdate := String.ofList propertyToUpdate
        newValuesStr := newValuesStr }
  | _ => none

/-- The rows of a file, after its header. -/
def traceRows (lines : List (List Char)) : List TraceRow :=
  lines.tail.filterMap TraceRow.ofLine

/-- A zone of the platform, with the hosts in it. -/
structure NetZone where
  name : String
  hosts : List Nat
deriving DecidableEq

/-- `find_zone_by_name`, over the zones in breadth-first order from the root -/
def findZoneByName (zones : List NetZone) (name : String) : Option NetZone :=
  zones.find? fun z => z.name = name

/-- An actor `env_zone_upd_…`, asleep until `date`. -/
structure ZoneUpdate where
  date : Date
  hosts : List Nat
  propertyToUpdate : String
  newValuesStr : List Char
deriving DecidableEq

/-- The actor that a row makes when it is read at date `clock`, on the first host of the zone. -/
def TraceRow.update (zones : List NetZone) (clock : Date) (row : TraceRow) :
    Except String ZoneUpdate :=
  match findZoneByName zones row.hostName with
  | none => .error ("env trace: '" ++ row.hostName ++ "' is not a zone name")
  | some zone =>
    let delay := row.timestamp - clock
    let delay := if delay < 0 then 0 else delay
    if zone.hosts = [] then .error "hosts[0] of an empty vector"
    else .ok { date := clock + delay
               hosts := zone.hosts
               propertyToUpdate := row.propertyToUpdate
               newValuesStr := row.newValuesStr }

/-- `EnvironmentalTraceReader::read_trace` -/
def readTrace (zones : List NetZone) (clock : Date) (lines : List (List Char)) :
    Except String (List ZoneUpdate) :=
  collect (TraceRow.update zones clock) (traceRows lines)

/-- What `start_initial_simulation_processes` makes of the trace file, if there is one. -/
def initialUpdates (cfg : Config) (zones : List NetZone) :
    Option (List (List Char)) → Except String (List ZoneUpdate)
  | none => .ok []
  | some lines => if cfg.environmentalFootprintUsed then readTrace zones 0 lines else .ok []

/-- The properties of a host that a trace can set. -/
structure HostProperties where
  carbonIntensity : Rat
  waterIntensity : Rat
  wue : Rat
  pue : Rat
deriving DecidableEq

/-- `apply_update`, on one host; an unknown property and a value that is no number are reported
and change nothing -/
def applyUpdate (properties : HostProperties) (propertyToUpdate : String)
    (newValuesStr : List Char) : HostProperties :=
  match stod newValuesStr with
  | none => properties
  | some newVal =>
    if propertyToUpdate = "carbon_intensity" then { properties with carbonIntensity := newVal }
    else if propertyToUpdate = "water_intensity" then { properties with waterIntensity := newVal }
    else if propertyToUpdate = "wue" then { properties with wue := newVal }
    else if propertyToUpdate = "pue" then { properties with pue := newVal }
    else properties

/-! ### The footprint of a simulation -/

/-- What the footprint of a host consists of. -/
inductive Indicator where
  | carbonOperational
  | carbonEmbodied
  | waterOnsite
  | waterOffsite
  | waterEmbodied
deriving DecidableEq

instance : Fintype Indicator where
  elems := {.carbonOperational, .carbonEmbodied, .waterOnsite, .waterOffsite, .waterEmbodied}
  complete := by
    intro i
    cases i <;> simp

/-- The plugin of SimGrid, on the platform of a simulation. -/
structure FootprintPlugin where
  zones : List NetZone
  properties : Nat → HostProperties
  /-- the inventory of a host, before it has run -/
  embodied : Nat → Indicator → Rat
  /-- what a host adds to its footprint when nothing changes for some time -/
  spent : Sim → Nat → HostProperties → Date → Indicator → Rat
  spent_zero : ∀ s host properties, spent s host properties 0 = 0

/-- A simulation in progress, with the footprint of its hosts. -/
structure MeteredSim where
  sim : Sim
  properties : Nat → HostProperties
  footprint : Nat → Indicator → Rat

/-- Time passes for the hosts while the simulation goes on to `sim`. -/
def MeteredSim.passTo (plugin : FootprintPlugin) (s : MeteredSim) (sim : Sim) : MeteredSim where
  sim := sim
  properties := s.properties
  footprint := fun host => s.footprint host +
    plugin.spent s.sim host (s.properties host) (sim.clock - s.sim.clock)

def ZoneUpdate.apply (u : ZoneUpdate) (s : MeteredSim) : MeteredSim :=
  { s with properties := fun host =>
      if host ∈ u.hosts then applyUpdate (s.properties host) u.propertyToUpdate u.newValuesStr
      else s.properties host }

/-- Time passes for nothing. -/
def Choice.isIdle : Choice → Bool
  | .solve _ receive wakes _ _ => !receive && wakes.isEmpty
  | .run _ => false

def startMetered (cfg : Config) (plugin : FootprintPlugin) : MeteredSim where
  sim := start cfg
  properties := plugin.properties
  footprint := plugin.embodied

theorem step_clock {cfg : Config} {s s' : Sim} {c : Choice} (hr : Reaches (batsim cfg) anyStep s)
    (h : step cfg s c = .ok s') : s.clock ≤ s'.clock := by
  cases c with
  | solve clock receive wakes rest order =>
    obtain ⟨hcan, pool, -, rfl⟩ := step_solve h
    simp only [canSolve, Bool.and_eq_true, decide_eq_true_eq] at hcan
    exact hcan.1.1.1.1
  | run o =>
    have hstep : (batsim cfg).step s (.run o) = .ok s' := h
    rw [(run_clock hr hstep).1]

theorem metered_eq_ok {plugin : FootprintPlugin} {s s' : MeteredSim} {x : Except String Sim} :
    (do let sim ← x; .ok (s.passTo plugin sim)) = Except.ok s' ↔
      ∃ sim, x = .ok sim ∧ s.passTo plugin sim = s' := by
  simp only [bind_eq_ok, Except.ok.injEq]

/-- A simulation and the actors of its trace: these sleep until their dates, each on its own. -/
def metered (cfg : Config) (plugin : FootprintPlugin) :
    Timed MeteredSim Choice String Date ZoneUpdate where
  step s c :=
    if c.isIdle then .error "impossible choice"
    else do
      let sim ← step cfg s.sim c
      .ok (s.passTo plugin sim)
  sleep s date := do
    let sim ← step cfg s.sim (.solve date false [] s.sim.pool.blocked [])
    .ok (s.passTo plugin sim)
  clock s := s.sim.clock
  date := ZoneUpdate.date
  fire := ZoneUpdate.apply
  impossible := "impossible choice"
  valid s := Reaches (batsim cfg) anyStep s.sim
  step_valid := by
    intro s s' c hr h
    split at h
    · cases h
    · obtain ⟨sim, hsim, rfl⟩ := metered_eq_ok.mp h
      exact .step hr trivial hsim
  sleep_valid := by
    intro s s' d hr h
    obtain ⟨sim, hsim, rfl⟩ := metered_eq_ok.mp h
    exact .step (i := .solve d false [] s.sim.pool.blocked []) hr trivial hsim
  fire_valid := fun _ hr => hr
  step_clock := by
    intro s s' c hr h
    split at h
    · cases h
    · obtain ⟨sim, hsim, rfl⟩ := metered_eq_ok.mp h
      exact step_clock hr hsim
  sleep_clock := by
    intro s s' d h
    obtain ⟨sim, hsim, rfl⟩ := metered_eq_ok.mp h
    obtain ⟨hcan, pool, -, rfl⟩ := step_solve hsim
    simp only [canSolve, Bool.and_eq_true, decide_eq_true_eq] at hcan
    exact ⟨hcan.1.1.1.1, rfl⟩
  fire_clock := fun _ _ => rfl

/-! ### The schedule file -/

namespace MeteredSim

variable (cfg : Config) (s : MeteredSim)

/-- A `total_*` of the machines: the sum over them of what the plugin says of their hosts. -/
def total (i : Indicator) : Rat :=
  ((List.range cfg.machines.machines.length).map fun host => s.footprint host i).sum

/-- `total_carbon_footprint` -/
def totalCarbonFootprint : Rat := s.total cfg .carbonOperational

/-- `total_water_footprint` -/
def totalWaterFootprint : Rat :=
  ((List.range cfg.machines.machines.length).map fun host =>
    s.footprint host .waterOnsite + s.footprint host .waterOffsite).sum

/-- The footprint totals that `JobsTracer::finalize` writes. -/
def outputMap : List (String × Rat) :=
  if cfg.environmentalFootprintUsed then
    [("total_carbon_footprint", s.totalCarbonFootprint cfg),
      ("total_carbon_operational", s.total cfg .carbonOperational),
      ("total_carbon_embodied", s.total cfg .carbonEmbodied),
      ("total_water_footprint", s.totalWaterFootprint cfg),
      ("total_water_onsite", s.total cfg .waterOnsite),
      ("total_water_offsite", s.total cfg .waterOffsite),
      ("total_water_embodied", s.total cfg .waterEmbodied)]
  else []

end MeteredSim

/-- The server leaves its loop in the step `c`, after the steps `cs`. -/
def LeavesLoop (cfg : Config) (plugin : FootprintPlugin) (updates : List ZoneUpdate)
    (cs : List (TimerChoice Choice Date ZoneUpdate)) (c : TimerChoice Choice Date ZoneUpdate)
    (u : WithTimers MeteredSim ZoneUpdate) : Prop :=
  ∃ v, Runs (metered cfg plugin).stepWith anyStep ⟨startMetered cfg plugin, updates⟩ cs v ∧
    v.state.sim.exited = false ∧ (metered cfg plugin).stepWith v c = .ok u ∧
      u.state.sim.exited = true

/-- The totals grow when time passes. -/
def Grows (cfg : Config) (plugin : FootprintPlugin) (s : WithTimers MeteredSim ZoneUpdate)
    (c : TimerChoice Choice Date ZoneUpdate) : Prop :=
  ∀ s', (metered cfg plugin).stepWith s c = .ok s' →
    s.state.sim.clock < s'.state.sim.clock → s.state.total cfg < s'.state.total cfg

instance : DecidableLT (Indicator → Rat) := fun a b =>
  decidable_of_iff ((∀ i, a i ≤ b i) ∧ ∃ i, a i < b i) Pi.lt_def.symm

instance (cfg : Config) (plugin : FootprintPlugin) (s : WithTimers MeteredSim ZoneUpdate)
    (c : TimerChoice Choice Date ZoneUpdate) : Decidable (Grows cfg plugin s c) :=
  match h : (metered cfg plugin).stepWith s c with
  | .ok s' => decidable_of_iff
      (s.state.sim.clock < s'.state.sim.clock → s.state.total cfg < s'.state.total cfg)
      (by simp [Grows, h])
  | .error _ => isTrue fun s' hs' => by rw [h] at hs'; cases hs'

/-- The rest of a run, until every actor has ended. -/
def Completes (cfg : Config) (plugin : FootprintPlugin) (u : WithTimers MeteredSim ZoneUpdate)
    (ds : List (TimerChoice Choice Date ZoneUpdate)) (f : WithTimers MeteredSim ZoneUpdate) :
    Prop :=
  Runs (metered cfg plugin).stepWith (Grows cfg plugin) u ds f ∧
    f.timers = [] ∧ f.state.sim.pool.threads = []

/-- The actors of the simulation itself take no time in a run. -/
def NoneOutlives (cfg : Config) (plugin : FootprintPlugin) (u : WithTimers MeteredSim ZoneUpdate)
    (ds : List (TimerChoice Choice Date ZoneUpdate)) (f : WithTimers MeteredSim ZoneUpdate) :
    Prop :=
  Runs (metered cfg plugin).stepWith (metered cfg plugin).Still u ds f

section runs

variable {cfg : Config} {plugin : FootprintPlugin} {s s' u f : WithTimers MeteredSim ZoneUpdate}
  {c : TimerChoice Choice Date ZoneUpdate} {cs ds : List (TimerChoice Choice Date ZoneUpdate)}

theorem totalWaterFootprint_eq (s : MeteredSim) :
    s.totalWaterFootprint cfg = s.total cfg .waterOnsite + s.total cfg .waterOffsite :=
  List.sum_map_add

theorem outputMap_eq_iff (hused : cfg.environmentalFootprintUsed = true) {s s' : MeteredSim} :
    s.outputMap cfg = s'.outputMap cfg ↔ s.total cfg = s'.total cfg := by
  simp only [MeteredSim.outputMap, if_pos hused, totalWaterFootprint_eq,
    MeteredSim.totalCarbonFootprint]
  constructor
  · intro h
    simp only [List.cons.injEq, Prod.mk.injEq, true_and, and_true] at h
    obtain ⟨-, hcarbon, hcarbonEmbodied, -, honsite, hoffsite, hwaterEmbodied⟩ := h
    funext i
    cases i <;> assumption
  · intro h
    rw [h]

/-- While no time passes the footprints stay. -/
theorem total_passTo {m : MeteredSim} {sim : Sim} (h : sim.clock = m.sim.clock) :
    (m.passTo plugin sim).total cfg = m.total cfg := by
  funext i
  simp [MeteredSim.total, MeteredSim.passTo, h, plugin.spent_zero]

theorem stepWith_total (h : (metered cfg plugin).stepWith s c = .ok s')
    (hclock : s'.state.sim.clock = s.state.sim.clock) :
    s'.state.total cfg = s.state.total cfg := by
  obtain ⟨i, x, -, hx, -, rfl⟩ | ⟨d, x, -, hx, -, -, rfl⟩ | ⟨t, -, -, -, rfl⟩ :=
    Timed.stepWith_cases h
  · simp only [metered] at hx
    split at hx
    · cases hx
    · obtain ⟨sim, -, rfl⟩ := metered_eq_ok.mp hx
      exact total_passTo hclock
  · obtain ⟨sim, -, rfl⟩ := metered_eq_ok.mp hx
    exact total_passTo hclock
  · rfl

theorem run_total (hrun : Runs (metered cfg plugin).stepWith (Grows cfg plugin) s cs f)
    (hv : (metered cfg plugin).valid s.state) :
    s.state.total cfg ≤ f.state.total cfg ∧
      (f.state.total cfg = s.state.total cfg ↔ f.state.sim.clock = s.state.sim.clock) := by
  induction hrun with
  | nil => exact ⟨le_rfl, by simp⟩
  | @cons s s' f c cs hg hstep htail ih =>
    have hv' := Timed.stepWith_valid hv hstep
    obtain ⟨hle, hiff⟩ := ih hv'
    have hclock : s.state.sim.clock ≤ s'.state.sim.clock := Timed.stepWith_clock hv hstep
    have hclock' : s'.state.sim.clock ≤ f.state.sim.clock := Timed.run_clock htail hv'
    rcases hclock.lt_or_eq with hpass | hstay
    · have hgrow := (hg s' hstep hpass).trans_le hle
      exact ⟨hgrow.le, iff_of_false hgrow.ne' (hpass.trans_le hclock').ne'⟩
    · have htotal := stepWith_total hstep hstay.symm
      rw [← htotal, hstay]
      exact ⟨hle, hiff⟩

/-! ### Rows after the end -/

variable {d : Date} {rows : List TraceRow} {updates : List ZoneUpdate} {row : TraceRow}
  {update : ZoneUpdate}

/-- A row read at date 0 acts at its timestamp, or at once. -/
theorem date_le_iff {zones : List NetZone} (h : row.update zones 0 = .ok update) (hd : 0 ≤ d) :
    row.timestamp ≤ d ↔ update.date ≤ d := by
  simp only [TraceRow.update] at h
  split at h
  · cases h
  · split at h
    · cases h
    · cases h
      simp only [sub_zero, zero_add]
      split
      · next hneg => exact ⟨fun _ => hd, fun _ => hneg.le.trans hd⟩
      · rfl

/-- The rows of a trace until a date. -/
def rowsUntil (d : Date) (lines : List (List Char)) : List TraceRow :=
  (traceRows lines).filter fun row => row.timestamp ≤ d

theorem initialUpdates_eq_ok {lines : List (List Char)}
    (hused : cfg.environmentalFootprintUsed = true) :
    initialUpdates cfg plugin.zones (some lines) = .ok updates ↔
      List.Forall₂ (fun row update => row.update plugin.zones 0 = .ok update) (traceRows lines)
        updates := by
  rw [initialUpdates, if_pos hused, readTrace, collect_eq_ok]

/-- The actors that act until a date are those of the rows until then. -/
theorem early_updates
    (h : List.Forall₂ (fun row update => row.update plugin.zones 0 = .ok update) rows updates)
    (hd : 0 ≤ d) :
    List.Forall₂ (fun row update => row.update plugin.zones 0 = .ok update)
      (rows.filter fun row => row.timestamp ≤ d) ((metered cfg plugin).early d updates) := by
  refine List.rel_filter (fun row update hrow => ?_) h
  simp only [decide_eq_true_eq]
  exact date_le_iff hrow hd

/-- Traces that agree until a date make the same actors until that date. -/
theorem early_updates_eq {rows' : List TraceRow} {updates' : List ZoneUpdate}
    (h : List.Forall₂ (fun row update => row.update plugin.zones 0 = .ok update) rows updates)
    (h' : List.Forall₂ (fun row update => row.update plugin.zones 0 = .ok update) rows' updates')
    (hagree : rows.filter (fun row => row.timestamp ≤ d) =
      rows'.filter fun row => row.timestamp ≤ d) (hd : 0 ≤ d) :
    (metered cfg plugin).early d updates' = (metered cfg plugin).early d updates := by
  have hearly : List.Forall₂ _ _ ((metered cfg plugin).early d updates) := early_updates h hd
  rw [hagree] at hearly
  exact List.right_unique_forall₂' (fun _ _ _ h h' => Except.ok.inj (h.symm.trans h'))
    (early_updates h' hd) hearly

theorem updates_until_iff
    (h : List.Forall₂ (fun row update => row.update plugin.zones 0 = .ok update) rows updates)
    (hd : 0 ≤ d) :
    (∀ row ∈ rows, row.timestamp ≤ d) ↔ ∀ update ∈ updates, update.date ≤ d := by
  induction h with
  | nil => simp
  | cons hrow _ ih => simp only [List.forall_mem_cons, date_le_iff hrow hd, ih]

theorem valid_start : (metered cfg plugin).valid (startMetered cfg plugin) := .start

theorem LeavesLoop.run (h : LeavesLoop cfg plugin updates cs c u) :
    Runs (metered cfg plugin).stepWith anyStep ⟨startMetered cfg plugin, updates⟩ (cs ++ [c]) u := by
  obtain ⟨v, hrun, -, hstep, -⟩ := h
  exact hrun.concat trivial hstep

theorem LeavesLoop.valid (h : LeavesLoop cfg plugin updates cs c u) :
    (metered cfg plugin).valid u.state :=
  Timed.run_valid h.run valid_start

theorem LeavesLoop.clock_nonneg (h : LeavesLoop cfg plugin updates cs c u) :
    0 ≤ u.state.sim.clock :=
  Timed.run_clock h.run valid_start

/-- When the traces agree until the server leaves its loop, it leaves the loop alike. -/
theorem LeavesLoop.agrees (h : LeavesLoop cfg plugin updates cs c u) {updates' : List ZoneUpdate}
    (hearly : (metered cfg plugin).early u.state.sim.clock updates' =
      (metered cfg plugin).early u.state.sim.clock updates) :
    ∃ u', LeavesLoop cfg plugin updates' cs c u' ∧ u'.state = u.state := by
  obtain ⟨v, hrun, hexited, hstep, hexits⟩ := h
  have hclock := Timed.stepWith_clock (Timed.run_valid hrun valid_start) hstep
  obtain ⟨v', hrun', hstate, hearly'⟩ := Timed.run_agrees hrun valid_start hclock
    (r := ⟨startMetered cfg plugin, updates'⟩) rfl hearly
  obtain ⟨u', hstep', hstate', -⟩ := Timed.stepWith_agrees hstep le_rfl hstate hearly'
  exact ⟨u', ⟨v', hrun', by rw [hstate, hexited], hstep', by rw [hstate', hexits]⟩, hstate'⟩

/-- A run ends with the server exactly if no actor and no row is left for later, and only then are
the totals those of the end of the server. -/
theorem completes_iff {lines : List (List Char)} (hused : cfg.environmentalFootprintUsed = true)
    (hload : initialUpdates cfg plugin.zones (some lines) = .ok updates)
    (hleaves : LeavesLoop cfg plugin updates cs c u) (hcompletes : Completes cfg plugin u ds f) :
    (f.state.sim.clock = u.state.sim.clock ↔ NoneOutlives cfg plugin u ds f ∧
        ∀ row ∈ traceRows lines, row.timestamp ≤ u.state.sim.clock) ∧
      (f.state.outputMap cfg = u.state.outputMap cfg ↔
        f.state.sim.clock = u.state.sim.clock) := by
  obtain ⟨hrun, hend, -⟩ := hcompletes
  have hrows := (initialUpdates_eq_ok hused).mp hload
  have hlate : (∀ update ∈ u.timers, update.date ≤ u.state.sim.clock) ↔
      ∀ row ∈ traceRows lines, row.timestamp ≤ u.state.sim.clock :=
    (Timed.run_until_iff hleaves.run valid_start).trans
      (updates_until_iff hrows hleaves.clock_nonneg).symm
  constructor
  · rw [← hlate]
    exact Timed.takes_no_time_iff hrun hleaves.valid hend
  · rw [outputMap_eq_iff hused]
    exact (run_total hrun hleaves.valid).2

end runs

/-! ### A trace with a row after the end -/

/-- The totals of a single host that draws the same power all the time. -/
def lonePlugin : FootprintPlugin where
  zones := [{ name := "AS0", hosts := [0] }]
  properties := fun _ => { carbonIntensity := 100, waterIntensity := 2, wue := 1, pue := 1 }
  embodied := fun _ _ => 0
  spent := fun _ _ properties duration i =>
    match i with
    | .carbonOperational => properties.carbonIntensity * properties.pue * duration
    | .waterOnsite => properties.wue * duration
    | .waterOffsite => properties.waterIntensity * properties.pue * duration
    | _ => 0
  spent_zero := by
    intro s host properties
    funext i
    cases i <;> simp

def footprintHost : Config := { loneHost with environmentalFootprintUsed := true }

def emptyTrace : List (List Char) := ["timestamp,zone,property,value".toList]

def lateTrace : List (List Char) := emptyTrace ++ ["10,\"AS0\",carbon_intensity,2.5e2".toList]

def lateUpdate : ZoneUpdate where
  date := 10
  hosts := [0]
  propertyToUpdate := "carbon_intensity"
  newValuesStr := "2.5e2".toList

theorem lateTrace_updates :
    initialUpdates footprintHost lonePlugin.zones (some lateTrace) = .ok [lateUpdate] := by
  decide +kernel

/-- The steps until the last reply of the scheduler is received, when it registers nothing. -/
def untilAcknowledged : List (TimerChoice Choice Date ZoneUpdate) :=
  (choices (batsim footprintHost) (start footprintHost)
    [.next, .next, .next (.reply { now := 0, events := [⟨0, .notify "registration_finished"⟩] }),
      .receive, .next, .next, .receive, .next, .next, .receive, .next, .receive, .next,
      .next (.reply { now := 0, events := [] }), .receive, .next,
      .next (.reply { now := 0, events := [] }), .receive]).map .own

/-- Whether the server leaves its loop in the step `c` after the steps `cs`, all actors end after
the steps `ds`, and the two states satisfy `P`. -/
def endsAs (updates : List ZoneUpdate) (cs : List (TimerChoice Choice Date ZoneUpdate))
    (c : TimerChoice Choice Date ZoneUpdate) (ds : List (TimerChoice Choice Date ZoneUpdate))
    (P : MeteredSim → MeteredSim → Bool) : Bool :=
  let step := (metered footprintHost lonePlugin).stepWith
  let s : WithTimers MeteredSim ZoneUpdate := ⟨startMetered footprintHost lonePlugin, updates⟩
  (runFrom ⟨s, step⟩ anyStep s (cs.map fun c _ => c)).any fun v =>
    !v.state.sim.exited &&
      match step v c with
      | .ok u => u.state.sim.exited &&
        (runFrom ⟨u, step⟩ (Grows footprintHost lonePlugin) u (ds.map fun c _ => c)).any fun f =>
          f.timers.isEmpty && f.state.sim.pool.threads.isEmpty && P u.state f.state
      | .error _ => false

theorem exists_of_endsAs (updates : List ZoneUpdate)
    (cs : List (TimerChoice Choice Date ZoneUpdate)) (c : TimerChoice Choice Date ZoneUpdate)
    (ds : List (TimerChoice Choice Date ZoneUpdate)) (P : MeteredSim → MeteredSim → Bool)
    (h : endsAs updates cs c ds P = true) :
    ∃ u f, LeavesLoop footprintHost lonePlugin updates cs c u ∧
      Completes footprintHost lonePlugin u ds f ∧ P u.state f.state = true := by
  obtain ⟨v, hv, h⟩ := (Option.any_eq_true ..).mp h
  obtain ⟨hexited, h⟩ := (Bool.and_eq_true ..).mp h
  split at h
  · next u hu =>
    obtain ⟨hexits, h⟩ := (Bool.and_eq_true ..).mp h
    obtain ⟨f, hf, h⟩ := (Option.any_eq_true ..).mp h
    simp only [Bool.and_eq_true, List.isEmpty_iff] at h
    exact ⟨u, f, ⟨v, .of_runFrom hv, by simpa using hexited, hu, hexits⟩,
      ⟨.of_runFrom hf, h.1⟩, h.2⟩
  · cases h

end Batsim
