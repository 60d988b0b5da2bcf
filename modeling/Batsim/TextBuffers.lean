import Mathlib.Algebra.Order.Ring.Abs
import Mathlib.Data.Rat.Floor
import Mathlib.Tactic.Linarith
import Batsim.PajeTracer
import Batsim.System

/-!
The buffers of fixed size that texts are printed into: that of the numbers of a message, and those
of the lines of a Pajé trace.
-/

namespace Batsim

open Checked

/-! ### The numbers of the messages -/

/-- `Writer::Double`; a number with six decimals is never shorter than the width of `"%6f"` -/
def writerDouble (d : ℚ) : Except String (List Char) := do
  let text := FixedPoint.print 6 d
  xbtAssert (text.length ≥ 1) "ret >= 1"
  xbtAssert (text.length < 32 - 1) "ret < buf_size - 1"
  .ok text

/-- The number rounds to one with 23 digits before the point, or with 22 digits if it is
negative. -/
def NumberFits (d : ℚ) : Prop :=
  |d| * 10 ^ 6 < 10 ^ (if d < 0 then 28 else 29) - 1 / 2

theorem writerDouble_iff (d : ℚ) : (∃ text, writerDouble d = .ok text) ↔ NumberFits d := by
  have hmin := FixedPoint.le_length_print 6 d
  have hmax : (FixedPoint.print 6 d).length ≤ 30 ↔ NumberFits d := by
    unfold NumberFits
    by_cases hneg : d < 0
    · have hlength := FixedPoint.length_print_le_iff 6 (k := 22) d (by decide)
      rwa [if_pos hneg] at hlength ⊢
    · have hlength := FixedPoint.length_print_le_iff 6 (k := 23) d (by decide)
      rwa [if_neg hneg] at hlength ⊢
  simp only [writerDouble, bind_eq_ok, xbtAssert_eq_ok, exists_const, Except.ok.injEq]
  rw [← hmax]
  constructor
  · rintro ⟨_, -, hlt, -⟩
    omega
  · exact fun hle => ⟨_, by omega, by omega, rfl⟩

/-! ### The colors of the jobs -/

namespace PajeTracer

/-- `hsv_to_rgb` -/
def hsvToRgb (h s v : ℚ) : ℚ × ℚ × ℚ :=
  if s = 0 then (v, v, v)
  else
    let h := h / 60
    let i := h.floor
    let f := h - i
    let p := v * (1 - s)
    let q := v * (1 - s * f)
    let t := v * (1 - s * (1 - f))
    if i = 0 then (v, t, p)
    else if i = 1 then (q, v, p)
    else if i = 2 then (p, v, t)
    else if i = 3 then (p, q, v)
    else if i = 4 then (t, p, v)
    else (v, p, q)

/-- `"\"%lf %lf %lf\""` -/
def colorText (rgb : ℚ × ℚ × ℚ) : String :=
  "\"" ++ FixedPoint.text 6 rgb.1 ++ " " ++ FixedPoint.text 6 rgb.2.1 ++ " " ++
    FixedPoint.text 6 rgb.2.2 ++ "\""

/-- `generate_colors` -/
def generateColors (colorCount : Nat) : Except String (List String) := do
  xbtAssert (colorCount > 0)
    ("wrong call: color_count (" ++ toString colorCount ++ ") must be strictly positive")
  collect (fun i : Nat => do
    let buf := colorText (hsvToRgb (i * (360 / colorCount)) 1 1)
    xbtAssert (buf.utf8ByteSize < 256 - 1) fullBuffer
    .ok buf) (List.range colorCount)

end PajeTracer

/-- The number is between 0 and 1. -/
def InUnit (x : ℚ) : Prop := 0 ≤ x ∧ x ≤ 1

theorem InUnit.mul {x y : ℚ} (hx : InUnit x) (hy : InUnit y) : InUnit (x * y) :=
  ⟨mul_nonneg hx.1 hy.1, mul_le_one₀ hx.2 hy.1 hy.2⟩

theorem InUnit.one_sub {x : ℚ} (hx : InUnit x) : InUnit (1 - x) :=
  ⟨sub_nonneg.mpr hx.2, sub_le_self 1 hx.1⟩

theorem hsvToRgb_inUnit {h s v : ℚ} (hs : InUnit s) (hv : InUnit v) :
    InUnit (PajeTracer.hsvToRgb h s v).1 ∧ InUnit (PajeTracer.hsvToRgb h s v).2.1 ∧
      InUnit (PajeTracer.hsvToRgb h s v).2.2 := by
  have hf : InUnit (h / 60 - (h / 60).floor) :=
    ⟨sub_nonneg.mpr (Rat.floor_le _), sub_le_iff_le_add'.mpr (by
      rw [← Int.cast_one, ← Int.cast_add]
      exact (Rat.lt_floor_add_one (h / 60)).le)⟩
  have hp := hv.mul hs.one_sub
  have hq := hv.mul (hs.mul hf).one_sub
  have ht := hv.mul (hs.mul hf.one_sub).one_sub
  unfold PajeTracer.hsvToRgb
  dsimp only
  split_ifs
  · exact ⟨hv, hv, hv⟩
  · exact ⟨hv, ht, hp⟩
  · exact ⟨hq, hv, hp⟩
  · exact ⟨hp, hv, ht⟩
  · exact ⟨hp, hq, hv⟩
  · exact ⟨ht, hp, hv⟩
  · exact ⟨hv, hp, hq⟩

theorem size_text_of_inUnit {x : ℚ} (hx : InUnit x) : (FixedPoint.text 6 x).utf8ByteSize = 8 := by
  have hlength := FixedPoint.length_print_le_iff 6 (k := 1) x (by decide)
  rw [if_neg (not_lt.mpr hx.1), abs_of_nonneg hx.1] at hlength
  have hle := hlength.mpr (by linarith [hx.2])
  have hge := FixedPoint.le_length_print 6 x
  rw [FixedPoint.utf8ByteSize_text]
  omega

/-- The size of the text of each color -/
def colorSize : Nat := 28

theorem size_colorText (h : ℚ) :
    (PajeTracer.colorText (PajeTracer.hsvToRgb h 1 1)).utf8ByteSize = colorSize := by
  have hone : InUnit 1 := ⟨zero_le_one, le_rfl⟩
  obtain ⟨hr, hg, hb⟩ := hsvToRgb_inUnit (h := h) hone hone
  simp only [PajeTracer.colorText, String.utf8ByteSize_append, size_text_of_inUnit hr,
    size_text_of_inUnit hg, size_text_of_inUnit hb]
  rfl

theorem generateColors_succeeds (colorCount : Nat) (hpos : 0 < colorCount) :
    ∃ colors, PajeTracer.generateColors colorCount = .ok colors := by
  obtain ⟨colors, hcolors⟩ : ∃ colors, collect (fun i : Nat => do
      let buf := PajeTracer.colorText (PajeTracer.hsvToRgb (i * (360 / colorCount)) 1 1)
      xbtAssert (buf.utf8ByteSize < 256 - 1) fullBuffer
      Except.ok buf) (List.range colorCount) = .ok colors := by
    refine collect_succeeds fun i _ => ?_
    simp only [bind_eq_ok, xbtAssert_eq_ok, exists_const, size_colorText]
    exact ⟨_, by decide, rfl⟩
  refine ⟨colors, ?_⟩
  simp only [PajeTracer.generateColors, bind_eq_ok, xbtAssert_eq_ok, exists_const]
  exact ⟨hpos, hcolors⟩

theorem generateColors_eq_ok {colorCount : Nat} {colors : List String}
    (h : PajeTracer.generateColors colorCount = .ok colors) :
    colors.length = colorCount ∧ ∀ color ∈ colors, color.utf8ByteSize = colorSize := by
  simp only [PajeTracer.generateColors, bind_eq_ok, xbtAssert_eq_ok, exists_const] at h
  obtain ⟨-, h⟩ := h
  constructor
  · rw [← (collect_eq_ok.mp h).length_eq, List.length_range]
  · have hsizes : List.Forall₂ (fun _ color => color.utf8ByteSize = colorSize)
        (List.range colorCount) colors := by
      refine (collect_eq_ok.mp h).imp fun i color hi => ?_
      simp only [bind_eq_ok, xbtAssert_eq_ok, exists_const, Except.ok.injEq] at hi
      obtain ⟨-, rfl⟩ := hi
      exact size_colorText _
    clear h
    generalize List.range colorCount = is at hsizes
    induction hsizes with
    | nil => simp
    | cons hcolor _ ih => exact List.forall_mem_cons.mpr ⟨hcolor, ih⟩

/-! ### The texts that do not depend on the simulation -/

/-- The definition of a kind of event, with the lines about its fields -/
def eventDef (name : String) (number : Nat) (fields : List String) : String :=
  "%EventDef " ++ name ++ " " ++ toString number ++ "\n" ++ String.join fields ++
    "%EndEventDef\n\n"

/-- The header that `PajeTracer::initialize` prints -/
def pajeHeader : String :=
  eventDef "PajeDefineContainerType" 1
      ["% Type string\n", "% Alias string\n", "% Name string\n"] ++
    eventDef "PajeCreateContainer" 2
      ["% Time date \n", "% Type string  \n", "% Alias string \n", "% Name string   \n",
        "% Container string  \n"] ++
    eventDef "PajeDestroyContainer" 3
      ["% Time date\n", "% Name string \n", "% Type string\n"] ++
    eventDef "PajeDefineStateType" 4
      ["% Alias string \n", "% Type string \n", "% Name string \n"] ++
    eventDef "PajeDefineEntityValue" 5
      ["% Alias string  \n", "% Type string  \n", "% Name string  \n", "% Color color \n"] ++
    eventDef "PajeSetState" 6
      ["% Time date  \n", "% Type string  \n", "% Container string  \n", "% Value string  \n"] ++
    eventDef "PajeDefineEventType" 7
      ["% Type string\n", "% Alias string\n", "% Name string\n"] ++
    eventDef "PajeNewEvent" 8
      ["% Time date\n", "% Type string\n", "% Container string\n", "% Value string\n"] ++
    eventDef "PajeDefineVariableType" 9
      ["% Type string\n", "% Alias string\n", "% Name string\n", "% Color string\n"] ++
    eventDef "PajeSetVariable" 10
      ["% Time date\n", "% Type string\n", "% Container string\n", "% Value double\n"]

/-- What `initialize` prints besides the containers and the states of the machines. -/
def initializeTexts : List String :=
  [pajeHeader,
    "# Container types creation\n1 0 root_ct \"Machines\"\n1 root_ct machine_ct \"Machine\"\n" ++
      "1 0 scheduler_ct \"Scheduler\"\n1 scheduler_ct killer_ct \"Killer\"\n\n",
    "# Event types creation\n7 killer_ct kk \"Job kill\"\n7 machine_ct km \"Job kill\"\n\n",
    "# Variable types creation\n9 scheduler_ct vu_vt \"Utilization\" \"0.0 0.5 0.0\"\n\n",
    "# States creation\n4 machine_state machine_ct \"Machine state\"\n\n",
    "# Creation of the different values the machine state can be\n" ++
      "5 w machine_state \"Waiting\" \"0.0 0.0 0.0\"\n" ++
      "5 l machine_state \"Launching\" \"0.3 0.3 0.3\"\n\n# Begin of events\n"]

def endOfEvents : String := "\n# End of events, containers destruction\n"

/-- The check of a text that does not depend on the simulation. -/
def checkText (bufSize : Nat) (text : String) : Except String Unit :=
  xbtAssert (text.utf8ByteSize < bufSize - 1) fullBuffer

namespace PajeTracer

/-- `initialize` -/
def initialized (t : PajeTracer) (names : List String) (time : Date) :
    Except String PajeTracer := do
  forEach (fun _ text => checkText 8192 text) () initializeTexts
  t.initializeContainers names time

/-- `finalize`, with its first line -/
def finalized (t : PajeTracer) (nbMachines : Nat) (time : Date) : Except String PajeTracer := do
  checkText 256 endOfEvents
  t.finalize nbMachines time

end PajeTracer

/-! ### The sizes of the lines -/

/-- The number of bytes of a date -/
def dateSize (time : Date) : Nat := (printDate time).utf8ByteSize

/-- The number of bytes of the number of a machine -/
def numberSize (machineId : Nat) : Nat := (toString machineId).utf8ByteSize

def JobIdentifier.size (jobId : JobIdentifier) : Nat := jobId.toString.utf8ByteSize

/-- The dates that the tracer prints. -/
def InTime (time : Date) : Prop := 0 ≤ time ∧ time < 10 ^ 15

theorem InTime.size_le {time : Date} (h : InTime time) : dateSize time ≤ 23 := by
  have hlength := FixedPoint.length_print_le_iff 6 (k := 16) time (by decide)
  rw [if_neg (not_lt.mpr h.1), abs_of_nonneg h.1] at hlength
  rw [dateSize, printDate, FixedPoint.utf8ByteSize_text]
  refine hlength.mpr ?_
  linarith [h.2]

theorem numberSize_le {machineId : Nat} (h : machineId < 2 ^ 31) : numberSize machineId ≤ 10 := by
  rw [numberSize, FixedPoint.utf8ByteSize_repr, Nat.length_toDigits_le_iff (by decide) (by decide)]
  omega

namespace PajeLine

/-- The number of bytes of a line -/
def size : PajeLine → Nat
  | rootContainer time => 51 + dateSize time
  | machineContainer time machineId name =>
    24 + dateSize time + numberSize machineId + name.utf8ByteSize
  | schedulerContainers time => 61 + 2 * dateSize time
  | entityValue jobId color => 22 + 2 * jobId.size + color.utf8ByteSize
  | machineState time machineId value =>
    20 + dateSize time + numberSize machineId + value.utf8ByteSize
  | killerEvent time jobId => 11 + dateSize time + jobId.size
  | machineEvent time machineId jobId =>
    11 + dateSize time + numberSize machineId + jobId.size
  | machineDestruction time machineId => 16 + dateSize time + numberSize machineId
  | rootDestruction time => 16 + dateSize time

theorem utf8ByteSize_text (line : PajeLine) : line.text.utf8ByteSize = line.size := by
  cases line with
  | rootContainer time =>
    have hbefore : "# Containers creation\n2 ".utf8ByteSize = 24 := by decide
    have hafter : " root_ct root \"Machines\" 0\n".utf8ByteSize = 27 := by decide
    delta text size
    simp only [String.utf8ByteSize_append, hbefore, hafter, dateSize]
    generalize (printDate time).utf8ByteSize = d
    omega
  | machineContainer time machineId name =>
    have hfirst : "2 ".utf8ByteSize = 2 := by decide
    have hdate : " machine_ct m".utf8ByteSize = 13 := by decide
    have hnumber : " \"".utf8ByteSize = 2 := by decide
    have hname : "\" root\n".utf8ByteSize = 7 := by decide
    delta text size
    simp only [String.utf8ByteSize_append, hfirst, hdate, hnumber, hname, dateSize, numberSize]
    generalize (printDate time).utf8ByteSize = d
    generalize (toString machineId).utf8ByteSize = n
    omega
  | schedulerContainers time =>
    have hfirst : "2 ".utf8ByteSize = 2 := by decide
    have hscheduler : " scheduler_ct sc \"Scheduler\" 0\n2 ".utf8ByteSize = 33 := by decide
    have hkiller : " killer_ct k \"Killer\" sc\n\n".utf8ByteSize = 26 := by decide
    delta text size
    simp only [String.utf8ByteSize_append, hfirst, hscheduler, hkiller, dateSize]
    generalize (printDate time).utf8ByteSize = d
    omega
  | entityValue jobId color =>
    have hfirst : "5 j".utf8ByteSize = 3 := by decide
    have hjob : " machine_state \"".utf8ByteSize = 16 := by decide
    have hname : "\" ".utf8ByteSize = 2 := by decide
    have hlast : "\n".utf8ByteSize = 1 := by decide
    delta text size
    simp only [String.utf8ByteSize_append, hfirst, hjob, hname, hlast, JobIdentifier.size]
    generalize jobId.toString.utf8ByteSize = l
    omega
  | machineState time machineId value =>
    have hfirst : "6 ".utf8ByteSize = 2 := by decide
    have hdate : " machine_state m".utf8ByteSize = 16 := by decide
    have hnumber : " ".utf8ByteSize = 1 := by decide
    have hlast : "\n".utf8ByteSize = 1 := by decide
    delta text size
    simp only [String.utf8ByteSize_append, hfirst, hdate, hnumber, hlast, dateSize, numberSize]
    generalize (printDate time).utf8ByteSize = d
    generalize (toString machineId).utf8ByteSize = n
    omega
  | killerEvent time jobId =>
    have hfirst : "8 ".utf8ByteSize = 2 := by decide
    have hdate : " kk k \"".utf8ByteSize = 7 := by decide
    have hlast : "\"\n".utf8ByteSize = 2 := by decide
    delta text size
    simp only [String.utf8ByteSize_append, hfirst, hdate, hlast, dateSize, JobIdentifier.size]
    generalize (printDate time).utf8ByteSize = d
    generalize jobId.toString.utf8ByteSize = l
    omega
  | machineEvent time machineId jobId =>
    have hfirst : "8 ".utf8ByteSize = 2 := by decide
    have hdate : " km m".utf8ByteSize = 5 := by decide
    have hnumber : " \"".utf8ByteSize = 2 := by decide
    have hlast : "\"\n".utf8ByteSize = 2 := by decide
    delta text size
    simp only [String.utf8ByteSize_append, hfirst, hdate, hnumber, hlast, dateSize, numberSize,
      JobIdentifier.size]
    generalize (printDate time).utf8ByteSize = d
    generalize (toString machineId).utf8ByteSize = n
    generalize jobId.toString.utf8ByteSize = l
    omega
  | machineDestruction time machineId =>
    have hfirst : "3 ".utf8ByteSize = 2 := by decide
    have hdate : " m".utf8ByteSize = 2 := by decide
    have hlast : " machine_ct\n".utf8ByteSize = 12 := by decide
    delta text size
    simp only [String.utf8ByteSize_append, hfirst, hdate, hlast, dateSize, numberSize]
    generalize (printDate time).utf8ByteSize = d
    generalize (toString machineId).utf8ByteSize = n
    omega
  | rootDestruction time =>
    have hfirst : "3 ".utf8ByteSize = 2 := by decide
    have hlast : " root root_ct\n".utf8ByteSize = 14 := by decide
    delta text size
    simp only [String.utf8ByteSize_append, hfirst, hlast, dateSize]
    generalize (printDate time).utf8ByteSize = d
    omega

end PajeLine

/-! ### The runs of the tracer -/

/-- What Batsim asks of its tracer between the start and the end. -/
inductive TracerCall where
  | machineIdle (machineId : Nat) (time : Date)
  | machineAsComputingJob (machineId : Nat) (jobId : JobIdentifier) (time : Date)
  | jobKill (jobId : JobIdentifier) (usedMachineIds : IntervalSet) (time : Date)
    (associateKillToMachines : Bool)

namespace TracerCall

def run (t : PajeTracer) : TracerCall → Except String PajeTracer
  | machineIdle machineId time => t.setMachineIdle machineId time
  | machineAsComputingJob machineId jobId time => t.setMachineAsComputingJob machineId jobId time
  | jobKill jobId used time associate => t.addJobKill jobId used time associate

/-- The machines have numbers of type `int`, and the date is one that the tracer prints. -/
def Valid : TracerCall → Prop
  | machineIdle machineId time => machineId < 2 ^ 31 ∧ InTime time
  | machineAsComputingJob machineId _ time => machineId < 2 ^ 31 ∧ InTime time
  | jobKill _ used time _ => (∀ id ∈ used, id < 2 ^ 31) ∧ InTime time

/-- The identifier of the job leaves room for the rest of each line. -/
def Fits : TracerCall → Prop
  | machineIdle _ _ => True
  | machineAsComputingJob _ jobId _ => jobId.size ≤ 102
  | jobKill jobId used time associate => dateSize time + jobId.size ≤ 243 ∧
    (associate = true → ∀ id ∈ used, dateSize time + numberSize id + jobId.size ≤ 243)

end TracerCall

/-- A trace from its start to its end, for machines with these names. -/
def traceRun (colors names : List String) (start : Date) (calls : List TracerCall) (stop : Date) :
    Except String PajeTracer := do
  let t ← PajeTracer.initialized { colors := colors } names start
  let t ← forEach TracerCall.run t calls
  t.finalized names.length stop

namespace PajeTracer

variable {t t' : PajeTracer} {bufSize : Nat} {line : PajeLine} {jobId : JobIdentifier}

theorem print_succeeds_iff :
    (∃ t', t.print bufSize line = .ok t') ↔ line.size < bufSize - 1 := by
  simp only [print_eq_ok, PajeLine.utf8ByteSize_text, exists_and_left, exists_eq, and_true]

theorem forEach_print_succeeds_iff {ls : List PajeLine} :
    (∃ t', forEach (print bufSize) t ls = .ok t') ↔ ∀ line ∈ ls, line.size < bufSize - 1 := by
  simp only [forEach_print_eq_ok, PajeLine.utf8ByteSize_text, exists_and_left, exists_eq, and_true]

/-- The colors have the size of those that are generated, and the jobs that are registered left room
in their line. -/
structure Bounded (t : PajeTracer) : Prop where
  ne_nil : t.colors ≠ []
  colors : ∀ color ∈ t.colors, color.utf8ByteSize = colorSize
  jobs : ∀ jobId, t.jobs.lookup jobId ≠ none → jobId.size ≤ 102

theorem Bounded.of_eq (h : t.Bounded) (hcolors : t'.colors = t.colors) (hjobs : t'.jobs = t.jobs) :
    t'.Bounded :=
  ⟨hcolors ▸ h.ne_nil, hcolors ▸ h.colors, hjobs ▸ h.jobs⟩

theorem Bounded.print (h : t.Bounded) (hprint : t.print bufSize line = .ok t') : t'.Bounded := by
  obtain ⟨-, rfl⟩ := print_eq_ok.mp hprint
  exact h.of_eq rfl rfl

theorem Bounded.forEach_print {ls : List PajeLine} (h : t.Bounded)
    (hprint : forEach (PajeTracer.print bufSize) t ls = .ok t') : t'.Bounded := by
  obtain ⟨-, rfl⟩ := forEach_print_eq_ok.mp hprint
  exact h.of_eq rfl rfl

/-- The line of a new job has room for a color and twice the identifier. -/
theorem registerNewJob_succeeds_iff (h : t.Bounded) (hnew : t.jobs.lookup jobId = none) :
    (∃ t', t.registerNewJob jobId = .ok t') ↔ jobId.size ≤ 102 := by
  have hlength := List.length_pos_iff.mpr h.ne_nil
  have hcolor : (t.colors.getD (t.nbTotalJobs % t.colors.length) "").utf8ByteSize = 28 := by
    have hlt := Nat.mod_lt t.nbTotalJobs hlength
    rw [List.getD_eq_getElem?_getD, List.getElem?_eq_getElem hlt, Option.getD_some]
    exact h.colors _ (List.getElem_mem hlt)
  simp only [registerNewJob, bind_eq_ok, xbtAssert_eq_ok, exists_const, Except.ok.injEq,
    exists_and_left, print_eq_ok, PajeLine.utf8ByteSize_text, PajeLine.size, hcolor]
  constructor
  · rintro ⟨-, _, _, ⟨hfits, -⟩, -⟩
    omega
  · exact fun hle => ⟨hnew, _, _, ⟨by omega, rfl⟩, rfl⟩

theorem registerNewJob_jobs (h : t.registerNewJob jobId = .ok t') :
    t'.colors = t.colors ∧ t'.jobs = t.jobs.insert jobId (jobValue jobId) := by
  simp only [registerNewJob, bind_eq_ok, print_eq_ok, Except.ok.injEq] at h
  obtain ⟨_, -, _, ⟨-, rfl⟩, rfl⟩ := h
  exact ⟨rfl, rfl⟩

theorem Bounded.registerNewJob (h : t.Bounded) (hnew : t.jobs.lookup jobId = none)
    (hregister : t.registerNewJob jobId = .ok t') : t'.Bounded := by
  obtain ⟨hcolors, hjobs⟩ := registerNewJob_jobs hregister
  refine ⟨hcolors ▸ h.ne_nil, hcolors ▸ h.colors, fun other hother => ?_⟩
  rw [hjobs] at hother
  by_cases hsame : other = jobId
  · rw [hsame]
    exact (registerNewJob_succeeds_iff h hnew).mp ⟨t', hregister⟩
  · rw [AList.lookup_insert_ne hsame] at hother
    exact h.jobs other hother

/-- The first step of `set_machine_as_computing_job` -/
theorem exists_registered (h : t.Bounded) :
    (∃ t', (if t.jobs.lookup jobId = none then t.registerNewJob jobId else .ok t) = .ok t') ↔
      jobId.size ≤ 102 := by
  split
  · next hnew => exact registerNewJob_succeeds_iff h hnew
  · next hknown => exact iff_of_true ⟨t, rfl⟩ (h.jobs jobId hknown)

theorem Bounded.registered (h : t.Bounded)
    (hregister : (if t.jobs.lookup jobId = none then t.registerNewJob jobId else .ok t) = .ok t') :
    t'.Bounded ∧ t'.jobs.lookup jobId = some (jobValue jobId) := by
  split at hregister
  · next hnew =>
    refine ⟨h.registerNewJob hnew hregister, ?_⟩
    rw [(registerNewJob_jobs hregister).2, AList.lookup_insert]
  · next hknown =>
    cases hregister
    obtain ⟨value, hvalue⟩ := Option.ne_none_iff_exists'.mp hknown
    rw [hvalue, t.jobs_valued jobId value hvalue]
    exact ⟨h, rfl⟩

/-- The lines of a machine, but for its name, have room for any date and number. -/
theorem machineState_fits {time : Date} {id : Nat} {value : String} (htime : InTime time)
    (hid : id < 2 ^ 31) (hvalue : value.utf8ByteSize ≤ 103) :
    (PajeLine.machineState time id value).size < 256 - 1 := by
  have hdate := htime.size_le
  have hnumber := numberSize_le hid
  rw [PajeLine.size]
  omega

theorem size_jobValue (jobId : JobIdentifier) :
    (jobValue jobId).utf8ByteSize = 1 + jobId.size := by
  have hprefix : "j".utf8ByteSize = 1 := by decide
  rw [jobValue, String.utf8ByteSize_append, hprefix, JobIdentifier.size]

theorem setMachineAsComputingJob_succeeds_iff {time : Date} {id : Nat} (h : t.Bounded)
    (htime : InTime time) (hid : id < 2 ^ 31) :
    (∃ t', t.setMachineAsComputingJob id jobId time = .ok t') ↔ jobId.size ≤ 102 := by
  rw [← exists_registered h]
  simp only [setMachineAsComputingJob, bind_eq_ok]
  constructor
  · rintro ⟨_, t₁, hregister, -⟩
    exact ⟨t₁, hregister⟩
  · rintro ⟨t₁, hregister⟩
    have hsize := (exists_registered h).mp ⟨t₁, hregister⟩
    have hvalue := (h.registered hregister).2
    have hvalueSize : (jobValue jobId).utf8ByteSize ≤ 103 := by
      rw [size_jobValue]
      omega
    obtain ⟨t', ht'⟩ :=
      print_succeeds_iff (t := t₁).mpr (machineState_fits htime hid hvalueSize)
    exact ⟨t', t₁, hregister, by rw [hvalue]; exact ht'⟩

theorem Bounded.setMachineAsComputingJob {time : Date} {id : Nat} (h : t.Bounded)
    (hset : t.setMachineAsComputingJob id jobId time = .ok t') : t'.Bounded := by
  simp only [PajeTracer.setMachineAsComputingJob, bind_eq_ok] at hset
  obtain ⟨t₁, hregister, hprint⟩ := hset
  obtain ⟨hbounded, hvalue⟩ := h.registered hregister
  rw [hvalue] at hprint
  exact hbounded.print hprint

theorem addJobKill_succeeds_iff {time : Date} {used : IntervalSet} {associate : Bool} :
    (∃ t', t.addJobKill jobId used time associate = .ok t') ↔
      (TracerCall.jobKill jobId used time associate).Fits := by
  have hkiller : (PajeLine.killerEvent time jobId).size < 256 - 1 ↔
      dateSize time + jobId.size ≤ 243 := by
    rw [PajeLine.size]
    omega
  have hmachines : (∀ line ∈ used.elements.map fun id => PajeLine.machineEvent time id jobId,
      line.size < 256 - 1) ↔
        ∀ id ∈ used, dateSize time + numberSize id + jobId.size ≤ 243 := by
    rw [List.forall_mem_map]
    refine forall₂_congr fun id _ => ?_
    rw [PajeLine.size]
    omega
  simp only [addJobKill, bind_eq_ok, TracerCall.Fits, ← hkiller, ← hmachines]
  cases associate with
  | false =>
    simp only [Bool.false_eq_true, if_false, Except.ok.injEq, false_implies, and_true,
      ← print_succeeds_iff (t := t)]
    constructor
    · rintro ⟨_, t₁, hprint, -⟩
      exact ⟨t₁, hprint⟩
    · rintro ⟨t₁, hprint⟩
      exact ⟨t₁, t₁, hprint, rfl⟩
  | true =>
    simp only [if_true, true_implies]
    constructor
    · rintro ⟨t', t₁, hprint, hall⟩
      exact ⟨print_succeeds_iff.mp ⟨t₁, hprint⟩, forEach_print_succeeds_iff.mp ⟨t', hall⟩⟩
    · rintro ⟨hfirst, hall⟩
      obtain ⟨t₁, hprint⟩ := print_succeeds_iff (t := t).mpr hfirst
      obtain ⟨t', ht'⟩ := forEach_print_succeeds_iff (t := t₁).mpr hall
      exact ⟨t', t₁, hprint, ht'⟩

theorem Bounded.addJobKill {time : Date} {used : IntervalSet} {associate : Bool} (h : t.Bounded)
    (hkill : t.addJobKill jobId used time associate = .ok t') : t'.Bounded := by
  simp only [PajeTracer.addJobKill, bind_eq_ok] at hkill
  obtain ⟨t₁, hprint, hrest⟩ := hkill
  split at hrest
  · exact (h.print hprint).forEach_print hrest
  · cases hrest
    exact h.print hprint

end PajeTracer

namespace TracerCall

variable {t t' : PajeTracer} {call : TracerCall}

/-- A call succeeds exactly if its job leaves room. -/
theorem run_succeeds_iff (h : t.Bounded) (hvalid : call.Valid) :
    (∃ t', call.run t = .ok t') ↔ call.Fits := by
  cases call with
  | machineIdle machineId time =>
    refine iff_of_true (PajeTracer.print_succeeds_iff.mpr ?_) trivial
    exact PajeTracer.machineState_fits hvalid.2 hvalid.1 (by decide)
  | machineAsComputingJob machineId jobId time =>
    exact PajeTracer.setMachineAsComputingJob_succeeds_iff h hvalid.2 hvalid.1
  | jobKill jobId used time associate => exact PajeTracer.addJobKill_succeeds_iff

theorem bounded_run (h : t.Bounded) (hrun : call.run t = .ok t') : t'.Bounded := by
  cases call with
  | machineIdle machineId time => exact h.print hrun
  | machineAsComputingJob machineId jobId time => exact h.setMachineAsComputingJob hrun
  | jobKill jobId used time associate => exact h.addJobKill hrun

end TracerCall

/-! ### The start and the end of a trace -/

/-- The names of the machines leave room for the rest of their lines. -/
def NamesFit (names : List String) (start : Date) : Prop :=
  ∀ (id : Nat) (name : String), names[id]? = some name →
    dateSize start + numberSize id + name.utf8ByteSize ≤ 8166

namespace PajeTracer

variable {t t' : PajeTracer} {names : List String} {start stop : Date}

theorem checkTexts : forEach (fun _ text => checkText 8192 text) () initializeTexts = .ok () := by
  decide +kernel

theorem initialized_succeeds_iff (hstart : InTime start) (hnames : names.length ≤ 2 ^ 31) :
    (∃ t', t.initialized names start = .ok t') ↔ NamesFit names start := by
  have hdate := hstart.size_le
  have hmachines : (∀ line ∈ names.zipIdx.map fun e => PajeLine.machineContainer start e.2 e.1,
      line.size < 8192 - 1) ↔ NamesFit names start := by
    rw [List.forall_mem_map, NamesFit]
    constructor
    · intro h id name hname
      have hfits := h (name, id) (List.mem_zipIdx_iff_getElem?.mpr hname)
      dsimp only [PajeLine.size] at hfits
      omega
    · rintro h ⟨name, id⟩ he
      have hfits := h id name (List.mem_zipIdx_iff_getElem?.mp he)
      dsimp only [PajeLine.size]
      omega
  simp only [initialized, initializeContainers, checkTexts, bind_eq_ok, true_and, exists_const]
  rw [← hmachines]
  constructor
  · rintro ⟨_, _, -, _, hall, -⟩
    exact forEach_print_succeeds_iff.mp ⟨_, hall⟩
  · intro hall
    obtain ⟨t₁, h₁⟩ : ∃ t₁, t.print 8192 (.rootContainer start) = .ok t₁ :=
      print_succeeds_iff.mpr (by rw [PajeLine.size]; omega)
    obtain ⟨t₂, h₂⟩ := forEach_print_succeeds_iff (t := t₁).mpr hall
    obtain ⟨t₃, h₃⟩ : ∃ t₃, t₂.print 8192 (.schedulerContainers start) = .ok t₃ :=
      print_succeeds_iff.mpr (by rw [PajeLine.size]; omega)
    have hwaiting : ∀ line ∈ (List.range names.length).map fun id =>
        PajeLine.machineState start id mstateWaiting, line.size < 8192 - 1 := by
      rw [List.forall_mem_map]
      intro id hid
      have hlt := (List.mem_range.mp hid).trans_le hnames
      exact (machineState_fits hstart hlt (by decide)).trans (by decide)
    obtain ⟨t₄, h₄⟩ := forEach_print_succeeds_iff (t := t₃).mpr hwaiting
    exact ⟨t₄, t₁, h₁, t₂, h₂, t₃, h₃, h₄⟩

theorem Bounded.initialized (h : t.Bounded) (hinit : t.initialized names start = .ok t') :
    t'.Bounded := by
  simp only [PajeTracer.initialized, initializeContainers, bind_eq_ok] at hinit
  obtain ⟨_, -, _, h₁, _, h₂, _, h₃, h₄⟩ := hinit
  exact (((h.print h₁).forEach_print h₂).print h₃).forEach_print h₄

theorem finalized_succeeds {nbMachines : Nat} (hstop : InTime stop) (hle : nbMachines ≤ 2 ^ 31) :
    ∃ t', t.finalized nbMachines stop = .ok t' := by
  have hdate := hstop.size_le
  have hend : checkText 256 endOfEvents = .ok () := by decide +kernel
  have hmachines : ∀ line ∈ (List.range nbMachines).map fun id =>
      PajeLine.machineDestruction stop id, line.size < 256 - 1 := by
    rw [List.forall_mem_map]
    intro id hid
    have hnumber := numberSize_le ((List.mem_range.mp hid).trans_le hle)
    rw [PajeLine.size]
    omega
  obtain ⟨t₁, h₁⟩ := forEach_print_succeeds_iff (t := t).mpr hmachines
  obtain ⟨t₂, h₂⟩ : ∃ t₂, t₁.print 256 (.rootDestruction stop) = .ok t₂ :=
    print_succeeds_iff.mpr (by rw [PajeLine.size]; omega)
  simp only [finalized, finalize, hend, bind_eq_ok, true_and, exists_const]
  exact ⟨t₂, t₁, h₁, h₂⟩

end PajeTracer

section runs

variable {numbers : List ℚ} {generated colors names : List String} {start stop : Date}
  {calls : List TracerCall}

variable (numbers colors names start stop calls) in
/-- No buffer is filled, neither by the numbers of the messages nor by the lines of the trace. -/
structure BuffersSuffice : Prop where
  numbers : ∀ d ∈ numbers, ∃ text, writerDouble d = .ok text
  lines : ∃ t, traceRun colors names start calls stop = .ok t

/-- A trace is written exactly when the names of the machines and the jobs of the calls leave
room. -/
theorem traceRun_succeeds_iff (hcolors : PajeTracer.generateColors 64 = .ok generated)
    (hshuffled : colors.Perm generated) (hstart : InTime start) (hstop : InTime stop)
    (hnames : names.length ≤ 2 ^ 31) (hcalls : ∀ call ∈ calls, call.Valid) :
    (∃ t, traceRun colors names start calls stop = .ok t) ↔
      NamesFit names start ∧ ∀ call ∈ calls, call.Fits := by
  obtain ⟨hlength, hsizes⟩ := generateColors_eq_ok hcolors
  have hnew : PajeTracer.Bounded { colors := colors } := by
    constructor
    · intro hnil
      have hzero : colors.length = 0 := List.length_eq_zero_iff.mpr hnil
      rw [hshuffled.length_eq, hlength] at hzero
      cases hzero
    · exact fun color hcolor => hsizes color (hshuffled.mem_iff.mp hcolor)
    · exact fun jobId hjob => absurd (AList.lookup_empty jobId) hjob
  rw [← PajeTracer.initialized_succeeds_iff (t := { colors := colors }) hstart hnames]
  simp only [traceRun, bind_eq_ok]
  have hruns := fun t (ht : PajeTracer.Bounded t) =>
    forEach_succeeds_iff (f := TracerCall.run) PajeTracer.Bounded ht
      (fun call hcall _ ht => TracerCall.run_succeeds_iff ht (hcalls call hcall))
      fun call _ _ _ ht hrun => TracerCall.bounded_run ht hrun
  constructor
  · rintro ⟨_, t₁, h₁, t₂, h₂, -⟩
    exact ⟨⟨t₁, h₁⟩, (hruns t₁ (hnew.initialized h₁)).mp ⟨t₂, h₂⟩⟩
  · rintro ⟨⟨t₁, h₁⟩, hfits⟩
    obtain ⟨t₂, h₂⟩ := (hruns t₁ (hnew.initialized h₁)).mpr hfits
    obtain ⟨t₃, h₃⟩ := PajeTracer.finalized_succeeds (t := t₂) hstop hnames
    exact ⟨t₃, t₁, h₁, t₂, h₂, h₃⟩

/-- The buffers suffice exactly when the numbers of the messages are small enough, and the names of
the machines and the identifiers of the jobs short enough. -/
theorem buffers_suffice_iff (hcolors : PajeTracer.generateColors 64 = .ok generated)
    (hshuffled : colors.Perm generated) (hstart : InTime start) (hstop : InTime stop)
    (hnames : names.length ≤ 2 ^ 31) (hcalls : ∀ call ∈ calls, call.Valid) :
    BuffersSuffice numbers colors names start stop calls ↔
      (∀ d ∈ numbers, NumberFits d) ∧ NamesFit names start ∧ ∀ call ∈ calls, call.Fits := by
  have htrace := traceRun_succeeds_iff hcolors hshuffled hstart hstop hnames hcalls
  constructor
  · intro h
    exact ⟨fun d hd => (writerDouble_iff d).mp (h.numbers d hd), htrace.mp h.lines⟩
  · rintro ⟨hnumbers, hfits⟩
    exact ⟨fun d hd => (writerDouble_iff d).mpr (hnumbers d hd), htrace.mpr hfits⟩

end runs

/-! ### A large number and a long identifier -/

theorem inTime_natCast {n : Nat} (h : n < 10 ^ 15) : InTime n := by
  refine ⟨Nat.cast_nonneg n, ?_⟩
  rw [← Nat.cast_ofNat, ← Nat.cast_pow]
  exact Nat.cast_lt.mpr h

/-- A job that a machine computes and that is killed there. -/
theorem small_job_fits : ∃ colors, PajeTracer.generateColors 64 = .ok colors ∧
    BuffersSuffice [1 / 2] colors ["host"] 0 2
      [.machineAsComputingJob 0 loneJob 1, .jobKill loneJob loneMachine 2 true] := by
  obtain ⟨colors, hcolors⟩ := generateColors_succeeds 64 (by decide)
  refine ⟨colors, hcolors, (buffers_suffice_iff hcolors (.refl colors)
    (inTime_natCast (n := 0) (by decide)) (inTime_natCast (n := 2) (by decide)) (by decide)
    ?_).mpr ⟨?_, ?_, ?_⟩⟩
  · have hmachine : ∀ id ∈ loneMachine, id < 2 ^ 31 := by decide
    rw [List.forall_mem_cons, List.forall_mem_singleton]
    exact ⟨⟨by decide, inTime_natCast (n := 1) (by decide)⟩, hmachine,
      inTime_natCast (n := 2) (by decide)⟩
  · rw [List.forall_mem_singleton, ← writerDouble_iff]
    exact ⟨FixedPoint.print 6 (1 / 2), by decide +kernel⟩
  · intro id name hname
    obtain rfl := Nat.lt_one_iff.mp (List.getElem?_eq_some_iff.mp hname).1
    obtain rfl : "host" = name := by simpa using hname
    rw [Nat.cast_zero]
    decide +kernel
  · rw [List.forall_mem_cons, List.forall_mem_singleton]
    have hjob : loneJob.size ≤ 102 := by decide +kernel
    have hkill : dateSize 2 + loneJob.size ≤ 243 := by decide +kernel
    have hmachine : ∀ id ∈ loneMachine, dateSize 2 + numberSize id + loneJob.size ≤ 243 := by
      decide +kernel
    exact ⟨hjob, hkill, fun _ => hmachine⟩

/-- The double that is closest to the 24-th power of ten. -/
def largeNumber : ℚ := 999999999999999983222784

/-- The text of that number has 31 characters. -/
theorem large_number_fills_buffer :
    ¬ ∀ (numbers : List ℚ) (generated colors names : List String) (start stop : Date)
      (calls : List TracerCall), PajeTracer.generateColors 64 = .ok generated →
      colors.Perm generated → InTime start → InTime stop → names.length ≤ 2 ^ 31 →
      (∀ call ∈ calls, call.Valid) → BuffersSuffice numbers colors names start stop calls := by
  intro hall
  obtain ⟨colors, hcolors⟩ := generateColors_succeeds 64 (by decide)
  have hzero : InTime 0 := inTime_natCast (n := 0) (by decide)
  have hsuffice := hall [largeNumber] colors colors [] 0 0 [] hcolors (.refl colors) hzero hzero
    (by decide) (by simp)
  obtain ⟨text, htext⟩ := hsuffice.numbers largeNumber (List.mem_singleton_self _)
  have herror : writerDouble largeNumber = .error "ret < buf_size - 1" := by decide +kernel
  rw [herror] at htext
  cases htext

end Batsim
