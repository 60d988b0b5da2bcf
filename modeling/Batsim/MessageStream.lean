import Mathlib.Data.List.Infix
import Batsim.Basic
import Batsim.Lib.Json

/-!
`JsonProtocolWriter` on JSON values: the fifteen append functions, the generation of a message, and
the stream of the messages that the server sends. A document is kept as it is before the dump.
-/

namespace Batsim

open Checked

/-- A JSON value, with exact numbers for the `double`s. -/
abbrev Doc := Json.Value Date

/-- What the writer asks from its surroundings: two options of the context, and the parser of
JSON texts. -/
structure WriterContext where
  redisEnabled : Bool
  submissionForwardProfiles : Bool
  parse : String → Option Doc

structure JsonProtocolWriter where
  doc : List (String × Doc) := []
  /-- an array, but once it is moved into the document -/
  events : Option (List Doc) := some []
  isEmpty : Bool := true
  lastDate : Date := -1

/-- What `SIMULATION_BEGINS` tells of a machine. -/
structure MachineDescription where
  id : Nat
  name : String
  state : String
  properties : List (String × String)
  zoneProperties : List (String × String)

/-- What `SIMULATION_BEGINS` tells of a workload; the description of a removed profile is lost. -/
structure LoadedWorkload where
  name : String
  file : String
  profiles : List (String × Option String)

/-- The progress of a task, as far as it has started. -/
inductive TaskProgress where
  | leaf (profileName : String) (ratio : Date)
  | started (profileName : String) (currentTaskIndex : Nat) (current : TaskProgress)
  | notStarted (profileName : String)

/-- The maximal intervals of an increasing list. -/
def intervals (elements : List Nat) : List (Nat × Nat) :=
  elements.foldr (fun n rest =>
    match rest with
    | (first, last) :: rest => if n + 1 = first then (n, last) :: rest
        else (n, n) :: (first, last) :: rest
    | [] => [(n, n)]) []

/-- `to_string_hyphen(" ", "-")` -/
def IntervalSet.toStringHyphen (s : IntervalSet) : String :=
  " ".intercalate ((intervals s.elements).map fun (first, last) =>
    if first = last then toString first else toString first ++ "-" ++ toString last)

def parseError : String := "JSON parse error"

/-- The document of a text, which must be one. -/
def WriterContext.parsed (ctx : WriterContext) (text : String) : Except String Doc :=
  match ctx.parse text with
  | some doc => .ok doc
  | none => .error parseError

/-- `generate_task_tree` -/
def TaskProgress.generateTaskTree : TaskProgress → Doc
  | .leaf name ratio => .obj [("profile_name", .str name), ("progress", .num ratio)]
  | .started name index current =>
    .obj [("profile_name", .str name), ("current_task_index", .num index),
      ("current_task", current.generateTaskTree)]
  | .notStarted name => .obj [("profile_name", .str name), ("current_task_index", .num (-1))]

def properties (entries : List (String × String)) : Doc :=
  .obj (entries.map fun e => (e.1, .str e.2))

/-- `machine_to_json_value` -/
def machineToJsonValue (m : MachineDescription) : Doc :=
  .obj [("id", .num m.id), ("name", .str m.name), ("state", .str m.state),
    ("properties", properties m.properties), ("zone_properties", properties m.zoneProperties)]

/-! ### The data of the events -/

/-- The `profiles` of a workload; a text that does not parse gives a null value. -/
def profileDict (ctx : WriterContext) (w : LoadedWorkload) : Doc :=
  .obj (w.profiles.filterMap fun p => p.2.map fun text => (p.1, (ctx.parse text).getD .null))

def simulationBeginsData (ctx : WriterContext) (nbMachines : Nat)
    (compute storage : List MachineDescription) (workloads : List LoadedWorkload)
    (configuration : Doc) (allowComputeSharing allowStorageSharing : Bool) : Doc :=
  .obj [("nb_resources", .num nbMachines),
    ("nb_compute_resources", .num compute.length),
    ("nb_storage_resources", .num storage.length),
    ("allow_compute_sharing", .bool allowComputeSharing),
    ("allow_storage_sharing", .bool allowStorageSharing),
    ("config", configuration),
    ("compute_resources", .arr (compute.map machineToJsonValue)),
    ("storage_resources", .arr (storage.map machineToJsonValue)),
    ("workloads", .obj (workloads.map fun w => (w.name, .str w.file))),
    ("profiles", .obj (workloads.map fun w => (w.name, profileDict ctx w)))]

def jobSubmittedData (ctx : WriterContext) (jobId jobDescription profileDescription : String) :
    Except String Doc :=
  if ctx.redisEnabled then .ok (.obj [("job_id", .str jobId)])
  else do
    let job ← ctx.parsed jobDescription
    if ctx.submissionForwardProfiles then do
      let profile ← ctx.parsed profileDescription
      .ok (.obj [("job_id", .str jobId), ("job", job), ("profile", profile)])
    else .ok (.obj [("job_id", .str jobId), ("job", job)])

def jobCompletedData (jobId jobState jobAlloc : String) (returnCode : Int) : Doc :=
  .obj [("job_id", .str jobId), ("job_state", .str jobState), ("return_code", .num returnCode),
    ("alloc", .str jobAlloc)]

def outOfMap : String := "map::at"

/-- `job_progress.at(job_id)`, for the jobs whose tree is known. -/
def progressOf (jobProgress : List (String × Option TaskProgress)) (jobId : String) :
    Except String (Option (String × Doc)) :=
  match jobProgress.lookup jobId with
  | none => .error outOfMap
  | some tree => .ok (tree.map fun t => (jobId, t.generateTaskTree))

def jobKilledData (jobIds : List String) (jobProgress : List (String × Option TaskProgress)) :
    Except String Doc := do
  let progress ← collect (progressOf jobProgress) jobIds
  .ok (.obj [("job_ids", .arr (jobIds.map .str)), ("job_progress", .obj (progress.filterMap id))])

def estimateWaitingTimeData (ctx : WriterContext) (jobId jobDescription : String) :
    Except String Doc := do
  let job ← ctx.parsed jobDescription
  .ok (.obj [("requests",
    .obj [("estimate_waiting_time", .obj [("job_id", .str jobId), ("job", job)])])])

namespace JsonProtocolWriter

/-- `_events.PushBack` -/
def pushBack (w : JsonProtocolWriter) (event : Doc) : Except String JsonProtocolWriter :=
  match w.events with
  | some events => .ok { w with events := some (events ++ [event]) }
  | none => .error "IsArray()"

/-- What the append functions have in common: an event with its date, its type and its data. -/
def appendEvent (w : JsonProtocolWriter) (date : Date) (type : String) (data : Except String Doc) :
    Except String JsonProtocolWriter := do
  xbtAssert (date ≥ w.lastDate) "Date inconsistency"
  let w := { w with lastDate := date, isEmpty := false }
  let data ← data
  w.pushBack (.obj [("timestamp", .num date), ("type", .str type), ("data", data)])

variable (w : JsonProtocolWriter)

def appendRequestedCall (date : Date) := w.appendEvent date "REQUESTED_CALL" (.ok (.obj []))

def appendSimulationBegins (ctx : WriterContext) (nbMachines : Nat)
    (compute storage : List MachineDescription) (workloads : List LoadedWorkload)
    (configuration : Doc) (allowComputeSharing allowStorageSharing : Bool) (date : Date) :=
  w.appendEvent date "SIMULATION_BEGINS" (.ok (simulationBeginsData ctx nbMachines compute storage
    workloads configuration allowComputeSharing allowStorageSharing))

def appendSimulationEnds (date : Date) := w.appendEvent date "SIMULATION_ENDS" (.ok (.obj []))

def appendJobSubmitted (ctx : WriterContext) (jobId jobDescription profileDescription : String)
    (date : Date) :=
  w.appendEvent date "JOB_SUBMITTED" (jobSubmittedData ctx jobId jobDescription profileDescription)

def appendJobCompleted (jobId jobState jobAlloc : String) (returnCode : Int) (date : Date) :=
  w.appendEvent date "JOB_COMPLETED" (.ok (jobCompletedData jobId jobState jobAlloc returnCode))

def appendJobKilled (jobIds : List String) (jobProgress : List (String × Option TaskProgress))
    (date : Date) :=
  w.appendEvent date "JOB_KILLED" (jobKilledData jobIds jobProgress)

def appendFromJobMessage (jobId : String) (message : Doc) (date : Date) :=
  w.appendEvent date "FROM_JOB_MSG" (.ok (.obj [("job_id", .str jobId), ("msg", message)]))

def appendResourceStateChanged (resources : IntervalSet) (newState : String) (date : Date) :=
  w.appendEvent date "RESOURCE_STATE_CHANGED"
    (.ok (.obj [("resources", .str resources.toStringHyphen), ("state", .str newState)]))

def appendQueryEstimateWaitingTime (ctx : WriterContext) (jobId jobDescription : String)
    (date : Date) :=
  w.appendEvent date "QUERY" (estimateWaitingTimeData ctx jobId jobDescription)

def appendAnswerEnergy (consumedEnergy : Date) (date : Date) :=
  w.appendEvent date "ANSWER" (.ok (.obj [("consumed_energy", .num consumedEnergy)]))

def appendAnswerCarbonFootprint (carbonFootprint : Date) (date : Date) :=
  w.appendEvent date "ANSWER" (.ok (.obj [("carbon_footprint", .num carbonFootprint)]))

def appendAnswerWaterFootprint (waterFootprint : Date) (date : Date) :=
  w.appendEvent date "ANSWER" (.ok (.obj [("water_footprint", .num waterFootprint)]))

def appendNotify (notifyType : String) (date : Date) :=
  w.appendEvent date "NOTIFY" (.ok (.obj [("type", .str notifyType)]))

def appendNotifyResourceEvent (notifyType : String) (resources : IntervalSet) (date : Date) :=
  w.appendEvent date "NOTIFY"
    (.ok (.obj [("type", .str notifyType), ("resources", .str resources.toStringHyphen)]))

def appendNotifyGenericEvent (ctx : WriterContext) (description : String) (date : Date) :=
  w.appendEvent date "NOTIFY" (ctx.parsed description)

def clear : JsonProtocolWriter := { w with isEmpty := true, doc := [], events := some [] }

/-- `generate_current_message`: the events are moved into the document. -/
def generateCurrentMessage (date : Date) : Except String (Doc × JsonProtocolWriter) := do
  xbtAssert (date ≥ w.lastDate) "Date inconsistency"
  match w.events with
  | none => .error ("Successive calls to JsonProtocolWriter::generate_current_message without" ++
      " calling the clear() method is not supported")
  | some events =>
    let doc := w.doc ++ [("now", .num date), ("events", .arr events)]
    .ok (.obj doc, { w with doc := doc, events := none })

end JsonProtocolWriter

/-! ### The calls of the server -/

/-- A call of an append function, but for its date. -/
inductive AppendCall where
  | requestedCall
  | simulationBegins (nbMachines : Nat) (compute storage : List MachineDescription)
      (workloads : List LoadedWorkload) (configuration : Doc)
      (allowComputeSharing allowStorageSharing : Bool)
  | simulationEnds
  | jobSubmitted (jobId jobDescription profileDescription : String)
  | jobCompleted (jobId jobState jobAlloc : String) (returnCode : Int)
  | jobKilled (jobIds : List String) (jobProgress : List (String × Option TaskProgress))
  | fromJobMessage (jobId : String) (message : Doc)
  | resourceStateChanged (resources : IntervalSet) (newState : String)
  | queryEstimateWaitingTime (jobId jobDescription : String)
  | answerEnergy (consumedEnergy : Date)
  | answerCarbonFootprint (carbonFootprint : Date)
  | answerWaterFootprint (waterFootprint : Date)
  | notify (notifyType : String)
  | notifyResourceEvent (notifyType : String) (resources : IntervalSet)
  | notifyGenericEvent (description : String)

namespace AppendCall

def run (ctx : WriterContext) (w : JsonProtocolWriter) (date : Date) :
    AppendCall → Except String JsonProtocolWriter
  | .requestedCall => w.appendRequestedCall date
  | .simulationBegins nb compute storage workloads configuration computeSharing storageSharing =>
    w.appendSimulationBegins ctx nb compute storage workloads configuration computeSharing
      storageSharing date
  | .simulationEnds => w.appendSimulationEnds date
  | .jobSubmitted id job profile => w.appendJobSubmitted ctx id job profile date
  | .jobCompleted id state alloc code => w.appendJobCompleted id state alloc code date
  | .jobKilled ids progress => w.appendJobKilled ids progress date
  | .fromJobMessage id message => w.appendFromJobMessage id message date
  | .resourceStateChanged resources state => w.appendResourceStateChanged resources state date
  | .queryEstimateWaitingTime id job => w.appendQueryEstimateWaitingTime ctx id job date
  | .answerEnergy energy => w.appendAnswerEnergy energy date
  | .answerCarbonFootprint footprint => w.appendAnswerCarbonFootprint footprint date
  | .answerWaterFootprint footprint => w.appendAnswerWaterFootprint footprint date
  | .notify type => w.appendNotify type date
  | .notifyResourceEvent type resources => w.appendNotifyResourceEvent type resources date
  | .notifyGenericEvent description => w.appendNotifyGenericEvent ctx description date

/-- The type and the data of the event of a call. -/
def content (ctx : WriterContext) : AppendCall → String × Except String Doc
  | .requestedCall => ("REQUESTED_CALL", .ok (.obj []))
  | .simulationBegins nb compute storage workloads configuration computeSharing storageSharing =>
    ("SIMULATION_BEGINS", .ok (simulationBeginsData ctx nb compute storage workloads configuration
      computeSharing storageSharing))
  | .simulationEnds => ("SIMULATION_ENDS", .ok (.obj []))
  | .jobSubmitted id job profile => ("JOB_SUBMITTED", jobSubmittedData ctx id job profile)
  | .jobCompleted id state alloc code => ("JOB_COMPLETED", .ok (jobCompletedData id state alloc code))
  | .jobKilled ids progress => ("JOB_KILLED", jobKilledData ids progress)
  | .fromJobMessage id message =>
    ("FROM_JOB_MSG", .ok (.obj [("job_id", .str id), ("msg", message)]))
  | .resourceStateChanged resources state => ("RESOURCE_STATE_CHANGED",
      .ok (.obj [("resources", .str resources.toStringHyphen), ("state", .str state)]))
  | .queryEstimateWaitingTime id job => ("QUERY", estimateWaitingTimeData ctx id job)
  | .answerEnergy energy => ("ANSWER", .ok (.obj [("consumed_energy", .num energy)]))
  | .answerCarbonFootprint footprint =>
    ("ANSWER", .ok (.obj [("carbon_footprint", .num footprint)]))
  | .answerWaterFootprint footprint => ("ANSWER", .ok (.obj [("water_footprint", .num footprint)]))
  | .notify type => ("NOTIFY", .ok (.obj [("type", .str type)]))
  | .notifyResourceEvent type resources =>
    ("NOTIFY", .ok (.obj [("type", .str type), ("resources", .str resources.toStringHyphen)]))
  | .notifyGenericEvent description => ("NOTIFY", ctx.parsed description)

/-- The fifteen functions do the same with what they append. -/
theorem run_eq (ctx : WriterContext) (w : JsonProtocolWriter) (date : Date) (a : AppendCall) :
    a.run ctx w date = w.appendEvent date (a.content ctx).1 (a.content ctx).2 := by
  cases a <;> rfl

/-- Where the data of an event fails. -/
theorem content_error {ctx : WriterContext} {a : AppendCall} {e : String}
    (h : (a.content ctx).2 = .error e) : e = parseError ∨ e = outOfMap := by
  have hparsed : ∀ {text}, ctx.parsed text = .error e → e = parseError := by
    intro text htext
    simp only [WriterContext.parsed] at htext
    split at htext <;> cases htext
    rfl
  cases a with
  | jobSubmitted id job profile =>
    simp only [content, jobSubmittedData] at h
    split at h
    · cases h
    · rcases bind_eq_error.mp h with hjob | ⟨_, -, h⟩
      · exact .inl (hparsed hjob)
      · split at h
        · rcases bind_eq_error.mp h with hprofile | ⟨_, -, h⟩
          · exact .inl (hparsed hprofile)
          · cases h
        · cases h
  | jobKilled ids progress =>
    simp only [content, jobKilledData] at h
    rcases bind_eq_error.mp h with hcollect | ⟨_, -, h⟩
    · obtain ⟨id, -, hid⟩ := exists_of_collect_eq_error hcollect
      simp only [progressOf] at hid
      split at hid <;> cases hid
      exact .inr rfl
    · cases h
  | queryEstimateWaitingTime id job =>
    simp only [content, estimateWaitingTimeData] at h
    rcases bind_eq_error.mp h with hjob | ⟨_, -, h⟩
    · exact .inl (hparsed hjob)
    · cases h
  | notifyGenericEvent description => exact .inl (hparsed h)
  | _ => cases h

/-- The event of a call that does not fail. -/
def event (ctx : WriterContext) (date : Date) (a : AppendCall) : Option Doc :=
  match (a.content ctx).2 with
  | .ok data => some (.obj [("timestamp", .num date), ("type", .str (a.content ctx).1),
      ("data", data)])
  | .error _ => none

end AppendCall

inductive WriterCall where
  | append (date : Date) (a : AppendCall)
  | isEmpty
  | generateCurrentMessage (date : Date)
  | clear

inductive WriterOutput where
  | none
  | isEmpty (answer : Bool)
  | message (doc : Doc)

namespace WriterCall

def run (ctx : WriterContext) (w : JsonProtocolWriter) :
    WriterCall → Except String (JsonProtocolWriter × WriterOutput)
  | .append date a => do
    let w ← a.run ctx w date
    .ok (w, .none)
  | .isEmpty => .ok (w, .isEmpty w.isEmpty)
  | .generateCurrentMessage date => do
    let (doc, w) ← w.generateCurrentMessage date
    .ok (w, .message doc)
  | .clear => .ok (w.clear, .none)

/-- The calls one after the other, with what each returns. -/
def runAll (ctx : WriterContext) (w : JsonProtocolWriter) :
    List WriterCall → Except String (JsonProtocolWriter × List WriterOutput)
  | [] => .ok (w, [])
  | call :: calls => do
    let (w, output) ← call.run ctx w
    let (w, outputs) ← runAll ctx w calls
    .ok (w, output :: outputs)

/-- The clock when the call is made, if it is given to the writer. -/
def date? : WriterCall → Option Date
  | .append date _ => some date
  | .generateCurrentMessage date => some date
  | _ => none

def event? (ctx : WriterContext) : WriterCall → Option Doc
  | .append date a => a.event ctx date
  | _ => none

/-- The events appended since the last call of `clear`, after those of `events`. -/
def sinceClear (ctx : WriterContext) (events : List Doc) : List WriterCall → List Doc
  | [] => events
  | .clear :: calls => sinceClear ctx [] calls
  | call :: calls => sinceClear ctx (events ++ (call.event? ctx).toList) calls

/-- The calls in the order of the server: it only clears the writer after a generation, as
`generate_and_send_message` does. -/
inductive ServerOrder : List WriterCall → Prop
  | nil : ServerOrder []
  | append {date : Date} {a : AppendCall} {calls : List WriterCall} :
      ServerOrder calls → ServerOrder (.append date a :: calls)
  | isEmpty {calls : List WriterCall} : ServerOrder calls → ServerOrder (.isEmpty :: calls)
  | generateAndSend {date : Date} {calls : List WriterCall} :
      ServerOrder calls → ServerOrder (.generateCurrentMessage date :: .clear :: calls)

end WriterCall

/-- The documents of the messages, in order. -/
def messages (outputs : List WriterOutput) : List Doc :=
  outputs.filterMap fun
    | .message doc => some doc
    | _ => none

/-- The `events` array of a message. -/
def eventsOf (message : Doc) : List Doc :=
  match message.member? "events" with
  | some (.arr events) => events
  | _ => []

def numberUnder (key : String) (doc : Doc) : Option Date :=
  match doc.member? key with
  | some (.num n) => some n
  | _ => none

/-! ### The stream -/

theorem numberUnder_timestamp (date : Date) (rest : List (String × Doc)) :
    numberUnder "timestamp" (.obj (("timestamp", .num date) :: rest)) = some date := by
  simp [numberUnder, Json.Value.member?]

/-- The writer between two calls, with the events not sent yet. -/
structure JsonProtocolWriter.Holds (w : JsonProtocolWriter) (pending : List Doc) : Prop where
  doc : w.doc = []
  events : w.events = some pending
  isEmpty : w.isEmpty = pending.isEmpty
  timestamps : ∀ e ∈ pending, ∃ t, numberUnder "timestamp" e = some t ∧ t ≤ w.lastDate

theorem AppendCall.timestamp_event {ctx : WriterContext} {date : Date} {a : AppendCall} {e : Doc}
    (h : a.event ctx date = some e) : numberUnder "timestamp" e = some date := by
  simp only [event] at h
  split at h
  · cases h
    exact numberUnder_timestamp date _
  · cases h

namespace JsonProtocolWriter.Holds

variable {ctx : WriterContext} {w : JsonProtocolWriter} {pending : List Doc} {date : Date}

theorem append (h : w.Holds pending) (hdate : w.lastDate ≤ date) {a : AppendCall} {data : Doc}
    (hdata : (a.content ctx).2 = .ok data) :
    ∃ e w', a.event ctx date = some e ∧ a.run ctx w date = .ok w' ∧ w'.lastDate = date ∧
      w'.Holds (pending ++ [e]) := by
  obtain ⟨e, he⟩ : ∃ e, a.event ctx date = some e := by
    simp only [AppendCall.event, hdata]
    exact ⟨_, rfl⟩
  have htimestamp := AppendCall.timestamp_event he
  refine ⟨e, { w with lastDate := date, isEmpty := false, events := some (pending ++ [e]) }, he,
    ?_, rfl, ?_⟩
  · simp only [AppendCall.event, hdata, Option.some.injEq] at he
    rw [AppendCall.run_eq, appendEvent, xbtAssert_of hdate, hdata, ← he]
    simp only [bind, Except.bind, pushBack, h.events]
  · refine ⟨h.doc, rfl, by simp, ?_⟩
    intro f hf
    rcases List.mem_append.mp hf with hf | hf
    · obtain ⟨t, ht, hle⟩ := h.timestamps f hf
      exact ⟨t, ht, Rat.le_trans hle hdate⟩
    · rw [List.mem_singleton.mp hf]
      exact ⟨date, htimestamp, Rat.le_refl⟩

theorem append_error (hdate : w.lastDate ≤ date) {a : AppendCall} {e : String}
    (hdata : (a.content ctx).2 = .error e) : a.run ctx w date = .error e := by
  rw [AppendCall.run_eq, appendEvent, xbtAssert_of hdate, hdata]
  rfl

theorem generateAndSend (h : w.Holds pending) (hdate : w.lastDate ≤ date) :
    ∃ doc w', w.generateCurrentMessage date = .ok (doc, w') ∧ eventsOf doc = pending ∧
      numberUnder "now" doc = some date ∧ w'.clear.lastDate = w.lastDate ∧ w'.clear.Holds [] := by
  refine ⟨.obj [("now", .num date), ("events", .arr pending)],
    { w with doc := [("now", .num date), ("events", .arr pending)], events := none },
    ?_, ?_, ?_, rfl, ?_⟩
  · rw [JsonProtocolWriter.generateCurrentMessage, xbtAssert_of hdate]
    simp only [bind, Except.bind, h.events, h.doc, List.nil_append]
  · simp [eventsOf, Json.Value.member?]
  · simp [numberUnder, Json.Value.member?]
  · exact ⟨rfl, rfl, rfl, by simp⟩

end JsonProtocolWriter.Holds

namespace WriterCall

variable {ctx : WriterContext}

/-- The timestamps of the appended events are dates of the calls. -/
theorem timestamps_sublist (calls : List WriterCall) :
    ((calls.filterMap (event? ctx)).filterMap (numberUnder "timestamp")).Sublist
      (calls.filterMap date?) := by
  induction calls with
  | nil => exact .slnil
  | cons call calls ih =>
    cases call with
    | append date a =>
      have hdates : (append date a :: calls).filterMap date? = date :: calls.filterMap date? := rfl
      rw [hdates]
      cases he : event? ctx (.append date a) with
      | none =>
        rw [List.filterMap_cons_none he]
        exact ih.cons _
      | some e =>
        rw [List.filterMap_cons_some he,
          List.filterMap_cons_some (AppendCall.timestamp_event he)]
        exact ih.cons_cons _
    | isEmpty => exact ih
    | generateCurrentMessage date => exact ih.cons _
    | clear => exact ih

/-- What the outputs of some calls tell, from a writer with pending events. -/
structure Streams (ctx : WriterContext) (pending : List Doc) (calls : List WriterCall)
    (outputs : List WriterOutput) : Prop where
  complete : (messages outputs).flatMap eventsOf ++ sinceClear ctx pending calls =
    pending ++ calls.filterMap (event? ctx)
  dated : ∀ doc ∈ messages outputs, ∃ now, numberUnder "now" doc = some now ∧
    ∀ e ∈ eventsOf doc, ∃ t, numberUnder "timestamp" e = some t ∧ t ≤ now
  answers : ∀ k : Nat, calls[k]? = some WriterCall.isEmpty →
    outputs[k]? = some (WriterOutput.isEmpty (sinceClear ctx pending (calls.take k)).isEmpty)

/-- A run of calls fails only where the data of an event does. -/
theorem streams {calls : List WriterCall} (horder : ServerOrder calls) :
    ∀ {w : JsonProtocolWriter} {pending : List Doc}, w.Holds pending →
    (w.lastDate :: calls.filterMap date?).Pairwise (· ≤ ·) →
    (∃ date a e, .append date a ∈ calls ∧ (a.content ctx).2 = .error e ∧
      runAll ctx w calls = .error e) ∨
    ∃ w' outputs, runAll ctx w calls = .ok (w', outputs) ∧ Streams ctx pending calls outputs ∧
      w'.isEmpty = (sinceClear ctx pending calls).isEmpty := by
  induction horder with
  | nil =>
    intro w pending hholds _
    refine .inr ⟨w, [], rfl, ⟨?_, ?_, ?_⟩, hholds.isEmpty⟩
    · simp [messages, sinceClear]
    · simp [messages]
    · simp
  | @append date a calls _ ih =>
    intro w pending hholds hdates
    have hcalls : (append date a :: calls).filterMap date? = date :: calls.filterMap date? := rfl
    rw [hcalls, List.pairwise_cons] at hdates
    have hdate : w.lastDate ≤ date := hdates.1 date (by simp)
    cases hdata : (a.content ctx).2 with
    | error e =>
      refine .inl ⟨date, a, e, by simp, hdata, ?_⟩
      rw [runAll, run, JsonProtocolWriter.Holds.append_error hdate hdata]
      rfl
    | ok data =>
      obtain ⟨e, w', he, hrun, hlast, hholds'⟩ := hholds.append hdate hdata
      have hall : runAll ctx w (.append date a :: calls) = (do
          let (w, outputs) ← runAll ctx w' calls
          .ok (w, .none :: outputs)) := by
        rw [runAll, run, hrun]
        rfl
      rcases ih hholds' (hlast.symm ▸ hdates.2) with ⟨date', b, f, hb, hf, herror⟩ | hrest
      · refine .inl ⟨date', b, f, List.mem_cons_of_mem _ hb, hf, ?_⟩
        rw [hall, herror]
        rfl
      · obtain ⟨w'', outputs, hrest, hstreams, hempty⟩ := hrest
        have hsince : ∀ calls, sinceClear ctx pending (.append date a :: calls) =
            sinceClear ctx (pending ++ [e]) calls := by
          intro calls
          simp [sinceClear, event?, he]
        refine .inr ⟨w'', .none :: outputs, ?_, ⟨?_, hstreams.dated, ?_⟩, ?_⟩
        · rw [hall, hrest]
          rfl
        · rw [hsince, List.filterMap_cons_some (show event? ctx (.append date a) = some e from he)]
          have hcomplete := hstreams.complete
          rw [List.append_assoc] at hcomplete
          exact hcomplete
        · intro k hk
          cases k with
          | zero => cases hk
          | succ k =>
            rw [List.take_succ_cons, hsince]
            exact hstreams.answers k hk
        · rw [hsince]
          exact hempty
  | @isEmpty calls _ ih =>
    intro w pending hholds hdates
    have hall : runAll ctx w (.isEmpty :: calls) = (do
        let (w', outputs) ← runAll ctx w calls
        .ok (w', .isEmpty w.isEmpty :: outputs)) := rfl
    have hsince : ∀ calls, sinceClear ctx pending (.isEmpty :: calls) =
        sinceClear ctx pending calls := by
      intro calls
      simp [sinceClear, event?]
    rcases ih hholds hdates with ⟨date', b, f, hb, hf, herror⟩ | hrest
    · refine .inl ⟨date', b, f, List.mem_cons_of_mem _ hb, hf, ?_⟩
      rw [hall, herror]
      rfl
    · obtain ⟨w'', outputs, hrest, hstreams, hempty⟩ := hrest
      refine .inr ⟨w'', .isEmpty w.isEmpty :: outputs, ?_, ⟨?_, hstreams.dated, ?_⟩, ?_⟩
      · rw [hall, hrest]
        rfl
      · rw [hsince]
        exact hstreams.complete
      · intro k hk
        cases k with
        | zero => simp [sinceClear, hholds.isEmpty]
        | succ k =>
          rw [List.take_succ_cons, hsince]
          exact hstreams.answers k hk
      · rw [hsince]
        exact hempty
  | @generateAndSend date calls _ ih =>
    intro w pending hholds hdates
    have hcalls : (generateCurrentMessage date :: clear :: calls).filterMap date? =
        date :: calls.filterMap date? := rfl
    rw [hcalls, List.pairwise_cons] at hdates
    have hdate : w.lastDate ≤ date := hdates.1 date (by simp)
    obtain ⟨doc, w', hgenerate, hevents, hnow, hlast, hholds'⟩ := hholds.generateAndSend hdate
    have hall : runAll ctx w (.generateCurrentMessage date :: .clear :: calls) = (do
        let (w, outputs) ← runAll ctx w'.clear calls
        .ok (w, .message doc :: .none :: outputs)) := by
      have hclear : runAll ctx w' (.clear :: calls) = (do
          let (w, outputs) ← runAll ctx w'.clear calls
          .ok (w, .none :: outputs)) := rfl
      rw [runAll, run, hgenerate]
      simp only [bind, Except.bind, hclear]
      cases runAll ctx w'.clear calls with
      | error e => rfl
      | ok result => rfl
    have hdates' : (w'.clear.lastDate :: calls.filterMap date?).Pairwise (· ≤ ·) := by
      rw [hlast, List.pairwise_cons]
      exact ⟨fun d hd => hdates.1 d (List.mem_cons_of_mem _ hd), (List.pairwise_cons.mp hdates.2).2⟩
    rcases ih hholds' hdates' with ⟨date', b, f, hb, hf, herror⟩ | hrest
    · refine .inl ⟨date', b, f, by simp [hb], hf, ?_⟩
      rw [hall, herror]
      rfl
    · obtain ⟨w'', outputs, hrest, hstreams, hempty⟩ := hrest
      refine .inr ⟨w'', .message doc :: .none :: outputs, ?_, ⟨?_, ?_, ?_⟩, hempty⟩
      · rw [hall, hrest]
        rfl
      · have hmessages : messages (.message doc :: .none :: outputs) = doc :: messages outputs := rfl
        have hnone : (generateCurrentMessage date :: clear :: calls).filterMap (event? ctx) =
            calls.filterMap (event? ctx) := rfl
        have hcomplete := hstreams.complete
        rw [List.nil_append] at hcomplete
        rw [hmessages, hnone, List.flatMap_cons, hevents, List.append_assoc]
        exact congrArg (pending ++ ·) hcomplete
      · intro doc' hdoc'
        have hmessages : messages (.message doc :: .none :: outputs) = doc :: messages outputs := rfl
        rw [hmessages, List.mem_cons] at hdoc'
        rcases hdoc' with rfl | hdoc'
        · refine ⟨date, hnow, fun e he => ?_⟩
          rw [hevents] at he
          obtain ⟨t, ht, hle⟩ := hholds.timestamps e he
          exact ⟨t, ht, Rat.le_trans hle hdate⟩
        · exact hstreams.dated doc' hdoc'
      · intro k hk
        match k with
        | 0 => cases hk
        | 1 => cases hk
        | k + 2 =>
          rw [List.take_succ_cons, List.take_succ_cons]
          exact hstreams.answers k hk

/-- The messages carry the appended events in order, but for those appended since the last one:
no date is refused, and the calls fail only where the data of an event cannot be built. -/
theorem message_stream (ctx : WriterContext) {calls : List WriterCall} (horder : ServerOrder calls)
    (hdates : ((0 : Date) :: calls.filterMap date?).Pairwise (· ≤ ·)) :
    (∃ date a e, .append date a ∈ calls ∧ (a.content ctx).2 = .error e ∧
      (e = parseError ∨ e = outOfMap) ∧ runAll ctx {} calls = .error e) ∨
    ∃ w outputs, runAll ctx {} calls = .ok (w, outputs) ∧
      (messages outputs).flatMap eventsOf ++ sinceClear ctx [] calls =
        calls.filterMap (event? ctx) ∧
      ((calls.filterMap (event? ctx)).filterMap (numberUnder "timestamp")).Pairwise (· ≤ ·) ∧
      (∀ doc ∈ messages outputs, ∃ now, numberUnder "now" doc = some now ∧
        ∀ e ∈ eventsOf doc, ∃ t, numberUnder "timestamp" e = some t ∧ t ≤ now) ∧
      w.isEmpty = (sinceClear ctx [] calls).isEmpty ∧
      ∀ k : Nat, calls[k]? = some WriterCall.isEmpty →
        outputs[k]? = some (WriterOutput.isEmpty (sinceClear ctx [] (calls.take k)).isEmpty) := by
  have hholds : ({} : JsonProtocolWriter).Holds [] := ⟨rfl, rfl, rfl, by simp⟩
  rw [List.pairwise_cons] at hdates
  have hstart : (({} : JsonProtocolWriter).lastDate :: calls.filterMap date?).Pairwise
      (· ≤ ·) := by
    refine List.pairwise_cons.mpr ⟨fun d hd => ?_, hdates.2⟩
    exact Rat.le_trans (by decide +kernel) (hdates.1 d hd)
  have hstreams := @streams ctx calls horder _ _ hholds hstart
  rcases hstreams with ⟨date, a, e, ha, hdata, hrun⟩ | hrun
  · exact .inl ⟨date, a, e, ha, hdata, AppendCall.content_error hdata, hrun⟩
  · obtain ⟨w, outputs, hrun, hstreams, hempty⟩ := hrun
    have hcomplete := hstreams.complete
    rw [List.nil_append] at hcomplete
    exact .inr ⟨w, outputs, hrun, hcomplete, hdates.2.sublist (timestamps_sublist calls),
      hstreams.dated, hempty, hstreams.answers⟩

/-- A writer that is never given a text to read. -/
def plainContext : WriterContext where
  redisEnabled := false
  submissionForwardProfiles := true
  parse := fun _ => none

/-- An event is sent at 2, and another one is left for later. -/
theorem message_stream_of_two_events :
    ∃ w outputs, runAll plainContext {} [.append 1 .requestedCall, .isEmpty, .generateCurrentMessage 2,
      .clear, .append 2 .simulationEnds] = .ok (w, outputs) ∧ w.isEmpty = false := by
  have horder : ServerOrder [.append 1 .requestedCall, .isEmpty, .generateCurrentMessage 2,
      .clear, .append 2 .simulationEnds] := .append (.isEmpty (.generateAndSend (.append .nil)))
  rcases message_stream plainContext horder (by decide +kernel) with ⟨_, a, e, ha, hdata, -⟩ | hrun
  · simp only [List.mem_cons, append.injEq, reduceCtorEq, List.not_mem_nil, or_false,
      false_or] at ha
    rcases ha with ⟨-, rfl⟩ | ⟨-, rfl⟩ <;> cases hdata
  · obtain ⟨w, outputs, hrun, -, -, -, hempty, -⟩ := hrun
    exact ⟨w, outputs, hrun, hempty.trans rfl⟩

end WriterCall

end Batsim
