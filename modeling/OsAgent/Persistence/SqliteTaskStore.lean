import OsAgent.Library.JsonTree
import OsAgent.Library.Numerals
import OsAgent.Library.OrderedMap
import OsAgent.Library.Program

/-!
# The store of tasks

A task is persisted as a snapshot, which replaces the one before, and as events, which are appended
(`persistence/sqlite-task-store.ts`). Only events after the last one that is stored are written, all in
one transaction with the snapshot. The tables are those of the database as far as tasks go, and each
statement may fail.
-/

namespace OsAgent.Persistence

open OsAgent.Library

/-! ## Tasks -/

/-- A property that is a text, or the empty one. -/
def textOf (value : Option JsonValue) : String := (value.bind JsonValue.asString?).getD ""

/-- A task as its snapshot shows it: its events, and the other properties. -/
structure TaskRecord where
  properties : List (String × JsonValue)
  events : List JsonValue

namespace TaskRecord

/-- The identifier of a task. -/
def id (task : TaskRecord) : String := textOf (property? "id" task.properties)

/-- `task.snapshot()`. -/
def snapshot (task : TaskRecord) : JsonValue :=
  .object (task.properties ++ [("events", .array task.events)])

/-- `TaskControlBlock.restore`, as far as a snapshot has the properties of a task. -/
def restore : JsonValue → Option TaskRecord
  | .object ps =>
    match property? "events" ps with
    | some (.array events) => some { properties := deleteProperty "events" ps, events }
    | _ => none
  | _ => none

end TaskRecord

/-- The names of what every event has. -/
def envelopeNames : List String := ["eventId", "taskId", "occurredAt", "sequence"]

/-- What every event has. -/
def envelope (taskId eventId : String) (occurredAt sequence : ℕ) : List (String × JsonValue) :=
  [("eventId", .string eventId), ("taskId", .string taskId), ("occurredAt", .ofNat occurredAt),
    ("sequence", .ofNat sequence)]

/-- What an event says, with the properties that stand before those of every event, and after them. -/
structure TaskEventPayload (numbers : List Char → Option String) where
  before : List (String × JsonValue)
  after : List (String × JsonValue) := []
  nodup : (keysOf (before ++ after)).Nodup
  own : ∀ key ∈ keysOf (before ++ after), key ∉ envelopeNames
  readable : ∀ p ∈ before ++ after, p.2.Readable numbers

/-- An event of a task, with what is added when it is recorded. -/
def TaskEventPayload.event {numbers : List Char → Option String} (payload : TaskEventPayload numbers)
    (taskId eventId : String) (occurredAt sequence : ℕ) : JsonValue :=
  .object (payload.before ++ envelope taskId eventId occurredAt sequence ++ payload.after)

section

variable {numbers : List Char → Option String}

/-- `createAgent`: the first event says that the task was created, the others say which capabilities it
was granted. -/
def createAgent (properties : List (String × JsonValue)) (created : TaskEventPayload numbers)
    (granted : List (TaskEventPayload numbers)) (eventIds : ℕ → String) (createdAt : ℕ) : TaskRecord where
  properties := properties
  events := (created :: granted).zipIdx.map fun (payload, index) =>
    payload.event (textOf (property? "id" properties)) (eventIds index) createdAt (index + 1)

/-- `recordEvent`. -/
def TaskRecord.recordEvent (task : TaskRecord) (payload : TaskEventPayload numbers) (eventId : String)
    (occurredAt : ℕ) : TaskRecord where
  properties := setProperty "updatedAt" (.ofNat occurredAt) task.properties
  events := task.events ++ [payload.event task.id eventId occurredAt (task.events.length + 1)]

end

/-! ## The tables -/

/-- A row of the table of snapshots. -/
structure SnapshotRow where
  taskId : String
  rootTaskId : String
  status : String
  updatedAt : Option JsonValue
  body : String

/-- A row of the table of events. -/
structure EventRow where
  taskId : String
  sequence : ℕ
  body : String

/-- The two tables. -/
structure Tables where
  snapshots : OrderedMap SnapshotRow.taskId
  events : List EventRow

/-- The number of an event within its task. -/
def sequenceOf (event : JsonValue) : ℕ :=
  match event.get? "sequence" with
  | some (.number literal) => numeralValue literal
  | _ => 0

/-- The row of a task. -/
def snapshotRow (task : TaskRecord) : SnapshotRow where
  taskId := task.id
  rootTaskId := textOf (property? "rootTaskId" task.properties)
  status := textOf ((property? "state" task.properties).bind fun state => state.get? "status")
  updatedAt := property? "updatedAt" task.properties
  body := String.ofList (stringify task.snapshot)

/-- The row of an event. -/
def eventRow (taskId : String) (event : JsonValue) : EventRow where
  taskId := taskId
  sequence := sequenceOf event
  body := String.ofList (stringify event)

namespace Tables

variable (tables : Tables)

/-- The rows of the events of a task. -/
def rowsOf (taskId : String) : List EventRow := tables.events.filter fun row => row.taskId = taskId

/-- The last event of a task that is stored. -/
def latestEventSequence (taskId : String) : ℕ :=
  ((tables.rowsOf taskId).map EventRow.sequence).foldl max 0

/-- `INSERT … ON CONFLICT(task_id) DO UPDATE`. -/
def upsertSnapshot (row : SnapshotRow) : Tables :=
  { tables with snapshots := tables.snapshots.insert row }

/-- `INSERT OR IGNORE`. -/
def insertEvent (row : EventRow) : Tables :=
  if tables.events.any fun old => old.taskId = row.taskId && old.sequence = row.sequence then tables
  else { tables with events := tables.events ++ [row] }

variable (numbers : List Char → Option String)

/-- What is stored as the snapshot of a task. -/
def load (taskId : String) : Option JsonValue :=
  (tables.snapshots.get? taskId).bind fun row => parse numbers row.body.toList

/-- `SqliteTaskStore.events`. -/
def eventsOf (taskId : String) : Option (List JsonValue) :=
  ((tables.rowsOf taskId).mergeSort fun row row' => row.sequence ≤ row'.sequence).mapM fun row =>
    parse numbers row.body.toList

end Tables

/-! ## Transactions -/

/-- A connection: the tables, and what the open transaction sees instead of them. -/
structure Connection where
  tables : Tables
  transaction : Option Tables

/-- What is done on a connection. -/
abbrev Sql := EStateM String Connection

/-- Fails if there is an error. -/
def attempt (error : Option String) : Sql Unit :=
  match error with
  | some error => throw error
  | none => pure ()

/-- Begins a transaction on a copy of the tables. -/
def beginTransaction (error : Option String) : Sql Unit := do
  attempt error
  modify fun c => { c with transaction := some c.tables }

/-- A statement within a transaction. -/
def statement (error : Option String) (change : Tables → Tables) : Sql Unit := do
  attempt error
  modify fun c => { c with transaction := c.transaction.map change }

/-- What was done in the transaction is there from now on. -/
def commit (error : Option String) : Sql Unit := do
  attempt error
  modify fun c => { tables := c.transaction.getD c.tables, transaction := none }

/-- What was done in the transaction is forgotten. -/
def rollback : Sql Unit := modify fun c => { c with transaction := none }

/-- The events that are not yet stored. -/
def newEvents (tables : Tables) (task : TaskRecord) : List JsonValue :=
  task.events.filter fun event => tables.latestEventSequence task.id < sequenceOf event

/-- Writes what is new of a task. `errors` says which of the statements fail: the first three are the
query for the last event, `BEGIN` and `COMMIT`, then come those of the transaction. -/
def persist (errors : ℕ → Option String) (task : TaskRecord) : Sql Unit := do
  attempt (errors 0)
  let events := newEvents (← get).tables task
  beginTransaction (errors 1)
  try
    statement (errors 3) fun tables => tables.upsertSnapshot (snapshotRow task)
    events.zipIdx.forM fun (event, index) =>
      statement (errors (index + 4)) fun tables => tables.insertEvent (eventRow task.id event)
    commit (errors 2)
  catch error =>
    rollback
    throw error

end OsAgent.Persistence
