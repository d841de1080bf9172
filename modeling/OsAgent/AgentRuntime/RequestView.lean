import OsAgent.Library.Check
import OsAgent.Library.JsonTree

/-!
# What a request shows of the runtime

A request to a model carries the state of an agent as JSON data: once as a whole, and then as changes of it
(`agent-runtime/request-view.ts`). `requestChanges` finds the changes, and `readRuntimeRequest` reads the
state from the messages of a request. An object inherits functions from the language, and a property that
it does not have is such a function, or undefined. A key `__proto__` does not outlive the check of what was
parsed.
-/

namespace OsAgent.AgentRuntime

open OsAgent.Library

/-! ## Messages -/

/-- A call of a tool. -/
structure ModelToolCall where
  id : String
  name : String
  arguments : JsonValue

/-- A message of a request. What the reader does not look at is JSON data here. -/
inductive ModelMessage where
  | system (content : String)
  | user (content : String)
  /-- A message with pictures. -/
  | userParts (content : JsonValue)
  | assistant (content : String) (toolCalls : List ModelToolCall) (continuation : Option JsonValue)
  | tool (callId : String) (content : JsonValue)

/-! ## Finding the changes -/

/-- The functions that every object has. -/
def inheritedNames : List String :=
  ["constructor", "__defineGetter__", "__defineSetter__", "hasOwnProperty", "__lookupGetter__",
    "__lookupSetter__", "isPrototypeOf", "propertyIsEnumerable", "toString", "valueOf", "toLocaleString"]

/-- What is read of an object or an array. -/
inductive Read where
  | undefined
  /-- A function that the object inherits. -/
  | inherited
  | value (v : JsonValue)

/-- The property of an object. -/
def readKey (ps : List (String × JsonValue)) (key : String) : Read :=
  match property? key ps with
  | some v => .value v
  | none => if key ∈ inheritedNames then .inherited else .undefined

/-- The item of an array. -/
def readIndex (vs : List JsonValue) (i : ℕ) : Read :=
  match vs[i]? with
  | some v => .value v
  | none => .undefined

/-- `JSON.stringify`, which writes nothing for a function. -/
def Read.text : Read → Option (List Char)
  | .value v => some (stringify v)
  | _ => none

/-- A change of the view. -/
structure RequestChange where
  path : List String
  value : Read := .undefined
  append : Option (List JsonValue) := none
  remove : Bool := false

/-- A change as it is written. A value that is a function is left out. -/
def RequestChange.toJson (change : RequestChange) : JsonValue :=
  .object ([("path", .strings change.path)] ++
    (match change.value with
    | .value v => [("value", v)]
    | _ => []) ++
    JsonValue.optional "append" (change.append.map .array) ++
    (if change.remove then [("remove", .boolean true)] else []))

/-- What is read of a property is smaller than its object. -/
theorem sizeOf_readKey (qs : List (String × JsonValue)) (key : String) :
    sizeOf (readKey qs key) < sizeOf (Read.value (.object qs)) := by
  unfold readKey
  split
  · next v hv =>
    have hlt := List.sizeOf_lt_of_mem (mem_of_property? hv)
    simp only [Prod.mk.sizeOf_spec] at hlt
    simp only [Read.value.sizeOf_spec, JsonValue.object.sizeOf_spec]
    omega
  · split_ifs
    all_goals
      simp only [Read.inherited.sizeOf_spec, Read.undefined.sizeOf_spec, Read.value.sizeOf_spec,
        JsonValue.object.sizeOf_spec]
      omega

/-- What is read of an item is smaller than its list. -/
theorem sizeOf_readIndex (ws : List JsonValue) (i : ℕ) :
    sizeOf (readIndex ws i) < sizeOf (Read.value (.array ws)) := by
  unfold readIndex
  split
  · next v hv =>
    have hlt := List.sizeOf_lt_of_mem (List.mem_of_getElem? hv)
    simp only [Read.value.sizeOf_spec, JsonValue.array.sizeOf_spec]
    omega
  · simp only [Read.undefined.sizeOf_spec, Read.value.sizeOf_spec, JsonValue.array.sizeOf_spec]
    omega

/-- The keys of two objects, in the order of a set to which they are added. -/
def unionKeys (ps qs : List (String × JsonValue)) : List String :=
  keysOf ps ++ (keysOf qs).filter fun key => key ∉ keysOf ps

/-- Whether an array goes on with more items. -/
def appends (vs ws : List JsonValue) : Bool :=
  vs.length ≤ ws.length && (vs.zip ws).all fun (v, w) => stringify v = stringify w

/-- The changes from what was read to what is now read, along a path. -/
def visit (old value : Read) (path : List String) : List RequestChange :=
  if old.text = value.text then []
  else
    match value with
    | .undefined => [{ path, remove := true }]
    | .inherited => [{ path, value }]
    | .value (.object qs) =>
      match old with
      | .value (.object ps) =>
        (unionKeys ps qs).flatMap fun key =>
          visit (readKey ps key) (readKey qs key) (path ++ [key])
      | _ => [{ path, value := .value (.object qs) }]
    | .value (.array ws) =>
      match old with
      | .value (.array vs) =>
        if appends vs ws then [{ path, append := some (ws.drop vs.length) }]
        else if vs.length = ws.length then
          (List.range ws.length).flatMap fun i =>
            visit (readIndex vs i) (readIndex ws i) (path ++ [toString i])
        else [{ path, value := .value (.array ws) }]
      | _ => [{ path, value := .value (.array ws) }]
    | .value v => [{ path, value := .value v }]
termination_by sizeOf value
decreasing_by
  · exact sizeOf_readKey qs key
  · exact sizeOf_readIndex ws i

/-- The changes of a view. -/
def requestChanges (before after : JsonValue) : List RequestChange :=
  visit (.value before) (.value after) []

/-! ## Reading the state -/

/-- What the reader throws, or an array that would not be JSON data. -/
inductive ReadError where
  | error (message : String)
  /-- An array with a hole, or with a name. -/
  | sparse
deriving DecidableEq, Repr

/-- The path of a change does not lead anywhere. -/
def invalidPath : ReadError := .error "Invalid runtime update path."

/-- The target of a change is not there. -/
def invalidTarget : ReadError := .error "Invalid runtime update target."

/-- The target of an append is no list. -/
def invalidAppend : ReadError := .error "Invalid runtime append target."

/-- The index that a key is, below a bound. -/
def itemIndex (bound : ℕ) (key : String) : Option ℕ :=
  (List.range bound).find? fun i => toString i = key

/-- The own property of an object, or the item of an array. -/
def getOwn (target : JsonValue) (key : String) : Option JsonValue :=
  match target with
  | .object ps => property? key ps
  | .array vs => (itemIndex vs.length key).bind fun i => vs[i]?
  | _ => none

/-- Defines a property. An array can be made longer by one. -/
def define (target : JsonValue) (key : String) (value : JsonValue) : Except ReadError JsonValue :=
  match target with
  | .object ps => .ok (.object (setProperty key value ps))
  | .array vs =>
    match itemIndex (vs.length + 1) key with
    | some i => .ok (.array (if i < vs.length then vs.set i value else vs ++ [value]))
    | none => .error .sparse
  | _ => .error invalidTarget

/-- Removes a property. To remove an item would leave a hole in the list. -/
def delete (target : JsonValue) (key : String) : Except ReadError JsonValue :=
  match target with
  | .object ps => .ok (.object (deleteProperty key ps))
  | .array vs =>
    if (itemIndex vs.length key).isSome = true ∨ key = "length" then .error .sparse
    else .ok (.array vs)
  | _ => .error invalidTarget

/-- What a change does to its target. -/
inductive Operation where
  | remove
  | append (items : List JsonValue)
  | assign (value : JsonValue)
  /-- The change has no value. -/
  | nothing

/-- Does what a change says at its target. -/
def Operation.perform (operation : Operation) (target : JsonValue) (key : String) :
    Except ReadError JsonValue :=
  match operation with
  | .remove => delete target key
  | .append items =>
    match getOwn target key with
    | some (.array current) => define target key (.array (current ++ items))
    | _ => .error invalidAppend
  | .assign value => define target key value
  | .nothing => .ok target

/-- The object or the array to which a key leads. -/
def child (parent : JsonValue) (key : String) : Except ReadError JsonValue :=
  match getOwn parent key with
  | some (.object ps) => .ok (.object ps)
  | some (.array vs) => .ok (.array vs)
  | _ => .error invalidTarget

/-- Changes the target to which a path leads. -/
def changeAt (operation : Operation) : List String → JsonValue → Except ReadError JsonValue
  | [], _ => .error invalidPath
  | [key], target => operation.perform target key
  | key :: rest, parent => do
    let next ← child parent key
    let next ← changeAt operation rest next
    define parent key next

/-- What a change asks for. -/
def decodeOperation (change : JsonValue) : Operation :=
  match change.get? "remove" with
  | some (.boolean true) => .remove
  | _ =>
    match change.get? "append" with
    | some (.array items) => .append items
    | _ =>
      match change.get? "value" with
      | some value => .assign value
      | none => .nothing

/-- Applies a change that was read from a message. -/
def applyChange (view change : JsonValue) : Except ReadError JsonValue :=
  match change.get? "path" with
  | some (.array keys) =>
    match keys.mapM JsonValue.asString? with
    | some path => changeAt (decodeOperation change) path view
    | none => .error invalidPath
  | _ => .error invalidPath

mutual

/-- `jsonSchema.parse`, of what was parsed. A key `__proto__` is dropped. -/
def jsonSchema : JsonValue → JsonValue
  | .array vs => .array (schemaItems vs)
  | .object ps => .object (schemaProperties ps)
  | v => v

/-- The items, as the record schema gives them. -/
def schemaItems : List JsonValue → List JsonValue
  | [] => []
  | v :: vs => jsonSchema v :: schemaItems vs

/-- The properties, as the record schema gives them. -/
def schemaProperties : List (String × JsonValue) → List (String × JsonValue)
  | [] => []
  | (k, v) :: ps =>
    if k = "__proto__" then schemaProperties ps else (k, jsonSchema v) :: schemaProperties ps

end

/-- The state that a message carries as a whole. -/
def contextView? (ps : List (String × JsonValue)) : Option JsonValue :=
  if (property? "kind" ps).bind JsonValue.asString? = some "runtime_context" then
    match property? "view" ps with
    | some (.object view) => some (.object view)
    | _ => none
  else none

/-- The changes that a message carries. -/
def updateChanges? (ps : List (String × JsonValue)) : Option (List JsonValue) :=
  if (property? "kind" ps).bind JsonValue.asString? = some "runtime_update" then
    match property? "changes" ps with
    | some (.array changes) => some changes
    | _ => none
  else none

section Numbers

variable (numbers : List Char → Option String)

/-- The data of a message of the user that is a JSON object. -/
def ModelMessage.data? : ModelMessage → Option (List (String × JsonValue))
  | .user content =>
    match (parse numbers content.toList).map jsonSchema with
    | some (.object data) => some data
    | _ => none
  | _ => none

/-- The state after a message. -/
def readMessage (view : JsonValue) (message : ModelMessage) : Except ReadError JsonValue :=
  match message.data? numbers with
  | none => .ok view
  | some data =>
    match contextView? data with
    | some context => .ok context
    | none =>
      match updateChanges? data with
      | some changes => changes.foldlM applyChange view
      | none => .ok (.object data)

/-- The view that the messages say. -/
def readRuntimeRequest (messages : List ModelMessage) : Except ReadError JsonValue :=
  messages.foldlM (readMessage numbers) (.object [])

end Numbers

/-! ## Writing the messages -/

/-- The message with the whole state. -/
def contextMessage (view : JsonValue) : ModelMessage :=
  .user (String.ofList (stringify (.object [("kind", .string "runtime_context"), ("view", view)])))

/-- The message with changes. -/
def updateMessage (changes : List RequestChange) : ModelMessage :=
  .user (String.ofList (stringify (.object [("kind", .string "runtime_update"),
    ("changes", .array (changes.map RequestChange.toJson))])))

end OsAgent.AgentRuntime
