import Mathlib.Data.Int.Notation
import OsAgent.AgentContext.Frames
import OsAgent.AgentRuntime.RequestReading
import OsAgent.Library.Transition

/-!
# Requests that go on with earlier ones

A request of a work round goes on with an earlier request of the same scope where it can
(`agent-runtime/internal/native-history.ts`): the messages of the earlier one, the answer to it, the
receipts of the calls, and the changes of the state since then. The earlier request was persisted as it was
sent, and may go on with a still earlier one.
-/

namespace OsAgent.AgentRuntime

open OsAgent.Library OsAgent.Context

/-! ## Requests -/

/-- What the model answered. -/
structure ModelAssistantMessage where
  content : String
  toolCalls : List ModelToolCall
  continuation : Option JsonValue

/-- The answer as a message. -/
def ModelAssistantMessage.toMessage (message : ModelAssistantMessage) : ModelMessage :=
  .assistant message.content message.toolCalls message.continuation

/-- What is read of a completion here. -/
structure ModelCompletion where
  message : ModelAssistantMessage

/-- A tool, as it is sent. -/
structure ModelToolDefinition where
  name : String
  description : String
  parameters : JsonValue

/-- A request. -/
structure ModelCompletionRequest where
  messages : List ModelMessage
  tools : Option (List ModelToolDefinition) := none
  toolChoice : Option JsonValue := none
  parallelToolCalls : Option Bool := none
  maxOutputTokens : Option ℕ := none
  /-- The text of the number. -/
  temperature : Option String := none

/-- How a call is written. -/
def ModelToolCall.toJson (call : ModelToolCall) : JsonValue :=
  .object [("id", .string call.id), ("name", .string call.name), ("arguments", call.arguments)]

/-- How a message is written. -/
def ModelMessage.toJson : ModelMessage → JsonValue
  | .system content => .object [("role", .string "system"), ("content", .string content)]
  | .user content => .object [("role", .string "user"), ("content", .string content)]
  | .userParts content => .object [("role", .string "user"), ("content", content)]
  | .assistant content toolCalls continuation =>
    .object ([("role", .string "assistant"), ("content", .string content),
      ("toolCalls", .array (toolCalls.map ModelToolCall.toJson))] ++
      JsonValue.optional "continuation" continuation)
  | .tool callId content =>
    .object [("role", .string "tool"), ("callId", .string callId), ("content", content)]

/-- How a tool is written. -/
def ModelToolDefinition.toJson (tool : ModelToolDefinition) : JsonValue :=
  .object [("name", .string tool.name), ("description", .string tool.description),
    ("parameters", tool.parameters)]

/-- How messages are written. -/
def messagesJson (messages : List ModelMessage) : JsonValue := .array (messages.map ModelMessage.toJson)

/-- How tools are written. -/
def toolsJson (tools : List ModelToolDefinition) : JsonValue := .array (tools.map ModelToolDefinition.toJson)

/-- How a request is written. -/
def ModelCompletionRequest.toJson (request : ModelCompletionRequest) : JsonValue :=
  .object ([("messages", messagesJson request.messages)] ++
    JsonValue.optional "tools" (request.tools.map toolsJson) ++
    JsonValue.optional "toolChoice" request.toolChoice ++
    JsonValue.optional "parallelToolCalls" (request.parallelToolCalls.map .boolean) ++
    JsonValue.optional "maxOutputTokens" (request.maxOutputTokens.map .ofNat) ++
    JsonValue.optional "temperature" (request.temperature.map .number))

/-! ## What is persisted -/

/-- The tables of the store that a round reads. -/
structure HistoryStore where
  /-- The metadata with the keys of the rounds of a scope. -/
  metadata : String → Option (List String)
  request : String → Option ModelCompletionRequest
  completion : String → Option ModelCompletion

namespace HistoryStore

/-- A store of nothing. -/
def empty : HistoryStore where
  metadata _ := none
  request _ := none
  completion _ := none

/-- The store with a list of rounds. -/
def putMetadata (store : HistoryStore) (id : String) (value : List String) : HistoryStore :=
  { store with metadata := fun name => if name = id then some value else store.metadata name }

/-- A request that is already there stays. -/
def putRequest (store : HistoryStore) (id : String) (request : ModelCompletionRequest) : HistoryStore :=
  { store with
    request := fun name => if name = id then some ((store.request id).getD request) else store.request name }

/-- The store with an answer. The first one stands. -/
def putCompletion (store : HistoryStore) (id : String) (completion : ModelCompletion) : HistoryStore :=
  { store with
    completion := fun name =>
      if name = id then some ((store.completion id).getD completion) else store.completion name }

/-- `repairRequest`: what was sent is archived, and the round is asked anew. -/
def repairRequest (store : HistoryStore) (id : String) : HistoryStore :=
  { store with
    request := fun name => if name = id then none else store.request name
    completion := fun name => if name = id then none else store.completion name }

end HistoryStore

/-! ## Going on with a request -/

/-- What a round asks for. -/
structure HistoryOptions where
  key : String
  scope : String
  request : ModelCompletionRequest
  maxInput : ℤ
  /-- Whether the round has a receipt of the context. -/
  receipt : String → Bool
  result : String → ℕ → Option JsonValue

/-- The metadata in which the rounds of a scope are kept. -/
def marker (digest : String → String) (scope : String) : String := "native-history:v3:" ++ digest scope

/-- Whether a message of the user has changes. -/
def ModelMessage.startsUpdate : ModelMessage → Bool
  | .user content => "\x7b\"kind\":\"runtime_update\"".toList.isPrefixOf content.toList
  | _ => false

/-- `JSON.stringify` of the tools, which may be absent. -/
def toolsText (request : ModelCompletionRequest) : Option (List Char) :=
  request.tools.map fun tools => stringify (toolsJson tools)

/-- Whether both requests begin alike. -/
def samePrefix (boundary : ℕ) (previous request : ModelCompletionRequest) : Bool :=
  toolsText previous = toolsText request &&
    stringify (messagesJson (previous.messages.take boundary)) =
      stringify (messagesJson (request.messages.take boundary))

/-- The receipts of the calls. -/
def receipts (calls : List ModelToolCall) (results : List JsonValue) : List ModelMessage :=
  List.zipWith (fun call result => .tool call.id result) calls results

/-- The request that goes on with an earlier one. -/
def continueRequest (request previous : ModelCompletionRequest) (message : ModelAssistantMessage)
    (results : List JsonValue) (before current : JsonValue) (boundary : ℕ) : ModelCompletionRequest :=
  { request with
    messages := previous.messages ++ [message.toMessage] ++ receipts message.toolCalls results ++
      [updateMessage (requestChanges before current)] ++ request.messages.drop (boundary + 1) }

section History

variable (numbers : List Char → Option String) (digest : String → String)

/-- What the loop selects among the keys of earlier rounds. -/
def selectRequest (store : HistoryStore) (options : HistoryOptions) :
    List String → Except ReadError ModelCompletionRequest
  | [] => .ok options.request
  | previousKey :: keys =>
    if options.receipt previousKey = false then selectRequest store options keys
    else
      match store.request previousKey, store.completion previousKey with
      | some previous, some completion =>
        if completion.message.toolCalls = [] then selectRequest store options keys
        else
          match options.request.messages.findIdx? ModelMessage.startsUpdate with
          | none => .ok options.request
          | some boundary =>
            if samePrefix boundary previous options.request = false then .ok options.request
            else
              match (List.range completion.message.toolCalls.length).mapM (options.result previousKey) with
              | none => selectRequest store options keys
              | some results => do
                let current ← readRuntimeRequest numbers options.request.messages
                let before ← readRuntimeRequest numbers previous.messages
                let candidate :=
                  continueRequest options.request previous completion.message results before current boundary
                pure (if (estimateContextTokens candidate.toJson + 64 : ℤ) ≤ options.maxInput then candidate
                  else options.request)
      | _, _ => selectRequest store options keys

/-- The last sixteen rounds. -/
def lastRounds (rounds : List String) : List String := rounds.drop (rounds.length - 16)

/-- The request of a round behind those before it, which is saved. -/
def withNativeHistory (store : HistoryStore) (options : HistoryOptions) :
    Except ReadError (ModelCompletionRequest × HistoryStore) := do
  let rounds := ((store.metadata (marker digest options.scope)).getD []).filter (· ≠ options.key)
  let selected ← selectRequest numbers store options rounds.reverse
  pure (selected, store.putMetadata (marker digest options.scope) (lastRounds (rounds ++ [options.key])))

end History

/-! ## The requests of a round -/

/-- A rejection that the model is told of. -/
def feedbackMessage (previousError : String) : ModelMessage :=
  .user ("宿主纠正反馈（仅针对本次请求；后续runtime_update清空previousError即解除）：\n" ++ previousError ++
    "\n请先执行纠正操作，再继续工作；被拒绝的动作未成功，不要原样重发。")

/-- The messages of `requestAction`: what is stable of the state, and what the state is. -/
def requestMessages (instructions : String) (stable full : JsonValue) (previousError : Option String) :
    List ModelMessage :=
  [.system instructions, contextMessage stable, updateMessage (requestChanges stable full)] ++
    match previousError with
    | some error => if error = "" then [] else [feedbackMessage error]
    | none => []

/-- A name that is not one of the members that every object inherits. -/
def PlainKey (key : String) : Prop := key ≠ "__proto__" ∧ key ∉ inheritedNames

/-- A state whose keys are plain. -/
structure PlainView (numbers : List Char → Option String) (view : JsonValue) : Prop where
  exists_object : ∃ ps, view = .object ps
  readable : view.Readable numbers
  named : view.Named PlainKey

/-- A request as `requestAction` builds it. -/
def LaidOut (numbers : List Char → Option String) (request : ModelCompletionRequest) : Prop :=
  ∃ instructions stable full previousError,
    PlainView numbers stable ∧ PlainView numbers full ∧
      request.messages = requestMessages instructions stable full previousError

/-! ## Chains of rounds -/

/-- The rounds so far, with the keys and the scopes of the requests that were prepared. -/
structure HistoryRun where
  store : HistoryStore
  prepared : List (String × String)

/-- The run after a request was prepared. -/
def HistoryRun.prepare (run : HistoryRun) (options : HistoryOptions) (store : HistoryStore) : HistoryRun where
  store
  prepared := run.prepared ++ [(options.key, options.scope)]

section Steps

variable (numbers : List Char → Option String) (digest : String → String)

/-- What may happen to the rounds. -/
inductive HistoryStep : HistoryRun → HistoryRun → Prop
  /-- A request is prepared, and the limits do not admit it. -/
  | refuse {run : HistoryRun} {options : HistoryOptions} {selected : ModelCompletionRequest}
      {store : HistoryStore} (hlaid : LaidOut numbers options.request)
      (hrun : withNativeHistory numbers digest run.store options = .ok (selected, store)) :
      HistoryStep run (run.prepare options store)
  /-- A request is prepared and persisted, with the tokens it may put out. -/
  | send {run : HistoryRun} {options : HistoryOptions} {selected : ModelCompletionRequest}
      {store : HistoryStore} (output : ℕ) (hlaid : LaidOut numbers options.request)
      (hrun : withNativeHistory numbers digest run.store options = .ok (selected, store)) :
      HistoryStep run (run.prepare options (store.putRequest options.key
        { selected with maxOutputTokens := some (selected.maxOutputTokens.getD output) }))
  | complete {run : HistoryRun} (key : String) (completion : ModelCompletion) :
      HistoryStep run { run with store := run.store.putCompletion key completion }
  | repair {run : HistoryRun} (key : String) :
      HistoryStep run { run with store := run.store.repairRequest key }

/-- The chains of rounds. The receipts and the results are those at the time of each request. -/
def historySystem : TransitionSystem HistoryRun where
  init run := run = { store := .empty, prepared := [] }
  step := HistoryStep numbers digest

end Steps

end OsAgent.AgentRuntime
