import OsAgent.AgentRuntime.NativeHistory
import OsAgent.Library.JsonParse
import OsAgent.Library.Schema
import OsAgent.Library.Search

/-!
# The codec of DeepSeek

A request is encoded as the body of a request to DeepSeek, and its response is decoded
(`model-requester/internal/deepseek-codec.ts`). DeepSeek takes only short names of tools of few characters,
so other names are replaced by wire names, and the original ones are put back in the calls of the response.
-/

namespace OsAgent.ModelRequester

open OsAgent.Library OsAgent.AgentRuntime

/-! ## Errors -/

/-- What kind of error a requester reports. -/
inductive ModelRequesterErrorCode where
  | invalidRequest
  | invalidResponse
deriving DecidableEq, Repr

/-- What is wrong with an answer. -/
inductive ModelProtocolReason where
  | duplicateCallId
  | invalidArguments
  | invalidEnvelope
deriving DecidableEq, Repr

/-- A `ModelRequesterError` of the codec. Those of responses may be retried. -/
structure CodecError where
  code : ModelRequesterErrorCode
  message : String
  protocolReason : Option ModelProtocolReason := none
deriving DecidableEq, Repr

/-- An error of the request. -/
def invalidRequest (message : String) : CodecError := { code := .invalidRequest, message }

/-- An error of the answer. -/
def invalidResponse (message : String) (reason : ModelProtocolReason) : CodecError :=
  { code := .invalidResponse, message, protocolReason := some reason }

/-! ## The schema of requests -/

/-- `z.record(json)`, with the keys `__proto__` dropped that it drops. -/
def recordSchema : JsonValue → Option JsonValue
  | .object ps => some (jsonSchema (.object ps))
  | _ => none

/-- A text that is not blank. -/
def nonempty (s : String) : Option String := if isBlank s then none else some s

/-- What a provider wants to have back. -/
structure Continuation where
  provider : String
  model : String
  data : JsonValue

/-- A message that passed its schema. -/
inductive NativeMessage where
  | system (content : String)
  | user (content : String)
  | parts (texts : List String)
  | tool (callId : String) (content : JsonValue)
  | assistant (content : String) (toolCalls : List ModelToolCall) (continuation : Option Continuation)

/-- Which tool the model is to call. -/
inductive ToolChoice where
  | mode (mode : String)
  | named (name : String)
deriving DecidableEq, Repr

/-- A request that has the form of the schema. -/
structure NativeRequest where
  messages : List NativeMessage
  tools : List ModelToolDefinition
  toolChoice : Option ToolChoice
  parallelToolCalls : Option Bool
  maxOutputTokens : Option ℕ
  temperature : Option String

/-- A call has an identifier, a name and an object of arguments. -/
def callSchema (call : ModelToolCall) : Option ModelToolCall := do
  let id ← nonempty call.id
  let name ← nonempty call.name
  let arguments ← recordSchema call.arguments
  pure ⟨id, name, arguments⟩

/-- The text of a part. -/
def textPart (value : JsonValue) : Option String :=
  if (value.get? "type").bind JsonValue.asString? = some "text" then
    (value.get? "text").bind JsonValue.asString?
  else none

/-- A continuation has a provider, a model and data. -/
def continuationSchema (value : JsonValue) : Option Continuation := do
  let provider ← field "provider" JsonValue.asString? value
  let model ← field "model" JsonValue.asString? value
  let data ← field "data" recordSchema value
  pure ⟨provider, model, data⟩

/-- A schema of a value that may be absent. -/
def optionalOf {α β : Type} (schema : α → Option β) : Option α → Option (Option β)
  | none => some none
  | some value => (schema value).map some

/-- A message that is sent. -/
def messageSchema : ModelMessage → Option NativeMessage
  | .system content => some (.system content)
  | .user content => some (.user content)
  | .userParts content => do
    let texts ← (arrayOf textPart content).filter (· ≠ [])
    pure (.parts texts)
  | .tool callId content => do
    let callId ← nonempty callId
    pure (.tool callId (jsonSchema content))
  | .assistant content toolCalls continuation => do
    let toolCalls ← toolCalls.mapM callSchema
    let continuation ← optionalOf continuationSchema continuation
    pure (.assistant content toolCalls continuation)

/-- A tool has a name and an object of parameters. -/
def toolSchema (tool : ModelToolDefinition) : Option ModelToolDefinition := do
  let name ← nonempty tool.name
  let parameters ← recordSchema tool.parameters
  pure ⟨name, tool.description, parameters⟩

/-- A choice is one of three modes, or a tool. -/
def toolChoiceSchema : JsonValue → Option ToolChoice
  | .string mode => if mode ∈ ["auto", "none", "required"] then some (.mode mode) else none
  | value => do
    let name ← field "name" (fun name => name.asString?.bind nonempty) value
    pure (.named name)

/-- `requestSchema`. `isTemperature` says whether the text of a number is one between 0 and 2. -/
def requestSchema (isTemperature : String → Bool) (request : ModelCompletionRequest) :
    Option NativeRequest := do
  let messages ← (request.messages.mapM messageSchema).filter fun messages => !messages.isEmpty
  let tools ← (request.tools.getD []).mapM toolSchema
  let toolChoice ← optionalOf toolChoiceSchema request.toolChoice
  let maxOutputTokens ← optionalOf (fun n => if isPositiveInteger n then some n else none)
    request.maxOutputTokens
  let temperature ← optionalOf (fun t => if isTemperature t then some t else none) request.temperature
  pure ⟨messages, tools, toolChoice, request.parallelToolCalls, maxOutputTokens, temperature⟩

/-! ## Wire names -/

/-- The characters of wire names. -/
def isWireChar (c : Char) : Bool := c.isAlphanum || c = '_' || c = '-'

/-- `/^[a-zA-Z0-9_-]{1,64}$/u`. -/
def isWireName (name : String) : Bool :=
  1 ≤ name.toList.length && name.toList.length ≤ 64 && name.toList.all isWireChar

/-- The wire name of a tool, where `sha256` is the digest in hexadecimal digits. -/
def wireName (sha256 : String → String) (name : String) : String :=
  if isWireName name then name
  else
    String.ofList ((name.toList.map fun c => if isWireChar c then c else '_').take 40 ++ ['_', '_'] ++
      (sha256 name).toList.take 20)

/-- The two maps of `encodeDeepSeek`. -/
structure AliasTable where
  aliases : List (String × String) := []
  originals : List (String × String) := []

/-- What may throw, and changes the maps. -/
abbrev Encode := StateT AliasTable (Except CodecError)

section Encoding

variable (sha256 : String → String)

/-- The name for the provider, which is noted under the name of the tool. -/
def aliasFor (name : String) : Encode String := do
  let table ← get
  match (mapGet table.aliases name).filter (· ≠ "") with
  | some previous => pure previous
  | none => do
    let encoded := wireName sha256 name
    liftM (require (∀ other ∈ mapGet table.originals encoded, other = name)
      (invalidRequest "工具名称映射冲突。"))
    set (AliasTable.mk (table.aliases ++ [(name, encoded)]) (table.originals ++ [(encoded, name)]))
    pure encoded

/-! ## The body -/

/-- How a call is sent. -/
def callBody (call : ModelToolCall) (name : String) : JsonValue :=
  .object [("id", .string call.id), ("type", .string "function"),
    ("function", .object [("name", .string name),
      ("arguments", .string (String.ofList (stringify call.arguments)))])]

/-- How a message of the model is sent back. -/
def assistantBody (content : String) (toolCalls : List JsonValue) (reasoning : Option String) :
    JsonValue :=
  .object ([("role", .string "assistant"), ("content", .string content)] ++
    (if toolCalls = [] then [] else [("tool_calls", .array toolCalls)]) ++
    JsonValue.optional "reasoning_content" (reasoning.map .string))

/-- How a tool is sent. -/
def toolBody (tool : ModelToolDefinition) (name : String) : JsonValue :=
  .object [("type", .string "function"), ("function", .object [("name", .string name),
    ("description", .string tool.description), ("parameters", tool.parameters)])]

/-- How a choice is sent. A model that thinks is not told that a tool is required. -/
def choiceBody (thinking : Bool) (name : String) : ToolChoice → JsonValue
  | .mode mode => .string (if thinking && mode = "required" then "auto" else mode)
  | .named _ => .object [("type", .string "function"), ("function", .object [("name", .string name)])]

/-- How a request is sent. -/
def requestBody (model : String) (input : NativeRequest) (messages tools : List JsonValue)
    (choice : Option JsonValue) : JsonValue :=
  .object ([("model", .string model), ("messages", .array messages), ("stream", .boolean false)] ++
    (if tools = [] then [] else [("tools", .array tools)]) ++
    JsonValue.optional "tool_choice" choice ++
    JsonValue.optional "parallel_tool_calls" (input.parallelToolCalls.map .boolean) ++
    JsonValue.optional "max_tokens" (input.maxOutputTokens.map .ofNat) ++
    JsonValue.optional "temperature" (input.temperature.map .number))

/-- The text of a tool's answer: a text as it is, and other data as JSON text. -/
def answerText : JsonValue → String
  | .string s => s
  | value => String.ofList (stringify value)

/-- What is replayed of a continuation. -/
def replayed (model : String) : Option Continuation → Except CodecError (Option String)
  | none => .ok none
  | some continuation => do
    require (continuation.provider = "deepseek" ∧ continuation.model = model)
      (invalidRequest "模型续接状态属于其他供应商或型号。")
    match continuation.data.get? "reasoning_content" with
    | none => pure none
    | some (.string reasoning) => pure (some reasoning)
    | some _ => .error (invalidRequest "模型续接状态无效。")

/-- Encodes a call. -/
def encodeCall (call : ModelToolCall) : Encode JsonValue := do
  let name ← aliasFor sha256 call.name
  pure (callBody call name)

/-- Encodes a message. -/
def encodeMessage (model : String) : NativeMessage → Encode JsonValue
  | .system content => pure (.object [("role", .string "system"), ("content", .string content)])
  | .user content => pure (.object [("role", .string "user"), ("content", .string content)])
  | .parts texts =>
    pure (.object [("role", .string "user"), ("content", .string ("\n".intercalate texts))])
  | .tool callId content =>
    pure (.object [("role", .string "tool"), ("tool_call_id", .string callId),
      ("content", .string (answerText content))])
  | .assistant content toolCalls continuation => do
    liftM (require (toolCalls.map ModelToolCall.id).Nodup
      (invalidRequest "同一回复的工具调用 ID 不能重复。"))
    let calls ← toolCalls.mapM (encodeCall sha256)
    let reasoning ← liftM (replayed model continuation)
    pure (assistantBody content calls reasoning)

/-- Encodes a tool. -/
def encodeTool (tool : ModelToolDefinition) : Encode JsonValue := do
  let name ← aliasFor sha256 tool.name
  pure (toolBody tool name)

/-- Encodes a choice. -/
def encodeChoice (thinking : Bool) : Option ToolChoice → Encode (Option JsonValue)
  | none => pure none
  | some (.mode mode) => pure (some (choiceBody thinking "" (.mode mode)))
  | some (.named name) => do
    let encoded ← aliasFor sha256 name
    pure (some (choiceBody thinking encoded (.named name)))

/-- Whether the choice is one of the declared tools. -/
def choiceDeclared (names : List String) : Option ToolChoice → Bool
  | none => true
  | some (.mode mode) => mode ≠ "required" || !names.isEmpty
  | some (.named name) => name ∈ names

/-- Encodes a request whose tools have distinct names. -/
def encodeInput (model : String) (thinking : Bool) (input : NativeRequest) : Encode JsonValue := do
  let names := input.tools.map ModelToolDefinition.name
  liftM (require names.Nodup (invalidRequest "工具名称不能重复。"))
  let _ ← names.mapM (aliasFor sha256)
  liftM (require (choiceDeclared names input.toolChoice = true)
    (invalidRequest "toolChoice 必须引用已声明的工具。"))
  let messages ← input.messages.mapM (encodeMessage sha256 model)
  let tools ← input.tools.mapM (encodeTool sha256)
  let choice ← encodeChoice sha256 thinking input.toolChoice
  pure (requestBody model input messages tools choice)

/-- `encodeDeepSeek`: the body, and the original names of the wire names. -/
def encodeDeepSeek (isTemperature : String → Bool) (request : ModelCompletionRequest) (model : String)
    (thinking : Bool) : Except CodecError (JsonValue × List (String × String)) :=
  match requestSchema isTemperature request with
  | none => .error (invalidRequest "DeepSeek 请求格式无效；当前接入仅支持文本输入。")
  | some input => do
    let (body, table) ← (encodeInput sha256 model thinking input).run {}
    pure (body, table.originals)

end Encoding

/-! ## The schema of responses -/

/-- A call as the provider writes it. -/
structure NativeCall where
  id : String
  name : String
  arguments : String
deriving DecidableEq, Repr

/-- What the provider says was used. -/
structure NativeUsage where
  promptTokens : Option ℕ := none
  completionTokens : Option ℕ := none
  totalTokens : Option ℕ := none
  cacheHitTokens : Option ℕ := none
  cacheMissTokens : Option ℕ := none

/-- A response that has the form of the schema. -/
structure NativeResponse where
  id : Option String
  finishReason : Option String
  content : Option String
  reasoningContent : Option String
  toolCalls : List NativeCall
  usage : NativeUsage

/-- Whether a value is an object. -/
def isObject : JsonValue → Bool
  | .object _ => true
  | _ => false

/-- A schema of a value that may be absent or `null`. -/
def nullishOf {α : Type} (schema : JsonValue → Option α) : Option JsonValue → Option (Option α)
  | none | some .null => some none
  | some value => (schema value).map some

/-- A text that may only be this one, or be absent. -/
def literalOrAbsent (literal : String) (value : Option JsonValue) : Bool :=
  match value with
  | none => true
  | some (.string s) => s = literal
  | some _ => false

/-- A number of tokens. -/
def tokenCount : JsonValue → Option ℕ
  | .number literal => literal.toNat?.filter (· ≤ maxSafeInteger)
  | _ => none

/-- A call has an identifier, a name and a text of arguments. -/
def nativeCallSchema (value : JsonValue) : Option NativeCall := do
  let id ← field "id" (fun id => id.asString?.bind nonempty) value
  let function ← value.get? "function"
  let name ← field "name" (fun name => name.asString?.bind nonempty) function
  let arguments ← field "arguments" (fun text => text.asString?.bind nonempty) function
  if literalOrAbsent "function" (value.get? "type") then pure ⟨id, name, arguments⟩ else none

/-- What is said of the use may be missing. -/
def usageSchema (value : JsonValue) : Option NativeUsage :=
  if isObject value then do
    let promptTokens ← optionalOf tokenCount (value.get? "prompt_tokens")
    let completionTokens ← optionalOf tokenCount (value.get? "completion_tokens")
    let totalTokens ← optionalOf tokenCount (value.get? "total_tokens")
    let cacheHitTokens ← optionalOf tokenCount (value.get? "prompt_cache_hit_tokens")
    let cacheMissTokens ← optionalOf tokenCount (value.get? "prompt_cache_miss_tokens")
    pure ⟨promptTokens, completionTokens, totalTokens, cacheHitTokens, cacheMissTokens⟩
  else none

/-- `responseSchema`. -/
def responseSchema (value : JsonValue) : Option NativeResponse := do
  let id ← optionalOf JsonValue.asString? (value.get? "id")
  let choice ← match value.get? "choices" with
    | some (.array [choice]) => some choice
    | _ => none
  let finishReason ← nullishOf JsonValue.asString? (choice.get? "finish_reason")
  let message ← (choice.get? "message").filter isObject
  let content ← nullishOf JsonValue.asString? (message.get? "content")
  let reasoningContent ← nullishOf JsonValue.asString? (message.get? "reasoning_content")
  let toolCalls ← nullishOf (arrayOf nativeCallSchema) (message.get? "tool_calls")
  let usage ← nullishOf usageSchema (value.get? "usage")
  if literalOrAbsent "assistant" (message.get? "role") then
    pure ⟨id, finishReason, content, reasoningContent, toolCalls.getD [], usage.getD {}⟩
  else none

/-! ## Decoding -/

/-- A completion of DeepSeek. -/
structure DeepSeekCompletion where
  id : Option String
  model : String
  content : String
  toolCalls : List ModelToolCall
  reasoningContent : Option String
  finishReason : String
  inputTokens : ℕ
  outputTokens : ℕ
  totalTokens : ℕ
  cacheHitTokens : Option ℕ
  cacheMissTokens : Option ℕ

section Decoding

variable (numbers : List Char → Option String) (originals : List (String × String))

/-- A call with the parameters that its arguments write. Arguments that write what is no JSON data are left
out: half of a surrogate pair would be taken, and a number that is not finite would be refused as below. -/
def decodeCall (call : NativeCall) : Except CodecError ModelToolCall :=
  match parse numbers call.arguments.toList with
  | none => .error (invalidResponse "DeepSeek 工具参数不是完整的 JSON。" .invalidArguments)
  | some value =>
    match recordSchema value with
    | none => .error (invalidResponse "DeepSeek 工具参数必须是 JSON 对象。" .invalidArguments)
    | some parameters => .ok ⟨call.id, (mapGet originals call.name).getD call.name, parameters⟩

/-- The calls, whose ids must be different. -/
def decodeCalls (ids : List String) : List NativeCall → Except CodecError (List ModelToolCall)
  | [] => .ok []
  | call :: calls => do
    require (call.id ∉ ids) (invalidResponse "DeepSeek 返回了重复的工具调用 ID。" .duplicateCallId)
    let decoded ← decodeCall numbers originals call
    let rest ← decodeCalls (ids ++ [call.id]) calls
    pure (decoded :: rest)

/-- `decodeDeepSeek`. -/
def decodeDeepSeek (value : JsonValue) (model : String) : Except CodecError DeepSeekCompletion :=
  match responseSchema value with
  | none => .error (invalidResponse "DeepSeek 返回了无效的模型响应。" .invalidEnvelope)
  | some response => do
    let toolCalls ← decodeCalls numbers originals [] response.toolCalls
    let inputTokens := response.usage.promptTokens.getD 0
    let outputTokens := response.usage.completionTokens.getD 0
    pure
      { id := truthyText response.id
        model
        content := response.content.getD ""
        toolCalls
        reasoningContent := response.reasoningContent
        finishReason := match response.finishReason with
          | some reason =>
            if reason ∈ ["stop", "tool_calls", "length", "content_filter"] then reason else "unknown"
          | none => "unknown"
        inputTokens
        outputTokens
        totalTokens := response.usage.totalTokens.getD (inputTokens + outputTokens)
        cacheHitTokens := response.usage.cacheHitTokens
        cacheMissTokens := response.usage.cacheMissTokens }
where
  /-- A text that is not empty. -/
  truthyText (s : Option String) : Option String := s.filter (· ≠ "")

end Decoding

end OsAgent.ModelRequester
