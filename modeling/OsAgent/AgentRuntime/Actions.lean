import OsAgent.AgentRuntime.NativeHistory
import OsAgent.Capability.Requests
import OsAgent.Conversations.Store
import OsAgent.Library.DataSchema

/-!
# The actions of a model

A model acts by calls of named functions (`agent-runtime/internal/protocol.ts`): each round it calls one
control function, or tools. What it calls is put together as an action, and the action has to pass a schema
(`schema.ts`, `memory-schema.ts`).
-/

namespace OsAgent.AgentRuntime

open OsAgent.Library
open OsAgent.Capability (trim trim_trim startsWith)
open OsAgent.Conversations (lengthOf)

/-! ## Schemas -/

/-- `z.string().min(1)`. -/
def nonempty : Schema := .text (· ≠ "")

/-- `z.string().min(min).max(max)`. -/
def sized (min max : ℕ) : Schema := .text fun s => min ≤ lengthOf s && lengthOf s ≤ max

/-- `z.string().trim().min(min).max(max)`. -/
def trimmed (min max : ℕ) : Schema :=
  .changedText trim trim_trim fun s => min ≤ lengthOf s && lengthOf s ≤ max

/-- Whether a number is an integer, by its text. From `1e+21` on the text has an exponent. -/
def isInteger (literal : String) : Bool :=
  '+' ∈ literal.toList || ('.' ∉ literal.toList && 'e' ∉ literal.toList)

/-- Whether a number is negative, by its text. -/
def isNegative (literal : String) : Bool := literal.toList.head? = some '-'

/-- `z.number().int().nonnegative()`. -/
def nonnegative : Schema := .number fun literal => isInteger literal && !isNegative literal

/-- `z.number().int().positive()`. -/
def positive : Schema :=
  .number fun literal => isInteger literal && !isNegative literal && literal ≠ "0"

/-- `z.number().int().min(min).max(max)`. -/
def between (min max : ℕ) : Schema :=
  .number fun literal => (List.range (max + 1)).any fun n => min ≤ n && literal = toString n

/-- `z.array(item)`. -/
def arrayOfAny (item : Schema) : Schema := .array (fun _ => true) item

/-- `z.array(item).max(max)`. -/
def atMost (max : ℕ) (item : Schema) : Schema := .array (fun n => n ≤ max) item

/-- `z.array(item).min(min).max(max)`. -/
def arrayWithin (min max : ℕ) (item : Schema) : Schema := .array (fun n => min ≤ n && n ≤ max) item

/-- A property that has to be there. -/
def required (name : String) (item : Schema) : SchemaField := ⟨name, item, .invalid, nofun⟩

/-- A property that may be left out. -/
def optional (name : String) (item : Schema) : SchemaField := ⟨name, item, .leftOut, nofun⟩

/-- `item.default(value)`, where the value is no number. -/
def defaultFalse (name : String) (item : Schema) : SchemaField where
  name := name
  item := item
  absence := .filledIn (.boolean false)
  zero _ value h := by
    rw [← Absence.filledIn.inj h]
    exact .boolean false

/-- `item.default(0)`. -/
def defaultZero (name : String) (item : Schema) : SchemaField where
  name := name
  item := item
  absence := .filledIn (.number "0")
  zero hzero value h := by
    rw [← Absence.filledIn.inj h]
    exact .number (List.forall_iff_forall_mem.mp (by decide)) (by decide) hzero

/-! ## Data of any form -/

/-- A property that the record schema gives is one of the object, with its value in the form of that schema.
-/
theorem mem_schemaProperties {ps : List (String × JsonValue)} {q : String × JsonValue}
    (h : q ∈ schemaProperties ps) : q.1 ≠ "__proto__" ∧ ∃ p ∈ ps, p.1 = q.1 ∧ q.2 = jsonSchema p.2 := by
  induction ps with
  | nil => cases h
  | cons p ps ih =>
    unfold schemaProperties at h
    split_ifs at h with hp
    · obtain ⟨hname, r, hr, hrest⟩ := ih h
      exact ⟨hname, r, List.mem_cons_of_mem _ hr, hrest⟩
    · rcases List.mem_cons.mp h with rfl | h
      · exact ⟨hp, p, List.mem_cons_self, rfl, rfl⟩
      · obtain ⟨hname, r, hr, hrest⟩ := ih h
        exact ⟨hname, r, List.mem_cons_of_mem _ hr, hrest⟩

/-- The items that the record schema gives are those of the list. -/
theorem schemaItems_eq (vs : List JsonValue) : schemaItems vs = vs.map jsonSchema := by
  induction vs with
  | nil => rfl
  | cons v vs ih =>
    unfold schemaItems
    rw [ih, List.map_cons]

/-- The record schema adds no key. -/
theorem keysOf_schemaProperties (ps : List (String × JsonValue)) :
    (keysOf (schemaProperties ps)).Sublist (keysOf ps) := by
  induction ps with
  | nil => exact .slnil
  | cons p ps ih =>
    unfold schemaProperties
    split_ifs
    · exact ih.cons _
    · exact ih.cons_cons _

/-- A key `__proto__` is nowhere in what was checked. -/
theorem named_jsonSchema (v : JsonValue) : (jsonSchema v).Named (· ≠ "__proto__") := by
  match v with
  | .array vs =>
    show (JsonValue.array (schemaItems vs)).Named _
    rw [schemaItems_eq]
    apply JsonValue.Named.array
    intro w hw
    obtain ⟨v, hv, rfl⟩ := List.mem_map.mp hw
    have hsize := List.sizeOf_lt_of_mem hv
    exact named_jsonSchema v
  | .object ps =>
    show (JsonValue.object (schemaProperties ps)).Named _
    apply JsonValue.Named.object
    · intro q hq
      exact (mem_schemaProperties hq).1
    · intro q hq
      obtain ⟨-, ⟨k, v⟩, hp, -, hvalue⟩ := mem_schemaProperties hq
      have hsize := List.sizeOf_lt_of_mem hp
      rw [hvalue]
      exact named_jsonSchema v
  | .null => exact .null
  | .boolean b => exact .boolean b
  | .number literal => exact .number literal
  | .string s => exact .string s
termination_by sizeOf v
decreasing_by
  · simp only [JsonValue.array.sizeOf_spec]
    omega
  · simp only [JsonValue.object.sizeOf_spec, Prod.mk.sizeOf_spec] at hsize ⊢
    omega

/-- What the record schema gives is readable. -/
theorem readable_jsonSchema {numbers : List Char → Option String} {v : JsonValue}
    (h : v.Readable numbers) : (jsonSchema v).Readable numbers := by
  induction h with
  | @array vs _ ih =>
    show (JsonValue.array (schemaItems vs)).Readable numbers
    rw [schemaItems_eq]
    apply JsonValue.Readable.array
    intro w hw
    obtain ⟨v, hv, rfl⟩ := List.mem_map.mp hw
    exact ih v hv
  | @object ps hnodup _ ih =>
    show (JsonValue.object (schemaProperties ps)).Readable numbers
    apply JsonValue.Readable.object (hnodup.sublist (keysOf_schemaProperties ps))
    intro q hq
    obtain ⟨-, p, hp, -, hvalue⟩ := mem_schemaProperties hq
    rw [hvalue]
    exact ih p hp
  | null => exact .null
  | boolean b => exact .boolean b
  | number hchars hnumeral hread => exact .number hchars hnumeral hread
  | string s => exact .string s

/-- An object with values of any form. -/
def readRecord : JsonValue → Option JsonValue
  | .object ps => some (jsonSchema (.object ps))
  | _ => none

/-- A record is an object, and is read as the record schema gives it. -/
theorem readRecord_eq_some {v w : JsonValue} :
    readRecord v = some w ↔ ∃ ps, v = .object ps ∧ w = jsonSchema (.object ps) := by
  cases v with
  | object ps => simp [readRecord, eq_comm]
  | _ => simp [readRecord]

/-- `z.record(jsonSchema)`. -/
def record : Schema where
  read := readRecord
  read_read {v w} h := by
    obtain ⟨ps, rfl, rfl⟩ := readRecord_eq_some.mp h
    have hnamed := named_jsonSchema (.object ps)
    exact readRecord_eq_some.mpr ⟨schemaProperties ps, rfl, (jsonSchema_eq hnamed).symm⟩
  named h := by
    obtain ⟨ps, rfl, rfl⟩ := readRecord_eq_some.mp h
    exact named_jsonSchema _
  readable _ hv h := by
    obtain ⟨ps, rfl, rfl⟩ := readRecord_eq_some.mp h
    exact readable_jsonSchema hv

/-! ## The parts of actions -/

/-- A user as a member. -/
def userMember : Variant "kind" where
  tag := "user"
  shape := { fields := [required "kind" (.literal "user"), required "id" (sized 1 200)], strict := true }
  tagged := ⟨_, List.mem_cons_self, rfl, rfl, rfl⟩

/-- An agent as a member. -/
def agentMember : Variant "kind" where
  tag := "agent"
  shape := { fields := [required "kind" (.literal "agent"), required "id" positive], strict := true }
  tagged := ⟨_, List.mem_cons_self, rfl, rfl, rfl⟩

/-- A member. -/
def memoryMemberSchema : Schema := .union "kind" [userMember, agentMember]

/-- A message as a source. -/
def memorySourceSchema : Schema :=
  .object {
    fields := [required "conversationId" (sized 1 200), required "messageId" (sized 1 200)]
    strict := true }

/-- An observation. -/
def observationShape : Shape where
  fields := [required "kind" (.text fun s => s = "fact" || s = "hypothesis"), required "statement" nonempty,
    required "sourceRefs" (arrayOfAny nonempty)]
  strict := true

/-- A lesson. -/
def lessonShape : Shape where
  fields := [required "statement" nonempty, required "scope" nonempty,
    required "sourceRefs" (arrayOfAny nonempty)]
  strict := true

/-- `contextSummarySchema`. -/
def summarySchema : Schema :=
  .object {
    fields := [required "outcome" nonempty, required "observations" (arrayOfAny (.object observationShape)),
      required "decisions" (arrayOfAny nonempty), required "artifactRefs" (arrayOfAny nonempty),
      required "unresolved" (arrayOfAny nonempty), required "nextResponsibilities" (arrayOfAny nonempty),
      required "lessonCandidates" (arrayOfAny (.object lessonShape)),
      required "sourceRefs" (arrayOfAny nonempty)]
    strict := true }

/-! ## Decisions -/

/-- What a plan is for. -/
def objectives : SchemaField := required "objectives" (arrayWithin 1 12 nonempty)

/-- A decision has its type, and some properties. -/
def decisionOf (type : String) (fields : List SchemaField)
    (nodup : ("type" :: fields.map SchemaField.name).Nodup := by decide)
    (named : "__proto__" ∉ "type" :: fields.map SchemaField.name := by decide) : Variant "type" where
  tag := type
  shape := ⟨required "type" (.literal type) :: fields, true, nodup, named⟩
  tagged := ⟨_, List.mem_cons_self, rfl, rfl, rfl⟩

/-- The decisions about a context. -/
def decisionVariants : List (Variant "type") :=
  [decisionOf "plan" [objectives],
    decisionOf "replan" [objectives, required "reason" nonempty],
    decisionOf "advance" [],
    decisionOf "step_completed" [required "result" summarySchema],
    decisionOf "complete" [],
    decisionOf "interrupt" [required "reason" nonempty],
    decisionOf "compact" [],
    decisionOf "idle" [],
    decisionOf "finish_turn" [],
    decisionOf "continue" [],
    decisionOf "wait" []]

/-- A decision about a context. -/
def decisionSchema : Schema := .union "type" decisionVariants

/-! ## Actions -/

/-- The action that searches conversations. -/
def conversationSearch : Variant "kind" where
  tag := "conversation_search"
  shape := {
    fields := [required "query" (trimmed 1 200), optional "conversationId" nonempty,
      optional "sender" memoryMemberSchema, optional "since" nonnegative, optional "until" nonnegative,
      optional "beforeSequence" positive, optional "limit" (between 1 30),
      required "kind" (.literal "conversation_search")]
    strict := true }
  tagged := ⟨_, List.mem_of_getElem? (i := 7) rfl, rfl, rfl, rfl⟩

/-- The action that reads a conversation. -/
def conversationRead : Variant "kind" where
  tag := "conversation_read"
  shape := {
    fields := [required "conversationId" nonempty, optional "messageId" nonempty,
      optional "afterSequence" nonnegative, optional "throughSequence" positive,
      optional "offset" nonnegative, optional "limit" (between 1 30),
      required "kind" (.literal "conversation_read")]
    strict := true }
  tagged := ⟨_, List.mem_of_getElem? (i := 6) rfl, rfl, rfl, rfl⟩

/-- Reads a note from some character on. -/
def contactNoteGet : Variant "kind" where
  tag := "contact_note_get"
  shape := {
    fields := [required "kind" (.literal "contact_note_get"), required "target" memoryMemberSchema,
      defaultZero "offset" nonnegative]
    strict := true }
  tagged := ⟨_, List.mem_cons_self, rfl, rfl, rfl⟩

/-- The action that writes a note. -/
def contactNoteSet : Variant "kind" where
  tag := "contact_note_set"
  shape := {
    fields := [required "target" memoryMemberSchema, required "introduction" (sized 0 200),
      required "body" (sized 0 6000), required "tags" (atMost 20 (trimmed 1 40)),
      required "unresolved" (atMost 20 (sized 1 400)), required "sourceRefs" (atMost 50 memorySourceSchema),
      required "expectedVersion" nonnegative, required "kind" (.literal "contact_note_set")]
    strict := true }
  tagged := ⟨_, List.mem_of_getElem? (i := 7) rfl, rfl, rfl, rfl⟩

/-- The action that decides about the context. -/
def contextAction : Variant "kind" where
  tag := "context"
  shape := {
    fields := [required "kind" (.literal "context"), required "decision" decisionSchema], strict := true }
  tagged := ⟨_, List.mem_cons_self, rfl, rfl, rfl⟩

/-- A call of a tool. -/
def callSchema : Schema :=
  .object { fields := [required "name" nonempty, required "arguments" record], strict := true }

/-- The action that calls tools. -/
def toolsAction : Variant "kind" where
  tag := "tools"
  shape := {
    fields := [required "kind" (.literal "tools"), required "calls" (arrayWithin 1 8 callSchema)]
    strict := true }
  tagged := ⟨_, List.mem_cons_self, rfl, rfl, rfl⟩

/-- The action that writes to another agent. -/
def messageAction : Variant "kind" where
  tag := "message"
  shape := {
    fields := [required "kind" (.literal "message"), required "recipient" nonempty,
      required "content" nonempty]
    strict := true }
  tagged := ⟨_, List.mem_cons_self, rfl, rfl, rfl⟩

/-- The action that writes to a conversation. -/
def sendMessageAction : Variant "kind" where
  tag := "send_message"
  shape := {
    fields := [required "kind" (.literal "send_message"), required "conversationId" nonempty,
      required "content" nonempty, optional "replyTo" nonempty, optional "mentions" (atMost 32 positive),
      defaultFalse "finish" .boolean]
    strict := true }
  tagged := ⟨_, List.mem_cons_self, rfl, rfl, rfl⟩

/-- The action that says something. -/
def outputAction : Variant "kind" where
  tag := "output"
  shape := {
    fields := [required "kind" (.literal "output"), required "content" nonempty], strict := true }
  tagged := ⟨_, List.mem_cons_self, rfl, rfl, rfl⟩

/-- The action that reads a part of an artifact. -/
def artifactAction : Variant "kind" where
  tag := "artifact"
  shape := {
    fields := [required "kind" (.literal "artifact"), required "ref" nonempty,
      defaultZero "offset" nonnegative]
    strict := true }
  tagged := ⟨_, List.mem_cons_self, rfl, rfl, rfl⟩

/-- All actions. -/
def actionVariants : List (Variant "kind") :=
  [conversationSearch, conversationRead, contactNoteGet, contactNoteSet, contextAction, toolsAction,
    messageAction, sendMessageAction, outputAction, artifactAction]

/-- An action. -/
def actionSchema : Schema := .union "kind" actionVariants

/-- An action. Its kind says which properties it has. -/
abbrev RuntimeAction : Type := actionSchema.Data

/-! ## Reading a completion -/

/-- What kind of fault it is. -/
inductive RuntimeFaultKind where
  | budget
  | loop
  | protocol
  | tool
  | permission
deriving DecidableEq, Repr

/-- What a round may fail with. -/
structure RuntimeFault where
  kind : RuntimeFaultKind
  message : String
  retryable : Bool := false
deriving DecidableEq, Repr

/-- A fault of the answer, which may be tried again. -/
def protocolFault (message : String) : RuntimeFault := ⟨.protocol, message, true⟩

/-- Why an answer ended. -/
inductive FinishReason where
  | stop
  | toolCalls
  | length
  | contentFilter
  | unknown
deriving DecidableEq, Repr

/-- What is read of the answer of a model. -/
structure FinishedCompletion extends ModelCompletion where
  finishReason : FinishReason

/-- The functions that act on the runtime itself. -/
def isCommand (name : String) : Bool :=
  name = "message_send" || startsWith name "conversation_" || startsWith name "contact_note_" ||
    startsWith name "context_" || (startsWith name "agent_" && name ≠ "agent_action")

/-- The properties of a value, if it is an object. -/
def propertiesOf : JsonValue → List (String × JsonValue)
  | .object ps => ps
  | _ => []

/-- The action that a function stands for. -/
def commandValue (name : String) (arguments : List (String × JsonValue)) : JsonValue :=
  if name = "message_send" then .object (("kind", .string "send_message") :: arguments)
  else if startsWith name "conversation_" ∨ startsWith name "contact_note_" then
    .object (("kind", .string name) :: arguments)
  else if startsWith name "context_" then
    .object [("kind", .string "context"),
      ("decision", .object (("type", .string (String.ofList (name.toList.drop 8))) :: arguments))]
  else .object (("kind", .string (String.ofList (name.toList.drop 6))) :: arguments)

/-- A call as the action has it. -/
def callValue (call : ModelToolCall) : JsonValue :=
  .object [("name", .string call.name), ("arguments", call.arguments)]

/-- The action of calling tools. -/
def toolsValue (calls : List ModelToolCall) : JsonValue :=
  .object [("kind", .string "tools"), ("calls", .array (calls.map callValue))]

section

variable (issues : JsonValue → String)

/-- Reads the action of a model. `issues` is what the schema says of a value that has not its form. -/
def parseAction (completion : FinishedCompletion) : Except RuntimeFault RuntimeAction := do
  require (completion.finishReason = .stop ∨ completion.finishReason = .toolCalls)
    (protocolFault "模型响应截断或未正常结束。")
  let calls := completion.message.toolCalls
  require (calls.isEmpty = false)
    (protocolFault "缺少原生 tool_calls。请调用本轮声明的具名函数；正文中的 JSON 不会被执行。")
  require (calls.map ModelToolCall.id).Nodup (protocolFault "原生工具调用 ID 必须唯一，重复调用未执行。")
  match calls.find? fun call => isCommand call.name with
  | some command =>
    require (calls.length = 1) (protocolFault ("每轮控制工具只能调用一次，不能混合多个调用；本轮只保留一个" ++
      command.name ++ "，其他控制工具或业务工具等收到结果后在下一轮调用。"))
    let arguments := propertiesOf command.arguments
    require ("type" ∉ keysOf arguments ∧ "kind" ∉ keysOf arguments)
      (protocolFault "控制函数不能覆盖动作身份。")
    match actionSchema.parse (commandValue command.name arguments) with
    | some action => .ok action
    | none => .error (protocolFault ("模型控制动作参数无效：" ++ issues (commandValue command.name arguments)))
  | none =>
    require (∀ call ∈ calls, call.name ≠ "agent_action")
      (protocolFault "agent_action 已停用，请调用本轮声明的具名函数。")
    match actionSchema.parse (toolsValue calls) with
    | some action => .ok action
    | none => .error (protocolFault "工具调用数量或参数无效。")

variable {issues}

/-- A single call of a command is read as the action that it stands for. -/
theorem parseAction_command {completion : FinishedCompletion} {call : ModelToolCall}
    {arguments : List (String × JsonValue)} {action : RuntimeAction}
    (hfinish : completion.finishReason = .toolCalls) (hcalls : completion.message.toolCalls = [call])
    (hcommand : isCommand call.name = true) (harguments : call.arguments = .object arguments)
    (hidentity : "type" ∉ keysOf arguments ∧ "kind" ∉ keysOf arguments)
    (haction : actionSchema.parse (commandValue call.name arguments) = some action) :
    parseAction issues completion = .ok action := by
  unfold parseAction
  rw [hfinish, hcalls]
  have hfind : [call].find? (fun call => isCommand call.name) = some call := by
    rw [List.find?_cons, hcommand]
  dsimp only
  rw [hfind]
  dsimp only
  rw [harguments]
  unfold propertiesOf
  dsimp only
  rw [haction]
  simp [require, hidentity]

/-- Calls of tools are read as the action of calling them. -/
theorem parseAction_tools {completion : FinishedCompletion} {action : RuntimeAction}
    (hfinish : completion.finishReason = .toolCalls) (hcalls : completion.message.toolCalls ≠ [])
    (hids : (completion.message.toolCalls.map ModelToolCall.id).Nodup)
    (hnames : ∀ call ∈ completion.message.toolCalls, isCommand call.name = false ∧ call.name ≠ "agent_action")
    (haction : actionSchema.parse (toolsValue completion.message.toolCalls) = some action) :
    parseAction issues completion = .ok action := by
  have hfind : completion.message.toolCalls.find? (fun call => isCommand call.name) = none := by
    rw [List.find?_eq_none]
    intro call hcall
    rw [(hnames call hcall).1]
    exact Bool.false_ne_true
  have hempty : completion.message.toolCalls.isEmpty = false := by
    rw [List.isEmpty_eq_false_iff]
    exact hcalls
  have hdisabled : ∀ call ∈ completion.message.toolCalls, call.name ≠ "agent_action" := by
    intro call hcall
    exact (hnames call hcall).2
  unfold parseAction
  dsimp only
  rw [hfind]
  dsimp only
  rw [haction]
  unfold require
  rw [if_pos (.inr hfinish), if_pos hempty, if_pos hids, if_pos hdisabled]
  rfl

end

end OsAgent.AgentRuntime
