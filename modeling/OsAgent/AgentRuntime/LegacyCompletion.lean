import OsAgent.AgentRuntime.Actions

/-!
# Completions of an earlier version

Earlier versions of the runtime read the action of a model from the text of the completion, or from a call
of the function `agent_action`. A completion that was saved then is changed to calls of the functions that
the models have now (`agent-runtime/internal/legacy-completion.ts`). `migrated_spec` says that the action
that is read of the calls is the one that was saved.
-/

namespace OsAgent.AgentRuntime

open OsAgent.Library
open OsAgent.Capability (startsWith)

/-! ## The migration -/

/-- Whether a tool is one of summaries. -/
def isSummaryTool (name : String) : Bool := name = "submit_summary" || name = "submit_conversation_summary"

/-- The function for summaries that a request declares. -/
def summaryTool? (request : Option ModelCompletionRequest) : Option ModelToolDefinition :=
  ((request.bind ModelCompletionRequest.tools).getD []).find? fun tool => isSummaryTool tool.name

/-- The function that stands for actions of a kind. -/
def controlName (kind : String) : String :=
  if kind = "send_message" then "message_send"
  else if startsWith kind "conversation_" ∨ startsWith kind "contact_note_" then kind
  else "agent_" ++ kind

/-- A property that is a text, or the empty one. -/
def textOf (value : Option JsonValue) : String := (value.bind JsonValue.asString?).getD ""

/-- A call as it is migrated. -/
def migratedCall (call : JsonValue) (index : ℕ) : ModelToolCall :=
  ⟨"migrated-" ++ toString index, textOf (call.get? "name"), (call.get? "arguments").getD .null⟩

section

variable (numbers : List Char → Option String)

/-- The calls that stand for an action. -/
def migratedCalls (action : RuntimeAction) : Option (List ModelToolCall) :=
  let properties := propertiesOf action.value
  let kind := textOf (property? "kind" properties)
  if kind = "tools" then
    let calls := ((property? "calls" properties).map JsonValue.items).getD []
    some (calls.zipIdx.map fun (call, index) => migratedCall call index)
  else if kind = "context" then
    let decision := propertiesOf ((property? "decision" properties).getD .null)
    some [⟨"migrated-control", "context_" ++ textOf (property? "type" decision),
      .object (deleteProperty "type" decision)⟩]
  else do
    let arguments ← parse numbers (stringify (.object (deleteProperty "kind" properties)))
    some [⟨"migrated-control", controlName kind, jsonSchema arguments⟩]

/-- The completion with calls in place of its text. -/
def withCalls (saved : FinishedCompletion) (calls : List ModelToolCall) : FinishedCompletion :=
  { saved with finishReason := .toolCalls, message := { saved.message with toolCalls := calls } }

/-- The completion with a text in place of its calls. -/
def withText (saved : FinishedCompletion) (content : String) : FinishedCompletion :=
  { saved with finishReason := .stop, message := { saved.message with toolCalls := [], content } }

/-- The migration of a completion that has no calls. -/
def migrateText (saved : FinishedCompletion) (request : Option ModelCompletionRequest) :
    Option FinishedCompletion :=
  match parse numbers saved.message.content.toList with
  | none => some saved
  | some value =>
    match summaryTool? request, value with
    | some tool, .object ps =>
      some (withCalls saved [⟨"migrated-summary", tool.name, jsonSchema (.object ps)⟩])
    | _, _ =>
      match actionSchema.parse value with
      | none => some saved
      | some action => (migratedCalls numbers action).map (withCalls saved)

/-- Changes a completion that was saved before the models had named functions. It fails only where
`JSON.parse` would of a text that `JSON.stringify` wrote. -/
def migrateSavedCompletion (saved : FinishedCompletion) (request : Option ModelCompletionRequest) :
    Option FinishedCompletion :=
  match saved.message.toolCalls with
  | [] => if saved.finishReason = .stop then migrateText numbers saved request else some saved
  | [call] =>
    if call.name = "agent_action" ∧ (saved.finishReason = .stop ∨ saved.finishReason = .toolCalls) then
      migrateText numbers (withText saved (String.ofList (stringify call.arguments))) request
    else some saved
  | _ => some saved

end

/-! ## Properties of a shape -/

section

variable {f g : SchemaField} {ps qs : List (String × JsonValue)} {v w : JsonValue}

/-- A property that has to be there is there. -/
theorem exists_of_invalid (hf : f.absence = .invalid) {value : Option JsonValue} (h : f.read ps = some value) :
    ∃ x y, property? f.name ps = some x ∧ value = some y ∧ f.item.read x = some y := by
  unfold SchemaField.read at h
  rw [hf] at h
  split at h
  · rename_i x hx
    obtain ⟨y, hy, rfl⟩ := Option.map_eq_some_iff.mp h
    exact ⟨x, y, hx, rfl, hy⟩
  · cases h
  · rename_i heq
    cases heq
  · rename_i heq
    cases heq

/-- An object of two properties that have to be there. -/
theorem exists_pair (hf : f.absence = .invalid) (hg : g.absence = .invalid)
    (h : readFields [f, g] ps = some qs) :
    ∃ x y, f.item.read x = some x ∧ g.item.read y = some y ∧ qs = [(f.name, x), (g.name, y)] := by
  obtain ⟨value, rest, hvalue, hrest, rfl⟩ := readFields_cons.mp h
  obtain ⟨value', rest', hvalue', hrest', rfl⟩ := readFields_cons.mp hrest
  obtain rfl := Option.some.inj hrest'
  obtain ⟨x', x, -, rfl, hx⟩ := exists_of_invalid hf hvalue
  obtain ⟨y', y, -, rfl, hy⟩ := exists_of_invalid hg hvalue'
  exact ⟨x, y, f.item.read_read hx, g.item.read_read hy, rfl⟩

end

/-! ## The kinds of actions -/

/-- An action is an object of one of the kinds. -/
theorem exists_kind (action : RuntimeAction) :
    ∃ variant ps, actionVariants.find? (fun c => c.tag = variant.tag) = some variant ∧
      action.value = .object ps ∧ variant.shape.read (.object ps) = some (.object ps) ∧
      property? "kind" ps = some (.string variant.tag) := by
  obtain ⟨variant, ps, hfind, hvalue, hread⟩ := exists_variant action.read_value
  rw [hvalue] at hread
  exact ⟨variant, ps, hfind, hvalue, hread, variant.property?_of_read hread⟩

/-! ## Calls of tools -/

/-- The names of the tools that an action calls. -/
def toolNames (action : RuntimeAction) : List String :=
  (((property? "calls" (propertiesOf action.value)).map JsonValue.items).getD []).map fun call =>
    textOf (call.get? "name")

/-- The names that are like those of control functions. -/
def isControlName (name : String) : Bool :=
  name = "message_send" || startsWith name "conversation_" || startsWith name "contact_note_" ||
    startsWith name "context_" || startsWith name "agent_"

/-- A name that is not like those of control functions is none. -/
theorem isCommand_of_not_isControlName {name : String} (h : isControlName name = false) :
    isCommand name = false ∧ name ≠ "agent_action" := by
  unfold isControlName at h
  simp only [Bool.or_eq_false_iff] at h
  obtain ⟨⟨⟨⟨hsend, hconversation⟩, hnote⟩, hcontext⟩, hagent⟩ := h
  constructor
  · unfold isCommand
    rw [hsend, hconversation, hnote, hcontext, hagent]
    rfl
  · rintro rfl
    exact absurd hagent (by decide)

/-- A call of an action is the call that is put together of it. -/
theorem callValue_migratedCall {call : JsonValue} (h : callSchema.read call = some call) (index : ℕ) :
    callValue (migratedCall call index) = call := by
  obtain ⟨ps, qs, rfl, -, hread, heq⟩ := Shape.read_eq_some.mp h
  obtain ⟨x, y, hx, hy, rfl⟩ := exists_pair rfl rfl hread
  have hname : readText id (fun s => decide (s ≠ "")) x = some x := hx
  obtain ⟨name, rfl, -, -⟩ := readText_eq_some.mp hname
  rw [heq]
  rfl

/-- The migrated calls have distinct identifiers. -/
theorem nodup_migratedIds (calls : List JsonValue) :
    ((calls.zipIdx.map fun (call, index) => migratedCall call index).map ModelToolCall.id).Nodup := by
  have hids : (calls.zipIdx.map fun (call, index) => migratedCall call index).map ModelToolCall.id =
      (List.range' 0 calls.length).map fun index => "migrated-" ++ toString index := by
    rw [← List.zipIdx_map_snd 0 calls, List.map_map, List.map_map]
    rfl
  rw [hids]
  apply List.Nodup.map
  · intro i j hij
    exact toString_inj (String.append_right_inj _ |>.mp hij)
  · exact List.nodup_range'

/-- An action that calls tools is migrated to its calls. -/
theorem migrated_tools {numbers : List Char → Option String} {issues : JsonValue → String}
    {action : RuntimeAction} {ps : List (String × JsonValue)} (hvalue : action.value = .object ps)
    (hread : toolsAction.shape.read (.object ps) = some (.object ps))
    (hnames : ∀ name ∈ toolNames action, isControlName name = false) :
    ∃ calls, migratedCalls numbers action = some calls ∧
      ∀ saved, parseAction issues (withCalls saved calls) = .ok action := by
  -- The action has the two fields of its variant, and they are read.
  obtain ⟨ps', qs, heq, -, hfields, heq'⟩ := Shape.read_eq_some.mp hread
  obtain rfl := JsonValue.object.inj heq
  obtain rfl := JsonValue.object.inj heq'
  obtain ⟨x, y, hx, hy, rfl⟩ := exists_pair rfl rfl hfields
  have hkind : (Schema.literal "tools").read x = some x := hx
  have hcalls : readArray (fun n => 1 ≤ n && n ≤ 8) callSchema.read y = some y := hy
  obtain ⟨rfl, -⟩ := Schema.literal_read.mp hkind
  obtain ⟨cs, cs', rfl, hsize, hcs, hsame⟩ := readArray_eq_some.mp hcalls
  obtain rfl := JsonValue.array.inj hsame
  have hcalls : migratedCalls numbers action =
      some (cs.zipIdx.map fun (call, index) => migratedCall call index) := by
    unfold migratedCalls
    rw [hvalue]
    rfl
  -- No call is a command's, by assumption.
  have hnames' : ∀ call ∈ cs, isControlName (textOf (call.get? "name")) = false := by
    intro call hcall
    apply hnames
    unfold toolNames
    rw [hvalue]
    exact List.mem_map_of_mem hcall
  -- The calls that are written are read back as they were.
  have hback : (cs.zipIdx.map fun (call, index) => migratedCall call index).map callValue = cs := by
    have hitems : ∀ p ∈ cs.zipIdx, callValue (migratedCall p.1 p.2) = p.1 := by
      intro p hp
      exact callValue_migratedCall (List.forall₂_same.mp hcs _ (List.fst_mem_of_mem_zipIdx hp)) _
    calc (cs.zipIdx.map fun (call, index) => migratedCall call index).map callValue
        = cs.zipIdx.map fun p => callValue (migratedCall p.1 p.2) := by
          rw [List.map_map]
          rfl
      _ = cs.zipIdx.map Prod.fst := List.map_congr_left hitems
      _ = cs := List.zipIdx_map_fst 0 cs
  -- The action is read again from what its calls are written as.
  refine ⟨_, hcalls, ?_⟩
  intro saved
  apply parseAction_tools rfl
  · intro hempty
    have hnil : cs = [] := by
      rw [← hback]
      exact congrArg (List.map callValue) hempty
    rw [hnil] at hsize
    cases hsize
  · exact nodup_migratedIds cs
  · intro call hcall
    obtain ⟨p, hp, rfl⟩ := List.mem_map.mp hcall
    exact isCommand_of_not_isControlName (hnames' _ (List.fst_mem_of_mem_zipIdx hp))
  · unfold toolsValue withCalls
    dsimp only
    rw [hback]
    exact hvalue ▸ Schema.parse_value action

/-- A single call of a command, in place of a text. -/
theorem parseAction_withCalls {issues : JsonValue → String} {saved : FinishedCompletion} {id name : String}
    {arguments : List (String × JsonValue)} {action : RuntimeAction} (hcommand : isCommand name = true)
    (htype : "type" ∉ keysOf arguments) (hkind : "kind" ∉ keysOf arguments)
    (haction : actionSchema.parse (commandValue name arguments) = some action) :
    parseAction issues (withCalls saved [⟨id, name, .object arguments⟩]) = .ok action :=
  parseAction_command rfl rfl hcommand rfl ⟨htype, hkind⟩ haction

/-! ## Decisions -/

/-- A text starts with its first part. -/
theorem startsWith_append (s t : String) : startsWith (s ++ t) s := by
  unfold startsWith
  rw [String.toList_append]
  exact List.prefix_append _ _

/-- What stands before the type of a decision tells it from other functions. -/
theorem context_functions (type : String) :
    ¬ startsWith ("context_" ++ type) "conversation_" ∧ ¬ startsWith ("context_" ++ type) "contact_note_" ∧
      "context_" ++ type ≠ "message_send" := by
  refine ⟨?_, ?_, ?_⟩
  · unfold startsWith
    rw [String.toList_append]
    simp
  · unfold startsWith
    rw [String.toList_append]
    simp
  · intro h
    have hlist := congrArg String.toList h
    rw [String.toList_append] at hlist
    simp at hlist

/-- A decision about the context is a command. -/
theorem isCommand_context (type : String) : isCommand ("context_" ++ type) = true := by
  unfold isCommand
  simp [startsWith_append]

/-- The value of a command that decides about the context. -/
theorem commandValue_context (type : String) (arguments : List (String × JsonValue)) :
    commandValue ("context_" ++ type) arguments = .object [("kind", .string "context"),
      ("decision", .object (("type", .string type) :: arguments))] := by
  obtain ⟨hconversation, hnote, hsend⟩ := context_functions type
  have hlength : "context_".toList.length = 8 := by decide
  have htype : String.ofList (("context_" ++ type).toList.drop 8) = type := by
    rw [String.toList_append, List.drop_left' hlength, String.ofList_toList]
  unfold commandValue
  rw [if_neg hsend, if_neg (not_or.mpr ⟨hconversation, hnote⟩), if_pos (startsWith_append _ _), htype]

/-- No decision has a property of this name. -/
theorem kind_not_mem_decision :
    ∀ variant ∈ decisionVariants, "kind" ∉ variant.shape.names := by
  decide

/-- A property that was deleted is not there. -/
theorem not_mem_deleteProperty (key : String) (ps : List (String × JsonValue)) :
    key ∉ keysOf (deleteProperty key ps) := by
  rw [← property?_eq_none, property?_deleteProperty, if_pos rfl]

/-- A property that is left was there. -/
theorem mem_of_mem_deleteProperty {k key : String} {ps : List (String × JsonValue)}
    (h : k ∈ keysOf (deleteProperty key ps)) : k ∈ keysOf ps := by
  obtain ⟨p, hp, rfl⟩ := List.mem_map.mp h
  exact List.mem_map_of_mem (List.mem_of_mem_filter hp)

/-- An action that decides about the context is migrated to its command. -/
theorem migrated_context {numbers : List Char → Option String} {issues : JsonValue → String}
    {action : RuntimeAction} {ps : List (String × JsonValue)} (hvalue : action.value = .object ps)
    (hread : contextAction.shape.read (.object ps) = some (.object ps)) :
    ∃ calls, migratedCalls numbers action = some calls ∧
      ∀ saved, parseAction issues (withCalls saved calls) = .ok action := by
  -- The action has the two fields of its variant, and its decision has one of the variants.
  obtain ⟨ps', qs, heq, -, hfields, heq'⟩ := Shape.read_eq_some.mp hread
  obtain rfl := JsonValue.object.inj heq
  obtain rfl := JsonValue.object.inj heq'
  obtain ⟨x, y, hx, hy, rfl⟩ := exists_pair rfl rfl hfields
  have hkind : (Schema.literal "context").read x = some x := hx
  have hdecision : readVariant "type" decisionVariants y = some y := hy
  obtain ⟨rfl, -⟩ := Schema.literal_read.mp hkind
  obtain ⟨variant, ds, hfind, rfl, hvariant⟩ := exists_variant hdecision
  have htype := variant.property?_of_read hvariant
  have hcalls : migratedCalls numbers action = some [⟨"migrated-control", "context_" ++ variant.tag,
      .object (deleteProperty "type" ds)⟩] := by
    unfold migratedCalls
    rw [hvalue]
    show some [(⟨"migrated-control", "context_" ++ textOf (property? "type" ds), _⟩ : ModelToolCall)] = _
    rw [htype]
    rfl
  -- The type leads again, and the decision is read as before.
  have hagain : decisionSchema.read (.object (("type", .string variant.tag) :: deleteProperty "type" ds)) =
      some (.object ds) := readVariant_again hfind hvariant
  have haction : actionSchema.parse (.object [("kind", .string "context"),
      ("decision", .object (("type", .string variant.tag) :: deleteProperty "type" ds))]) = some action := by
    have hdecision' : (required "decision" decisionSchema).read [("kind", .string "context"),
        ("decision", .object (("type", .string variant.tag) :: deleteProperty "type" ds))] =
          some (some (.object ds)) := by
      show (decisionSchema.read _).map some = some (some (.object ds))
      rw [hagain]
      rfl
    have hfields' : readFields contextAction.shape.fields [("kind", .string "context"),
        ("decision", .object (("type", .string variant.tag) :: deleteProperty "type" ds))] =
          some [("kind", .string "context"), ("decision", .object ds)] :=
      readFields_cons.mpr ⟨some (.string "context"), _, rfl,
        readFields_cons.mpr ⟨some (.object ds), [], hdecision', rfl, rfl⟩, rfl⟩
    have hread' : contextAction.shape.read (.object [("kind", .string "context"),
        ("decision", .object (("type", .string variant.tag) :: deleteProperty "type" ds))]) =
          some (.object [("kind", .string "context"), ("decision", .object ds)]) :=
      Shape.read_eq_some.mpr ⟨_, _, rfl, fun _ _ hkey => hkey, hfields', rfl⟩
    have haction : actionVariants.find? (fun c => c.tag = contextAction.tag) = some contextAction := rfl
    apply Schema.parse_eq_some.mpr
    rw [hvalue]
    exact (readVariant_object rfl haction).trans hread'
  -- The command of the decision gives the same action.
  refine ⟨_, hcalls, ?_⟩
  intro saved
  apply parseAction_withCalls (isCommand_context _)
  · exact not_mem_deleteProperty _ _
  · intro hmem
    have hnames := variant.names_of_read hvariant "kind" (mem_of_mem_deleteProperty hmem)
    exact kind_not_mem_decision variant (List.mem_of_find?_eq_some hfind) hnames
  · rw [commandValue_context]
    exact haction

/-! ## Other control functions -/

/-- The name of an action is a command, and its shape has no type. -/
theorem isCommand_controlName : ∀ variant ∈ actionVariants, variant.tag ≠ "tools" → variant.tag ≠ "context" →
    isCommand (controlName variant.tag) = true ∧ "type" ∉ variant.shape.names := by
  decide

/-- The function that stands for a kind is read as this kind. -/
theorem commandValue_controlName : ∀ variant ∈ actionVariants, variant.tag ≠ "tools" →
    variant.tag ≠ "context" → ∀ arguments, commandValue (controlName variant.tag) arguments =
      .object (("kind", .string variant.tag) :: arguments) := by
  unfold actionVariants
  simp only [List.forall_mem_cons]
  exact ⟨fun _ _ _ => rfl, fun _ _ _ => rfl, fun _ _ _ => rfl, fun _ _ _ => rfl,
    fun _ h => absurd rfl h, fun h => absurd rfl h, fun _ _ _ => rfl, fun _ _ _ => rfl, fun _ _ _ => rfl,
    fun _ _ _ => rfl, fun _ h => (by cases h)⟩

/-- Another action is migrated to its command. -/
theorem migrated_control {numbers : List Char → Option String} {issues : JsonValue → String}
    {action : RuntimeAction} {variant : Variant "kind"} {ps : List (String × JsonValue)}
    (hreadable : action.value.Readable numbers) (hvalue : action.value = .object ps)
    (hfind : actionVariants.find? (fun c => c.tag = variant.tag) = some variant)
    (hread : variant.shape.read (.object ps) = some (.object ps))
    (htools : variant.tag ≠ "tools") (hcontext : variant.tag ≠ "context") :
    ∃ calls, migratedCalls numbers action = some calls ∧
      ∀ saved, parseAction issues (withCalls saved calls) = .ok action := by
  have hmem : variant ∈ actionVariants := List.mem_of_find?_eq_some hfind
  obtain ⟨hcommand, htype⟩ := isCommand_controlName variant hmem htools hcontext
  have hkind := variant.property?_of_read hread
  -- The action without its kind is what the command carries.
  have harguments : (JsonValue.object (deleteProperty "kind" ps)).Readable numbers := by
    rw [hvalue] at hreadable
    cases hreadable with
    | object hnodup hproperties =>
      apply JsonValue.Readable.object
      · exact hnodup.sublist (List.filter_sublist.map _)
      · intro p hp
        exact hproperties p (List.mem_of_mem_filter hp)
  have hnamed : (JsonValue.object (deleteProperty "kind" ps)).Named (· ≠ "__proto__") := by
    have hall := actionSchema.named action.read_value
    rw [hvalue] at hall
    cases hall with
    | object hkeys hproperties =>
      apply JsonValue.Named.object
      · intro p hp
        exact hkeys p (List.mem_of_mem_filter hp)
      · intro p hp
        exact hproperties p (List.mem_of_mem_filter hp)
  -- The command is named after the kind.
  have hcalls : migratedCalls numbers action = some [⟨"migrated-control", controlName variant.tag,
      .object (deleteProperty "kind" ps)⟩] := by
    have htext : textOf (property? "kind" ps) = variant.tag := by
      rw [hkind]
      rfl
    unfold migratedCalls
    rw [hvalue]
    unfold propertiesOf
    dsimp only
    rw [htext, if_neg htools, if_neg hcontext, parse_stringify harguments]
    show some [(⟨"migrated-control", controlName variant.tag, jsonSchema _⟩ : ModelToolCall)] = _
    rw [jsonSchema_eq hnamed]
  -- The kind put back in front, the action is read as before.
  refine ⟨_, hcalls, ?_⟩
  intro saved
  apply parseAction_withCalls hcommand
  · intro hkey
    exact htype (variant.names_of_read hread "type" (mem_of_mem_deleteProperty hkey))
  · exact not_mem_deleteProperty _ _
  · apply Schema.parse_eq_some.mpr
    rw [commandValue_controlName variant hmem htools hcontext, hvalue]
    exact readVariant_again hfind hread

/-! ## The migrated completion -/

/-- The completion carries the data of an action, in one of the two earlier ways, and it has ended. -/
inductive CarriesAction (numbers : List Char → Option String) (v : JsonValue) (saved : FinishedCompletion) :
    Prop where
  | text (hcalls : saved.message.toolCalls = []) (hfinish : saved.finishReason = .stop)
      (hcontent : parse numbers saved.message.content.toList = some v)
  | call (id : String) (hcalls : saved.message.toolCalls = [⟨id, "agent_action", v⟩])
      (hfinish : saved.finishReason = .stop ∨ saved.finishReason = .toolCalls)

/-- The calls that stand for an action are read as the action. -/
theorem parse_migratedCalls {numbers : List Char → Option String} {issues : JsonValue → String}
    {action : RuntimeAction} (hreadable : action.value.Readable numbers)
    (hnames : ∀ name ∈ toolNames action, isControlName name = false) :
    ∃ calls, migratedCalls numbers action = some calls ∧
      ∀ saved, parseAction issues (withCalls saved calls) = .ok action := by
  obtain ⟨variant, ps, hfind, hvalue, hread, -⟩ := exists_kind action
  by_cases htools : variant.tag = "tools"
  · rw [htools] at hfind
    obtain rfl : toolsAction = variant := Option.some.inj hfind
    exact migrated_tools hvalue hread hnames
  · by_cases hcontext : variant.tag = "context"
    · rw [hcontext] at hfind
      obtain rfl : contextAction = variant := Option.some.inj hfind
      exact migrated_context hvalue hread
    · exact migrated_control hreadable hvalue hfind hread htools hcontext

/-- A request without the tools of summaries asks for none. -/
theorem summaryTool?_eq_none {request : Option ModelCompletionRequest}
    (h : ∀ r ∈ request, ∀ tools ∈ r.tools, ∀ tool ∈ tools, isSummaryTool tool.name = false) :
    summaryTool? request = none := by
  unfold summaryTool?
  rw [List.find?_eq_none]
  intro tool htool
  cases htools : request.bind ModelCompletionRequest.tools with
  | none =>
    rw [htools] at htool
    cases htool
  | some tools =>
    rw [htools] at htool
    obtain ⟨r, hr, hrtools⟩ := Option.bind_eq_some_iff.mp htools
    rw [h r hr tools hrtools tool htool]
    exact Bool.false_ne_true

/-- A completion with the data of an action as its text gets the calls that stand for the action. -/
theorem migrateText_of_parse {numbers : List Char → Option String} {saved : FinishedCompletion}
    {request : Option ModelCompletionRequest} {v : JsonValue} {action : RuntimeAction}
    (hcontent : parse numbers saved.message.content.toList = some v)
    (hrequest : summaryTool? request = none) (haction : actionSchema.parse v = some action) :
    migrateText numbers saved request = (migratedCalls numbers action).map (withCalls saved) := by
  unfold migrateText
  rw [hcontent, hrequest]
  dsimp only
  rw [haction]

/-- The action that was saved is read of the calls into which the completion was changed. -/
theorem migrated_spec {numbers : List Char → Option String} (hzero : numbers ['0'] = some "0")
    {issues : JsonValue → String} {v : JsonValue} (hv : v.Readable numbers) {action : RuntimeAction}
    (haction : actionSchema.parse v = some action)
    (hnames : ∀ name ∈ toolNames action, isControlName name = false)
    {request : Option ModelCompletionRequest}
    (hrequest : ∀ r ∈ request, ∀ tools ∈ r.tools, ∀ tool ∈ tools, isSummaryTool tool.name = false)
    {saved : FinishedCompletion} (hsaved : CarriesAction numbers v saved) :
    ∃ migrated, migrateSavedCompletion numbers saved request = some migrated ∧
      parseAction issues migrated = .ok action := by
  have hreadable : action.value.Readable numbers :=
    actionSchema.readable hzero hv (Schema.parse_eq_some.mp haction)
  have hnone := summaryTool?_eq_none hrequest
  obtain ⟨calls, hcalls, hparse⟩ := @parse_migratedCalls numbers issues action hreadable hnames
  cases hsaved with
  -- The action was written as the text of the completion.
  | text hempty hfinish hcontent =>
    refine ⟨withCalls saved calls, ?_, hparse saved⟩
    unfold migrateSavedCompletion
    rw [hempty]
    dsimp only
    rw [if_pos hfinish, migrateText_of_parse hcontent hnone haction, hcalls]
    rfl
  -- The action was written as the arguments of the only call.
  | call id hcall hfinish =>
    have hcontent : parse numbers (withText saved (String.ofList (stringify v))).message.content.toList =
        some v := by
      show parse numbers (String.ofList (stringify v)).toList = some v
      rw [String.toList_ofList, parse_stringify hv]
    refine ⟨withCalls (withText saved (String.ofList (stringify v))) calls, ?_, hparse _⟩
    unfold migrateSavedCompletion
    rw [hcall]
    dsimp only
    rw [if_pos ⟨rfl, hfinish⟩, migrateText_of_parse hcontent hnone haction, hcalls]
    rfl

/-! ## Completions of which this is not so -/

/-- Numerals as they are, which is how the language writes small integers. -/
def asWritten (numeral : List Char) : Option String := some (String.ofList numeral)

/-- The data of the action of waiting. -/
def waitValue : JsonValue :=
  .object [("kind", .string "context"), ("decision", .object [("type", .string "wait")])]

/-- A completion with the data of an action as the arguments of `agent_action`. -/
def actionCompletion (v : JsonValue) (finishReason : FinishReason) : FinishedCompletion :=
  { message := ⟨"", [⟨"call-1", "agent_action", v⟩], none⟩, finishReason }

/-- The action that waits. -/
def waitAction : RuntimeAction := ⟨waitValue, rfl⟩

/-- The action that waits is readable. -/
theorem readable_waitValue : waitValue.Readable asWritten := by
  apply JsonValue.Readable.object (by decide)
  intro p hp
  rcases List.mem_pair.mp hp with rfl | rfl
  · exact .string _
  · apply JsonValue.Readable.object (by decide)
    intro q hq
    obtain rfl := List.mem_singleton.mp hq
    exact .string _

/-- The action that waits is migrated to itself. -/
theorem migrated_spec_wait : waitValue.Readable asWritten ∧ ∃ migrated,
    migrateSavedCompletion asWritten (actionCompletion waitValue .stop) none = some migrated ∧
      parseAction (fun _ => "") migrated = .ok waitAction := by
  have hnames : ∀ name ∈ toolNames waitAction, isControlName name = false := by decide
  have hsaved : CarriesAction asWritten waitValue (actionCompletion waitValue .stop) :=
    .call "call-1" rfl (.inl rfl)
  exact ⟨readable_waitValue, migrated_spec rfl readable_waitValue (Schema.parse_value waitAction) hnames
    (fun _ h => by cases h) hsaved⟩

/-- A call of `agent_action` that was cut off stays as it is, and no action is read of it. -/
theorem not_migrated_cut_off : actionSchema.parse waitValue = some waitAction ∧
    migrateSavedCompletion asWritten (actionCompletion waitValue .length) none =
      some (actionCompletion waitValue .length) ∧
    parseAction (fun _ => "") (actionCompletion waitValue .length) =
      .error (protocolFault "模型响应截断或未正常结束。") :=
  ⟨Schema.parse_value waitAction, rfl, rfl⟩

end OsAgent.AgentRuntime
