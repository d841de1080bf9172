import OsAgent.ModelRequester.DeepSeekCodec

/-!
# The names of tools

Every name of a tool that a request has is replaced by its wire name, which is the same everywhere in the
body. Two names never have the same wire name in one request, since the second one of them is refused. So
the original names can be put back (`translates_of_encode`).
-/

namespace OsAgent.ModelRequester

open OsAgent.Library OsAgent.AgentRuntime

/-! ## Wire names -/

section WireNames

variable {sha256 : String → String}

/-- A wire name is legal if the digest has only such characters. -/
theorem isWireName_wireName (hhex : ∀ name, ∀ c ∈ (sha256 name).toList, isWireChar c = true)
    (name : String) : isWireName (wireName sha256 name) = true := by
  unfold wireName
  split_ifs with hlegal
  · exact hlegal
  · -- A name that is not legal: forty of its characters, an underscore and twenty of the digest.
    have hfirst : ((name.toList.map fun c => if isWireChar c then c else '_').take 40).length ≤ 40 :=
      List.length_take_le _ _
    have hlast : ((sha256 name).toList.take 20).length ≤ 20 := List.length_take_le _ _
    have hchars : ∀ c ∈ (name.toList.map fun c => if isWireChar c then c else '_').take 40 ++ ['_', '_'] ++
        (sha256 name).toList.take 20, isWireChar c = true := by
      intro c hc
      rw [List.mem_append, List.mem_append] at hc
      -- A character of the name was replaced, or is legal itself.
      rcases hc with (hc | hc) | hc
      · obtain ⟨a, -, rfl⟩ := List.mem_map.mp (List.mem_of_mem_take hc)
        split_ifs with ha
        · exact ha
        · rfl
      · have hunderscore : c = '_' := by simpa using hc
        rw [hunderscore]
        rfl
      · exact hhex name c (List.mem_of_mem_take hc)
    unfold isWireName
    rw [String.toList_ofList, Bool.and_eq_true, Bool.and_eq_true, decide_eq_true_eq, decide_eq_true_eq,
      List.all_eq_true]
    refine ⟨⟨?_, ?_⟩, hchars⟩
    · rw [List.length_append, List.length_append, List.length_cons]
      omega
    · rw [List.length_append, List.length_append]
      change _ + 2 + _ ≤ 64
      omega

end WireNames

/-! ## The two maps -/

/-- The names that were met. -/
def AliasTable.names (table : AliasTable) : List String := table.aliases.map Prod.fst

/-- A name is mapped to its wire name, and that is mapped to the name. -/
structure AliasTable.Sound (sha256 : String → String) (table : AliasTable) : Prop where
  aliases : ∀ p ∈ table.aliases, p.2 = wireName sha256 p.1
  originals : ∀ p ∈ table.aliases, mapGet table.originals p.2 = some p.1

/-- The empty table is sound. -/
theorem AliasTable.Sound.empty (sha256 : String → String) : AliasTable.Sound sha256 {} where
  aliases _ hp := (List.not_mem_nil hp).elim
  originals _ hp := (List.not_mem_nil hp).elim

/-- A name that was noted is found under its name for the provider. -/
theorem AliasTable.Sound.get {sha256 : String → String} {table : AliasTable} (h : table.Sound sha256)
    {name : String} (hname : name ∈ table.names) :
    mapGet table.originals (wireName sha256 name) = some name := by
  obtain ⟨p, hp, rfl⟩ := List.mem_map.mp hname
  rw [← h.aliases p hp]
  exact h.originals p hp

/-- What a step of the encoder returns and which names it meets. -/
def Meets {α : Type} (sha256 : String → String) (x : Encode α) (result : α → Prop)
    (names : List String) : Prop :=
  ∀ t a t', t.Sound sha256 → x.run t = .ok (a, t') → result a ∧ t'.Sound sha256 ∧
    (∀ n ∈ t.names, n ∈ t'.names) ∧ ∀ n ∈ names, n ∈ t'.names

section Steps

variable {sha256 : String → String} {α β : Type} {x : Encode α} {f : α → Encode β} {P : α → Prop}
  {Q : β → Prop} {names more : List String}

/-- What returns meets no name. -/
theorem Meets.pure {a : α} (h : P a) : Meets sha256 (pure a : Encode α) P [] := by
  intro t b t' hsound hrun
  rw [StateT.run_pure, pure_eq_ok, Prod.mk.injEq] at hrun
  obtain ⟨rfl, rfl⟩ := hrun
  exact ⟨h, hsound, fun n hn => hn, fun n hn => (List.not_mem_nil hn).elim⟩

/-- What fails or returns without the table meets no name. -/
theorem Meets.lift (x : Except CodecError α) :
    Meets sha256 (liftM x : Encode α) (fun a => x = .ok a) [] := by
  intro t a t' hsound hrun
  cases x with
  | error e => cases hrun
  | ok b =>
    cases hrun
    exact ⟨rfl, hsound, fun n hn => hn, fun n hn => (List.not_mem_nil hn).elim⟩

/-- One encoding after another meets the names of both. -/
theorem Meets.bind (hx : Meets sha256 x P names) (hf : ∀ a, P a → Meets sha256 (f a) Q more) :
    Meets sha256 (x >>= f) Q (names ++ more) := by
  intro t b t'' hsound hrun
  obtain ⟨a, t', ha, hb⟩ := run_bind_eq_ok.mp hrun
  obtain ⟨hP, hsound', hkept, hnames⟩ := hx t a t' hsound ha
  obtain ⟨hQ, hsound'', hkept', hmore⟩ := hf a hP t' b t'' hsound' hb
  refine ⟨hQ, hsound'', fun n hn => hkept' n (hkept n hn), ?_⟩
  intro n hn
  rcases List.mem_append.mp hn with hn | hn
  · exact hkept' n (hnames n hn)
  · exact hmore n hn

/-- To encode a list meets the names of all items. -/
theorem Meets.mapM {R : α → β → Prop} {met : α → List String} {l : List α}
    (h : ∀ a, Meets sha256 (f a) (R a) (met a)) :
    Meets sha256 (l.mapM f) (List.Forall₂ R l) (l.flatMap met) := by
  induction l with
  | nil => exact Meets.pure List.Forall₂.nil
  | cons a l ih =>
    rw [List.mapM_cons, List.flatMap_cons]
    refine (h a).bind fun b hb => ?_
    have hrest := ih.bind (f := fun bs => (Pure.pure (b :: bs) : Encode (List β)))
      fun bs hbs => Meets.pure (List.Forall₂.cons hb hbs)
    rw [List.append_nil] at hrest
    exact hrest

/-- A name is met under its wire name. -/
theorem meets_aliasFor (name : String) :
    Meets sha256 (aliasFor sha256 name) (fun encoded => encoded = wireName sha256 name) [name] := by
  intro t encoded t' hsound hrun
  unfold aliasFor at hrun
  obtain ⟨table, s, hget, hrun⟩ := run_bind_eq_ok.mp hrun
  cases hget
  -- The name was met before, or its wire name is made now.
  cases hprevious : (mapGet t.aliases name).filter (· ≠ "") with
  | some previous =>
    rw [hprevious] at hrun
    cases hrun
    have hmem := mapGet_eq_some (Option.filter_eq_some_iff.mp hprevious).1
    refine ⟨hsound.aliases _ hmem, hsound, fun n hn => hn, ?_⟩
    intro n hn
    rw [List.mem_singleton.mp hn]
    exact List.mem_map.mpr ⟨_, hmem, rfl⟩
  | none =>
    rw [hprevious] at hrun
    dsimp only at hrun
    obtain ⟨_, s, hcheck, hrun⟩ := run_bind_eq_ok.mp hrun
    -- The wire name is free, or is that of this very name.
    obtain ⟨hfree, hsame⟩ : (∀ other ∈ mapGet t.originals (wireName sha256 name), other = name) ∧ s = t := by
      by_cases hfree : ∀ other ∈ mapGet t.originals (wireName sha256 name), other = name
      · rw [require, if_pos hfree] at hcheck
        cases hcheck
        exact ⟨hfree, rfl⟩
      · rw [require, if_neg hfree] at hcheck
        cases hcheck
    subst hsame
    cases hrun
    have hnames : ∀ n ∈ s.names, n ∈ (s.aliases ++ [(name, wireName sha256 name)]).map Prod.fst := by
      intro n hn
      rw [List.map_append]
      exact List.mem_append_left _ hn
    -- The two tables still answer each other.
    refine ⟨rfl, ⟨?_, ?_⟩, hnames, ?_⟩
    · intro p hp
      rcases List.mem_append.mp hp with hp | hp
      · exact hsound.aliases p hp
      · rw [List.mem_singleton.mp hp]
    · intro p hp
      show mapGet (s.originals ++ [(wireName sha256 name, name)]) p.2 = some p.1
      rw [mapGet_append]
      rcases List.mem_append.mp hp with hp | hp
      · have hold := hsound.originals p hp
        split_ifs with hsame
        · -- the wire name is that of a name met before, which is this name
          rw [← hsame] at hold
          rw [hfree p.1 hold]
        · exact hold
      · rw [List.mem_singleton.mp hp, if_pos rfl]
    · intro n hn
      rw [List.mem_singleton.mp hn]
      show name ∈ (s.aliases ++ [(name, wireName sha256 name)]).map Prod.fst
      rw [List.map_append]
      exact List.mem_append_right _ (List.mem_singleton_self name)

end Steps

/-! ## Encoding -/

/-- The names of tools in a message. -/
def NativeMessage.toolNames : NativeMessage → List String
  | .assistant _ toolCalls _ => toolCalls.map ModelToolCall.name
  | _ => []

/-- The tool of a choice. -/
def ToolChoice.toolNames : ToolChoice → List String
  | .mode _ => []
  | .named name => [name]

/-- All names of tools in a request. -/
def NativeRequest.toolNames (input : NativeRequest) : List String :=
  input.tools.map ModelToolDefinition.name ++ input.messages.flatMap NativeMessage.toolNames ++
    input.toolChoice.toList.flatMap ToolChoice.toolNames

/-- How a message is written with wire names. -/
def Written (wire : String → String) (model : String) : NativeMessage → JsonValue → Prop
  | .system content, body =>
    body = .object [("role", .string "system"), ("content", .string content)]
  | .user content, body => body = .object [("role", .string "user"), ("content", .string content)]
  | .parts texts, body =>
    body = .object [("role", .string "user"), ("content", .string ("\n".intercalate texts))]
  | .tool callId content, body =>
    body = .object [("role", .string "tool"), ("tool_call_id", .string callId),
      ("content", .string (answerText content))]
  | .assistant content toolCalls continuation, body =>
    ∃ reasoning, replayed model continuation = .ok reasoning ∧
      body = assistantBody content (toolCalls.map fun call => callBody call (wire call.name)) reasoning

/-- A choice, with the tool under its name for the provider. -/
def wireChoice (wire : String → String) (thinking : Bool) : ToolChoice → JsonValue
  | .mode mode => choiceBody thinking "" (.mode mode)
  | .named name => choiceBody thinking (wire name) (.named name)

section Encoding

variable {sha256 : String → String} {model : String} {thinking : Bool}

/-- A list whose items are images is the image of the list. -/
theorem forall₂_eq_map {α β : Type} {g : α → β} {l : List α} {r : List β}
    (h : List.Forall₂ (fun a b => b = g a) l r) : r = l.map g := by
  induction h with
  | nil => rfl
  | cons hab _ ih => rw [hab, ih, List.map_cons]

/-- A weaker description holds too. -/
theorem Meets.mono {α : Type} {x : Encode α} {P Q : α → Prop} {names more : List String}
    (h : Meets sha256 x P names) (hresult : ∀ a, P a → Q a) (hnames : ∀ n ∈ more, n ∈ names) :
    Meets sha256 x Q more := by
  intro t a t' hsound hrun
  obtain ⟨ha, hsound', hkept, hmet⟩ := h t a t' hsound hrun
  exact ⟨hresult a ha, hsound', hkept, fun n hn => hmet n (hnames n hn)⟩

/-- A call is encoded under its name for the provider. -/
theorem meets_encodeCall (call : ModelToolCall) :
    Meets sha256 (encodeCall sha256 call)
      (fun body => body = callBody call (wireName sha256 call.name)) [call.name] := by
  refine (meets_aliasFor call.name).bind fun name hname => ?_
  rw [hname]
  exact Meets.pure rfl

/-- A tool is encoded under its name for the provider. -/
theorem meets_encodeTool (tool : ModelToolDefinition) :
    Meets sha256 (encodeTool sha256 tool)
      (fun body => body = toolBody tool (wireName sha256 tool.name)) [tool.name] := by
  refine (meets_aliasFor tool.name).bind fun name hname => ?_
  rw [hname]
  exact Meets.pure rfl

/-- A message is encoded with the names for the provider. -/
theorem meets_encodeMessage (message : NativeMessage) :
    Meets sha256 (encodeMessage sha256 model message) (Written (wireName sha256) model message)
      message.toolNames := by
  cases message with
  | system content => exact Meets.pure rfl
  | user content => exact Meets.pure rfl
  | parts texts => exact Meets.pure rfl
  | tool callId content => exact Meets.pure rfl
  | assistant content toolCalls continuation =>
    have hcalls : Meets sha256 (toolCalls.mapM (encodeCall sha256)) _ _ :=
      Meets.mapM fun call => meets_encodeCall call
    have hall := (Meets.lift (require (toolCalls.map ModelToolCall.id).Nodup
      (invalidRequest "同一回复的工具调用 ID 不能重复。"))).bind fun _ _ =>
        hcalls.bind fun calls hcalls => (Meets.lift (replayed model continuation)).bind
          fun reasoning hreasoning => Meets.pure (P := Written (wireName sha256) model
            (.assistant content toolCalls continuation)) ⟨reasoning, hreasoning, by
              rw [forall₂_eq_map hcalls]⟩
    refine hall.mono (fun _ hbody => hbody) ?_
    intro n hn
    obtain ⟨call, hcall, rfl⟩ := List.mem_map.mp hn
    simp only [List.nil_append, List.append_nil, List.mem_flatMap, List.mem_singleton]
    exact ⟨call, hcall, rfl⟩

/-- A choice is encoded with the name for the provider. -/
theorem meets_encodeChoice (choice : Option ToolChoice) :
    Meets sha256 (encodeChoice sha256 thinking choice)
      (fun body => body = choice.map (wireChoice (wireName sha256) thinking))
      (choice.toList.flatMap ToolChoice.toolNames) := by
  cases choice with
  | none => exact Meets.pure rfl
  | some choice =>
    cases choice with
    | mode mode => exact Meets.pure rfl
    | named name =>
      refine (meets_aliasFor name).bind fun encoded hencoded => ?_
      rw [hencoded]
      exact Meets.pure rfl

/-- The body of a request has the wire name of a tool wherever it has the tool. -/
def BodyOf (wire : String → String) (model : String) (thinking : Bool) (input : NativeRequest)
    (body : JsonValue) : Prop :=
  ∃ messages, List.Forall₂ (Written wire model) input.messages messages ∧
    body = requestBody model input messages
      (input.tools.map fun tool => toolBody tool (wire tool.name))
      (input.toolChoice.map (wireChoice wire thinking))

/-- A request is encoded with the names for the provider. -/
theorem meets_encodeInput (input : NativeRequest) :
    Meets sha256 (encodeInput sha256 model thinking input)
      (BodyOf (wireName sha256) model thinking input) input.toolNames := by
  unfold encodeInput
  have hnames : Meets sha256 ((input.tools.map ModelToolDefinition.name).mapM (aliasFor sha256)) _ _ :=
    Meets.mapM meets_aliasFor
  have hmessages : Meets sha256 (input.messages.mapM (encodeMessage sha256 model)) _ _ :=
    Meets.mapM meets_encodeMessage
  have htools : Meets sha256 (input.tools.mapM (encodeTool sha256)) _ _ := Meets.mapM meets_encodeTool
  have hchoice : Meets sha256 (encodeChoice sha256 thinking input.toolChoice) _ _ :=
    meets_encodeChoice input.toolChoice
  refine Meets.mono ((Meets.lift _).bind fun _ _ => hnames.bind fun _ _ => (Meets.lift _).bind
    fun _ _ => hmessages.bind fun messages hmessages => htools.bind fun tools htools =>
      hchoice.bind fun choice hchoice => Meets.pure ?_) (fun _ hbody => hbody) ?_
  · exact ⟨messages, hmessages, by rw [forall₂_eq_map htools, hchoice]⟩
  · intro n hn
    unfold NativeRequest.toolNames at hn
    simp only [List.mem_append, List.mem_flatMap, List.mem_map, List.mem_singleton,
      List.not_mem_nil, false_or, or_false] at hn ⊢
    rcases hn with (⟨tool, htool, rfl⟩ | hmessage) | hchoice
    · exact Or.inl ⟨_, ⟨tool, htool, rfl⟩, rfl⟩
    · exact Or.inr (Or.inl hmessage)
    · exact Or.inr (Or.inr (Or.inr hchoice))

end Encoding

/-! ## Decoding -/

section Decoding

variable {numbers : List Char → Option String} {originals : List (String × String)}

/-- What a call is decoded to. -/
structure Decodes (numbers : List Char → Option String) (originals : List (String × String))
    (call : NativeCall) (decoded : ModelToolCall) : Prop where
  id : decoded.id = call.id
  name : decoded.name = (mapGet originals call.name).getD call.name
  arguments : ∃ ps, parse numbers call.arguments.toList = some (.object ps) ∧
    decoded.arguments = jsonSchema (.object ps)

/-- A call is decoded exactly into what it stands for. -/
theorem decodeCall_eq_ok {call : NativeCall} {decoded : ModelToolCall} :
    decodeCall numbers originals call = .ok decoded ↔ Decodes numbers originals call decoded := by
  unfold decodeCall
  constructor
  · intro h
    cases hparse : parse numbers call.arguments.toList with
    | none =>
      rw [hparse] at h
      cases h
    | some value =>
      rw [hparse] at h
      cases value with
      | object ps =>
        cases h
        exact ⟨rfl, rfl, ps, hparse, rfl⟩
      | _ => cases h
  · rintro ⟨hid, hname, ps, hparse, harguments⟩
    rw [hparse]
    show Except.ok _ = _
    rw [← hid, ← hname, ← harguments]

/-- Calls are decoded if each is and their identifiers are distinct. -/
theorem decodeCalls_eq_ok {ids : List String} {calls : List NativeCall} {decoded : List ModelToolCall} :
    decodeCalls numbers originals ids calls = .ok decoded ↔
      List.Forall₂ (Decodes numbers originals) calls decoded ∧ (calls.map NativeCall.id).Nodup ∧
        ∀ call ∈ calls, call.id ∉ ids := by
  -- Along the calls, with the identifiers met so far.
  induction calls generalizing ids decoded with
  | nil =>
    constructor
    · intro h
      cases h
      exact ⟨List.Forall₂.nil, List.nodup_nil, by simp⟩
    · rintro ⟨hnil, -, -⟩
      cases hnil
      rfl
  | cons call calls ih =>
    unfold decodeCalls
    simp only [bind_eq_ok, exists_unit, require_eq_ok, decodeCall_eq_ok, pure_eq_ok, ih]
    constructor
    · -- Decoded: the identifier was free, and the later ones are different from it.
      rintro ⟨hfresh, first, hfirst, rest, ⟨hrest, hnodup, hothers⟩, rfl⟩
      refine ⟨List.Forall₂.cons hfirst hrest, ?_, ?_⟩
      · rw [List.map_cons, List.nodup_cons]
        refine ⟨?_, hnodup⟩
        intro hmem
        obtain ⟨other, hother, hid⟩ := List.mem_map.mp hmem
        apply hothers other hother
        rw [hid]
        exact List.mem_append_right _ (List.mem_singleton_self call.id)
      · intro other hother
        rcases List.mem_cons.mp hother with rfl | hother
        · exact hfresh
        · intro hmem
          exact hothers other hother (List.mem_append_left _ hmem)
    · -- Conversely no later call takes the identifier again.
      rintro ⟨hall, hnodup, hfresh⟩
      obtain ⟨first, rest, hfirst, hrest, rfl⟩ := List.forall₂_cons_left_iff.mp hall
      rw [List.map_cons, List.nodup_cons] at hnodup
      refine ⟨hfresh call List.mem_cons_self, first, hfirst, rest, ⟨hrest, hnodup.2, ?_⟩, rfl⟩
      intro other hother hmem
      rcases List.mem_append.mp hmem with hmem | hmem
      · exact hfresh other (List.mem_cons_of_mem _ hother) hmem
      · rw [List.mem_singleton] at hmem
        apply hnodup.1
        rw [← hmem]
        exact List.mem_map_of_mem hother

/-- An answer is decoded if its calls are. -/
theorem decodeDeepSeek_eq_ok {value : JsonValue} {model : String} {response : NativeResponse}
    (hresponse : responseSchema value = some response) :
    (∀ completion, decodeDeepSeek numbers originals value model = .ok completion →
      decodeCalls numbers originals [] response.toolCalls = .ok completion.toolCalls) ∧
    ∀ decoded, decodeCalls numbers originals [] response.toolCalls = .ok decoded →
      ∃ completion, decodeDeepSeek numbers originals value model = .ok completion ∧
        completion.toolCalls = decoded := by
  unfold decodeDeepSeek
  rw [hresponse]
  constructor
  · intro completion h
    obtain ⟨decoded, hdecoded, h⟩ := bind_eq_ok.mp h
    cases h
    exact hdecoded
  · intro decoded hdecoded
    dsimp only
    rw [hdecoded]
    exact ⟨_, rfl, rfl⟩

/-- A call as a response has it, under the wire name of its tool. -/
structure SentAs (numbers : List Char → Option String) (wire : String → String) (native : NativeCall)
    (call : ModelToolCall) : Prop where
  id : native.id = call.id
  name : native.name = wire call.name
  arguments : ∃ ps, call.arguments = .object ps ∧ parse numbers native.arguments.toList = some (.object ps)

/-- Calls that were sent are decoded as they were. -/
theorem decodes_of_sent {wire : String → String} {natives : List NativeCall} {calls : List ModelToolCall}
    (h : List.Forall₂ (SentAs numbers wire) natives calls)
    (hback : ∀ call ∈ calls, mapGet originals (wire call.name) = some call.name) :
    natives.map NativeCall.id = calls.map ModelToolCall.id ∧
      List.Forall₂ (Decodes numbers originals) natives
        (calls.map fun call => { call with arguments := jsonSchema call.arguments }) := by
  induction h with
  | nil => exact ⟨rfl, List.Forall₂.nil⟩
  | @cons native call natives calls hsent _ ih =>
    obtain ⟨hids, hdecodes⟩ := ih fun c hc => hback c (List.mem_cons_of_mem _ hc)
    obtain ⟨ps, harguments, hparse⟩ := hsent.arguments
    constructor
    · rw [List.map_cons, List.map_cons, hsent.id, hids]
    · refine List.Forall₂.cons ⟨hsent.id.symm, ?_, ps, hparse,
        congrArg jsonSchema harguments⟩ hdecodes
      rw [hsent.name, hback call List.mem_cons_self]
      rfl

end Decoding

/-! ## Both ways -/

/-- What is known of the names of a request that was encoded. -/
structure Translates (sha256 : String → String) (model : String) (thinking : Bool)
    (input : NativeRequest) (body : JsonValue) (originals : List (String × String)) : Prop where
  legal : ∀ name ∈ input.toolNames, isWireName (wireName sha256 name) = true
  injective : ∀ a ∈ input.toolNames, ∀ b ∈ input.toolNames,
    wireName sha256 a = wireName sha256 b → a = b
  body : BodyOf (wireName sha256) model thinking input body
  /-- The calls of a response come back under their original names, with the arguments that were parsed,
  without keys `__proto__`. -/
  decoded : ∀ numbers value model' response, responseSchema value = some response →
    ∀ calls : List ModelToolCall, (∀ call ∈ calls, call.name ∈ input.toolNames) →
      List.Forall₂ (SentAs numbers (wireName sha256)) response.toolCalls calls →
      (calls.map ModelToolCall.id).Nodup →
      ∃ completion, decodeDeepSeek numbers originals value model' = .ok completion ∧
        completion.toolCalls =
          calls.map fun call => { call with arguments := jsonSchema call.arguments }
  /-- No other response with such calls is accepted, among those whose arguments write JSON data. (Arguments
  that are `Foreign` are left out: of them, those with half of a surrogate pair are accepted.) -/
  refused : ∀ numbers value model' response completion, responseSchema value = some response →
    decodeDeepSeek numbers originals value model' = .ok completion →
      (response.toolCalls.map NativeCall.id).Nodup ∧
        ∀ native ∈ response.toolCalls, ∃ ps, parse numbers native.arguments.toList = some (.object ps)

/-- Names of tools are translated, the same way everywhere, and back. -/
theorem translates_of_encode {sha256 : String → String}
    (hhex : ∀ name, ∀ c ∈ (sha256 name).toList, isWireChar c = true) {isTemperature : String → Bool}
    {request : ModelCompletionRequest} {model : String} {thinking : Bool} {body : JsonValue}
    {originals : List (String × String)}
    (h : encodeDeepSeek sha256 isTemperature request model thinking = .ok (body, originals)) :
    ∃ input, requestSchema isTemperature request = some input ∧
      Translates sha256 model thinking input body originals := by
  unfold encodeDeepSeek at h
  cases hinput : requestSchema isTemperature request with
  | none =>
    rw [hinput] at h
    cases h
  | some input =>
    rw [hinput] at h
    obtain ⟨⟨written, table⟩, hrun, h⟩ := bind_eq_ok.mp h
    cases h
    obtain ⟨hbody, hsound, -, hmet⟩ := meets_encodeInput input _ _ _ (AliasTable.Sound.empty sha256) hrun
    -- The table of the request has the name back for every name it has sent.
    have hback : ∀ name ∈ input.toolNames, mapGet table.originals (wireName sha256 name) = some name :=
      fun name hname => hsound.get (hmet name hname)
    refine ⟨input, rfl, fun name _ => isWireName_wireName hhex name, ?_, hbody, ?_, ?_⟩
    · -- Two names with the same wire name have the same original.
      intro a ha b hb hsame
      have hget := hback a ha
      rw [hsame, hback b hb] at hget
      exact (Option.some.inj hget).symm
    · -- An answer that uses names of the request decodes.
      intro numbers value model' response hresponse calls hnames hcalls hnodup
      obtain ⟨-, hdecode⟩ := @decodeDeepSeek_eq_ok numbers table.originals value model' response hresponse
      apply hdecode
      rw [decodeCalls_eq_ok]
      obtain ⟨hids, hdecodes⟩ := decodes_of_sent hcalls fun call hcall => hback call.name (hnames call hcall)
      refine ⟨hdecodes, ?_, by simp⟩
      rw [hids]
      exact hnodup
    · -- What decodes was a call each, with different identities.
      intro numbers value model' response completion hresponse hdecode
      obtain ⟨hcalls, -⟩ := @decodeDeepSeek_eq_ok numbers table.originals value model' response hresponse
      obtain ⟨hall, hnodup, -⟩ := decodeCalls_eq_ok.mp (hcalls completion hdecode)
      refine ⟨hnodup, ?_⟩
      intro native hnative
      obtain ⟨decoded, -, hdecodes⟩ := exists_right_of_mem hall hnative
      obtain ⟨ps, hparse, -⟩ := hdecodes.arguments
      exact ⟨ps, hparse⟩

/-! ## A tool whose name is not legal -/

/-- A digest of the name `file.read`. -/
def fileReadDigest (name : String) : String :=
  if name = "file.read" then "c978089e2b8a738358becf81dea9478df41348a7a6214ad5047f433744cece9f"
  else ""

/-- The digest has characters of names alone. -/
theorem isWireChar_fileReadDigest (name : String) :
    ∀ c ∈ (fileReadDigest name).toList, isWireChar c = true := by
  unfold fileReadDigest
  split_ifs
  · exact List.forall_iff_forall_mem.mp (by decide)
  · exact List.forall_iff_forall_mem.mp (by decide)

/-- A request with a tool and a call of it. -/
def fileReadRequest : ModelCompletionRequest where
  messages :=
    [.user "read it", .assistant "" [⟨"call", "file.read", .object []⟩] none, .tool "call" (.string "done")]
  tools := some [⟨"file.read", "reads a file", .object []⟩]

/-- The request is encoded. -/
theorem isOk_fileReadRequest :
    (encodeDeepSeek fileReadDigest (fun _ => true) fileReadRequest "m" false).isOk = true := by
  decide +kernel

/-- A request with a tool is translated. -/
theorem translates_fileRead : ∃ body originals input,
    encodeDeepSeek fileReadDigest (fun _ => true) fileReadRequest "m" false = .ok (body, originals) ∧
      requestSchema (fun _ => true) fileReadRequest = some input ∧
      Translates fileReadDigest "m" false input body originals := by
  have hok := isOk_fileReadRequest
  cases h : encodeDeepSeek fileReadDigest (fun _ => true) fileReadRequest "m" false with
  | error e =>
    rw [h] at hok
    cases hok
  | ok r =>
    obtain ⟨input, hinput, htranslates⟩ := translates_of_encode isWireChar_fileReadDigest h
    exact ⟨r.1, r.2, input, rfl, hinput, htranslates⟩

/-- A response with a call that has a key `__proto__`. -/
def protoResponse : JsonValue :=
  .object [("choices", .array [.object [("message", .object [("tool_calls", .array [.object
    [("id", .string "call"), ("function", .object [("name", .string "read"),
      ("arguments", .string "\x7b\"__proto__\":1\x7d")])]])])]])]

/-- A request with the tool that the response calls. -/
def readRequest : ModelCompletionRequest where
  messages := [.user "read it"]
  tools := some [⟨"read", "reads a file", .object []⟩]

/-- The key is not in the arguments that come back, though it is in what was parsed. -/
theorem not_parsed_arguments :
    (encodeDeepSeek fileReadDigest (fun _ => true) readRequest "m" false).toOption.map Prod.snd =
      some [("read", "read")] ∧
    (decodeDeepSeek (fun text => some (String.ofList text)) [("read", "read")] protoResponse "m").toOption.map
        (fun completion => completion.toolCalls.map fun call => String.ofList (stringify call.arguments)) =
      some ["\x7b\x7d"] ∧
    (parse (fun text => some (String.ofList text)) "\x7b\"__proto__\":1\x7d".toList).map
        (fun value => String.ofList (stringify value)) = some "\x7b\"__proto__\":1\x7d" := by
  refine ⟨?_, ?_, ?_⟩
  · decide +kernel
  · decide +kernel
  · decide +kernel

end OsAgent.ModelRequester
