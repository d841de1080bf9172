import OsAgent.Library.JsonText
import OsAgent.Model.StructuredResponse

/-!
# The texts of answers

A model may put white space around the JSON of its answer, and a code fence. What is stripped is exactly that, so
every answer that the request allows is read from every such text, and nothing else is accepted as an answer.
-/

namespace OsAgent.Model

open OsAgent.Library

/-! ## Stripping -/

/-- White space, as `trim` takes it away. -/
def White (text : List Char) : Prop := ∀ c ∈ text, isTrimmed c = true

instance (text : List Char) : Decidable (White text) := List.decidableBAll _ text

/-- White space before a text is dropped. -/
theorem dropWhile_white {text : List Char} (h : White text) (rest : List Char) :
    (text ++ rest).dropWhile isTrimmed = rest.dropWhile isTrimmed := by
  induction text with
  | nil => rfl
  | cons c text ih =>
    obtain ⟨hc, htext⟩ := List.forall_mem_cons.mp h
    rw [List.cons_append, List.dropWhile_cons_of_pos hc, ih htext]

/-- White space after a text is dropped. -/
theorem rdropWhile_white {text : List Char} (h : White text) (rest : List Char) :
    (rest ++ text).rdropWhile isTrimmed = rest.rdropWhile isTrimmed := by
  have hreverse : White text.reverse := fun c hc => h c (List.mem_reverse.mp hc)
  unfold List.rdropWhile
  rw [List.reverse_append, dropWhile_white hreverse]

/-- A text that begins and ends with these characters. -/
structure Between (first last : Char) (text : List Char) : Prop where
  head : ∃ rest, text = first :: rest
  tail : ∃ rest, text = rest ++ [last]

variable {first last : Char} {body before after : List Char}

/-- Only the white space around a text is trimmed. -/
theorem trimText_white (hbefore : White before) (hafter : White after) (hbody : Between first last body)
    (hfirst : isTrimmed first = false) (hlast : isTrimmed last = false) :
    trimText (before ++ body ++ after) = body := by
  obtain ⟨rest, hhead⟩ := hbody.head
  obtain ⟨front, htail⟩ := hbody.tail
  have hdrop : (body ++ after).dropWhile isTrimmed = body ++ after := by
    rw [hhead, List.cons_append, List.dropWhile_cons_of_neg (by simp [hfirst])]
  have hrdrop : body.rdropWhile isTrimmed = body := by
    rw [htail, List.rdropWhile_concat_neg _ _ _ (by simp [hlast])]
  unfold trimText
  rw [List.append_assoc, dropWhile_white hbefore, hdrop, rdropWhile_white hafter, hrdrop]

/-- An object is written between braces. -/
theorem between_object {ps : List (String × JsonValue)} :
    Between '\x7b' '\x7d' (stringify (.object ps)) := by
  rw [← objectText_stringify]
  exact ⟨⟨_, rfl⟩, ⟨_ :: _, rfl⟩⟩

/-! ## Fences -/

/-- The label of a fence, which may be missing. -/
def Label (text : List Char) : Prop := text = [] ∨ isJsonLabel text = true

/-- The label of a fence has four characters. -/
theorem length_of_isJsonLabel {text : List Char} (h : isJsonLabel text = true) : text.length = 4 := by
  unfold isJsonLabel at h
  split at h
  · rfl
  · cases h

/-- A label begins with a letter. -/
theorem not_isJsonLabel_cons {c : Char} {text : List Char} (hlower : c ≠ 'j') (hupper : c ≠ 'J') :
    isJsonLabel (c :: text) = false := by
  unfold isJsonLabel
  split
  · next j s o n heq =>
    obtain ⟨rfl, -⟩ := List.cons.inj heq
    simp [hlower, hupper]
  · rfl

/-- What is between the fences. -/
def fencedText (label inside : List Char) : List Char := fence ++ (label ++ inside ++ fence)

/-- A fenced text is between fences. -/
theorem between_fencedText (label inside : List Char) :
    Between '\x60' '\x60' (fencedText label inside) :=
  ⟨⟨_, rfl⟩, ⟨fence ++ (label ++ inside ++ ['\x60', '\x60']), by simp [fencedText, fence]⟩⟩

/-- The inside of a fence that does not begin like a label is what is left after the label. -/
theorem fenced?_fencedText {label inside : List Char} {c : Char} (hlabel : Label label)
    (hinside : inside.head? = some c) (hlower : c ≠ 'j') (hupper : c ≠ 'J') :
    fenced? (fencedText label inside) = some (trimText inside) := by
  have hskip : (if isJsonLabel ((label ++ inside ++ fence).take 4) = true then
      (label ++ inside ++ fence).drop 4 else label ++ inside ++ fence) = inside ++ fence := by
    rcases hlabel with rfl | hjson
    · obtain ⟨rest, rfl⟩ : ∃ rest, inside = c :: rest := List.head?_eq_some_iff.mp hinside
      rw [List.nil_append, List.cons_append, List.take_succ_cons, not_isJsonLabel_cons hlower hupper,
        if_neg (by simp)]
    · have hlength := length_of_isJsonLabel hjson
      rw [List.append_assoc, List.take_left' hlength, if_pos hjson, List.drop_left' hlength]
  have hprefix : fence.isPrefixOf (fencedText label inside) = true :=
    List.isPrefixOf_iff_prefix.mpr (List.prefix_append _ _)
  have hsuffix : fence.isSuffixOf (inside ++ fence) = true :=
    List.isSuffixOf_iff_suffix.mpr (List.suffix_append _ _)
  have hdrop : (fencedText label inside).drop 3 = label ++ inside ++ fence := rfl
  have htake : (inside ++ fence).take ((inside ++ fence).length - 3) = inside := by
    rw [List.length_append, show fence.length = 3 from rfl, Nat.add_sub_cancel, List.take_left' rfl]
  unfold fenced?
  rw [if_pos hprefix]
  dsimp only
  rw [hdrop, hskip, if_pos hsuffix, htake]

/-- A text that begins with another character is not fenced. -/
theorem fenced?_eq_none {c : Char} {rest : List Char} (h : c ≠ '\x60') : fenced? (c :: rest) = none := by
  unfold fenced?
  rw [if_neg]
  unfold fence
  simp [h.symm]

/-- How a model may send the text of an object. -/
inductive Sent (body : List Char) : List Char → Prop
  | plain {before after : List Char} (hbefore : White before) (hafter : White after) :
      Sent body (before ++ body ++ after)
  | fenced {before after label inner outer : List Char} (hbefore : White before) (hafter : White after)
      (hlabel : Label label) (hinner : White inner) (houter : White outer) :
      Sent body (before ++ fencedText label (inner ++ body ++ outer) ++ after)

/-- What is inside the fence of a sent text is found. -/
theorem stripCodeFence_sent {text : List Char} (hbody : Between '\x7b' '\x7d' body) (h : Sent body text) :
    stripCodeFence text = body := by
  unfold stripCodeFence
  cases h with
  | plain hbefore hafter =>
    obtain ⟨rest, hhead⟩ := hbody.head
    have hnone : fenced? body = none := by
      rw [hhead]
      exact fenced?_eq_none (by decide)
    dsimp only
    rw [trimText_white hbefore hafter hbody (by decide) (by decide), hnone]
    rfl
  | @fenced before after label inner outer hbefore hafter hlabel hinner houter =>
    have htrimmed := trimText_white hbefore hafter (between_fencedText label (inner ++ body ++ outer))
      (by decide) (by decide)
    have hinside := trimText_white hinner houter hbody (by decide) (by decide)
    -- The inside begins with white space or with the brace.
    obtain ⟨c, hc, hlower, hupper⟩ : ∃ c, (inner ++ body ++ outer).head? = some c ∧ c ≠ 'j' ∧ c ≠ 'J' := by
      obtain ⟨rest, hhead⟩ := hbody.head
      cases inner with
      | nil => exact ⟨'\x7b', by simp [hhead], by decide, by decide⟩
      | cons c inner =>
        have hwhite : isTrimmed c = true := hinner c List.mem_cons_self
        refine ⟨c, rfl, ?_, ?_⟩
        · rintro rfl
          exact absurd hwhite (by decide)
        · rintro rfl
          exact absurd hwhite (by decide)
    dsimp only
    rw [htrimmed, fenced?_fencedText hlabel hc hlower hupper, hinside]
    rfl

/-! ## Answers -/

section Answers

variable {numbers : List Char → Option String} {Usage : Type} {text : String} {request : ModelRequest}
  {usage : Usage} {response : ModelResponse Usage}

/-- An answer that is read from a text is valid for its request. -/
theorem valid_of_parseStructuredAgentResponse
    (h : parseStructuredAgentResponse numbers text request usage = some (.ok response)) :
    response.action.Valid request ∧ response.usage = usage := by
  unfold parseStructuredAgentResponse at h
  dsimp only at h
  split at h
  · exact valid_of_parseEnvelope (Option.some.inj h)
  · split_ifs at h
    cases h

/-- An answer is read from any text in which it may be sent. -/
theorem parseStructuredAgentResponse_sent (hvalid : response.action.Valid request)
    (hreadable : response.toJson.Readable numbers) (h : Sent (stringify response.toJson) text.toList) :
    parseStructuredAgentResponse numbers text request response.usage = some (.ok response) := by
  have hstrip : stripCodeFence text.toList = stringify response.toJson :=
    stripCodeFence_sent between_object h
  unfold parseStructuredAgentResponse
  dsimp only
  rw [hstrip, parse_stringify hreadable]
  exact congrArg some (parseEnvelope_toJson hvalid)

/-- A model is heard exactly: an answer that the request allows is read from every text that sends it, and an
answer that the request does not allow is read from no text. Texts that write what is no JSON data are left
out, with their answers: half of a surrogate pair, or a numeral that is too large for a number. -/
theorem answers_heard (numbers : List Char → Option String) (request : ModelRequest)
    (response : ModelResponse Usage) (hreadable : response.toJson.Readable numbers) :
    (response.action.Valid request → ∀ text : String, Sent (stringify response.toJson) text.toList →
      parseStructuredAgentResponse numbers text request response.usage = some (.ok response)) ∧
    (¬ response.action.Valid request → ∀ (text : String) (usage : Usage),
      parseStructuredAgentResponse numbers text request usage ≠ some (.ok response)) := by
  constructor
  · intro hvalid text hsent
    exact parseStructuredAgentResponse_sent hvalid hreadable hsent
  · intro hinvalid text usage hread
    exact hinvalid (valid_of_parseStructuredAgentResponse hread).1

end Answers

/-! A request that lets the model delegate, and an answer that delegates. -/

/-- A request that allows subagents. -/
def delegating : ModelRequest where
  context := []
  canSpawnSubagents := true

/-- A child that may read below a directory. -/
def scouting : SubagentSpawnRequest where
  goal := "look"
  character := some "scout"
  capabilities := none
  requestedCapabilities := some [{ capability := "fs.read", scope := .subtree "/a" }]
  maxModelAttempts := some "3"
  maxCostUsd := none

/-- An answer that sends a child. -/
def delegated : ModelResponse Unit where
  action := .spawnSubagents [scouting]
  turnSummary := { request := "q", outcome := "o" }
  usage := ()

/-- The answer in a fence, in the order of a model. -/
def delegatedText : String :=
  " \x60\x60\x60JSON\n\x7b\"action\":\"spawn_subagents\",\"turnSummary\":\x7b\"request\":\"q\",\"outcome\":\"o\"\x7d," ++
    "\"children\":[\x7b\"goal\":\"look\",\"character\":\"scout\",\"requestedCapabilities\":[" ++
    "\x7b\"capability\":\"fs.read\",\"scope\":\x7b\"kind\":\"subtree\",\"resource\":\"/a\"\x7d\x7d]," ++
    "\"maxModelAttempts\":3\x7d]\x7d\n\x60\x60\x60"

/-- The text is one in which the answer may be sent. -/
theorem delegated_sent : Sent (stringify delegated.toJson) delegatedText.toList := by
  have hwritten : delegatedText.toList = [' '] ++ fencedText ['J', 'S', 'O', 'N']
      (['\n'] ++ stringify delegated.toJson ++ ['\n']) ++ [] := by
    decide +kernel
  rw [hwritten]
  exact .fenced (by decide) (by decide) (.inr (by decide)) (by decide) (by decide)

/-- The answer is readable. -/
theorem delegated_readable :
    delegated.toJson.Readable fun literal => some (String.ofList literal) := by
  have htext : ∀ s, (JsonValue.string s).Readable fun literal => some (String.ofList literal) := .string
  have hscope : (writeScope (.subtree "/a")).Readable fun literal => some (String.ofList literal) :=
    readable_members (by decide) (by simp [htext])
  have hrequest : (writeCapabilityRequest { capability := "fs.read", scope := .subtree "/a" }).Readable
      fun literal => some (String.ofList literal) :=
    readable_members (by decide) (by simp [htext, hscope])
  have hnumber : (JsonValue.number "3").Readable fun literal => some (String.ofList literal) :=
    .number (List.all_eq_true.mp (by decide)) (by decide) (by decide)
  have hchild : (writeChild scouting).Readable fun literal => some (String.ofList literal) := by
    apply readable_members (by decide)
    have hrequests := JsonValue.Readable.array (List.forall_mem_singleton.mpr hrequest)
    simp [scouting, htext, hnumber, Format.nonempty, capabilityRequests, hrequests]
  have hchildren := JsonValue.Readable.array (List.forall_mem_singleton.mpr hchild)
  have hsummary : (JsonValue.object (members [("request", some (.string "q")),
      ("outcome", some (.string "o"))])).Readable fun literal => some (String.ofList literal) :=
    readable_members (by decide) (by simp [htext])
  apply readable_members (by decide)
  simp [delegated, ModelAction.encode, htext, hsummary, Format.nonempty, children, hchildren]

/-- The child is valid. -/
theorem scouting_valid : scouting.Valid where
  requested requests hmem := by
    cases hmem
    exact List.cons_ne_nil _ _
  attempts literal hmem := by
    cases hmem
    exact ⟨by decide, by decide, by decide⟩
  cost literal hmem := by cases hmem

/-- The answer is read from its text. -/
theorem answers_heard_delegated :
    parseStructuredAgentResponse (fun literal => some (String.ofList literal)) delegatedText delegating () =
      some (.ok delegated) :=
  (answers_heard _ delegating delegated delegated_readable).1
    ⟨rfl, List.cons_ne_nil _ _, List.forall_mem_singleton.mpr scouting_valid⟩
    delegatedText delegated_sent

end OsAgent.Model
