import OsAgent.AgentContext.Records
import OsAgent.AgentContext.References
import OsAgent.AgentRound.SummaryRequests

/-!
# Aliases of references

The request shows a reference as the alias of the last place at which it is in the list, and an alias stands
for the reference at its place, so the alias of a reference is read as that reference (`restoreRef_encode`),
also if another reference looks like it. So a summary comes back as it is (`parseSummary_restores`).
-/

namespace OsAgent.AgentRound

open OsAgent.Library OsAgent.Context OsAgent.AgentRuntime

/-! ## One reference -/

section References

variable {allowedRefs : List String} {ref : String} {index : ℕ}

/-- Aliases of different positions are different. -/
theorem aliasOf_injective {i j : ℕ} (h : aliasOf i = aliasOf j) : i = j := by
  unfold aliasOf at h
  have hlist := congrArg String.toList h
  rw [String.toList_append, String.toList_append] at hlist
  exact toString_inj (String.toList_injective (List.append_cancel_left hlist))

/-- An alias stands for the reference at its place. -/
theorem decodeRefs_aliasOf (h : allowedRefs[index]? = some ref) :
    decodeRefs allowedRefs (aliasOf index) = some ref := by
  obtain ⟨found, hfound⟩ : ∃ found, decodeRefs allowedRefs (aliasOf index) = some found := by
    apply exists_mapGet
    exact List.mem_map.mpr ⟨(ref, index), List.mem_zipIdx_iff_getElem?.mpr h, rfl⟩
  rw [hfound]
  obtain ⟨⟨r, i⟩, hmem, hsame⟩ := List.mem_map.mp (mapGet_eq_some hfound)
  simp only [Prod.mk.injEq] at hsame
  obtain ⟨halias, rfl⟩ := hsame
  obtain rfl := aliasOf_injective halias
  have hget := List.mem_zipIdx_iff_getElem?.mp hmem
  rw [h] at hget
  exact hget.symm

/-- The alias of a reference is that of a place at which the reference is. -/
theorem encodeRefs_of_mem (h : ref ∈ allowedRefs) :
    ∃ index, encodeRefs allowedRefs ref = some (aliasOf index) ∧ allowedRefs[index]? = some ref := by
  obtain ⟨i, hi⟩ := List.mem_iff_getElem?.mp h
  obtain ⟨found, hfound⟩ : ∃ found, encodeRefs allowedRefs ref = some found := by
    apply exists_mapGet
    exact List.mem_map.mpr ⟨(ref, i), List.mem_zipIdx_iff_getElem?.mpr hi, rfl⟩
  obtain ⟨⟨r, j⟩, hmem, hsame⟩ := List.mem_map.mp (mapGet_eq_some hfound)
  simp only [Prod.mk.injEq] at hsame
  obtain ⟨rfl, rfl⟩ := hsame
  exact ⟨j, hfound, List.mem_zipIdx_iff_getElem?.mp hmem⟩

/-- The alias of a reference is read as the reference. -/
theorem restoreRef_encode (h : ref ∈ allowedRefs) (hne : ref ≠ "") :
    restoreRef allowedRefs (encodeRef allowedRefs ref) = .ok ref := by
  obtain ⟨index, hencode, hget⟩ := encodeRefs_of_mem h
  unfold restoreRef encodeRef
  rw [hencode, Option.getD_some, decodeRefs_aliasOf hget, Option.filter_some, decide_eq_true hne]
  rfl

/-- An alias is not blank. -/
theorem isBlank_aliasOf (index : ℕ) : isBlank (aliasOf index) = false := by
  unfold isBlank aliasOf
  rw [String.toList_append, List.all_append]
  rfl

/-- A reference that is allowed is encoded as what is not blank. -/
theorem isBlank_encodeRef (h : ref ∈ allowedRefs) : isBlank (encodeRef allowedRefs ref) = false := by
  obtain ⟨index, hencode, -⟩ := encodeRefs_of_mem h
  unfold encodeRef
  rw [hencode]
  exact isBlank_aliasOf index

/-- References that were encoded are restored. -/
theorem restoreRefs_encode {refs : List String} (h : ∀ ref ∈ refs, ref ∈ allowedRefs ∧ ref ≠ "") :
    restoreRefs allowedRefs (refs.map (encodeRef allowedRefs)) = .ok refs := by
  unfold restoreRefs
  rw [mapM_eq_ok, List.forall₂_map_left_iff, List.forall₂_same]
  intro ref href
  exact restoreRef_encode (h ref href).1 (h ref href).2

/-- A list of texts with each of them replaced. -/
theorem replaceStrings_strings (f : String → String) (l : List String) :
    replaceStrings f (.strings l) = .strings (l.map f) := by
  have hitems : replaceItems f (l.map .string) = (l.map f).map .string := by
    induction l with
    | nil => rfl
    | cons x l ih =>
      rw [List.map_cons, replaceItems, ih]
      rfl
  exact congrArg JsonValue.array hitems

/-- A property of data with its texts replaced. -/
theorem get?_replaceStrings (f : String → String) (name : String) (value : JsonValue) :
    (replaceStrings f value).get? name = (value.get? name).map (replaceStrings f) := by
  cases value with
  | object properties =>
    show ((replaceProperties f properties).find? fun p => p.1 = name).map Prod.snd =
      ((properties.find? fun p => p.1 = name).map Prod.snd).map (replaceStrings f)
    induction properties with
    | nil => rfl
    | cons p properties ih =>
      rw [replaceProperties, List.find?_cons, List.find?_cons]
      by_cases hname : p.1 = name
      · simp [hname]
      · simp [hname, ih]
  | _ => rfl

/-- The allowed references are in what is sent. -/
theorem get?_summaryContent (pending : PendingContextSummary) (capacity : SummaryCapacity)
    (frame : JsonValue) :
    (summaryContent pending capacity frame).get? "allowedRefs" = some (.strings pending.allowedRefs) := by
  unfold summaryContent
  cases frame.get? "objective" with
  | none => rfl
  | some objective => rfl

/-- The request shows the aliases of the allowed references. -/
theorem shown_of_summaryRequest {parameters : JsonValue} {checkpoint : ContextCheckpoint}
    {maxOutputTokens : ℕ} {request : ModelCompletionRequest}
    (h : summaryRequest parameters checkpoint maxOutputTokens = .ok request) :
    ∃ pending shown, checkpoint.pendingSummary = some pending ∧
      request.messages.getLast? = some (.user (String.ofList (stringify shown))) ∧
        shown.get? "allowedRefs" =
          some (.strings (pending.allowedRefs.map (encodeRef pending.allowedRefs))) := by
  unfold summaryRequest at h
  obtain ⟨pending, hpending, h⟩ := bind_eq_ok.mp h
  obtain ⟨view, -, h⟩ := bind_eq_ok.mp h
  obtain ⟨capacity, -, h⟩ := bind_eq_ok.mp h
  obtain ⟨_, -, h⟩ := bind_eq_ok.mp h
  cases h
  refine ⟨pending, _, requirePresent_eq_ok.mp hpending, rfl, ?_⟩
  rw [get?_replaceStrings, get?_summaryContent, Option.map_some, replaceStrings_strings]

end References

/-! ## Summaries -/

/-- A summary with its references replaced. -/
def mapRefs (f : String → String) (summary : ContextSummary) : ContextSummary :=
  { summary with
    sourceRefs := summary.sourceRefs.map f
    artifactRefs := summary.artifactRefs.map f
    observations := summary.observations.map fun item => { item with sourceRefs := item.sourceRefs.map f }
    lessonCandidates :=
      summary.lessonCandidates.map fun item => { item with sourceRefs := item.sourceRefs.map f } }

/-- The texts of a summary are not empty. -/
structure Filled (summary : ContextSummary) : Prop where
  outcome : summary.outcome ≠ ""
  decisions : ∀ x ∈ summary.decisions, x ≠ ""
  artifactRefs : ∀ x ∈ summary.artifactRefs, x ≠ ""
  unresolved : ∀ x ∈ summary.unresolved, x ≠ ""
  nextResponsibilities : ∀ x ∈ summary.nextResponsibilities, x ≠ ""
  sourceRefs : ∀ x ∈ summary.sourceRefs, x ≠ ""
  observations : ∀ o ∈ summary.observations, o.statement ≠ "" ∧ ∀ x ∈ o.sourceRefs, x ≠ ""
  lessonCandidates : ∀ l ∈ summary.lessonCandidates,
    l.statement ≠ "" ∧ l.scope ≠ "" ∧ ∀ x ∈ l.sourceRefs, x ≠ ""

section Summaries

variable {allowedRefs : List String} {summary : ContextSummary}

/-- A text that passes its check is not empty. -/
theorem ne_empty_of_text {s : String} (h : text s = .ok ()) : s ≠ "" := by
  rintro rfl
  rw [text, requireContext_eq_ok] at h
  cases h

/-- Texts that pass their checks are not empty. -/
theorem ne_empty_of_strings {l : List String} (h : strings l = .ok ()) : ∀ x ∈ l, x ≠ "" := by
  intro x hx
  exact ne_empty_of_text (forM_eq_ok.mp h x hx)

/-- References that pass their checks are not empty. -/
theorem ne_empty_of_checkRefs {allowed : Option (List String)} {l : List String}
    (h : checkRefs allowed l = .ok ()) : ∀ x ∈ l, x ≠ "" := by
  unfold checkRefs at h
  obtain ⟨_, hstrings, -⟩ := bind_eq_ok.mp h
  exact ne_empty_of_strings hstrings

/-- What a valid summary says is not empty. -/
theorem filled_of_validateSummary {allowed : Option (List String)}
    (h : validateSummary summary allowed = .ok ()) : Filled summary := by
  simp only [validateSummary, bind_eq_ok, exists_unit, forM_eq_ok, validateObservation,
    validateLesson] at h
  obtain ⟨houtcome, hdecisions, hartifacts, hunresolved, hnext, hsources, -, -, hobs, hles⟩ := h
  refine ⟨ne_empty_of_text houtcome, ne_empty_of_strings hdecisions, ne_empty_of_strings hartifacts,
    ne_empty_of_strings hunresolved, ne_empty_of_strings hnext, ne_empty_of_strings hsources, ?_, ?_⟩
  · intro o ho
    exact ⟨ne_empty_of_text (hobs o ho).1, ne_empty_of_checkRefs (hobs o ho).2.1⟩
  · intro l hl
    exact ⟨ne_empty_of_text (hles l hl).1, ne_empty_of_text (hles l hl).2.1,
      ne_empty_of_checkRefs (hles l hl).2.2⟩

/-- Texts that are not empty are read from their array. -/
theorem arrayOf_strings {l : List String} (h : ∀ x ∈ l, x ≠ "") :
    arrayOf nonemptyText (.strings l) = some l := by
  have hread := arrayOf_map (f := id) fun x hx => nonemptyText_string (h x hx)
  rw [List.map_id] at hread
  exact hread

/-- An observation is read as it was written. -/
theorem observationSchema_toJson {o : ContextObservation}
    (h : o.statement ≠ "" ∧ ∀ x ∈ o.sourceRefs, x ≠ "") : observationSchema o.toJson = some o := by
  have hkind : observationKind o.kind.toJson = some o.kind := by
    cases o.kind <;> rfl
  simp [observationSchema, ContextObservation.toJson, strictObject, field, JsonValue.get?, hkind, h.1,
    arrayOf_strings h.2]

/-- A lesson is read as it was written. -/
theorem lessonSchema_toJson {l : ContextLesson}
    (h : l.statement ≠ "" ∧ l.scope ≠ "" ∧ ∀ x ∈ l.sourceRefs, x ≠ "") :
    lessonSchema l.toJson = some l := by
  simp [lessonSchema, ContextLesson.toJson, strictObject, field, JsonValue.get?, h.1, h.2.1,
    arrayOf_strings h.2.2]

/-- A list is read as it was written. -/
theorem arrayOf_jsonArray {α : Type} {item : JsonValue → Option α} {toJson : α → JsonValue} {l : List α}
    (h : ∀ a ∈ l, item (toJson a) = some a) : arrayOf item (jsonArray toJson l) = some l := by
  have hread := arrayOf_map (f := id) h
  rw [List.map_id] at hread
  exact hread

/-- A summary is read from its own JSON data. -/
theorem normalize_toJson (issues : JsonValue → String) (hfilled : Filled summary)
    (hvalid : validateSummary summary none = .ok ()) :
    normalizeModelSummary issues summary.toJson = .ok summary := by
  have hobservations := arrayOf_jsonArray fun o ho => observationSchema_toJson (hfilled.observations o ho)
  have hlessons := arrayOf_jsonArray fun l hl => lessonSchema_toJson (hfilled.lessonCandidates l hl)
  unfold ContextSummary.toJson normalizeModelSummary
  simp [withLists, optionalLists, contextSummarySchema, strictObject, field, JsonValue.get?,
    hfilled.outcome, hobservations, hlessons, arrayOf_strings hfilled.decisions,
    arrayOf_strings hfilled.artifactRefs, arrayOf_strings hfilled.unresolved,
    arrayOf_strings hfilled.nextResponsibilities, arrayOf_strings hfilled.sourceRefs, hvalid]

/-- References that were encoded pass the checks of texts. -/
theorem strings_encode {refs : List String} (h : ∀ ref ∈ refs, ref ∈ allowedRefs) :
    strings (refs.map (encodeRef allowedRefs)) = .ok () := by
  unfold strings
  rw [forM_eq_ok]
  intro x hx
  obtain ⟨ref, href, rfl⟩ := List.mem_map.mp hx
  rw [text, requireContext_eq_ok]
  exact isBlank_encodeRef (h ref href)

/-- References that pass their check are allowed. -/
theorem checkRefs_eq_ok {refs : List String} (h : checkRefs (some allowedRefs) refs = .ok ()) :
    ∀ ref ∈ refs, ref ∈ allowedRefs := by
  simp only [checkRefs, bind_eq_ok, exists_unit, checkIfPresent_eq_ok] at h
  have hallowed := h.2 allowedRefs rfl
  rw [requireContext_eq_ok] at hallowed
  exact hallowed

/-- References that were encoded pass their check. -/
theorem checkRefs_encode {refs : List String} (h : checkRefs (some allowedRefs) refs = .ok ()) :
    checkRefs none (refs.map (encodeRef allowedRefs)) = .ok () := by
  simp only [checkRefs, bind_eq_ok, exists_unit, checkIfPresent_eq_ok]
  exact ⟨strings_encode (checkRefs_eq_ok h), fun _ h => (by cases h)⟩

/-- With the aliases instead of its references a summary is valid as well. -/
theorem validateSummary_encode (h : validateSummary summary (some allowedRefs) = .ok ()) :
    validateSummary (mapRefs (encodeRef allowedRefs) summary) none = .ok () := by
  simp only [validateSummary, bind_eq_ok, exists_unit, forM_eq_ok, validateObservation,
    validateLesson] at h ⊢
  obtain ⟨houtcome, hdecisions, -, hunresolved, hnext, -, hsources, hartifacts, hobs, hles⟩ := h
  refine ⟨houtcome, hdecisions, strings_encode (checkRefs_eq_ok hartifacts), hunresolved, hnext,
    strings_encode (checkRefs_eq_ok hsources), checkRefs_encode hsources, checkRefs_encode hartifacts,
    ?_, ?_⟩
  · intro o ho
    obtain ⟨item, hitem, rfl⟩ := List.mem_map.mp ho
    obtain ⟨htext, hrefs, hfact⟩ := hobs item hitem
    refine ⟨htext, checkRefs_encode hrefs, ?_⟩
    rw [requireContext_eq_ok] at hfact ⊢
    rw [List.length_map]
    exact hfact
  · intro l hl
    obtain ⟨item, hitem, rfl⟩ := List.mem_map.mp hl
    obtain ⟨hstatement, hscope, hrefs⟩ := hles item hitem
    exact ⟨hstatement, hscope, checkRefs_encode hrefs⟩

/-- With the sealed source before its references a summary is valid as well. -/
theorem validateSummary_withSealed {sealedSourceRef : Option String}
    (h : validateSummary summary (some allowedRefs) = .ok ())
    (hsealed : ∀ ref ∈ sealedSourceRef, ref ∈ allowedRefs ∧ isBlank ref = false) :
    validateSummary { summary with sourceRefs := withSealed sealedSourceRef summary.sourceRefs }
      (some allowedRefs) = .ok () := by
  simp only [validateSummary, bind_eq_ok, exists_unit, forM_eq_ok, checkRefs, checkIfPresent_eq_ok]
    at h ⊢
  obtain ⟨houtcome, hdecisions, hartifacts, hunresolved, hnext, -, ⟨hsources, hin⟩, hrest⟩ := h
  have hstrings : strings (withSealed sealedSourceRef summary.sourceRefs) = .ok () := by
    unfold strings at hsources ⊢
    rw [forM_eq_ok] at hsources ⊢
    intro ref href
    rcases List.mem_append.mp href with href | href
    · rw [text, requireContext_eq_ok]
      exact (hsealed ref (Option.mem_toList.mp (List.mem_of_mem_filter href))).2
    · exact hsources ref href
  refine ⟨houtcome, hdecisions, hartifacts, hunresolved, hnext, hstrings, ⟨hstrings, ?_⟩, hrest⟩
  intro allowed hallowed
  have hbefore := hin allowed hallowed
  rw [requireContext_eq_ok] at hbefore ⊢
  obtain rfl := Option.some.inj hallowed
  intro ref href
  rcases List.mem_append.mp href with href | href
  · exact (hsealed ref (Option.mem_toList.mp (List.mem_of_mem_filter href))).1
  · exact hbefore ref href

/-- The aliases of a summary are restored. -/
theorem restoreSummaryRefs_encode {sealedSourceRef : Option String}
    (h : validateSummary summary (some allowedRefs) = .ok ())
    (hsealed : ∀ ref ∈ sealedSourceRef, ref ∈ allowedRefs ∧ isBlank ref = false) :
    restoreSummaryRefs (mapRefs (encodeRef allowedRefs) summary) (some allowedRefs) sealedSourceRef =
      .ok { summary with sourceRefs := withSealed sealedSourceRef summary.sourceRefs } := by
  have hfilled := filled_of_validateSummary h
  have hrefs := refs_of_validateSummary h
  simp only [ContextSummary.refs, List.mem_append, List.mem_flatMap] at hrefs
  -- The references are restored list by list, as the source does.
  have hsources : restoreRefs allowedRefs (summary.sourceRefs.map (encodeRef allowedRefs)) =
      .ok summary.sourceRefs := by
    apply restoreRefs_encode
    intro ref href
    exact ⟨hrefs ref (Or.inl (Or.inl (Or.inl href))), hfilled.sourceRefs ref href⟩
  have hartifacts : restoreRefs allowedRefs (summary.artifactRefs.map (encodeRef allowedRefs)) =
      .ok summary.artifactRefs := by
    apply restoreRefs_encode
    intro ref href
    exact ⟨hrefs ref (Or.inl (Or.inl (Or.inr href))), hfilled.artifactRefs ref href⟩
  have hobservations : (mapRefs (encodeRef allowedRefs) summary).observations.mapM
      (restoreObservation allowedRefs) = .ok summary.observations := by
    unfold mapRefs
    rw [mapM_eq_ok, List.forall₂_map_left_iff, List.forall₂_same]
    intro o ho
    have hone : restoreRefs allowedRefs (o.sourceRefs.map (encodeRef allowedRefs)) = .ok o.sourceRefs := by
      apply restoreRefs_encode
      intro ref href
      exact ⟨hrefs ref (Or.inl (Or.inr ⟨o, ho, href⟩)), (hfilled.observations o ho).2 ref href⟩
    unfold restoreObservation
    dsimp only
    rw [hone]
    rfl
  have hlessons : (mapRefs (encodeRef allowedRefs) summary).lessonCandidates.mapM
      (restoreLesson allowedRefs) = .ok summary.lessonCandidates := by
    unfold mapRefs
    rw [mapM_eq_ok, List.forall₂_map_left_iff, List.forall₂_same]
    intro l hl
    have hone : restoreRefs allowedRefs (l.sourceRefs.map (encodeRef allowedRefs)) = .ok l.sourceRefs := by
      apply restoreRefs_encode
      intro ref href
      exact ⟨hrefs ref (Or.inr ⟨l, hl, href⟩), (hfilled.lessonCandidates l hl).2.2 ref href⟩
    unfold restoreLesson
    dsimp only
    rw [hone]
    rfl
  -- The lists are the old ones, so the check of the restored summary is the one that it has passed.
  unfold restoreSummaryRefs
  simp only [bind_eq_ok, exists_unit, requireContext_eq_ok, pure_eq_ok]
  exact ⟨fun ref href => (hsealed ref href).1, _, hsources, _, hartifacts, _, hobservations, _, hlessons,
    validateSummary_withSealed h hsealed, rfl⟩

end Summaries

/-- The call with which a model submits a summary. -/
def submitSummary (id finishReason : String) (outputTokens : ℕ) (summary : ContextSummary) :
    SummaryCompletion :=
  ⟨finishReason, [⟨id, "submit_summary", summary.toJson⟩], outputTokens⟩

/-- A summary that is submitted with the aliases of its references comes back as it is, with the sealed
source before its references if it was not among them. Whatever is submitted, the references of what comes
back are allowed. -/
theorem parseSummary_restores (issues : JsonValue → String) :
    (∀ allowedRefs sealedSourceRef summary id finishReason outputTokens,
      validateSummary summary (some allowedRefs) = .ok () →
      (∀ ref ∈ sealedSourceRef, ref ∈ allowedRefs ∧ isBlank ref = false) →
      finishReason = "tool_calls" ∨ finishReason = "stop" →
      parseSummary issues
          (submitSummary id finishReason outputTokens (mapRefs (encodeRef allowedRefs) summary))
          (some allowedRefs) sealedSourceRef =
        .ok { summary with sourceRefs := withSealed sealedSourceRef summary.sourceRefs }) ∧
    ∀ completion allowedRefs sealedSourceRef result,
      parseSummary issues completion (some allowedRefs) sealedSourceRef = .ok result →
      ∀ ref ∈ result.refs, ref ∈ allowedRefs := by
  constructor
  · -- What was submitted is read again: the schema keeps it, and then its aliases are restored.
    intro allowedRefs sealedSourceRef summary id finishReason outputTokens hvalid hsealed hfinish
    have hencoded := validateSummary_encode hvalid
    have hnormal := normalize_toJson issues (filled_of_validateSummary hencoded) hencoded
    have hlength : finishReason ≠ "length" := by
      rcases hfinish with rfl | rfl
      · decide
      · decide
    unfold parseSummary submitSummary
    dsimp only
    rw [if_neg hlength, if_pos ⟨rfl, hfinish⟩]
    exact bind_eq_ok.mpr ⟨_, hnormal, restoreSummaryRefs_encode hvalid hsealed⟩
  · -- Whatever was submitted, what comes back was checked last.
    intro completion allowedRefs sealedSourceRef result hresult
    unfold parseSummary at hresult
    split_ifs at hresult with hlength
    split at hresult
    · split_ifs at hresult with hcall
      obtain ⟨summary, -, hrestore⟩ := bind_eq_ok.mp hresult
      unfold restoreSummaryRefs at hrestore
      simp only [bind_eq_ok, exists_unit, requireContext_eq_ok, pure_eq_ok] at hrestore
      obtain ⟨-, sourceRefs, -, artifactRefs, -, observations, -, lessons, -, hvalid, rfl⟩ := hrestore
      exact refs_of_validateSummary hvalid
    · cases hresult

/-- References of which one comes twice, and two look like aliases of others. -/
def crossedRefs : List String := ["s1", "history:a", "s1", "history:b", "s0"]

/-- A summary with a fact, which uses them. -/
def crossedSummary : ContextSummary :=
  { ContextSummary.only "found" with
    observations := [⟨.fact, "seen", ["s0", "history:a"]⟩]
    artifactRefs := ["s1"]
    sourceRefs := ["history:a", "s1", "s0"] }

/-- References that occur twice or look like aliases are restored. -/
theorem parseSummary_restores_crossed :
    (mapRefs (encodeRef crossedRefs) crossedSummary).sourceRefs = ["s1", "s2", "s4"] ∧
      parseSummary (fun _ => "") (submitSummary "call" "tool_calls" 40
          (mapRefs (encodeRef crossedRefs) crossedSummary)) (some crossedRefs) (some "history:b") =
        .ok { crossedSummary with sourceRefs := ["history:b", "history:a", "s1", "s0"] } := by
  refine ⟨by decide +kernel, ?_⟩
  exact (parseSummary_restores fun _ => "").1 crossedRefs (some "history:b") crossedSummary "call"
    "tool_calls" 40 (by decide +kernel) (by decide +kernel) (.inl rfl)

end OsAgent.AgentRound
