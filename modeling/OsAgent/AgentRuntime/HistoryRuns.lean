import OsAgent.AgentRuntime.NativeHistory

/-!
# What a request shows when it goes on with earlier ones

Every persisted request can be read, and what it shows has plain keys (`HistoryRun.Sound`). A request that
goes on with one is read as the state that the earlier one shows, and then the changes from it, which
`readMessage_requestChanges` reads back. `history_shows` says so of every chain of rounds.
-/

namespace OsAgent.AgentRuntime

open OsAgent.Library OsAgent.Context

variable {numbers : List Char → Option String}

/-! ## Changes keep a state readable -/

/-- An own property of a readable value is readable. -/
theorem readable_getOwn {target v : JsonValue} {key : String} (h : target.Readable numbers)
    (hv : getOwn target key = some v) : v.Readable numbers := by
  unfold getOwn at hv
  split at hv
  · exact forall_of_readable h _ (mem_of_property? hv)
  · obtain ⟨i, -, hi⟩ := Option.bind_eq_some_iff.mp hv
    exact forall_of_readable_array h _ (List.mem_of_getElem? hi)
  · cases hv

/-- A readable value with a readable property is readable. -/
theorem readable_define {target value w : JsonValue} {key : String} (h : target.Readable numbers)
    (hvalue : value.Readable numbers) (hw : define target key value = .ok w) : w.Readable numbers := by
  unfold define at hw
  split at hw
  · cases hw
    exact readable_setProperty hvalue h
  · have hitems := forall_of_readable_array h
    split at hw
    · cases hw
      apply JsonValue.Readable.array
      intro x hx
      split_ifs at hx with hi
      · rcases List.mem_or_eq_of_mem_set hx with hx | rfl
        · exact hitems x hx
        · exact hvalue
      · rcases List.mem_append.mp hx with hx | hx
        · exact hitems x hx
        · rw [List.mem_singleton.mp hx]
          exact hvalue
    · cases hw
  · cases hw

/-- A readable value without a property is readable. -/
theorem readable_delete {target w : JsonValue} {key : String} (h : target.Readable numbers)
    (hw : delete target key = .ok w) : w.Readable numbers := by
  unfold delete at hw
  split at hw
  · cases hw
    cases h with
    | object hnodup hproperties =>
      apply JsonValue.Readable.object
      · exact hnodup.sublist (List.filter_sublist.map Prod.fst)
      · intro p hp
        exact hproperties p (List.mem_of_mem_filter hp)
  · split_ifs at hw
    cases hw
    exact h
  · cases hw

/-- What the values of an operation satisfy. -/
def Operation.Readable (numbers : List Char → Option String) : Operation → Prop
  | .append items => ∀ v ∈ items, v.Readable numbers
  | .assign value => value.Readable numbers
  | _ => True

/-- An operation with readable values keeps a value readable. -/
theorem readable_perform {operation : Operation} {target w : JsonValue} {key : String}
    (hoperation : operation.Readable numbers) (h : target.Readable numbers)
    (hw : operation.perform target key = .ok w) : w.Readable numbers := by
  unfold Operation.perform at hw
  split at hw
  · exact readable_delete h hw
  · split at hw
    · next current hcurrent =>
      have hitems := forall_of_readable_array (readable_getOwn h hcurrent)
      refine readable_define h (.array ?_) hw
      intro x hx
      rcases List.mem_append.mp hx with hx | hx
      · exact hitems x hx
      · exact hoperation x hx
    · cases hw
  · exact readable_define h hoperation hw
  · cases hw
    exact h

/-- An operation along a path keeps a value readable. -/
theorem readable_changeAt {operation : Operation} {path : List String} {target w : JsonValue}
    (hoperation : operation.Readable numbers) (h : target.Readable numbers)
    (hw : changeAt operation path target = .ok w) : w.Readable numbers := by
  induction path generalizing target w with
  | nil => cases hw
  | cons key path ih =>
    cases path with
    | nil => exact readable_perform hoperation h hw
    | cons next rest =>
      obtain ⟨parent, hparent, hw⟩ := bind_eq_ok.mp hw
      obtain ⟨changed, hchanged, hw⟩ := bind_eq_ok.mp hw
      have hreadable : parent.Readable numbers := by
        unfold child at hparent
        split at hparent
        · next hget =>
          cases hparent
          exact readable_getOwn h hget
        · next hget =>
          cases hparent
          exact readable_getOwn h hget
        · cases hparent
      exact readable_define h (ih hreadable hchanged) hw

/-- A change with readable values is an operation with them. -/
theorem readable_operation {change : RequestChange} (h : Carries (·.Readable numbers) change) :
    change.operation.Readable numbers := by
  unfold RequestChange.operation
  split
  · trivial
  · split
    · next items hitems => exact h.append items hitems
    · split
      · next v hv => exact h.value v hv
      · trivial

/-- Changes with readable values keep a value readable. -/
theorem readable_changeTarget {changes : List RequestChange} {target w : JsonValue}
    (hchanges : ∀ change ∈ changes, Carries (·.Readable numbers) change)
    (h : target.Readable numbers) (hw : changeTarget changes target = .ok w) : w.Readable numbers := by
  induction changes generalizing target with
  | nil =>
    cases hw
    exact h
  | cons change changes ih =>
    unfold changeTarget at hw
    rw [List.foldlM_cons] at hw
    obtain ⟨first, hfirst, hw⟩ := bind_eq_ok.mp hw
    have hreadable := readable_changeAt (readable_operation (hchanges change List.mem_cons_self)) h hfirst
    exact ih (fun c hc => hchanges c (List.mem_cons_of_mem _ hc)) hreadable hw

/-! ## What the messages of a request show -/

/-- The messages are read as a state with plain keys. -/
def Shows (numbers : List Char → Option String) (messages : List ModelMessage) (view : JsonValue) : Prop :=
  readRuntimeRequest numbers messages = .ok view ∧ PlainView numbers view

/-- A state with the tree of one with plain keys has plain keys. -/
theorem plainView_of_tree {view w : JsonValue} (hreadable : view.Readable numbers)
    (hw : PlainView numbers w) (htree : view.tree = w.tree) : PlainView numbers view where
  exists_object := by
    obtain ⟨ps, rfl⟩ := hw.exists_object
    rw [tree_object] at htree
    obtain ⟨qs, hqs, -⟩ := eq_object_of_tree htree
    exact ⟨qs, hqs⟩
  readable := hreadable
  named := named_of_tree hreadable hw.named htree

/-- The changes from one plain state to another are read back. -/
theorem readMessage_plain {before current : JsonValue} (hbefore : PlainView numbers before)
    (hcurrent : PlainView numbers current) :
    ∃ view, readMessage numbers before (updateMessage (requestChanges before current)) = .ok view ∧
      PlainView numbers view ∧ view.tree = current.tree := by
  obtain ⟨ps, rfl⟩ := hbefore.exists_object
  obtain ⟨qs, rfl⟩ := hcurrent.exists_object
  have hreadable := readable_requestChanges (v := .object ps) hcurrent.readable
  have hnamed := hcurrent.named.imp fun _ hkey => hkey.1
  obtain ⟨view, hview, htree⟩ :=
    readMessage_requestChanges hbefore.readable hcurrent.readable hnamed
  have hcovered : Covered (.object ps) (.object qs) :=
    covered_of_named (hbefore.named.imp fun _ hkey => hkey.2) _
  have hsame : view.tree = (JsonValue.object qs).tree := by
    rw [htree]
    exact (kept_eq_iff hcurrent.readable _).mpr hcovered
  have hchanged := hview
  rw [readMessage_update hreadable (named_requestChanges hnamed)] at hchanged
  exact ⟨view, hview,
    plainView_of_tree (readable_changeTarget hreadable hbefore.readable hchanged) hcurrent hsame, hsame⟩

/-- The messages after one that was read are read from the state that it left. -/
theorem foldlM_readMessage_cons {view next : JsonValue} {message : ModelMessage}
    (h : readMessage numbers view message = .ok next) (messages : List ModelMessage) :
    (message :: messages).foldlM (readMessage numbers) view =
      messages.foldlM (readMessage numbers) next := by
  rw [List.foldlM_cons, h]
  rfl

/-- Messages are read one list after the other. -/
theorem foldlM_readMessage_append {view next : JsonValue} {messages : List ModelMessage}
    (h : messages.foldlM (readMessage numbers) view = .ok next) (more : List ModelMessage) :
    (messages ++ more).foldlM (readMessage numbers) view = more.foldlM (readMessage numbers) next := by
  rw [List.foldlM_append, h]
  rfl

/-- Messages without data do not change the state. -/
theorem foldlM_silent {messages : List ModelMessage} (h : ∀ message ∈ messages, message.data? numbers = none)
    (view : JsonValue) : messages.foldlM (readMessage numbers) view = .ok view := by
  induction messages with
  | nil => rfl
  | cons message messages ih =>
    have hfirst : readMessage numbers view message = .ok view := by
      unfold readMessage
      rw [h message List.mem_cons_self]
    rw [foldlM_readMessage_cons hfirst]
    exact ih fun m hm => h m (List.mem_cons_of_mem _ hm)

/-- A rejection is not data. -/
theorem data?_feedbackMessage (previousError : String) :
    (feedbackMessage previousError).data? numbers = none := by
  have htext : ∃ rest, ("宿主纠正反馈（仅针对本次请求；后续runtime_update清空previousError即解除）：\n" ++
      previousError ++ "\n请先执行纠正操作，再继续工作；被拒绝的动作未成功，不要原样重发。").toList =
        '宿' :: rest := by
    rw [String.toList_append, String.toList_append]
    exact ⟨_, rfl⟩
  obtain ⟨rest, hrest⟩ := htext
  unfold feedbackMessage ModelMessage.data?
  dsimp only
  rw [hrest, parse_eq_none (by decide) (by decide) (by decide)]
  rfl

/-- What follows the changes in a request that `requestAction` builds. -/
def feedbackMessages (previousError : Option String) : List ModelMessage :=
  match previousError with
  | some error => if error = "" then [] else [feedbackMessage error]
  | none => []

/-- The messages of an error say nothing of the view. -/
theorem silent_feedbackMessages (previousError : Option String) :
    ∀ message ∈ feedbackMessages previousError, message.data? numbers = none := by
  intro message hmessage
  unfold feedbackMessages at hmessage
  split at hmessage
  · split_ifs at hmessage
    · cases hmessage
    · rw [List.mem_singleton.mp hmessage]
      exact data?_feedbackMessage _
  · cases hmessage

/-- The messages of a request. -/
theorem requestMessages_eq (instructions : String) (stable full : JsonValue)
    (previousError : Option String) :
    requestMessages instructions stable full previousError =
      [.system instructions, contextMessage stable, updateMessage (requestChanges stable full)] ++
        feedbackMessages previousError := rfl

/-- A request of `requestAction` shows the state. -/
theorem shows_requestMessages {stable full : JsonValue} (hstable : PlainView numbers stable)
    (hfull : PlainView numbers full) (instructions : String) (previousError : Option String) :
    ∃ view, Shows numbers (requestMessages instructions stable full previousError) view ∧
      view.tree = full.tree := by
  obtain ⟨view, hview, hplain, htree⟩ := readMessage_plain hstable hfull
  refine ⟨view, ⟨?_, hplain⟩, htree⟩
  obtain ⟨ps, rfl⟩ := hstable.exists_object
  have hcontext := readMessage_context hstable.readable (hstable.named.imp fun _ hkey => hkey.1) (.object [])
  have hsystem : readMessage numbers (.object []) (.system instructions) = .ok (.object []) := rfl
  unfold readRuntimeRequest
  calc
    (requestMessages instructions (.object ps) full previousError).foldlM (readMessage numbers) (.object [])
    _ = _ := foldlM_readMessage_cons hsystem _
    _ = _ := foldlM_readMessage_cons hcontext _
    _ = _ := foldlM_readMessage_cons hview _
    _ = .ok view := foldlM_silent (silent_feedbackMessages previousError) view

/-! ## Going on with a request -/

/-- An update begins as one. -/
theorem startsUpdate_updateMessage (changes : List RequestChange) :
    (updateMessage changes).startsUpdate = true := by
  unfold updateMessage ModelMessage.startsUpdate
  dsimp only
  simp only [String.toList_ofList]
  rfl

/-- A context does not begin as an update. -/
theorem startsUpdate_contextMessage (view : JsonValue) : (contextMessage view).startsUpdate = false := by
  unfold contextMessage ModelMessage.startsUpdate
  dsimp only
  simp only [String.toList_ofList]
  rfl

/-- The changes are the third message of a request that `requestAction` builds. -/
theorem boundary_requestMessages (instructions : String) (stable full : JsonValue)
    (previousError : Option String) :
    (requestMessages instructions stable full previousError).findIdx? ModelMessage.startsUpdate =
      some 2 := by
  have hsystem : (ModelMessage.system instructions).startsUpdate = false := rfl
  rw [requestMessages_eq]
  simp only [List.cons_append, List.findIdx?_cons, hsystem, startsUpdate_contextMessage,
    startsUpdate_updateMessage]
  rfl

/-- Receipts say nothing of the view. -/
theorem silent_receipts {calls : List ModelToolCall} {results : List JsonValue} :
    ∀ message ∈ receipts calls results, message.data? numbers = none := by
  intro message hmessage
  unfold receipts at hmessage
  rw [List.mem_iff_getElem] at hmessage
  obtain ⟨i, hi, rfl⟩ := hmessage
  rw [List.getElem_zipWith]
  rfl

/-- A request that goes on with one that shows a state shows the state to which the changes lead. -/
theorem shows_continueRequest {request previous : ModelCompletionRequest} {before current : JsonValue}
    {boundary : ℕ} (hbefore : Shows numbers previous.messages before) (hcurrent : PlainView numbers current)
    (hrest : ∀ message ∈ request.messages.drop (boundary + 1), message.data? numbers = none)
    (message : ModelAssistantMessage) (results : List JsonValue) :
    ∃ view, Shows numbers
        (continueRequest request previous message results before current boundary).messages view ∧
      view.tree = current.tree := by
  obtain ⟨hread, hplain⟩ := hbefore
  obtain ⟨view, hview, hplain', htree⟩ := readMessage_plain hplain hcurrent
  refine ⟨view, ⟨?_, hplain'⟩, htree⟩
  have hsilent : ∀ m ∈ [message.toMessage] ++ receipts message.toolCalls results,
      m.data? numbers = none := by
    intro m hm
    rcases List.mem_append.mp hm with hm | hm
    · rw [List.mem_singleton.mp hm]
      rfl
    · exact silent_receipts m hm
  have hmessages : (continueRequest request previous message results before current boundary).messages =
      previous.messages ++ (([message.toMessage] ++ receipts message.toolCalls results) ++
        ([updateMessage (requestChanges before current)] ++ request.messages.drop (boundary + 1))) := by
    unfold continueRequest
    simp only [List.append_assoc]
  unfold readRuntimeRequest at hread ⊢
  rw [hmessages, foldlM_readMessage_append hread, foldlM_readMessage_append (foldlM_silent hsilent before),
    List.singleton_append, foldlM_readMessage_cons hview]
  exact foldlM_silent hrest view

/-- The call that a message is the receipt of. -/
def ModelMessage.callId? : ModelMessage → Option String
  | .tool callId _ => some callId
  | _ => none

/-- There is a receipt for each call. -/
theorem callId?_receipts {calls : List ModelToolCall} {results : List JsonValue}
    (h : results.length = calls.length) :
    (receipts calls results).map ModelMessage.callId? = calls.map fun call => some call.id := by
  unfold receipts
  apply List.ext_getElem
  · rw [List.length_map, List.length_map, List.length_zipWith]
    omega
  · intro i hi hi'
    rw [List.getElem_map, List.getElem_map, List.getElem_zipWith]
    rfl

/-- All results are there, in the order in which they were asked for. -/
theorem map_some_of_mapM {α β : Type} {f : α → Option β} {l : List α} {r : List β}
    (h : l.mapM f = some r) : r.map some = l.map f := by
  have hresults := forall₂_of_mapM h
  clear h
  induction hresults with
  | nil => rfl
  | cons hb _ ih => rw [List.map_cons, List.map_cons, ih, hb]

/-- A request goes on with one that was persisted under one of some keys. -/
def Continues (store : HistoryStore) (options : HistoryOptions) (keys : List String)
    (selected : ModelCompletionRequest) : Prop :=
  ∃ previousKey ∈ keys, ∃ previous completion results changes,
    options.receipt previousKey = true ∧ store.request previousKey = some previous ∧
      store.completion previousKey = some completion ∧ completion.message.toolCalls ≠ [] ∧
      results.map some =
        (List.range completion.message.toolCalls.length).map (options.result previousKey) ∧
      (receipts completion.message.toolCalls results).map ModelMessage.callId? =
        completion.message.toolCalls.map (fun call => some call.id) ∧
      selected.messages = previous.messages ++ [completion.message.toMessage] ++
        receipts completion.message.toolCalls results ++
        [updateMessage changes] ++ options.request.messages.drop 3 ∧
      (estimateContextTokens selected.toJson + 64 : ℤ) ≤ options.maxInput

/-- A request continues the rounds of a longer list. -/
theorem Continues.mono {store : HistoryStore} {options : HistoryOptions} {keys more : List String}
    {selected : ModelCompletionRequest} (hkeys : ∀ key ∈ keys, key ∈ more)
    (h : Continues store options keys selected) : Continues store options more selected := by
  obtain ⟨key, hkey, rest⟩ := h
  exact ⟨key, hkeys key hkey, rest⟩

/-- What may be selected: a request that shows what the plain one shows. -/
structure Selected (numbers : List Char → Option String) (store : HistoryStore) (options : HistoryOptions)
    (keys : List String) (selected : ModelCompletionRequest) : Prop where
  continues : selected = options.request ∨ Continues store options keys selected
  shows_same : ∃ view plain, Shows numbers selected.messages view ∧
    Shows numbers options.request.messages plain ∧ view.tree = plain.tree

/-- A request is selected from a longer list. -/
theorem Selected.mono {store : HistoryStore} {options : HistoryOptions} {keys more : List String}
    {selected : ModelCompletionRequest} (hkeys : ∀ key ∈ keys, key ∈ more)
    (h : Selected numbers store options keys selected) : Selected numbers store options more selected where
  continues := h.continues.imp_right fun hcontinues => hcontinues.mono hkeys
  shows_same := h.shows_same

/-- What is read of a plain request, and where its changes are. -/
theorem LaidOut.spec {request : ModelCompletionRequest} (h : LaidOut numbers request) :
    (∃ plain, Shows numbers request.messages plain) ∧
      request.messages.findIdx? ModelMessage.startsUpdate = some 2 ∧
      ∀ message ∈ request.messages.drop 3, message.data? numbers = none := by
  obtain ⟨instructions, stable, full, previousError, hstable, hfull, hmessages⟩ := h
  obtain ⟨plain, hplain, -⟩ := shows_requestMessages hstable hfull instructions previousError
  rw [hmessages]
  refine ⟨⟨plain, hplain⟩, boundary_requestMessages instructions stable full previousError, ?_⟩
  rw [requestMessages_eq]
  exact silent_feedbackMessages previousError

/-- The loop ends with a request, which shows what the plain one shows. -/
theorem selectRequest_spec {store : HistoryStore} {options : HistoryOptions}
    (hlaid : LaidOut numbers options.request)
    (hstore : ∀ key request, store.request key = some request →
      ∃ view, Shows numbers request.messages view) (keys : List String) :
    ∃ selected, selectRequest numbers store options keys = .ok selected ∧
      Selected numbers store options keys selected := by
  obtain ⟨⟨plain, hplain⟩, hboundary, hrest⟩ := hlaid.spec
  -- To send the plain request is always one of the two ways.
  have hself : ∀ keys, Selected numbers store options keys options.request :=
    fun keys => ⟨.inl rfl, plain, plain, hplain, hplain, rfl⟩
  -- Along the earlier rounds: the first one whose request, completion and results are all there counts.
  induction keys with
  | nil => exact ⟨options.request, rfl, hself []⟩
  | cons previousKey keys ih =>
    obtain ⟨later, hlater, hselected⟩ := ih
    have hskip : Selected numbers store options (previousKey :: keys) later :=
      hselected.mono fun _ => List.mem_cons_of_mem _
    rw [selectRequest]
    split_ifs with hreceipt
    · exact ⟨later, hlater, hskip⟩
    · split
      · next previous completion hrequest hcompletion =>
        split_ifs with hcalls
        · exact ⟨later, hlater, hskip⟩
        · rw [hboundary]
          dsimp only
          -- Of a request of another layout nothing is kept.
          split_ifs with hprefix
          · exact ⟨options.request, rfl, hself _⟩
          · split
            · exact ⟨later, hlater, hskip⟩
            · next results hresults =>
              obtain ⟨before, hbefore⟩ := hstore _ _ hrequest
              have hresults := map_some_of_mapM hresults
              have hlength : results.length = completion.message.toolCalls.length := by
                have hmap := congrArg List.length hresults
                rw [List.length_map, List.length_map, List.length_range] at hmap
                exact hmap
              -- The continued request shows the same messages as the plain one.
              obtain ⟨view, hview, htree⟩ :=
                shows_continueRequest hbefore hplain.2 hrest completion.message results
              rw [hplain.1, hbefore.1]
              refine ⟨_, rfl, ?_⟩
              -- The continued request counts only within the limit of the model.
              split_ifs with hfits
              · constructor
                · right
                  rw [Bool.not_eq_false] at hreceipt
                  exact ⟨previousKey, List.mem_cons_self, previous, completion, results, _, hreceipt,
                    hrequest, hcompletion, hcalls, hresults, callId?_receipts hlength, rfl, hfits⟩
                · exact ⟨view, plain, hview, hplain, htree⟩
              · exact hself _
      · exact ⟨later, hlater, hskip⟩

/-! ## Chains of rounds -/

section Runs

variable {digest : String → String}

/-- Every persisted request shows a state with plain keys, and the rounds of a scope were prepared in
it. -/
structure HistoryRun.Sound (numbers : List Char → Option String) (digest : String → String)
    (run : HistoryRun) : Prop where
  requests : ∀ key request, run.store.request key = some request →
    ∃ view, Shows numbers request.messages view
  rounds : ∀ id keys, run.store.metadata id = some keys →
    ∀ key ∈ keys, ∃ scope, (key, scope) ∈ run.prepared ∧ marker digest scope = id

/-- The markers of different scopes differ. -/
theorem marker_inj {scope scope' : String} (h : marker digest scope = marker digest scope') :
    digest scope = digest scope' := by
  unfold marker at h
  have htext := congrArg String.toList h
  rw [String.toList_append, String.toList_append] at htext
  exact String.toList_injective (List.append_cancel_left htext)

/-- The keys of the earlier rounds of a scope. -/
def earlierRounds (digest : String → String) (store : HistoryStore) (options : HistoryOptions) :
    List String :=
  ((store.metadata (marker digest options.scope)).getD []).filter (· ≠ options.key)

/-- A round gets a request, and is the last one of its scope. -/
theorem withNativeHistory_spec {store : HistoryStore} {options : HistoryOptions}
    (hlaid : LaidOut numbers options.request)
    (hstore : ∀ key request, store.request key = some request →
      ∃ view, Shows numbers request.messages view) :
    ∃ selected, withNativeHistory numbers digest store options = .ok (selected,
        store.putMetadata (marker digest options.scope)
          (lastRounds (earlierRounds digest store options ++ [options.key]))) ∧
      Selected numbers store options (earlierRounds digest store options).reverse selected := by
  obtain ⟨selected, hselected, hspec⟩ :=
    selectRequest_spec hlaid hstore (earlierRounds digest store options).reverse
  refine ⟨selected, ?_, hspec⟩
  unfold withNativeHistory
  show (selectRequest numbers store options (earlierRounds digest store options).reverse).bind _ = _
  rw [hselected]
  rfl

/-- To prepare a request keeps the run sound. -/
theorem HistoryRun.Sound.prepare {run : HistoryRun} (h : run.Sound numbers digest)
    (options : HistoryOptions) :
    (run.prepare options (run.store.putMetadata (marker digest options.scope)
      (lastRounds (earlierRounds digest run.store options ++ [options.key])))).Sound numbers digest where
  requests := h.requests
  rounds := by
    intro id keys hkeys key hkey
    change (if id = marker digest options.scope then _ else run.store.metadata id) = some keys at hkeys
    show ∃ scope, (key, scope) ∈ run.prepared ++ [(options.key, options.scope)] ∧ _
    have hearlier : ∀ id keys, run.store.metadata id = some keys → key ∈ keys →
        ∃ scope, (key, scope) ∈ run.prepared ++ [(options.key, options.scope)] ∧
          marker digest scope = id := by
      intro id keys hkeys hkey
      obtain ⟨scope, hscope, hid⟩ := h.rounds id keys hkeys key hkey
      exact ⟨scope, List.mem_append_left _ hscope, hid⟩
    -- The marker is that of the scope, or another one, which keeps its keys.
    split_ifs at hkeys with hid
    · cases hkeys
      rcases List.mem_append.mp (List.mem_of_mem_drop hkey) with hkey | hkey
      · have hmem := List.mem_of_mem_filter hkey
        cases hrounds : run.store.metadata (marker digest options.scope) with
        | none =>
          rw [hrounds] at hmem
          cases hmem
        | some rounds =>
          rw [hrounds] at hmem
          rw [hid]
          exact hearlier _ rounds hrounds hmem
      · -- The last key is the one just prepared.
        rw [List.mem_singleton.mp hkey, hid]
        exact ⟨options.scope, List.mem_append_right _ List.mem_cons_self, rfl⟩
    · exact hearlier id keys hkeys hkey

/-- Every step of the rounds keeps the requests readable. -/
theorem HistoryRun.Sound.step {run run' : HistoryRun} (h : run.Sound numbers digest)
    (hstep : HistoryStep numbers digest run run') : run'.Sound numbers digest := by
  -- One case per step; only a sent request is written.
  cases hstep with
  | @refuse options selected store hlaid hrun =>
    obtain ⟨selected', hselected, -⟩ := withNativeHistory_spec hlaid h.requests
    rw [hselected] at hrun
    cases hrun
    exact h.prepare options
  | @send options selected store output hlaid hrun =>
    obtain ⟨selected', hselected, hspec⟩ := withNativeHistory_spec hlaid h.requests
    rw [hselected] at hrun
    cases hrun
    obtain ⟨view, -, hview, -⟩ := hspec.shows_same
    constructor
    · intro key request hrequest
      change (if key = options.key then some (Option.getD (run.store.request options.key) _)
        else run.store.request key) = some request at hrequest
      split_ifs at hrequest with hkey
      · -- An earlier request under the same key stays as it was written.
        cases hsaved : run.store.request options.key with
        | none =>
          rw [hsaved] at hrequest
          cases hrequest
          exact ⟨view, hview⟩
        | some saved =>
          rw [hsaved] at hrequest
          cases hrequest
          exact h.requests _ _ hsaved
      · exact h.requests key request hrequest
    · exact (h.prepare options).rounds
  | complete key completion => exact ⟨h.requests, h.rounds⟩
  | repair key =>
    constructor
    · intro name request hrequest
      change (if name = key then none else run.store.request name) = some request at hrequest
      split_ifs at hrequest with hname
      exact h.requests name request hrequest
    · exact h.rounds

/-- Every run is sound. -/
theorem sound_of_rounds {run : HistoryRun} (h : (historySystem numbers digest).Reachable run) :
    run.Sound numbers digest := by
  refine h.invariant ?_ fun _ _ _ hsound hstep => hsound.step hstep
  intro run hinit
  rw [hinit]
  constructor
  · intro key request hrequest
    cases hrequest
  · intro id keys hkeys
    cases hkeys

/-- In every chain of rounds, a round gets the plain request, or one that goes on with an earlier request
of its scope that the context has acknowledged: the messages of that request, the answer, a receipt for
each call, and changes. Either shows what the plain request shows. -/
theorem history_shows {run : HistoryRun} (hrun : (historySystem numbers digest).Reachable run)
    {options : HistoryOptions} (hlaid : LaidOut numbers options.request) :
    ∃ selected store view plain,
      withNativeHistory numbers digest run.store options = .ok (selected, store) ∧
      (selected = options.request ∨
        ∃ previousKey scope previous completion results changes,
          previousKey ≠ options.key ∧ (previousKey, scope) ∈ run.prepared ∧
          digest scope = digest options.scope ∧ options.receipt previousKey = true ∧
          run.store.request previousKey = some previous ∧
          run.store.completion previousKey = some completion ∧
          results.map some =
            (List.range completion.message.toolCalls.length).map (options.result previousKey) ∧
          (receipts completion.message.toolCalls results).map ModelMessage.callId? =
            completion.message.toolCalls.map (fun call => some call.id) ∧
          selected.messages = previous.messages ++ [completion.message.toMessage] ++
            receipts completion.message.toolCalls results ++
              [updateMessage changes] ++ options.request.messages.drop 3 ∧
          (estimateContextTokens selected.toJson + 64 : ℤ) ≤ options.maxInput) ∧
      readRuntimeRequest numbers selected.messages = .ok view ∧
      readRuntimeRequest numbers options.request.messages = .ok plain ∧ view.tree = plain.tree := by
  have hsound := sound_of_rounds hrun
  obtain ⟨selected, hselected, hcontinues, view, plain, hview, hplain, htree⟩ :=
    withNativeHistory_spec hlaid hsound.requests
  refine ⟨selected, _, view, plain, hselected, ?_, hview.1, hplain.1, htree⟩
  refine hcontinues.imp_right ?_
  rintro ⟨previousKey, hkey, previous, completion, results, changes, hreceipt, hprevious, hcompletion, -,
    hresults, hcalls, hmessages, hfits⟩
  have hround := List.mem_reverse.mp hkey
  unfold earlierRounds at hround
  have hne := List.of_mem_filter hround
  have hmem := List.mem_of_mem_filter hround
  -- The key is one that the scope has listed, so a round wrote it.
  cases hrounds : run.store.metadata (marker digest options.scope) with
  | none =>
    rw [hrounds] at hmem
    cases hmem
  | some rounds =>
    rw [hrounds] at hmem
    obtain ⟨scope, hprepared, hscope⟩ := hsound.rounds _ _ hrounds previousKey hmem
    exact ⟨previousKey, scope, previous, completion, results, changes, of_decide_eq_true hne, hprepared,
      marker_inj hscope, hreceipt, hprevious, hcompletion, hresults, hcalls, hmessages, hfits⟩

end Runs

/-- A round that shows whether something is done. -/
def flagOptions (key : String) (done : Bool) : HistoryOptions where
  key
  scope := "work"
  request := { messages := requestMessages "rules" (.object []) (.object [("done", .boolean done)]) none }
  maxInput := 100000
  receipt _ := true
  result _ _ := some .null

/-- The digest of the scope of these rounds. -/
def workDigest (_ : String) : String :=
  "00e13ed7af55b27622f1d6eab5bec0147e68efe28dc2b12461117afa1a5ed40e"

/-- The request is laid out as the runtime does. -/
theorem laidOut_flagOptions (key : String) (done : Bool) :
    LaidOut plainNumbers (flagOptions key done).request := by
  refine ⟨"rules", .object [], .object [("done", .boolean done)], none, ?_, ?_, rfl⟩
  · exact ⟨⟨_, rfl⟩, .object List.nodup_nil (by simp), .object (by simp) (by simp)⟩
  · have hkey : PlainKey "done" := by
      unfold PlainKey
      decide
    exact ⟨⟨_, rfl⟩, readable_single "done" (.boolean done), named_single hkey (.boolean done)⟩

/-- An answer with one call. -/
def flagCompletion : ModelCompletion where
  message := { content := "", toolCalls := [⟨"call", "read", .object []⟩], continuation := none }

/-- The first round was answered by a call. -/
def flagRun : HistoryRun where
  store :=
    (((HistoryStore.empty.putMetadata (marker workDigest "work") ["first"]).putRequest "first"
      { (flagOptions "first" false).request with maxOutputTokens := some 4096 }).putCompletion "first"
        flagCompletion)
  prepared := [("first", "work")]

/-- The request of the second round goes on with that of the first one. -/
theorem history_shows_flag : ∃ selected store changes view plain,
    withNativeHistory plainNumbers workDigest flagRun.store (flagOptions "second" true) =
        .ok (selected, store) ∧
      selected.messages = (flagOptions "first" false).request.messages ++
        [flagCompletion.message.toMessage, .tool "call" .null, updateMessage changes] ∧
      readRuntimeRequest plainNumbers selected.messages = .ok view ∧
      readRuntimeRequest plainNumbers (flagOptions "second" true).request.messages = .ok plain ∧
      view.tree = plain.tree := by
  -- The first round has nothing to go on with.
  have hfirst : withNativeHistory plainNumbers workDigest .empty (flagOptions "first" false) =
      .ok ((flagOptions "first" false).request,
        HistoryStore.empty.putMetadata (marker workDigest "work") ["first"]) := rfl
  have hsent := @HistoryStep.send plainNumbers workDigest { store := .empty, prepared := [] } _ _ _ 4096
    (laidOut_flagOptions "first" false) hfirst
  have hinit := @TransitionSystem.Reachable.of_init _ (historySystem plainNumbers workDigest) _ rfl
  have hreachable : (historySystem plainNumbers workDigest).Reachable flagRun :=
    (hinit.step hsent).step (.complete "first" flagCompletion)
  have hlength : (withNativeHistory plainNumbers workDigest flagRun.store (flagOptions "second" true)).map
      (fun answer => answer.1.messages.length) = .ok 6 := by
    decide +kernel
  obtain ⟨selected, store, view, plain, hselected, hcontinues, hview, hplain, htree⟩ :=
    history_shows hreachable (laidOut_flagOptions "second" true)
  rw [hselected] at hlength
  rcases hcontinues with rfl | ⟨previousKey, scope, previous, completion, results, changes, -, hprepared, -, -,
    hprevious, hcompletion, hresults, -, hmessages, -⟩
  · -- The plain request would have as many messages as it shows; there are more.
    cases hlength
  · obtain ⟨rfl, -⟩ := Prod.mk.inj (List.mem_singleton.mp hprepared)
    obtain rfl := Option.some.inj hprevious
    obtain rfl := Option.some.inj hcompletion
    obtain rfl : results = [.null] := List.map_injective_iff.mpr (fun _ _ => Option.some.inj) hresults
    exact ⟨selected, store, changes, view, plain, hselected, hmessages, hview, hplain, htree⟩

end OsAgent.AgentRuntime
