import OsAgent.AgentContext.Chronicle

/-!
# Taking a batch in

A round takes a batch of deliveries in by `receiveAvailable`, as many of them as the inbox has room for, and
makes room by `prepare`, which moves deliveries to the active frame. `Keeps` says that nothing is lost on
the way. After `prepare` a state is `Prepared`: unless a summary is pending, the active frame absorbs nothing
of what is left in the inbox.
-/

namespace OsAgent.Context

open OsAgent.Library

section Intake

variable (sha256 : String → String)

/-! ## What is kept -/

/-- The delivery that is recorded under the key of a delivery is the same. -/
def Session.HasAccepted (s : Session) (delivery : ContextDelivery) : Prop :=
  ∃ recorded, s.store.recorded sha256 delivery.key = some (.history recorded) ∧
    sameDelivery recorded delivery = true

/-- A delivery is in the inbox, or the active frame has its entries. -/
def Session.Holds (s : Session) (delivery : ContextDelivery) : Prop :=
  delivery ∈ s.state.inbox ∨ ∃ entries, delivery.Becomes sha256 s.state.context entries ∧
    entries <:+: (active s.state.context).data.memory.recentEntries

/-- Nothing is lost: records and entries are only added, what was held is held, and what was recorded in the
meantime is held too. -/
structure Keeps (s s' : Session) : Prop where
  valid : validateCheckpoint s'.state = .ok ()
  policy : s'.state.policy = s.state.policy
  records : s.store.records.entries <+: s'.store.records.entries
  context : ∃ entries, s'.state.context = s.state.context.withEntries entries
  held : ∀ d, s.Holds sha256 d → s'.Holds sha256 d
  entered : ∀ d, s.store.recorded sha256 d.key = none →
    s'.store.recorded sha256 d.key = some (.history d) → s'.Holds sha256 d

variable {sha256} {s s' s'' : Session}

/-- Nothing is lost where nothing happens. -/
theorem Keeps.refl (h : validateCheckpoint s.state = .ok ()) : Keeps sha256 s s where
  valid := h
  policy := rfl
  records := List.prefix_rfl
  context := ⟨[], (AgentContext.withEntries_nil s.state.context).symm⟩
  held _ hd := hd
  entered d hnone hsome := by
    rw [hnone] at hsome
    cases hsome

/-- What two operations keep, both together keep. -/
theorem Keeps.trans (h : Keeps sha256 s s') (h' : Keeps sha256 s' s'') : Keeps sha256 s s'' where
  valid := h'.valid
  policy := h'.policy.trans h.policy
  records := List.IsPrefix.trans h.records h'.records
  context := by
    obtain ⟨entries, hcontext⟩ := h.context
    obtain ⟨entries', hcontext'⟩ := h'.context
    exact ⟨entries ++ entries', by
      rw [hcontext', hcontext, AgentContext.withEntries_withEntries]⟩
  held d hd := h'.held d (h.held d hd)
  entered d hnone hsome := by
    cases hmiddle : s'.store.recorded sha256 d.key with
    | none => exact h'.entered d hmiddle hsome
    | some record =>
      have hkept := recorded_mono h'.records hmiddle
      have hsame : record = .history d := Option.some.inj (hkept.symm.trans hsome)
      rw [hsame] at hmiddle
      exact h'.held d (h.entered d hnone hmiddle)

/-- An accepted delivery stays accepted. -/
theorem Keeps.hasAccepted (h : Keeps sha256 s s') {delivery : ContextDelivery}
    (hd : s.HasAccepted sha256 delivery) : s'.HasAccepted sha256 delivery := by
  obtain ⟨recorded, hrecorded, hsame⟩ := hd
  exact ⟨recorded, recorded_mono h.records hrecorded, hsame⟩

/-- What was recorded in the meantime is one of the records that were added. -/
theorem exists_of_new {writes : List ContextStoreWrite}
    (hrecords : s'.store.records.entries = s.store.records.entries ++ writes) {key : String}
    {record : ContextRecord} (hnone : s.store.recorded sha256 key = none)
    (hsome : s'.store.recorded sha256 key = some record) :
    ∃ write ∈ writes, write.ref = deliveryRef sha256 key ∧ write.record = record := by
  obtain ⟨write, hmem, href, hrecord⟩ := exists_of_recorded hsome
  rw [hrecords] at hmem
  rcases List.mem_append.mp hmem with hold | hnew
  · rw [recorded_of_mem hold href] at hnone
    cases hnone
  · exact ⟨write, hnew, href, hrecord⟩

/-! ## Receiving -/

/-- How many more deliveries the inbox has room for. -/
def ContextCheckpoint.room (state : ContextCheckpoint) : ℕ :=
  state.policy.maxInbox - state.inbox.length

/-- Deliveries that enter leave everything else. -/
theorem Enters.keeps {deliveries fresh : List ContextDelivery}
    (h : Enters sha256 s s' deliveries fresh) (hvalid : validateCheckpoint s'.state = .ok ()) :
    Keeps sha256 s s' where
  valid := hvalid
  policy := h.policy
  records := by
    rw [h.records]
    exact List.prefix_append _ _
  context := ⟨[], h.context.trans (AgentContext.withEntries_nil s.state.context).symm⟩
  held d hd := by
    rcases hd with hinbox | hactive
    · left
      rw [h.inbox]
      exact List.mem_append_left _ hinbox
    · right
      rw [h.context]
      exact hactive
  entered d hnone hsome := by
    obtain ⟨write, hwrite, -, hrecord⟩ := exists_of_new h.records hnone hsome
    obtain ⟨d', hd', rfl⟩ := List.mem_map.mp hwrite
    have hsame : d' = d := ContextRecord.history.inj hrecord
    left
    rw [h.inbox, ← hsame]
    exact List.mem_append_right _ hd'

/-- If none enters, nothing changes. -/
theorem Enters.nil (s : Session) (deliveries : List ContextDelivery) : Enters sha256 s s deliveries [] :=
  ⟨fun _ hd => (by cases hd), fun _ hd => (by cases hd), fun _ hd => (by cases hd), .nil,
    fun _ hd => (by cases hd), rfl, rfl, (List.append_nil _).symm, (List.append_nil _).symm⟩

/-- Taking the first of the new deliveries in is a commit, unless there are none. -/
theorem receiveFresh_enters (env : Surroundings) {deliveries fresh : List ContextDelivery}
    (hfound : Found sha256 s deliveries fresh) (hvalid : validateCheckpoint s.state = .ok ()) (n : ℕ) :
    wp (receiveFresh sha256 env (fresh.take n)) (fun _ s' =>
        Enters sha256 s s' deliveries (fresh.take n) ∧ validateCheckpoint s'.state = .ok () ∧
          (fresh.take n = [] → s' = s))
      (fun _ s' => s' = s) s := by
  unfold receiveFresh
  split_ifs with hnone
  · rw [List.eq_nil_of_length_eq_zero hnone]
    exact ⟨.nil s deliveries, hvalid, fun _ => rfl⟩
  · refine wp_mono (mutate_commits env _ [] s) ?_ (fun _ _ h => h)
    intro _ s' hc
    have henters := hfound.enters sha256 n hc
    obtain ⟨-, m, hm, -, hstate⟩ := hc
    have hnew := (prepared hm (acceptDeliveries_returns sha256 _ s.state env.createId)
      fun _ _ h => h).2
    refine ⟨henters, by rw [hstate]; exact hnew, fun hnil => ?_⟩
    rw [hnil] at hnone
    exact absurd rfl hnone

/-- `receive` takes all the new deliveries in. -/
theorem receive_enters (env : Surroundings) (deliveries : List ContextDelivery)
    (hvalid : validateCheckpoint s.state = .ok ()) :
    wp (receive sha256 env deliveries) (fun _ s' => ∃ fresh,
        Found sha256 s deliveries fresh ∧ Enters sha256 s s' deliveries (fresh.take fresh.length) ∧
          validateCheckpoint s'.state = .ok ())
      (fun _ s' => s' = s) s := by
  have hfound := freshDeliveries_found sha256 env s deliveries (.nil sha256 s)
  refine wp_bind_of hfound ?_ (fun _ _ h => h)
  rintro fresh t ⟨rfl, hfresh⟩
  rw [List.nil_append] at hfresh
  simp only [wp_bind, wp_get, wp_lift, implies_true, and_true]
  intro _ _
  have hreceive := receiveFresh_enters env hfresh hvalid fresh.length
  rw [List.take_length] at hreceive
  refine wp_mono hreceive ?_ (fun _ _ h => h)
  rintro _ s' ⟨henters, hvalid', -⟩
  rw [← List.take_length (l := fresh)] at henters
  exact ⟨fresh, hfresh, henters, hvalid'⟩

/-- `receiveAvailable` takes in as many of the new deliveries as there is room for, and says whether that is
all of them. Without room it does nothing. -/
theorem receiveAvailable_enters (env : Surroundings) (deliveries : List ContextDelivery)
    (hvalid : validateCheckpoint s.state = .ok ()) :
    wp (receiveAvailable sha256 env deliveries) (fun received s' => ∃ fresh,
        Found sha256 s deliveries fresh ∧ (received = true ↔ fresh.length ≤ s.state.room) ∧
          Enters sha256 s s' deliveries (fresh.take s.state.room) ∧
            validateCheckpoint s'.state = .ok () ∧ (s.state.room = 0 → s' = s))
      (fun _ s' => s' = s) s := by
  have hfound := freshDeliveries_found sha256 env s deliveries (.nil sha256 s)
  refine wp_bind_of hfound ?_ (fun _ _ h => h)
  rintro fresh t ⟨rfl, hfresh⟩
  rw [List.nil_append] at hfresh
  simp only [wp_bind, wp_get, wp_pure, decide_eq_true_eq]
  refine wp_mono (receiveFresh_enters env hfresh hvalid t.state.room) ?_ (fun _ _ h => h)
  rintro _ s' ⟨henters, hvalid', hnone⟩
  refine ⟨fresh, hfresh, Iff.rfl, henters, hvalid', fun hroom => ?_⟩
  apply hnone
  rw [hroom, List.take_zero]

/-- If everything new was taken in, the whole batch has been accepted. -/
theorem Found.hasAccepted {deliveries fresh : List ContextDelivery}
    (h : Found sha256 s deliveries fresh) {n : ℕ} (hall : fresh.length ≤ n)
    (he : Enters sha256 s s' deliveries (fresh.take n)) (hkeeps : Keeps sha256 s s') :
    ∀ d ∈ deliveries, s'.HasAccepted sha256 d := by
  intro d hd
  rw [List.take_of_length_le hall] at he
  rcases h.same d hd with ⟨d', hd', hkey, hsame⟩ | hbefore
  · refine ⟨d', ?_, hsame⟩
    rw [← hkey]
    exact he.recorded hd'
  · exact hkeeps.hasAccepted hbefore

/-! ## Preparing -/

/-- A summary is pending, or the active frame absorbs nothing of what is in the inbox. -/
def ContextCheckpoint.Prepared (state : ContextCheckpoint) : Prop :=
  state.pendingSummary.isSome = true ∨ ∀ d ∈ state.inbox, d.absorbed state.context = false

/-- What `prepare` does: it moves deliveries to the active frame, and archives the context if it schedules a
summary. -/
structure Prepares (sha256 : String → String) (s s' : Session) : Prop where
  drains : ∃ taken, taken <+: s.state.inbox.filter (·.absorbed s.state.context) ∧
    Drains sha256 s.state s'.state taken
  records : ∃ writes, s'.store.records.entries = s.store.records.entries ++ writes ∧
    ∀ write ∈ writes, ∃ context, write.record = .frame context
  pending : s.state.pendingSummary.isSome = true → s'.state.pendingSummary.isSome = true
  prepared : s'.state.Prepared

/-- Contexts with the same cursors make the same entries of a delivery. -/
theorem becomes_congr {context context' : AgentContext} (h : context'.cursorAt = context.cursorAt)
    {delivery : ContextDelivery} {entries : List ContextEntry} :
    delivery.Becomes sha256 context' entries ↔ delivery.Becomes sha256 context entries := by
  simp only [ContextDelivery.Becomes, deliveryTarget_isSome_congr h]

/-- Entries are added to the active frame at the end. -/
theorem recentEntries_withEntries (context : AgentContext) (entries : List ContextEntry) :
    (active (context.withEntries entries)).data.memory.recentEntries =
      (active context).data.memory.recentEntries ++ entries := by
  rw [AgentContext.withEntries, AgentContext.active_withActive]
  cases active context <;> rfl

/-- A delivery that is moved, or that the active frame had, is held afterwards. -/
theorem Drains.holds {taken : List ContextDelivery} (h : Drains sha256 s.state s'.state taken)
    (hmem : taken ⊆ s.state.inbox) (hkeys : (s.state.inbox.map ContextDelivery.key).Nodup)
    {delivery : ContextDelivery} (hd : s.Holds sha256 delivery) : s'.Holds sha256 delivery := by
  obtain ⟨blocks, hblocks, hcontext⟩ := h.context
  have hcursors : s'.state.context.cursorAt = s.state.context.cursorAt := by
    rw [hcontext, AgentContext.cursorAt_withEntries]
  have hentries : (active s'.state.context).data.memory.recentEntries =
      (active s.state.context).data.memory.recentEntries ++ blocks.flatten := by
    rw [hcontext, recentEntries_withEntries]
  rcases hd with hinbox | ⟨entries, hbecomes, hinfix⟩
  · by_cases htaken : delivery.key ∈ taken.map ContextDelivery.key
    · -- It was moved, so its entries are one of the blocks.
      obtain ⟨moved, hmoved, hkey⟩ := List.mem_map.mp htaken
      have hsame : moved = delivery := List.inj_on_of_nodup_map hkeys (hmem hmoved) hinbox hkey
      rw [hsame] at hmoved
      obtain ⟨block, hblock, hbecomes⟩ := exists_right_of_mem hblocks hmoved
      right
      refine ⟨block, (becomes_congr hcursors).mpr hbecomes, ?_⟩
      rw [hentries]
      exact (List.infix_of_mem_flatten hblock).trans (List.suffix_append _ _).isInfix
    · left
      rw [h.inbox]
      exact List.mem_filter.mpr ⟨hinbox, by simpa using htaken⟩
  · right
    refine ⟨entries, (becomes_congr hcursors).mpr hbecomes, ?_⟩
    rw [hentries]
    exact hinfix.trans (List.prefix_append _ _).isInfix

/-- What is moved to the active frame is held there. -/
theorem Prepares.keeps (h : Prepares sha256 s s') (hvalid : validateCheckpoint s.state = .ok ())
    (hvalid' : validateCheckpoint s'.state = .ok ()) : Keeps sha256 s s' := by
  obtain ⟨taken, hpre, hdrains⟩ := h.drains
  obtain ⟨writes, hrecords, hframes⟩ := h.records
  have hmem : taken ⊆ s.state.inbox :=
    fun d hd => List.mem_of_mem_filter (hpre.subset hd)
  exact {
    valid := hvalid'
    policy := hdrains.policy
    records := by
      rw [hrecords]
      exact List.prefix_append _ _
    context := by
      obtain ⟨blocks, -, hcontext⟩ := hdrains.context
      exact ⟨blocks.flatten, hcontext⟩
    held := fun d hd => hdrains.holds hmem (inbox_of_validateCheckpoint hvalid).2 hd
    entered := fun d hnone hsome => by
      -- Only contexts are recorded, no deliveries.
      obtain ⟨write, hwrite, -, hrecord⟩ := exists_of_new hrecords hnone hsome
      obtain ⟨context, hframe⟩ := hframes write hwrite
      rw [hframe] at hrecord
      cases hrecord }

/-- Nothing that is left is absorbed where everything that is absorbed was moved. -/
theorem Drains.prepared {state state' : ContextCheckpoint} {taken : List ContextDelivery}
    (h : Drains sha256 state state' taken)
    (hall : state'.pendingSummary = none → taken = state.inbox.filter (·.absorbed state.context)) :
    state'.Prepared := by
  cases hpending : state'.pendingSummary with
  | some pending =>
    left
    rw [hpending]
    rfl
  | none =>
    right
    intro d hd
    rw [h.inbox, List.mem_filter, decide_eq_true_eq] at hd
    obtain ⟨blocks, -, hcontext⟩ := h.context
    have hcursors : state'.context.cursorAt = state.context.cursorAt := by
      rw [hcontext, AgentContext.cursorAt_withEntries]
    rw [absorbed_congr hcursors, Bool.eq_false_iff]
    intro habsorbed
    refine hd.2 (List.mem_map_of_mem ?_)
    rw [hall hpending]
    exact List.mem_filter.mpr ⟨hd.1, habsorbed⟩

/-- A context whose summary is pending has nothing to prepare. -/
theorem Prepares.refl (h : s.state.pendingSummary.isSome = true) : Prepares sha256 s s where
  drains := ⟨[], List.nil_prefix, .refl sha256 s.state⟩
  records := ⟨[], (List.append_nil _).symm, fun _ hw => (by cases hw)⟩
  pending _ := h
  prepared := .inl h

/-- `prepare` returns the state that it leaves, and keeps everything. -/
theorem prepare_prepares (env : Surroundings) (hvalid : validateCheckpoint s.state = .ok ()) :
    wp (prepare sha256 env) (fun checkpoint s' => checkpoint = s'.state ∧ Prepares sha256 s s' ∧
        Keeps sha256 s s')
      (fun _ s' => s' = s) s := by
  have hlower := (wellFormed_of_validateCheckpoint hvalid).lower
  have hdistinct := (wellFormed_of_validateCheckpoint hvalid).distinct
  simp only [prepare, wp_bind, wp_get, wp_ite, wp_pure]
  split_ifs with hnone
  · -- No summary is pending: what is in the inbox is drained, and the state is saved.
    refine wp_mono (mutate_commits env _ [] s) ?_ (fun _ _ h => h)
    rintro _ s' ⟨-, m, hm, hcommit, hstate⟩
    have hnone' := Option.isNone_iff_eq_none.mp hnone
    have hmoves := wp_mono (wp_and (drainInbox_moves sha256 env.createId hlower hdistinct)
      (drainInbox_outcome sha256 env.createId hnone')) (fun _ _ h => h) (fun _ _ _ => trivial)
    obtain ⟨⟨⟨taken, hpre, hall, hdrains⟩, houtcome⟩, hvalid'⟩ := prepared hm hmoves (by
      rintro m revision ⟨⟨taken, hpre, hall, h⟩, ho⟩
      exact ⟨⟨taken, hpre, hall, h.context, h.inbox, h.policy⟩, ho.withRevision revision⟩)
    rw [← hstate] at hdrains hvalid' hall
    -- Every write is of an entry that has gone into a frame.
    have hprepares : Prepares sha256 s s' := {
      drains := ⟨taken, hpre, hdrains⟩
      records := by
        refine ⟨m.writes, (commit_appended hcommit).records, fun write hwrite => ?_⟩
        rcases houtcome.written write hwrite with hframe | hbesides
        · exact ⟨_, hframe⟩
        · exact hbesides.elim
      pending := fun hsome => by
        rw [hnone'] at hsome
        cases hsome
      prepared := hdrains.prepared hall }
    exact ⟨trivial, hprepares, hprepares.keeps hvalid hvalid'⟩
  · -- A summary is pending: nothing is done.
    have hsome : s.state.pendingSummary.isSome = true := by
      cases hpending : s.state.pendingSummary with
      | some pending => rfl
      | none => exact absurd (Option.isNone_iff_eq_none.mpr hpending) hnone
    exact ⟨trivial, .refl hsome, .refl hvalid⟩

end Intake

end OsAgent.Context
