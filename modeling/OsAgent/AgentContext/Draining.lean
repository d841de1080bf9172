import OsAgent.AgentContext.Cursors

/-!
# What draining the inbox does

`prepare` goes through the inbox once. As the cursors stay, the deliveries that it may move are those
that the context absorbs when it starts; it moves the first of them, in their order, to the end of
the active frame's recent entries, and stops where a summary is scheduled. `Drains` says this.
-/

namespace OsAgent.Context

open OsAgent.Library

/-! ## The frames of a context -/

/-- The frames of a context have identities of their own. -/
def AgentContext.Distinct (context : AgentContext) : Prop :=
  ((frames context).map (·.data.id)).Nodup

/-- The active frame is known by its identity. -/
theorem AgentContext.Distinct.eq_active {context : AgentContext} (h : context.Distinct)
    {frame : ContextFrame} (hf : frame ∈ frames context)
    (hid : frame.data.id = (active context).data.id) : frame = active context :=
  List.inj_on_of_nodup_map h hf (AgentContext.mem_frames_active context) hid

/-- Other data of the active frame with its identity keep the frames distinct. -/
theorem AgentContext.Distinct.withActive {context : AgentContext} (h : context.Distinct)
    {data : ContextFrameData} (hid : data.id = (active context).data.id) :
    (context.withActive data).Distinct := by
  have hsame : (frames (context.withActive data)).map (·.data.id) =
      (frames context).map (·.data.id) := by
    rcases context with ⟨f1, _ | f2, _ | f3⟩ <;>
      simp_all [frames, AgentContext.withActive, active, ContextFrame.data]
  unfold AgentContext.Distinct
  rwa [hsame]

/-- The frames of a context that passes its checks are distinct. -/
theorem AgentContext.WellFormed.distinct {context : AgentContext} (h : context.WellFormed) :
    context.Distinct := by
  have hsub : ((frames context).map (·.data.id)).Sublist
      ((frames context).flatMap ContextFrame.ids) := by
    induction frames context with
    | nil => exact .slnil
    | cons frame fs ih =>
      simp only [List.map_cons, List.flatMap_cons, ContextFrame.ids, List.cons_append]
      exact (ih.trans (List.sublist_append_right _ _)).cons_cons _
  exact h.ids.sublist hsub

/-- The target of a delivery is there if its cursor is. -/
theorem deliveryTarget_isSome_iff {context : AgentContext} {delivery : ContextDelivery} :
    (deliveryTarget context delivery).isSome = true ↔
      ∀ target ∈ delivery.target, ∃ level, context.cursorAt level = some target := by
  unfold deliveryTarget
  cases delivery.target with
  | none => simp
  | some target => simp [List.find?_isSome, ← exists_cursor_iff]

/-- Whether a delivery has a target depends on the cursors. -/
theorem deliveryTarget_isSome_congr {context context' : AgentContext}
    (h : context'.cursorAt = context.cursorAt) (delivery : ContextDelivery) :
    (deliveryTarget context' delivery).isSome = (deliveryTarget context delivery).isSome := by
  rw [Bool.eq_iff_iff, deliveryTarget_isSome_iff, deliveryTarget_isSome_iff, h]

/-! ## The loop -/

section Draining

variable (sha256 : String → String)

/-- The entries that a context gets for a delivery: its own, or one reference to it if its target is
gone. -/
def ContextDelivery.Becomes (context : AgentContext) (delivery : ContextDelivery)
    (entries : List ContextEntry) : Prop :=
  if (deliveryTarget context delivery).isSome then entries = delivery.entries
  else ∃ id, entries = [staleEntry sha256 id delivery]

/-- The active frame of a context after entries were appended. -/
def AgentContext.withEntries (context : AgentContext) (entries : List ContextEntry) : AgentContext :=
  context.withActive ((active context).data.withEntries entries)

/-- Further entries leave the cursors as they are. -/
theorem AgentContext.cursorAt_withEntries (context : AgentContext) (entries : List ContextEntry) :
    (context.withEntries entries).cursorAt = context.cursorAt :=
  cursorAt_withActive rfl rfl

/-- Entries are added one list after the other. -/
theorem AgentContext.withEntries_withEntries (context : AgentContext)
    (entries entries' : List ContextEntry) :
    (context.withEntries entries).withEntries entries' = context.withEntries (entries ++ entries') := by
  simp [AgentContext.withEntries, ContextFrameData.withEntries]

/-- No entries leave the context as it is. -/
theorem AgentContext.withEntries_nil (context : AgentContext) : context.withEntries [] = context := by
  rcases context with ⟨f1, _ | f2, _ | f3⟩ <;>
    simp [AgentContext.withEntries, AgentContext.withActive, ContextFrameData.withEntries, active,
      ContextFrame.data]

/-- Deliveries were moved from the inbox to the active frame. -/
structure Drains (state state' : ContextCheckpoint) (taken : List ContextDelivery) : Prop where
  context : ∃ blocks, List.Forall₂ (ContextDelivery.Becomes sha256 state.context) taken blocks ∧
    state'.context = state.context.withEntries blocks.flatten
  inbox : state'.inbox = state.inbox.filter fun delivery =>
    delivery.key ∉ taken.map ContextDelivery.key
  policy : state'.policy = state.policy

/-- Where nothing is taken nothing was moved. -/
theorem Drains.refl (state : ContextCheckpoint) : Drains sha256 state state [] where
  context := ⟨[], .nil, (AgentContext.withEntries_nil state.context).symm⟩
  inbox := by simp
  policy := rfl

/-- One delivery is moved, and then others. -/
theorem Drains.cons {state state₁ state' : ContextCheckpoint} {delivery : ContextDelivery}
    {entries : List ContextEntry} {taken : List ContextDelivery}
    (hbecomes : delivery.Becomes sha256 state.context entries)
    (hcontext : state₁.context = state.context.withEntries entries)
    (hinbox : state₁.inbox = state.inbox.filter (·.key ≠ delivery.key))
    (hpolicy : state₁.policy = state.policy) (h : Drains sha256 state₁ state' taken) :
    Drains sha256 state state' (delivery :: taken) where
  context := by
    obtain ⟨blocks, hblocks, hlast⟩ := h.context
    have hcursors : state₁.context.cursorAt = state.context.cursorAt := by
      rw [hcontext, AgentContext.cursorAt_withEntries]
    refine ⟨entries :: blocks, .cons hbecomes (hblocks.imp fun d es hd => ?_), ?_⟩
    · simpa only [ContextDelivery.Becomes, deliveryTarget_isSome_congr hcursors] using hd
    · rw [hlast, hcontext, AgentContext.withEntries_withEntries, List.flatten_cons]
  inbox := by
    rw [h.inbox, hinbox, List.filter_filter]
    refine List.filter_congr fun d _ => ?_
    simp [Bool.and_comm, not_or]
  policy := h.policy.trans hpolicy

/-- A change of the summary and of the wish to be run drains nothing more. -/
theorem Drains.congr {state state₁ state' : ContextCheckpoint} {taken : List ContextDelivery}
    (h : Drains sha256 state state₁ taken) (hcontext : state'.context = state₁.context)
    (hinbox : state'.inbox = state₁.inbox) (hpolicy : state'.policy = state₁.policy) :
    Drains sha256 state state' taken :=
  ⟨by rw [hcontext]; exact h.context, by rw [hinbox]; exact h.inbox, hpolicy.trans h.policy⟩

/-- A scheduled summary leaves the context, the inbox and the policy. -/
theorem scheduleSummary_leaves (purpose : ContextSummaryPurpose) (reason : String) (m : Mutation) :
    Returns (scheduleSummary purpose reason) (fun _ m' =>
      m'.state.context = m.state.context ∧ m'.state.inbox = m.state.inbox ∧
        m'.state.policy = m.state.policy) m := by
  simp only [scheduleSummary, Returns, wp_bind, wp_draft, wp_lift, wp_archive, wp_nextId, wp_assign,
    and_self, implies_true, and_true]

/-- The entries of a delivery are what the context gets for it. -/
theorem returns_becoming {Q : List ContextEntry → Mutation → Prop} {m : Mutation}
    {context : AgentContext} {delivery : ContextDelivery}
    (h : ∀ entries created, delivery.Becomes sha256 context entries → Q entries { m with created }) :
    Returns (deliveryEntries sha256 (deliveryTarget context delivery) delivery) Q m := by
  cases ht : deliveryTarget context delivery with
  | some frame =>
    refine h delivery.entries m.created ?_
    simp [ContextDelivery.Becomes, ht]
  | none =>
    simp only [deliveryEntries, Returns, wp_bind, wp_nextId, wp_pure]
    refine h _ _ ?_
    simp only [ContextDelivery.Becomes, ht, Option.isSome_none, Bool.false_eq_true, if_false]
    exact ⟨_, rfl⟩

/-- The loop moves the first of the deliveries that the context absorbs, all of them unless it ends
early. -/
theorem drainDeliveries_drains (deliveries : List ContextDelivery) (m : Mutation)
    (hlower : m.state.context.Lower) (hdistinct : m.state.context.Distinct) :
    Returns (drainDeliveries sha256 deliveries) (fun ended m' => ∃ taken,
      taken <+: deliveries.filter (·.absorbed m.state.context) ∧
        (ended = false → taken = deliveries.filter (·.absorbed m.state.context)) ∧
        Drains sha256 m.state m'.state taken) m := by
  -- Along the deliveries, with the state that each of them leaves.
  induction deliveries generalizing m with
  | nil => exact ⟨[], List.nil_prefix, fun _ => rfl, .refl sha256 m.state⟩
  | cons delivery rest ih =>
    simp only [drainDeliveries, Returns, wp_bind, wp_draft, wp_ite]
    by_cases habs : delivery.absorbed m.state.context = true
    · have hid : ((deliveryTarget m.state.context delivery).getD
          (.one m.state.context.level1)).data.id = (active m.state.context).data.id := by
        simpa [ContextDelivery.absorbed] using habs
      -- The delivery is absorbed by the active frame, which is known by its identity.
      have hactive : (deliveryTarget m.state.context delivery).getD (.one m.state.context.level1) =
          active m.state.context := by
        refine hdistinct.eq_active ?_ hid
        cases ht : deliveryTarget m.state.context delivery with
        | some frame => exact (deliveryTarget_eq_some ht).1
        | none => exact List.mem_cons_self
      rw [if_neg (by simpa using hid), List.filter_cons_of_pos habs]
      refine returns_becoming sha256 fun entries created hbecomes => ?_
      split_ifs with hlarge hcompact
      · -- The entries do not fit, so the loop ends before this delivery.
        simp only [wp_lift, implies_true, and_true]
        intro _ _
        refine wp_mono (scheduleSummary_leaves .compact "" _) ?_ (fun _ _ h => h)
        rintro _ m' ⟨hcontext, hinbox, hpolicy⟩
        exact ⟨[], List.nil_prefix, fun h => (by cases h),
          (Drains.refl sha256 m.state).congr sha256 hcontext hinbox hpolicy⟩
      all_goals
        simp only [hactive, ContextFrame.withEntries, ContextFrame.withMemory]
        rw [wp_putFrame (m := { m with created }) hlower, wp_assign]
      · -- The delivery fills the frame, so the loop ends after it.
        refine wp_mono (scheduleSummary_leaves .compact "" _) ?_ (fun _ _ h => h)
        rintro _ m' ⟨hcontext, hinbox, hpolicy⟩
        refine ⟨[delivery], List.prefix_append [delivery] _, fun h => (by cases h), ?_⟩
        exact .cons sha256 hbecomes hcontext hinbox hpolicy (.refl sha256 _)
      · -- The delivery is taken, and the loop goes on with the others.
        refine wp_mono (ih _ (hlower.withActive _) (hdistinct.withActive rfl)) ?_ (fun _ _ h => h)
        rintro ended m' ⟨taken, hprefix, hall, hdrains⟩
        have hcursors : (m.state.context.withEntries entries).cursorAt = m.state.context.cursorAt :=
          AgentContext.cursorAt_withEntries _ _
        -- The entries do not change which of the others can be absorbed.
        have hfilter : rest.filter (·.absorbed (m.state.context.withEntries entries)) =
            rest.filter (·.absorbed m.state.context) :=
          List.filter_congr fun d _ => absorbed_congr hcursors d
        refine ⟨delivery :: taken, ?_, ?_, ?_⟩
        · rw [← hfilter]
          exact (List.prefix_cons_inj delivery).mpr hprefix
        · intro he
          rw [← hfilter]
          exact congrArg (delivery :: ·) (hall he)
        · refine .cons sha256 hbecomes ?_ ?_ ?_ hdrains <;> rfl
    · -- The delivery is for another frame, and stays.
      have hid : ((deliveryTarget m.state.context delivery).getD
          (.one m.state.context.level1)).data.id ≠ (active m.state.context).data.id := by
        simpa [ContextDelivery.absorbed] using habs
      rw [if_pos hid, List.filter_cons_of_neg habs]
      exact ih m hlower hdistinct

/-- Draining the inbox moves the first of the deliveries that the context absorbs, all of them unless a
summary is pending afterwards. -/
theorem drainInbox_moves {state : ContextCheckpoint} (createId : ℕ → String)
    (hlower : state.context.Lower) (hdistinct : state.context.Distinct) :
    Returns (drainInbox sha256) (fun _ m => ∃ taken,
      taken <+: state.inbox.filter (·.absorbed state.context) ∧
        (m.state.pendingSummary = none → taken = state.inbox.filter (·.absorbed state.context)) ∧
        Drains sha256 state m.state taken) (state.mutation createId) := by
  simp only [drainInbox, Returns, wp_bind, wp_draft, wp_ite, wp_pure]
  split_ifs with hpending
  · refine ⟨[], List.nil_prefix, fun hnone => ?_, .refl sha256 state⟩
    rw [hnone] at hpending
    cases hpending
  · have hloop := wp_and
      (drainDeliveries_drains sha256 state.inbox (state.mutation createId) hlower hdistinct)
      (drainDeliveries_drained sha256 state.inbox (state.mutation createId))
    refine wp_mono hloop ?_ (fun _ _ _ => trivial)
    rintro ended m ⟨⟨taken, hprefix, hall, hdrains⟩, hended⟩
    split_ifs with he hcompact
    · obtain ⟨m₁, -, hscheduled⟩ := hended.ended he
      obtain ⟨pending, hsome, -⟩ := hscheduled.pending
      refine ⟨taken, hprefix, fun hnone => ?_, hdrains⟩
      rw [hsome] at hnone
      cases hnone
    · refine wp_mono (scheduleSummary_leaves .compact "" m) ?_ (fun _ _ h => h)
      rintro _ m' ⟨hcontext, hinbox, hpolicy⟩
      exact ⟨taken, hprefix, fun _ => hall (by simpa using he),
        hdrains.congr sha256 hcontext hinbox hpolicy⟩
    · exact ⟨taken, hprefix, fun _ => hall (by simpa using he), hdrains⟩

/-- `prepare` moves the first of the deliveries of the inbox that the context absorbs, all of them
unless it schedules a summary. -/
theorem drainInbox_drains {state : ContextCheckpoint} (createId : ℕ → String)
    (hlower : state.context.Lower) (hdistinct : state.context.Distinct) :
    Returns (drainInbox sha256) (fun _ m => ∃ taken,
      taken <+: state.inbox.filter (·.absorbed state.context) ∧
        Drains sha256 state m.state taken) (state.mutation createId) :=
  wp_mono (drainInbox_moves sha256 createId hlower hdistinct)
    (by rintro _ m ⟨taken, hprefix, -, hdrains⟩; exact ⟨taken, hprefix, hdrains⟩) (fun _ _ h => h)

end Draining

end OsAgent.Context
