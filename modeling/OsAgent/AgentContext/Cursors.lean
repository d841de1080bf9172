import OsAgent.AgentContext.Durability
import Mathlib.Logic.Function.Basic

/-!
# The cursors of a context

Where a delivery goes depends on the cursors of the frames alone: on which frame and plan each level
has. `cursorAt` gives the cursor of a level, `replaceFrame` updates it at one level, and `absorbed`
says whether `prepare` would put a delivery into the active frame.
-/

namespace OsAgent.Context

open OsAgent.Library

/-- The cursor of the frame of a level. -/
def AgentContext.cursorAt (context : AgentContext) : ContextLevel → Option ContextCursor
  | .one => some (ContextFrame.one context.level1).cursor
  | .two => context.level2.map fun frame => (ContextFrame.two frame).cursor
  | .three => context.level3.map fun frame => (ContextFrame.three frame).cursor

/-- Whether `prepare` would put a delivery into the active frame: it is for that frame and its plan,
or it is for the root, or for a plan that is gone, while the root is active. -/
def ContextDelivery.absorbed (context : AgentContext) (delivery : ContextDelivery) : Bool :=
  ((deliveryTarget context delivery).getD (.one context.level1)).data.id =
    (active context).data.id

/-- A property of a frame, level by level. -/
theorem exists_mem_frames_iff {context : AgentContext} {p : ContextFrame → Prop} :
    (∃ frame ∈ frames context, p frame) ↔ p (.one context.level1) ∨
      (∃ frame ∈ context.level2, p (.two frame)) ∨ ∃ frame ∈ context.level3, p (.three frame) := by
  rcases context with ⟨f1, _ | f2, _ | f3⟩ <;> simp [frames]

/-- The cursors of the frames are those of the levels. -/
theorem exists_cursor_iff {context : AgentContext} {target : ContextCursor} :
    (∃ frame ∈ frames context, frame.cursor = target) ↔
      ∃ level, context.cursorAt level = some target := by
  rw [exists_mem_frames_iff]
  constructor
  · rintro (h | ⟨frame, hf, h⟩ | ⟨frame, hf, h⟩)
    · exact ⟨.one, congrArg some h⟩
    · exact ⟨.two, Option.map_eq_some_iff.mpr ⟨frame, hf, h⟩⟩
    · exact ⟨.three, Option.map_eq_some_iff.mpr ⟨frame, hf, h⟩⟩
  · rintro ⟨level, h⟩
    cases level with
    | one => exact .inl (Option.some.inj h)
    | two =>
      obtain ⟨frame, hf, h⟩ := Option.map_eq_some_iff.mp h
      exact .inr (.inl ⟨frame, hf, h⟩)
    | three =>
      obtain ⟨frame, hf, h⟩ := Option.map_eq_some_iff.mp h
      exact .inr (.inr ⟨frame, hf, h⟩)

/-- A frame is found under its level. -/
theorem mem_cursorAt {context : AgentContext} {frame : ContextFrame} (h : frame ∈ frames context) :
    context.cursorAt frame.level = some frame.cursor := by
  rcases context with ⟨f1, _ | f2, _ | f3⟩ <;>
    simp only [frames, Option.toList, List.map_nil, List.map_cons, List.append_nil,
      List.nil_append, List.cons_append, List.mem_cons, List.not_mem_nil, or_false] at h <;>
    rcases h with rfl | rfl | rfl <;> rfl

/-- The cursor of the active frame is that of the innermost level that has one. -/
theorem cursor_active (context : AgentContext) : some (active context).cursor =
    (context.cursorAt .three).or ((context.cursorAt .two).or (context.cursorAt .one)) := by
  rcases context with ⟨f1, _ | f2, _ | f3⟩ <;> rfl

/-- A frame that is put into a context changes the cursor of its level. -/
theorem cursorAt_replaceFrame {context context' : AgentContext} {frame : ContextFrame}
    (h : replaceFrame context frame = .ok context') :
    context'.cursorAt = Function.update context.cursorAt frame.level (some frame.cursor) := by
  funext level
  cases frame with
  | one frame =>
    obtain rfl : { context with level1 := frame } = context' := by simpa [replaceFrame] using h
    cases level <;> rfl
  | two frame =>
    obtain rfl : { context with level2 := some frame } = context' := by
      simpa [replaceFrame] using h
    cases level <;> rfl
  | three frame =>
    simp only [replaceFrame, bind_eq_ok, exists_unit, pure_eq_ok] at h
    obtain ⟨-, rfl⟩ := h
    cases level <;> rfl

/-- A frame of the context, with other data but the same cursor, leaves the cursors. -/
theorem cursorAt_replaceFrame_eq {context context' : AgentContext} {frame frame' : ContextFrame}
    (h : replaceFrame context frame' = .ok context')
    (hcursor : context.cursorAt frame.level = some frame.cursor) (hlevel : frame'.level = frame.level)
    (hsame : frame'.cursor = frame.cursor) : context'.cursorAt = context.cursorAt := by
  rw [cursorAt_replaceFrame h, hlevel, hsame, ← hcursor, Function.update_eq_self]

/-- Other data with the same identity and plan leave the cursors as they are. -/
theorem cursorAt_withActive {context : AgentContext} {data : ContextFrameData}
    (hid : data.id = (active context).data.id)
    (hrevision : data.taskChain.revision = (active context).data.taskChain.revision) :
    (context.withActive data).cursorAt = context.cursorAt := by
  funext level
  rcases context with ⟨f1, _ | f2, _ | f3⟩ <;> cases level <;>
    simp_all [AgentContext.cursorAt, AgentContext.withActive, active, ContextFrame.cursor,
      ContextFrame.data]

/-- The frame to which a delivery goes, if its target is there. -/
theorem deliveryTarget_eq_some {context : AgentContext} {delivery : ContextDelivery}
    {frame : ContextFrame} (h : deliveryTarget context delivery = some frame) :
    frame ∈ frames context ∧ ∀ target ∈ delivery.target, frame.cursor = target := by
  unfold deliveryTarget at h
  cases hd : delivery.target with
  | none =>
    rw [hd] at h
    obtain rfl := Option.some.inj h
    exact ⟨List.mem_cons_self, fun _ h => (by cases h)⟩
  | some target =>
    rw [hd] at h
    refine ⟨List.mem_of_find?_eq_some h, ?_⟩
    rintro _ ⟨⟩
    simpa using List.find?_some h

/-- Absorption, by cursors. -/
theorem absorbed_iff {context : AgentContext} {delivery : ContextDelivery} :
    delivery.absorbed context = true ↔
      (∃ target ∈ delivery.target, (∃ level, context.cursorAt level = some target) ∧
        target.frameId = (active context).cursor.frameId) ∨
      (∀ target ∈ delivery.target, ∀ level, context.cursorAt level ≠ some target) ∧
        (ContextFrame.one context.level1).cursor.frameId = (active context).cursor.frameId := by
  have hactive : (active context).cursor.frameId = (active context).data.id := rfl
  unfold ContextDelivery.absorbed
  rw [decide_eq_true_eq, hactive]
  -- Without a target the root absorbs; with one, the frame that has the cursor, if any.
  cases hd : delivery.target with
  | none =>
    simp only [deliveryTarget, hd, Option.getD_some, Option.mem_def, reduceCtorEq, false_and,
      exists_false, false_or, IsEmpty.forall_iff, implies_true, true_and]
    exact Iff.rfl
  | some target =>
    simp only [deliveryTarget, hd, Option.mem_def, Option.some.injEq, exists_eq_left', forall_eq']
    cases hf : (frames context).find? fun frame => frame.cursor = target with
    | none =>
      have hnone : ∀ level, context.cursorAt level ≠ some target := by
        intro level hl
        obtain ⟨frame, hmem, hcursor⟩ := exists_cursor_iff.mpr ⟨level, hl⟩
        exact absurd hcursor (by simpa using List.find?_eq_none.mp hf frame hmem)
      simp only [hnone, exists_false, false_and, false_or, ne_eq, not_false_eq_true, implies_true,
        true_and]
      exact Iff.rfl
    | some frame =>
      obtain rfl : frame.cursor = target := by simpa using List.find?_some hf
      have hsome : ∃ level, context.cursorAt level = some frame.cursor :=
        exists_cursor_iff.mp ⟨frame, List.mem_of_find?_eq_some hf, rfl⟩
      have hnot : ¬ ∀ level, context.cursorAt level ≠ some frame.cursor := fun h =>
        h _ hsome.choose_spec
      simp only [hsome, hnot, true_and, false_and, or_false, Option.getD_some]
      exact Iff.rfl

/-- Contexts with the same cursors absorb the same deliveries. -/
theorem absorbed_congr {context context' : AgentContext} (h : context'.cursorAt = context.cursorAt)
    (delivery : ContextDelivery) : delivery.absorbed context' = delivery.absorbed context := by
  have hactive : (active context').cursor = (active context).cursor := by
    apply Option.some.inj
    rw [cursor_active, cursor_active, h]
  have hroot : (ContextFrame.one context'.level1).cursor = (ContextFrame.one context.level1).cursor :=
    Option.some.inj (congrFun h .one)
  rw [Bool.eq_iff_iff, absorbed_iff, absorbed_iff, h, hactive, hroot]

/-- New budgets leave the cursors. -/
theorem cursorAt_putBudgets (budget : ContextBudget) (fs : List ContextFrame) (m : Mutation)
    (h : ∀ frame ∈ fs, m.state.context.cursorAt frame.level = some frame.cursor) :
    Returns (fs.forM fun frame => putFrame (frame.withBudget budget))
      (fun _ m' => m'.state = { m.state with context := m'.state.context } ∧
        m'.state.context.cursorAt = m.state.context.cursorAt) m := by
  induction fs generalizing m with
  | nil => exact ⟨rfl, rfl⟩
  | cons frame fs ih =>
    show wp (putFrame (frame.withBudget budget) >>= fun _ =>
      fs.forM fun frame => putFrame (frame.withBudget budget)) _ _ m
    simp only [putFrame, wp_bind, wp_draft, wp_lift, wp_assignContext, implies_true, and_true]
    intro context hcontext
    have hsame : context.cursorAt = m.state.context.cursorAt :=
      cursorAt_replaceFrame_eq hcontext (h frame List.mem_cons_self) (by cases frame <;> rfl)
        (by cases frame <;> rfl)
    refine wp_mono (ih _ ?_) ?_ (fun _ _ h => h)
    · intro frame' hmem
      simp only [hsame]
      exact h frame' (List.mem_cons_of_mem _ hmem)
    · rintro _ m' ⟨hstate, hcursor⟩
      exact ⟨hstate, hcursor.trans hsame⟩

end OsAgent.Context
