import OsAgent.AgentContext.Intake
import OsAgent.AgentContext.Waking

/-!
# Every accepted delivery is absorbed once

A call that returns has accepted what it was offered, as far as it says so. An accepted delivery is in the
inbox or has been absorbed, once, and its key is never accepted again.
The root absorbs in the order of acceptance, and so does every frame as long as it has the same plan.
A frame that gets a new plan may absorb out of order, but only what was accepted before the plan that
it names was there: `timely` runs, in which every target is a cursor that some frame has had, keep the
order.
-/

namespace OsAgent.Context

open OsAgent.Library

/-! ## Who absorbs what -/

section Absorbs

variable {context : AgentContext} {delivery : ContextDelivery}

/-- Only one level has a cursor with a given identity. -/
theorem AgentContext.Distinct.level_eq (h : context.Distinct) {level level' : ContextLevel}
    {c c' : ContextCursor} (hc : context.cursorAt level = some c)
    (hc' : context.cursorAt level' = some c') (hid : c.frameId = c'.frameId) : level = level' := by
  rcases context with ⟨f1, _ | f2, _ | f3⟩ <;> cases level <;> cases level' <;>
    simp only [AgentContext.cursorAt, Option.map_some, Option.map_none, Option.some.injEq,
      reduceCtorEq] at hc hc' <;>
    subst hc <;> subst hc' <;>
    simp_all [AgentContext.Distinct, frames, ContextFrame.cursor, ContextFrame.data]

/-- An active root absorbs everything. -/
theorem absorbed_of_root (h : (active context).level = .one) :
    delivery.absorbed context = true := by
  have hroot : context.level2 = none ∧ context.level3 = none := by
    rcases context with ⟨f1, _ | f2, _ | f3⟩ <;> simp_all [active, ContextFrame.level]
  have hactive : active context = .one context.level1 := by
    simp [active, hroot]
  rw [ContextDelivery.absorbed, hactive, decide_eq_true_eq]
  cases ht : deliveryTarget context delivery with
  | none => rfl
  | some frame =>
    have hmem := (deliveryTarget_eq_some ht).1
    rw [frames, hroot.1, hroot.2] at hmem
    obtain rfl : frame = .one context.level1 := by simpa using hmem
    rfl

/-- An active frame below the root absorbs what is for it and its plan. -/
theorem absorbed_iff_target (hdistinct : context.Distinct) (h : (active context).level ≠ .one) :
    delivery.absorbed context = true ↔ delivery.target = some (active context).cursor := by
  rw [absorbed_iff]
  constructor
  · rintro (⟨target, htarget, ⟨level, hlevel⟩, hid⟩ | ⟨-, hid⟩)
    · have hsame := hdistinct.level_eq hlevel (cursorAt_active context) hid
      rw [hsame, cursorAt_active] at hlevel
      rw [Option.mem_def.mp htarget, hlevel]
    · have hone : context.cursorAt .one = some (ContextFrame.one context.level1).cursor := rfl
      exact absurd (hdistinct.level_eq hone (cursorAt_active context) hid).symm h
  · intro htarget
    exact .inl ⟨_, htarget, ⟨_, cursorAt_active context⟩, rfl⟩

end Absorbs

/-! ## The invariants -/

namespace Chronicle

variable (sha256 : String → String)

/-- What a chronicle's frames with a property absorbed. -/
def absorbedBy (t : Chronicle) (p : ContextCursor → Prop) [DecidablePred p] :
    List ContextDelivery :=
  (t.absorbed.filter fun a => p a.cursor).map Absorption.delivery

/-- The identity of the root frame. -/
def rootId (t : Chronicle) : String := t.state.context.level1.id

/-- Each accepted delivery is in one place, once. -/
structure Conserved (t : Chronicle) : Prop where
  accepted : ∀ d ∈ t.accepted, Accepted sha256 t.session d
  keys : (t.accepted.map ContextDelivery.key).Nodup
  once : t.accepted.Perm (t.absorbed.map Absorption.delivery ++ t.state.inbox)

/-- Every delivery that is recorded has been accepted. -/
def Recorded (t : Chronicle) : Prop :=
  ∀ write ∈ t.session.store.records.entries, ∀ delivery, write.record = .history delivery →
    delivery ∈ t.accepted

/-- What one plan of a frame absorbs, and what the root does, is in the order of acceptance, together
with what they may still absorb. -/
structure InOrder (t : Chronicle) : Prop where
  root : (t.absorbedBy (·.frameId = t.rootId) ++ t.state.inbox).Sublist t.accepted
  plan : ∀ cursor, cursor.frameId ≠ t.rootId →
    (t.absorbedBy (· = cursor) ++ t.state.inbox.filter (·.target = some cursor)).Sublist t.accepted

/-- The inbox has deliveries for plans that there have been, and the present plan of a frame is its
latest; so what a frame absorbs under any plan is in the order of acceptance. -/
structure Timely (t : Chronicle) : Prop where
  present : ∀ level c, t.state.context.cursorAt level = some c → c ∈ t.known
  targets : ∀ d ∈ t.state.inbox, ∀ target ∈ d.target, target ∈ t.known
  latest : ∀ level c, t.state.context.cursorAt level = some c →
    ∀ k ∈ t.known, k.frameId = c.frameId → k.planRevision ≤ c.planRevision
  frame : ∀ id, (t.absorbedBy (·.frameId = id)).Sublist t.accepted
  waiting : ∀ level c, level ≠ .one → t.state.context.cursorAt level = some c →
    (t.absorbedBy (·.frameId = c.frameId) ++
      t.state.inbox.filter (·.target = some c)).Sublist t.accepted

/-- The operations of a timely run: identities are not used again, and every delivery is for a
cursor that there has been. -/
def IsTimely (t : Chronicle) (env : Surroundings) (op : Operation) : Prop :=
  (∀ k, ∀ c ∈ t.known, c.frameId ≠ env.createId k) ∧
    ∀ deliveries, op.offers = some deliveries → ∀ d ∈ deliveries, ∀ target ∈ d.target,
      target ∈ t.known

variable {sha256} {t : Chronicle}

/-- What one plan absorbs grows by what the active frame takes in. -/
theorem absorbedBy_after (op : Operation) (s' : Session) (p : ContextCursor → Prop)
    [DecidablePred p] :
    (t.after op s').absorbedBy p = t.absorbedBy p ++
      if p (active t.state.context).cursor then taken t.session s' else [] := by
  unfold absorbedBy
  rw [after, List.filter_append, List.map_append, List.filter_map, List.map_map]
  congr 1
  split_ifs with hp
  · rw [List.filter_eq_self.mpr (by simp [hp])]
    exact List.map_id _
  · rw [List.filter_eq_nil_iff.mpr (by simp [hp])]
    rfl

/-- An operation that leaves the inbox absorbs and accepts nothing. -/
theorem after_of_inbox (op : Operation) {s' : Session} (h : s'.state.inbox = t.state.inbox) :
    (t.after op s').accepted = t.accepted ∧ (t.after op s').absorbed = t.absorbed := by
  have hnil : newIn ContextDelivery.key t.state.inbox t.state.inbox = [] :=
    newIn_eq_nil _ fun _ h => h
  constructor
  · rw [after, h, hnil, List.append_nil]
  · rw [after, taken, h, hnil, List.map_nil]
    exact List.append_nil _

namespace Conserved

variable (h : t.Conserved sha256)
include h

/-- What is in the inbox was accepted. -/
theorem inbox_accepted {d : ContextDelivery} (hd : d ∈ t.state.inbox) : d ∈ t.accepted :=
  h.once.symm.subset (List.mem_append_right _ hd)

/-- The deliveries in the inbox have keys of their own. -/
theorem inbox_keys : (t.state.inbox.map ContextDelivery.key).Nodup := by
  have hnodup := (h.once.map ContextDelivery.key).nodup_iff.mp h.keys
  rw [List.map_append] at hnodup
  exact (List.nodup_append.mp hnodup).2.1

/-- Deliveries that enter have new keys. -/
theorem entering_keys {s' : Session} {deliveries fresh : List ContextDelivery}
    (he : Enters sha256 t.session s' deliveries fresh) {d d' : ContextDelivery} (hd : d ∈ fresh)
    (hd' : d' ∈ t.accepted) : d.key ≠ d'.key := by
  intro hkey
  have hnone := he.unrecorded d hd
  rw [hkey, (h.accepted d' hd').recorded] at hnone
  cases hnone

/-- What enters is accepted, and nothing is absorbed. -/
theorem after_enters (op : Operation) {s' : Session} {deliveries fresh : List ContextDelivery}
    (he : Enters sha256 t.session s' deliveries fresh) :
    (t.after op s').accepted = t.accepted ++ fresh ∧ (t.after op s').absorbed = t.absorbed := by
  have hnew : newIn ContextDelivery.key t.state.inbox (t.state.inbox ++ fresh) = fresh := by
    refine newIn_append _ fun d hd hmem => ?_
    obtain ⟨d', hd', hkey⟩ := List.mem_map.mp hmem
    exact h.entering_keys he hd (h.inbox_accepted hd') hkey.symm
  have hnone : taken t.session s' = [] := by
    refine newIn_eq_nil _ fun d hd => ?_
    rw [he.inbox]
    exact List.mem_append_left _ hd
  constructor
  · rw [after, he.inbox, hnew]
  · rw [after, hnone, List.map_nil]
    exact List.append_nil _

/-- What is drained is absorbed, and nothing is accepted. -/
theorem after_drains (op : Operation) {s' : Session} {moved : List ContextDelivery}
    (hpre : moved <+: t.state.inbox.filter (·.absorbed t.state.context))
    (hd : Drains sha256 t.state s'.state moved) :
    taken t.session s' = moved ∧ (t.after op s').accepted = t.accepted := by
  have hinbox : s'.state.inbox = newIn ContextDelivery.key moved t.state.inbox := hd.inbox
  have hsub : moved.Sublist t.state.inbox := hpre.sublist.trans List.filter_sublist
  constructor
  · rw [taken, hinbox]
    exact newIn_newIn _ h.inbox_keys hsub
  · have hnone : newIn ContextDelivery.key t.state.inbox s'.state.inbox = [] := by
      refine newIn_eq_nil _ fun d hd' => ?_
      rw [hinbox] at hd'
      exact (newIn_sublist _ _ _).subset hd'
    rw [after, hnone, List.append_nil]

end Conserved

/-! ## Every step keeps them -/

/-- What was accepted stays recorded. -/
theorem accepted_mono {s s' : Session} {d : ContextDelivery}
    (hrecords : s.store.records.entries <+: s'.store.records.entries)
    (hlimit : s'.state.policy.maxDeliveryBytes = s.state.policy.maxDeliveryBytes)
    (h : Accepted sha256 s d) : Accepted sha256 s' d where
  recorded := recorded_mono hrecords h.recorded
  valid := h.valid
  fits := by
    rw [hlimit]
    exact h.fits

/-- An operation keeps each accepted delivery in one place. -/
theorem Conserved.step {env : Surroundings} {op : Operation} {s' : Session}
    (h : t.Conserved sha256) (hrecords : t.session.store.records.entries <+: s'.store.records.entries)
    (hs : Happens sha256 env op t.session s') : (t.after op s').Conserved sha256 := by
  -- What does not touch the inbox leaves every delivery where it is.
  have same (hinbox : s'.state.inbox = t.state.inbox)
      (hlimit : s'.state.policy.maxDeliveryBytes = t.state.policy.maxDeliveryBytes) :
      (t.after op s').Conserved sha256 := by
    obtain ⟨haccepted, habsorbed⟩ := after_of_inbox op hinbox
    refine ⟨?_, ?_, ?_⟩
    · rw [haccepted]
      exact fun d hd => accepted_mono hrecords hlimit (h.accepted d hd)
    · rw [haccepted]
      exact h.keys
    · rw [haccepted, habsorbed]
      exact hinbox ▸ h.once
  -- By what the operation does to the inbox.
  cases hs with
  | nothing hs => exact same (by rw [hs]) (by rw [hs])
  | evolves he => exact same he.inbox he.limit
  | enters deliveries fresh hop he =>
    obtain ⟨haccepted, habsorbed⟩ := h.after_enters op he
    refine ⟨?_, ?_, ?_⟩
    · rw [haccepted]
      intro d hd
      rcases List.mem_append.mp hd with hold | hnew
      · exact accepted_mono hrecords (congrArg _ he.policy) (h.accepted d hold)
      · -- A delivery that enters was checked before, against the same limit.
        refine ⟨he.recorded hnew, he.valid d hnew, ?_⟩
        show _ ≤ s'.state.policy.maxDeliveryBytes
        rw [he.policy]
        exact he.fits d hnew
    · -- What enters has keys that no accepted delivery has.
      rw [haccepted, List.map_append, List.nodup_append]
      refine ⟨h.keys, he.keys, ?_⟩
      intro key hold key' hnew heq
      obtain ⟨d, hd, rfl⟩ := List.mem_map.mp hold
      obtain ⟨d', hd', rfl⟩ := List.mem_map.mp hnew
      exact h.entering_keys he hd' hd heq.symm
    · rw [haccepted, habsorbed]
      show (t.accepted ++ fresh).Perm (t.absorbed.map Absorption.delivery ++ s'.state.inbox)
      rw [he.inbox, ← List.append_assoc]
      exact h.once.append_right fresh
  | drains moved hop hpre hd =>
    obtain ⟨hmoved, haccepted⟩ := h.after_drains op hpre hd
    have hsub : moved.Sublist t.state.inbox := hpre.sublist.trans List.filter_sublist
    refine ⟨?_, ?_, ?_⟩
    · rw [haccepted]
      exact fun d hd' => accepted_mono hrecords (congrArg _ hd.policy) (h.accepted d hd')
    · rw [haccepted]
      exact h.keys
    · rw [haccepted]
      -- What is moved and what remains is the inbox, in another order.
      have hperm := perm_append_newIn ContextDelivery.key h.inbox_keys hsub
      have hall : (t.after op s').absorbed.map Absorption.delivery =
          t.absorbed.map Absorption.delivery ++ moved := by
        rw [after, hmoved, List.map_append, List.map_map]
        exact congrArg _ (List.map_id _)
      rw [hall]
      show t.accepted.Perm (_ ++ s'.state.inbox)
      rw [show s'.state.inbox = newIn ContextDelivery.key moved t.state.inbox from hd.inbox,
        List.append_assoc]
      exact h.once.trans (hperm.append_left _)

/-- The cursors of a context are those of its levels. -/
theorem mem_cursors {s : Session} {c : ContextCursor} :
    c ∈ cursors s ↔ ∃ level, s.state.context.cursorAt level = some c := by
  rw [← exists_cursor_iff]
  simp [cursors]

/-- What a plan absorbed depends on what was absorbed. -/
theorem absorbedBy_of_absorbed {t' : Chronicle} (h : t'.absorbed = t.absorbed)
    (p : ContextCursor → Prop) [DecidablePred p] : t'.absorbedBy p = t.absorbedBy p := by
  rw [absorbedBy, absorbedBy, h]

/-- What is drained comes before what is left of those that the active frame absorbs. -/
theorem Conserved.drained_filter {s' : Session} {moved : List ContextDelivery}
    (h : t.Conserved sha256)
    (hpre : moved <+: t.state.inbox.filter (·.absorbed t.state.context))
    (hd : Drains sha256 t.state s'.state moved) {q : ContextDelivery → Bool}
    (hq : ∀ d : ContextDelivery, d.absorbed t.state.context = q d) :
    moved ++ s'.state.inbox.filter q = t.state.inbox.filter q := by
  obtain ⟨rest, hrest⟩ := hpre
  have hfilter : t.state.inbox.filter q = moved ++ rest := by
    rw [hrest]
    exact (List.filter_congr fun d _ => hq d).symm
  have hinbox : s'.state.inbox = newIn ContextDelivery.key moved t.state.inbox := hd.inbox
  rw [hinbox, filter_newIn ContextDelivery.key h.inbox_keys hfilter, hfilter]

/-- A frame below the root takes the first of the deliveries for its plan. -/
theorem Conserved.drained_below (op : Operation) {s' : Session} {moved : List ContextDelivery}
    (h : t.Conserved sha256) (hdistinct : t.state.context.Distinct)
    (hpre : moved <+: t.state.inbox.filter (·.absorbed t.state.context))
    (hd : Drains sha256 t.state s'.state moved) (hbelow : (active t.state.context).level ≠ .one) :
    moved ++ (t.after op s').state.inbox.filter (·.target = some (active t.state.context).cursor) =
      t.state.inbox.filter (·.target = some (active t.state.context).cursor) := by
  refine h.drained_filter hpre hd fun d => ?_
  rw [Bool.eq_iff_iff, absorbed_iff_target hdistinct hbelow, decide_eq_true_eq]

/-- What is left after draining. -/
theorem drained_sublist {s' : Session} {moved : List ContextDelivery}
    (hd : Drains sha256 t.state s'.state moved) (q : ContextDelivery → Bool) :
    (s'.state.inbox.filter q).Sublist (t.state.inbox.filter q) := by
  rw [hd.inbox]
  exact List.filter_sublist.filter q

/-- The cursors of a context that was drained. -/
theorem cursorAt_drained {s' : Session} {moved : List ContextDelivery}
    (hd : Drains sha256 t.state s'.state moved) :
    s'.state.context.cursorAt = t.state.context.cursorAt := by
  obtain ⟨blocks, -, hcontext⟩ := hd.context
  rw [hcontext, AgentContext.cursorAt_withEntries]

/-- Whatever an operation does, it moves the cursors. -/
theorem moves_of_happens {env : Surroundings} {op : Operation} {s' : Session}
    (hs : Happens sha256 env op t.session s') :
    Moves (fun id => ∃ k, id = env.createId k) t.state.context s'.state.context := by
  cases hs with
  | nothing hs => exact moves_of_cursorAt (by rw [hs])
  | enters deliveries fresh hop he => exact moves_of_cursorAt (by rw [he.context])
  | drains moved hop hpre hd => exact moves_of_cursorAt (cursorAt_drained hd)
  | evolves he => exact he.moves

/-- The frame that is active has the root's identity only if it is the root. -/
theorem active_root_iff (hdistinct : t.state.context.Distinct) :
    (active t.state.context).cursor.frameId = t.rootId ↔ (active t.state.context).level = .one := by
  have hone : t.state.context.cursorAt .one = some (ContextFrame.one t.state.context.level1).cursor :=
    rfl
  constructor
  · intro hid
    exact hdistinct.level_eq (cursorAt_active _) hone hid
  · intro hlevel
    have hsame := cursorAt_active t.state.context
    rw [hlevel, hone] at hsame
    rw [← Option.some.inj hsame]
    rfl

/-- An operation keeps the order of what is absorbed. -/
theorem InOrder.step {env : Surroundings} {op : Operation} {s' : Session} (h : t.InOrder)
    (hc : t.Conserved sha256) (hdistinct : t.state.context.Distinct)
    (hs : Happens sha256 env op t.session s') : (t.after op s').InOrder := by
  have hroot : (t.after op s').rootId = t.rootId := (moves_of_happens hs).root
  -- What does not touch the inbox absorbs nothing.
  have same (hinbox : s'.state.inbox = t.state.inbox) : (t.after op s').InOrder := by
    obtain ⟨haccepted, habsorbed⟩ := after_of_inbox op hinbox
    constructor
    · rw [absorbedBy_of_absorbed habsorbed, haccepted, hroot]
      exact hinbox ▸ h.root
    · intro cursor hne
      rw [absorbedBy_of_absorbed habsorbed, haccepted]
      exact hinbox ▸ h.plan cursor (hroot ▸ hne)
  -- By what the operation does to the inbox.
  cases hs with
  | nothing hs => exact same (by rw [hs])
  | evolves he => exact same he.inbox
  | enters deliveries fresh hop he =>
    obtain ⟨haccepted, habsorbed⟩ := hc.after_enters op he
    -- What enters is behind everything that is waiting.
    have hinbox : (t.after op s').state.inbox = t.state.inbox ++ fresh := he.inbox
    constructor
    · rw [absorbedBy_of_absorbed habsorbed, haccepted, hroot, hinbox, ← List.append_assoc]
      exact h.root.append_right fresh
    · intro cursor hne
      rw [absorbedBy_of_absorbed habsorbed, haccepted, hinbox, List.filter_append,
        ← List.append_assoc]
      exact (h.plan cursor (hroot ▸ hne)).append List.filter_sublist
  | drains moved hop hpre hd =>
    obtain ⟨hmoved, haccepted⟩ := hc.after_drains op hpre hd
    constructor
    · rw [absorbedBy_after, haccepted, hmoved, hroot]
      split_ifs with hid
      · -- The root takes the beginning of the inbox.
        have hall (d : ContextDelivery) : d.absorbed t.state.context = true :=
          absorbed_of_root ((active_root_iff hdistinct).mp hid)
        have hfilter := hc.drained_filter hpre hd hall
        rw [List.filter_eq_self.mpr (fun _ _ => rfl), List.filter_eq_self.mpr (fun _ _ => rfl)]
          at hfilter
        have hinbox : moved ++ (t.after op s').state.inbox = t.state.inbox := hfilter
        rw [List.append_assoc, hinbox]
        exact h.root
      · rw [List.append_nil]
        -- Another frame absorbed, and what was in the inbox is still in its order.
        have hsub := drained_sublist hd fun _ => true
        rw [List.filter_eq_self.mpr (fun _ _ => rfl), List.filter_eq_self.mpr (fun _ _ => rfl)]
          at hsub
        exact (hsub.append_left _).trans h.root
    · intro cursor hne
      have hne' : cursor.frameId ≠ t.rootId := hroot ▸ hne
      rw [absorbedBy_after, haccepted, hmoved]
      split_ifs with hcursor
      · -- The plan absorbs from the inbox what is for it, from the beginning on.
        have hbelow : (active t.state.context).level ≠ .one := by
          rw [Ne, ← active_root_iff hdistinct, hcursor]
          exact hne'
        have hfilter := hc.drained_below op hdistinct hpre hd hbelow
        rw [List.append_assoc, ← hcursor, hfilter, hcursor]
        exact h.plan cursor hne'
      · rw [List.append_nil]
        exact ((drained_sublist hd _).append_left _).trans (h.plan cursor hne')

/-! ## Timely runs -/

/-- The present plans stay the latest ones. -/
theorem Timely.latest_step {env : Surroundings} {op : Operation} {s' : Session} (h : t.Timely)
    (hop : t.IsTimely env op) (hdistinct : s'.state.context.Distinct)
    (hs : Happens sha256 env op t.session s') :
    ∀ level c, s'.state.context.cursorAt level = some c → ∀ k ∈ (t.after op s').known,
      k.frameId = c.frameId → k.planRevision ≤ c.planRevision := by
  intro level c hc k hk hid
  rcases List.mem_append.mp hk with hold | hnew
  · cases moves_of_happens hs level c hc with
    | same hsame => exact h.latest level c hsame k hold hid
    | planned hplanned hpos =>
      have hle : k.planRevision ≤ c.planRevision - 1 := h.latest level _ hplanned k hold hid
      omega
    | created hlevel hnew =>
      obtain ⟨n, hn⟩ := hnew
      exact absurd (hid.trans hn) (hop.1 n k hold)
  · obtain ⟨level', hk'⟩ := mem_cursors.mp hnew
    have hlevel := hdistinct.level_eq hk' hc hid
    rw [hlevel, hc] at hk'
    exact Nat.le_of_eq (congrArg ContextCursor.planRevision (Option.some.inj hk').symm)

/-- No delivery waits for a plan that is only installed now. -/
theorem Timely.none_waiting {c : ContextCursor} (h : t.Timely)
    (hc : c ∉ t.known) : t.state.inbox.filter (·.target = some c) = [] := by
  rw [List.filter_eq_nil_iff]
  intro d hd htarget
  exact hc (h.targets d hd c (by simpa using htarget))

/-- An operation of a timely chronicle keeps it timely. -/
theorem Timely.step {env : Surroundings} {op : Operation} {s' : Session} (h : t.Timely)
    (hop : t.IsTimely env op) (hc : t.Conserved sha256) (ho : t.InOrder)
    (hdistinct : t.state.context.Distinct) (hdistinct' : s'.state.context.Distinct)
    (hs : Happens sha256 env op t.session s') : (t.after op s').Timely := by
  have ho' := ho.step hc hdistinct hs
  have hroot : (t.after op s').rootId = t.rootId := (moves_of_happens hs).root
  have hknown : ∀ c ∈ t.known, c ∈ (t.after op s').known := fun c hc => List.mem_append_left _ hc
  have hpresent : ∀ level c, s'.state.context.cursorAt level = some c →
      c ∈ (t.after op s').known :=
    fun level c hc => List.mem_append_right _ (mem_cursors.mpr ⟨level, hc⟩)
  have hlatest := h.latest_step hop hdistinct' hs
  -- An operation that leaves the inbox may only change which plans are present.
  have same (hinbox : s'.state.inbox = t.state.inbox) : (t.after op s').Timely := by
    obtain ⟨haccepted, habsorbed⟩ := after_of_inbox op hinbox
    have hbox : (t.after op s').state.inbox = t.state.inbox := hinbox
    refine ⟨hpresent, ?_, hlatest, ?_, ?_⟩
    · rw [hbox]
      exact fun d hd target ht => hknown _ (h.targets d hd target ht)
    · intro id
      rw [absorbedBy_of_absorbed habsorbed, haccepted]
      exact h.frame id
    · intro level c hlevel hcursor
      rw [absorbedBy_of_absorbed habsorbed, haccepted, hbox]
      cases moves_of_happens hs level c hcursor with
      | same hsame => exact h.waiting level c hlevel hsame
      | planned hplanned hpos =>
        have hnew : c ∉ t.known := by
          intro hmem
          have hle : c.planRevision ≤ c.planRevision - 1 := h.latest level _ hplanned c hmem rfl
          omega
        rw [h.none_waiting hnew, List.append_nil]
        exact h.frame _
      | created _ hcreated =>
        obtain ⟨n, hn⟩ := hcreated
        have hnew : c ∉ t.known := fun hmem => hop.1 n c hmem hn
        rw [h.none_waiting hnew, List.append_nil]
        exact h.frame _
  cases hs with
  | nothing hs => exact same (by rw [hs])
  | evolves he => exact same he.inbox
  | enters deliveries fresh hoffers he =>
    obtain ⟨haccepted, habsorbed⟩ := hc.after_enters op he
    have hbox : (t.after op s').state.inbox = t.state.inbox ++ fresh := he.inbox
    refine ⟨hpresent, ?_, hlatest, ?_, ?_⟩
    · rw [hbox]
      intro d hd target ht
      rcases List.mem_append.mp hd with hold | hnew
      · exact hknown _ (h.targets d hold target ht)
      · exact hknown _ (hop.2 deliveries hoffers d (he.mem d hnew) target ht)
    · intro id
      rw [absorbedBy_of_absorbed habsorbed, haccepted]
      exact (h.frame id).trans (List.sublist_append_left _ _)
    · intro level c hlevel hcursor
      have hold : t.state.context.cursorAt level = some c := by
        rw [← hcursor]
        exact congrArg (fun context => AgentContext.cursorAt context level) he.context.symm
      rw [absorbedBy_of_absorbed habsorbed, haccepted, hbox, List.filter_append,
        ← List.append_assoc]
      exact (h.waiting level c hlevel hold).append List.filter_sublist
  | drains moved hdelivers hpre hd =>
    obtain ⟨hmoved, haccepted⟩ := hc.after_drains op hpre hd
    refine ⟨hpresent, ?_, hlatest, ?_, ?_⟩
    · intro d hmem target ht
      have hinbox : s'.state.inbox = newIn ContextDelivery.key moved t.state.inbox := hd.inbox
      exact hknown _ (h.targets d ((newIn_sublist _ _ _).subset (hinbox ▸ hmem)) target ht)
    · intro id
      by_cases hid : id = t.rootId
      · have hsub := ho'.root
        rw [hroot, ← hid] at hsub
        exact (List.sublist_append_left _ _).trans hsub
      · rw [absorbedBy_after, haccepted, hmoved]
        split_ifs with hactive
        · have hbelow : (active t.state.context).level ≠ .one := by
            rw [Ne, ← active_root_iff hdistinct, hactive]
            exact hid
          have hsub := h.waiting _ _ hbelow (cursorAt_active _)
          rw [← hc.drained_below op hdistinct hpre hd hbelow, ← List.append_assoc, hactive] at hsub
          exact (List.sublist_append_left _ _).trans hsub
        · rw [List.append_nil]
          exact h.frame id
    · intro level c hlevel hcursor
      have hold : t.state.context.cursorAt level = some c := by
        rw [← hcursor]
        exact congrFun (cursorAt_drained hd).symm level
      rw [absorbedBy_after, haccepted, hmoved]
      split_ifs with hactive
      · -- It is the active frame, below the root, that takes what waits for it.
        have hsame := hdistinct.level_eq (cursorAt_active _) hold hactive
        rw [← hsame, cursorAt_active] at hold
        obtain rfl := Option.some.inj hold
        have hbelow : (active t.state.context).level ≠ .one := hsame ▸ hlevel
        rw [List.append_assoc, hc.drained_below op hdistinct hpre hd hbelow]
        exact h.waiting _ _ hbelow (cursorAt_active _)
      · rw [List.append_nil]
        exact ((drained_sublist hd _).append_left _).trans (h.waiting level c hlevel hold)

end Chronicle

/-! ## Runs -/

section Runs

open Chronicle

variable (sha256 : String → String) {allowed : Chronicle → Surroundings → Operation → Prop}

/-- The frames are distinct in every chronicle. -/
theorem distinct_session {t : Chronicle} (h : (chronicles sha256 allowed).Reachable t) :
    t.state.context.Distinct :=
  (wellFormed_of_validateCheckpoint (durable_session sha256 h).valid).distinct

/-- A created manager has an empty inbox. -/
theorem inbox_created {env : Surroundings} {options : ContextManagerOptions} {s : Session}
    (h : createAgentContextManager env options .empty = .ok s) : s.state.inbox = [] := by
  simp only [createAgentContextManager, bind_eq_ok, exists_unit, pure_eq_ok] at h
  obtain ⟨-, -, -, -, -, -, store, -, rfl⟩ := h
  rfl

/-- A created manager has recorded nothing. -/
theorem records_created {env : Surroundings} {options : ContextManagerOptions} {s : Session}
    (h : createAgentContextManager env options .empty = .ok s) : s.store.records.entries = [] := by
  simp only [createAgentContextManager, bind_eq_ok, exists_unit, pure_eq_ok] at h
  obtain ⟨-, -, -, -, -, -, store, hcommit, rfl⟩ := h
  exact (commit_appended hcommit).records

/-- Each accepted delivery is in one place, in every run. -/
theorem conserved_of_reachable {t : Chronicle} (h : (chronicles sha256 allowed).Reachable t) :
    t.Conserved sha256 := by
  refine TransitionSystem.Reachable.invariant (P := fun t => t.Conserved sha256) ?_ ?_ h
  · rintro _ ⟨env, options, s, hcreate, rfl⟩
    have hinbox : (begin s).state.inbox = [] := inbox_created hcreate
    exact ⟨fun _ h => (by cases h), .nil, by rw [hinbox]; exact .nil⟩
  · rintro t _ ht hc (⟨env, op, -, rfl⟩ | ⟨env, s, hrestore, rfl⟩)
    · have hd := durable_session sha256 ht
      exact wp_finalState (wp_mono
        (wp_and (perform_happens sha256 hd env op) (perform_records sha256 hd env op))
        (fun _ _ h => hc.step h.2 h.1) (fun _ _ h => hc.step h.2 h.1))
    · rwa [(durable_session sha256 ht).restored hrestore]

/-- What is recorded under a key was accepted, in every run. -/
theorem recorded_of_reachable {t : Chronicle} (h : (chronicles sha256 allowed).Reachable t) :
    t.Recorded := by
  refine TransitionSystem.Reachable.invariant (P := Recorded) ?_ ?_ h
  · rintro _ ⟨env, options, s, hcreate, rfl⟩
    have hrecords : s.store.records.entries = [] := records_created hcreate
    intro write hwrite
    have hwrite' : write ∈ s.store.records.entries := hwrite
    rw [hrecords] at hwrite'
    cases hwrite'
  · rintro t _ ht hr (⟨env, op, -, rfl⟩ | ⟨env, s, hrestore, rfl⟩)
    · have hc := conserved_of_reachable sha256 ht
      have hstep (s' : Session)
          (hs : (∃ deliveries fresh, Enters sha256 t.session s' deliveries fresh) ∨
            ∀ write ∈ s'.store.records.entries, ∀ delivery, write.record = .history delivery →
              write ∈ t.session.store.records.entries) : (t.after op s').Recorded := by
        intro write hwrite delivery hhistory
        have hwrite' : write ∈ s'.store.records.entries := hwrite
        rcases hs with ⟨deliveries, fresh, he⟩ | hsame
        · rw [(hc.after_enters op he).1]
          rw [he.records] at hwrite'
          rcases List.mem_append.mp hwrite' with hold | hnew
          · exact List.mem_append_left _ (hr write hold delivery hhistory)
          · obtain ⟨d, hd, rfl⟩ := List.mem_map.mp hnew
            obtain rfl : d = delivery := ContextRecord.history.inj hhistory
            exact List.mem_append_right _ hd
        · exact List.mem_append_left _ (hr write (hsame write hwrite' delivery hhistory) _ hhistory)
      exact wp_finalState (wp_mono (perform_histories sha256 (durable_session sha256 ht) env op)
        (fun _ s' => hstep s') (fun _ s' => hstep s'))
    · rwa [(durable_session sha256 ht).restored hrestore]

/-- A call that has taken in the first `n` new deliveries, and there were no more, has accepted all that
it was offered. -/
theorem accepted_of_found {t : Chronicle} (hc : t.Conserved sha256) (hr : t.Recorded) (op : Operation)
    {s' : Session} {deliveries fresh : List ContextDelivery} {n : ℕ}
    (hfound : Found sha256 t.session deliveries fresh) (hall : fresh.length ≤ n)
    (he : Enters sha256 t.session s' deliveries (fresh.take n)) :
    ∀ d ∈ deliveries, ∃ a ∈ (t.after op s').accepted, a.SameContent d := by
  rw [List.take_of_length_le hall] at he
  rw [(hc.after_enters op he).1]
  intro d hd
  rcases hfound.same d hd with ⟨d', hd', -, hsame⟩ | ⟨recorded, hrecorded, hsame⟩
  · exact ⟨d', List.mem_append_right _ hd', sameContent_of_sameDelivery hsame⟩
  · obtain ⟨write, hwrite, -, hhistory⟩ := exists_of_recorded hrecorded
    exact ⟨recorded, List.mem_append_left _ (hr write hwrite recorded hhistory),
      sameContent_of_sameDelivery hsame⟩

/-- What a frame absorbs is in the order of acceptance, in every run. -/
theorem inOrder_of_reachable {t : Chronicle} (h : (chronicles sha256 allowed).Reachable t) :
    t.InOrder := by
  refine TransitionSystem.Reachable.invariant (P := InOrder) ?_ ?_ h
  · rintro _ ⟨env, options, s, hcreate, rfl⟩
    have hinbox : (begin s).state.inbox = [] := inbox_created hcreate
    exact ⟨by rw [hinbox]; exact .slnil, fun cursor _ => by rw [hinbox]; exact .slnil⟩
  · rintro t _ ht ho (⟨env, op, -, rfl⟩ | ⟨env, s, hrestore, rfl⟩)
    · have hc := conserved_of_reachable sha256 ht
      have hdistinct := distinct_session sha256 ht
      exact wp_finalState (wp_mono (perform_happens sha256 (durable_session sha256 ht) env op)
        (fun _ _ h => ho.step hc hdistinct h) (fun _ _ h => ho.step hc hdistinct h))
    · rwa [(durable_session sha256 ht).restored hrestore]

/-- A chronicle whose operations are timely is timely. -/
theorem timely_of_reachable {t : Chronicle}
    (h : (chronicles sha256 IsTimely).Reachable t) : t.Timely := by
  refine TransitionSystem.Reachable.invariant (P := Chronicle.Timely) ?_ ?_ h
  · -- Nothing is in the inbox of a new context, and no frame's cursor is before its own.
    rintro _ ⟨env, options, s, hcreate, rfl⟩
    have hinbox : (begin s).state.inbox = [] := inbox_created hcreate
    have hdistinct : (begin s).state.context.Distinct :=
      (wellFormed_of_validateCheckpoint (durable_created hcreate).valid).distinct
    refine ⟨fun level c hc => mem_cursors.mpr ⟨level, hc⟩, ?_, ?_, fun id => .slnil, ?_⟩
    · rw [hinbox]
      intro _ h
      cases h
    · intro level c hc k hk hid
      obtain ⟨level', hk'⟩ := mem_cursors.mp hk
      have hlevel := hdistinct.level_eq hk' hc hid
      rw [hlevel] at hk'
      have hsame : some k = some c := hk'.symm.trans hc
      exact Nat.le_of_eq (congrArg ContextCursor.planRevision (Option.some.inj hsame))
    · intro level c _ _
      rw [hinbox]
      exact .slnil
  · -- An operation keeps it by what it can do, a restoration because it gives the same state.
    rintro t _ ht htimely (⟨env, op, hop, rfl⟩ | ⟨env, s, hrestore, rfl⟩)
    · have hd := durable_session sha256 ht
      have hdistinct' : Ends (op.perform sha256 env) (fun s' => s'.state.context.Distinct)
          t.session :=
        wp_mono (hd.perform sha256 env op)
          (fun _ _ h => (wellFormed_of_validateCheckpoint h.valid).distinct)
          (fun _ _ h => (wellFormed_of_validateCheckpoint h.valid).distinct)
      have hstep (s' : Session) (h : Happens sha256 env op t.session s' ∧
          s'.state.context.Distinct) : (t.after op s').Timely :=
        htimely.step hop (conserved_of_reachable sha256 ht) (inOrder_of_reachable sha256 ht)
          (distinct_session sha256 ht) h.2 h.1
      exact wp_finalState (wp_mono (wp_and (perform_happens sha256 hd env op) hdistinct')
        (fun _ s' h => hstep s' h) (fun _ s' h => hstep s' h))
    · rwa [(durable_session sha256 ht).restored hrestore]

/-- What a context has done with its deliveries. -/
structure Delivers (t : Chronicle) : Prop where
  /-- No key is accepted twice. -/
  keys : (t.accepted.map ContextDelivery.key).Nodup
  /-- What was accepted has been absorbed, or is in the inbox, once. -/
  once : t.accepted.Perm (t.absorbed.map Absorption.delivery ++ t.state.inbox)
  /-- What leaves the inbox is appended to the active frame, as its entries or one reference. -/
  appended : ∀ (env : Surroundings) (op : Operation),
    let s' := finalState (op.perform sha256 env t.session)
    taken t.session s' = [] ∨
      ∃ blocks, List.Forall₂ (ContextDelivery.Becomes sha256 t.state.context) (taken t.session s')
        blocks ∧ s'.state.context = t.state.context.withEntries blocks.flatten
  /-- A plan of a frame absorbs in the order of acceptance. -/
  plan : ∀ cursor, (t.absorbedBy (· = cursor)).Sublist t.accepted
  /-- The root absorbs in the order of acceptance. -/
  root : (t.absorbedBy (·.frameId = t.rootId)).Sublist t.accepted
  /-- A `receive` that returns has accepted all that it was offered. -/
  received : ∀ (env : Surroundings) (deliveries : List ContextDelivery) (s' : Session),
    receive sha256 env deliveries t.session = .ok () s' →
    ∀ d ∈ deliveries, ∃ a ∈ (t.after (.receive deliveries) s').accepted, a.SameContent d
  /-- So has a `receiveAvailable` that says so. -/
  available : ∀ (env : Surroundings) (deliveries : List ContextDelivery) (s' : Session),
    receiveAvailable sha256 env deliveries t.session = .ok true s' →
    ∀ d ∈ deliveries, ∃ a ∈ (t.after (.receiveAvailable deliveries) s').accepted, a.SameContent d
  /-- One that says that it has not leaves no room. -/
  full : ∀ (env : Surroundings) (deliveries : List ContextDelivery) (s' : Session),
    receiveAvailable sha256 env deliveries t.session = .ok false s' →
    s'.state.inbox.length = s'.state.policy.maxInbox
  /-- What has been accepted is ignored when it comes again. -/
  ignored : ∀ (env : Surroundings) (op : Operation) (deliveries : List ContextDelivery),
    (∀ ref, env.failure (.read ref) = none) → op.offers = some deliveries →
    (∀ d ∈ deliveries, d ∈ t.accepted) → op.perform sha256 env t.session = .ok () t.session
  /-- Other content under an accepted key is rejected. -/
  rejected : ∀ (env : Surroundings) (op : Operation) (deliveries : List ContextDelivery),
    op.offers = some deliveries →
    (∃ d ∈ deliveries, ∃ accepted ∈ t.accepted,
      d.key = accepted.key ∧ ¬ accepted.SameContent d) →
    ∃ fault, op.perform sha256 env t.session = .error fault t.session

/-- A call that has taken in as many new deliveries as there was room for, and there were more, leaves no
room. -/
theorem full_of_found {s s' : Session} {deliveries fresh : List ContextDelivery}
    (hvalid : validateCheckpoint s.state = .ok ()) (hmore : s.state.room < fresh.length)
    (he : Enters sha256 s s' deliveries (fresh.take s.state.room)) :
    s'.state.inbox.length = s'.state.policy.maxInbox := by
  have hroom := (inbox_of_validateCheckpoint hvalid).1
  rw [he.inbox, he.policy, List.length_append, List.length_take]
  unfold ContextCheckpoint.room at *
  omega

/-- Every run does with its deliveries what it should. -/
theorem delivers_of_reachable {t : Chronicle} (h : (chronicles sha256 allowed).Reachable t) :
    Delivers sha256 t := by
  have hc := conserved_of_reachable sha256 h
  have ho := inOrder_of_reachable sha256 h
  have hd := durable_session sha256 h
  -- The root absorbs a sublist of what was accepted, since the inbox only adds to it.
  have hroot : (t.absorbedBy (·.frameId = t.rootId)).Sublist t.accepted :=
    (List.sublist_append_left _ _).trans ho.root
  have hr := recorded_of_reachable sha256 h
  refine ⟨hc.keys, hc.once, ?_, ?_, hroot, ?_, ?_, ?_, ?_, ?_⟩
  · intro env op
    refine wp_finalState (P := fun s' => taken t.session s' = [] ∨
      ∃ blocks, List.Forall₂ (ContextDelivery.Becomes sha256 t.state.context) (taken t.session s')
        blocks ∧ s'.state.context = t.state.context.withEntries blocks.flatten) ?_
    -- Only the loop over the inbox absorbs, and it takes a prefix of what can be absorbed.
    have hstep (s' : Session) (hs : Happens sha256 env op t.session s') :
        taken t.session s' = [] ∨ ∃ blocks,
          List.Forall₂ (ContextDelivery.Becomes sha256 t.state.context) (taken t.session s')
            blocks ∧ s'.state.context = t.state.context.withEntries blocks.flatten := by
      cases hs with
      | nothing hs => exact .inl (newIn_eq_nil _ fun d hd => hs ▸ hd)
      | evolves he => exact .inl (newIn_eq_nil _ fun d hd => he.inbox ▸ hd)
      | enters deliveries fresh hop he =>
        refine .inl (newIn_eq_nil _ fun d hd => ?_)
        rw [he.inbox]
        exact List.mem_append_left _ hd
      | drains moved hop hpre hdrains =>
        rw [(hc.after_drains op hpre hdrains).1]
        exact .inr hdrains.context
    exact wp_mono (perform_happens sha256 hd env op) (fun _ s' => hstep s') (fun _ s' => hstep s')
  · intro cursor
    by_cases hcursor : cursor.frameId = t.rootId
    · -- One plan of the root absorbs part of what the root does.
      refine List.Sublist.trans (List.Sublist.map _ ?_) hroot
      refine List.monotone_filter_right _ fun a ha => ?_
      rw [decide_eq_true_eq] at ha ⊢
      rw [ha]
      exact hcursor
    · exact (List.sublist_append_left _ _).trans (ho.plan cursor hcursor)
  · -- A receive that returns took every fresh delivery.
    intro env deliveries s' hreceive
    obtain ⟨fresh, hfound, he, -⟩ := wp_ok (receive_enters env deliveries hd.valid) hreceive
    exact accepted_of_found sha256 hc hr _ hfound (Nat.le_refl _) he
  · -- A receive that reports room took every fresh delivery.
    intro env deliveries s' hreceive
    obtain ⟨fresh, hfound, hall, he, -⟩ :=
      wp_ok (receiveAvailable_enters env deliveries hd.valid) hreceive
    exact accepted_of_found sha256 hc hr _ hfound (hall.mp rfl) he
  · -- A receive that reports no room would have overfilled the inbox.
    intro env deliveries s' hreceive
    obtain ⟨fresh, -, hall, he, -⟩ :=
      wp_ok (receiveAvailable_enters env deliveries hd.valid) hreceive
    refine full_of_found sha256 hd.valid ?_ he
    by_contra hle
    exact Bool.false_ne_true (hall.mpr (Nat.not_lt.mp hle))
  · -- What was accepted with this content is neither accepted again nor refused.
    intro env op deliveries hread hop hsame
    refine ignores_same sha256 hd env hread hop fun d hmem => ?_
    have haccepted := hc.accepted d (hsame d hmem)
    exact ⟨haccepted.valid, d, haccepted, rfl, by simp [sameDelivery]⟩
  · -- What was accepted with other content makes the operation throw.
    rintro env op deliveries hop ⟨d, hmem, accepted, haccepted, hkey, hother⟩
    exact rejects_other sha256 (hc.accepted accepted haccepted) hkey (sameDelivery_eq_false hother)
      env hop hmem

/-- In every run, what was offered and taken is accepted, an accepted delivery is absorbed once or waits in
the inbox, and what one plan of a frame or the root absorbs is in the order of acceptance; in a timely run
what a frame absorbs is, under all its plans. -/
theorem delivers_once :
    (∀ t, (chronicles sha256 fun _ _ _ => True).Reachable t → Delivers sha256 t) ∧
    ∀ t, (chronicles sha256 IsTimely).Reachable t →
      ∀ id, (t.absorbedBy (·.frameId = id)).Sublist t.accepted :=
  ⟨fun _ h => delivers_of_reachable sha256 h, fun _ h => (timely_of_reachable sha256 h).frame⟩

end Runs

/-! ## A frame that absorbs out of order -/

section OutOfOrder

open Chronicle

/-- A manager with room for two deliveries. -/
def spacious : Except Fault Session :=
  createAgentContextManager (steady "a")
    { tightOptions with policy := ⟨fun _ => ⟨1800, 1700, 1600, 5⟩, 1, 2, 150⟩ } .empty

/-- A message for a plan of the frame of the first task. -/
def messageFor (key : String) (planRevision : ℕ) : ContextDelivery :=
  ⟨key, [⟨key, 0, .message .user key none⟩], some ⟨"c0", planRevision⟩⟩

/-- The root plans a task and starts it, the message for its first plan comes after that for its
second, and is absorbed first. -/
def crossing : List (String × Operation) :=
  [("b", .apply "1" ⟨"a0", 0⟩ (.plan ["x"]) []), ("c", .apply "2" ⟨"a0", 1⟩ .advance []),
    ("d", .receive [messageFor "k" 1, messageFor "l" 0]), ("e", .prepare),
    ("f", .apply "3" ⟨"c0", 0⟩ (.plan ["y"]) []), ("g", .prepare)]

/-- The chronicle after some operations, each in steady surroundings. -/
def Chronicle.run (t : Chronicle) (steps : List (String × Operation)) : Chronicle :=
  steps.foldl (fun t step => t.after step.2 (finalState (step.2.perform id (steady step.1) t.session))) t

/-- The chronicle of a run is reachable. -/
theorem reachable_run {steps : List (String × Operation)} {t : Chronicle}
    (h : (chronicles id fun _ _ _ => True).Reachable t) :
    (chronicles id fun _ _ _ => True).Reachable (t.run steps) := by
  induction steps generalizing t with
  | nil => exact h
  | cons step steps ih => exact ih (h.step (.inl ⟨_, _, trivial, rfl⟩))

/-- Two deliveries are accepted in one order and absorbed in the other. -/
theorem crossed : ifCreated spacious (fun s =>
    let t := (begin s).run crossing
    decide (t.accepted.map ContextDelivery.key = ["k", "l"]) &&
      decide ((t.absorbedBy (·.frameId = "c0")).map ContextDelivery.key = ["l", "k"])) = true := by
  decide +kernel

/-- Not every frame absorbs in the order of acceptance. -/
theorem not_always_in_order : ¬ ∀ t, (chronicles id fun _ _ _ => True).Reachable t →
    ∀ frameId, (t.absorbedBy (·.frameId = frameId)).Sublist t.accepted := by
  intro h
  obtain ⟨s, hcreated, hfacts⟩ := exists_of_ifCreated crossed
  simp only [Bool.and_eq_true, decide_eq_true_eq] at hfacts
  have hreach : (chronicles id fun _ _ _ => True).Reachable ((begin s).run crossing) :=
    reachable_run (.of_init ⟨_, _, s, hcreated, rfl⟩)
  have hsub := (h _ hreach "c0").map ContextDelivery.key
  rw [hfacts.1, hfacts.2] at hsub
  exact absurd hsub (by decide)

/-- In the beginning the plan of the root is known. -/
theorem known_begin : ifCreated spacious (fun s => decide ((begin s).known = [⟨"a0", 0⟩])) = true := by
  decide +kernel

/-- The crossing messages are absorbed once each, and a message to the root is absorbed in order. -/
theorem delivers_crossing : ∃ s, spacious = .ok s ∧ Delivers id ((begin s).run crossing) ∧
    let env : Surroundings := ⟨fun _ => "z", fun _ => none⟩
    let t := (begin s).after (.receive [greeting])
      (finalState ((Operation.receive [greeting]).perform id env s))
    (t.absorbedBy (·.frameId = "a0")).Sublist t.accepted := by
  obtain ⟨s, hcreated, hknown⟩ := exists_of_ifCreated known_begin
  refine ⟨s, hcreated, (delivers_once id).1 _ (reachable_run (.of_init ⟨_, _, s, hcreated, rfl⟩)), ?_⟩
  have hstart : (chronicles id IsTimely).Reachable (begin s) := .of_init ⟨_, _, s, hcreated, rfl⟩
  refine (delivers_once id).2 _ (hstart.step (.inl ⟨_, _, ⟨?_, ?_⟩, rfl⟩)) "a0"
  · rw [decide_eq_true_eq] at hknown
    rw [hknown]
    simp
  · rintro _ ⟨⟩ d hd target htarget
    obtain rfl := List.mem_singleton.mp hd
    cases htarget

end OutOfOrder

end OsAgent.Context
