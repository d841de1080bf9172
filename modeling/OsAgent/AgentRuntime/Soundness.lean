import OsAgent.AgentRuntime.Places

/-!
# Every move keeps the places
-/

namespace OsAgent.AgentRuntime

open OsAgent.Library

/-! ## An operation is launched -/

section Launching

variable {s : Executor} {operation : ExecutionOperation} {x y : Launch}

/-- The process after an operation was launched. -/
theorem launch_eq (h : s.Launchable operation) : s.launch operation =
    { s with
      launches := s.launches.insert (s.newLaunch operation)
      nextTicket := s.nextTicket + 1
      active := Function.update s.active operation.id (some s.nextTicket)
      mutationTails :=
        if operation.effect.mutating then
          Function.update s.mutationTails (s.workspace operation.agentId) (some s.nextTicket)
        else s.mutationTails } := by
  unfold Executor.launch
  rw [if_neg]
  simp [h.running, h.inactive]

/-- The launches after an operation was launched. -/
theorem has_launch (p : Placed s) (h : s.Launchable operation) :
    (s.launch operation).Has x ↔ x = s.newLaunch operation ∨ s.Has x := by
  rw [launch_eq h]
  show (s.setLaunch (s.newLaunch operation)).Has x ↔ _
  rw [has_setLaunch]
  constructor
  · rintro (rfl | ⟨-, hx⟩)
    · exact .inl rfl
    · exact .inr hx
  · rintro (rfl | hx)
    · exact .inl rfl
    · exact .inr ⟨Nat.ne_of_lt (p.bounded x hx), hx⟩

/-- A launch has its place. -/
theorem Placed.launch (p : Placed s) (h : s.Launchable operation) :
    Placed (s.launch operation) := by
  have hhas := fun x => has_launch (x := x) p h
  have hticket : (s.newLaunch operation).ticket = s.nextTicket := rfl
  rw [launch_eq h] at hhas ⊢
  -- The new launch has the last ticket; of the others the places stay.
  constructor
  case bounded =>
    intro x hx
    show x.ticket < s.nextTicket + 1
    rcases (hhas x).mp hx with rfl | hx
    · omega
    · have hlt := p.bounded x hx
      omega
  case idle =>
    intro hidle
    have hisolated := h.isolated
    rw [show s.isolated = false from hidle] at hisolated
    cases hisolated
  case known =>
    intro x hx
    rcases (hhas x).mp hx with rfl | hx
    · obtain ⟨old, hget, hagent, heffect, -⟩ := h.stored
      exact ⟨old, hget, hagent, heffect⟩
    · exact p.known x hx
  case behind =>
    intro x x' hx hx' hcontend hlt
    rcases (hhas x).mp hx with rfl | hx
    · rcases (hhas x').mp hx' with rfl | hx'
      · omega
      · -- The new launch waits for the last one before it in the workspace.
        obtain ⟨last, hlast, htail, hlastContend, hle⟩ := p.tail x' hx' hcontend.2.1
        have hcontend' : s.Contend (s.newLaunch operation) last :=
          ⟨hcontend.1, hlastContend.2.1, hcontend.2.2.trans hlastContend.2.2⟩
        refine ⟨last, (hhas last).mpr (.inr hlast), ?_, hcontend', p.bounded last hlast, hle⟩
        have hworkspace : s.workspace operation.agentId = s.workspace x'.operation.agentId :=
          hcontend.2.2
        have hmutating : operation.effect.mutating := hcontend.1
        show (s.newLaunch operation).previous = _
        unfold Executor.newLaunch
        simp only
        rw [if_pos hmutating, hworkspace]
        exact htail
    · rcases (hhas x').mp hx' with rfl | hx'
      · have hbound := p.bounded x hx
        omega
      · obtain ⟨q, hq, hprevious, hqcontend, hqlt, hle⟩ := p.behind x x' hx hx' hcontend hlt
        exact ⟨q, (hhas q).mpr (.inr hq), hprevious, hqcontend, hqlt, hle⟩
  case tail =>
    intro x hx hmutating
    show ∃ last : Launch, _ ∧ (if operation.effect.mutating then
        Function.update s.mutationTails (s.workspace operation.agentId) (some s.nextTicket)
      else s.mutationTails) (s.workspace x.operation.agentId) = some last.ticket ∧ _
    by_cases hshares : operation.effect.mutating ∧
        s.workspace x.operation.agentId = s.workspace operation.agentId
    · -- It is now the last one of its workspace.
      refine ⟨s.newLaunch operation, (hhas _).mpr (.inl rfl), ?_,
        ⟨hmutating, hshares.1, hshares.2⟩, ?_⟩
      · rw [if_pos hshares.1, hshares.2, Function.update_self]
        rfl
      · rcases (hhas x).mp hx with rfl | hx
        · exact Nat.le_refl _
        · exact Nat.le_of_lt (p.bounded x hx)
    · have hold : s.Has x := by
        rcases (hhas x).mp hx with rfl | hx
        · exact absurd ⟨hmutating, rfl⟩ hshares
        · exact hx
      obtain ⟨last, hlast, htail, hcontend, hle⟩ := p.tail x hold hmutating
      refine ⟨last, (hhas last).mpr (.inr hlast), ?_, hcontend, hle⟩
      split_ifs with hop
      · have hne : s.workspace x.operation.agentId ≠ s.workspace operation.agentId :=
          fun heq => hshares ⟨hop, heq⟩
        rw [Function.update_of_ne hne]
        exact htail
      · exact htail
  case phased =>
    intro x hx
    rcases (hhas x).mp hx with rfl | hx
    · exact ⟨fun _ => ⟨rfl, rfl⟩, fun h => (by cases h), fun h => (by cases h), fun h => (by cases h)⟩
    · exact p.phased x hx

/-- A launch is active. -/
theorem Registered.launch (r : Registered s) (p : Placed s) (h : s.Launchable operation) :
    Registered (s.launch operation) := by
  intro x hx hphase
  rw [has_launch p h] at hx
  rw [launch_eq h]
  show Function.update s.active operation.id (some s.nextTicket) x.operation.id = _
  rcases hx with rfl | hx
  · exact Function.update_self ..
  · have hold := r x hx hphase
    have hne : x.operation.id ≠ operation.id := by
      intro heq
      rw [heq, h.inactive] at hold
      cases hold
    rw [Function.update_of_ne hne]
    exact hold

/-- The places mean what they did, with a further launch. -/
theorem Locked.launch (k : Locked s) (r : Registered s) (p : Placed s)
    (h : s.Launchable operation) : Locked (s.launch operation) := by
  have hhas := fun x => has_launch (x := x) p h
  -- The new launch has not started.
  have hnew : ¬ (s.newLaunch operation).Started s.stopping := by
    rintro (hw | hf | he | ⟨hq, -⟩)
    · cases hw
    · cases hf
    · cases he
    · exact hq rfl
  rw [launch_eq h] at hhas ⊢
  -- Each condition is that of the launches before, since the new one has not started.
  constructor
  case work =>
    intro x hx hmutating hwork hreleased
    rcases (hhas x).mp hx with rfl | hx
    · cases hwork
    · exact k.work x hx hmutating hwork hreleased
  case order =>
    intro x x' hx hx' hcontend hlt hstarted
    rcases (hhas x).mp hx with rfl | hx
    · exact absurd hstarted hnew
    · rcases (hhas x').mp hx' with rfl | hx'
      · have hbound := p.bounded x hx
        have hticket : (s.newLaunch operation).ticket = s.nextTicket := rfl
        omega
      · exact k.order x x' hx hx' hcontend hlt hstarted
  case again =>
    intro x x' hx hx' hmutating hid hlt
    rcases (hhas x).mp hx with rfl | hx
    · rcases (hhas x').mp hx' with rfl | hx'
      · omega
      · have hbound := p.bounded x' hx'
        have hticket : (s.newLaunch operation).ticket = s.nextTicket := rfl
        omega
    · rcases (hhas x').mp hx' with rfl | hx'
      · obtain ⟨old, hget, -, heffect, hstate⟩ := h.stored
        have hid' : x.operation.id = operation.id := hid
        have hget' : s.operations.get? x.operation.id = some old := by rwa [hid']
        constructor
        · by_contra hphase
          have hactive := r x hx hphase
          rw [hid', h.inactive] at hactive
          cases hactive
        · by_contra hwork
          have hsome : x.work.isSome := Option.isSome_iff_ne_none.mpr hwork
          have hopMutating : operation.effect.mutating := by
            rw [← heffect, p.effect_eq hx hget']
            exact hmutating
          have hwaiting := k.begun x hx hmutating hsome old hget'
          simp [ExecutionOperation.waiting, hstate hopMutating] at hwaiting
      · exact k.again x x' hx hx' hmutating hid hlt
  case begun =>
    intro x hx hmutating hwork
    rcases (hhas x).mp hx with rfl | hx
    · cases hwork
    · exact k.begun x hx hmutating hwork
  case recorded =>
    intro x hx hmutating hbusy
    rcases (hhas x).mp hx with rfl | hx
    · cases hbusy.1
    · exact k.recorded x hx hmutating hbusy
  case running =>
    intro hisolated stored hstored hmutating hrunning
    obtain ⟨l, hl, hid, hphase⟩ := k.running hisolated stored hstored hmutating hrunning
    exact ⟨l, (hhas l).mpr (.inr hl), hid, hphase⟩
  case clear =>
    intro x hx hmutating hwork
    rcases (hhas x).mp hx with rfl | hx
    · cases hwork
    · exact k.clear x hx hmutating hwork
  case faultless =>
    intro x x' hx hx' hcontend hwork
    rcases (hhas x).mp hx with rfl | hx
    · cases hwork
    · rcases (hhas x').mp hx' with rfl | hx'
      · rfl
      · exact k.faultless x x' hx hx' hcontend hwork

end Launching

/-! ## An operation is written -/

section Writing

variable {s : Executor} {operation : ExecutionOperation}

/-- The launches keep their places when an operation is written. -/
theorem Placed.put (p : Placed s) (h : s.Writable operation) : Placed (s.put operation) where
  bounded := p.bounded
  idle := p.idle
  known l hl := by
    obtain ⟨stored, hget, hagent, heffect⟩ := p.known l hl
    show ∃ stored, (s.operations.insert operation).get? l.operation.id = some stored ∧ _
    rw [OrderedMap.get?_insert]
    split_ifs with hid
    · rw [hid] at hget
      obtain ⟨hagent', heffect'⟩ := h.same stored hget
      exact ⟨operation, rfl, hagent'.symm.trans hagent, heffect'.symm.trans heffect⟩
    · exact ⟨stored, hget, hagent, heffect⟩
  behind := p.behind
  tail := p.tail
  phased := p.phased

/-- What is stored after a write is what was written or was stored before. -/
theorem mem_put {stored : ExecutionOperation} (h : stored ∈ (s.put operation).operations.entries) :
    stored = operation ∨ stored ∈ s.operations.entries := by
  have hget := OrderedMap.get?_of_mem h
  show stored = operation ∨ stored ∈ s.operations.entries
  rw [show (s.put operation).operations = s.operations.insert operation from rfl,
    OrderedMap.get?_insert] at hget
  split_ifs at hget
  · exact .inl (Option.some.inj hget).symm
  · exact .inr (OrderedMap.mem_of_get? hget)

/-- The places mean what they did when an operation is written. -/
theorem Locked.put (k : Locked s) (p : Placed s) (h : s.Writable operation) :
    Locked (s.put operation) where
  work := k.work
  order := k.order
  again := k.again
  begun l hl hmutating hwork stored hget := by
    rw [show (s.put operation).operations = s.operations.insert operation from rfl,
      OrderedMap.get?_insert] at hget
    -- The operation that is written is the launch's own, or another one.
    split_ifs at hget with hid
    · obtain rfl := Option.some.inj hget
      obtain ⟨old, hold, -, heffect⟩ := p.known l hl
      have hnotWaiting := k.begun l hl hmutating hwork old hold
      rw [hid] at hold
      have hopMutating : operation.effect.mutating := by
        rw [← (h.same old hold).2, heffect]
        exact hmutating
      exact fun hwaiting => hnotWaiting (h.waiting hopMutating hwaiting old hold)
    · exact k.begun l hl hmutating hwork stored hget
  recorded l hl hmutating hbusy stored hget := by
    rw [show (s.put operation).operations = s.operations.insert operation from rfl,
      OrderedMap.get?_insert] at hget
    split_ifs at hget with hid
    · obtain rfl := Option.some.inj hget
      obtain ⟨old, hold, -, heffect⟩ := p.known l hl
      rw [hid] at hold
      have hopMutating : operation.effect.mutating := by
        rw [← (h.same old hold).2, heffect]
        exact hmutating
      by_contra hstate
      rw [not_or] at hstate
      exact h.finished hopMutating hstate.1 hstate.2 l hl hid hbusy
    · exact k.recorded l hl hmutating hbusy stored hget
  running hisolated stored hstored hmutating hrunning := by
    rcases mem_put hstored with rfl | hstored
    · exact h.running hmutating hrunning hisolated
    · exact k.running hisolated stored hstored hmutating hrunning
  clear l hl hmutating hwork stored hstored hstoredMutating hunknown hworkspace := by
    -- An operation of unknown outcome is the one just written, or was stored before.
    rcases mem_put hstored with rfl | hstored
    · rcases h.unknown hstoredMutating hunknown with ⟨old, hget, hold⟩ | hattended
      · obtain ⟨hagent, heffect⟩ := h.same old hget
        have hoperation := k.clear l hl hmutating hwork old (OrderedMap.mem_of_get? hget)
          (by rw [heffect]; exact hstoredMutating) hold (by rw [hagent]; exact hworkspace)
        rw [OrderedMap.key_of_get? hget] at hoperation
        exact hoperation
      · have hisolated : s.isolated = true := by
          by_contra hidle
          exact p.idle (by simpa using hidle) l hl
        obtain ⟨x, hx, hid, hphase⟩ := hattended hisolated
        obtain ⟨old, hget, hagent, heffect⟩ := p.known x hx
        rw [hid] at hget
        obtain ⟨hagent', heffect'⟩ := h.same old hget
        have hcontend : s.Contend l x := by
          refine ⟨hmutating, ?_, ?_⟩
          · rw [← heffect, heffect']
            exact hstoredMutating
          · rw [← hagent, hagent']
            exact hworkspace.symm
        have hexecuting : x.phase = .executing := by
          rcases hphase with hexecuting | hfaulted
          · exact hexecuting
          · rw [k.faultless l x hl hx hcontend hwork] at hfaulted
            cases hfaulted
        have hlexecuting := (p.phased l hl).scheduled hwork
        have heq := k.alone hl hx hcontend (.inl (by rw [hwork]; rfl))
          (.inr (.inr (.inl hexecuting))) (p.unreleased hl hlexecuting)
          (p.unreleased hx hexecuting)
        rw [heq]
        exact hid.symm
    · exact k.clear l hl hmutating hwork stored hstored hstoredMutating hunknown hworkspace
  faultless := k.faultless

end Writing

/-! ## Every move -/

/-- What holds between any two moves. -/
structure Sound (s : Executor) : Prop where
  placed : Placed s
  registered : Registered s
  locked : Locked s

/-- A process that stops is sound. -/
theorem Sound.stop {s : Executor} (h : Sound s) : Sound { s with stopping := true } where
  placed :=
    { bounded := h.placed.bounded
      idle := h.placed.idle
      known := h.placed.known
      behind := h.placed.behind
      tail := h.placed.tail
      phased := fun l hl =>
        { queued := (h.placed.phased l hl).queued
          scheduled := (h.placed.phased l hl).scheduled
          released := (h.placed.phased l hl).released
          faulted := fun hf => ⟨((h.placed.phased l hl).faulted hf).1, fun _ => rfl⟩ } }
  registered := h.registered
  locked :=
    { work := h.locked.work
      order := by
        intro l l' hl hl' hcontend hlt hstarted
        refine h.locked.order l l' hl hl' hcontend hlt ?_
        rcases hstarted with hw | hf | he | ⟨-, hfalse⟩
        · exact .inl hw
        · exact .inr (.inl hf)
        · exact .inr (.inr (.inl he))
        · cases hfalse
      again := h.locked.again
      begun := h.locked.begun
      recorded := h.locked.recorded
      running := h.locked.running
      clear := h.locked.clear
      faultless := h.locked.faultless }

/-- A launch goes on and stays active. -/
theorem Sound.setLaunch {s : Executor} {l l' : Launch} (h : Sound s) (has : s.Has l)
    (steady : s.Steady l l') (phased : l'.Phased s.stopping)
    (phase : l'.phase ≠ .settled → l.phase ≠ .settled)
    (work : l'.work.isSome → l.work.isSome) (released : l'.released = l.released) :
    Sound (s.setLaunch l') where
  placed := h.placed.setLaunch has steady.toSameAs phased
  registered := h.registered.setLaunch has steady.toSameAs phase
  locked := h.locked.setLaunch h.placed has steady work released

/-- A launch that waits has not had its turn when it is cancelled. -/
theorem not_started_of_cancelled {s : Executor} {l : Launch} (p : Placed s) (has : s.Has l)
    (queued : l.phase = .queued) (stopping : s.stopping = true) :
    ¬ Launch.Started { l with phase := .ended } s.stopping := by
  obtain ⟨hwork, hfaulted⟩ := (p.phased l has).queued queued
  rintro (hw | hf | he | ⟨-, hfalse⟩)
  · have hw' : l.work.isSome := hw
    rw [hwork] at hw'
    cases hw'
  · have hf' : l.faulted = true := hf
    rw [hfaulted] at hf'
    cases hf'
  · cases he
  · rw [stopping] at hfalse
    cases hfalse

/-- No other launch behind the same lock is scheduled while one is within `#execute`. -/
theorem Locked.others_idle {s : Executor} {l x : Launch} (k : Locked s) (p : Placed s)
    (has : s.Has l) (executing : l.phase = .executing) (idle : l.work ≠ some .scheduled)
    (hx : s.Has x) (hcontend : s.Contend x l) : x.work ≠ some .scheduled := by
  intro hwork
  have hxexecuting := (p.phased x hx).scheduled hwork
  have heq := k.alone hx has hcontend (.inr (.inr (.inl hxexecuting)))
    (.inr (.inr (.inl executing))) (p.unreleased hx hxexecuting) (p.unreleased has executing)
  exact idle (heq ▸ hwork)

/-- Recording a call of a tool changes no place. -/
theorem Sound.record {s : Executor} (h : Sound s) (operation : ExecutionOperation) :
    Sound (s.record operation) := by
  unfold Executor.record
  split_ifs
  · exact ⟨{ h.placed with }, h.registered, { h.locked with }⟩
  · exact h

/-- To record an outcome does not stop the process. -/
@[simp]
theorem stopping_record {s : Executor} {operation : ExecutionOperation} :
    (s.record operation).stopping = s.stopping := by
  unfold Executor.record
  split_ifs <;> rfl

/-- To record an outcome changes no launch. -/
@[simp]
theorem has_record {s : Executor} {operation : ExecutionOperation} {l : Launch} :
    (s.record operation).Has l ↔ s.Has l := by
  unfold Executor.record
  split_ifs <;> exact Iff.rfl

/-- Every move keeps it. -/
theorem Move.sound {s s' : Executor} (h : Sound s) (move : Move s s') : Sound s' := by
  have p := h.placed
  have k := h.locked
  -- One case per move: what it does to its launch is steady, and allowed in its phase.
  cases move with
  | note results waits reconciliations writes =>
    exact ⟨{ p with }, h.registered, { k with }⟩
  | put operation hw => exact ⟨p.put hw, h.registered, k.put p hw⟩
  | launch operation hl => exact ⟨p.launch hl, h.registered.launch p hl, k.launch h.registered p hl⟩
  | isolate hisolated =>
    have hidle : ∀ l, ({ s with isolated := true } : Executor).isolated = false →
        ¬ s.Has l := by
      intro l hfalse
      cases hfalse
    refine ⟨{ p with idle := fun hfalse l => hidle l hfalse }, h.registered, { k with
      running := ?_ }⟩
    intro _ stored hstored hmutating hrunning
    exact absurd hrunning (hisolated stored hstored hmutating)
  | stop => exact h.stop
  | hold l operation has state id agentId effect =>
    have same : l.SameAs { l with operation } := ⟨rfl, id, agentId, effect, rfl⟩
    have steady := k.steady has same .inl rfl (fun h => h) rfl (fun h => h)
      (fun hbusy => absurd hbusy.2.2 (state hbusy.2.1)) (fun hl => hl.elim .inl fun hf => .inr (.inl hf)) .inl
    have phased : Launch.Phased { l with operation } s.stopping := { p.phased l has with }
    exact h.setLaunch has steady phased (fun h => h) (fun h => h) rfl
  | proceed l has queued running turn =>
    obtain ⟨hwork, hfaulted⟩ := (p.phased l has).queued queued
    have hturn := k.turn p has running turn
    have hnotBusy : Launch.Busy { l with phase := .executing } → l.Busy := by
      intro hbusy
      have hsome : l.work.isSome := hbusy.2.1
      rw [hwork] at hsome
      cases hsome
    have steady : s.Steady l { l with phase := .executing } :=
      k.steady has ⟨rfl, rfl, rfl, rfl, rfl⟩ (fun _ => .inr hturn) rfl
        (fun hs => by rw [queued] at hs; cases hs) rfl (fun h => h) hnotBusy (fun _ => .inl rfl)
        .inl
    have phased : Launch.Phased { l with phase := .executing } s.stopping :=
      { queued := fun h => (by cases h)
        scheduled := fun _ => rfl
        released := fun hr => by
          have hsettled := ((p.phased l has).released hr).1
          rw [queued] at hsettled
          cases hsettled
        faulted := fun hf => by
          have hf' : l.faulted = true := hf
          rw [hfaulted] at hf'
          cases hf' }
    exact h.setLaunch has steady phased (fun _ => by simp [queued]) (fun h => h) rfl
  | schedule l has executing fresh running stored clear =>
    have phased : Launch.Phased { l with work := some .scheduled } s.stopping :=
      { queued := fun hq => by
          have hq' : l.phase = .queued := hq
          rw [executing] at hq'
          cases hq'
        scheduled := fun _ => executing
        released := fun hr => by
          have hr' : l.released = true := hr
          rw [p.unreleased has executing] at hr'
          cases hr'
        faulted := (p.phased l has).faulted }
    have same : l.SameAs { l with work := some .scheduled } := ⟨rfl, rfl, rfl, rfl, rfl⟩
    refine ⟨Placed.setLaunch { p with } has same phased, ?_,
      k.schedule p has executing fresh running stored clear⟩
    exact Registered.setLaunch (s := { s with mutationWork := _ }) h.registered has same
      (fun h => h)
  | invoke l has scheduled =>
    have executing := (p.phased l has).scheduled scheduled
    have has' : (s.record l.operation).Has l := has_record.mpr has
    have h' := h.record l.operation
    have steady : (s.record l.operation).Steady l { l with work := some .running } :=
      h'.locked.steady has' ⟨rfl, rfl, rfl, rfl, rfl⟩ (fun _ => .inl (.inr (.inr (.inl executing))))
        rfl (fun h => h) (by rw [scheduled]; rfl) (fun h => (by cases h))
        (fun hbusy => ⟨executing, by rw [scheduled]; rfl, hbusy.2.2⟩) (fun _ => .inl executing) .inl
    have phased : Launch.Phased { l with work := some .running } s.stopping :=
      { queued := fun hq => by
          have hq' : l.phase = .queued := hq
          rw [executing] at hq'
          cases hq'
        scheduled := fun h => (by cases h)
        released := fun hr => by
          have hr' : l.released = true := hr
          rw [p.unreleased has executing] at hr'
          cases hr'
        faulted := (p.phased l has).faulted }
    exact h'.setLaunch has' steady (by rwa [stopping_record]) (fun h => h)
      (fun _ => by rw [scheduled]; rfl) rfl
  | answer l reply has running =>
    have steady : s.Steady l { l with work := some (.settled reply) } :=
      k.steady has ⟨rfl, rfl, rfl, rfl, rfl⟩ (fun _ => .inl (.inl (by rw [running]; rfl)))
        rfl (fun h => h) (by rw [running]; rfl) (fun h => (by cases h))
        (fun hbusy => ⟨hbusy.1, by rw [running]; rfl, hbusy.2.2⟩) (fun hl => hl.elim .inl fun hf => .inr (.inl hf)) .inl
    have phased : Launch.Phased { l with work := some (.settled reply) } s.stopping :=
      { queued := fun hq => by
          have hnone := ((p.phased l has).queued hq).1
          rw [running] at hnone
          cases hnone
        scheduled := fun h => (by cases h)
        released := fun hr => ⟨((p.phased l has).released hr).1, fun work hwork => by
          rw [← Option.some.inj hwork]
          exact ⟨reply, rfl⟩⟩
        faulted := (p.phased l has).faulted }
    exact h.setLaunch has steady phased (fun h => h) (fun _ => by rw [running]; rfl) rfl
  | finish l has idle phase =>
    have hunreleased : l.released = false := by
      rcases phase with ⟨executing, -⟩ | ⟨queued, -⟩
      · exact p.unreleased has executing
      · by_contra hr
        have hsettled := ((p.phased l has).released (by simpa using hr)).1
        rw [queued] at hsettled
        cases hsettled
    have steady : s.Steady l { l with phase := .ended } := by
      refine k.steady has ⟨rfl, rfl, rfl, rfl, rfl⟩ ?_ rfl ?_ rfl (fun h => h)
        (fun hbusy => nomatch hbusy.1) ?_ .inl
      · intro hstarted
        rcases phase with ⟨executing, -⟩ | ⟨queued, stopping⟩
        · exact .inl (.inr (.inr (.inl executing)))
        · exact absurd hstarted (not_started_of_cancelled p has queued stopping)
      · intro hs
        rcases phase with ⟨executing, -⟩ | ⟨queued, -⟩
        · rw [executing] at hs
          cases hs
        · rw [queued] at hs
          cases hs
      · intro hl
        rcases phase with ⟨-, hrunning⟩ | ⟨queued, -⟩
        · exact .inr (.inr hrunning)
        · rcases hl with he | hf
          · rw [queued] at he
            cases he
          · exact .inr (.inl hf)
    have phased : Launch.Phased { l with phase := .ended } s.stopping :=
      { queued := fun h => (by cases h)
        scheduled := fun hs => absurd hs idle
        released := fun hr => by
          have hr' : l.released = true := hr
          rw [hunreleased] at hr'
          cases hr'
        faulted := fun _ => ⟨fun h => (by cases h), fun hne => absurd rfl hne⟩ }
    refine h.setLaunch has steady phased ?_ (fun h => h) rfl
    intro _ hs
    -- A launch ends after its tool was called, or before, when the process stops.
    rcases phase with ⟨executing, -⟩ | ⟨queued, -⟩
    · rw [executing] at hs
      cases hs
    · rw [queued] at hs
      cases hs
  | fault l has idle executing =>
    have hothers := fun x hx hcontend => k.others_idle p has executing idle (x := x) hx hcontend
    have steady : s.Steady l { l with phase := .ended, faulted := true } :=
      k.steady has ⟨rfl, rfl, rfl, rfl, rfl⟩ (fun _ => .inl (.inr (.inr (.inl executing)))) rfl
        (fun hs => by rw [executing] at hs; cases hs) rfl (fun h => h)
        (fun hbusy => nomatch hbusy.1) (fun _ => .inr (.inl rfl)) (fun _ => .inr ⟨idle, hothers⟩)
    have phased : Launch.Phased { l with phase := .ended, faulted := true } s.stopping :=
      { queued := fun h => (by cases h)
        scheduled := fun hs => absurd hs idle
        released := fun hr => by
          have hr' : l.released = true := hr
          rw [p.unreleased has executing] at hr'
          cases hr'
        faulted := fun _ => ⟨fun h => (by cases h), fun hne => absurd rfl hne⟩ }
    exact h.setLaunch has steady phased (fun _ => by simp [executing]) (fun h => h) rfl
  | handle l has ended stopping =>
    have hidle : l.work ≠ some .scheduled := by
      intro hs
      have hexecuting := (p.phased l has).scheduled hs
      rw [ended] at hexecuting
      cases hexecuting
    have steady : s.Steady l { l with phase := .caught } := by
      refine k.steady has ⟨rfl, rfl, rfl, rfl, rfl⟩ ?_ rfl ?_ rfl (fun h => h)
        (fun hbusy => nomatch hbusy.1) ?_ .inl
      · rintro (hw | hf | he | ⟨-, hrunning⟩)
        · exact .inl (.inl hw)
        · exact .inl (.inr (.inl hf))
        · cases he
        · exact .inl (.inr (.inr (.inr ⟨by simp [ended], hrunning⟩)))
      · intro hs
        rw [ended] at hs
        cases hs
      · rintro (he | hf)
        · rw [ended] at he
          cases he
        · exact .inr (.inl hf)
    have phased : Launch.Phased { l with phase := .caught } s.stopping :=
      { queued := fun h => (by cases h)
        scheduled := fun hs => absurd hs hidle
        released := fun hr => by
          have hsettled := ((p.phased l has).released hr).1
          rw [ended] at hsettled
          cases hsettled
        faulted := fun hf => ⟨fun h => (by cases h), fun _ => stopping hf⟩ }
    exact h.setLaunch has steady phased (fun _ => by simp [ended]) (fun h => h) rfl
  | settle l has caught =>
    set s₁ : Executor := { s with active := Function.update s.active l.operation.id none } with hs₁
    have p₁ : Placed s₁ := { p with }
    have k₁ : Locked s₁ := { k with }
    have has₁ : s₁.Has l := has
    have same : l.SameAs { l with phase := .settled } := ⟨rfl, rfl, rfl, rfl, rfl⟩
    have hidle : l.work ≠ some .scheduled := by
      intro hs
      have hexecuting := (p.phased l has).scheduled hs
      rw [caught] at hexecuting
      cases hexecuting
    have steady : s₁.Steady l { l with phase := .settled } := by
      refine k₁.steady has₁ same ?_ rfl (fun _ => rfl) rfl (fun h => h)
        (fun hbusy => nomatch hbusy.1) ?_ .inl
      · rintro (hw | hf | he | ⟨-, hrunning⟩)
        · exact .inl (.inl hw)
        · exact .inl (.inr (.inl hf))
        · cases he
        · exact .inl (.inr (.inr (.inr ⟨by simp [caught], hrunning⟩)))
      · rintro (he | hf)
        · rw [caught] at he
          cases he
        · exact .inr (.inl hf)
    have phased : Launch.Phased { l with phase := .settled } s.stopping :=
      { queued := fun h => (by cases h)
        scheduled := fun hs => absurd hs hidle
        released := fun hr => by
          have hsettled := ((p.phased l has).released hr).1
          rw [caught] at hsettled
          cases hsettled
        faulted := fun hf => ⟨fun h => (by cases h),
          fun _ => ((p.phased l has).faulted hf).2 (by simp [caught])⟩ }
    refine ⟨p₁.setLaunch has₁ same phased, ?_,
      k₁.setLaunch p₁ has₁ steady (fun h => h) rfl⟩
    intro x hx hphase
    -- Another launch of the operation is not there, since only one is active.
    rcases has_setLaunch.mp hx with rfl | ⟨hne, hx⟩
    · exact absurd rfl hphase
    · have hactive := h.registered x hx hphase
      have hid : x.operation.id ≠ l.operation.id := by
        intro hid
        have hl := h.registered l has (by simp [caught])
        rw [hid, hl] at hactive
        exact hne (Option.some.inj hactive).symm
      show Function.update s.active l.operation.id none x.operation.id = _
      rw [Function.update_of_ne hid]
      exact hactive
  | release l has settled unreleased mutating done =>
    have same : l.SameAs { l with released := true } := ⟨rfl, rfl, rfl, rfl, rfl⟩
    have phased : Launch.Phased { l with released := true } s.stopping :=
      { queued := (p.phased l has).queued
        scheduled := (p.phased l has).scheduled
        released := fun _ => ⟨settled, fun _ hwork =>
          k.work_settled has unreleased mutating done hwork⟩
        faulted := (p.phased l has).faulted }
    refine ⟨Placed.setLaunch { p with } has same phased, ?_,
      k.release p has settled unreleased mutating⟩
    exact Registered.setLaunch (s := { s with mutationWork := _ }) h.registered has same
      (fun h => h)

end OsAgent.AgentRuntime
