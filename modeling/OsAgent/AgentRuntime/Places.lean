import OsAgent.AgentRuntime.Moves

/-!
# The queue of a workspace

What a change of one launch means for the places of all. `Steady` lists what has to be known of the
change, and `Locked.change` is what follows. `Locked.alone` is the lock itself: of the mutations in a
workspace that have had their turn, at most one has not released the workspace.
-/

namespace OsAgent.AgentRuntime

open OsAgent.Library

/-! ## One launch changes -/

section Launch

variable {s : Executor} {l l' x y : Launch}

/-- After a launch was set it is there, and the others are. -/
theorem has_setLaunch : (s.setLaunch l').Has x ↔ x = l' ∨ x.ticket ≠ l'.ticket ∧ s.Has x := by
  unfold Executor.Has Executor.setLaunch
  rw [OrderedMap.get?_insert]
  split_ifs with h
  · constructor
    · intro hx
      exact .inl (Option.some.inj hx).symm
    · rintro (rfl | ⟨hne, -⟩)
      · rfl
      · exact absurd h hne
  · constructor
    · exact fun hx => .inr ⟨h, hx⟩
    · rintro (rfl | ⟨-, hx⟩)
      · exact absurd rfl h
      · exact hx

/-- A launch is determined by its ticket. -/
theorem Executor.Has.eq (hx : s.Has x) (hy : s.Has y) (h : x.ticket = y.ticket) : x = y := by
  unfold Executor.Has at hx hy
  rw [h, hy] at hx
  exact (Option.some.inj hx).symm

/-- A launch that is known under its ticket is there. -/
theorem Executor.LaunchIs.has {ticket : ℕ} {P : Launch → Prop} (h : s.LaunchIs ticket P) :
    ∃ l, l.ticket = ticket ∧ s.Has l ∧ P l := by
  obtain ⟨l, hl, hP⟩ := h
  have ht : l.ticket = ticket := OrderedMap.key_of_get? hl
  subst ht
  exact ⟨l, rfl, hl, hP⟩

/-- Mutations contend with each other. -/
theorem Executor.Contend.symm (h : s.Contend x y) : s.Contend y x := ⟨h.2.1, h.1, h.2.2.symm⟩

/-- The same launch, with the same place. -/
structure Launch.SameAs (l l' : Launch) : Prop where
  ticket : l'.ticket = l.ticket
  id : l'.operation.id = l.operation.id
  agentId : l'.operation.agentId = l.operation.agentId
  effect : l'.operation.effect = l.operation.effect
  previous : l'.previous = l.previous

/-- A changed launch contends as before. -/
theorem Launch.SameAs.contend (h : l.SameAs l') : s.Contend l' x ↔ s.Contend l x := by
  unfold Executor.Contend
  rw [h.effect, h.agentId]

/-- Others contend with a changed launch as before. -/
theorem Launch.SameAs.contend_right (h : l.SameAs l') : s.Contend x l' ↔ s.Contend x l := by
  unfold Executor.Contend
  rw [h.effect, h.agentId]

/-- Every launch after the change is the same as one before it. -/
theorem has_of_setLaunch (has : s.Has l) (same : l.SameAs l') (hx : (s.setLaunch l').Has x) :
    ∃ y, s.Has y ∧ y.SameAs x ∧ (x = l' ∧ y = l ∨ x = y ∧ x.ticket ≠ l.ticket) := by
  rcases has_setLaunch.mp hx with rfl | ⟨hne, hx⟩
  · exact ⟨l, has, same, .inl ⟨rfl, rfl⟩⟩
  · rw [same.ticket] at hne
    exact ⟨x, hx, ⟨rfl, rfl, rfl, rfl, rfl⟩, .inr ⟨rfl, hne⟩⟩

/-- Every launch before the change is the same as one after it. -/
theorem has_in_setLaunch (has : s.Has l) (same : l.SameAs l') (hy : s.Has y) :
    ∃ x, (s.setLaunch l').Has x ∧ y.SameAs x ∧ (x = l' ∧ y = l ∨ x = y ∧ y.ticket ≠ l.ticket) := by
  by_cases h : y.ticket = l.ticket
  · obtain rfl := hy.eq has h
    exact ⟨l', has_setLaunch.mpr (.inl rfl), same, .inl ⟨rfl, rfl⟩⟩
  · have hne : y.ticket ≠ l'.ticket := by rwa [same.ticket]
    exact ⟨y, has_setLaunch.mpr (.inr ⟨hne, hy⟩), ⟨rfl, rfl, rfl, rfl, rfl⟩, .inr ⟨rfl, h⟩⟩

/-- The places stay. -/
theorem Placed.setLaunch (h : Placed s) (has : s.Has l) (same : l.SameAs l')
    (phased : l'.Phased s.stopping) : Placed (s.setLaunch l') where
  bounded x hx := by
    obtain ⟨y, hy, hsame, -⟩ := has_of_setLaunch has same hx
    have hlt := h.bounded y hy
    rw [hsame.ticket]
    exact hlt
  idle hidle x hx := by
    obtain ⟨y, hy, -, -⟩ := has_of_setLaunch has same hx
    exact h.idle hidle y hy
  known x hx := by
    obtain ⟨y, hy, hsame, -⟩ := has_of_setLaunch has same hx
    rw [hsame.id, hsame.agentId, hsame.effect]
    exact h.known y hy
  behind x x' hx hx' hcontend hlt := by
    obtain ⟨y, hy, hsame, -⟩ := has_of_setLaunch has same hx
    obtain ⟨y', hy', hsame', -⟩ := has_of_setLaunch has same hx'
    have hcontend' : s.Contend y y' := hsame'.contend_right.mp (hsame.contend.mp hcontend)
    rw [hsame.ticket, hsame'.ticket] at hlt
    -- Whoever it waits for keeps its ticket, its agent and its effect.
    obtain ⟨p, hp, hprevious, hpcontend, hplt, hple⟩ := h.behind y y' hy hy' hcontend' hlt
    obtain ⟨q, hq, hpq, -⟩ := has_in_setLaunch has same hp
    refine ⟨q, hq, ?_, ?_, ?_, ?_⟩
    · rw [hsame.previous, hpq.ticket]
      exact hprevious
    · exact hpq.contend_right.mpr (hsame.contend.mpr hpcontend)
    · rw [hsame.ticket, hpq.ticket]
      exact hplt
    · rw [hsame'.ticket, hpq.ticket]
      exact hple
  tail x hx hmutating := by
    obtain ⟨y, hy, hsame, -⟩ := has_of_setLaunch has same hx
    rw [hsame.effect] at hmutating
    -- The last of the queue is the same launch as before.
    obtain ⟨last, hlast, htail, hcontend, hle⟩ := h.tail y hy hmutating
    obtain ⟨q, hq, hlastq, -⟩ := has_in_setLaunch has same hlast
    refine ⟨q, hq, ?_, ?_, ?_⟩
    · rw [hsame.agentId, hlastq.ticket]
      exact htail
    · exact hlastq.contend_right.mpr (hsame.contend.mpr hcontend)
    · rw [hsame.ticket, hlastq.ticket]
      exact hle
  phased x hx := by
    rcases has_setLaunch.mp hx with rfl | ⟨-, hx⟩
    · exact phased
    · exact h.phased x hx

/-- A change that leaves a launch active keeps it registered. -/
theorem Registered.setLaunch (h : Registered s) (has : s.Has l) (same : l.SameAs l')
    (settled : l'.phase ≠ .settled → l.phase ≠ .settled) : Registered (s.setLaunch l') := by
  intro x hx hphase
  rcases has_setLaunch.mp hx with rfl | ⟨-, hx⟩
  · rw [same.id, same.ticket]
    exact h l has (settled hphase)
  · exact h x hx hphase

/-- Two mutations of a workspace that have had their turn and have not released the workspace are
the same launch. -/
theorem Locked.alone (h : Locked s) (hx : s.Has x) (hy : s.Has y) (hcontend : s.Contend x y)
    (hxstarted : x.Started s.stopping) (hystarted : y.Started s.stopping)
    (hxreleased : x.released = false) (hyreleased : y.released = false) : x = y := by
  rcases Nat.lt_trichotomy x.ticket y.ticket with hlt | heq | hlt
  · have hreleased := h.order y x hy hx hcontend.symm hlt hystarted
    rw [hxreleased] at hreleased
    cases hreleased
  · exact hx.eq hy heq
  · have hreleased := h.order x y hx hy hcontend hlt hxstarted
    rw [hyreleased] at hreleased
    cases hreleased

/-- Attendance stays, unless there is nothing to attend to. -/
theorem attended_setLaunch (has : s.Has l) (same : l.SameAs l')
    (attended : l.phase = .executing ∨ l.faulted = true →
      l'.phase = .executing ∨ l'.faulted = true ∨ s.NotRunning l)
    {stored : ExecutionOperation} (hstored : stored ∈ s.operations.entries)
    (hmutating : stored.effect.mutating) (hrunning : stored.state = .running)
    (hknown : ∀ old, s.operations.get? l.operation.id = some old →
      old.effect = l.operation.effect)
    (h : s.Attended stored.id) : (s.setLaunch l').Attended stored.id := by
  obtain ⟨y, hy, hid, hphase⟩ := h
  obtain ⟨x, hx, hsame, ⟨rfl, rfl⟩ | ⟨rfl, -⟩⟩ := has_in_setLaunch has same hy
  · refine ⟨x, hx, hsame.id.trans hid, ?_⟩
    rcases attended hphase with h | h | h
    · exact .inl h
    · exact .inr h
    · have hget : s.operations.get? y.operation.id = some stored := by
        rw [hid]
        exact OrderedMap.get?_of_mem hstored
      have heffect := hknown stored hget
      rw [heffect] at hmutating
      exact absurd hrunning (h hmutating stored hget)
  · exact ⟨x, hx, hid, hphase⟩

/-- The effect of a launch is that of its record. -/
theorem Placed.effect_eq (p : Placed s) (has : s.Has l) {old : ExecutionOperation}
    (h : s.operations.get? l.operation.id = some old) : old.effect = l.operation.effect := by
  obtain ⟨stored, hstored, -, heffect⟩ := p.known l has
  rw [h] at hstored
  rw [Option.some.inj hstored]
  exact heffect

/-- All before a launch in its queue have released the workspace. -/
def Executor.Turn (s : Executor) (l : Launch) : Prop :=
  ∀ x, s.Has x → s.Contend l x → x.ticket < l.ticket → x.released = true

/-- A launch changes, and what it means for the others is unchanged. -/
structure Executor.Steady (s : Executor) (l l' : Launch) : Prop extends l.SameAs l' where
  turn : l'.Started s.stopping → l.Started s.stopping ∨ s.Turn l
  released : l.released = true → l'.released = true
  again : l.phase = .settled ∧ l.work = none → l'.phase = .settled ∧ l'.work = none
  begun : l.operation.effect.mutating → l'.work.isSome →
    ∀ stored, s.operations.get? l.operation.id = some stored → ¬ stored.waiting
  recorded : l.operation.effect.mutating → l'.Busy →
    ∀ stored, s.operations.get? l.operation.id = some stored →
      stored.state = .running ∨ stored.state = .unknown
  attended : l.phase = .executing ∨ l.faulted = true →
    l'.phase = .executing ∨ l'.faulted = true ∨ s.NotRunning l
  clear : l.operation.effect.mutating → l'.work = some .scheduled →
    ∀ stored ∈ s.operations.entries, stored.effect.mutating → stored.state = .unknown →
      s.workspace stored.agentId = s.workspace l.operation.agentId → stored.id = l.operation.id
  faultless : l'.work = some .scheduled → ∀ x, s.Has x → s.Contend l x → x.faulted = false
  faulted : l'.faulted = true → l.faulted = true ∨
    l'.work ≠ some .scheduled ∧ ∀ x, s.Has x → s.Contend x l → x.work ≠ some .scheduled

/-- What the places mean stays, if the table of running tools is kept up. -/
theorem Locked.change (h : Locked s) (p : Placed s) (has : s.Has l) (steady : s.Steady l l')
    (mutationWork : String → Option ℕ)
    (work : ∀ x, (s.setLaunch l').Has x → x.operation.effect.mutating → x.work.isSome →
      x.released = false → mutationWork x.operation.id = some x.ticket) :
    Locked ({ s with mutationWork }.setLaunch l') := by
  set s₁ : Executor := { s with mutationWork } with hs₁
  have has₁ : s₁.Has l := has
  have same := steady.toSameAs
  -- Each condition is that of the launches before, with what `Steady` says where one is the launch itself.
  constructor
  case work => exact work
  case order =>
    intro x x' hx hx' hcontend hlt hstarted
    obtain ⟨y, hy, hsame, hyx⟩ := has_of_setLaunch has₁ same hx
    obtain ⟨y', hy', hsame', hyx'⟩ := has_of_setLaunch has₁ same hx'
    have hcontend' : s.Contend y y' := hsame'.contend_right.mp (hsame.contend.mp hcontend)
    -- A started launch had started before, or has its turn now.
    have hstarted' : y.Started s.stopping ∨ s.Turn y := by
      rcases hyx with ⟨rfl, rfl⟩ | ⟨rfl, -⟩
      · exact steady.turn hstarted
      · exact .inl hstarted
    rw [hsame.ticket, hsame'.ticket] at hlt
    have hreleased : y'.released = true := by
      rcases hstarted' with hstarted' | hturn
      · exact h.order y y' hy hy' hcontend' hlt hstarted'
      · exact hturn y' hy' hcontend' hlt
    rcases hyx' with ⟨rfl, rfl⟩ | ⟨rfl, -⟩
    · exact steady.released hreleased
    · exact hreleased
  case again =>
    intro x x' hx hx' hmutating hid hlt
    obtain ⟨y, hy, hsame, hyx⟩ := has_of_setLaunch has₁ same hx
    obtain ⟨y', hy', hsame', -⟩ := has_of_setLaunch has₁ same hx'
    rw [hsame.effect] at hmutating
    rw [hsame.id, hsame'.id] at hid
    rw [hsame.ticket, hsame'.ticket] at hlt
    have hagain := h.again y y' hy hy' hmutating hid hlt
    rcases hyx with ⟨rfl, rfl⟩ | ⟨rfl, -⟩
    · exact steady.again hagain
    · exact hagain
  case begun =>
    intro x hx hmutating hwork stored hstored
    obtain ⟨y, hy, hsame, ⟨rfl, rfl⟩ | ⟨rfl, -⟩⟩ := has_of_setLaunch has₁ same hx
    · rw [hsame.effect] at hmutating
      rw [hsame.id] at hstored
      exact steady.begun hmutating hwork stored hstored
    · exact h.begun x hy hmutating hwork stored hstored
  case recorded =>
    intro x hx hmutating hbusy stored hstored
    obtain ⟨y, hy, hsame, ⟨rfl, rfl⟩ | ⟨rfl, -⟩⟩ := has_of_setLaunch has₁ same hx
    · rw [hsame.effect] at hmutating
      rw [hsame.id] at hstored
      exact steady.recorded hmutating hbusy stored hstored
    · exact h.recorded x hy hmutating hbusy stored hstored
  case running =>
    intro hisolated stored hstored hmutating hrunning
    exact attended_setLaunch has₁ same steady.attended hstored hmutating hrunning
      (fun old hold => p.effect_eq has hold)
      (h.running hisolated stored hstored hmutating hrunning)
  case clear =>
    intro x hx hmutating hwork stored hstored hstoredMutating hunknown hworkspace
    obtain ⟨y, hy, hsame, ⟨rfl, rfl⟩ | ⟨rfl, -⟩⟩ := has_of_setLaunch has₁ same hx
    · rw [hsame.effect] at hmutating
      rw [hsame.agentId] at hworkspace
      rw [hsame.id]
      exact steady.clear hmutating hwork stored hstored hstoredMutating hunknown hworkspace
    · exact h.clear x hy hmutating hwork stored hstored hstoredMutating hunknown hworkspace
  case faultless =>
    intro x x' hx hx' hcontend hwork
    obtain ⟨y, hy, hsame, hyx⟩ := has_of_setLaunch has₁ same hx
    obtain ⟨y', hy', hsame', hyx'⟩ := has_of_setLaunch has₁ same hx'
    have hcontend' : s.Contend y y' := hsame'.contend_right.mp (hsame.contend.mp hcontend)
    have hfaultless : y'.faulted = false := by
      -- A fault of another launch is an old one, or the launch is not waiting for its tool.
      rcases hyx with ⟨rfl, rfl⟩ | ⟨rfl, -⟩
      · exact steady.faultless hwork y' hy' hcontend'
      · exact h.faultless x y' hy hy' hcontend' hwork
    rcases hyx' with ⟨rfl, rfl⟩ | ⟨rfl, -⟩
    · by_contra hfaulted
      rcases steady.faulted (by simpa using hfaulted) with hold | ⟨hidle, hothers⟩
      · rw [hfaultless] at hold
        cases hold
      · rcases hyx with ⟨rfl, rfl⟩ | ⟨rfl, -⟩
        · exact hidle hwork
        · exact hothers x hy hcontend' hwork
    · exact hfaultless

/-- A launch goes on with the same tool call, if any. -/
theorem Locked.setLaunch (h : Locked s) (p : Placed s) (has : s.Has l) (steady : s.Steady l l')
    (work : l'.work.isSome → l.work.isSome) (released : l'.released = l.released) :
    Locked (s.setLaunch l') := by
  refine h.change p has steady s.mutationWork ?_
  intro x hx hmutating hwork hreleased
  obtain ⟨y, hy, hsame, ⟨rfl, rfl⟩ | ⟨rfl, -⟩⟩ := has_of_setLaunch has steady.toSameAs hx
  · rw [hsame.id, hsame.ticket]
    rw [hsame.effect] at hmutating
    rw [released] at hreleased
    exact h.work y hy hmutating (work hwork) hreleased
  · exact h.work x hy hmutating hwork hreleased

/-- It is the turn of a launch when the one that it waits for has released the workspace. -/
theorem Locked.turn (h : Locked s) (p : Placed s) (has : s.Has l) (running : s.stopping = false)
    (turn : ∀ previous, l.previous = some previous →
      s.LaunchIs previous (·.released = true)) : s.Turn l := by
  intro x hx hcontend hlt
  obtain ⟨q, hq, hprevious, hqcontend, -, hle⟩ := p.behind l x has hx hcontend hlt
  obtain ⟨q', hticket, hq', hreleased⟩ := (turn q.ticket hprevious).has
  obtain rfl := hq'.eq hq hticket
  rcases Nat.lt_or_eq_of_le hle with hlt' | heq
  · have hsettled := ((p.phased q' hq').released hreleased).1
    have hstarted : q'.Started s.stopping := .inr (.inr (.inr ⟨by simp [hsettled], running⟩))
    have hcontend' : s.Contend q' x :=
      ⟨hqcontend.2.1, hcontend.2.1, hqcontend.2.2.symm.trans hcontend.2.2⟩
    exact h.order q' x hq' hx hcontend' hlt' hstarted
  · rw [hx.eq hq' heq]
    exact hreleased

/-- Two launches of one operation share a queue. -/
theorem Placed.contend (p : Placed s) (hx : s.Has x) (hy : s.Has y)
    (id : x.operation.id = y.operation.id) (mutating : x.operation.effect.mutating) :
    s.Contend x y := by
  obtain ⟨old, hget, hagent, heffect⟩ := p.known x hx
  have heffect' := p.effect_eq hy (id ▸ hget)
  obtain ⟨old', hget', hagent', -⟩ := p.known y hy
  rw [← id, hget] at hget'
  obtain rfl := Option.some.inj hget'
  refine ⟨mutating, ?_, ?_⟩
  · rw [← heffect', heffect]
    exact mutating
  · rw [← hagent, hagent']

/-- A launch goes on, and its tool is not called anew. -/
theorem Locked.steady (h : Locked s) (has : s.Has l) (same : l.SameAs l')
    (turn : l'.Started s.stopping → l.Started s.stopping ∨ s.Turn l)
    (released : l'.released = l.released) (settled : l.phase = .settled → l'.phase = .settled)
    (work : l'.work.isSome = l.work.isSome)
    (scheduled : l'.work = some .scheduled → l.work = some .scheduled)
    (busy : l'.Busy → l.Busy)
    (attended : l.phase = .executing ∨ l.faulted = true →
      l'.phase = .executing ∨ l'.faulted = true ∨ s.NotRunning l)
    (faulted : l'.faulted = true → l.faulted = true ∨
      l'.work ≠ some .scheduled ∧ ∀ x, s.Has x → s.Contend x l → x.work ≠ some .scheduled) :
    s.Steady l l' where
  toSameAs := same
  turn := turn
  released hl := by rw [released, hl]
  again hl := by
    have hnone := work
    rw [hl.2] at hnone
    exact ⟨settled hl.1, by simpa using hnone⟩
  begun hmutating hwork := h.begun l has hmutating (by rwa [← work])
  recorded hmutating hbusy := h.recorded l has hmutating (busy hbusy)
  attended := attended
  clear hmutating hwork := h.clear l has hmutating (scheduled hwork)
  faultless hwork x hx hcontend := h.faultless l x has hx hcontend (scheduled hwork)
  faulted := faulted

/-- A launch that is within `#execute` holds its workspace. -/
theorem Placed.unreleased (p : Placed s) (has : s.Has l) (executing : l.phase = .executing) :
    l.released = false := by
  by_contra hr
  have hsettled := ((p.phased l has).released (by simpa using hr)).1
  rw [executing] at hsettled
  cases hsettled

/-- No launch behind the same lock as one within `#execute` has faulted in a process that goes on. -/
theorem Locked.faultless_of_executing (h : Locked s) (p : Placed s) (has : s.Has l)
    (executing : l.phase = .executing) (running : s.stopping = false) (hx : s.Has x)
    (hcontend : s.Contend l x) : x.faulted = false := by
  by_contra hfaulted
  replace hfaulted : x.faulted = true := by simpa using hfaulted
  rcases Bool.eq_false_or_eq_true x.released with hreleased | hreleased
  -- A fault before it would have stopped the executor.
  · have hsettled := ((p.phased x hx).released hreleased).1
    have hstopping := ((p.phased x hx).faulted hfaulted).2 (by simp [hsettled])
    rw [running] at hstopping
    cases hstopping
  · have heq := h.alone has hx hcontend (.inr (.inr (.inl executing))) (.inr (.inl hfaulted))
      (p.unreleased has executing) hreleased
    subst heq
    exact ((p.phased _ hx).faulted hfaulted).1 executing

/-- A launch whose tool is about to be called holds the workspace. -/
theorem Locked.schedule (h : Locked s) (p : Placed s) (has : s.Has l)
    (executing : l.phase = .executing) (fresh : l.work = none) (running : s.stopping = false)
    (stored : ∀ stored, s.operations.get? l.operation.id = some stored →
      stored.state = .running)
    (clear : l.operation.effect.mutating →
      s.hasUnknownMutation (s.workspace l.operation.agentId) = false) :
    Locked ({ s with
      mutationWork := if l.operation.effect.mutating then
        Function.update s.mutationWork l.operation.id (some l.ticket) else s.mutationWork
      }.setLaunch { l with work := some .scheduled }) := by
  -- It has started and has not released: by the turns it is alone.
  have hstarted : l.Started s.stopping := .inr (.inr (.inl executing))
  have hnotSettled : l.phase ≠ .settled := by simp [executing]
  have hunfaulted : l.faulted ≠ true := fun hf => ((p.phased l has).faulted hf).1 executing
  have steady : s.Steady l { l with work := some .scheduled } :=
    { ticket := rfl
      id := rfl
      agentId := rfl
      effect := rfl
      previous := rfl
      turn := fun _ => .inl hstarted
      released := id
      again := fun hl => absurd hl.1 hnotSettled
      begun := fun _ _ op hget => by simp [ExecutionOperation.waiting, stored op hget]
      recorded := fun _ _ op hget => .inl (stored op hget)
      attended := fun hl => hl.elim .inl fun hf => .inr (.inl hf)
      clear := by
        intro hmutating _ op hop hopMutating hunknown hworkspace
        have htrue : s.hasUnknownMutation (s.workspace l.operation.agentId) = true := by
          simp only [Executor.hasUnknownMutation, List.any_eq_true, Bool.and_eq_true,
            decide_eq_true_eq]
          exact ⟨op, hop, ⟨hunknown, hopMutating⟩, hworkspace⟩
        rw [clear hmutating] at htrue
        cases htrue
      faultless := fun _ x hx hcontend =>
        h.faultless_of_executing p has executing running hx hcontend
      faulted := fun hf => absurd hf hunfaulted }
  refine h.change p has steady _ ?_
  -- Of the other launches that mutate, none has the operation: it would contend.
  intro x hx hmutating hwork hreleased
  obtain ⟨y, hy, hsame, ⟨rfl, rfl⟩ | ⟨rfl, hne⟩⟩ := has_of_setLaunch has steady.toSameAs hx
  · rw [hsame.effect] at hmutating
    rw [if_pos hmutating, hsame.id, Function.update_self]
  · have hold := h.work x hy hmutating hwork hreleased
    have hid : x.operation.id ≠ l.operation.id := by
      intro hid
      have hcontend := p.contend hy has hid hmutating
      have heq := h.alone hy has hcontend (.inl hwork) hstarted hreleased
        (p.unreleased has executing)
      exact hne (congrArg Launch.ticket heq)
    split_ifs
    · rw [Function.update_of_ne hid]
      exact hold
    · exact hold

/-- The promise of a launch that releases its workspace has settled. -/
theorem Locked.work_settled (h : Locked s) (has : s.Has l) (unreleased : l.released = false)
    (mutating : l.operation.effect.mutating)
    (done : ∀ executing, s.mutationWork l.operation.id = some executing →
      s.LaunchIs executing fun other => ∃ work, other.work = some work ∧ work.Settled)
    {work : Work} (hwork : l.work = some work) : work.Settled := by
  have hentry := h.work l has mutating (by rw [hwork]; rfl) unreleased
  obtain ⟨other, hticket, hother, work', hwork', hsettled⟩ := (done l.ticket hentry).has
  obtain rfl := hother.eq has hticket
  rw [hwork] at hwork'
  obtain rfl := Option.some.inj hwork'
  exact hsettled

/-- A launch releases its workspace. -/
theorem Locked.release (h : Locked s) (p : Placed s) (has : s.Has l) (settled : l.phase = .settled)
    (unreleased : l.released = false) (mutating : l.operation.effect.mutating) :
    Locked ({ s with mutationWork := Function.update s.mutationWork l.operation.id none }.setLaunch
      { l with released := true }) := by
  have steady : s.Steady l { l with released := true } :=
    { ticket := rfl
      id := rfl
      agentId := rfl
      effect := rfl
      previous := rfl
      turn := .inl
      released := fun _ => rfl
      again := id
      begun := h.begun l has
      recorded := h.recorded l has
      attended := fun hl => hl.elim .inl fun hf => .inr (.inl hf)
      clear := h.clear l has
      faultless := fun hwork x hx hcontend => h.faultless l x has hx hcontend hwork
      faulted := .inl }
  -- Only the entry of the released launch goes.
  refine h.change p has steady _ ?_
  intro x hx hmutating hwork hreleased
  obtain ⟨y, hy, hsame, ⟨rfl, rfl⟩ | ⟨rfl, hne⟩⟩ := has_of_setLaunch has steady.toSameAs hx
  · cases hreleased
  · -- Another launch of the same operation is over, whichever came first.
    have hid : x.operation.id ≠ l.operation.id := by
      intro hid
      have hcontend := p.contend hy has hid hmutating
      rcases Nat.lt_trichotomy x.ticket l.ticket with hlt | heq | hlt
      · have hnone := (h.again x l hy has hmutating hid hlt).2
        rw [hnone] at hwork
        cases hwork
      · exact hne heq
      · have htrue := h.order x l hy has hcontend hlt (.inl hwork)
        rw [unreleased] at htrue
        cases htrue
    rw [Function.update_of_ne hid]
    exact h.work x hy hmutating hwork hreleased

end Launch

end OsAgent.AgentRuntime
