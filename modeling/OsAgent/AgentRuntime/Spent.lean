import OsAgent.AgentRuntime.Soundness

/-!
# Tools are called once

An operation is spent when its tool is not going to be called: what is stored of it is neither
registered nor waits for approval, and no launch of it is before the call. No move and no new process
makes a spent operation one that is not.
-/

namespace OsAgent.AgentRuntime

open OsAgent.Library
open ControlBlock (AgentId)

/-! ## Calls of tools -/

section Calls

variable {s s' : Executor} {l l' : Launch} {id : String}

/-- A launch that is set calls the tool no more than before. -/
theorem Spent.setLaunch (h : Spent s id) (has : s.Has l) (same : l.SameAs l')
    (isOver : l.operation.id = id → l.Over → l'.Over) : Spent (s.setLaunch l') id where
  stored := h.stored
  launched x hx hid := by
    obtain ⟨y, hy, hsame, ⟨rfl, rfl⟩ | ⟨rfl, -⟩⟩ := has_of_setLaunch has same hx
    · rw [hsame.id] at hid
      exact isOver hid (h.launched y hy hid)
    · exact h.launched x hy hid

/-- An operation that is written calls its tool no more. -/
theorem Spent.put {operation : ExecutionOperation} (h : Spent s id) (hw : s.Writable operation) :
    Spent (s.put operation) id where
  stored := by
    obtain ⟨old, hget, hmutating, hnotWaiting⟩ := h.stored
    show ∃ stored, (s.operations.insert operation).get? id = some stored ∧ _
    rw [OrderedMap.get?_insert]
    split_ifs with hid
    · subst hid
      have heffect := (hw.same old hget).2
      rw [heffect] at hmutating
      exact ⟨operation, rfl, hmutating, fun hwaiting =>
        hnotWaiting (hw.waiting hmutating hwaiting old hget)⟩
    · exact ⟨old, hget, hmutating, hnotWaiting⟩
  launched := h.launched

/-- A launch of another operation does not call the tool. -/
theorem Spent.launch {operation : ExecutionOperation} (h : Spent s id) (p : Placed s)
    (hl : s.Launchable operation) : Spent (s.launch operation) id where
  stored := by
    rw [launch_eq hl]
    exact h.stored
  launched x hx hid := by
    rcases (has_launch p hl).mp hx with rfl | hx
    · obtain ⟨old, hget, -, heffect, hstate⟩ := hl.stored
      obtain ⟨old', hget', hmutating, hnotWaiting⟩ := h.stored
      have hid' : operation.id = id := hid
      rw [← hid', hget] at hget'
      obtain rfl := Option.some.inj hget'
      rw [heffect] at hmutating
      exact absurd (by simp [ExecutionOperation.waiting, hstate hmutating]) hnotWaiting
    · exact h.launched x hx hid

/-- An outcome that is recorded does not call the tool. -/
theorem Spent.record {operation : ExecutionOperation} (h : Spent s id) :
    Spent (s.record operation) id := by
  unfold Executor.record
  split_ifs
  · exact { h with }
  · exact h

/-- No move calls the tool of a spent operation. -/
theorem Move.spent (h : Sound s) (move : Move s s') (hs : Spent s id) :
    Spent s' id ∧ s'.executed.count id = s.executed.count id := by
  -- One case per move; only a scheduled launch calls its tool, and a spent one is never scheduled.
  cases move with
  | note results waits reconciliations writes => exact ⟨{ hs with }, rfl⟩
  | put operation hw => exact ⟨hs.put hw, rfl⟩
  | launch operation hl =>
    refine ⟨hs.launch h.placed hl, ?_⟩
    rw [launch_eq hl]
  | isolate hisolated => exact ⟨{ hs with }, rfl⟩
  | stop => exact ⟨{ hs with }, rfl⟩
  | hold l operation has state hid agentId effect =>
    exact ⟨hs.setLaunch has ⟨rfl, hid, agentId, effect, rfl⟩ fun _ hover => hover, rfl⟩
  | proceed l has queued running turn =>
    exact ⟨hs.setLaunch has ⟨rfl, rfl, rfl, rfl, rfl⟩ fun _ hover => absurd queued hover.1, rfl⟩
  | schedule l has executing fresh running stored clear =>
    refine ⟨Spent.setLaunch { hs with } has ⟨rfl, rfl, rfl, rfl, rfl⟩ fun _ hover => ?_, rfl⟩
    exact absurd fresh (hover.2.2 executing)
  | invoke l has scheduled =>
    have hne : l.operation.id ≠ id := fun hid => (hs.launched l has hid).2.1 scheduled
    refine ⟨hs.record.setLaunch (has_record.mpr has) ⟨rfl, rfl, rfl, rfl, rfl⟩
      fun hid => absurd hid hne, ?_⟩
    show (s.record l.operation).executed.count id = _
    unfold Executor.record
    split_ifs
    · simp [List.count_append, hne]
    · rfl
  | answer l reply has running =>
    exact ⟨hs.setLaunch has ⟨rfl, rfl, rfl, rfl, rfl⟩ fun _ hover => ⟨hover.1,
      fun h => (by cases h), fun _ h => (by cases h)⟩, rfl⟩
  | finish l has idle phase =>
    exact ⟨hs.setLaunch has ⟨rfl, rfl, rfl, rfl, rfl⟩ fun _ hover => ⟨fun h => (by cases h), idle,
      fun h => (by cases h)⟩, rfl⟩
  | fault l has idle executing =>
    exact ⟨hs.setLaunch has ⟨rfl, rfl, rfl, rfl, rfl⟩ fun _ hover => ⟨fun h => (by cases h), idle,
      fun h => (by cases h)⟩, rfl⟩
  | handle l has ended stopping =>
    exact ⟨hs.setLaunch has ⟨rfl, rfl, rfl, rfl, rfl⟩ fun _ hover => ⟨fun h => (by cases h),
      hover.2.1, fun h => (by cases h)⟩, rfl⟩
  | settle l has caught =>
    exact ⟨Spent.setLaunch { hs with } has ⟨rfl, rfl, rfl, rfl, rfl⟩
      fun _ hover => ⟨fun h => (by cases h), hover.2.1, fun h => (by cases h)⟩, rfl⟩
  | release l has settled unreleased mutating done =>
    exact ⟨Spent.setLaunch { hs with } has ⟨rfl, rfl, rfl, rfl, rfl⟩ fun _ hover => hover, rfl⟩

/-- An operation whose tool was just called is spent. -/
theorem spent_of_invoke (h : Sound s) (has : s.Has l) (scheduled : l.work = some .scheduled)
    (mutating : l.operation.effect.mutating) :
    Spent ((s.record l.operation).setLaunch { l with work := some .running }) l.operation.id where
  stored := by
    obtain ⟨stored, hget, -, heffect⟩ := h.placed.known l has
    have hnotWaiting := h.locked.begun l has mutating (by rw [scheduled]; rfl) stored hget
    have hoperations : (s.record l.operation).operations = s.operations := by
      unfold Executor.record
      rw [if_pos mutating]
    show ∃ stored, (s.record l.operation).operations.get? l.operation.id = some stored ∧ _
    rw [hoperations]
    exact ⟨stored, hget, by rw [heffect]; exact mutating, hnotWaiting⟩
  launched x hx hid := by
    have executing := (h.placed.phased l has).scheduled scheduled
    rcases has_setLaunch.mp hx with rfl | ⟨hne, hx⟩
    · exact ⟨by simp [executing], fun h => (by cases h), fun _ h => (by cases h)⟩
    · rw [has_record] at hx
      have hxmutating := (h.placed.contend has hx hid.symm mutating).2.1
      rcases Nat.lt_or_gt_of_ne hne with hlt | hlt
      · obtain ⟨hsettled, hnone⟩ := h.locked.again x l hx has hxmutating hid hlt
        exact ⟨by simp [hsettled], by simp [hnone], by simp [hsettled]⟩
      · obtain ⟨hsettled, -⟩ := h.locked.again l x has hx mutating hid.symm hlt
        rw [executing] at hsettled
        cases hsettled

/-- Every move keeps it that tools are called once. -/
theorem Move.once (h : Sound s) (move : Move s s') (o : Once s) : Once s' := by
  have hspent : ∀ id ∈ s.executed, Spent s' id := fun id hid => (move.spent h (o.spent id hid)).1
  -- Only the move that calls a tool adds to what was executed.
  cases move with
  | invoke l has scheduled =>
    by_cases hmutating : l.operation.effect.mutating
    · have hexecuted : (s.record l.operation).executed = s.executed ++ [l.operation.id] := by
        unfold Executor.record
        rw [if_pos hmutating]
      have hnew : l.operation.id ∉ s.executed := fun hmem =>
        ((o.spent _ hmem).launched l has rfl).2.1 scheduled
      constructor
      · show (s.record l.operation).executed.Nodup
        rw [hexecuted]
        exact List.nodup_append.mpr ⟨o.nodup, List.nodup_singleton _, fun a ha b hb hab =>
          hnew (by rw [← List.mem_singleton.mp hb, ← hab]; exact ha)⟩
      · intro id hid
        have hid' : id ∈ (s.record l.operation).executed := hid
        rw [hexecuted, List.mem_append, List.mem_singleton] at hid'
        rcases hid' with hid | rfl
        · exact hspent id hid
        · exact spent_of_invoke h has scheduled hmutating
    · have hsame : s.record l.operation = s := by
        unfold Executor.record
        rw [if_neg hmutating]
      rw [hsame] at hspent ⊢
      exact ⟨o.nodup, hspent⟩
  | launch operation hl =>
    have hexecuted : (s.launch operation).executed = s.executed := by rw [launch_eq hl]
    rw [← hexecuted] at hspent
    exact ⟨by rw [hexecuted]; exact o.nodup, hspent⟩
  | _ => exact ⟨o.nodup, hspent⟩

end Calls

/-! ## A new process -/

section Restarting

variable {s : Executor} (workspace : AgentId → String)

/-- After a restart there are no launches. -/
theorem not_has_restart (l : Launch) : ¬ (s.restart workspace).Has l := by
  intro h
  cases h

/-- A process that was started again is sound. -/
theorem Sound.restart : Sound (s.restart workspace) where
  placed :=
    { bounded := fun l hl => absurd hl (not_has_restart workspace l)
      idle := fun _ => not_has_restart workspace
      known := fun l hl => absurd hl (not_has_restart workspace l)
      behind := fun l _ hl => absurd hl (not_has_restart workspace l)
      tail := fun l hl => absurd hl (not_has_restart workspace l)
      phased := fun l hl => absurd hl (not_has_restart workspace l) }
  registered l hl := absurd hl (not_has_restart workspace l)
  locked :=
    { work := fun l hl => absurd hl (not_has_restart workspace l)
      order := fun l _ hl => absurd hl (not_has_restart workspace l)
      again := fun l _ hl => absurd hl (not_has_restart workspace l)
      begun := fun l hl => absurd hl (not_has_restart workspace l)
      recorded := fun l hl => absurd hl (not_has_restart workspace l)
      running := fun h => (by cases h)
      clear := fun l hl => absurd hl (not_has_restart workspace l)
      faultless := fun l _ hl => absurd hl (not_has_restart workspace l) }

/-- What is stored is enough for a new process not to call a tool again. -/
theorem Spent.restart {id : String} (h : Spent s id) : Spent (s.restart workspace) id where
  stored := h.stored
  launched l hl := absurd hl (not_has_restart workspace l)

/-- After a restart tools are called once for each operation. -/
theorem Once.restart (h : Once s) : Once (s.restart workspace) where
  nodup := h.nodup
  spent id hid := (h.spent id hid).restart workspace

end Restarting

end OsAgent.AgentRuntime
