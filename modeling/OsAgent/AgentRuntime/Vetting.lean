import OsAgent.AgentRuntime.Agents
import OsAgent.AgentRuntime.Execution
import OsAgent.AgentRuntime.System

/-!
# What is launched was vetted

A new operation is checked when it is staged, and again before its tool is called. In between it is
stored, launched, approved, and recovered by another process, always as the same call. `Vetted` says
that whatever is stored and has not failed, and whatever is launched, passed the first check (`G`), and
that a launch that has come to its tool passed the second one (`W`). Every stretch of the executor's
code keeps that, and only `execute` has to check for it.
-/

namespace OsAgent.AgentRuntime

open OsAgent.Library
open ControlBlock (AgentId)
open AgentScheduler (AsyncOperation AsyncOperationResult)
open Context (ContextCursor)

/-- What is stored or launched passed `G`, and what has come to its tool passed `W`. -/
structure Executor.Vetted (G : ExecutionOperation → Prop) (W : ℕ → ExecutionOperation → Prop)
    (s : Executor) : Prop where
  stored : ∀ operation ∈ s.operations.entries, operation.state ≠ .failed → G operation.call
  launched : ∀ launch ∈ s.launches.entries, G launch.operation.call
  called : ∀ launch ∈ s.launches.entries, launch.work.isSome →
    W launch.ticket launch.operation.call

namespace Executor.Vetted

variable {G : ExecutionOperation → Prop} {W : ℕ → ExecutionOperation → Prop} {s s' : Executor}
  {operation : ExecutionOperation}

/-- Weaker checks were passed as well. -/
theorem mono {G' : ExecutionOperation → Prop} {W' : ℕ → ExecutionOperation → Prop}
    (h : s.Vetted G W) (hG : ∀ operation, G operation → G' operation)
    (hW : ∀ ticket operation, W ticket operation → W' ticket operation) : s.Vetted G' W' where
  stored := fun operation hmem hstate => hG _ (h.stored operation hmem hstate)
  launched := fun launch hmem => hG _ (h.launched launch hmem)
  called := fun launch hmem hwork => hW _ _ (h.called launch hmem hwork)

/-- Neither the operations nor the launches have changed. -/
theorem of_same (h : s.Vetted G W) (operations : s'.operations = s.operations)
    (launches : s'.launches = s.launches) : s'.Vetted G W := by
  constructor
  · rw [operations]
    exact h.stored
  · rw [launches]
    exact h.launched
  · rw [launches]
    exact h.called

/-- What is quiet changes nothing that was vetted. -/
theorem quiet (h : s.Vetted G W) (hquiet : Quiet s s') : s'.Vetted G W :=
  h.of_same hquiet.operations hquiet.launches

/-- An operation is written that has failed or passed the check. -/
theorem put (h : s.Vetted G W) (hoperation : operation.state ≠ .failed → G operation.call) :
    (s.put operation).Vetted G W where
  stored := by
    intro other hother hstate
    rcases OrderedMap.mem_entries_insert hother with rfl | hold
    · exact hoperation hstate
    · exact h.stored other hold hstate
  launched := h.launched
  called := h.called

/-- A launch changes within what was checked. -/
theorem setLaunch (h : s.Vetted G W) {l : Launch} (hG : G l.operation.call)
    (hW : l.work.isSome → W l.ticket l.operation.call) : (s.setLaunch l).Vetted G W where
  stored := h.stored
  launched := by
    intro other hother
    rcases OrderedMap.mem_entries_insert hother with rfl | hold
    · exact hG
    · exact h.launched other hold
  called := by
    intro other hother hwork
    rcases OrderedMap.mem_entries_insert hother with rfl | hold
    · exact hW hwork
    · exact h.called other hold hwork

/-- A launch may change, if it stays vetted. -/
theorem modifyLaunch (h : s.Vetted G W) {ticket : ℕ} {change : Launch → Launch}
    (hG : ∀ l, s.launches.get? ticket = some l → G (change l).operation.call)
    (hW : ∀ l, s.launches.get? ticket = some l → (change l).work.isSome →
      W (change l).ticket (change l).operation.call) :
    (s.modifyLaunch ticket change).Vetted G W := by
  unfold Executor.modifyLaunch
  split
  · next l hl => exact h.setLaunch (hG l hl) (hW l hl)
  · exact h

/-- A change of a launch that leaves its call, and does not bring it to its tool. -/
theorem modifyLaunch_same (h : s.Vetted G W) {ticket : ℕ} {change : Launch → Launch}
    (hticket : ∀ l, (change l).ticket = l.ticket)
    (hcall : ∀ l, (change l).operation.call = l.operation.call)
    (hwork : ∀ l, (change l).work.isSome → l.work.isSome) :
    (s.modifyLaunch ticket change).Vetted G W := by
  apply h.modifyLaunch
  · intro l hl
    rw [hcall]
    exact h.launched l (OrderedMap.mem_of_get? hl)
  · intro l hl hsome
    rw [hcall, hticket]
    exact h.called l (OrderedMap.mem_of_get? hl) (hwork l hsome)

/-- An operation is launched that passed the check. It has not come to its tool. -/
theorem launch (h : s.Vetted G W) (hoperation : G operation.call) :
    (s.launch operation).Vetted G W := by
  by_cases hidle : s.stopping || (s.active operation.id).isSome
  · rw [Executor.launch, if_pos hidle]
    exact h
  · rw [Executor.launch, if_neg hidle]
    have hset : (s.setLaunch (s.newLaunch operation)).Vetted G W :=
      h.setLaunch hoperation fun hwork => absurd hwork (by simp [newLaunch])
    exact hset.of_same rfl rfl

/-- A new process launches nothing that the former one launched. -/
theorem restart (h : s.Vetted G W) (workspace : AgentId → String) :
    (s.restart workspace).Vetted G W where
  stored := h.stored
  launched := fun _ hlaunch => absurd hlaunch List.not_mem_nil
  called := fun _ hlaunch => absurd hlaunch List.not_mem_nil

/-- A stored operation that has not failed was vetted. -/
theorem of_get? (h : s.Vetted G W) {id : String} (hget : s.operations.get? id = some operation)
    (hstate : operation.state ≠ .failed) : G operation.call :=
  h.stored operation (OrderedMap.mem_of_get? hget) hstate

end Executor.Vetted

variable {G : ExecutionOperation → Prop} {W : ℕ → ExecutionOperation → Prop} {env : Surroundings}
  {s : Executor} {operation : ExecutionOperation}

/-! ## Writing and delivering -/

/-- However a stretch of code ends, what is stored and launched was vetted. -/
abbrev Vets (G : ExecutionOperation → Prop) (W : ℕ → ExecutionOperation → Prop) {α : Type}
    (x : EStateM Stop Executor α) (s : Executor) : Prop :=
  Ends x (Executor.Vetted G W) s

/-- Code that only notes things beside the operations. -/
theorem vets_of_quiet {α : Type} {x : EStateM Stop Executor α} (h : s.Vetted G W)
    (hx : wp x (fun _ => Quiet s) (fun _ => Quiet s) s) : Vets G W x s :=
  wp_mono hx (fun _ _ hquiet => h.quiet hquiet) fun _ _ hquiet => h.quiet hquiet

/-- To tell the scheduler leaves what was vetted. -/
theorem vets_deliver (h : s.Vetted G W) : Vets G W (deliver env operation) s :=
  vets_of_quiet h quiet_deliver

/-- To tell the host leaves what was vetted. -/
theorem vets_deliverReconciliation (h : s.Vetted G W) :
    Vets G W (deliverReconciliation env operation) s :=
  vets_of_quiet h quiet_deliverReconciliation

/-- One program after another. -/
theorem vets_bind {α β : Type} {x : EStateM Stop Executor α} {f : α → EStateM Stop Executor β}
    (hx : Vets G W x s) (hf : ∀ a s', s'.Vetted G W → Vets G W (f a) s') :
    Vets G W (x >>= f) s :=
  wp_bind_of hx hf fun _ _ h => h

/-- An answer of the surroundings is waited for. -/
theorem vets_lift_bind {α β : Type} {x : Except Stop α} {f : α → EStateM Stop Executor β}
    (h : s.Vetted G W) (hf : ∀ a, x = .ok a → Vets G W (f a) s) : Vets G W (liftM x >>= f) s := by
  show wp _ _ _ _
  rw [wp_bind, wp_lift]
  exact ⟨hf, fun _ _ => h⟩

/-- An operation that was vetted may be written. -/
theorem vets_put (h : s.Vetted G W) (hoperation : operation.state ≠ .failed → G operation.call) :
    Vets G W (putOperation env operation) s :=
  ends_put h fun _ hquiet _ => (h.put hoperation).quiet hquiet

/-- A change to vetted data leaves them vetted. -/
theorem vets_modify {f : Executor → Executor} (h : (f s).Vetted G W) : Vets G W (modify f) s := h

/-- An operation that was vetted may be written and delivered. -/
theorem vets_putDeliver (h : s.Vetted G W) (hoperation : operation.state ≠ .failed → G operation.call) :
    Vets G W (do putOperation env operation; deliver env operation) s :=
  vets_bind (vets_put h hoperation) fun _ _ h' => vets_deliver h'

/-- To fail an operation leaves what was vetted. -/
theorem vets_expire (h : s.Vetted G W) : Vets G W (expire env operation) s := by
  show wp _ _ _ _
  rw [expire, wp_ite]
  split_ifs
  · exact vets_putDeliver h fun hstate => absurd rfl hstate
  · exact h

/-- A loop over operations each of which was vetted or has failed. -/
theorem vets_forM {f : ExecutionOperation → EStateM Stop Executor Unit}
    {l : List ExecutionOperation} (h : s.Vetted G W)
    (hl : ∀ operation ∈ l, operation.state ≠ .failed → G operation.call)
    (hf : ∀ operation s', (operation.state ≠ .failed → G operation.call) → s'.Vetted G W →
      Vets G W (f operation) s') : Vets G W (l.forM f) s := by
  refine wp_mono (wp_forM (I := fun rest s => s.Vetted G W ∧
    ∀ operation ∈ rest, operation.state ≠ .failed → G operation.call) ?_ ⟨h, hl⟩)
    (fun _ _ h => h.1) fun _ _ h => h
  intro operation rest s' ⟨hs', hrest⟩
  have hrest' : ∀ other ∈ rest, other.state ≠ .failed → G other.call :=
    fun other hother => hrest other (List.mem_cons_of_mem _ hother)
  exact wp_mono (hf operation s' (hrest operation List.mem_cons_self) hs')
    (fun _ _ h => ⟨h, hrest'⟩) fun _ _ h => h

/-! ## Staging a round -/

/-- What the first check lets pass was vetted. It is made of the calls of rounds. -/
def Judges (G : ExecutionOperation → Prop) (env : Surroundings) : Prop :=
  ∀ roundKey index operation, operation.id = operationId roundKey index →
    env.withinCeiling operation = .ok true → G operation.call

/-- An operation that is not rejected is within the ceiling. -/
theorem withinCeiling_of_judge
    (h : ∀ message, judge env operation ≠ .rejected message) :
    env.withinCeiling operation = .ok true := by
  unfold judge at h
  split_ifs at h
  · exact absurd rfl (h _)
  · exact absurd rfl (h _)
  · exact absurd rfl (h _)
  · split at h
    · next hvalid hwithin =>
      split_ifs at h with hnot
      · exact absurd rfl (h _)
      · exact absurd rfl (h _)
      · simp only [Bool.not_eq_true', Bool.not_eq_false] at hnot
        rw [hwithin, hnot]
    · exact absurd rfl (h _)

/-- A judgement does not change the call. -/
theorem call_judged (operation : ExecutionOperation) (judgement : Judgement) :
    (judged operation judgement).call = operation.call := by
  cases judgement <;> rfl

/-- To record a new operation leaves what was vetted. -/
theorem vets_recordNew {judgement : Judgement} (h : s.Vetted G W)
    (hoperation : operation.state ≠ .failed → G operation.call)
    (hjudgement : (∃ message, judgement = .rejected message) ∨ G operation.call) :
    Vets G W (recordNew env operation judgement) s := by
  refine vets_bind (vets_put h hoperation) fun _ s₁ h₁ => vets_lift_bind h₁ fun handle _ => ?_
  refine vets_bind (vets_put h₁ hoperation) fun _ s₂ h₂ => ?_
  cases judgement with
  | rejected message => exact vets_deliver h₂
  | approval => exact h₂
  | allowed =>
    have hG : G operation.call := hjudgement.resolve_left (by simp)
    exact vets_modify (h₂.launch hG)

/-- To stage a new operation leaves what was vetted. -/
theorem vets_stageNew {roundKey : String} {index : ℕ} (h : s.Vetted G W) (hjudges : Judges G env)
    (hid : operation.id = operationId roundKey index) :
    Vets G W (stageNew env operation) s := by
  have hvetted : ∀ judgement, (∀ message, judgement ≠ .rejected message) →
      judge env operation = judgement →
      Vets G W (recordNew env (judged operation judgement) judgement) s := by
    intro judgement hnot hjudge
    have hG : G operation.call :=
      hjudges roundKey index operation hid (withinCeiling_of_judge (by rw [hjudge]; exact hnot))
    rw [← call_judged operation judgement] at hG
    exact vets_recordNew h (fun _ => hG) (.inr hG)
  unfold stageNew
  cases hjudge : judge env operation with
  | rejected message =>
    refine vets_lift_bind h fun _ _ => ?_
    exact vets_recordNew h (fun hstate => absurd rfl hstate) (.inl ⟨message, rfl⟩)
  | approval => exact hvetted .approval (by simp) hjudge
  | allowed => exact hvetted .allowed (by simp) hjudge

/-- Registering a recorded operation changes nothing that was vetted. -/
theorem vets_registered (h : s.Vetted G W) (hoperation : operation.state ≠ .failed → G operation.call) :
    wp (restage.registered env operation)
      (fun registered s' => s'.Vetted G W ∧ registered.call = operation.call ∧
        registered.state = operation.state)
      (fun _ => Executor.Vetted G W) s := by
  unfold restage.registered
  split
  · exact ⟨h, rfl, rfl⟩
  · rw [wp_bind, wp_lift]
    refine ⟨fun handle _ => ?_, fun _ _ => h⟩
    have hput : (s.put { operation with schedulerOperation := some handle }).Vetted G W :=
      h.put hoperation
    rw [wp_bind]
    refine ends_put h fun s' hquiet _ => ?_
    exact ⟨hput.quiet hquiet, rfl, rfl⟩

/-- To stage an operation again leaves what was vetted. -/
theorem vets_restage {call : ToolCall} (h : s.Vetted G W)
    (hoperation : operation.state ≠ .failed → G operation.call) :
    Vets G W (restage env operation call) s := by
  unfold restage
  split_ifs
  · exact h
  · refine wp_bind_of (vets_registered h hoperation) ?_ fun _ _ h => h
    rintro registered s' ⟨h', hcall, hstate⟩
    have hG : registered.state ≠ .failed → G registered.call := by
      rw [hcall, hstate]
      exact hoperation
    cases hcase : registered.state with
    | registered => exact vets_modify (h'.launch (hG (by simp [hcase])))
    | running => exact vets_modify (h'.launch (hG (by simp [hcase])))
    | succeeded => exact vets_deliver h'
    | failed => exact vets_deliver h'
    | unknown => exact vets_lift_bind h' fun _ _ => vets_deliver h'
    | approval => exact h'

/-- To stage the calls of a round leaves what was vetted. -/
theorem vets_stage {roundKey : String} {agentId : AgentId} {cursor : ContextCursor}
    {calls : List ToolCall} (h : s.Vetted G W) (hjudges : Judges G env) :
    Vets G W (stage env roundKey agentId cursor calls) s := by
  refine wp_forM (I := fun _ => Executor.Vetted G W) ?_ h
  rintro ⟨call, index⟩ rest s' h'
  show wp _ _ _ _
  rw [wp_bind, wp_get]
  split
  · next previous hprevious =>
    exact vets_restage h' fun hstate => h'.of_get? hprevious hstate
  · exact vets_stageNew h' hjudges rfl

/-! ## The host's decisions -/

/-- The host's approval leaves what was vetted. -/
theorem vets_approve {id : String} {allowed : Bool} (h : s.Vetted G W) :
    Vets G W (approve env id allowed) s := by
  show wp _ _ _ _
  rw [approve, wp_bind, wp_get]
  split
  · exact h
  · next operation hoperation =>
    simp only [wp_ite]
    split_ifs with happroval
    · exact h
    · exact vets_bind (vets_expire h) fun _ _ h' => h'
    · exact h
    · exact vets_putDeliver h fun hstate => absurd rfl hstate
    · have hG : G operation.call := by
        refine h.of_get? hoperation ?_
        rw [not_not] at happroval
        rw [happroval]
        simp
      refine vets_lift_bind h fun _ _ => vets_bind (vets_put h fun _ => hG) fun _ s' h' => ?_
      exact vets_modify (h'.launch hG)

/-- The host's reconciliation leaves what was vetted. -/
theorem vets_reconcile {id : String} {outcome : Reconciliation} {result : JsonValue}
    (h : s.Vetted G W) : Vets G W (reconcile env id outcome result) s := by
  show wp _ _ _ _
  rw [reconcile, wp_bind, wp_get]
  split
  · exact h
  · next operation hoperation =>
    simp only [wp_ite, wp_bind, wp_get]
    split_ifs with hunknown
    · exact h
    · exact h
    · have hG : G operation.call := by
        refine h.of_get? hoperation ?_
        rw [not_not] at hunknown
        rw [hunknown]
        simp
      simp only [putReconciliation, wp_write]
      split_ifs
      · exact h
      · have hput : (s.put (operation.become outcome.state result)).Vetted G W := h.put fun _ => hG
        refine wp_mono (vets_deliverReconciliation (hput.of_same rfl rfl)) (fun _ s' h' => ?_)
          fun _ _ h' => h'
        exact vets_deliver h'

/-! ## Recovery -/

/-- To isolate operations leaves what was vetted. -/
theorem vets_isolate (h : s.Vetted G W) : Vets G W (isolateRestoredOperations env) s := by
  show wp _ _ _ _
  rw [isolateRestoredOperations, wp_bind, wp_get]
  refine vets_bind (vets_forM h h.stored fun operation s' hoperation h' => ?_) fun _ s' h' =>
    vets_modify (h'.of_same rfl rfl)
  split
  · next hrunning =>
    refine vets_put h' fun _ => hoperation ?_
    rw [hrunning]
    simp
  · exact h'

/-- The stored operations of an agent were vetted. -/
theorem Executor.Vetted.operationsOf (h : s.Vetted G W) (agentId : AgentId) :
    ∀ operation ∈ s.operationsOf agentId, operation.state ≠ .failed → G operation.call :=
  fun operation hmem => h.stored operation (List.mem_of_mem_filter hmem)

/-- To recover an agent leaves what was vetted. -/
theorem vets_recover {agentId : AgentId} (h : s.Vetted G W) : Vets G W (recover env agentId) s := by
  show wp _ _ _ _
  rw [recover, wp_bind, wp_get]
  refine vets_forM h (h.operationsOf agentId) fun operation s' hoperation h' => ?_
  have hdelivered : Vets G W
      (do deliver env operation; deliverReconciliation env operation) s' :=
    vets_bind (vets_deliver h') fun _ _ h₁ => vets_deliverReconciliation h₁
  cases hcase : operation.state with
  | registered =>
    show wp _ _ _ _
    simp only [wp_ite, wp_bind, wp_modify]
    split_ifs
    · exact vets_deliverReconciliation (h'.launch (hoperation (by simp [hcase])))
    · exact vets_deliverReconciliation h'
  | running => exact vets_deliverReconciliation h'
  | succeeded => exact hdelivered
  | failed => exact hdelivered
  | unknown => exact vets_lift_bind h' fun _ _ => hdelivered
  | approval => exact vets_deliverReconciliation h'

/-- To notify of reconciliations leaves what was vetted. -/
theorem vets_notifyReconciliations {agentId : AgentId} (h : s.Vetted G W) :
    Vets G W (notifyReconciliations env agentId) s := by
  show wp _ _ _ _
  rw [notifyReconciliations, wp_bind, wp_get]
  exact vets_forM h (h.operationsOf agentId) fun _ _ _ h' => vets_deliverReconciliation h'

/-- To resume an agent leaves what was vetted. -/
theorem vets_resume {agentId : AgentId} (h : s.Vetted G W) : Vets G W (resume agentId) s := by
  show wp _ _ _ _
  rw [resume, wp_bind, wp_get]
  refine vets_forM h (h.operationsOf agentId) fun operation s' hoperation h' => ?_
  split
  · next hregistered =>
    refine vets_modify (h'.launch (hoperation ?_))
    rw [hregistered]
    simp
  · exact h'

/-- To dismiss an agent leaves what was vetted. -/
theorem vets_dismiss {agentId : AgentId} (h : s.Vetted G W) : Vets G W (dismiss env agentId) s := by
  show wp _ _ _ _
  rw [dismiss, wp_bind, wp_get]
  refine vets_forM h (h.operationsOf agentId) fun operation s' _ h' => ?_
  split
  · exact vets_expire h'
  · exact h'

/-! ## Results of the scheduler -/

/-- To settle a wait leaves what was vetted. -/
theorem vets_settleWait {outcome : Option String} (h : s.Vetted G W)
    (hoperation : operation.state ≠ .failed → G operation.call) :
    Vets G W (resolveWait.settleWait env operation outcome) s := by
  cases outcome with
  | none => exact h
  | some outcome =>
    unfold resolveWait.settleWait
    split_ifs with hrunning
    · have hG : G operation.call := hoperation (by rw [hrunning]; simp)
      refine vets_bind (vets_put h fun _ => hG) fun _ s' h' => ?_
      show wp _ _ _ _
      simp only [wp_ite, wp_bind, wp_lift, wp_pure]
      split_ifs
      · exact ⟨fun _ _ => h', fun _ _ => h'⟩
      · exact h'
    · exact vets_bind (vets_expire h) fun _ _ h' => h'
    · exact h

/-- To resolve a wait leaves what was vetted. -/
theorem vets_resolveWait {result : AsyncOperationResult} (h : s.Vetted G W)
    (hoperation : operation.state ≠ .failed → G operation.call) :
    Vets G W (resolveWait env operation result) s := by
  show wp _ _ _ _
  rw [resolveWait, wp_bind, wp_get]
  split
  · exact h
  · refine vets_bind (vets_settleWait h hoperation) fun settled s₁ h₁ => ?_
    have hnoted : ∀ ref s₂, s₂.Vetted G W → Vets G W (do
        write env fun s => { s with waits := Function.update s.waits ("wait-result:" ++
          result.operation.operationId ++ ":" ++ toString result.completedAt) (some ref) }
        return ref) s₂ := by
      intro ref s₂ h₂
      show wp _ _ _ _
      simp only [wp_bind, wp_write, wp_pure]
      split_ifs
      · exact h₂
      · exact h₂.of_same rfl rfl
    have hsnapshot : Vets G W (do
        let ref ← snapshot env settled
        write env fun s => { s with waits := Function.update s.waits ("wait-result:" ++
          result.operation.operationId ++ ":" ++ toString result.completedAt) (some ref) }
        return ref) s₁ :=
      vets_bind (vets_of_quiet h₁ quiet_snapshot) hnoted
    cases result.outcome with
    | succeeded resultRef => exact hnoted resultRef s₁ h₁
    | failed error resultRef => exact hsnapshot
    | cancelled reason => exact hsnapshot
    | timedOut => exact hsnapshot

/-! ## Executing -/

variable {ticket : ℕ}

/-- Another phase of a launch leaves what was vetted. -/
theorem vets_moveTo {phase : Phase} (h : s.Vetted G W) : Vets G W (moveTo ticket phase) s :=
  vets_modify (h.modifyLaunch_same (fun _ => rfl) (fun _ => rfl) fun _ hwork => hwork)

/-- The operation object of a launch changes, and stays the same call. -/
def Executor.Calls (s : Executor) (ticket : ℕ) (call : ExecutionOperation) : Prop :=
  ∀ l, s.launches.get? ticket = some l → l.operation.call = call

/-- A changed launch has the call that it had. -/
theorem Executor.calls_modifyLaunch {change : Launch → Launch} {call : ExecutionOperation}
    (hticket : ∀ l, (change l).ticket = l.ticket)
    (hcall : ∀ l, s.launches.get? ticket = some l → (change l).operation.call = call) :
    (s.modifyLaunch ticket change).Calls ticket call := by
  intro l' hl'
  unfold Executor.modifyLaunch at hl'
  split at hl'
  · next l hl =>
    have hkey : ticket = (change l).ticket := by rw [hticket, OrderedMap.key_of_get? hl]
    rw [Executor.setLaunch, OrderedMap.get?_insert, if_pos hkey] at hl'
    rw [← Option.some.inj hl']
    exact hcall l hl
  · next hnone =>
    rw [hnone] at hl'
    cases hl'

/-- To hold an operation leaves what was vetted. -/
theorem vets_hold (operation : ExecutionOperation) (h : s.Vetted G W) (hcalls : s.Calls ticket operation.call) :
    wp (hold ticket operation) (fun _ s' => s'.Vetted G W ∧ s'.Calls ticket operation.call)
      (fun _ => Executor.Vetted G W) s := by
  constructor
  · apply h.modifyLaunch
    · intro l hl
      show G operation.call
      rw [← hcalls l hl]
      exact h.launched l (OrderedMap.mem_of_get? hl)
    · intro l hl hwork
      show W l.ticket operation.call
      rw [← hcalls l hl]
      exact h.called l (OrderedMap.mem_of_get? hl) hwork
  · exact s.calls_modifyLaunch (fun _ => rfl) fun _ _ => rfl

/-- What holds of a launch's call is left by what leaves the launches. -/
theorem Executor.Calls.of_launches {s' : Executor} {call : ExecutionOperation}
    (h : s.Calls ticket call) (launches : s'.launches = s.launches) : s'.Calls ticket call := by
  unfold Executor.Calls
  rw [launches]
  exact h

/-- To refuse a launch leaves what was vetted. -/
theorem vets_refuse (operation : ExecutionOperation) {result : JsonValue} (h : s.Vetted G W)
    (hcalls : s.Calls ticket operation.call) :
    Vets G W (refuse env ticket operation result) s :=
  wp_bind_of (vets_hold _ h hcalls)
    (fun _ _ h' => vets_putDeliver h'.1 fun hstate => absurd rfl hstate) fun _ _ h' => h'

/-- To fail a held operation leaves what was vetted. -/
theorem vets_expireHeld (h : s.Vetted G W) (hcalls : s.Calls ticket operation.call) :
    Vets G W (expireHeld env ticket operation) s := by
  show wp _ _ _ _
  rw [expireHeld, wp_ite]
  split_ifs
  · exact wp_bind_of (vets_hold _ h hcalls) (fun _ _ h' => vets_expire h'.1) fun _ _ h' => h'
  · exact h

/-- To start a tool leaves what was vetted, with the tool. -/
theorem vets_start (h : s.Vetted G W) (hcalls : s.Calls ticket operation.call)
    (hG : G operation.call) (hW : W ticket operation.call) :
    Vets G W (start env ticket operation) s := by
  refine wp_bind_of (vets_hold { operation with state := .running } h hcalls) ?_
    fun _ _ h' => h'
  rintro - s₁ ⟨h₁, hcalls₁⟩
  show wp _ _ _ _
  rw [wp_bind]
  refine ends_put h₁ fun s₂ hquiet _ => ?_
  have hput : (s₁.put { operation with state := .running }).Vetted G W := h₁.put fun _ => hG
  have h₂ : s₂.Vetted G W := hput.quiet hquiet
  have hcalls₂ : s₂.Calls ticket operation.call := hcalls₁.of_launches hquiet.launches
  rw [wp_bind, wp_get, wp_ite]
  split
  · exact vets_bind (vets_refuse { operation with state := .running } h₂ hcalls₂)
      fun _ _ h' => h'
  · -- Only here does a launch come to its tool.
    have hcalled : (s₂.modifyLaunch ticket fun launch =>
        { launch with work := some .scheduled }).Vetted G W := by
      apply h₂.modifyLaunch
      · intro l hl
        exact h₂.launched l (OrderedMap.mem_of_get? hl)
      · intro l hl _
        show W l.ticket l.operation.call
        rw [hcalls₂ l hl, OrderedMap.key_of_get? hl]
        exact hW
    exact hcalled.of_same rfl rfl

/-- What the second check lets pass. -/
structure Admits (env : Surroundings) (operation : ExecutionOperation) : Prop where
  pending : pending env operation = true
  active : env.agentActive operation.agentId = true
  tool : env.tool operation.toolName = some operation.effect
  visible : env.visible operation.agentId operation.toolName = true
  check : env.check operation = .ok true

/-- To execute a launch leaves what was vetted, with the tool. -/
theorem vets_execute (h : s.Vetted G W) (hcalls : s.Calls ticket operation.call)
    (hG : G operation.call) (hW : Admits env operation → W ticket operation.call) :
    Vets G W (execute env ticket operation) s := by
  unfold execute
  split_ifs with hpending hactive
  · exact vets_bind (vets_expireHeld h hcalls) fun _ _ h' => h'
  · exact h
  · split
    · exact h
    · next effect heffect =>
      refine vets_lift_bind h fun allowed hallowed => ?_
      cases allowed with
      | false => exact vets_bind (vets_refuse _ h hcalls) fun _ _ h' => h'
      | true =>
        refine vets_start h hcalls hG (hW ?_)
        unfold permitted at hallowed
        split_ifs at hallowed with hdenied
        · cases hallowed
        · simp only [Bool.or_eq_true, decide_eq_true_eq, Bool.not_eq_true', not_or, ne_eq, not_not,
            Bool.not_eq_false] at hdenied
          refine ⟨by simpa using hpending, by simpa using hactive, ?_, hdenied.2, ?_⟩
          · rw [heffect, hdenied.1]
          · cases hcheck : env.check operation with
            | error e =>
              rw [hcheck] at hallowed
              cases hallowed
            | ok result =>
              rw [hcheck] at hallowed
              rw [Except.ok.inj hallowed]

/-- What is guarded leaves what was vetted, if its body does. -/
theorem vets_guarded {body : EStateM Stop Executor Bool} (h : Vets G W body s) :
    Vets G W (guarded ticket body) s := by
  show wp _ _ _ _
  rw [guarded, wp_tryCatch, wp_bind]
  refine wp_mono h (fun waits s' h' => ?_) fun e s' h' => ?_
  · rw [wp_ite]
    split_ifs
    · refine wp_mono (vets_moveTo h') (fun _ _ h'' => h'') fun e s'' h'' => ?_
      cases e with
      | crash => exact h''
      | fault message =>
        exact h''.modifyLaunch_same (fun _ => rfl) (fun _ => rfl) fun _ hwork => hwork
    · exact h'
  · cases e with
    | crash => exact h'
    | fault message =>
      exact h'.modifyLaunch_same (fun _ => rfl) (fun _ => rfl) fun _ hwork => hwork

/-- To write an outcome leaves what was vetted. -/
theorem vets_writeOutcome (h : s.Vetted G W) (hG : G operation.call) :
    Vets G W (writeOutcome env operation) s := by
  refine vets_bind (vets_put h fun _ => hG) fun _ s' h' => ?_
  split_ifs
  · exact vets_lift_bind h' fun _ _ => vets_deliver h'
  · exact vets_deliver h'

/-- What a tool answers does not change the call. -/
theorem call_concluded (operation : ExecutionOperation) (aborted : Bool)
    (answer : Except ToolFailure JsonValue) :
    (concluded operation aborted answer).1.call = operation.call := by
  cases answer with
  | ok result => rfl
  | error failure =>
    cases failure with
    | precondition code message => cases aborted <;> rfl
    | execution code message detail => rfl
    | other => rfl

/-- To conclude a launch leaves what was vetted. -/
theorem vets_conclude {aborted : Bool} {answer : Except ToolFailure JsonValue} (h : s.Vetted G W)
    (hcalls : s.Calls ticket operation.call) (hG : G operation.call) :
    Vets G W (conclude env ticket operation aborted answer) s := by
  rw [← call_concluded operation aborted answer] at hcalls hG
  simp only [conclude, Ends, Vets]
  refine wp_bind_of (vets_hold _ h hcalls) ?_ fun _ _ h' => h'
  rintro - s' ⟨h', -⟩
  cases (concluded operation aborted answer).2 with
  | none => exact vets_writeOutcome h' hG
  | some message => exact vets_lift_bind h' fun _ _ => vets_writeOutcome h' hG

/-! ## Every act -/

/-- What is done with a launch leaves what was vetted. -/
theorem vets_withLaunch {step : Launch → EStateM Stop Executor Unit} (h : s.Vetted G W)
    (hstep : ∀ l, s.launches.get? ticket = some l → Vets G W (step l) s) :
    Vets G W (withLaunch ticket step) s := by
  show wp _ _ _ _
  rw [withLaunch, wp_bind, wp_get]
  split
  · next l hl => exact hstep l hl
  · exact h

/-- A launch that has come to its tool goes on with it. -/
theorem Executor.Vetted.setWork (h : s.Vetted G W) (work : Work) {old : Work}
    (hl : s.LaunchIs ticket (·.work = some old)) :
    (s.modifyLaunch ticket fun l => { l with work := some work }).Vetted G W := by
  obtain ⟨l, hget, hwork⟩ := hl
  have hmem := OrderedMap.mem_of_get? hget
  apply h.modifyLaunch
  · intro l' hl'
    exact h.launched l' (OrderedMap.mem_of_get? hl')
  · intro l' hl' _
    rw [hget] at hl'
    obtain rfl := Option.some.inj hl'
    exact h.called l hmem (by rw [hwork]; rfl)

/-- A launch whose turn has come leaves what was vetted, with the tool. -/
theorem vets_proceed (h : s.Vetted G W)
    (hW : ∀ l, s.launches.get? ticket = some l → s.stopping = false → Admits env l.operation →
      W ticket l.operation.call) :
    Vets G W (Act.perform env (.proceed ticket)) s := by
  refine vets_withLaunch h fun l hl => ?_
  show wp _ _ _ _
  rw [wp_bind, wp_get, wp_ite]
  split_ifs with hstopping
  · exact vets_moveTo h
  · have hG : G l.operation.call := h.launched l (OrderedMap.mem_of_get? hl)
    have hmoved : wp (moveTo ticket .executing)
        (fun _ s' => s'.Vetted G W ∧ s'.Calls ticket l.operation.call)
        (fun _ => Executor.Vetted G W) s := by
      refine ⟨vets_moveTo h, s.calls_modifyLaunch (fun _ => rfl) fun l' hl' => ?_⟩
      rw [hl] at hl'
      rw [Option.some.inj hl']
    refine wp_bind_of hmoved ?_ fun _ _ h' => h'
    rintro - s' ⟨h', hcalls⟩
    exact vets_guarded (vets_execute h' hcalls hG (hW l hl (by simpa using hstopping)))

/-- Whatever happens next, what is stored and launched was vetted. Only a launch whose turn it is comes
to its tool. -/
theorem vets_perform {act : Act} (h : s.Vetted G W) (enabled : act.enabled s)
    (hjudges : Judges G env)
    (hW : ∀ ticket l, act = .proceed ticket → s.launches.get? ticket = some l →
      s.stopping = false → Admits env l.operation → W ticket l.operation.call) :
    Vets G W (act.perform env) s := by
  -- One case per act; what it stores or launches was judged in it or before.
  cases act with
  | stage roundKey agentId cursor calls => exact vets_stage h hjudges
  | approve id allowed => exact vets_approve h
  | reconcile id outcome result => exact vets_reconcile h
  | isolateRestoredOperations => exact vets_isolate h
  | recover agentId => exact vets_recover h
  | notifyReconciliations agentId => exact vets_notifyReconciliations h
  | resume agentId => exact vets_resume h
  | dismiss agentId => exact vets_dismiss h
  | stop => exact vets_modify (h.of_same rfl rfl)
  | resolveWait operation result =>
    exact vets_bind (vets_resolveWait h fun hstate => h.of_get? enabled.2 hstate) fun _ _ h' => h'
  | proceed ticket => exact vets_proceed h fun l => hW ticket l rfl
  | cancel ticket => exact vets_moveTo h
  | invoke ticket =>
    refine vets_withLaunch h fun l _ => vets_modify ?_
    have hrunning := h.setWork .running enabled
    unfold Executor.record
    split_ifs
    · exact hrunning.of_same rfl rfl
    · exact hrunning
  | answer ticket reply => exact vets_modify (h.setWork _ enabled)
  | conclude ticket aborted reply =>
    refine vets_withLaunch h fun l hl => vets_guarded ?_
    have hcalls : s.Calls ticket l.operation.call := by
      intro l' hl'
      rw [hl] at hl'
      rw [Option.some.inj hl']
    have hG : G l.operation.call := h.launched l (OrderedMap.mem_of_get? hl)
    exact vets_bind (vets_conclude h hcalls hG) fun _ _ h' => h'
  | handle ticket =>
    refine vets_withLaunch h fun l _ => ?_
    show wp _ _ _ _
    simp only [wp_bind, wp_ite, stop, wp_modify]
    split_ifs
    · exact vets_moveTo (h.of_same rfl rfl)
    · exact vets_moveTo h
  | settle ticket =>
    exact vets_withLaunch h fun l _ => vets_bind (vets_modify (h.of_same rfl rfl)) fun _ _ h' =>
      vets_moveTo h'
  | release ticket =>
    refine vets_withLaunch h fun l _ => vets_bind (vets_modify (h.of_same rfl rfl)) fun _ s' h' => ?_
    exact vets_modify (h'.modifyLaunch_same (fun _ => rfl) (fun _ => rfl) fun _ hwork => hwork)

end OsAgent.AgentRuntime
