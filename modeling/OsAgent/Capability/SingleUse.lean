import OsAgent.Capability.Manager
import OsAgent.Library.Transition

/-!
# Grants that can be used once

What needs a human's approval is granted for one use. A task consumes its grants when it executes a tool
(`kernel/task-control-block.ts`, `scheduler/task-scheduler.ts`), and saves that before the tool runs.
`single_use` says that such a grant serves one operation, over all executions, restarts and repetitions.
-/

namespace OsAgent.Capability

open OsAgent.Library CapabilityManager

/-! ## The grants of a task -/

/-- What `consumeCapabilityGrant` does to the grant that it finds. -/
def CapabilityGrant.consume (operationId : String) (grant : CapabilityGrant) :
    Except String CapabilityGrant :=
  match grant.remainingUses with
  | none => .ok grant
  | some uses =>
    if grant.consumedBy = some operationId then .ok grant
    else if uses = 0 then .error ("Capability grant is exhausted: " ++ grant.grantId)
    else .ok { grant with remainingUses := some (uses - 1), consumedBy := some operationId }

/-- Consumes one use of the first grant with the identifier. -/
def consumeCapabilityGrant (grantId operationId : String) :
    List CapabilityGrant → Except String (List CapabilityGrant)
  | [] => .error ("Capability grant is not registered: " ++ grantId)
  | grant :: grants =>
    if grant.grantId = grantId then do
      let grant ← grant.consume operationId
      pure (grant :: grants)
    else do
      let grants ← consumeCapabilityGrant grantId operationId grants
      pure (grant :: grants)

/-- Adds grants to those that a task holds, up to the first one of another task. -/
def addCapabilityGrants (taskId : String) (held : List CapabilityGrant) :
    List CapabilityGrant → List CapabilityGrant × Except String Unit
  | [] => (held, .ok ())
  | grant :: grants =>
    if grant.subjectTaskId ≠ taskId then
      (held, .error "Capability grant subject does not match this task.")
    else if held.any (·.grantId = grant.grantId) then addCapabilityGrants taskId held grants
    else addCapabilityGrants taskId (held ++ [grant]) grants

/-! ## Executing a tool -/

/-- A call of a tool. -/
structure ToolCallRequest where
  callId : String
  toolName : String
deriving DecidableEq, Repr

/-- What a tool may fail with. -/
inductive ToolError where
  | error (message : String)
  | capability (e : CapabilityError)
deriving DecidableEq, Repr

/-- The loop of `executeResolvedTool` over the grants that serve a call. It leaves what it did before it
threw. -/
def consumeGrants (operationId : String) (held : List CapabilityGrant) :
    List CapabilityGrant → Except ToolError Unit × List CapabilityGrant
  | [] => (.ok (), held)
  | grant :: grants =>
    match consumeCapabilityGrant grant.grantId operationId held with
    | .error message => (.error (.error message), held)
    | .ok held => consumeGrants operationId held grants

/-- `executeResolvedTool` up to where the task is saved: the grants that serve the call, and what the task
then holds. `validation` is what the tool says of the input. -/
def CapabilityManager.authorizeTool (m : CapabilityManager) (held : List CapabilityGrant)
    (call : ToolCallRequest) (validation : Except String Unit) (required : List CapabilityRequest)
    (now : ℕ) : Except ToolError (List CapabilityGrant) × List CapabilityGrant :=
  match validation with
  | .error e => (.error (.error ("Invalid input for tool " ++ call.toolName ++ ": " ++ e)), held)
  | .ok () =>
    match m.check held (required.map .request) now (some call.callId) with
    | .error e => (.error (.capability e), held)
    | .ok (.missing missing) =>
      (.error (.error ("Agent lacks capability " ++
        ", ".intercalate (missing.map CapabilityRequest.capability))), held)
    | .ok (.allowed grants) =>
      match consumeGrants call.callId held grants with
      | (.error e, held) => (.error e, held)
      | (.ok (), held) => (.ok grants, held)

/-! ## Runs of a task -/

/-- A task with its grants, and the snapshot of them. -/
structure GrantRun where
  taskId : String
  task : List CapabilityGrant
  stored : List CapabilityGrant
  /-- The grants that the task was ever given. -/
  issued : List CapabilityGrant
  /-- The grants on which operations were executed, with the operations. -/
  authorized : List (String × String) := []

/-- What may happen to the grants of an agent. -/
inductive GrantCall where
  | add (grants : List CapabilityGrant)
  /-- A tool is executed, unless the store fails to save the task. -/
  | execute (call : ToolCallRequest) (validation : Except String Unit) (required : List CapabilityRequest)
      (now : ℕ) (saved : Bool)
  /-- The task is saved for another reason. -/
  | persist
  /-- The task is restored from its snapshot. -/
  | restart

/-- The run after a call. -/
def GrantRun.after (m : CapabilityManager) (run : GrantRun) : GrantCall → GrantRun
  | .add grants =>
    { run with
      task := (addCapabilityGrants run.taskId run.task grants).1
      issued := run.issued ++ grants }
  | .execute call validation required now saved =>
    match m.authorizeTool run.task call validation required now with
    | (.error _, task) => { run with task }
    | (.ok grants, task) =>
      if saved then
        { run with
          task
          stored := task
          authorized := run.authorized ++ grants.map fun grant => (grant.grantId, call.callId) }
      else { run with task }
  | .persist => { run with stored := run.task }
  | .restart => { run with task := run.stored }

/-- The runs of a task that was created with some grants. -/
def grantSystem (m : CapabilityManager) : TransitionSystem GrantRun where
  init run := run.stored = run.task ∧ run.issued = run.task ∧ run.authorized = [] ∧
    (run.task.map CapabilityGrant.grantId).Nodup
  step run run' := ∃ call, run' = run.after m call

/-! ## What consuming a grant does -/

section Consume

variable {grantId operationId : String} {grants grants' : List CapabilityGrant}

/-- A grant that is consumed keeps its identifier. -/
theorem grantId_consume {grant grant' : CapabilityGrant} (h : grant.consume operationId = .ok grant') :
    grant'.grantId = grant.grantId := by
  unfold CapabilityGrant.consume at h
  split at h
  · cases h
    rfl
  · split_ifs at h
    · cases h
      rfl
    · cases h
      rfl

/-- The first grant with the identifier is consumed, and the others stay. -/
theorem consume_spec (h : consumeCapabilityGrant grantId operationId grants = .ok grants') :
    ∃ before grant grant' after, grants = before ++ grant :: after ∧ grant.grantId = grantId ∧
      grant.consume operationId = .ok grant' ∧ grants' = before ++ grant' :: after := by
  induction grants generalizing grants' with
  | nil => cases h
  | cons grant grants ih =>
    unfold consumeCapabilityGrant at h
    split_ifs at h with hid
    · obtain ⟨grant', hgrant, h⟩ := bind_eq_ok.mp h
      cases h
      exact ⟨[], grant, grant', grants, rfl, hid, hgrant, rfl⟩
    · obtain ⟨rest, hrest, h⟩ := bind_eq_ok.mp h
      cases h
      obtain ⟨before, first, first', after, rfl, hfirst, hconsume, rfl⟩ := ih hrest
      exact ⟨grant :: before, first, first', after, rfl, hfirst, hconsume, rfl⟩

/-- A grant that is found is consumed if it can be. -/
theorem consume_of_mem (hnodup : (grants.map CapabilityGrant.grantId).Nodup) {grant : CapabilityGrant}
    (hgrant : grant ∈ grants) :
    (∀ message, grant.consume operationId = .error message →
      consumeCapabilityGrant grant.grantId operationId grants = .error message) ∧
    (grant.consume operationId = .ok grant →
      consumeCapabilityGrant grant.grantId operationId grants = .ok grants) := by
  -- Along the grants: identifiers are unique, so the first match is the grant.
  induction grants with
  | nil => cases hgrant
  | cons first rest ih =>
    rw [List.map_cons, List.nodup_cons] at hnodup
    unfold consumeCapabilityGrant
    rcases List.mem_cons.mp hgrant with rfl | hmem
    · rw [if_pos rfl]
      constructor
      · intro message h
        rw [h]
        rfl
      · intro h
        rw [h]
        rfl
    · have hne : first.grantId ≠ grant.grantId := by
        intro heq
        rw [heq] at hnodup
        exact hnodup.1 (List.mem_map_of_mem hmem)
      obtain ⟨herror, hok⟩ := ih hnodup.2 hmem
      rw [if_neg hne]
      constructor
      · intro message h
        rw [herror message h]
        rfl
      · intro h
        rw [hok h]
        rfl

end Consume

/-! ## A grant for one use -/

/-- A grant after its use. -/
def CapabilityGrant.spent (grant : CapabilityGrant) (operationId : String) : CapabilityGrant :=
  { grant with remainingUses := some 0, consumedBy := some operationId }

/-- A grant as it is issued for one use. -/
structure CapabilityGrant.Single (grant : CapabilityGrant) : Prop where
  one : grant.remainingUses = some 1
  unconsumed : grant.consumedBy = none

section Single

variable {g : CapabilityGrant} {operationId other : String}

/-- A single use is spent by the first operation. -/
theorem consume_single (h : g.Single) (operationId : String) :
    g.consume operationId = .ok (g.spent operationId) := by
  unfold CapabilityGrant.consume
  rw [h.one, h.unconsumed]
  rfl

/-- Consuming it again for the operation changes nothing. -/
theorem consume_spent_self : (g.spent operationId).consume operationId = .ok (g.spent operationId) := by
  unfold CapabilityGrant.consume
  show (if some operationId = some operationId then _ else _) = _
  rw [if_pos rfl]

/-- It cannot be consumed for another operation. -/
theorem consume_spent_other (h : other ≠ operationId) :
    (g.spent operationId).consume other = .error ("Capability grant is exhausted: " ++ g.grantId) := by
  unfold CapabilityGrant.consume
  show (if some operationId = some other then _ else if 0 = 0 then _ else _) = _
  rw [if_neg fun heq => h (Option.some.inj heq).symm, if_pos rfl]
  rfl

/-- It serves no other operation, and none that is not named. -/
theorem covers_spent_other {request : CapabilityRequest} {now : ℕ} {requireDelegable required : Bool}
    {operationId? : Option String} (h : operationId? ≠ some operationId) :
    covers request now requireDelegable operationId? required (g.spent operationId) = false := by
  by_contra hcovers
  rw [Bool.not_eq_false] at hcovers
  unfold covers at hcovers
  simp only [Bool.and_eq_true, Bool.or_eq_true] at hcovers
  rcases hcovers.1.1.2 with huses | hoperation
  · exact absurd huses (by unfold CapabilityGrant.spent; simp)
  · have hconsumed : some operationId = operationId? := of_decide_eq_true hoperation.2
    exact h hconsumed.symm

/-- For its operation, it serves what it served unused. -/
theorem covers_spent_self (h : g.Single) (request : CapabilityRequest) (now : ℕ)
    (requireDelegable required : Bool) :
    covers request now requireDelegable (some operationId) required (g.spent operationId) =
      covers request now requireDelegable (some operationId) required g := by
  unfold covers CapabilityGrant.spent
  rw [h.one]
  simp

end Single

/-! ## What a task holds of it -/

/-- The grants that have the identifier of `g` are `g`, or `g` after its use. -/
structure Holds (g : CapabilityGrant) (grants : List CapabilityGrant) : Prop where
  nodup : (grants.map CapabilityGrant.grantId).Nodup
  same : ∀ grant ∈ grants, grant.grantId = g.grantId → grant = g ∨ ∃ operationId, grant = g.spent operationId

section Holds

variable {g : CapabilityGrant} {operationId callId : String} {grants grants' : List CapabilityGrant}

/-- Consuming a grant keeps what a task holds of `g`, and what was consumed of it. -/
theorem Holds.consume (hg : g.Single) (h : Holds g grants) {grantId : String}
    (hconsume : consumeCapabilityGrant grantId callId grants = .ok grants') :
    Holds g grants' ∧ (∀ operationId, g.spent operationId ∈ grants → g.spent operationId ∈ grants') ∧
      (grantId = g.grantId → g.spent callId ∈ grants') := by
  obtain ⟨before, grant, grant', after, rfl, hid, hgrant, rfl⟩ := consume_spec hconsume
  have hkept := grantId_consume hgrant
  -- What is consumed of `g` is spent for the call.
  have hspent : grantId = g.grantId → grant' = g.spent callId ∧
      ∀ operationId, grant = g.spent operationId → operationId = callId := by
    intro hgrantId
    rcases h.same grant (by simp) (hid.trans hgrantId) with rfl | ⟨used, rfl⟩
    · rw [consume_single hg] at hgrant
      cases hgrant
      refine ⟨rfl, ?_⟩
      intro operationId heq
      have huses := congrArg CapabilityGrant.remainingUses heq
      rw [hg.one] at huses
      cases huses
    · by_cases hused : callId = used
      · rw [hused, consume_spent_self] at hgrant
        cases hgrant
        refine ⟨by rw [hused], ?_⟩
        intro operationId heq
        have hconsumed := congrArg CapabilityGrant.consumedBy heq
        rw [hused]
        exact (Option.some.inj hconsumed).symm
      · rw [consume_spent_other hused] at hgrant
        cases hgrant
  refine ⟨⟨?_, ?_⟩, ?_, ?_⟩
  · have hids := h.nodup
    rw [List.map_append, List.map_cons] at hids ⊢
    rw [hkept]
    exact hids
  · intro x hx hxid
    rcases List.mem_append.mp hx with hx | hx
    · exact h.same x (List.mem_append_left _ hx) hxid
    · rcases List.mem_cons.mp hx with rfl | hx
      · exact .inr ⟨callId, (hspent (by rw [← hid, ← hkept, hxid])).1⟩
      · exact h.same x (List.mem_append_right _ (List.mem_cons_of_mem _ hx)) hxid
  · intro operationId hmem
    rcases List.mem_append.mp hmem with hmem | hmem
    · exact List.mem_append_left _ hmem
    · rcases List.mem_cons.mp hmem with heq | hmem
      · obtain ⟨hgrant', hoperation⟩ := hspent (by rw [← hid, ← heq]; rfl)
        rw [hoperation operationId heq.symm, hgrant']
        simp
      · exact List.mem_append_right _ (List.mem_cons_of_mem _ hmem)
  · intro hgrantId
    rw [(hspent hgrantId).1]
    simp

/-- So does consuming all grants that serve a call. -/
theorem Holds.consumeGrants (hg : g.Single) (h : Holds g grants) {matched : List CapabilityGrant}
    {result : Except ToolError Unit} (hconsume : consumeGrants callId grants matched = (result, grants')) :
    Holds g grants' ∧ (∀ operationId, g.spent operationId ∈ grants → g.spent operationId ∈ grants') ∧
      (result = .ok () → ∀ grant ∈ matched, grant.grantId = g.grantId → g.spent callId ∈ grants') := by
  induction matched generalizing grants with
  | nil =>
    cases hconsume
    refine ⟨h, fun _ hmem => hmem, ?_⟩
    intro _ grant hgrant
    cases hgrant
  | cons grant matched ih =>
    unfold OsAgent.Capability.consumeGrants at hconsume
    split at hconsume
    · cases hconsume
      refine ⟨h, fun _ hmem => hmem, ?_⟩
      intro hresult
      cases hresult
    · next held hheld =>
      obtain ⟨hholds, hmore, hthis⟩ := h.consume hg hheld
      obtain ⟨hholds', hmore', hrest⟩ := ih hholds hconsume
      refine ⟨hholds', fun operationId hmem => hmore' _ (hmore _ hmem), ?_⟩
      intro hresult x hx hxid
      rcases List.mem_cons.mp hx with rfl | hx
      · exact hmore' _ (hthis hxid)
      · exact hrest hresult x hx hxid

/-- The grant holds in what an authorization leaves. -/
theorem Holds.authorizeTool {m : CapabilityManager} (hg : g.Single) (h : Holds g grants)
    {call : ToolCallRequest} {validation : Except String Unit} {required : List CapabilityRequest} {now : ℕ}
    {result : Except ToolError (List CapabilityGrant)}
    (hrun : m.authorizeTool grants call validation required now = (result, grants')) :
    Holds g grants' ∧ (∀ operationId, g.spent operationId ∈ grants → g.spent operationId ∈ grants') ∧
      ∀ matched, result = .ok matched → ∀ grant ∈ matched, grant.grantId = g.grantId →
        g.spent call.callId ∈ grants' := by
  -- A refusal leaves the grants as they are.
  have hunchanged : ∀ e : ToolError, (Except.error e, grants) = (result, grants') →
      Holds g grants' ∧ (∀ operationId, g.spent operationId ∈ grants → g.spent operationId ∈ grants') ∧
        ∀ matched, result = .ok matched → ∀ grant ∈ matched, grant.grantId = g.grantId →
          g.spent call.callId ∈ grants' := by
    intro e heq
    cases heq
    refine ⟨h, fun _ hmem => hmem, ?_⟩
    intro matched hmatched
    cases hmatched
  -- Along the checks of the source; only the last one takes something.
  unfold CapabilityManager.authorizeTool at hrun
  split at hrun
  · exact hunchanged _ hrun
  · split at hrun
    · exact hunchanged _ hrun
    · exact hunchanged _ hrun
    · split at hrun
      · -- The consumption fails at a grant; what was taken before stays in memory.
        next e held hconsume =>
        cases hrun
        obtain ⟨hholds, hmore, -⟩ := h.consumeGrants hg hconsume
        refine ⟨hholds, hmore, ?_⟩
        intro matched hmatched
        cases hmatched
      · -- The consumption goes through: a grant for one operation is spent for this one.
        next held hconsume =>
        cases hrun
        obtain ⟨hholds, hmore, hspent⟩ := h.consumeGrants hg hconsume
        refine ⟨hholds, hmore, ?_⟩
        intro matched hmatched
        cases hmatched
        exact hspent rfl

/-- Grants that are added leave those that the task holds. -/
theorem Holds.add {taskId : String} {more : List CapabilityGrant} (h : Holds g grants)
    (hmore : ∀ grant ∈ more, grant.grantId = g.grantId → grant = g) :
    Holds g (addCapabilityGrants taskId grants more).1 ∧
      ∀ grant ∈ grants, grant ∈ (addCapabilityGrants taskId grants more).1 := by
  -- Along the new grants: one whose identifier is held is passed over.
  induction more generalizing grants with
  | nil => exact ⟨h, fun _ hmem => hmem⟩
  | cons grant more ih =>
    have hrest : ∀ x ∈ more, x.grantId = g.grantId → x = g :=
      fun x hx => hmore x (List.mem_cons_of_mem _ hx)
    unfold addCapabilityGrants
    split_ifs with hsubject hheld
    · exact ⟨h, fun _ hmem => hmem⟩
    · exact ih h hrest
    · have hnew : Holds g (grants ++ [grant]) := by
        constructor
        · rw [List.map_append, List.nodup_append]
          refine ⟨h.nodup, List.nodup_cons.mpr ⟨List.not_mem_nil, List.nodup_nil⟩, ?_⟩
          intro id hid id' hid' heq
          obtain ⟨x, hx, rfl⟩ := List.mem_map.mp hid
          rw [List.map_singleton, List.mem_singleton] at hid'
          apply hheld
          rw [List.any_eq_true]
          exact ⟨x, hx, decide_eq_true (heq.trans hid')⟩
        · intro x hx hxid
          rcases List.mem_append.mp hx with hx | hx
          · exact h.same x hx hxid
          · rw [List.mem_singleton] at hx
            exact .inl (by rw [hx] at hxid ⊢; exact hmore grant List.mem_cons_self hxid)
      obtain ⟨hholds, hkept⟩ := ih hnew hrest
      exact ⟨hholds, fun x hx => hkept x (List.mem_append_left _ hx)⟩

end Holds

/-! ## All runs -/

section Runs

variable {m : CapabilityManager} {g : CapabilityGrant}

/-- What holds of a grant for one use: it is spent for the operations that were executed on it, in the task
and in the snapshot. -/
structure GrantRun.Sound (g : CapabilityGrant) (run : GrantRun) : Prop where
  task : Holds g run.task
  stored : Holds g run.stored
  authorized : ∀ operationId, (g.grantId, operationId) ∈ run.authorized →
    g.spent operationId ∈ run.task ∧ g.spent operationId ∈ run.stored

/-- Every call keeps it, if the identifier of the grant is given to no other one. -/
theorem GrantRun.Sound.after (hg : g.Single) {run : GrantRun} (h : run.Sound g) (call : GrantCall)
    (hunique : ∀ grant ∈ (run.after m call).issued, grant.grantId = g.grantId → grant = g) :
    (run.after m call).Sound g := by
  -- One case per call.
  cases call with
  -- What is added has other identifiers.
  | add grants =>
    have hadd : Holds g (addCapabilityGrants run.taskId run.task grants).1 ∧
        ∀ grant ∈ run.task, grant ∈ (addCapabilityGrants run.taskId run.task grants).1 :=
      h.task.add fun grant hgrant => hunique grant (List.mem_append_right _ hgrant)
    obtain ⟨hholds, hkept⟩ := hadd
    refine ⟨hholds, h.stored, ?_⟩
    intro operationId hmem
    exact ⟨hkept _ (h.authorized operationId hmem).1, (h.authorized operationId hmem).2⟩
  -- The store gets what is in memory.
  | persist =>
    refine ⟨h.task, h.task, ?_⟩
    intro operationId hmem
    exact ⟨(h.authorized operationId hmem).1, (h.authorized operationId hmem).1⟩
  -- The memory gets what the store has.
  | restart =>
    refine ⟨h.stored, h.stored, ?_⟩
    intro operationId hmem
    exact ⟨(h.authorized operationId hmem).2, (h.authorized operationId hmem).2⟩
  -- The authorization is saved before the tool is called, or there is no call.
  | execute call validation required now saved =>
    cases hrun : m.authorizeTool run.task call validation required now with
    | mk result task =>
      obtain ⟨hholds, hmore, hspent⟩ := h.task.authorizeTool hg hrun
      unfold GrantRun.after
      dsimp only
      rw [hrun]
      have hkept : ∀ operationId, (g.grantId, operationId) ∈ run.authorized →
          g.spent operationId ∈ task ∧ g.spent operationId ∈ run.stored := by
        intro operationId hmem
        exact ⟨hmore _ (h.authorized operationId hmem).1, (h.authorized operationId hmem).2⟩
      cases result with
      | error e => exact ⟨hholds, h.stored, hkept⟩
      | ok matched =>
        cases saved with
        | false => exact ⟨hholds, h.stored, hkept⟩
        | true =>
          refine ⟨hholds, hholds, ?_⟩
          intro operationId hmem
          -- A spent grant stays spent, and is found so by every later authorization.
          have hin : g.spent operationId ∈ task := by
            rcases List.mem_append.mp hmem with hmem | hmem
            · exact (hkept operationId hmem).1
            · obtain ⟨grant, hgrant, heq⟩ := List.mem_map.mp hmem
              rw [Prod.mk.injEq] at heq
              rw [← heq.2]
              exact hspent matched rfl grant hgrant heq.1
          exact ⟨hin, hin⟩

/-- What was issued stays issued. -/
theorem issued_after (run : GrantRun) (call : GrantCall) :
    ∀ grant ∈ run.issued, grant ∈ (run.after m call).issued := by
  intro grant hgrant
  cases call with
  | add grants => exact List.mem_append_left _ hgrant
  | execute call validation required now saved =>
    unfold GrantRun.after
    dsimp only
    split
    · exact hgrant
    · split_ifs <;> exact hgrant
  | persist => exact hgrant
  | restart => exact hgrant

/-- The account of the grant is right in every run. -/
theorem grants_sound (hg : g.Single) {run : GrantRun} (hrun : (grantSystem m).Reachable run)
    (hunique : ∀ grant ∈ run.issued, grant.grantId = g.grantId → grant = g) : run.Sound g := by
  revert hunique
  refine hrun.invariant (P := fun run =>
    (∀ grant ∈ run.issued, grant.grantId = g.grantId → grant = g) → run.Sound g) ?_ ?_
  · intro run hinit hunique
    obtain ⟨hstored, hissued, hauthorized, hnodup⟩ := hinit
    have hholds : Holds g run.task := by
      refine ⟨hnodup, ?_⟩
      intro grant hgrant hid
      exact .inl (hunique grant (by rw [hissued]; exact hgrant) hid)
    refine ⟨hholds, by rw [hstored]; exact hholds, ?_⟩
    intro operationId hmem
    rw [hauthorized] at hmem
    cases hmem
  · intro run run' _ hsound hstep hunique
    obtain ⟨call, rfl⟩ := hstep
    exact (hsound fun grant hgrant => hunique grant (issued_after run call grant hgrant)).after hg call
      hunique

/-- A grant that a human gives for one use has not been used. -/
theorem single_of_grantByHuman {subjectTaskId approvalRequestId : String}
    {requests : List CapabilityRequest} {issuedAt n n' : ℕ} {issued : List CapabilityGrant}
    (h : (m.grantByHuman subjectTaskId approvalRequestId requests issuedAt).run n = .ok (issued, n'))
    (hmem : g ∈ issued) (hone : g.remainingUses = some 1) : g.Single := by
  unfold CapabilityManager.grantByHuman at h
  rw [run_bind_eq_ok] at h
  obtain ⟨normalized, n'', -, h⟩ := h
  obtain ⟨request, -, t, t', hgrant⟩ := exists_left_of_mem (mapM_run h) hmem
  rw [run_bind_eq_ok] at hgrant
  obtain ⟨id, t'', -, hgrant⟩ := hgrant
  rw [StateT.run_pure, pure_eq_ok, Prod.mk.injEq] at hgrant
  refine ⟨hone, ?_⟩
  rw [← hgrant.1]

/-- The grants that a check returns serve a request each. -/
theorem check_allowed {grants matched : List CapabilityGrant} {inputs : List CapabilityInput} {now : ℕ}
    {operationId : Option String}
    (h : m.check grants inputs now operationId = .ok (.allowed matched)) :
    ∀ grant ∈ matched, grant ∈ grants ∧ ∃ request, covers request now false operationId false grant := by
  unfold CapabilityManager.check at h
  obtain ⟨requests, -, h⟩ := bind_eq_ok.mp h
  rw [pure_eq_ok] at h
  split_ifs at h
  cases h
  intro grant hgrant
  obtain ⟨request, -, hfound⟩ := List.mem_filterMap.mp hgrant
  exact ⟨List.mem_of_find?_eq_some hfound, request, List.find?_some hfound⟩

/-- A request that no grant serves is missing. -/
theorem check_missing {grants : List CapabilityGrant} {inputs : List CapabilityInput} {now : ℕ}
    {operationId : Option String} {requests : List CapabilityRequest} {request : CapabilityRequest}
    (hrequests : m.normalizeRequests inputs = .ok requests) (hrequest : request ∈ requests)
    (h : ∀ grant ∈ grants, covers request now false operationId false grant = false) :
    ∃ missing, m.check grants inputs now operationId = .ok (.missing missing) ∧ request ∈ missing := by
  have hnone : findGrant grants request now false operationId = none := by
    unfold findGrant
    rw [List.find?_eq_none]
    intro grant hgrant
    rw [h grant hgrant]
    exact Bool.false_ne_true
  have hmissing : request ∈ requests.filter fun request =>
      (findGrant grants request now false operationId).isNone := by
    rw [List.mem_filter, hnone]
    exact ⟨hrequest, rfl⟩
  refine ⟨_, ?_, hmissing⟩
  unfold CapabilityManager.check
  rw [hrequests]
  exact congrArg Except.ok (if_neg (List.ne_nil_of_mem hmissing))

/-- What was executed stays so. -/
theorem authorized_later {run run' : GrantRun} (hlater : (grantSystem m).Later run run') :
    ∀ entry ∈ run.authorized, entry ∈ run'.authorized := by
  induction hlater with
  | refl => exact fun _ hentry => hentry
  | tail _ hstep ih =>
    obtain ⟨call, rfl⟩ := hstep
    intro entry hentry
    have hmem := ih entry hentry
    cases call with
    | execute call validation required now saved =>
      unfold GrantRun.after
      dsimp only
      split
      · exact hmem
      · split_ifs
        · exact List.mem_append_left _ hmem
        · exact hmem
    | _ => exact hmem

/-- A grant that a human gave for one use serves one operation. It stays consumed for an operation that was
executed on it. While it is consumed for an operation, no other one has been executed on it, a check accepts
it for that operation as if it were unused and for no other one, consuming it again for that operation
changes nothing, and another operation that needs it is refused. -/
theorem single_use {run run' : GrantRun} (hrun : (grantSystem m).Reachable run)
    (hlater : (grantSystem m).Later run run') {subjectTaskId approvalRequestId : String}
    {requests : List CapabilityRequest} {issuedAt n n' : ℕ} {issued : List CapabilityGrant}
    (hissue : (m.grantByHuman subjectTaskId approvalRequestId requests issuedAt).run n =
      .ok (issued, n'))
    (hmem : g ∈ issued) (hone : g.remainingUses = some 1)
    (hunique : ∀ grant ∈ run'.issued, grant.grantId = g.grantId → grant = g) :
    (∀ operationId, (g.grantId, operationId) ∈ run.authorized → g.spent operationId ∈ run'.task) ∧
      ∀ operationId, g.spent operationId ∈ run'.task →
        (∀ other, (g.grantId, other) ∈ run'.authorized → other = operationId) ∧
        (∀ request now, covers request now false (some operationId) false (g.spent operationId) =
          covers request now false (some operationId) false g) ∧
        (∀ inputs now (operationId? : Option String) matched,
          m.check run'.task inputs now operationId? = .ok (.allowed matched) →
          (∃ grant ∈ matched, grant.grantId = g.grantId) → operationId? = some operationId) ∧
        consumeCapabilityGrant g.grantId operationId run'.task = .ok run'.task ∧
        ∀ call validation required now normalized request, call.callId ≠ operationId →
          m.normalizeRequests (required.map .request) = .ok normalized → request ∈ normalized →
          (∀ grant ∈ run'.task, grant.grantId ≠ g.grantId →
            covers request now false (some call.callId) false grant = false) →
          ∃ e, m.authorizeTool run'.task call validation required now = (.error e, run'.task) := by
  have hg := single_of_grantByHuman hissue hmem hone
  have hsound := grants_sound hg (hrun.later hlater) hunique
  constructor
  · intro operationId hauthorized
    exact (hsound.authorized operationId (authorized_later hlater _ hauthorized)).1
  intro operationId hspent
  -- No other grant of the task has the identifier.
  have honly : ∀ grant ∈ run'.task, grant.grantId = g.grantId → grant = g.spent operationId := by
    intro grant hgrant hid
    exact List.inj_on_of_nodup_map hsound.task.nodup hgrant hspent hid
  refine ⟨?_, fun request now => covers_spent_self hg request now false false, ?_, ?_, ?_⟩
  · intro other hother
    have heq := honly _ (hsound.authorized other hother).1 rfl
    exact Option.some.inj (congrArg CapabilityGrant.consumedBy heq)
  · intro inputs now operationId? matched hcheck ⟨grant, hgrant, hid⟩
    obtain ⟨hin, request, hcovers⟩ := check_allowed hcheck grant hgrant
    by_contra hne
    rw [honly grant hin hid, covers_spent_other hne] at hcovers
    cases hcovers
  · exact (consume_of_mem hsound.task.nodup hspent).2 consume_spent_self
  · intro call validation required now normalized request hne hnormalized hrequest hothers
    have hnone : ∀ grant ∈ run'.task, covers request now false (some call.callId) false grant = false := by
      intro grant hgrant
      by_cases hid : grant.grantId = g.grantId
      · rw [honly grant hgrant hid]
        exact covers_spent_other fun heq => hne (Option.some.inj heq)
      · exact hothers grant hgrant hid
    obtain ⟨missing, hcheck, -⟩ := check_missing hnormalized hrequest hnone
    unfold CapabilityManager.authorizeTool
    cases validation with
    | error e => exact ⟨_, rfl⟩
    | ok _ =>
      dsimp only
      rw [hcheck]
      exact ⟨_, rfl⟩

end Runs

/-- A manager with the default policies, for resources that are no URLs. -/
def releaseManager : CapabilityManager where
  policies := defaultCapabilityPolicies
  valid := validatePolicy_default
  grantIdGenerator _ := "grant"
  requestIdGenerator _ := "request"
  urlParser := ⟨fun _ => none, fun u _ => u⟩

/-- A request to push. -/
def pushRequest : CapabilityRequest := ⟨"git.push", .all, none⟩

/-- One push, which a human approved. -/
def pushGrant : CapabilityGrant where
  grantId := "grant"
  subjectTaskId := "release-agent"
  capability := "git.push"
  scope := .all
  source := .human "approval-1"
  delegable := false
  execution := some .allowed
  issuedAt := 10
  remainingUses := some 1

/-- A task that has the grant. -/
def releaseRun : GrantRun where
  taskId := "release-agent"
  task := [pushGrant]
  stored := [pushGrant]
  issued := [pushGrant]

/-- A call that pushes. -/
def pushCall (callId : String) : GrantCall :=
  .execute ⟨callId, "git.push"⟩ (.ok ()) [pushRequest] 20 true

/-- The grant serves the first call and, after a restart, not the second. -/
theorem single_use_push : ("grant", "push-call-1") ∈
      (releaseRun.after releaseManager (pushCall "push-call-1")).authorized ∧
    ∀ other, ("grant", other) ∈ (((releaseRun.after releaseManager (pushCall "push-call-1")).after
      releaseManager .restart).after releaseManager (pushCall "push-call-2")).authorized →
      other = "push-call-1" := by
  have hinit : (grantSystem releaseManager).Reachable releaseRun :=
    .of_init ⟨rfl, rfl, rfl, by decide⟩
  have hissue : (releaseManager.grantByHuman "release-agent" "approval-1" [pushRequest] 10).run 0 =
      .ok ([pushGrant], 1) := by decide +kernel
  have hauthorized : ("grant", "push-call-1") ∈
      (releaseRun.after releaseManager (pushCall "push-call-1")).authorized := by decide +kernel
  have hissued : (((releaseRun.after releaseManager (pushCall "push-call-1")).after
      releaseManager .restart).after releaseManager (pushCall "push-call-2")).issued = [pushGrant] := by
    decide +kernel
  have hpushed := hinit.step ⟨pushCall "push-call-1", rfl⟩
  have hlater : (grantSystem releaseManager).Later
      (releaseRun.after releaseManager (pushCall "push-call-1"))
      (((releaseRun.after releaseManager (pushCall "push-call-1")).after releaseManager .restart).after
        releaseManager (pushCall "push-call-2")) :=
    (Relation.ReflTransGen.single ⟨.restart, rfl⟩).tail ⟨pushCall "push-call-2", rfl⟩
  have huse := single_use hpushed hlater hissue List.mem_cons_self rfl fun grant hgrant _ => by
    rw [hissued] at hgrant
    exact List.mem_singleton.mp hgrant
  exact ⟨hauthorized, (huse.2 "push-call-1" (huse.1 _ hauthorized)).1⟩

end OsAgent.Capability
