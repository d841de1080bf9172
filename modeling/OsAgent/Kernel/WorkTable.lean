import Mathlib.Data.List.Nodup
import OsAgent.Kernel.TaskControlBlock
import OsAgent.Library.Keyed
import OsAgent.Library.Transition

/-!
# The table of asynchronous work

At most one generation is open, and it is the last one. What a method may do to the table is one of
three things (`Outcome`): new work joins the last generation, work of the open generation is revised
before it has come to its end, or an update brings everything of the open generation that the task has
not seen. The results in the updates are therefore those of the delivered work, each of them once
(`WorkTable`).
-/

namespace OsAgent.Kernel

open OsAgent.Library OsAgent.Capability

/-! ## Work that is revised -/

/-- What may become of work before the task sees its result. -/
structure AsyncWorkRecord.Revised (work work' : AsyncWorkRecord) : Prop where
  registration : work'.toAsyncWorkRegistration = work.toAsyncWorkRegistration
  deliveredAt : work'.deliveredAt = work.deliveredAt
  /-- A result is not changed. -/
  result : work.terminal = true → work'.terminal = true ∧ work'.result = work.result ∧
    work'.completedAt = work.completedAt
  /-- Work that comes to its end does so at some time. -/
  completedAt : work'.terminal = true → work.terminal = true ∨ work'.completedAt.isSome = true

namespace AsyncWorkRecord

variable {work work' : AsyncWorkRecord}

/-- Work is its own revision. -/
theorem Revised.refl (work : AsyncWorkRecord) : work.Revised work where
  registration := rfl
  deliveredAt := rfl
  result := fun h => ⟨h, rfl, rfl⟩
  completedAt := fun h => Or.inl h

/-- The identity of work is that of its registration. -/
theorem Revised.workId (h : work.Revised work') : work'.workId = work.workId :=
  congrArg AsyncWorkRegistration.workId h.registration

/-- Work that has not come to its end may be finished. -/
theorem revised_finish (h : work.terminal = false) (status : AsyncWorkStatus) (now : Timestamp)
    (output : Option JsonValue) (termination : Option Termination) (error : Option String) :
    work.Revised (work.finish status now output termination error) where
  registration := rfl
  deliveredAt := rfl
  result := fun hterminal => absurd hterminal (by simp [h])
  completedAt := fun _ => Or.inr rfl

/-- It may be blocked, or go on. -/
theorem revised_status (h : work.terminal = false) {status : AsyncWorkStatus}
    (hstatus : isAsyncWorkTerminalStatus status = false)
    (blocker : Option AsyncWorkCapabilityBlocker) :
    work.Revised { work with status, blocker } where
  registration := rfl
  deliveredAt := rfl
  result := fun hterminal => absurd hterminal (by simp [h])
  completedAt := fun hterminal => absurd hterminal (by simp [terminal, hstatus])

/-- The task may be told of its blocker again. -/
theorem revised_requeueBlocker (work : AsyncWorkRecord) : work.Revised work.requeueBlocker := by
  unfold requeueBlocker
  split_ifs with h
  · exact revised_status (by simp [terminal, isAsyncWorkTerminalStatus, h])
      (by rw [h]; rfl) _
  · exact Revised.refl work

end AsyncWorkRecord

/-- What may become of a generation while it is open. -/
structure AsyncWorkGeneration.Revised (generation generation' : AsyncWorkGeneration) : Prop where
  isOpen : generation'.isOpen = generation.isOpen
  work : List.Forall₂ AsyncWorkRecord.Revised generation.work generation'.work

/-- One work of a generation is revised. -/
theorem AsyncWorkGeneration.revised_modifyWork {generation : AsyncWorkGeneration}
    {p : AsyncWorkRecord → Bool} {change : AsyncWorkRecord → AsyncWorkRecord}
    {work : AsyncWorkRecord} (hfind : generation.work.find? p = some work)
    (hchange : work.Revised (change work)) :
    generation.Revised (generation.modifyWork p change) where
  isOpen := rfl
  work := by
    obtain ⟨before, after, -, hsplit, -, hchanged⟩ := exists_modifyFirst (f := change) hfind
    show List.Forall₂ AsyncWorkRecord.Revised _ (modifyFirst p change generation.work)
    rw [hchanged, hsplit]
    have hrefl : ∀ l : List AsyncWorkRecord, List.Forall₂ AsyncWorkRecord.Revised l l :=
      fun l => List.forall₂_same.mpr fun w _ => AsyncWorkRecord.Revised.refl w
    exact List.rel_append (hrefl before) (List.Forall₂.cons hchange (hrefl after))

/-! ## What a method does to the table -/

/-- Only the last generation may be open. -/
def LastOpen (generations : List AsyncWorkGeneration) : Prop :=
  ∀ generation ∈ generations.dropLast, generation.isOpen = false

/-- An open generation that a search finds is the last one, and the change is made there. -/
theorem LastOpen.exists_concat {generations : List AsyncWorkGeneration} (h : LastOpen generations)
    {p : AsyncWorkGeneration → Bool} {generation : AsyncWorkGeneration}
    (hfind : findLast? p generations = some generation) (hopen : generation.isOpen = true)
    (change : AsyncWorkGeneration → AsyncWorkGeneration) :
    ∃ before, generations = before ++ [generation] ∧
      modifyLast p change generations = before ++ [change generation] := by
  obtain ⟨before, after, -, rfl, -, hchanged⟩ := exists_modifyLast (f := change) hfind
  have hlast : after = [] := by
    by_contra hne
    have hmem : generation ∈ (before ++ generation :: after).dropLast := by
      rw [List.dropLast_append_of_ne_nil (List.cons_ne_nil _ _), List.dropLast_cons_of_ne_nil hne]
      exact List.mem_append_right _ List.mem_cons_self
    rw [h generation hmem] at hopen
    cases hopen
  subst hlast
  exact ⟨before, rfl, hchanged⟩

/-- What a call may do to the table of a task, and which update it returns. -/
inductive Outcome (s : TaskControlBlock) : TaskControlBlock → Option AsyncWorkUpdate → Prop
  | same : Outcome s s none
  /-- Work joins the last generation, which is open or new. -/
  | registered (before : List AsyncWorkGeneration) (generation : AsyncWorkGeneration)
      (work : List AsyncWorkRecord)
      (hbefore : ∀ g ∈ before, g.isOpen = false) (hopen : generation.isOpen = true)
      (hgenerations : s.asyncWorkGenerations = before ++ [generation] ∨
        s.asyncWorkGenerations = before ∧ generation.work = [])
      (hwork : work ≠ []) (hnodup : (work.map fun w => w.workId).Nodup)
      (hfresh : ∀ w ∈ work, w.workId ∉ s.works.map fun w => w.workId)
      (hrunning : ∀ w ∈ work, w.terminal = false ∧ w.deliveredAt = none) :
      Outcome s
        { s with asyncWorkGenerations := before ++
            [{ generation with work := generation.work ++ work }] } none
  /-- Work of the open generation is revised. -/
  | revised {before : List AsyncWorkGeneration} {generation generation' : AsyncWorkGeneration}
      (hgenerations : s.asyncWorkGenerations = before ++ [generation])
      (hopen : generation.isOpen = true) (hrevised : generation.Revised generation') :
      Outcome s { s with asyncWorkGenerations := before ++ [generation'] } none
  /-- An update brings what the task has not seen of the open generation. -/
  | claimed {before : List AsyncWorkGeneration} {generation : AsyncWorkGeneration} (now : Timestamp)
      (hactive : s.activeAsyncWorkGeneration = some generation)
      (hgenerations : s.asyncWorkGenerations = before ++ [generation])
      (hopen : generation.isOpen = true) :
      Outcome s
        { s with
          asyncWorkGenerations := before ++ [generation.claimed now]
          context := s.context ++ [ContextItem.asyncWorkUpdate (generation.update now)] }
        (some (generation.update now))

/-- What holds however a method ends: its outcome, and nothing has changed if it threw. -/
abbrev HasOutcome (x : TaskM (Option AsyncWorkUpdate)) (s : TaskControlBlock) : Prop :=
  wp x (fun update s' => Outcome s s' update) (fun _ s' => s' = s) s

variable {s : TaskControlBlock}

/-- A method that returns nothing has no update. -/
theorem hasOutcome_of {x : TaskM Unit} (h : wp x (fun _ s' => Outcome s s' none)
    (fun _ s' => s' = s) s) : HasOutcome (do x; pure none) s := by
  unfold HasOutcome
  rw [wp_bind]
  exact wp_mono h (fun _ s' hs' => hs') fun _ _ he => he

/-- An open generation is the last one of the table, and no other is open. -/
theorem closed_of_concat {before : List AsyncWorkGeneration} {generation : AsyncWorkGeneration}
    (h : LastOpen (before ++ [generation])) : ∀ g ∈ before, g.isOpen = false := by
  intro g hg
  exact h g (by rwa [List.dropLast_concat])

/-- To register work delivers nothing. -/
theorem outcome_registerAsyncWork (h : LastOpen s.asyncWorkGenerations)
    (registrations : List AsyncWorkRegistration) (generationId : String) (now : Timestamp) :
    wp (registerAsyncWork registrations generationId now) (fun _ s' => Outcome s s' none)
      (fun _ s' => s' = s) s := by
  unfold registerAsyncWork
  simp only [wp_bind, wp_get, wp_ite, wp_throw]
  split_ifs with hnone hnodup
  split
  · trivial
  · next hfind =>
    rw [wp_set]
    -- The new work has identifiers that no generation has.
    have hfresh : ∀ w ∈ registrations.map fun registration => registration.start now,
        w.workId ∉ s.works.map fun w => w.workId := by
      intro w hw
      obtain ⟨registration, hregistration, rfl⟩ := List.mem_map.mp hw
      have hnot := List.find?_eq_none.mp hfind registration.workId
        (List.mem_map_of_mem hregistration)
      rw [decide_eq_true_eq] at hnot
      exact hnot
    have hids : ((registrations.map fun registration => registration.start now).map
        fun w => w.workId) = registrations.map AsyncWorkRegistration.workId := by
      rw [List.map_map]
      rfl
    have hrunning : ∀ w ∈ registrations.map fun registration => registration.start now,
        w.terminal = false ∧ w.deliveredAt = none := by
      intro w hw
      obtain ⟨registration, -, rfl⟩ := List.mem_map.mp hw
      exact ⟨rfl, rfl⟩
    have hwork : (registrations.map fun registration => registration.start now) ≠ [] := by
      simpa using hnone
    unfold TaskControlBlock.withOpenGeneration
    -- It is put into the open generation, or a new one is opened for it.
    cases hactive : s.activeAsyncWorkGeneration with
    | some generation =>
      have hopen := (mem_of_findLast? hactive).2
      obtain ⟨before, hsplit, hchanged⟩ := h.exists_concat hactive hopen fun generation =>
        { generation with
          work := generation.work ++ registrations.map fun registration => registration.start now }
      rw [hsplit] at h
      have hs' := Outcome.registered (s := s) before generation _ (closed_of_concat h) hopen
        (Or.inl hsplit) hwork (hids ▸ hnodup) hfresh hrunning
      show Outcome s (s.modifyGeneration _ _) none
      unfold TaskControlBlock.modifyGeneration
      rw [hchanged]
      exact hs'
    | none =>
      have hclosed := findLast?_eq_none.mp hactive
      have hs' := Outcome.registered (s := s) s.asyncWorkGenerations
        { generationId, createdAt := now, work := [] } _ hclosed rfl (Or.inr ⟨rfl, rfl⟩) hwork
        (hids ▸ hnodup) hfresh hrunning
      show Outcome s (TaskControlBlock.modifyGeneration _ _ _) none
      unfold TaskControlBlock.modifyGeneration
      dsimp only
      rw [modifyLast_concat rfl]
      exact hs'

/-- The first work that a search finds in the open generation is revised. -/
theorem outcome_modifyWork (h : LastOpen s.asyncWorkGenerations) {p : AsyncWorkGeneration → Bool}
    {generation : AsyncWorkGeneration}
    (hfind : findLast? p s.asyncWorkGenerations = some generation)
    (hopen : generation.isOpen = true) {q : AsyncWorkRecord → Bool} {work : AsyncWorkRecord}
    (hwork : generation.work.find? q = some work) {change : AsyncWorkRecord → AsyncWorkRecord}
    (hchange : work.Revised (change work)) :
    Outcome s (s.modifyGeneration p (AsyncWorkGeneration.modifyWork q change)) none := by
  obtain ⟨before, hsplit, hchanged⟩ := h.exists_concat hfind hopen
    (AsyncWorkGeneration.modifyWork q change)
  unfold TaskControlBlock.modifyGeneration
  rw [hchanged]
  exact Outcome.revised hsplit hopen (AsyncWorkGeneration.revised_modifyWork hwork hchange)

/-- To complete work revises it and delivers nothing. -/
theorem outcome_completeAsyncWork (h : LastOpen s.asyncWorkGenerations) (workId : String)
    (status : AsyncWorkStatus) (now : Timestamp) (output : Option JsonValue)
    (termination : Option Termination) (error : Option String) :
    wp (completeAsyncWork workId status now output termination error)
      (fun _ s' => Outcome s s' none) (fun _ s' => s' = s) s := by
  unfold completeAsyncWork
  rw [wp_bind, wp_get]
  split
  · rfl
  · next generation hfind =>
    have hopen : generation.isOpen = true := by
      have hholds := (mem_of_findLast? hfind).2
      unfold AsyncWorkGeneration.holds at hholds
      exact (Bool.and_eq_true_iff.mp hholds).1
    split
    · rfl
    · next work hwork =>
      rw [wp_ite]
      split_ifs with hterminal
      · rfl
      · rw [Bool.not_eq_true] at hterminal
        exact outcome_modifyWork h hfind hopen hwork
          (AsyncWorkRecord.revised_finish hterminal status now output termination error)

/-- To change the work of a child revises it and delivers nothing. -/
theorem outcome_modifySubagentWork (h : LastOpen s.asyncWorkGenerations) (childTaskId : String)
    {allowed : AsyncWorkRecord → Except String Unit} (missing : String)
    {change : AsyncWorkRecord → AsyncWorkRecord}
    (hchange : ∀ work, allowed work = .ok () → work.Revised (change work)) :
    wp (modifySubagentWork childTaskId allowed missing change)
      (fun _ s' => Outcome s s' none) (fun _ s' => s' = s) s := by
  unfold modifySubagentWork
  rw [wp_bind, wp_get]
  split
  · rfl
  · next generation hfind =>
    have hopen : generation.isOpen = true := by
      have hholds := (mem_of_findLast? hfind).2
      unfold AsyncWorkGeneration.holdsChild at hholds
      exact (Bool.and_eq_true_iff.mp hholds).1
    split
    · rfl
    · next work hwork =>
      rw [wp_bind, wp_lift]
      refine ⟨?_, fun _ _ => rfl⟩
      intro _ hallowed
      exact outcome_modifyWork h hfind hopen hwork (hchange work hallowed)

/-- To requeue the blockers revises work and delivers nothing. -/
theorem outcome_requeue (h : LastOpen s.asyncWorkGenerations) :
    wp requeueActiveCapabilityBlockers (fun _ s' => Outcome s s' none) (fun _ s' => s' = s) s := by
  unfold requeueActiveCapabilityBlockers
  rw [wp_bind, wp_get]
  split
  · exact Outcome.same
  · next generation hactive =>
    have hopen := (mem_of_findLast? hactive).2
    obtain ⟨before, hsplit, hchanged⟩ := h.exists_concat hactive hopen fun generation =>
      { generation with work := generation.work.map AsyncWorkRecord.requeueBlocker }
    have hrevised : generation.Revised
        { generation with work := generation.work.map AsyncWorkRecord.requeueBlocker } := by
      refine ⟨rfl, ?_⟩
      rw [List.forall₂_map_right_iff]
      exact List.forall₂_same.mpr fun work _ => AsyncWorkRecord.revised_requeueBlocker work
    rw [wp_bind, wp_set, wp_pure]
    unfold TaskControlBlock.modifyGeneration
    rw [hchanged]
    exact Outcome.revised hsplit hopen hrevised

/-- A claim delivers what is new of a generation, or changes nothing. -/
theorem outcome_claimAsyncWorkUpdate (h : LastOpen s.asyncWorkGenerations) (now : Timestamp) :
    HasOutcome (claimAsyncWorkUpdate now) s := by
  unfold HasOutcome claimAsyncWorkUpdate
  rw [wp_bind, wp_get]
  split
  · exact Outcome.same
  · next generation hactive =>
    have hopen := (mem_of_findLast? hactive).2
    rw [wp_ite]
    split_ifs with hnothing
    · exact Outcome.same
    · obtain ⟨before, hsplit, hchanged⟩ := h.exists_concat hactive hopen
        fun generation => generation.claimed now
      dsimp only
      rw [wp_bind, wp_set, wp_pure]
      unfold TaskControlBlock.claim
      rw [hchanged]
      exact Outcome.claimed now hactive hsplit hopen

/-- The methods on the table of asynchronous work. -/
inductive WorkCall where
  | registerAsyncWork (registrations : List AsyncWorkRegistration) (generationId : String)
      (now : Timestamp)
  | completeToolWork (workId : String) (output : JsonValue) (now : Timestamp)
  | failToolWork (workId error : String) (now : Timestamp)
  | completeSubagentWork (workId : String) (termination : Termination) (now : Timestamp)
  | markSubagentWaitingForCapability (childTaskId requestRef : String)
      (requests : List CapabilityRequest) (now : Timestamp)
  | clearSubagentCapabilityBlocker (childTaskId requestRef : String)
  | requeueActiveCapabilityBlockers
  | claimAsyncWorkUpdate (now : Timestamp)

/-- A call, with the update that it returns. -/
def WorkCall.perform : WorkCall → TaskM (Option AsyncWorkUpdate)
  | .registerAsyncWork registrations generationId now => do
    Kernel.registerAsyncWork registrations generationId now
    pure none
  | .completeToolWork workId output now => do
    Kernel.completeToolWork workId output now
    pure none
  | .failToolWork workId error now => do
    Kernel.failToolWork workId error now
    pure none
  | .completeSubagentWork workId termination now => do
    Kernel.completeSubagentWork workId termination now
    pure none
  | .markSubagentWaitingForCapability childTaskId requestRef requests now => do
    Kernel.markSubagentWaitingForCapability childTaskId requestRef requests now
    pure none
  | .clearSubagentCapabilityBlocker childTaskId requestRef => do
    Kernel.clearSubagentCapabilityBlocker childTaskId requestRef
    pure none
  | .requeueActiveCapabilityBlockers => do
    let _ ← Kernel.requeueActiveCapabilityBlockers
    pure none
  | .claimAsyncWorkUpdate now => Kernel.claimAsyncWorkUpdate now

/-- Every call has one of the outcomes. -/
theorem outcome_perform (h : LastOpen s.asyncWorkGenerations) (call : WorkCall) :
    HasOutcome call.perform s := by
  -- The calls that end work, that change it in place, and that claim an update.
  cases call with
  | registerAsyncWork registrations generationId now =>
    exact hasOutcome_of (outcome_registerAsyncWork h registrations generationId now)
  | completeToolWork workId output now =>
    exact hasOutcome_of (outcome_completeAsyncWork h workId _ now _ _ _)
  | failToolWork workId error now =>
    exact hasOutcome_of (outcome_completeAsyncWork h workId _ now _ _ _)
  | completeSubagentWork workId termination now =>
    exact hasOutcome_of (outcome_completeAsyncWork h workId _ now _ _ _)
  | markSubagentWaitingForCapability childTaskId requestRef requests now =>
    apply hasOutcome_of (outcome_modifySubagentWork h childTaskId _ _)
    intro work hallowed
    rw [check_bind_eq_ok, require_eq_ok] at hallowed
    exact AsyncWorkRecord.revised_status hallowed.1 rfl _
  | clearSubagentCapabilityBlocker childTaskId requestRef =>
    apply hasOutcome_of (outcome_modifySubagentWork h childTaskId _ _)
    intro work hallowed
    rw [require_eq_ok] at hallowed
    refine AsyncWorkRecord.revised_status ?_ rfl _
    unfold AsyncWorkRecord.terminal
    rw [hallowed.1]
    rfl
  | requeueActiveCapabilityBlockers =>
    show HasOutcome (do let _ ← Kernel.requeueActiveCapabilityBlockers; pure none) s
    unfold HasOutcome
    rw [wp_bind]
    exact wp_mono (outcome_requeue h) (fun _ s' hs' => hs') fun _ _ he => he
  | claimAsyncWorkUpdate now => exact outcome_claimAsyncWorkUpdate h now

end OsAgent.Kernel
