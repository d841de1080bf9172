import OsAgent.AgentRuntime.TrackedRequester
import Mathlib.Algebra.BigOperators.Group.List.Basic
import Mathlib.Algebra.Order.Group.Int
import Mathlib.Data.List.Count

/-!
# What an agent spends

A run of the accounts is any sequence of requests, answers, failures, renewals, archivings and restarts, each of
which may be cut off at any write. What is written down comes before what is sent, so a process that ends in
between never makes room for more: `spending_of_reachable` bounds the requests in each grant of rounds and the
tokens of all requests, and says that a request that was answered is not sent again, nor another one in its
place.
-/

namespace OsAgent.AgentRuntime

open OsAgent.Library OsAgent.Context

/-! ## The log of the requests -/

namespace RequestEvent

/-- Whether a request was sent in a grant of rounds. -/
def sentIn (grant : ℕ) : RequestEvent → Bool
  | .sent _ _ n _ _ => n = grant
  | .answered .. => false

/-- Whether a request was sent. -/
def isSent : RequestEvent → Bool
  | .sent .. => true
  | .answered .. => false

/-- The tokens that a request is known to take, with the correction by its answer. -/
def taken : RequestEvent → ℤ
  | .sent _ _ _ _ tokens => tokens
  | .answered _ _ tokens actual => actual - tokens

/-- By how much an answer took more than was reserved. -/
def excess : RequestEvent → ℤ
  | .sent .. => 0
  | .answered _ _ tokens actual => max 0 (actual - tokens)

/-- What may come later in the log: as long as a key is not archived, the same request again, and nothing after
its answer. -/
def Before : RequestEvent → RequestEvent → Prop
  | .sent key generation _ request _, .sent key' generation' _ request' _ =>
    key = key' → generation = generation' → request = request'
  | .sent .., .answered .. => True
  | .answered key generation _ _, .sent key' generation' _ _ _ => ¬(key = key' ∧ generation = generation')
  | .answered key generation _ _, .answered key' generation' _ _ => ¬(key = key' ∧ generation = generation')

end RequestEvent

/-- What the requests took. -/
def spent (events : List RequestEvent) : ℤ := (events.map RequestEvent.taken).sum

/-- By how much answers took more than was reserved. -/
def overshoot (events : List RequestEvent) : ℤ := (events.map RequestEvent.excess).sum

section Runs

variable {Cost : Type}

section System

variable [Add Cost] [Sub Cost] [LT Cost] [DecidableLT Cost] (numbers : List Char → Option String) (digest : String → String)

/-- One step of an agent's accounts. The limits of tokens are changed and keys are archived between rounds. -/
inductive Accounts.Step (g : Accounts Cost) : Accounts Cost → Prop
  | dispatch (env : RequestSurroundings) (input : ModelCompletionRequest) (idle : g.flight = none) :
    Step g (finalState (dispatchRequest env numbers digest input g))
  | complete (env : RequestSurroundings) (result : UsedCompletion) {flight : Flight Cost}
    (sent : g.flight = some flight) : Step g (finalState (completeRequest env flight result g))
  | fail (sent : g.flight.isSome = true) : Step g (endFlight g)
  | finish (idle : g.flight = none) : Step g (finishWorkBudget g)
  | renew (idle : g.flight = none) : Step g (renewWorkBudget g)
  | repair (key : String) (idle : g.flight = none) : Step g (g.archive key)
  | configure (limits : RequesterLimits Cost) (admission : AdmissionLimits)
    (rounds : limits.maxRounds = g.limits.maxRounds) (idle : g.flight = none) :
    Step g { g with
      limits
      ceiling := max g.ceiling limits.maxTotalTokens
      admission := { g.admission with limits := admission } }
  /-- Other agents are admitted. -/
  | others (admission : RequestAdmission) : Step g { g with admission }
  | restart : Step g { g with flight := none, admission := g.admission.restart }

/-- The accounts of a new agent. -/
def Accounts.initial (limits : RequesterLimits Cost) (admission : RequestAdmission) (cost : Cost) :
    Accounts Cost where
  limits
  store := .empty
  version _ := none
  work := none
  agent := { rounds := 0, totalTokens := 0, costUsd := cost }
  admission
  flight := none
  grants := 0
  archived _ := 0
  events := []
  ceiling := limits.maxTotalTokens

/-- The accounts of an agent under a limit of rounds. -/
def accountSystem (maxRounds : ℕ) : TransitionSystem (Accounts Cost) where
  init g := ∃ limits admission cost, limits.maxRounds = maxRounds ∧ g = .initial limits admission cost
  step := Accounts.Step numbers digest

end System

/-! ## The invariant -/

/-- What the store has of a request that was sent, until its key is archived. -/
def RequestEvent.Stored (g : Accounts Cost) : RequestEvent → Prop
  | .sent key generation _ request _ => generation ≤ g.archived key ∧ (generation = g.archived key →
      g.store.request key = some request ∧ 4 ≤ (g.version key).getD 1 ∧ request.maxOutputTokens.isSome = true)
  | .answered key generation _ _ => generation ≤ g.archived key ∧
      (generation = g.archived key → (g.store.completion key).isSome = true)

/-- What holds of the accounts while a request is prepared for which so many rounds, tokens and requests were
written down already. -/
structure Accounted (maxRounds rounds requests tokens : ℕ) (g : Accounts Cost) : Prop where
  limit : g.limits.maxRounds = maxRounds
  grants : ∀ n, g.grants < n → g.events.countP (RequestEvent.sentIn n) = 0
  bounded : ∀ n, g.events.countP (RequestEvent.sentIn n) ≤ maxRounds
  current : g.events.countP (RequestEvent.sentIn g.grants) + rounds ≤ (g.work.map WorkBudget.used).getD 0
  used : ∀ budget, g.work = some budget → budget.used ≤ maxRounds
  counted : g.events.countP RequestEvent.isSent + requests ≤ g.agent.rounds
  stored : ∀ e ∈ g.events, e.Stored g
  ordered : g.events.Pairwise RequestEvent.Before
  ceiling : g.limits.maxTotalTokens ≤ g.ceiling
  spent : spent g.events + tokens ≤ g.agent.totalTokens + overshoot g.events
  total : g.agent.totalTokens ≤ g.ceiling + overshoot g.events

variable {maxRounds rounds requests tokens : ℕ} {g g' : Accounts Cost}

/-- No excess is negative. -/
theorem excess_nonneg (e : RequestEvent) : 0 ≤ e.excess := by
  cases e with
  | sent => exact le_refl _
  | answered => exact le_max_left _ _

/-- What was spent grows by what an event takes. -/
theorem spent_concat (events : List RequestEvent) (e : RequestEvent) :
    spent (events ++ [e]) = spent events + e.taken := by
  unfold spent
  rw [List.map_append, List.sum_append, List.map_singleton, List.sum_singleton]

/-- The overshoot grows by the excess of an event. -/
theorem overshoot_concat (events : List RequestEvent) (e : RequestEvent) :
    overshoot (events ++ [e]) = overshoot events + e.excess := by
  unfold overshoot
  rw [List.map_append, List.sum_append, List.map_singleton, List.sum_singleton]

/-- At the start nothing was sent. -/
theorem accounted_initial (limits : RequesterLimits Cost) (admission : RequestAdmission) (cost : Cost) :
    Accounted limits.maxRounds 0 0 0 (Accounts.initial limits admission cost) where
  limit := rfl
  grants _ _ := rfl
  bounded _ := Nat.zero_le _
  current := Nat.le_refl _
  used _ h := by cases h
  counted := Nat.le_refl _
  stored _ h := by cases h
  ordered := .nil
  ceiling := le_refl _
  spent := le_refl _
  total := Int.natCast_nonneg _

/-! ## What the steps write -/

namespace Accounted

/-- A change of what the invariant does not read. -/
theorem congr (h : Accounted maxRounds rounds requests tokens g) (hlimits : g'.limits = g.limits)
    (hrequest : g'.store.request = g.store.request) (hcompletion : g'.store.completion = g.store.completion)
    (hversion : g'.version = g.version) (hwork : g'.work = g.work) (hagent : g'.agent = g.agent)
    (hgrants : g'.grants = g.grants) (harchived : g'.archived = g.archived) (hevents : g'.events = g.events)
    (hceiling : g'.ceiling = g.ceiling) :
    Accounted maxRounds rounds requests tokens g' where
  limit := by rw [hlimits]; exact h.limit
  grants := by rw [hgrants, hevents]; exact h.grants
  bounded := by rw [hevents]; exact h.bounded
  current := by rw [hevents, hgrants, hwork]; exact h.current
  used := by rw [hwork]; exact h.used
  counted := by rw [hevents, hagent]; exact h.counted
  stored e he := by
    have hstored := h.stored e (hevents ▸ he)
    cases e with
    | sent key generation grant request tokens =>
      unfold RequestEvent.Stored at hstored ⊢
      rw [harchived, hrequest, hversion]
      exact hstored
    | answered key generation tokens actual =>
      unfold RequestEvent.Stored at hstored ⊢
      rw [harchived, hcompletion]
      exact hstored
  ordered := by rw [hevents]; exact h.ordered
  ceiling := by rw [hlimits, hceiling]; exact h.ceiling
  spent := by rw [hevents, hagent]; exact h.spent
  total := by rw [hagent, hceiling, hevents]; exact h.total

/-- What was written down for a request that does not come stays written down. -/
theorem abandon (h : Accounted maxRounds rounds requests tokens g) : Accounted maxRounds 0 0 0 g :=
  { h with
    current := by
      have hcurrent := h.current
      omega
    counted := by
      have hcounted := h.counted
      omega
    spent := by
      have hspent := h.spent
      have htokens : (0 : ℤ) ≤ tokens := Int.natCast_nonneg _
      push_cast
      omega }

/-- Rounds are granted. -/
theorem grant (h : Accounted maxRounds 0 requests tokens g) (budget : WorkBudget) (hused : budget.used = 0) :
    Accounted maxRounds 0 requests tokens { g with work := some budget, grants := g.grants + 1 } :=
  { h with
    grants := fun n hn => h.grants n (Nat.lt_of_succ_lt hn)
    current := by
      show g.events.countP (RequestEvent.sentIn (g.grants + 1)) + 0 ≤ budget.used
      rw [h.grants _ (Nat.lt_succ_self _)]
      exact Nat.zero_le _
    used := by
      intro b hb
      obtain rfl := Option.some.inj hb
      rw [hused]
      exact Nat.zero_le _ }

/-- The budget is opened or closed. -/
theorem mark (h : Accounted maxRounds rounds requests tokens g) {budget budget' : WorkBudget}
    (hwork : g.work = some budget) (hused : budget'.used = budget.used) :
    Accounted maxRounds rounds requests tokens { g with work := some budget' } :=
  { h with
    current := by
      have hcurrent := h.current
      rw [hwork] at hcurrent
      show _ ≤ budget'.used
      rw [hused]
      exact hcurrent
    used := by
      intro b hb
      obtain rfl := Option.some.inj hb
      rw [hused]
      exact h.used budget hwork }

/-- A round is taken from the budget. -/
theorem consume (h : Accounted maxRounds 0 requests tokens g) {budget : WorkBudget}
    (hwork : g.work = some budget) (hroom : budget.used < maxRounds) :
    Accounted maxRounds 1 requests tokens { g with work := some { budget with used := budget.used + 1 } } :=
  { h with
    current := by
      have hcurrent := h.current
      rw [hwork] at hcurrent
      exact Nat.succ_le_succ hcurrent
    used := by
      intro b hb
      obtain rfl := Option.some.inj hb
      exact hroom }

/-- A key is archived. -/
theorem archive (h : Accounted maxRounds rounds requests tokens g) (key : String) :
    Accounted maxRounds rounds requests tokens (g.archive key) :=
  { h with
    stored := by
      intro e he
      have hstored := h.stored e he
      cases e with
      | sent k generation grant request tokens =>
        unfold RequestEvent.Stored Accounts.archive HistoryStore.repairRequest at *
        by_cases hk : k = key
        · -- What was sent under the key belongs to an earlier generation now.
          subst hk
          simp only [if_true] at *
          exact ⟨by omega, fun hgeneration => by omega⟩
        · simp only [if_neg hk] at *
          exact hstored
      | answered k generation tokens actual =>
        unfold RequestEvent.Stored Accounts.archive HistoryStore.repairRequest at *
        by_cases hk : k = key
        · subst hk
          simp only [if_true] at *
          exact ⟨by omega, fun hgeneration => by omega⟩
        · simp only [if_neg hk] at *
          exact hstored }

/-- A request is stored, unless one is there already. -/
theorem putRequest (h : Accounted maxRounds rounds requests tokens g) (key : String)
    (request : ModelCompletionRequest) :
    Accounted maxRounds rounds requests tokens { g with store := g.store.putRequest key request } :=
  { h with
    stored := by
      intro e he
      have hstored := h.stored e he
      cases e with
      | sent k generation grant sent tokens =>
        unfold RequestEvent.Stored HistoryStore.putRequest at *
        refine ⟨hstored.1, fun hgeneration => ?_⟩
        obtain ⟨hrequest, hversion, houtput⟩ := hstored.2 hgeneration
        refine ⟨?_, hversion, houtput⟩
        show (if k = key then _ else _) = some sent
        split_ifs with hk
        · rw [← hk, hrequest, Option.getD_some]
        · exact hrequest
      | answered k generation tokens actual => exact hstored }

/-- The version of the layout is written down. -/
theorem putVersion (h : Accounted maxRounds rounds requests tokens g) (key : String) :
    Accounted maxRounds rounds requests tokens
      { g with version := fun name => if name = key then some 4 else g.version name } :=
  { h with
    stored := by
      intro e he
      have hstored := h.stored e he
      cases e with
      | sent k generation grant sent tokens =>
        unfold RequestEvent.Stored at *
        refine ⟨hstored.1, fun hgeneration => ?_⟩
        obtain ⟨hrequest, hversion, houtput⟩ := hstored.2 hgeneration
        refine ⟨hrequest, ?_, houtput⟩
        show 4 ≤ Option.getD (if k = key then some 4 else g.version k) 1
        split_ifs
        · exact Nat.le_refl _
        · exact hversion
      | answered k generation tokens actual => exact hstored }

/-- What a request may take is written down. -/
theorem charge (h : Accounted maxRounds rounds 0 0 g) {reserved : ℕ} (cost : Cost)
    (hroom : g.agent.totalTokens + reserved ≤ g.limits.maxTotalTokens) :
    Accounted maxRounds rounds 1 reserved
      { g with agent :=
        { rounds := g.agent.rounds + 1, totalTokens := g.agent.totalTokens + reserved, costUsd := cost } } :=
  { h with
    counted := Nat.succ_le_succ h.counted
    spent := by
      have hspent := h.spent
      show AgentRuntime.spent g.events + reserved ≤ g.agent.totalTokens + reserved + overshoot g.events
      push_cast at hspent
      omega
    total := by
      have hceiling : (g.limits.maxTotalTokens : ℤ) ≤ g.ceiling := Int.ofNat_le.mpr h.ceiling
      have hnonneg : 0 ≤ overshoot g.events := List.sum_nonneg (by
        intro x hx
        obtain ⟨e, -, rfl⟩ := List.mem_map.mp hx
        exact excess_nonneg e)
      show g.agent.totalTokens + reserved ≤ g.ceiling + overshoot g.events
      omega }

/-- A request is sent for which everything was written down. -/
theorem send (h : Accounted maxRounds 1 1 tokens g) {key : String} {request : ModelCompletionRequest}
    (hrequest : g.store.request key = some request) (hversion : 4 ≤ (g.version key).getD 1)
    (houtput : request.maxOutputTokens.isSome = true) (hopen : g.store.completion key = none)
    (flight : Option (Flight Cost)) :
    Accounted maxRounds 0 0 0
      { g with
        events := g.events ++ [.sent key (g.archived key) g.grants request tokens]
        flight } where
  limit := h.limit
  grants n hn := by
    have hne : g.grants ≠ n := Nat.ne_of_lt hn
    rw [List.countP_append, h.grants n hn]
    simp [RequestEvent.sentIn, hne]
  bounded n := by
    have hbounded := h.bounded n
    have hcurrent := h.current
    rw [List.countP_append]
    -- The grant under which it is sent is the current one, or an earlier one.
    by_cases hn : g.grants = n
    · -- In this grant the budget has counted the request.
      have hused : (g.work.map WorkBudget.used).getD 0 ≤ maxRounds := by
        cases hwork : g.work with
        | none => exact Nat.zero_le _
        | some budget => exact h.used budget hwork
      subst hn
      simp only [RequestEvent.sentIn, List.countP_singleton, decide_true, if_true]
      omega
    · simp only [RequestEvent.sentIn, List.countP_singleton, hn, decide_false, Bool.false_eq_true, if_false]
      exact hbounded
  current := by
    have hcurrent := h.current
    rw [List.countP_append]
    simp only [RequestEvent.sentIn, List.countP_singleton, decide_true, if_true]
    exact hcurrent
  used := h.used
  counted := by
    have hcounted := h.counted
    rw [List.countP_append]
    exact hcounted
  stored e he := by
    rcases List.mem_append.mp he with hold | hnew
    · have hstored := h.stored e hold
      cases e with
      | sent => exact hstored
      | answered => exact hstored
    · obtain rfl := List.mem_singleton.mp hnew
      exact ⟨Nat.le_refl _, fun _ => ⟨hrequest, hversion, houtput⟩⟩
  ordered := by
    rw [List.pairwise_append]
    -- What was sent before has another key, or was answered before it was sent again.
    refine ⟨h.ordered, List.pairwise_singleton _ _, fun e he e' he' => ?_⟩
    obtain rfl := List.mem_singleton.mp he'
    have hstored := h.stored e he
    cases e with
    | sent k generation grant sent tokens =>
      rintro rfl rfl
      have hsent := (hstored.2 rfl).1
      rw [hrequest] at hsent
      exact (Option.some.inj hsent).symm
    | answered k generation tokens actual =>
      rintro ⟨rfl, rfl⟩
      have hanswered := hstored.2 rfl
      rw [hopen] at hanswered
      cases hanswered
  ceiling := h.ceiling
  spent := by
    have hspent := h.spent
    rw [spent_concat, overshoot_concat]
    show AgentRuntime.spent g.events + tokens + ((0 : ℕ) : ℤ) ≤ g.agent.totalTokens + (overshoot g.events + 0)
    push_cast
    omega
  total := by
    rw [overshoot_concat]
    show g.agent.totalTokens ≤ g.ceiling + (overshoot g.events + 0)
    rw [add_zero]
    exact h.total

/-- An answer is stored, and what it took is corrected, or not. -/
theorem answer (h : Accounted maxRounds 0 0 0 g) {key : String} (hopen : g.store.completion key = none)
    (completion : ModelCompletion) (reserved actual : ℕ) {agent : AgentUsage Cost}
    (hrounds : agent.rounds = g.agent.rounds) (htotal : agent.totalTokens = g.agent.totalTokens ∨
      agent.totalTokens = g.agent.totalTokens - reserved + actual) :
    Accounted maxRounds 0 0 0
      { g with
        store := g.store.putCompletion key completion
        events := g.events ++ [.answered key (g.archived key) reserved actual]
        agent } where
  limit := h.limit
  grants n hn := by
    rw [List.countP_append, h.grants n hn]
    rfl
  bounded n := by
    rw [List.countP_append]
    exact h.bounded n
  current := by
    rw [List.countP_append]
    exact h.current
  used := h.used
  counted := by
    rw [List.countP_append]
    show _ ≤ agent.rounds
    rw [hrounds]
    exact h.counted
  stored e he := by
    rcases List.mem_append.mp he with hold | hnew
    · have hstored := h.stored e hold
      -- The completion that was stored first is kept.
      cases e with
      | sent => exact hstored
      | answered k generation tokens actual =>
        refine ⟨hstored.1, fun hgeneration => ?_⟩
        show (if k = key then some ((g.store.completion key).getD completion)
          else g.store.completion k).isSome = true
        split_ifs
        · rfl
        · exact hstored.2 hgeneration
    · obtain rfl := List.mem_singleton.mp hnew
      refine ⟨Nat.le_refl _, fun _ => ?_⟩
      show (if key = key then some ((g.store.completion key).getD completion)
        else g.store.completion key).isSome = true
      rw [if_pos rfl]
      rfl
  ordered := by
    rw [List.pairwise_append]
    -- An answer comes after the request that it answers.
    refine ⟨h.ordered, List.pairwise_singleton _ _, fun e he e' he' => ?_⟩
    obtain rfl := List.mem_singleton.mp he'
    have hstored := h.stored e he
    cases e with
    | sent => trivial
    | answered k generation tokens actual =>
      rintro ⟨rfl, rfl⟩
      have hanswered := hstored.2 rfl
      rw [hopen] at hanswered
      cases hanswered
  ceiling := h.ceiling
  spent := by
    have hspent := h.spent
    have hover := le_max_left 0 ((actual : ℤ) - reserved)
    have hactual := le_max_right 0 ((actual : ℤ) - reserved)
    rw [spent_concat, overshoot_concat]
    show AgentRuntime.spent g.events + (actual - reserved) + ((0 : ℕ) : ℤ) ≤
      agent.totalTokens + (overshoot g.events + max 0 ((actual : ℤ) - reserved))
    push_cast at hspent ⊢
    -- What was reserved is corrected in the total, unless the process has restarted.
    rcases htotal with htotal | htotal
    · rw [htotal]
      omega
    · rw [htotal]
      omega
  total := by
    have htotal' := h.total
    have hover := le_max_left 0 ((actual : ℤ) - reserved)
    have hactual := le_max_right 0 ((actual : ℤ) - reserved)
    rw [overshoot_concat]
    show agent.totalTokens ≤ g.ceiling + (overshoot g.events + max 0 ((actual : ℤ) - reserved))
    rcases htotal with htotal | htotal
    · rw [htotal]
      omega
    · rw [htotal]
      omega

end Accounted

/-! ## The parts of a request -/

/-- No request is under way. -/
def Idle (maxRounds : ℕ) (g : Accounts Cost) : Prop := Accounted maxRounds 0 0 0 g ∧ g.flight = none

/-- What holds between the steps: a request that is under way was not answered. -/
def Accounts.Sound (maxRounds : ℕ) (g : Accounts Cost) : Prop :=
  Accounted maxRounds 0 0 0 g ∧
    ∀ flight, g.flight = some flight → g.store.completion flight.key = none

/-- What a part does not change that is about budgets, histories and the admission. -/
structure Steady (g g' : Accounts Cost) : Prop where
  limits : g'.limits = g.limits
  request : g'.store.request = g.store.request
  completion : g'.store.completion = g.store.completion
  version : g'.version = g.version
  agent : g'.agent = g.agent

/-- The request is the one that is stored, if one is stored that was not answered. -/
structure Selects (key : String) (g : Accounts Cost) (request : ModelCompletionRequest) : Prop where
  unanswered : g.store.completion key = none
  same : ∀ saved, g.store.request key = some saved → saved = request ∧ 4 ≤ (g.version key).getD 1

/-- Accounts without a request under way are sound. -/
theorem Idle.sound (h : Idle maxRounds g) : g.Sound maxRounds := by
  refine ⟨h.1, fun flight hflight => ?_⟩
  rw [h.2] at hflight
  cases hflight

/-- Nothing has changed. -/
theorem Steady.refl (g : Accounts Cost) : Steady g g := ⟨rfl, rfl, rfl, rfl, rfl⟩

/-- A request stays the one that is stored. -/
theorem Selects.steady {key : String} {request : ModelCompletionRequest} (h : Selects key g request)
    (hsteady : Steady g g') : Selects key g' request := by
  refine ⟨?_, ?_⟩
  · rw [hsteady.completion]
    exact h.unanswered
  · rw [hsteady.request, hsteady.version]
    exact h.same

section Parts

variable {env : RequestSurroundings} {point : StorePoint} {request : ModelCompletionRequest}
  {budget : WorkBudget}

/-- A write happens, or fails and changes nothing. -/
theorem wp_putStore {change : Accounts Cost → Accounts Cost} {Q : Unit → Accounts Cost → Prop}
    {E : RequesterFault → Accounts Cost → Prop} (hwritten : Q () (change g)) (hfailed : E .store g) :
    wp (putStore env point change) Q E g := by
  unfold putStore
  rw [wp_ite]
  split_ifs
  · exact hfailed
  · exact hwritten

/-- A new budget is an allocation more. -/
theorem wp_newWorkBudget (h : Idle maxRounds g) : wp (newWorkBudget env point)
    (fun budget g' => Idle maxRounds g' ∧ g'.work = some budget ∧ Steady g g') (fun _ => Idle maxRounds) g := by
  unfold newWorkBudget
  rw [wp_bind]
  refine wp_putStore ?_ h
  exact ⟨⟨h.1.grant _ rfl, h.2⟩, rfl, rfl, rfl, rfl, rfl, rfl⟩

/-- The budget that is returned is the one that is stored. -/
theorem wp_workBudget (h : Idle maxRounds g) : wp (workBudget env point)
    (fun budget g' => Idle maxRounds g' ∧ g'.work = some budget ∧ Steady g g') (fun _ => Idle maxRounds) g := by
  unfold workBudget
  rw [wp_bind, wp_get]
  split
  · exact wp_newWorkBudget h
  · rename_i saved hwork
    rw [wp_ite, wp_ite]
    split_ifs
    · rw [wp_bind]
      refine wp_putStore ?_ h
      exact ⟨⟨h.1.mark hwork rfl, h.2⟩, rfl, rfl, rfl, rfl, rfl, rfl⟩
    · exact ⟨h, hwork, Steady.refl g⟩
    · exact wp_newWorkBudget h

/-- The version of a stored request is repaired. -/
theorem wp_repairVersion (h : Idle maxRounds g) (hopen : g.store.completion env.key = none) :
    wp (repairVersion env) (fun _ g' => Idle maxRounds g' ∧ g'.store.completion env.key = none ∧
      ∀ saved, g'.store.request env.key = some saved → 4 ≤ (g'.version env.key).getD 1)
      (fun _ => Idle maxRounds) g := by
  unfold repairVersion
  rw [wp_bind, wp_get, wp_ite]
  split_ifs with hold
  · refine wp_putStore ⟨⟨h.1.archive env.key, h.2⟩, if_pos rfl, fun saved hsaved => ?_⟩ h
    rw [show (g.archive env.key).store.request env.key = none from if_pos rfl] at hsaved
    cases hsaved
  · refine ⟨h, hopen, fun saved hsaved => ?_⟩
    rw [hsaved] at hold
    by_contra hversion
    exact hold ⟨by omega, rfl⟩

/-- A stored request is found, unless it was answered. -/
theorem wp_savedRequest (h : Idle maxRounds g) (hopen : g.store.completion env.key = none)
    (hversion : ∀ saved, g.store.request env.key = some saved → 4 ≤ (g.version env.key).getD 1) :
    wp (savedRequest env) (fun saved g' => Idle maxRounds g' ∧
      (∀ request, saved = some request → Selects env.key g' request ∧ request.maxOutputTokens.isSome = true) ∧
      (saved = none → ∀ request, Selects env.key g' request)) (fun _ => Idle maxRounds) g := by
  unfold savedRequest
  rw [wp_bind, wp_get]
  split
  · rename_i hnone
    refine ⟨h, fun _ hsaved => (by cases hsaved), fun _ request => ⟨hopen, fun saved hsaved => ?_⟩⟩
    rw [hnone] at hsaved
    cases hsaved
  · rename_i saved hsaved
    rw [wp_ite]
    split_ifs with hfits
    · rw [wp_bind]
      refine wp_putStore ⟨⟨h.1.archive env.key, h.2⟩, fun _ hsaved => (by cases hsaved), fun _ request =>
        ⟨if_pos rfl, fun saved hsaved => ?_⟩⟩ h
      rw [show (g.archive env.key).store.request env.key = none from if_pos rfl] at hsaved
      cases hsaved
    · rw [not_or] at hfits
      refine ⟨h, fun request hrequest => ?_, fun hnone => (by cases hnone)⟩
      obtain rfl := Option.some.inj hrequest
      refine ⟨⟨hopen, fun saved' hsaved' => ?_⟩, Option.isSome_iff_ne_none.mpr hfits.1⟩
      exact ⟨Option.some.inj (hsaved'.symm.trans hsaved), hversion _ hsaved'⟩

section History

variable {numbers : List Char → Option String} {digest : String → String}

/-- The history is another table. -/
theorem steady_history {options : HistoryOptions} {store : HistoryStore}
    (hhistory : withNativeHistory numbers digest g.store options = .ok (request, store)) :
    store.request = g.store.request ∧ store.completion = g.store.completion := by
  unfold withNativeHistory at hhistory
  obtain ⟨selected, -, hhistory⟩ := bind_eq_ok.mp hhistory
  cases hhistory
  exact ⟨rfl, rfl⟩

/-- To prepare a request leaves the accounts as they are. -/
theorem wp_prepare (h : Idle maxRounds g) {input : ModelCompletionRequest} :
    wp (prepare env numbers digest input) (fun _ g' => Idle maxRounds g' ∧ Steady g g')
      (fun _ => Idle maxRounds) g := by
  unfold prepare
  rw [wp_ite]
  split_ifs
  · exact ⟨h, Steady.refl g⟩
  · refine wp_bind_of (wp_workBudget h) ?_ (fun _ _ hidle => hidle)
    rintro budget g₁ ⟨h₁, -, hsteady⟩
    rw [wp_bind, wp_get]
    dsimp only
    split
    · exact h₁
    · rename_i selected store hhistory
      obtain ⟨hrequest, hcompletion⟩ := steady_history hhistory
      rw [wp_bind]
      refine wp_putStore ⟨⟨?_, h₁.2⟩, ?_⟩ h₁
      · exact h₁.1.congr rfl hrequest hcompletion rfl rfl rfl rfl rfl rfl rfl
      · exact ⟨hsteady.limits, hrequest.trans hsteady.request, hcompletion.trans hsteady.completion,
          hsteady.version, hsteady.agent⟩

/-- A stored request is sent as it is. -/
theorem wp_selectedRequest (h : Idle maxRounds g) (hopen : g.store.completion env.key = none)
    {input : ModelCompletionRequest} : wp (selectedRequest env numbers digest input)
      (fun request g' => Idle maxRounds g' ∧ Selects env.key g' request ∧
        request.maxOutputTokens.isSome = true) (fun _ => Idle maxRounds) g := by
  unfold selectedRequest
  refine wp_bind_of (wp_repairVersion h hopen) ?_ (fun _ _ hidle => hidle)
  rintro - g₁ ⟨h₁, hopen₁, hversion⟩
  refine wp_bind_of (wp_savedRequest h₁ hopen₁ hversion) ?_ (fun _ _ hidle => hidle)
  rintro saved g₂ ⟨h₂, hsome, hnone⟩
  cases saved with
  | some saved =>
    obtain ⟨hselects, houtput⟩ := hsome saved rfl
    obtain ⟨output, houtput⟩ := Option.isSome_iff_exists.mp houtput
    -- The reservation of output is that of the stored request.
    have heq : { saved with maxOutputTokens := some (outputTokens g₂.limits saved) } = saved := by
      unfold outputTokens
      rw [houtput, Option.getD_some, ← houtput]
    refine ⟨h₂, ?_, rfl⟩
    rw [heq]
    exact hselects
  | none =>
    refine wp_bind_of (wp_prepare h₂) ?_ (fun _ _ hidle => hidle)
    rintro selected g₃ ⟨h₃, hsteady⟩
    exact ⟨h₃, (hnone rfl _).steady hsteady, rfl⟩

end History

/-- An admission leaves the accounts as they are. -/
theorem wp_acquire (h : Idle maxRounds g) (hwork : g.work = some budget) {amount : ℕ} :
    wp (acquire env amount) (fun _ g' => Idle maxRounds g' ∧ g'.work = some budget ∧ Steady g g')
      (fun _ => Idle maxRounds) g := by
  unfold acquire
  rw [wp_bind, wp_get]
  split
  · exact h
  · refine wp_putStore ⟨⟨?_, h.2⟩, hwork, rfl, rfl, rfl, rfl, rfl⟩ h
    exact h.1.congr rfl rfl rfl rfl rfl rfl rfl rfl rfl rfl

/-- To start sending changes nothing. -/
theorem wp_startSending {Q : Unit → Accounts Cost → Prop} {E : RequesterFault → Accounts Cost → Prop}
    (hstarted : Q () g) (hfailed : ∀ e, E e g) : wp (startSending env) Q E g := by
  unfold startSending
  rw [wp_ite]
  split_ifs
  · exact hfailed _
  · split
    · exact hstarted
    · exact hfailed _

variable [Add Cost]

/-- Everything is written down before the request is sent. -/
theorem wp_sendRequest (h : Idle maxRounds g) (hselects : Selects env.key g request)
    (houtput : request.maxOutputTokens.isSome = true) (hwork : g.work = some budget)
    (hrounds : budget.used < maxRounds)
    (htokens : g.agent.totalTokens + reservation g.limits request ≤ g.limits.maxTotalTokens) :
    wp (sendRequest env request budget) (fun _ => Accounts.Sound maxRounds) (fun _ => Idle maxRounds) g := by
  obtain ⟨haccounted, hidle⟩ := h
  unfold sendRequest consumeWorkRound
  rw [wp_bind]
  -- First the request is written, then its version; then the sending is admitted.
  refine wp_putStore ?_ ⟨haccounted, hidle⟩
  have h₁ := haccounted.putRequest env.key request
  have hrequest : (g.store.putRequest env.key request).request env.key = some request := by
    show (if env.key = env.key then some ((g.store.request env.key).getD request)
      else g.store.request env.key) = some request
    rw [if_pos rfl]
    cases hsaved : g.store.request env.key with
    | none => rfl
    | some saved => rw [(hselects.same saved hsaved).1, Option.getD_some]
  rw [wp_bind]
  refine wp_putStore ?_ ⟨h₁, hidle⟩
  have h₂ := h₁.putVersion env.key
  rw [wp_bind]
  refine wp_startSending ?_ fun _ => ⟨h₂, hidle⟩
  rw [wp_bind]
  -- The round and the charge are written down before anything is sent.
  refine wp_putStore ?_ ⟨h₂, hidle⟩
  have h₃ := h₂.consume hwork hrounds
  unfold charge
  rw [wp_bind, wp_bind, wp_get]
  refine wp_putStore ?_ ⟨h₃.abandon, hidle⟩
  have h₄ := h₃.charge (g.agent.costUsd + estimatedCost g.limits request) htokens
  unfold AgentRuntime.send
  rw [wp_ite]
  split_ifs
  · exact ⟨h₄.abandon, hidle⟩
  · refine ⟨h₄.send hrequest ?_ houtput hselects.unanswered _, ?_⟩
    · show 4 ≤ Option.getD (if env.key = env.key then some 4 else g.version env.key) 1
      rw [if_pos rfl]
      exact Nat.le_refl _
    · intro flight hflight
      obtain rfl := Option.some.inj hflight
      exact hselects.unanswered

/-- What the answer took is written down, or what was reserved stays. -/
theorem wp_completeRequest [Sub Cost] (h : g.Sound maxRounds) {flight : Flight Cost} (hflight : g.flight = some flight)
    {result : UsedCompletion} :
    Ends (completeRequest env flight result) (Accounts.Sound maxRounds) g := by
  have hopen := h.2 flight hflight
  have hended : ∀ g' : Accounts Cost, Accounted maxRounds 0 0 0 g' → (endFlight g').Sound maxRounds :=
    fun g' h' => Idle.sound ⟨h'.congr rfl rfl rfl rfl rfl rfl rfl rfl rfl rfl, rfl⟩
  have hanswered : ∀ agent : AgentUsage Cost, agent.rounds = g.agent.rounds →
      agent.totalTokens = g.agent.totalTokens ∨
        agent.totalTokens = g.agent.totalTokens - flight.tokens + actualTokens flight result →
      Accounted maxRounds 0 0 0
        { g with
          store := g.store.putCompletion flight.key result.toModelCompletion
          events := g.events ++
            [.answered flight.key (g.archived flight.key) flight.tokens (actualTokens flight result)]
          agent } :=
    fun _ hrounds htotal => h.1.answer hopen _ _ _ hrounds htotal
  have hsettled : Ends (settleRequest env flight result) (Accounted maxRounds 0 0 0) g := by
    unfold settleRequest Ends
    rw [wp_bind]
    refine wp_putStore ?_ h.1
    rw [wp_bind]
    -- A process that ends here has the answer, and keeps what was reserved.
    refine wp_putStore ?_ (hanswered g.agent rfl (.inl rfl))
    have hrefunded := hanswered
      { g.agent with
        totalTokens := g.agent.totalTokens - flight.tokens + actualTokens flight result
        costUsd := g.agent.costUsd - flight.estimatedCost + actualCost g.limits flight result } rfl (.inr rfl)
    exact wp_putStore hrefunded hrefunded
  unfold completeRequest Ends
  rw [wp_bind, wp_tryCatch]
  exact wp_mono hsettled (fun _ _ h' => hended _ h') fun _ _ h' => hended _ h'

variable [LT Cost] [DecidableLT Cost]

/-- What the checks of the accounts leave room for. -/
theorem room_of_checkAccounts (h : checkAccounts g request budget = .ok ()) :
    budget.used < g.limits.maxRounds ∧
      g.agent.totalTokens + reservation g.limits request ≤ g.limits.maxTotalTokens := by
  unfold checkAccounts at h
  split_ifs at h with hrounds htokens hcost
  exact ⟨not_le.mp hrounds, not_lt.mp htokens⟩

/-- However a request is prepared and sent, the accounts are kept. -/
theorem wp_dispatchRequest {numbers : List Char → Option String} {digest : String → String}
    (h : Idle maxRounds g) {input : ModelCompletionRequest} :
    Ends (dispatchRequest env numbers digest input) (Accounts.Sound maxRounds) g := by
  unfold dispatchRequest Ends
  rw [wp_bind, wp_get]
  split
  · exact h.sound
  · rename_i hopen
    unfold dispatchNew
    refine wp_bind_of (wp_selectedRequest h hopen) ?_ (fun _ _ hidle => hidle.sound)
    rintro request g₁ ⟨h₁, hselects, houtput⟩
    rw [wp_bind, wp_get, wp_ite]
    split_ifs
    · exact h₁.sound
    · refine wp_bind_of (wp_workBudget h₁) ?_ (fun _ _ hidle => hidle.sound)
      rintro budget g₂ ⟨h₂, hwork, hsteady⟩
      rw [wp_bind, wp_get, wp_bind, wp_lift]
      refine ⟨fun _ hchecked => ?_, fun _ _ => h₂.sound⟩
      obtain ⟨hrounds, htokens⟩ := room_of_checkAccounts hchecked
      refine wp_bind_of (wp_acquire h₂ hwork) ?_ (fun _ _ hidle => hidle.sound)
      rintro - g₃ ⟨h₃, hwork₃, hsteady₃⟩
      rw [h₂.1.limit] at hrounds
      rw [← hsteady₃.agent, ← hsteady₃.limits] at htokens
      have hselects₃ := (hselects.steady hsteady).steady hsteady₃
      rw [wp_bind, wp_tryCatch]
      refine wp_mono (wp_sendRequest h₃ hselects₃ houtput hwork₃ hrounds htokens) (fun _ _ hsound => hsound) ?_
      rintro _ g₄ ⟨haccounted, hidle⟩
      exact Idle.sound ⟨haccounted.congr rfl rfl rfl rfl rfl rfl rfl rfl rfl rfl, hidle⟩

end Parts

/-! ## Whole runs -/

section Whole

variable [Add Cost] [Sub Cost] [LT Cost] [DecidableLT Cost] {numbers : List Char → Option String}
  {digest : String → String}

/-- A step keeps the accounts. -/
theorem Accounts.Step.sound (step : Accounts.Step numbers digest g g') (h : g.Sound maxRounds) :
    g'.Sound maxRounds := by
  obtain ⟨haccounted, hflight⟩ := h
  -- One case per step; only what is dispatched or completed writes anything.
  cases step with
  | dispatch env input idle => exact wp_finalState (wp_dispatchRequest ⟨haccounted, idle⟩)
  | complete env result sent => exact wp_finalState (wp_completeRequest ⟨haccounted, hflight⟩ sent)
  | fail sent => exact Idle.sound ⟨haccounted.congr rfl rfl rfl rfl rfl rfl rfl rfl rfl rfl, rfl⟩
  | finish idle =>
    unfold finishWorkBudget
    split
    · rename_i saved hwork
      split_ifs
      · exact ⟨haccounted, hflight⟩
      · exact ⟨haccounted.mark hwork rfl, hflight⟩
    · exact ⟨haccounted, hflight⟩
  | renew idle =>
    unfold renewWorkBudget
    split
    · split_ifs
      · exact ⟨haccounted, hflight⟩
      · exact ⟨haccounted.grant _ rfl, hflight⟩
    · exact ⟨haccounted, hflight⟩
  | repair key idle => exact Idle.sound ⟨haccounted.archive key, idle⟩
  | configure limits admission rounds idle =>
    refine Idle.sound ⟨{ haccounted with
      limit := rounds.trans haccounted.limit
      ceiling := le_max_right _ _
      total := ?_ }, idle⟩
    have htotal := haccounted.total
    -- The ceiling is the largest limit so far.
    have hceiling : (g.ceiling : ℤ) ≤ (max g.ceiling limits.maxTotalTokens : ℕ) :=
      Int.ofNat_le.mpr (le_max_left _ _)
    show g.agent.totalTokens ≤ ((max g.ceiling limits.maxTotalTokens : ℕ) : ℤ) + overshoot g.events
    omega
  | others admission => exact ⟨haccounted.congr rfl rfl rfl rfl rfl rfl rfl rfl rfl rfl, hflight⟩
  | restart => exact Idle.sound ⟨haccounted.congr rfl rfl rfl rfl rfl rfl rfl rfl rfl rfl, rfl⟩

/-- The accounts of every run are sound. -/
theorem sound_of_accountSystem (h : (accountSystem numbers digest maxRounds : TransitionSystem (Accounts Cost)).Reachable g) :
    g.Sound maxRounds := by
  refine h.invariant ?_ ?_
  · rintro _ ⟨limits, admission, cost, rfl, rfl⟩
    exact Idle.sound ⟨accounted_initial limits admission cost, rfl⟩
  · intro g₀ g₁ _ hsound step
    exact Accounts.Step.sound step hsound

/-- After any run: each grant of rounds serves so many requests at most. What the requests took is in the
agent's total, and the total is within the highest limit, but for what answers took beyond their reservations.
As long as a key is not archived, the same request is sent under it, and none after its answer. -/
theorem spending_of_reachable
    (h : (accountSystem numbers digest maxRounds : TransitionSystem (Accounts Cost)).Reachable g) :
    (∀ n, g.events.countP (RequestEvent.sentIn n) ≤ maxRounds) ∧
      spent g.events ≤ g.agent.totalTokens + overshoot g.events ∧
      g.agent.totalTokens ≤ g.ceiling + overshoot g.events ∧
      g.events.countP RequestEvent.isSent ≤ g.agent.rounds ∧
      g.events.Pairwise RequestEvent.Before := by
  obtain ⟨haccounted, -⟩ := sound_of_accountSystem h
  have hspent := haccounted.spent
  push_cast at hspent
  rw [add_zero] at hspent
  exact ⟨haccounted.bounded, hspent, haccounted.total, haccounted.counted, haccounted.ordered⟩

end Whole

section Witness

/-- Limits of two rounds, and of enough tokens. -/
def twoRounds : RequesterLimits ℕ where
  maxRequestTokens := 1000
  maxOutputTokens := 100
  maxTotalTokens := 1000
  maxRounds := 2
  maxCostUsd := 1000
  cost input output := input + output
  toFixed := toString
  costText := toString

/-- Surroundings in which a request leaves. -/
def clearWay : RequestSurroundings where
  key := "batch"
  batchId := "batch"
  workBatch := none
  freshKey := "work"
  scope := id
  receipt _ := false
  result _ _ := none
  now := 0
  aborted := false
  beforeSend := .ok ()
  stopped := false
  failure _ := false

/-- A request with one message. -/
def hello : ModelCompletionRequest where
  messages := [.user "hello"]

/-- Its answer. -/
def helloAnswer : UsedCompletion where
  message := { content := "", toolCalls := [], continuation := none }
  inputTokens := 40
  outputTokens := 10
  totalTokens := 50

/-- Accounts for two rounds. -/
def firstAccounts : Accounts ℕ := .initial twoRounds { limits := ⟨1, 10, 1000⟩ } 0

/-- A request is sent, and the process ends before the answer. It is sent again. -/
def sentTwice : Accounts ℕ :=
  finalState (dispatchRequest clearWay (fun _ => none) id hello
    { finalState (dispatchRequest clearWay (fun _ => none) id hello firstAccounts) with
      flight := none
      admission := (finalState (dispatchRequest clearWay (fun _ => none) id hello firstAccounts)).admission.restart })

/-- The accounts after the answer, if one is awaited. -/
def afterAnswer (g : Accounts ℕ) : Accounts ℕ :=
  match g.flight with
  | some flight => finalState (completeRequest clearWay flight helloAnswer g)
  | none => g

/-- The runs with two rounds of work. -/
def twoRoundSystem : TransitionSystem (Accounts ℕ) := accountSystem (fun _ => none) id 2

/-- The accounts after two requests are reachable. -/
theorem reachable_sentTwice : twoRoundSystem.Reachable sentTwice :=
  .step (.step (.step (.of_init ⟨twoRounds, _, 0, rfl, rfl⟩) (.dispatch clearWay hello rfl)) .restart)
    (.dispatch clearWay hello rfl)

/-- The retry takes the second round, and the answer gives back what was reserved for it. -/
theorem spending_sentTwice : ∃ g, twoRoundSystem.Reachable g ∧
    g.events.countP RequestEvent.isSent = 2 ∧ g.events.length = 3 ∧ g.agent.rounds = 2 ∧
      spent g.events ≤ g.agent.totalTokens + overshoot g.events ∧
        (∀ n, g.events.countP (RequestEvent.sentIn n) ≤ 2) ∧ g.events.Pairwise RequestEvent.Before := by
  cases hflight : sentTwice.flight with
  | none =>
    have hsome : sentTwice.flight.isSome = true := by decide +kernel
    rw [hflight] at hsome
    cases hsome
  | some flight =>
    have hreach : twoRoundSystem.Reachable
        (finalState (completeRequest clearWay flight helloAnswer sentTwice)) :=
      .step reachable_sentTwice (.complete clearWay helloAnswer hflight)
    have hafter : afterAnswer sentTwice = finalState (completeRequest clearWay flight helloAnswer sentTwice) := by
      unfold afterAnswer
      rw [hflight]
    have hcounts : (afterAnswer sentTwice).events.countP RequestEvent.isSent = 2 ∧
        (afterAnswer sentTwice).events.length = 3 ∧ (afterAnswer sentTwice).agent.rounds = 2 := by
      decide +kernel
    rw [hafter] at hcounts
    obtain ⟨hrounds, hspent, -, -, hbefore⟩ := spending_of_reachable hreach
    exact ⟨_, hreach, hcounts.1, hcounts.2.1, hcounts.2.2, hspent, hrounds, hbefore⟩

end Witness

end Runs

end OsAgent.AgentRuntime
