import Mathlib.Tactic.Linarith
import OsAgent.Scheduler.AdmissionController

/-!
# The windows of the admission controller

The controller's two lists agree with the log of everything that it ever admitted, in every window that
ends from now on (`AdmissionController.Records`). So what it counts before it admits a request is what
the window of that request holds, and counting up to what a window holds, the limit was never found to
be reached (`Records.windowBounded`). A decision that names a time to ask again says what stands in the
way until then (`AdmissionController.Blocks`), and it stands in the way of every request of that size.
-/

namespace OsAgent.Scheduler

open OsAgent.Library

/-- A new lease is open. -/
theorem openLeases_concat (leases : List AdmissionLease) :
    openLeases (leases ++ [{ released := false }]) = openLeases leases + 1 := by
  unfold openLeases
  rw [List.countP_append]
  rfl

/-- A lease that was open is not, once it has been closed. -/
theorem openLeases_set {leases : List AdmissionLease} {lease : ℕ}
    (h : leases[lease]? = some { released := false }) :
    openLeases (leases.set lease { released := true }) + 1 = openLeases leases := by
  unfold openLeases
  obtain ⟨hlt, hopen⟩ := List.getElem?_eq_some_iff.mp h
  have hpos : 0 < leases.countP fun lease => !lease.released :=
    List.countP_pos_iff.mpr ⟨leases[lease], List.getElem_mem hlt, by rw [hopen]; rfl⟩
  rw [List.countP_set hlt, hopen]
  simp only [Bool.not_false, Bool.not_true, if_true, Bool.false_eq_true, if_false]
  omega

namespace AdmissionController

variable {s : AdmissionController}

/-- There is no reason to deny a request that the limits leave room for. -/
theorem denialReasons_eq_nil {attempt : AdmissionAttempt} (h : s.denialReasons attempt = []) :
    ¬ s.policy.maxConcurrentRequests ≤ .finite s.activeRequests ∧
      ¬ s.policy.requestsPerMinute ≤ .finite s.requestTimestamps.length ∧
      ¬ s.policy.tokensPerMinute <
        .finite (s.reservedTokens + attempt.estimate.requestedTokens) := by
  unfold denialReasons at h
  simp only [List.append_eq_nil_iff, ite_eq_right_iff, imp_false, List.cons_ne_nil,
    requestRateExhausted, tokenRateExhausted, decide_eq_true_eq] at h
  obtain ⟨⟨⟨-, hactive⟩, hrate⟩, htokens⟩ := h
  have hfits : ¬s.policy.tokensPerMinute < .finite attempt.estimate.requestedTokens := by
    intro hlt
    simp [hlt] at htokens
  refine ⟨hactive, hrate, ?_⟩
  intro hlt
  simp [hfits, hlt] at htokens

/-- An attempt that there is a reason to deny leaves the lists pruned, and nothing else. -/
theorem tryAcquire_of_denied {attempt : AdmissionAttempt}
    (h : (s.pruneExpired attempt.now).denialReasons attempt ≠ []) :
    (s.tryAcquire attempt).1.isAdmitted = false ∧
      (s.tryAcquire attempt).1.retryAt? =
        (s.pruneExpired attempt.now).retryAt attempt.estimate.requestedTokens ∧
      (s.tryAcquire attempt).2 = s.pruneExpired attempt.now := by
  unfold tryAcquire
  rw [if_pos (List.length_pos_iff.mpr h)]
  exact ⟨rfl, rfl, rfl⟩

/-- Without a reason to deny it, the request is written. -/
theorem tryAcquire_of_room {attempt : AdmissionAttempt}
    (h : (s.pruneExpired attempt.now).denialReasons attempt = []) :
    s.tryAcquire attempt = (.admitted s.leases.length,
      (s.pruneExpired attempt.now).grant attempt.now attempt.estimate.requestedTokens) := by
  unfold tryAcquire
  rw [if_neg (by simp [h])]
  rfl

/-! ## A denied attempt -/

/-- Pruning again, later, is pruning once. -/
theorem pruneExpired_pruneExpired {now now' : ℚ} (h : now ≤ now') :
    (s.pruneExpired now).pruneExpired now' = s.pruneExpired now' := by
  unfold pruneExpired
  simp only [prune_prune h]

/-- Closing a lease reads and writes nothing that is pruned. -/
theorem close_pruneExpired (now : ℚ) (lease : ℕ) :
    (s.pruneExpired now).close lease = (s.close lease).pruneExpired now := by
  unfold close
  have hleases : (s.pruneExpired now).leases = s.leases := rfl
  rw [hleases]
  split <;> rfl

/-- Pruning changes no decision from then on. -/
theorem decisions_pruneExpired {now : ℚ} {calls : List AdmissionCall}
    (h : ∀ attempt, .tryAcquire attempt ∈ calls → now ≤ attempt.now) :
    (s.pruneExpired now).decisions calls = s.decisions calls := by
  induction calls generalizing s with
  | nil => rfl
  | cons call calls ih =>
    have hrest : ∀ attempt, .tryAcquire attempt ∈ calls → now ≤ attempt.now :=
      fun attempt hmem => h attempt (List.mem_cons_of_mem _ hmem)
    cases call with
    | tryAcquire attempt =>
      have hsame : (s.pruneExpired now).tryAcquire attempt = s.tryAcquire attempt := by
        unfold tryAcquire
        rw [pruneExpired_pruneExpired (h attempt List.mem_cons_self)]
      unfold decisions
      rw [hsame]
    | close lease =>
      unfold decisions
      rw [close_pruneExpired]
      exact ih hrest

/-! ## The records -/

/-- What the controller keeps of the log of all that it admitted, when the clock was last read at
`clock`. -/
structure Records (s : AdmissionController) (clock : ℚ) (log : List TokenReservation) : Prop where
  /-- Both lists are about the same requests. -/
  synced : s.requestTimestamps = s.tokenReservations.map TokenReservation.timestamp
  keeps : Keeps TokenReservation.timestamp rateWindowMs clock s.tokenReservations log
  ordered : Ordered TokenReservation.timestamp s.tokenReservations
  past : ∀ e ∈ s.tokenReservations, e.timestamp ≤ clock
  nonneg : ∀ e ∈ s.tokenReservations, 0 ≤ e.tokens
  logged_nonneg : ∀ e ∈ log, 0 ≤ e.tokens
  /-- The requests left room, each for the next. -/
  requests : Roomy TokenReservation.timestamp rateWindowMs (fun _ => 1)
    s.policy.requestsPerMinute.Unreached log
  tokens : Roomy TokenReservation.timestamp rateWindowMs TokenReservation.tokens
    (fun total => ¬ s.policy.tokensPerMinute < .finite total) log
  /-- The counter counts the leases that are open. -/
  active : s.activeRequests = openLeases s.leases
  within : s.policy.maxConcurrentRequests.Unreached (openLeases s.leases)

/-- A new controller keeps the empty log. -/
theorem Records.create {policy : AdmissionPolicy} (h : create policy = .ok s) (clock : ℚ) :
    s.Records clock [] := by
  unfold AdmissionController.create at h
  rw [check_bind_eq_ok, pure_eq_ok] at h
  obtain ⟨-, rfl⟩ := h
  exact {
    synced := rfl
    keeps := Keeps.refl clock []
    ordered := List.Pairwise.nil
    past := by simp
    nonneg := by simp
    logged_nonneg := by simp
    requests := Roomy.nil
    tokens := Roomy.nil
    active := rfl
    within := Number.unreached_zero }

/-- No window of the log goes beyond what the limits let through. -/
theorem Records.windowBounded {clock : ℚ} {log : List TokenReservation} (h : s.Records clock log)
    (hlimit : ¬ s.policy.tokensPerMinute ≤ .finite 0) :
    WindowBounded TokenReservation.timestamp rateWindowMs (fun _ => 1)
        s.policy.requestsPerMinute.Unreached log ∧
      WindowBounded TokenReservation.timestamp rateWindowMs TokenReservation.tokens
        (fun total => ¬ s.policy.tokensPerMinute < .finite total) log := by
  constructor
  · apply h.requests.windowBounded (fun _ _ => Nat.zero_le _)
    · exact fun a b hle hb => hb.of_le hle
    · exact Number.unreached_zero
  · apply h.tokens.windowBounded h.logged_nonneg
    · exact fun a b hle hb hlt => hb (Number.lt_of_lt_of_le hlt hle)
    · exact fun hlt => hlimit (Number.le_of_lt hlt)

/-- In an ordered list, what pruning leaves are the recent reservations. -/
theorem tokenReservations_pruneExpired
    (h : Ordered TokenReservation.timestamp s.tokenReservations) (now : ℚ) :
    (s.pruneExpired now).tokenReservations =
      recent TokenReservation.timestamp rateWindowMs now s.tokenReservations :=
  prune_eq_recent h now

/-- Pruning keeps the records. -/
theorem Records.pruneExpired {clock now : ℚ} {log : List TokenReservation}
    (h : s.Records clock log) (hclock : clock ≤ now) : (s.pruneExpired now).Records now log := by
  have hpruned := tokenReservations_pruneExpired h.ordered now
  have hsub : ∀ e ∈ (s.pruneExpired now).tokenReservations, e ∈ s.tokenReservations := by
    rw [hpruned]
    exact fun e he => (List.mem_filter.mp he).1
  exact {
    synced := by
      show prune id rateWindowMs now s.requestTimestamps = _
      rw [h.synced]
      exact List.dropWhile_map ..
    keeps := by
      rw [hpruned]
      exact h.keeps.recent hclock
    ordered := by
      rw [hpruned]
      exact h.ordered.recent now
    past := fun e he => (h.past e (hsub e he)).trans hclock
    nonneg := fun e he => h.nonneg e (hsub e he)
    logged_nonneg := h.logged_nonneg
    requests := h.requests
    tokens := h.tokens
    active := h.active
    within := h.within }

/-- Writing a request that there is room for keeps the records. -/
theorem Records.grant {now tokens : ℚ} {log : List TokenReservation} (h : s.Records now log)
    (hrecent : recent TokenReservation.timestamp rateWindowMs now s.tokenReservations =
      s.tokenReservations) (htokens : 0 ≤ tokens)
    (hactive : ¬ s.policy.maxConcurrentRequests ≤ .finite s.activeRequests)
    (hrate : ¬ s.policy.requestsPerMinute ≤ .finite s.requestTimestamps.length)
    (hroom : ¬ s.policy.tokensPerMinute < .finite (s.reservedTokens + tokens)) :
    (s.grant now tokens).Records now (log ++ [⟨now, tokens⟩]) := by
  -- What is counted is what the window of the request holds.
  have hwindow : recent TokenReservation.timestamp rateWindowMs now log = s.tokenReservations := by
    rw [← h.keeps now (le_refl _), hrecent]
  have hcount : s.requestTimestamps.length = s.tokenReservations.length := by
    rw [h.synced, List.length_map]
  exact {
    synced := by
      show s.requestTimestamps ++ [now] =
        (s.tokenReservations ++ [TokenReservation.mk now tokens]).map TokenReservation.timestamp
      rw [h.synced, List.map_append]
      rfl
    keeps := h.keeps.concat _
    ordered := h.ordered.concat h.past
    past := by
      intro e he
      rcases List.mem_append.mp he with he | he
      · exact h.past e he
      · rw [List.mem_singleton.mp he]
    nonneg := by
      intro e he
      rcases List.mem_append.mp he with he | he
      · exact h.nonneg e he
      · rw [List.mem_singleton.mp he]
        exact htokens
    logged_nonneg := by
      intro e he
      rcases List.mem_append.mp he with he | he
      · exact h.logged_nonneg e he
      · rw [List.mem_singleton.mp he]
        exact htokens
    requests := by
      apply h.requests.concat
      rw [totalWeight_one, hwindow, ← hcount]
      exact Number.unreached_succ hrate
    tokens := by
      apply h.tokens.concat
      rw [hwindow]
      exact hroom
    active := by
      show s.activeRequests + 1 = (openLeases (s.leases ++ [{ released := false }]) : ℕ)
      rw [h.active, openLeases_concat, Nat.cast_succ]
    within := by
      show s.policy.maxConcurrentRequests.Unreached (openLeases (s.leases ++ [{ released := false }]))
      rw [openLeases_concat]
      apply Number.unreached_succ
      rwa [h.active, Int.cast_natCast] at hactive }

/-- Closing a lease keeps the records. -/
theorem Records.close {clock : ℚ} {log : List TokenReservation} (h : s.Records clock log)
    (lease : ℕ) : (s.close lease).Records clock log := by
  unfold AdmissionController.close
  split
  · next hlease =>
    have hclosed := openLeases_set hlease
    have hactive := h.active
    exact {
      h with
      active := by
        show s.activeRequests - 1 = (openLeases (s.leases.set lease { released := true }) : ℕ)
        omega
      within := h.within.of_le (hclosed ▸ Nat.le_succ _) }
  · exact h

/-! ## Retry times -/

/-- Before the given time, when the oldest reservation leaves the window, there is no room for a
request of this size. -/
def Blocks (s : AdmissionController) (tokens later : ℚ) : Prop :=
  ∃ first rest, s.tokenReservations = first :: rest ∧ first.timestamp + rateWindowMs = later ∧
    (s.policy.requestsPerMinute ≤ .finite s.tokenReservations.length ∨
      s.policy.tokensPerMinute < .finite (s.reservedTokens + tokens))

/-- Both lists have the same length. -/
theorem Records.length_eq {clock : ℚ} {log : List TokenReservation} (h : s.Records clock log) :
    s.requestTimestamps.length = s.tokenReservations.length := by
  rw [h.synced, List.length_map]

/-- A time to ask again is when the oldest reservation leaves the window. -/
theorem blocks_of_retryAt {clock tokens later : ℚ} {log : List TokenReservation}
    (h : s.Records clock log) (hretry : s.retryAt tokens = some later) : s.Blocks tokens later := by
  have hcount := h.length_eq
  have hexhausted : s.requestRateExhausted = true ∨ s.tokenRateExhausted tokens = true := by
    by_contra hnone
    rw [not_or, Bool.not_eq_true, Bool.not_eq_true] at hnone
    simp [retryAt, hnone.1, hnone.2] at hretry
  have hblocked : s.policy.requestsPerMinute ≤ .finite s.tokenReservations.length ∨
      s.policy.tokensPerMinute < .finite (s.reservedTokens + tokens) := by
    unfold requestRateExhausted tokenRateExhausted at hexhausted
    rw [decide_eq_true_eq, decide_eq_true_eq, hcount] at hexhausted
    exact hexhausted.imp_right And.right
  unfold retryAt at hretry
  rw [h.synced] at hretry
  cases hlist : s.tokenReservations with
  | nil =>
    rw [hlist] at hretry
    simp at hretry
  | cons first rest =>
    rw [hlist] at hretry
    simp only [List.map_cons, List.head?_cons, Option.map_some, earliestRetryAt] at hretry
    refine ⟨first, rest, hlist, ?_, hblocked⟩
    split_ifs at hretry <;> simpa using hretry

/-- What blocks a request until some time blocks it as long as nothing has left the window. -/
theorem Blocks.pruneExpired {tokens later now : ℚ} (h : s.Blocks tokens later) (hnow : now < later) :
    (s.pruneExpired now).Blocks tokens later := by
  obtain ⟨first, rest, hlist, hlater, hblocked⟩ := h
  have hfirst : ¬ first.timestamp ≤ now - rateWindowMs := by linarith
  have hkept : (s.pruneExpired now).tokenReservations = s.tokenReservations := by
    show prune TokenReservation.timestamp rateWindowMs now s.tokenReservations = _
    unfold prune
    rw [hlist, List.dropWhile_cons_of_neg (by simpa using hfirst)]
  refine ⟨first, rest, hkept.trans hlist, hlater, ?_⟩
  unfold reservedTokens
  rw [hkept]
  exact hblocked

/-- A reservation more blocks no less. -/
theorem Blocks.grant {tokens later now requested : ℚ} (h : s.Blocks tokens later)
    (hrequested : 0 ≤ requested) : (s.grant now requested).Blocks tokens later := by
  obtain ⟨first, rest, hlist, hlater, hblocked⟩ := h
  have hgrown : (s.grant now requested).tokenReservations =
      s.tokenReservations ++ [⟨now, requested⟩] := rfl
  refine ⟨first, rest ++ [⟨now, requested⟩], by rw [hgrown, hlist]; rfl, hlater, ?_⟩
  have hpolicy : (s.grant now requested).policy = s.policy := rfl
  unfold reservedTokens at hblocked ⊢
  rw [hgrown, hpolicy, List.length_append, List.map_append, List.sum_append]
  rcases hblocked with hfull | htokens
  · left
    apply Number.le_trans hfull
    rw [Number.finite_le_finite, Nat.cast_le]
    exact Nat.le_add_right _ _
  · right
    apply Number.lt_of_lt_of_le htokens
    simp only [List.map_cons, List.map_nil, List.sum_cons, List.sum_nil]
    linarith

/-- Closing a lease makes no room in the window. -/
theorem Blocks.close {tokens later : ℚ} (h : s.Blocks tokens later) (lease : ℕ) :
    (s.close lease).Blocks tokens later := by
  unfold AdmissionController.close
  split
  · exact h
  · exact h

/-- A request of the size that is blocked, or of a greater one, is denied. -/
theorem Blocks.denied {clock later tokens : ℚ} {log : List TokenReservation}
    {attempt : AdmissionAttempt} (h : s.Blocks tokens later) (hr : s.Records clock log)
    (htokens : tokens ≤ attempt.estimate.requestedTokens) : s.denialReasons attempt ≠ [] := by
  intro hnil
  obtain ⟨-, -, -, -, hblocked⟩ := h
  obtain ⟨-, hrate, hroom⟩ := denialReasons_eq_nil hnil
  rw [hr.length_eq] at hrate
  rcases hblocked with hfull | hfull
  · exact hrate hfull
  · exact hroom (Number.lt_of_lt_of_le hfull (by linarith))

end AdmissionController

end OsAgent.Scheduler
