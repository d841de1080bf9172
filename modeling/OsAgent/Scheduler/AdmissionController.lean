import OsAgent.Library.Check
import OsAgent.Library.Number
import OsAgent.Library.SlidingWindow
import OsAgent.Library.Transition

/-!
# The admission controller

Before a model request the scheduler asks for a lease (`scheduler/admission-controller.ts`). The
controller counts the leases that have not been closed, and keeps the times and the tokens of the
requests of the last minute. It returns every reason for which it denies a request, and the time from
which it may be worth to ask again. Times and tokens are exact numbers. The limits, the costs and the
budgets are whatever has the type of a number: the constructor refuses a limit only if it is zero or
negative.

A run is a sequence of attempts and of closings of leases under a clock that does not go back.
-/

namespace OsAgent.Scheduler

open OsAgent.Library

/-- `RATE_WINDOW_MS`. -/
def rateWindowMs : ℚ := 60000

/-- The limits of a controller. -/
structure AdmissionPolicy where
  maxConcurrentRequests : Number
  requestsPerMinute : Number
  tokensPerMinute : Number
deriving DecidableEq, Repr

/-- Why a request is not admitted. -/
inductive AdmissionDenialReason where
  | budgetExceeded
  | concurrencyExhausted
  | requestTokenLimitExceeded
  | requestRateExhausted
  | tokenRateExhausted
deriving DecidableEq, Repr

/-- What the provider estimates of a request. -/
structure ModelRequestEstimate where
  inputTokens : ℚ
  maxOutputTokens : ℚ
  estimatedCostUsd : Number
deriving DecidableEq, Repr

/-- The tokens of a request that was admitted. -/
structure TokenReservation where
  timestamp : ℚ
  tokens : ℚ
deriving DecidableEq, Repr

/-- The lease of a request that was admitted. -/
structure AdmissionLease where
  released : Bool := false
deriving DecidableEq, Repr

/-- The number of leases that have not been closed. -/
def openLeases (leases : List AdmissionLease) : ℕ := leases.countP fun lease => !lease.released

/-- A lease is named by its index in the list of those that were handed out. -/
inductive AdmissionDecision where
  | admitted (lease : ℕ)
  | denied (reasons : List AdmissionDenialReason) (retryable : Bool) (retryAt : Option ℚ)
deriving DecidableEq, Repr

/-- The controller, with the leases that it has handed out, oldest first. -/
structure AdmissionController where
  policy : AdmissionPolicy
  requestTimestamps : List ℚ := []
  tokenReservations : List TokenReservation := []
  activeRequests : ℤ := 0
  peakActiveRequests : ℤ := 0
  leases : List AdmissionLease := []
deriving DecidableEq, Repr

/-- A call of `tryAcquire`, with what the clock shows. -/
structure AdmissionAttempt where
  now : ℚ
  estimate : ModelRequestEstimate
  remainingBudgetUsd : Number
deriving DecidableEq, Repr

/-- The tokens that a request would reserve. -/
def ModelRequestEstimate.requestedTokens (estimate : ModelRequestEstimate) : ℚ :=
  estimate.inputTokens + estimate.maxOutputTokens

/-- The earlier of two times to try again. -/
def earliestRetryAt (current : Option ℚ) (candidate : ℚ) : ℚ :=
  match current with
  | none => candidate
  | some current => min current candidate

/-- The time from which the decision says that it may be worth to ask again. -/
def AdmissionDecision.retryAt? : AdmissionDecision → Option ℚ
  | .admitted _ => none
  | .denied _ _ retryAt => retryAt

/-- Whether a decision admits. -/
def AdmissionDecision.isAdmitted : AdmissionDecision → Bool
  | .admitted _ => true
  | .denied .. => false

namespace AdmissionController

/-- The constructor. -/
def create (policy : AdmissionPolicy) : Except String AdmissionController := do
  require (¬(policy.maxConcurrentRequests ≤ .finite 0 ∨ policy.requestsPerMinute ≤ .finite 0 ∨
      policy.tokensPerMinute ≤ .finite 0))
    "All admission limits must be greater than zero."
  pure { policy }

variable (s : AdmissionController)

/-- Drops what has left the window. -/
def pruneExpired (now : ℚ) : AdmissionController :=
  { s with
    requestTimestamps := prune id rateWindowMs now s.requestTimestamps
    tokenReservations := prune TokenReservation.timestamp rateWindowMs now s.tokenReservations }

/-- The tokens that count at present. -/
def reservedTokens : ℚ := (s.tokenReservations.map TokenReservation.tokens).sum

/-- Whether as many requests were admitted as may be in a minute. -/
def requestRateExhausted : Bool :=
  s.policy.requestsPerMinute ≤ .finite s.requestTimestamps.length

/-- The tokens would fit into a minute, and do not fit into this one. -/
def tokenRateExhausted (requestedTokens : ℚ) : Bool :=
  ¬s.policy.tokensPerMinute < .finite requestedTokens ∧
    s.policy.tokensPerMinute < .finite (s.reservedTokens + requestedTokens)

/-- The reasons to deny a request, in the order in which they are checked. -/
def denialReasons (attempt : AdmissionAttempt) : List AdmissionDenialReason :=
  let requestedTokens := attempt.estimate.requestedTokens
  (if attempt.remainingBudgetUsd < attempt.estimate.estimatedCostUsd then [.budgetExceeded]
    else []) ++
  (if s.policy.maxConcurrentRequests ≤ .finite s.activeRequests then [.concurrencyExhausted]
    else []) ++
  (if s.requestRateExhausted then [.requestRateExhausted] else []) ++
  (if s.policy.tokensPerMinute < .finite requestedTokens then [.requestTokenLimitExceeded]
    else if s.tokenRateExhausted requestedTokens then [.tokenRateExhausted] else [])

/-- The earliest time at which something that stands in the way leaves the window. -/
def retryAt (requestedTokens : ℚ) : Option ℚ :=
  let requests : Option ℚ :=
    if s.requestRateExhausted then
      s.requestTimestamps.head?.map fun first => earliestRetryAt none (first + rateWindowMs)
    else none
  if s.tokenRateExhausted requestedTokens then
    match s.tokenReservations.head? with
    | some first => some (earliestRetryAt requests (first.timestamp + rateWindowMs))
    | none => requests
  else requests

/-- Writes an admitted request, and hands out its lease. -/
def grant (now requestedTokens : ℚ) : AdmissionController :=
  { s with
    activeRequests := s.activeRequests + 1
    peakActiveRequests := max s.peakActiveRequests (s.activeRequests + 1)
    requestTimestamps := s.requestTimestamps ++ [now]
    tokenReservations := s.tokenReservations ++ [{ timestamp := now, tokens := requestedTokens }]
    leases := s.leases ++ [{}] }

/-- Admits a request, or says why not and when to try again. -/
def tryAcquire (attempt : AdmissionAttempt) : AdmissionDecision × AdmissionController :=
  let s := s.pruneExpired attempt.now
  let reasons := s.denialReasons attempt
  if 0 < reasons.length then
    (.denied reasons (.budgetExceeded ∉ reasons ∧ .requestTokenLimitExceeded ∉ reasons)
      (s.retryAt attempt.estimate.requestedTokens), s)
  else (.admitted s.leases.length, s.grant attempt.now attempt.estimate.requestedTokens)

/-- `AdmissionLease.close`, on the lease with this index. -/
def close (lease : ℕ) : AdmissionController :=
  match s.leases[lease]? with
  | some { released := false } =>
    { s with
      leases := s.leases.set lease { released := true }
      activeRequests := s.activeRequests - 1 }
  | _ => s

end AdmissionController

/-- What the scheduler calls: an attempt, or the closing of a lease. -/
inductive AdmissionCall where
  | tryAcquire (attempt : AdmissionAttempt)
  | close (lease : ℕ)
deriving DecidableEq, Repr

/-- The decisions on the attempts among some calls, one after the other. -/
def AdmissionController.decisions (s : AdmissionController) :
    List AdmissionCall → List AdmissionDecision
  | [] => []
  | .tryAcquire attempt :: calls =>
    (s.tryAcquire attempt).1 :: (s.tryAcquire attempt).2.decisions calls
  | .close lease :: calls => (s.close lease).decisions calls

/-- A run of the controller: the latest reading of the clock, and every attempt with its decision. -/
structure AdmissionRun where
  controller : AdmissionController
  clock : ℚ
  attempts : List (AdmissionAttempt × AdmissionDecision) := []
deriving DecidableEq, Repr

namespace AdmissionRun

/-- The run after an attempt. -/
def tryAcquire (r : AdmissionRun) (attempt : AdmissionAttempt) : AdmissionRun where
  controller := (r.controller.tryAcquire attempt).2
  clock := attempt.now
  attempts := r.attempts ++ [(attempt, (r.controller.tryAcquire attempt).1)]

/-- The run after a lease was closed. -/
def close (r : AdmissionRun) (lease : ℕ) : AdmissionRun :=
  { r with controller := r.controller.close lease }

/-- What the admitted requests reserved, in their order. -/
def admissions (r : AdmissionRun) : List TokenReservation :=
  r.attempts.filterMap fun (attempt, decision) =>
    if decision.isAdmitted then some ⟨attempt.now, attempt.estimate.requestedTokens⟩ else none

/-- The number of the admitted requests whose lease has not been closed. -/
def unreleased (r : AdmissionRun) : ℕ := openLeases r.controller.leases

/-- The clock does not go back, and no request asks for a negative number of tokens. -/
inductive Step : AdmissionRun → AdmissionRun → Prop
  | tryAcquire {r : AdmissionRun} (attempt : AdmissionAttempt) (hclock : r.clock ≤ attempt.now)
      (htokens : 0 ≤ attempt.estimate.requestedTokens) : Step r (r.tryAcquire attempt)
  | close {r : AdmissionRun} (lease : ℕ) : Step r (r.close lease)

end AdmissionRun

/-- The runs of a new controller. -/
def admissionSystem (policy : AdmissionPolicy) : TransitionSystem AdmissionRun where
  init r := AdmissionController.create policy = .ok r.controller ∧ r.attempts = []
  step := AdmissionRun.Step

end OsAgent.Scheduler
