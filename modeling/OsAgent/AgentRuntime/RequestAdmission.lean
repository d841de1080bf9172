import OsAgent.Scheduler.AdmissionRuns

/-!
# The admission of the runtime's requests

The runtime admits model requests by a class of its own (`agent-runtime/internal/limits.ts`). It keeps
the reservations of the last minute in the store, and the number of running requests in memory. Where
the scheduler's controller answers with a decision, this one throws, and what it throws says when to
come back. A process that starts again finds the reservations, and no running request.

Both keep enough of the log of what they admitted for the same argument
(`Library/SlidingWindow.lean`), and `admissions_bounded` says the same of both. The runtime checks that
its limits are whole numbers. The scheduler's controller does not, and `not_bounded_crowdedRun` is a run
of three requests under a limit of two and a half.
-/

namespace OsAgent.AgentRuntime

open OsAgent.Library OsAgent.Scheduler

/-- What the class reads of the runtime's limits. The runtime refuses a limit that is not a whole
number. -/
structure AdmissionLimits where
  maxConcurrentRequests : ℕ
  requestsPerMinute : ℕ
  tokensPerMinute : ℕ
deriving DecidableEq, Repr

/-- An item of the metadata `admission`. -/
structure Reservation where
  /-- The field `at`. -/
  atTime : ℚ
  tokens : ℚ
deriving DecidableEq, Repr

/-- What `acquire` throws. -/
inductive AdmissionError where
  /-- A `RuntimeFault` of the kind `budget`. -/
  | budgetFault (message : String)
  | admissionWait (resumeAt : ℚ)
deriving DecidableEq, Repr

/-- The class, with the metadata `admission` of its store. -/
structure RequestAdmission where
  limits : AdmissionLimits
  metadata : Option (List Reservation) := none
  active : ℤ := 0
deriving DecidableEq, Repr

namespace RequestAdmission

variable (s : RequestAdmission)

/-- The reservations that are still in the window. -/
def reservations (now : ℚ) : List Reservation :=
  recent Reservation.atTime rateWindowMs now (s.metadata.getD [])

/-- The state when a request has been admitted. -/
def reserve (now tokens : ℚ) : RequestAdmission :=
  { s with
    metadata := some (s.reservations now ++ [{ atTime := now, tokens }])
    active := s.active + 1 }

/-- Admits a request, or says when to try again. -/
def acquire (now tokens : ℚ) : Except AdmissionError RequestAdmission :=
  let reservations := s.reservations now
  if s.limits.tokensPerMinute < tokens then
    .error (.budgetFault "单次请求超过每分钟 Token 配额。")
  else if s.limits.maxConcurrentRequests ≤ s.active then .error (.admissionWait (now + 100))
  else if s.limits.requestsPerMinute ≤ reservations.length ∨
      s.limits.tokensPerMinute < (reservations.map Reservation.tokens).sum + tokens then
    .error (.admissionWait ((reservations.head?.map Reservation.atTime).getD now + 60001))
  else .ok (s.reserve now tokens)

/-- The function that `acquire` returns. -/
def release : RequestAdmission := { s with active := s.active - 1 }

/-- A new process has the same store. -/
def restart : RequestAdmission := { s with active := 0 }

/-- The state after an attempt: an error leaves it as it was. -/
def attempted (now tokens : ℚ) : RequestAdmission :=
  match s.acquire now tokens with
  | .ok s' => s'
  | .error _ => s

end RequestAdmission

/-- What the runtime calls. -/
inductive RequestCall where
  | acquire (now tokens : ℚ)
  | release
deriving DecidableEq, Repr

/-- What was thrown at the attempts among some calls, one after the other. -/
def RequestAdmission.decisions (s : RequestAdmission) :
    List RequestCall → List (Option AdmissionError)
  | [] => []
  | .acquire now tokens :: calls =>
    (match s.acquire now tokens with
      | .ok _ => none
      | .error e => some e) :: (s.attempted now tokens).decisions calls
  | .release :: calls => s.release.decisions calls

/-- A run: the latest reading of the clock, what was admitted, and the requests that are running, by
their place among those that were admitted. -/
structure RequestRun where
  admission : RequestAdmission
  clock : ℚ
  admissions : List Reservation := []
  running : List ℕ := []
deriving DecidableEq, Repr

namespace RequestRun

/-- The run after a request was admitted. -/
def acquired (r : RequestRun) (admission : RequestAdmission) (now tokens : ℚ) : RequestRun where
  admission
  clock := now
  admissions := r.admissions ++ [{ atTime := now, tokens }]
  running := r.running ++ [r.admissions.length]

/-- The run after a request was refused. -/
def refused (r : RequestRun) (now : ℚ) : RequestRun := { r with clock := now }

/-- The run after a request has ended. -/
def released (r : RequestRun) (request : ℕ) : RequestRun :=
  { r with admission := r.admission.release, running := r.running.erase request }

/-- The run after a restart. -/
def restarted (r : RequestRun) : RequestRun :=
  { r with admission := r.admission.restart, running := [] }

/-- The clock does not go back, no request asks for a negative number of tokens, and each request that
was admitted is released once. -/
inductive Step : RequestRun → RequestRun → Prop
  | acquire {r : RequestRun} {s' : RequestAdmission} (now tokens : ℚ) (hclock : r.clock ≤ now)
      (htokens : 0 ≤ tokens) (hacquire : r.admission.acquire now tokens = .ok s') :
      Step r (r.acquired s' now tokens)
  | refuse {r : RequestRun} {e : AdmissionError} (now tokens : ℚ) (hclock : r.clock ≤ now)
      (htokens : 0 ≤ tokens) (hacquire : r.admission.acquire now tokens = .error e) :
      Step r (r.refused now)
  | release {r : RequestRun} (request : ℕ) (hrunning : request ∈ r.running) :
      Step r (r.released request)
  | restart {r : RequestRun} : Step r r.restarted

end RequestRun

/-- The runs of a new runtime. -/
def requestSystem (limits : AdmissionLimits) : TransitionSystem RequestRun where
  init r := r.admission = { limits } ∧ r.admissions = [] ∧ r.running = []
  step := RequestRun.Step

namespace RequestRun

variable {limits : AdmissionLimits} {r : RequestRun}

/-- What holds of a run under these limits. -/
structure Bounded (limits : AdmissionLimits) (r : RequestRun) : Prop where
  requests : WindowBounded Reservation.atTime rateWindowMs (fun _ => 1)
    (fun count => count ≤ limits.requestsPerMinute) r.admissions
  tokens : WindowBounded Reservation.atTime rateWindowMs Reservation.tokens
    (fun total => total ≤ (limits.tokensPerMinute : ℚ)) r.admissions
  /-- The active requests are those that were admitted and not released. -/
  active : r.admission.active = r.running.length
  within : r.running.length ≤ limits.maxConcurrentRequests
  /-- An attempt at which something would be thrown changes nothing later. -/
  silent : ∀ now tokens e, r.admission.acquire now tokens = .error e →
    ∀ calls, (r.admission.attempted now tokens).decisions calls = r.admission.decisions calls

/-- The invariant of the runs. -/
structure Valid (limits : AdmissionLimits) (r : RequestRun) : Prop where
  limits_eq : r.admission.limits = limits
  /-- The store keeps what is in the windows from now on. -/
  keeps : Keeps Reservation.atTime rateWindowMs r.clock (r.admission.metadata.getD []) r.admissions
  nonneg : ∀ e ∈ r.admissions, 0 ≤ e.tokens
  requests : Roomy Reservation.atTime rateWindowMs (fun _ => 1)
    (fun count => count ≤ limits.requestsPerMinute) r.admissions
  tokens : Roomy Reservation.atTime rateWindowMs Reservation.tokens
    (fun total => total ≤ (limits.tokensPerMinute : ℚ)) r.admissions
  active : r.admission.active = r.running.length
  within : r.running.length ≤ limits.maxConcurrentRequests

/-- A request is admitted if the limits leave room for it. -/
theorem room_of_acquire {s s' : RequestAdmission} {now tokens : ℚ}
    (h : s.acquire now tokens = .ok s') :
    s' = s.reserve now tokens ∧ s.active < s.limits.maxConcurrentRequests ∧
      (s.reservations now).length < s.limits.requestsPerMinute ∧
      ((s.reservations now).map Reservation.tokens).sum + tokens ≤ s.limits.tokensPerMinute := by
  unfold RequestAdmission.acquire at h
  dsimp only at h
  split_ifs at h with hfits hactive hrate
  rw [not_or, not_le, not_lt] at hrate
  exact ⟨(Except.ok.inj h).symm, not_le.mp hactive, hrate.1, hrate.2⟩

/-- The process that starts finds the empty log. -/
theorem Valid.of_init (h : (requestSystem limits).init r) : r.Valid limits := by
  obtain ⟨hadmission, hlog, hrunning⟩ := h
  exact {
    limits_eq := by rw [hadmission]
    keeps := by
      rw [hadmission, hlog]
      exact Keeps.refl r.clock []
    nonneg := by simp [hlog]
    requests := by
      rw [hlog]
      exact Roomy.nil
    tokens := by
      rw [hlog]
      exact Roomy.nil
    active := by rw [hadmission, hrunning]; rfl
    within := by simp [hrunning] }

/-- An admitted request keeps the invariant. -/
theorem Valid.acquired (h : r.Valid limits) {s' : RequestAdmission} {now tokens : ℚ}
    (hclock : r.clock ≤ now) (htokens : 0 ≤ tokens)
    (hacquire : r.admission.acquire now tokens = .ok s') :
    (r.acquired s' now tokens).Valid limits := by
  obtain ⟨rfl, hactive, hrate, hroom⟩ := room_of_acquire hacquire
  rw [h.limits_eq] at hactive hrate hroom
  have hrunning := h.active
  -- What is counted is what the window of the request holds.
  have hwindow : recent Reservation.atTime rateWindowMs now r.admissions =
      r.admission.reservations now := (h.keeps now hclock).symm
  exact {
    limits_eq := h.limits_eq
    keeps := (h.keeps.recent hclock).concat _
    nonneg := by
      intro e he
      rcases List.mem_append.mp he with he | he
      · exact h.nonneg e he
      · rw [List.mem_singleton.mp he]
        exact htokens
    requests := by
      apply h.requests.concat
      rw [totalWeight_one, hwindow]
      exact hrate
    tokens := by
      apply h.tokens.concat
      rw [hwindow]
      exact hroom
    active := by
      show r.admission.active + 1 = ((r.running ++ [r.admissions.length]).length : ℕ)
      rw [List.length_append, List.length_singleton]
      omega
    within := by
      show (r.running ++ [r.admissions.length]).length ≤ limits.maxConcurrentRequests
      rw [List.length_append, List.length_singleton]
      omega }

/-- Every step keeps the invariant. -/
theorem Valid.step {r' : RequestRun} (h : r.Valid limits) (hstep : Step r r') : r'.Valid limits := by
  cases hstep with
  | acquire now tokens hclock htokens hacquire => exact h.acquired hclock htokens hacquire
  | refuse now tokens hclock htokens hacquire =>
    exact { h with keeps := fun later hlater => h.keeps later (hclock.trans hlater) }
  | release request hrunning =>
    have hlength := List.length_erase_of_mem hrunning
    have hpos := List.length_pos_of_mem hrunning
    have hactive := h.active
    have hwithin := h.within
    exact {
      h with
      active := by
        show r.admission.active - 1 = ((r.running.erase request).length : ℕ)
        omega
      within := by
        show (r.running.erase request).length ≤ limits.maxConcurrentRequests
        omega }
  | restart =>
    exact {
      h with
      active := rfl
      within := Nat.zero_le _ }

/-- The invariant says what the class is for. -/
theorem Valid.bounded (h : r.Valid limits) : r.Bounded limits where
  requests := h.requests.windowBounded (fun _ _ => Nat.zero_le _)
    (fun _ _ hle hb => hle.trans hb) (Nat.zero_le _)
  tokens := h.tokens.windowBounded h.nonneg (fun _ _ hle hb => hle.trans hb) (Nat.cast_nonneg _)
  active := h.active
  within := h.within
  silent := by
    intro now tokens e herror calls
    have hsame : r.admission.attempted now tokens = r.admission := by
      unfold RequestAdmission.attempted
      rw [herror]
    rw [hsame]

end RequestRun

end OsAgent.AgentRuntime
