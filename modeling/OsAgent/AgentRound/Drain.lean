import OsAgent.AgentContext.Intake
import OsAgent.Library.Loop

/-!
# The drain loop of a round

A round first takes the batch of its run into the context (`execute` in `agent-round/runner.ts`). The inbox
may have less room than the batch needs, so the round receives what there is room for, prepares the context,
which makes room, and repeats that while it helps. Each pass after which the loop goes on accepts a delivery
that was not accepted before, so the loop ends; and it stops short of the whole batch only if a summary is
pending, or the inbox is full with what the active frame does not absorb.
-/

namespace OsAgent.AgentRound

open OsAgent.Library OsAgent.Context

/-- What the loop looks at after a pass. -/
structure Pass where
  inputsReceived : Bool
  checkpoint : ContextCheckpoint

/-- The condition of the loop. -/
def Pass.goesOn (pass : Pass) : Bool :=
  !pass.inputsReceived && pass.checkpoint.pendingSummary.isNone &&
    pass.checkpoint.inbox.length < pass.checkpoint.policy.maxInbox

/-- A pass is followed by another if inputs are left, no summary is pending and the inbox has room. -/
theorem goesOn_iff {pass : Pass} : pass.goesOn = true ↔
    (¬ pass.inputsReceived = true ∧ pass.checkpoint.pendingSummary = none) ∧
      pass.checkpoint.inbox.length < pass.checkpoint.policy.maxInbox := by
  simp [Pass.goesOn]

section Drain

variable (sha256 : String → String) (env : ℕ → Surroundings) (deliveries : List ContextDelivery)

/-- One pass. The calls of a drain are numbered, as each has surroundings of its own. -/
def drainPass (k : ℕ) : Operate Pass := do
  let inputsReceived ← receiveAvailable sha256 (env (2 * k + 1)) deliveries
  let checkpoint ← prepare sha256 (env (2 * k + 2))
  return { inputsReceived, checkpoint }

/-- How `execute` takes in the deliveries of its batch: the first pass, and then the loop. -/
def drain (fuel : ℕ) : Operate (Option Pass) := do
  let _ ← prepare sha256 (env 0)
  let pass ← drainPass sha256 env deliveries 0
  loopWhile Pass.goesOn (fun k _ => drainPass sha256 env deliveries k) fuel 1 pass

/-- In a drain of `s`, the `k`-th pass starts in a session. -/
inductive PassStarts (s : Session) : ℕ → Session → Prop
  | first {checkpoint : ContextCheckpoint} {t : Session}
    (h : prepare sha256 (env 0) s = .ok checkpoint t) : PassStarts s 0 t
  | next {k : ℕ} {t t' : Session} {pass : Pass} (h : PassStarts s k t)
    (hpass : drainPass sha256 env deliveries k t = .ok pass t') (hgoes : pass.goesOn = true) :
    PassStarts s (k + 1) t'

/-! ## One pass -/

/-- A pass accepted one of the deliveries. -/
def AcceptsOne (s s' : Session) : Prop :=
  ∃ d ∈ deliveries, s.store.recorded sha256 d.key = none ∧
    s'.store.recorded sha256 d.key = some (.history d)

/-- What is known after a pass. -/
structure Passed (s : Session) (pass : Pass) (s' : Session) : Prop where
  checkpoint : pass.checkpoint = s'.state
  keeps : Keeps sha256 s s'
  prepared : s'.state.Prepared
  received : pass.inputsReceived = true → ∀ d ∈ deliveries, s'.HasAccepted sha256 d
  accepts : s.state.Prepared → pass.goesOn = true → AcceptsOne sha256 deliveries s s'

variable {sha256 env deliveries}

/-- A session that was prepared and has no room stays without room, if no summary is pending. -/
theorem full_of_prepares {s s' : Session} (h : Prepares sha256 s s') (hprepared : s.state.Prepared)
    (hroom : s.state.room = 0) (hnone : s'.state.pendingSummary = none) : s'.state.room = 0 := by
  obtain ⟨taken, hpre, hdrains⟩ := h.drains
  rcases hprepared with hpending | hidle
  · have hsome := h.pending hpending
    rw [hnone] at hsome
    cases hsome
  · have hnothing : s.state.inbox.filter (·.absorbed s.state.context) = [] := by
      rw [List.filter_eq_nil_iff]
      intro d hd
      simp [hidle d hd]
    rw [hnothing, List.prefix_nil] at hpre
    have hinbox : s'.state.inbox = s.state.inbox := by
      rw [hdrains.inbox, hpre]
      simp
    unfold ContextCheckpoint.room at hroom ⊢
    rw [hinbox, hdrains.policy]
    exact hroom

/-- What a pass does to a session. -/
theorem drainPass_passes (k : ℕ) {s : Session} (hvalid : validateCheckpoint s.state = .ok ()) :
    wp (drainPass sha256 env deliveries k) (Passed sha256 deliveries s) (fun _ => Keeps sha256 s) s := by
  -- The pass receives what fits, and then prepares.
  refine wp_bind_of (receiveAvailable_enters (env (2 * k + 1)) deliveries hvalid) ?_ ?_
  swap
  · rintro _ s' rfl
    exact .refl hvalid
  rintro received t ⟨fresh, hfound, hreceived, henters, hvalid', hsame⟩
  have hkeeps := henters.keeps hvalid'
  rw [wp_bind]
  refine wp_mono (prepare_prepares (env (2 * k + 2)) hvalid') ?_ ?_
  swap
  · rintro _ s' rfl
    exact hkeeps
  rintro checkpoint s' ⟨hcheckpoint, hprepares, hkeeps'⟩
  rw [wp_pure]
  refine ⟨hcheckpoint, hkeeps.trans hkeeps', hprepares.prepared, ?_, ?_⟩
  · intro hall d hd
    exact hkeeps'.hasAccepted (hfound.hasAccepted (hreceived.mp hall) henters hkeeps d hd)
  · intro hprepared hgoes
    -- The loop goes on, so not all inputs were received and no summary is pending.
    obtain ⟨⟨hnot, hnone⟩, hroom⟩ := goesOn_iff.mp hgoes
    simp only [hcheckpoint] at hnone hroom
    have hless : s.state.room < fresh.length := by
      have hsome : ¬ fresh.length ≤ s.state.room := fun hle => hnot (hreceived.mpr hle)
      omega
    -- There was room: an inbox that was full and prepared would be full after the pass, too.
    have hpos : 0 < s.state.room := by
      by_contra hzero
      have hfull : s.state.room = 0 := by omega
      rw [hsame hfull] at hprepares
      have hstill := full_of_prepares hprepares hprepared hfull hnone
      unfold ContextCheckpoint.room at hstill
      omega
    -- So the first of the fresh inputs was accepted in this pass.
    obtain ⟨d, rest, hfresh⟩ := List.exists_cons_of_length_pos (l := fresh) (by omega)
    have hd : d ∈ fresh := by
      rw [hfresh]
      exact List.mem_cons_self
    have htaken : d ∈ fresh.take s.state.room := by
      obtain ⟨n, hn⟩ : ∃ n, s.state.room = n + 1 := ⟨s.state.room - 1, by omega⟩
      rw [hn, hfresh, List.take_succ_cons]
      exact List.mem_cons_self
    exact ⟨d, hfound.mem d hd, hfound.unrecorded d hd,
      recorded_mono hkeeps'.records (henters.recorded htaken)⟩

/-! ## The loop -/

/-- How many of the deliveries have not been accepted. -/
def unaccepted (sha256 : String → String) (deliveries : List ContextDelivery) (s : Session) : ℕ :=
  (deliveries.filter fun d => (s.store.recorded sha256 d.key).isNone).length

/-- With each delivery that is accepted, fewer are left. -/
theorem unaccepted_lt {s s' : Session} (h : Keeps sha256 s s')
    (haccepts : AcceptsOne sha256 deliveries s s') :
    unaccepted sha256 deliveries s' < unaccepted sha256 deliveries s := by
  obtain ⟨d, hd, hnone, hsome⟩ := haccepts
  have hfilter : (deliveries.filter fun d => (s'.store.recorded sha256 d.key).isNone) =
      (deliveries.filter fun d => (s.store.recorded sha256 d.key).isNone).filter
        fun d => (s'.store.recorded sha256 d.key).isNone := by
    rw [List.filter_filter]
    refine List.filter_congr fun d' _ => ?_
    cases hrecorded : s.store.recorded sha256 d'.key with
    | none => simp
    | some record => simp [recorded_mono h.records hrecorded]
  unfold unaccepted
  rw [hfilter, List.length_filter_lt_length_iff_exists]
  refine ⟨d, List.mem_filter.mpr ⟨hd, by rw [hnone]; rfl⟩, ?_⟩
  rw [hsome]
  simp

/-- What holds of a pass and its session as the loop looks at them, in a drain of `s`. -/
structure Looks (sha256 : String → String) (deliveries : List ContextDelivery) (s : Session)
    (pass : Pass) (s' : Session) : Prop where
  checkpoint : pass.checkpoint = s'.state
  keeps : Keeps sha256 s s'
  prepared : s'.state.Prepared
  received : pass.inputsReceived = true → ∀ d ∈ deliveries, s'.HasAccepted sha256 d

/-- What is known after a pass of a drain. -/
theorem Passed.looks {s t s' : Session} {pass : Pass} (h : Passed sha256 deliveries t pass s')
    (hkeeps : Keeps sha256 s t) : Looks sha256 deliveries s pass s' :=
  ⟨h.checkpoint, hkeeps.trans h.keeps, h.prepared, h.received⟩

/-- How a drain ends: with the whole batch, with a pending summary, or with an inbox that is full of what the
active frame does not absorb. -/
structure DrainEnds (sha256 : String → String) (deliveries : List ContextDelivery) (pass : Pass)
    (s : Session) : Prop where
  checkpoint : pass.checkpoint = s.state
  received : pass.inputsReceived = true → ∀ d ∈ deliveries, s.HasAccepted sha256 d
  stops : pass.inputsReceived = true ∨ s.state.pendingSummary.isSome = true ∨
    s.state.policy.maxInbox ≤ s.state.inbox.length ∧
      ∀ d ∈ s.state.inbox, d.absorbed s.state.context = false

/-- A drain ends with a pass that is followed by no other. -/
theorem Looks.ends {s s' : Session} {pass : Pass} (h : Looks sha256 deliveries s pass s')
    (hdone : pass.goesOn = false) : DrainEnds sha256 deliveries pass s' := by
  refine ⟨h.checkpoint, h.received, ?_⟩
  by_cases hreceived : pass.inputsReceived = true
  · exact .inl hreceived
  rcases h.prepared with hpending | hidle
  · exact .inr (.inl hpending)
  · by_cases hnone : s'.state.pendingSummary = none
    · have hfull : ¬ s'.state.inbox.length < s'.state.policy.maxInbox := by
        intro hroom
        rw [← h.checkpoint] at hnone hroom
        rw [goesOn_iff.mpr ⟨⟨hreceived, hnone⟩, hroom⟩] at hdone
        cases hdone
      exact .inr (.inr ⟨Nat.not_lt.mp hfull, hidle⟩)
    · exact .inr (.inl (Option.isSome_iff_ne_none.mpr hnone))

/-- From a pass on, the loop ends in time. -/
theorem loop_stops {fuel k : ℕ} {s t : Session} {pass : Pass}
    (h : Looks sha256 deliveries s pass t) (hfuel : deliveries.length < fuel) :
    wp (loopWhile Pass.goesOn (fun k _ => drainPass sha256 env deliveries k) fuel k pass)
      (fun r s' => ∃ pass', r = some pass' ∧ Looks sha256 deliveries s pass' s' ∧ pass'.goesOn = false)
      (fun _ => Keeps sha256 s) t := by
  refine wp_loopWhile (unaccepted sha256 deliveries) ?_ h fun _ => ?_
  · intro k pass t h _
    refine wp_mono (drainPass_passes k h.keeps.valid) ?_ (fun _ _ hkeeps => h.keeps.trans hkeeps)
    intro pass' t' hpassed
    refine ⟨hpassed.looks h.keeps, fun hgoes => ?_⟩
    exact unaccepted_lt hpassed.keeps (hpassed.accepts h.prepared hgoes)
  · exact Nat.lt_of_le_of_lt (List.length_filter_le _ _) hfuel

/-- The first pass of a drain. -/
theorem first_looks {s : Session} (hvalid : validateCheckpoint s.state = .ok ()) :
    wp (do let _ ← prepare sha256 (env 0); drainPass sha256 env deliveries 0)
      (fun pass s' => Looks sha256 deliveries s pass s') (fun _ => Keeps sha256 s) s := by
  refine wp_bind_of (prepare_prepares (env 0) hvalid) ?_ ?_
  · rintro _ t ⟨-, -, hkeeps⟩
    exact wp_mono (drainPass_passes 0 hkeeps.valid) (fun _ _ hpassed => hpassed.looks hkeeps)
      (fun _ _ hkeeps' => hkeeps.trans hkeeps')
  · rintro _ t rfl
    exact .refl hvalid

/-- A drain is a first pass and a loop of further ones. -/
theorem drain_eq_bind (fuel : ℕ) : drain sha256 env deliveries fuel =
    (do let _ ← prepare sha256 (env 0); drainPass sha256 env deliveries 0) >>=
      loopWhile Pass.goesOn (fun k _ => drainPass sha256 env deliveries k) fuel 1 := by
  simp [drain]

/-- A drain stops after as many passes as there are inputs, and one more at most. -/
theorem drain_stops {fuel : ℕ} (hfuel : deliveries.length < fuel) {s : Session}
    (hvalid : validateCheckpoint s.state = .ok ()) :
    wp (drain sha256 env deliveries fuel)
      (fun r s' => ∃ pass, r = some pass ∧ Keeps sha256 s s' ∧ DrainEnds sha256 deliveries pass s')
      (fun _ => Keeps sha256 s) s := by
  rw [drain_eq_bind]
  refine wp_bind_of (first_looks hvalid) ?_ (fun _ _ h => h)
  intro pass t h
  refine wp_mono (loop_stops h hfuel) ?_ (fun _ _ h => h)
  rintro _ s' ⟨pass', rfl, hlooks, hdone⟩
  exact ⟨pass', rfl, hlooks.keeps, hlooks.ends hdone⟩

/-- More passes than there are deliveries change nothing. -/
theorem drain_eq {fuel : ℕ} (hfuel : deliveries.length < fuel) {s : Session}
    (hvalid : validateCheckpoint s.state = .ok ()) :
    drain sha256 env deliveries fuel s = drain sha256 env deliveries (deliveries.length + 1) s := by
  have hfirst : wp _ _ _ s := @first_looks sha256 env deliveries s hvalid
  rw [drain_eq_bind, drain_eq_bind]
  show EStateM.bind _ _ s = EStateM.bind _ _ s
  unfold EStateM.bind
  split
  · rename_i pass t hrun
    have hlooks := wp_ok hfirst hrun
    refine loopWhile_eq hfuel (wp_mono (loop_stops hlooks (Nat.lt_succ_self _)) ?_ (fun _ _ _ => trivial))
    rintro _ _ ⟨pass', rfl, -⟩
    rfl
  · rfl

/-- Where a pass starts the drain has kept what there was. -/
theorem PassStarts.keeps {s t : Session} {k : ℕ} (h : PassStarts sha256 env deliveries s k t)
    (hvalid : validateCheckpoint s.state = .ok ()) : Keeps sha256 s t ∧ t.state.Prepared := by
  induction h with
  | first h =>
    obtain ⟨-, hprepares, hkeeps⟩ := wp_ok (prepare_prepares (env 0) hvalid) h
    exact ⟨hkeeps, hprepares.prepared⟩
  | next _ hpass _ ih =>
    have hpassed := wp_ok (drainPass_passes _ ih.1.valid) hpass
    exact ⟨ih.1.trans hpassed.keeps, hpassed.prepared⟩

/-- The drain loop ends. It never needs more passes than there are deliveries, and one more; it loses nothing,
whether it returns or throws; each of its passes ends it or accepts a delivery that was not accepted before;
and it ends with the whole batch, with a pending summary, or with an inbox that is full of what the active
frame does not absorb. -/
theorem drain_ends (sha256 : String → String) (env : ℕ → Surroundings)
    (deliveries : List ContextDelivery) {s : Session}
    (hvalid : validateCheckpoint s.state = .ok ()) :
    (∀ fuel, deliveries.length < fuel →
      drain sha256 env deliveries fuel s = drain sha256 env deliveries (deliveries.length + 1) s) ∧
    wp (drain sha256 env deliveries (deliveries.length + 1))
      (fun r s' => ∃ pass, r = some pass ∧ Keeps sha256 s s' ∧ DrainEnds sha256 deliveries pass s')
      (fun _ => Keeps sha256 s) s ∧
    ∀ k t, PassStarts sha256 env deliveries s k t →
      wp (drainPass sha256 env deliveries k)
        (fun pass t' => Keeps sha256 s t' ∧
          (pass.goesOn = false ∨ AcceptsOne sha256 deliveries t t'))
        (fun _ => Keeps sha256 s) t := by
  refine ⟨fun fuel hfuel => drain_eq hfuel hvalid, drain_stops (Nat.lt_succ_self _) hvalid, ?_⟩
  intro k t hstarts
  obtain ⟨hkeeps, hprepared⟩ := hstarts.keeps hvalid
  refine wp_mono (drainPass_passes k hkeeps.valid) ?_ (fun _ _ hkeeps' => hkeeps.trans hkeeps')
  intro pass t' hpassed
  refine ⟨hkeeps.trans hpassed.keeps, ?_⟩
  cases hgoes : pass.goesOn with
  | false => exact .inl rfl
  | true => exact .inr (hpassed.accepts hprepared hgoes)

end Drain

/-! ## A batch of two -/

section Witness

/-- A manager whose inbox has room for one delivery. -/
def narrowOptions : ContextManagerOptions where
  key := "agent"
  instructions := []
  objective := "serve"
  policy := ⟨fun _ => ⟨2000, 1500, 1000, 5⟩, 1, 1, 1000⟩
  initiallyIdle := true

/-- A delivery of one message, under a key. -/
def messageDelivery (key : String) : ContextDelivery :=
  ⟨key, [⟨key, 0, .message .user "hello" none⟩], none⟩

/-- Two messages of the user. -/
def twoMessages : List ContextDelivery := [messageDelivery "event:1", messageDelivery "event:2"]

/-- Surroundings in which nothing fails. -/
def calm (k : ℕ) : Surroundings := ⟨fun n => toString k ++ "." ++ toString n, fun _ => none⟩

/-- Whether the manager takes in both messages. -/
def takesBoth : Bool :=
  match createAgentContextManager (calm 0) narrowOptions .empty with
  | .error _ => false
  | .ok s =>
    match drain id calm twoMessages 3 s with
    | .ok (some pass) _ => pass.inputsReceived
    | _ => false

/-- The manager takes in both messages, one after the other. -/
theorem drain_ends_twoMessages : ∃ s pass s',
    createAgentContextManager (calm 0) narrowOptions .empty = .ok s ∧
      drain id calm twoMessages 3 s = .ok (some pass) s' ∧
        s'.HasAccepted id (messageDelivery "event:1") ∧
          s'.HasAccepted id (messageDelivery "event:2") := by
  have hboth : takesBoth = true := by decide +kernel
  unfold takesBoth at hboth
  cases hcreated : createAgentContextManager (calm 0) narrowOptions .empty with
  | error e => simp [hcreated] at hboth
  | ok s =>
    have hdurable := durable_created hcreated
    have hends := (drain_ends id calm twoMessages hdurable.valid).2.1
    cases hdrain : drain id calm twoMessages 3 s with
    | error e s' => simp [hcreated, hdrain] at hboth
    | ok r s' =>
      obtain ⟨pass, rfl, -, hlast⟩ := wp_ok hends hdrain
      have hreceived : pass.inputsReceived = true := by simpa [hcreated, hdrain] using hboth
      have haccepted := hlast.received hreceived
      exact ⟨s, pass, s', rfl, hdrain, haccepted _ (by simp [twoMessages]),
        haccepted _ (by simp [twoMessages])⟩

end Witness

end OsAgent.AgentRound
