import OsAgent.AgentContext.Contents
import OsAgent.AgentContext.Moves

/-!
# Accepting deliveries

A delivery is recorded under its key when it is accepted, and it is new exactly if nothing is recorded
under its key. `Found` says which of the deliveries of a call are found new; the others have been
accepted before with the same content, or the call throws.
-/

namespace OsAgent.Context

open OsAgent.Library

section Acceptance

variable (sha256 : String → String)

/-- What a store has recorded under the key of a delivery. -/
def Namespace.recorded (store : Namespace) (key : String) : Option ContextRecord :=
  (store.records.get? (deliveryRef sha256 key)).map ContextStoreWrite.record

variable {sha256} in
/-- What is recorded under a key is one of the records. -/
theorem exists_of_recorded {store : Namespace} {key : String} {record : ContextRecord}
    (h : store.recorded sha256 key = some record) :
    ∃ write ∈ store.records.entries, write.ref = deliveryRef sha256 key ∧ write.record = record := by
  obtain ⟨write, hget, hrecord⟩ := Option.map_eq_some_iff.mp h
  exact ⟨write, OrderedMap.mem_of_get? hget, OrderedMap.key_of_get? hget, hrecord⟩

variable {sha256} in
/-- A record of a key is what is recorded under it. -/
theorem recorded_of_mem {store : Namespace} {key : String} {write : ContextStoreWrite}
    (h : write ∈ store.records.entries) (href : write.ref = deliveryRef sha256 key) :
    store.recorded sha256 key = some write.record := by
  rw [Namespace.recorded, ← href, OrderedMap.get?_of_mem h, Option.map_some]

variable {sha256} in
/-- What was recorded stays recorded while records are only added. -/
theorem recorded_mono {store store' : Namespace}
    (hrecords : store.records.entries <+: store'.records.entries) {key : String}
    {record : ContextRecord} (h : store.recorded sha256 key = some record) :
    store'.recorded sha256 key = some record := by
  obtain ⟨write, hmem, href, hrecord⟩ := exists_of_recorded h
  rw [← hrecord]
  exact recorded_of_mem (hrecords.subset hmem) href

/-- The deliveries of a call that were found new. -/
structure Found (s : Session) (deliveries fresh : List ContextDelivery) : Prop where
  mem : ∀ d ∈ fresh, d ∈ deliveries
  valid : ∀ d ∈ fresh, validateDelivery d = .ok ()
  fits : ∀ d ∈ fresh, byteLength (stringify d.toJson) ≤ s.state.policy.maxDeliveryBytes
  keys : (fresh.map ContextDelivery.key).Nodup
  unrecorded : ∀ d ∈ fresh, s.store.recorded sha256 d.key = none
  same : ∀ d ∈ deliveries, (∃ d' ∈ fresh, d'.key = d.key ∧ sameDelivery d' d = true) ∨
    ∃ recorded, s.store.recorded sha256 d.key = some (.history recorded) ∧
      sameDelivery recorded d = true

/-- Of no deliveries none is new. -/
theorem Found.nil (s : Session) : Found sha256 s [] [] :=
  ⟨fun _ h => (by cases h), fun _ h => (by cases h), fun _ h => (by cases h), .nil,
    fun _ h => (by cases h), fun _ h => (by cases h)⟩

/-- A delivery that was accepted before, or that is one of the new ones. -/
theorem Found.old {s : Session} {deliveries fresh : List ContextDelivery} {delivery : ContextDelivery}
    (h : Found sha256 s deliveries fresh)
    (hsame : (∃ d' ∈ fresh, d'.key = delivery.key ∧ sameDelivery d' delivery = true) ∨
      ∃ recorded, s.store.recorded sha256 delivery.key = some (.history recorded) ∧
        sameDelivery recorded delivery = true) :
    Found sha256 s (deliveries ++ [delivery]) fresh where
  mem d hd := List.mem_append_left _ (h.mem d hd)
  valid := h.valid
  fits := h.fits
  keys := h.keys
  unrecorded := h.unrecorded
  same d hd := by
    rcases List.mem_append.mp hd with hold | hnew
    · exact h.same d hold
    · rwa [List.mem_singleton.mp hnew]

/-- A delivery that is found new. -/
theorem Found.new {s : Session} {deliveries fresh : List ContextDelivery} {delivery : ContextDelivery}
    (h : Found sha256 s deliveries fresh) (hvalid : validateDelivery delivery = .ok ())
    (hfits : byteLength (stringify delivery.toJson) ≤ s.state.policy.maxDeliveryBytes)
    (hkey : ∀ d ∈ fresh, d.key ≠ delivery.key)
    (hnone : s.store.recorded sha256 delivery.key = none) :
    Found sha256 s (deliveries ++ [delivery]) (fresh ++ [delivery]) where
  mem d hd := by
    -- The new delivery comes last, and every property is that of the old ones or its own.
    rcases List.mem_append.mp hd with hold | hnew
    · exact List.mem_append_left _ (h.mem d hold)
    · exact List.mem_append_right _ hnew
  valid d hd := by
    rcases List.mem_append.mp hd with hold | hnew
    · exact h.valid d hold
    · rwa [List.mem_singleton.mp hnew]
  fits d hd := by
    rcases List.mem_append.mp hd with hold | hnew
    · exact h.fits d hold
    · rwa [List.mem_singleton.mp hnew]
  keys := by
    rw [List.map_append, List.nodup_append]
    refine ⟨h.keys, List.nodup_singleton _, ?_⟩
    intro key hold key' hnew
    obtain ⟨d, hd, rfl⟩ := List.mem_map.mp hold
    rw [List.map_singleton, List.mem_singleton] at hnew
    rw [hnew]
    exact hkey d hd
  unrecorded d hd := by
    rcases List.mem_append.mp hd with hold | hnew
    · exact h.unrecorded d hold
    · rwa [List.mem_singleton.mp hnew]
  same d hd := by
    rcases List.mem_append.mp hd with hold | hnew
    · rcases h.same d hold with ⟨d', hd', hsame⟩ | hsame
      · exact .inl ⟨d', List.mem_append_left _ hd', hsame⟩
      · exact .inr hsame
    · rw [List.mem_singleton.mp hnew]
      exact .inl ⟨delivery, List.mem_append_right _ (List.mem_singleton.mpr rfl), rfl,
        by simp [sameDelivery]⟩

/-- Reading leaves the session, and gives what is recorded. -/
theorem read_returns (env : Surroundings) (ref : String) (s : Session) :
    wp (read env ref)
      (fun r s' => s' = s ∧ r = (s.store.records.get? ref).map ContextStoreWrite.record)
      (fun _ s' => s' = s) s := by
  simp [read]

/-- The loop over the deliveries finds the new ones. -/
theorem freshDeliveries_found (env : Surroundings) (s : Session) (deliveries : List ContextDelivery)
    {done fresh : List ContextDelivery} (h : Found sha256 s done fresh) :
    wp (freshDeliveries sha256 env fresh deliveries)
      (fun fresh' s' => s' = s ∧ Found sha256 s (done ++ deliveries) fresh') (fun _ s' => s' = s)
      s := by
  -- Along the deliveries, with those that are done and those found to be new.
  induction deliveries generalizing done fresh with
  | nil =>
    rw [List.append_nil]
    exact ⟨rfl, h⟩
  | cons delivery deliveries ih =>
    have happ : done ++ delivery :: deliveries = (done ++ [delivery]) ++ deliveries := by simp
    rw [happ]
    simp only [freshDeliveries, wp_bind, wp_lift, wp_get, requireContext_eq_ok, implies_true,
      and_true]
    intro _ hvalid _ hfits
    refine wp_mono (read_returns env _ s) ?_ (fun _ _ h => h)
    rintro previous s ⟨rfl, hprevious⟩
    have hrecorded : s.store.recorded sha256 delivery.key = previous := hprevious.symm
    split
    · -- A delivery that is offered twice: it must be the same.
      rename_i _ duplicate hduplicate
      simp only [wp_bind, wp_lift, requireContext_eq_ok, implies_true, and_true]
      intro _ hsame
      refine ih (h.old sha256 (.inl ⟨duplicate, List.mem_of_find?_eq_some hduplicate, ?_, hsame⟩))
      simpa using List.find?_some hduplicate
    · -- Its key was accepted before: it must be the same.
      simp only [wp_bind, wp_lift, requireContext_eq_ok, implies_true, and_true]
      intro _ hsame
      exact ih (h.old sha256 (.inr ⟨_, hrecorded, hsame⟩))
    · simp
    · -- Its key is new.
      rename_i hnone
      refine ih (h.new sha256 hvalid hfits ?_ hrecorded)
      intro d hd
      simpa using List.find?_eq_none.mp hnone d hd

/-- The deliveries that an operation offers. -/
def Operation.offers : Operation → Option (List ContextDelivery)
  | .receive deliveries | .receiveAvailable deliveries => some deliveries
  | _ => none

/-- An operation that offers deliveries accepts the first of those that are new, and throws if one
has been accepted with other content. -/
theorem perform_accepts (env : Surroundings) {op : Operation} {deliveries : List ContextDelivery}
    (hop : op.offers = some deliveries) (s : Session) :
    wp (op.perform sha256 env) (fun _ s' => ∃ fresh, Found sha256 s deliveries fresh ∧
        (s' = s ∨ ∃ n, Committed env (acceptDeliveries sha256 (fresh.take n)) [] s s'))
      (fun _ s' => s' = s) s := by
  -- Whatever is found new is put into the inbox in one change.
  have accept {fresh : List ContextDelivery} (n : ℕ) (hfound : Found sha256 s deliveries fresh) :
      wp (receiveFresh sha256 env (fresh.take n)) (fun _ s' => ∃ fresh,
        Found sha256 s deliveries fresh ∧
          (s' = s ∨ ∃ n, Committed env (acceptDeliveries sha256 (fresh.take n)) [] s s'))
        (fun _ s' => s' = s) s := by
    unfold receiveFresh
    split_ifs
    · exact ⟨fresh, hfound, .inl rfl⟩
    · refine wp_mono (mutate_commits env _ [] s) ?_ (fun _ _ h => h)
      exact fun _ s' hc => ⟨fresh, hfound, .inr ⟨n, hc⟩⟩
  have found : wp (freshDeliveries sha256 env [] deliveries)
      (fun fresh s' => s' = s ∧ Found sha256 s deliveries fresh) (fun _ s' => s' = s) s :=
    freshDeliveries_found sha256 env s deliveries (.nil sha256 s)
  -- Only the two receives offer deliveries.
  cases op with
  | receive ds =>
    obtain rfl := Option.some.inj hop
    refine wp_bind_of found ?_ (fun _ _ h => h)
    rintro fresh _ ⟨rfl, hfound⟩
    simp only [wp_bind, wp_get, wp_lift, implies_true, and_true]
    intro _ _
    have := accept fresh.length hfound
    rwa [List.take_length] at this
  | receiveAvailable ds =>
    obtain rfl := Option.some.inj hop
    simp only [Operation.perform, receiveAvailable, wp_bind]
    refine wp_mono found ?_ (fun _ _ h => h)
    rintro fresh _ ⟨rfl, hfound⟩
    simp only [wp_get, wp_pure]
    exact accept _ hfound
  | _ => cases hop

/-! ## What has been accepted before -/

/-- A delivery was accepted: it is recorded under its key, it passes the check of deliveries, and it
is within the limit. -/
structure Accepted (s : Session) (delivery : ContextDelivery) : Prop where
  recorded : s.store.recorded sha256 delivery.key = some (.history delivery)
  valid : validateDelivery delivery = .ok ()
  fits : byteLength (stringify delivery.toJson) ≤ s.state.policy.maxDeliveryBytes

/-- A delivery with an accepted key and other content is rejected. -/
theorem rejects_other {s : Session} {accepted delivery : ContextDelivery}
    (ha : Accepted sha256 s accepted) (hkey : delivery.key = accepted.key)
    (hother : sameDelivery accepted delivery = false) (env : Surroundings) {op : Operation}
    {deliveries : List ContextDelivery} (hop : op.offers = some deliveries)
    (hmem : delivery ∈ deliveries) : ∃ fault, op.perform sha256 env s = .error fault s := by
  have haccepts := perform_accepts sha256 env hop s
  cases hperform : op.perform sha256 env s with
  | error fault s' =>
    obtain rfl := wp_error haccepts hperform
    exact ⟨fault, rfl⟩
  | ok u s' =>
    exfalso
    obtain ⟨fresh, hfound, -⟩ := wp_ok haccepts hperform
    rcases hfound.same delivery hmem with ⟨d', hd', hkey', -⟩ | ⟨recorded, hrecorded, hsame⟩
    · have hnone := hfound.unrecorded d' hd'
      rw [hkey', hkey, ha.recorded] at hnone
      cases hnone
    · rw [hkey, ha.recorded] at hrecorded
      obtain rfl : accepted = recorded := by simpa using hrecorded
      rw [hother] at hsame
      cases hsame

/-- Deliveries with accepted keys and the same content are not new. -/
theorem freshDeliveries_ignores (env : Surroundings) {s : Session}
    (hread : ∀ ref, env.failure (.read ref) = none) (deliveries : List ContextDelivery)
    (h : ∀ d ∈ deliveries, validateDelivery d = .ok () ∧ ∃ accepted, Accepted sha256 s accepted ∧
      accepted.key = d.key ∧ sameDelivery accepted d = true) :
    wp (freshDeliveries sha256 env [] deliveries) (fun fresh s' => fresh = [] ∧ s' = s)
      (fun _ _ => False) s := by
  induction deliveries with
  | nil => exact ⟨rfl, rfl⟩
  | cons delivery deliveries ih =>
    obtain ⟨⟨hvalid, accepted, ha, hkey, hsame⟩, hrest⟩ := List.forall_mem_cons.mp h
    have hfits : byteLength (stringify delivery.toJson) ≤ s.state.policy.maxDeliveryBytes := by
      have heq : stringify accepted.toJson = stringify delivery.toJson := by
        simpa [sameDelivery] using hsame
      rw [← heq]
      exact ha.fits
    have hrecorded : (s.store.records.get? (deliveryRef sha256 delivery.key)).map
        ContextStoreWrite.record = some (.history accepted) := by
      rw [← hkey]
      exact ha.recorded
    have hrun := ih hrest
    simp only [freshDeliveries, read, storeCall, hread, wp_bind, wp_lift, wp_get, hvalid, hrecorded,
      checkIfPresent, validateRecord, ha.valid, hsame, requireContext_eq_ok, hfits, wp_pure,
      List.find?_nil]
    simp [hrun, requireContext, require]

/-- Deliveries that were accepted before, with the same content, are ignored. -/
theorem ignores_same {s : Session} (hd : Durable s) (env : Surroundings)
    (hread : ∀ ref, env.failure (.read ref) = none) {op : Operation}
    {deliveries : List ContextDelivery} (hop : op.offers = some deliveries)
    (h : ∀ d ∈ deliveries, validateDelivery d = .ok () ∧ ∃ accepted, Accepted sha256 s accepted ∧
      accepted.key = d.key ∧ sameDelivery accepted d = true) :
    op.perform sha256 env s = .ok () s := by
  have hroom : s.state.inbox.length ≤ s.state.policy.maxInbox := (inbox_of_validateCheckpoint hd.valid).1
  have hfresh := freshDeliveries_ignores sha256 env hread deliveries h
  apply eq_of_wp
  cases op with
  | receive ds =>
    obtain rfl := Option.some.inj hop
    refine wp_bind_of hfresh ?_ (fun _ _ h => h.elim)
    rintro fresh _ ⟨rfl, rfl⟩
    simp [receiveFresh, requireContext, require, hroom]
  | receiveAvailable ds =>
    obtain rfl := Option.some.inj hop
    simp only [Operation.perform, receiveAvailable, wp_bind]
    refine wp_mono hfresh ?_ (fun _ _ h => h.elim)
    rintro fresh _ ⟨rfl, rfl⟩
    simp [receiveFresh]
  | _ => cases hop

end Acceptance

end OsAgent.Context
