import Mathlib.Data.List.Pairwise
import OsAgent.Scheduler.ReadyQueue

/-!
# The turns of the ready queue

What a turn selects (`ReadyQueue.selectNextEntry_spec`), and the invariant of the queue. The entries are in the
order in which they were enqueued, and no two of them are of the same task.
-/

namespace OsAgent.Scheduler

open OsAgent.Library

/-! ## Depths -/

/-- The effective depth of the entry is a number: the threshold of aging is one, or the entry is of a
parent that was woken up, which does not have to age. -/
def QueueEntry.Ranked (policy : ReadyQueuePolicy) (entry : QueueEntry) : Prop :=
  entry.parentWakeupBoost = true ∨ policy.agingThresholdMs ≠ .nan

/-- The effective depth of an entry that has one. -/
def depthAt (policy : ReadyQueuePolicy) (entry : QueueEntry) (now : ℚ) : ℕ :=
  (effectiveDepth policy entry now).getD 0

/-- A threshold that is a number gives a number of depths. -/
theorem agingBoost_ne_none {threshold : Number} (h : threshold ≠ .nan) (waited : ℚ) :
    agingBoost threshold waited ≠ none := by
  cases threshold with
  | finite threshold => exact Option.some_ne_none _
  | posInfinity => exact Option.some_ne_none _
  | negInfinity => exact Option.some_ne_none _
  | nan => exact absurd rfl h

/-- An effective depth is a depth of the schedule. -/
theorem effectiveDepth_mem {policy : ReadyQueuePolicy} {entry : QueueEntry}
    (h : 1 ≤ entry.task.depth) {now : ℚ} {depth : ℕ}
    (hdepth : effectiveDepth policy entry now = some depth) : 1 ≤ depth ∧ depth ≤ 3 := by
  unfold effectiveDepth maxSchedulingDepth at hdepth
  split_ifs at hdepth
  · cases hdepth
    exact ⟨by omega, le_refl 3⟩
  · obtain ⟨boost, -, rfl⟩ := Option.map_eq_some_iff.mp hdepth
    exact ⟨by omega, Nat.min_le_left _ _⟩

/-- The effective depth of an entry is a number at every time, or at none. -/
theorem QueueEntry.Ranked.effectiveDepth_eq {policy : ReadyQueuePolicy} {entry : QueueEntry}
    (h : entry.Ranked policy) (now : ℚ) :
    effectiveDepth policy entry now = some (depthAt policy entry now) := by
  have hsome : effectiveDepth policy entry now ≠ none := by
    unfold effectiveDepth
    split_ifs with hboost
    · exact Option.some_ne_none _
    · rw [Ne, Option.map_eq_none_iff]
      exact agingBoost_ne_none (h.resolve_left hboost) _
  obtain ⟨depth, hdepth⟩ := Option.ne_none_iff_exists'.mp hsome
  unfold depthAt
  rw [hdepth]
  rfl

/-- An entry that has to age under what is no number is never a candidate. -/
theorem effectiveDepth_of_nan {policy : ReadyQueuePolicy} {entry : QueueEntry}
    (hboost : entry.parentWakeupBoost = false) (hnan : policy.agingThresholdMs = .nan) (now : ℚ) :
    effectiveDepth policy entry now = none := by
  unfold effectiveDepth
  rw [if_neg (by simp [hboost]), hnan]
  rfl

/-- A parent that was woken up has the greatest depth. -/
theorem effectiveDepth_of_boost (policy : ReadyQueuePolicy) {entry : QueueEntry}
    (h : entry.parentWakeupBoost = true) (now : ℚ) : effectiveDepth policy entry now = some 3 := by
  unfold effectiveDepth maxSchedulingDepth
  rw [if_pos h]

/-- Under an infinite threshold an entry keeps the depth of its task. -/
theorem effectiveDepth_of_infinite {policy : ReadyQueuePolicy} {entry : QueueEntry}
    (hboost : entry.parentWakeupBoost = false) (hinf : policy.agingThresholdMs = .posInfinity)
    (now : ℚ) : effectiveDepth policy entry now = some (min 3 entry.task.depth) := by
  unfold effectiveDepth maxSchedulingDepth
  rw [if_neg (by simp [hboost]), hinf]
  rfl

/-- Depths grow with the time that was waited. -/
theorem agingBoost_mono {threshold : Number} (hpos : ¬ threshold ≤ .finite 0) {waited waited' : ℚ}
    (h : waited ≤ waited') {boost boost' : ℕ} (hboost : agingBoost threshold waited = some boost)
    (hboost' : agingBoost threshold waited' = some boost') : boost ≤ boost' := by
  cases threshold with
  | finite threshold =>
    rw [Number.finite_le_finite, not_le] at hpos
    cases hboost
    cases hboost'
    exact Nat.floor_mono (div_le_div_of_nonneg_right h hpos.le)
  | posInfinity =>
    cases hboost
    exact Nat.zero_le _
  | negInfinity => exact absurd Number.negInfinity_le hpos
  | nan => cases hboost

/-- Effective depths grow. -/
theorem depthAt_mono {policy : ReadyQueuePolicy} (hpolicy : ¬ policy.agingThresholdMs ≤ .finite 0)
    {entry : QueueEntry} (hranked : entry.Ranked policy) {now now' : ℚ} (h : now ≤ now') :
    depthAt policy entry now ≤ depthAt policy entry now' := by
  have hdepth := hranked.effectiveDepth_eq now
  have hdepth' := hranked.effectiveDepth_eq now'
  unfold effectiveDepth at hdepth hdepth'
  split_ifs at hdepth hdepth' with hboost
  · rw [← Option.some.inj hdepth, ← Option.some.inj hdepth']
  · obtain ⟨boost, hrisen, hrank⟩ := Option.map_eq_some_iff.mp hdepth
    obtain ⟨boost', hrisen', hrank'⟩ := Option.map_eq_some_iff.mp hdepth'
    have hwait : max 0 (now - entry.enqueuedAt) ≤ max 0 (now' - entry.enqueuedAt) :=
      max_le_max (le_refl _) (sub_le_sub_right h _)
    have hle := agingBoost_mono hpolicy hwait hrisen hrisen'
    omega

/-- The order among candidates is total. -/
theorem servedBefore_total (left right : QueueEntry) :
    (servedBefore left right || servedBefore right left) = true := by
  unfold servedBefore
  cases left.parentWakeupBoost <;> cases right.parentWakeupBoost <;> simp [Nat.le_total]

/-- The order among candidates is transitive. -/
theorem servedBefore_trans {a b c : QueueEntry} (hab : servedBefore a b = true)
    (hbc : servedBefore b c = true) : servedBefore a c = true := by
  unfold servedBefore at *
  cases ha : a.parentWakeupBoost <;> cases hb : b.parentWakeupBoost <;>
    cases hc : c.parentWakeupBoost <;> simp_all
  all_goals omega

/-! ## Selections -/

namespace ReadyQueue

variable {s : ReadyQueue}

/-- The candidates for a slot are the entries of its depth. -/
theorem mem_candidates {now : ℚ} {depth : ℕ} {e : QueueEntry × ℕ} :
    e ∈ s.candidates now depth ↔
      s.entries[e.2]? = some e.1 ∧ effectiveDepth s.policy e.1 now = some depth := by
  unfold candidates
  rw [List.mem_mergeSort, List.mem_filter, decide_eq_true_eq, List.mem_zipIdx_iff_getElem?]

/-- The first candidate is served before the others. -/
theorem servedBefore_of_head {now : ℚ} {depth : ℕ} {first e : QueueEntry × ℕ}
    (hfirst : (s.candidates now depth).head? = some first) (he : e ∈ s.candidates now depth) :
    servedBefore first.1 e.1 = true := by
  have hsorted : (s.candidates now depth).Pairwise fun a b => servedBefore a.1 b.1 = true := by
    apply List.pairwise_mergeSort
    · exact fun a b c hab hbc => servedBefore_trans hab hbc
    · exact fun a b => servedBefore_total a.1 b.1
  cases hlist : s.candidates now depth with
  | nil => rw [hlist] at he; cases he
  | cons a l =>
    rw [hlist] at hfirst he hsorted
    obtain rfl := Option.some.inj hfirst
    rcases List.mem_cons.mp he with rfl | hl
    · simpa using servedBefore_total e.1 e.1
    · exact (List.pairwise_cons.mp hsorted).1 e hl

/-- What a turn selects, for a slot of this depth. -/
structure Selected (s : ReadyQueue) (now : ℚ) (selected : Selection) (depth : ℕ) : Prop where
  entry : s.entries[selected.entryIndex]? = some selected.entry
  ranked : effectiveDepth s.policy selected.entry now = some depth
  slot : slotAt s.schedule s.scheduleCursor selected.offset = some depth
  /-- No other candidate for the slot comes first. -/
  first : ∀ e ∈ s.entries, effectiveDepth s.policy e now = some depth →
    servedBefore selected.entry e = true
  /-- No candidate was passed over. -/
  passed : ∀ e ∈ s.entries, ∀ offset < selected.offset, ∀ rank,
    effectiveDepth s.policy e now = some rank →
      slotAt s.schedule s.scheduleCursor offset ≠ some rank

/-- A slot with a candidate is taken. -/
theorem selectAt_ne_none {now : ℚ} {offset depth : ℕ} {e : QueueEntry} (he : e ∈ s.entries)
    (hdepth : effectiveDepth s.policy e now = some depth)
    (hslot : slotAt s.schedule s.scheduleCursor offset = some depth) :
    s.selectAt now offset ≠ none := by
  obtain ⟨i, hi⟩ := List.mem_iff_getElem?.mp he
  have hmem : (e, i) ∈ s.candidates now depth := mem_candidates.mpr ⟨hi, hdepth⟩
  unfold selectAt
  rw [hslot]
  cases hlist : s.candidates now depth with
  | nil => rw [hlist] at hmem; cases hmem
  | cons a l => simp [hlist]

/-- The turn selects the first candidate for the first slot that has any. -/
theorem selectNextEntry_spec {now : ℚ} {selected : Selection}
    (h : s.selectNextEntry now = some selected) : ∃ depth, s.Selected now selected depth := by
  unfold selectNextEntry at h
  rw [Option.ite_none_left_eq_some] at h
  obtain ⟨passed, offset, later, hrange, hselect, hpassed⟩ := List.findSome?_eq_some_iff.mp h.2
  unfold selectAt at hselect
  simp only [Option.bind_eq_bind, Option.bind_eq_some_iff, Option.pure_def,
    Option.some.injEq] at hselect
  obtain ⟨depth, hslot, first, hfirst, rfl⟩ := hselect
  have hbefore : passed = List.range offset := by
    rw [List.range_eq_range', List.range'_eq_append_iff] at hrange
    obtain ⟨k, -, hpassed, hlater⟩ := hrange
    obtain ⟨hk, -⟩ := List.range'_eq_cons_iff.mp hlater.symm
    rw [hpassed, ← hk, List.range_eq_range', Nat.zero_add, Nat.mul_one]
  have hmem : first ∈ s.candidates now depth := List.mem_of_mem_head? hfirst
  obtain ⟨hentry, hdepth⟩ := mem_candidates.mp hmem
  exact ⟨depth, {
    entry := hentry
    ranked := hdepth
    slot := hslot
    first := by
      intro e he hdepth
      obtain ⟨i, hi⟩ := List.mem_iff_getElem?.mp he
      exact servedBefore_of_head hfirst (e := (e, i)) (mem_candidates.mpr ⟨hi, hdepth⟩)
    passed := by
      intro e he offset' hlt rank hrank hslot'
      exact selectAt_ne_none he hrank hslot'
        (hpassed offset' (hbefore ▸ List.mem_range.mpr hlt)) }⟩

/-- A queue in which an entry waits has a turn for it. -/
theorem exists_selectNextEntry {x : QueueEntry} (hx : x ∈ s.entries) {now : ℚ} {depth : ℕ}
    (hrank : effectiveDepth s.policy x now = some depth) (hdepth : depth ∈ s.schedule) :
    ∃ selected, s.selectNextEntry now = some selected := by
  apply Option.ne_none_iff_exists'.mp
  unfold selectNextEntry
  rw [if_neg (List.length_pos_of_mem hx).ne']
  intro hnone
  rw [List.findSome?_eq_none_iff] at hnone
  have hlt := waitFor_lt hdepth s.scheduleCursor
  exact selectAt_ne_none hx hrank (slotAt_waitFor hdepth s.scheduleCursor)
    (hnone _ (List.mem_range.mpr hlt))

/-! ## The invariant -/

/-- The invariant of the queue. -/
structure Valid (s : ReadyQueue) : Prop where
  aging : ¬ s.policy.agingThresholdMs ≤ .finite 0
  built : buildSchedule s.policy.depthWeights = .ok s.schedule
  ordered : s.entries.Pairwise fun a b => a.order < b.order
  fresh : ∀ e ∈ s.entries, e.order < s.nextOrder
  ids : (s.entries.map fun e => e.task.id).Nodup
  known : ∀ e ∈ s.entries, e.task.id ∈ s.taskIds
  depth : ∀ e ∈ s.entries, 1 ≤ e.task.depth

/-- Every depth has a slot. -/
theorem mem_of_buildSchedule {weights : ℕ → ℚ} {schedule : List ℕ}
    (h : buildSchedule weights = .ok schedule) {depth : ℕ} (hlow : 1 ≤ depth) (hhigh : depth ≤ 3) :
    depth ∈ schedule := by
  simp only [buildSchedule, depthSlots, bind_eq_ok, require_eq_ok, pure_eq_ok] at h
  obtain ⟨_, ⟨_, ⟨-, h3⟩, rfl⟩, _, ⟨_, ⟨-, h2⟩, rfl⟩, _, ⟨_, ⟨-, h1⟩, rfl⟩, rfl⟩ := h
  have hslots : ∀ d, 0 < weights d → d ∈ List.replicate (weights d).num.toNat d := by
    intro d hd
    have hnum := Rat.num_pos.mpr hd
    rw [List.mem_replicate]
    exact ⟨by omega, rfl⟩
  have hcases : depth = 1 ∨ depth = 2 ∨ depth = 3 := by omega
  rcases hcases with rfl | rfl | rfl
  · exact List.mem_append_right _ (hslots 1 h1)
  · exact List.mem_append_left _ (List.mem_append_right _ (hslots 2 h2))
  · exact List.mem_append_left _ (List.mem_append_left _ (hslots 3 h3))

/-- The effective depth of an entry has a slot. -/
theorem Valid.effectiveDepth_mem (h : s.Valid) {x : QueueEntry} (hx : x ∈ s.entries) {now : ℚ}
    {depth : ℕ} (hdepth : effectiveDepth s.policy x now = some depth) : depth ∈ s.schedule := by
  obtain ⟨hlow, hhigh⟩ := Scheduler.effectiveDepth_mem (h.depth x hx) hdepth
  exact mem_of_buildSchedule h.built hlow hhigh

/-- Two entries of the same task are the same. -/
theorem Valid.eq_of_id (h : s.Valid) {a b : QueueEntry} (ha : a ∈ s.entries)
    (hb : b ∈ s.entries) (hab : a.task.id = b.task.id) : a = b :=
  List.inj_on_of_nodup_map h.ids ha hb hab

/-- A new queue is valid. -/
theorem Valid.create {policy : ReadyQueuePolicy} (h : create policy = .ok s) : s.Valid := by
  unfold ReadyQueue.create at h
  rw [check_bind_eq_ok, require_eq_ok, bind_eq_ok] at h
  obtain ⟨haging, schedule, hbuilt, hs⟩ := h
  rw [pure_eq_ok] at hs
  subst hs
  exact {
    aging := haging
    built := hbuilt
    ordered := List.Pairwise.nil
    fresh := by simp
    ids := List.nodup_nil
    known := by simp
    depth := by simp }

/-- What an enqueue adds. -/
theorem enqueue_spec {now : ℚ} {task : QueueTask} {boost : Bool} {s' : ReadyQueue}
    (h : s.enqueue now task boost = .ok s') :
    1 ≤ task.depth ∧ task.id ∉ s.taskIds ∧
      s' = { s with
        entries := s.entries ++ [⟨task, s.nextOrder, now, boost⟩]
        nextOrder := s.nextOrder + 1
        taskIds := insert task.id s.taskIds
        peakSize := max s.peakSize (s.entries.length + 1) } := by
  unfold enqueue at h
  rw [check_bind_eq_ok, check_bind_eq_ok, check_bind_eq_ok, require_eq_ok, require_eq_ok,
    require_eq_ok, pure_eq_ok] at h
  obtain ⟨-, hdepth, hnew, hs⟩ := h
  exact ⟨by omega, hnew, hs.symm⟩

/-- An enqueue keeps the queue valid. -/
theorem Valid.enqueue (h : s.Valid) {now : ℚ} {task : QueueTask} {boost : Bool} {s' : ReadyQueue}
    (henqueue : s.enqueue now task boost = .ok s') : s'.Valid := by
  obtain ⟨hdepth, hnew, rfl⟩ := enqueue_spec henqueue
  exact {
    aging := h.aging
    built := h.built
    ordered := by
      apply List.pairwise_append.mpr
      refine ⟨h.ordered, List.pairwise_singleton _ _, ?_⟩
      -- A new entry has the greatest sequence number, and an identity that was not there.
      intro a ha b hb
      rw [List.mem_singleton.mp hb]
      exact h.fresh a ha
    fresh := by
      intro e he
      rcases List.mem_append.mp he with he | he
      · exact (h.fresh e he).trans (Nat.lt_succ_self _)
      · rw [List.mem_singleton.mp he]
        exact Nat.lt_succ_self _
    ids := by
      dsimp only
      rw [List.map_append, List.map_singleton, List.nodup_append_comm, List.singleton_append,
        List.nodup_cons]
      refine ⟨?_, h.ids⟩
      intro hmem
      obtain ⟨e, he, hid⟩ := List.mem_map.mp hmem
      exact hnew (hid ▸ h.known e he)
    known := by
      intro e he
      rcases List.mem_append.mp he with he | he
      · exact Finset.mem_insert_of_mem (h.known e he)
      · rw [List.mem_singleton.mp he]
        exact Finset.mem_insert_self _ _
    depth := by
      intro e he
      rcases List.mem_append.mp he with he | he
      · exact h.depth e he
      · rw [List.mem_singleton.mp he]
        exact hdepth }

/-- The queue without the entry at an index. -/
def without (s : ReadyQueue) (entryIndex : ℕ) (taskId : String) (cursor : ℕ) : ReadyQueue :=
  { s with
    entries := s.entries.eraseIdx entryIndex
    taskIds := s.taskIds.erase taskId
    scheduleCursor := cursor }

/-- Taking an entry out keeps the queue valid. -/
theorem Valid.without (h : s.Valid) {i : ℕ} {e : QueueEntry} (hi : s.entries[i]? = some e)
    (cursor : ℕ) : (s.without i e.task.id cursor).Valid := by
  have hsub : (s.entries.eraseIdx i).Sublist s.entries := List.eraseIdx_sublist _ _
  exact {
    aging := h.aging
    built := h.built
    ordered := h.ordered.sublist hsub
    fresh := fun e' he' => h.fresh e' (hsub.subset he')
    ids := h.ids.sublist (hsub.map _)
    known := by
      intro e' he'
      have hne : e'.task.id ≠ e.task.id := by
        intro hid
        obtain ⟨j, hj, hget⟩ := List.mem_eraseIdx_iff_getElem?.mp he'
        have hlt := (List.getElem?_eq_some_iff.mp hget).1
        rw [← List.length_map fun e : QueueEntry => e.task.id] at hlt
        have hindex : j = i := by
          apply (List.getElem?_inj hlt h.ids).mp
          rw [List.getElem?_map, List.getElem?_map, hget, hi, Option.map_some, Option.map_some, hid]
        exact hj hindex
      exact Finset.mem_erase.mpr ⟨hne, h.known e' (hsub.subset he')⟩
    depth := fun e' he' => h.depth e' (hsub.subset he') }

/-- Every call keeps the queue valid. -/
theorem Valid.after (h : s.Valid) (call : QueueCall) : (s.after call).Valid := by
  cases call with
  | enqueue now task boost =>
    unfold ReadyQueue.after
    dsimp only
    cases henqueue : s.enqueue now task boost with
    | ok s' => exact h.enqueue henqueue
    | error e => exact h
  | dequeue now =>
    unfold ReadyQueue.after dequeue
    dsimp only
    cases hselect : s.selectNextEntry now with
    | none => exact h
    | some selected =>
      obtain ⟨depth, hselected⟩ := selectNextEntry_spec hselect
      exact h.without hselected.entry _
  | remove taskId =>
    unfold ReadyQueue.after remove
    dsimp only
    cases hfind : s.entries.findIdx? fun entry => entry.task.id = taskId with
    | none => exact h
    | some i =>
      obtain ⟨hlt, hid, -⟩ := List.findIdx?_eq_some_iff_getElem.mp hfind
      rw [decide_eq_true_eq] at hid
      subst hid
      exact h.without (List.getElem?_eq_getElem hlt) _

end ReadyQueue

end OsAgent.Scheduler
