import OsAgent.Kernel.WorkTable

/-!
# The delivery of results

`WorkTable` is the invariant of the table of asynchronous work and of the results that the updates in
the context have brought. A generation is closed when all its work has come to its end and has been
delivered; while it is open, some of its work has not. The results are those of the delivered
work, and no work has two of them.
-/

namespace OsAgent.Kernel

open OsAgent.Library OsAgent.Capability

/-- The work of some generations. -/
def worksOf (generations : List AsyncWorkGeneration) : List AsyncWorkRecord :=
  generations.flatMap AsyncWorkGeneration.work

/-- The work of two lists of generations. -/
theorem worksOf_append (l l' : List AsyncWorkGeneration) :
    worksOf (l ++ l') = worksOf l ++ worksOf l' := List.flatMap_append

/-- The work of one generation. -/
theorem worksOf_singleton (generation : AsyncWorkGeneration) :
    worksOf [generation] = generation.work := List.flatMap_singleton ..

/-- The task has seen the result of the work. -/
def AsyncWorkRecord.delivered (work : AsyncWorkRecord) : Bool := work.deliveredAt.isSome

/-- The results of the delivered work. -/
def deliveredResults (works : List AsyncWorkRecord) : List AsyncWorkResult :=
  (works.filter AsyncWorkRecord.delivered).map (·.result 0)

/-- The invariant of the table, and of the results that were brought into the context. -/
structure WorkTable (generations : List AsyncWorkGeneration) (results : List AsyncWorkResult) :
    Prop where
  last : LastOpen generations
  ids : ((worksOf generations).map fun work => work.workId).Nodup
  completed : ∀ work ∈ worksOf generations, work.terminal = true → work.completedAt.isSome = true
  delivered : ∀ work ∈ worksOf generations, work.delivered = true → work.terminal = true
  closed : ∀ generation ∈ generations, generation.isOpen = false →
    ∀ work ∈ generation.work, work.delivered = true
  active : ∀ generation ∈ generations, generation.isOpen = true →
    ∃ work ∈ generation.work, work.delivered = false
  results : results.Perm (deliveredResults (worksOf generations))

variable {generations before : List AsyncWorkGeneration} {results : List AsyncWorkResult}
  {generation generation' : AsyncWorkGeneration}

/-- A new task has no work. -/
theorem WorkTable.empty : WorkTable [] [] where
  last := by simp [LastOpen]
  ids := List.nodup_nil
  completed := by simp [worksOf]
  delivered := by simp [worksOf]
  closed := by simp
  active := by simp
  results := List.Perm.refl _

/-- The results of two lists of work. -/
theorem deliveredResults_append (l l' : List AsyncWorkRecord) :
    deliveredResults (l ++ l') = deliveredResults l ++ deliveredResults l' := by
  simp [deliveredResults]

/-- Closed generations with one at their end. -/
theorem lastOpen_concat (h : ∀ g ∈ before, g.isOpen = false) (generation : AsyncWorkGeneration) :
    LastOpen (before ++ [generation]) := by
  unfold LastOpen
  rwa [List.dropLast_concat]

/-! ## Work that joins -/

/-- New work keeps the table. -/
theorem WorkTable.register (h : WorkTable generations results) {work : List AsyncWorkRecord}
    (hbefore : ∀ g ∈ before, g.isOpen = false) (hopen : generation.isOpen = true)
    (hgenerations : generations = before ++ [generation] ∨
      generations = before ∧ generation.work = [])
    (hwork : work ≠ []) (hnodup : (work.map fun w => w.workId).Nodup)
    (hfresh : ∀ w ∈ work, w.workId ∉ (worksOf generations).map fun w => w.workId)
    (hrunning : ∀ w ∈ work, w.terminal = false ∧ w.deliveredAt = none) :
    WorkTable (before ++ [{ generation with work := generation.work ++ work }]) results := by
  -- The generation is the last one, or it is opened for the work.
  have hold : worksOf generations = worksOf before ++ generation.work := by
    rcases hgenerations with rfl | ⟨rfl, hempty⟩
    · rw [worksOf_append, worksOf_singleton]
    · rw [hempty, List.append_nil]
  have hnew : worksOf (before ++ [{ generation with work := generation.work ++ work }]) =
      worksOf generations ++ work := by
    rw [worksOf_append, worksOf_singleton, hold, List.append_assoc]
  have hmem : ∀ g ∈ before, g ∈ generations := by
    intro g hg
    rcases hgenerations with rfl | ⟨rfl, -⟩
    · exact List.mem_append_left _ hg
    · exact hg
  -- New work has not been delivered.
  have hundelivered : ∀ w ∈ work, w.delivered = false := by
    intro w hw
    unfold AsyncWorkRecord.delivered
    rw [(hrunning w hw).2]
    rfl
  exact {
    last := lastOpen_concat hbefore _
    ids := by
      rw [hnew, List.map_append, List.nodup_append]
      refine ⟨h.ids, hnodup, ?_⟩
      -- The identifiers of the new work are its own.
      intro id hid id' hid' heq
      obtain ⟨w, hw, rfl⟩ := List.mem_map.mp hid'
      exact hfresh w hw (heq ▸ hid)
    completed := by
      rw [hnew]
      intro w hw hterminal
      rcases List.mem_append.mp hw with hw | hw
      · exact h.completed w hw hterminal
      · rw [(hrunning w hw).1] at hterminal
        cases hterminal
    delivered := by
      rw [hnew]
      intro w hw hdelivered
      rcases List.mem_append.mp hw with hw | hw
      · exact h.delivered w hw hdelivered
      · rw [hundelivered w hw] at hdelivered
        cases hdelivered
    closed := by
      intro g hg hclosed
      rcases List.mem_append.mp hg with hg | hg
      · exact h.closed g (hmem g hg) hclosed
      · rw [List.mem_singleton.mp hg] at hclosed
        exact absurd (hclosed.symm.trans hopen) Bool.false_ne_true
    active := by
      -- Only the last generation is open.
      intro g hg hgopen
      rcases List.mem_append.mp hg with hg | hg
      · rw [hbefore g hg] at hgopen
        cases hgopen
      · rw [List.mem_singleton.mp hg]
        obtain ⟨w, hw⟩ := List.exists_mem_of_ne_nil work hwork
        exact ⟨w, List.mem_append_right _ hw, hundelivered w hw⟩
    results := by
      have hnone : deliveredResults work = [] := by
        unfold deliveredResults
        rw [List.filter_eq_nil_iff.mpr (fun w hw => by simp [hundelivered w hw])]
        rfl
      rw [hnew, deliveredResults_append, hnone, List.append_nil]
      exact h.results }

/-! ## Work that is revised -/

/-- Revised work has the same identities. -/
theorem AsyncWorkGeneration.Revised.ids (h : generation.Revised generation') :
    (generation'.work.map fun w => w.workId) = generation.work.map fun w => w.workId := by
  have hids := h.work
  generalize generation.work = l at hids
  generalize generation'.work = l' at hids
  induction hids with
  | nil => rfl
  | cons hfirst _ ih => rw [List.map_cons, List.map_cons, ih, hfirst.workId]

/-- What the task has seen of it is the same. -/
theorem deliveredResults_revised {l l' : List AsyncWorkRecord}
    (h : List.Forall₂ AsyncWorkRecord.Revised l l')
    (hdelivered : ∀ w ∈ l, w.delivered = true → w.terminal = true) :
    deliveredResults l' = deliveredResults l := by
  unfold deliveredResults
  induction h with
  | nil => rfl
  | @cons w w' l l' hfirst _ ih =>
    have hrest := ih fun w hw => hdelivered w (List.mem_cons_of_mem _ hw)
    have hsame : w'.delivered = w.delivered := congrArg Option.isSome hfirst.deliveredAt
    by_cases hw : w.delivered = true
    · have hterminal := hdelivered w List.mem_cons_self hw
      rw [List.filter_cons_of_pos (hsame.trans hw), List.filter_cons_of_pos hw, List.map_cons,
        List.map_cons, hrest, (hfirst.result hterminal).2.1]
    · rw [List.filter_cons_of_neg (by rwa [hsame]), List.filter_cons_of_neg hw, hrest]

/-- Revised work keeps the table. -/
theorem WorkTable.revise (h : WorkTable (before ++ [generation]) results)
    (hopen : generation.isOpen = true) (hrevised : generation.Revised generation') :
    WorkTable (before ++ [generation']) results := by
  have hworks : worksOf (before ++ [generation']) = worksOf before ++ generation'.work := by
    rw [worksOf_append, worksOf_singleton]
  have hold : worksOf (before ++ [generation]) = worksOf before ++ generation.work := by
    rw [worksOf_append, worksOf_singleton]
  -- Each record comes from one that it revises.
  have horigin : ∀ w' ∈ worksOf (before ++ [generation']),
      ∃ w ∈ worksOf (before ++ [generation]), w.Revised w' := by
    intro w' hw'
    rw [hworks] at hw'
    rw [hold]
    rcases List.mem_append.mp hw' with hw' | hw'
    · exact ⟨w', List.mem_append_left _ hw', AsyncWorkRecord.Revised.refl w'⟩
    · obtain ⟨w, hw, hrev⟩ := exists_left_of_mem hrevised.work hw'
      exact ⟨w, List.mem_append_right _ hw, hrev⟩
  exact {
    last := lastOpen_concat (closed_of_concat h.last) _
    ids := by
      have hids := h.ids
      rw [hold, List.map_append] at hids
      rw [hworks, List.map_append, hrevised.ids]
      exact hids
    completed := by
      intro w' hw' hterminal
      obtain ⟨w, hw, hrev⟩ := horigin w' hw'
      -- It was at its end before, or is completed by this revision.
      rcases hrev.completedAt hterminal with hbefore | hcompleted
      · rw [(hrev.result hbefore).2.2]
        exact h.completed w hw hbefore
      · exact hcompleted
    delivered := by
      intro w' hw' hdelivered
      obtain ⟨w, hw, hrev⟩ := horigin w' hw'
      unfold AsyncWorkRecord.delivered at hdelivered
      rw [hrev.deliveredAt] at hdelivered
      exact (hrev.result (h.delivered w hw hdelivered)).1
    closed := by
      intro g hg hclosed
      rcases List.mem_append.mp hg with hg | hg
      · exact h.closed g (List.mem_append_left _ hg) hclosed
      · rw [List.mem_singleton.mp hg, hrevised.isOpen, hopen] at hclosed
        cases hclosed
    active := by
      intro g hg hgopen
      rcases List.mem_append.mp hg with hg | hg
      · exact h.active g (List.mem_append_left _ hg) hgopen
      · rw [List.mem_singleton.mp hg]
        obtain ⟨w, hw, hundelivered⟩ := h.active generation
          (List.mem_append_right _ (List.mem_singleton.mpr rfl)) hopen
        obtain ⟨w', hw', hrev⟩ := exists_right_of_mem hrevised.work hw
        exact ⟨w', hw', (congrArg Option.isSome hrev.deliveredAt).trans hundelivered⟩
    results := by
      -- What has been delivered is left as it is.
      have hsame := deliveredResults_revised hrevised.work fun w hw =>
        h.delivered w (hold ▸ List.mem_append_right _ hw)
      have hresults := h.results
      rw [hold, deliveredResults_append] at hresults
      rw [hworks, deliveredResults_append, hsame]
      exact hresults }

/-! ## Work that is delivered -/

namespace AsyncWorkRecord

variable (work : AsyncWorkRecord) (now : Timestamp)

/-- A delivery changes no result. -/
theorem result_deliver (work : AsyncWorkRecord) (now : Timestamp) :
    (work.deliver now).result = work.result := by
  unfold deliver
  split_ifs <;> rfl

/-- A delivery does not change what was registered. -/
theorem deliver_registration :
    (work.deliver now).toAsyncWorkRegistration = work.toAsyncWorkRegistration := by
  unfold deliver
  split_ifs <;> rfl

/-- A delivery does not change when the work was over. -/
theorem completedAt_deliver : (work.deliver now).completedAt = work.completedAt := by
  unfold deliver
  split_ifs <;> rfl

/-- A delivery does not change whether the work is over. -/
theorem terminal_deliver : (work.deliver now).terminal = work.terminal := by
  unfold deliver
  split_ifs <;> rfl

/-- A delivery brings the results that have not been seen. -/
theorem delivered_deliver :
    (work.deliver now).delivered = (work.delivered || work.undelivered) := by
  unfold deliver
  split_ifs with h
  · rw [h, Bool.or_true]
    rfl
  · rw [Bool.not_eq_true] at h
    rw [h, Bool.or_false]
    rfl
  · rw [Bool.not_eq_true] at h
    rw [h, Bool.or_false]

/-- Work that has come to its end is delivered, or it has not been seen. -/
theorem delivered_or_undelivered (h : work.terminal = true) :
    (work.delivered || work.undelivered) = true := by
  unfold delivered undelivered
  cases work.deliveredAt <;> simp [h]

end AsyncWorkRecord

/-- Two disjoint parts of a list are the part that has either property. -/
theorem perm_filter_or {α : Type} {p q : α → Bool} {l : List α}
    (h : ∀ a ∈ l, p a = true → q a = false) :
    (l.filter p ++ l.filter q).Perm (l.filter fun a => p a || q a) := by
  induction l with
  | nil => exact List.Perm.refl _
  | cons a l ih =>
    have hrest := ih fun b hb => h b (List.mem_cons_of_mem _ hb)
    by_cases hp : p a = true
    · have hq := h a List.mem_cons_self hp
      rw [List.filter_cons_of_pos hp, List.filter_cons_of_neg (by simp [hq]),
        List.filter_cons_of_pos (by simp [hp])]
      exact hrest.cons a
    · by_cases hq : q a = true
      · rw [List.filter_cons_of_neg hp, List.filter_cons_of_pos hq,
          List.filter_cons_of_pos (by simp [hq])]
        exact List.perm_middle.trans (hrest.cons a)
      · rw [List.filter_cons_of_neg hp, List.filter_cons_of_neg hq,
          List.filter_cons_of_neg (by simp [hp, hq])]
        exact hrest

/-- With what an update brings, the results are those of the work that has been delivered. -/
theorem deliveredResults_claimed {l : List AsyncWorkRecord} (now : Timestamp)
    (hcompleted : ∀ w ∈ l, w.terminal = true → w.completedAt.isSome = true) :
    (deliveredResults l ++ (l.filter AsyncWorkRecord.undelivered).map (·.result now)).Perm
      (deliveredResults (l.map (·.deliver now))) := by
  -- What is delivered now was completed, and its result does not depend on the delivery.
  have hresults : (l.filter AsyncWorkRecord.undelivered).map (·.result now) =
      (l.filter AsyncWorkRecord.undelivered).map (·.result 0) := by
    apply List.map_congr_left
    intro w hw
    obtain ⟨hmem, hundelivered⟩ := List.mem_filter.mp hw
    unfold AsyncWorkRecord.undelivered at hundelivered
    rw [decide_eq_true_eq] at hundelivered
    obtain ⟨t, ht⟩ := Option.isSome_iff_exists.mp (hcompleted w hmem hundelivered.1)
    unfold AsyncWorkRecord.result
    rw [ht]
    rfl
  have hdelivered : deliveredResults (l.map (·.deliver now)) =
      (l.filter fun w => w.delivered || w.undelivered).map (·.result 0) := by
    unfold deliveredResults
    rw [List.filter_map, List.map_map]
    have hfilter : l.filter (AsyncWorkRecord.delivered ∘ (·.deliver now)) =
        l.filter fun w => w.delivered || w.undelivered :=
      List.filter_congr fun w _ => w.delivered_deliver now
    rw [hfilter]
    exact List.map_congr_left fun w _ => congrFun (w.result_deliver now) 0
  -- What was delivered before is not delivered again.
  have hdisjoint : ∀ w ∈ l, w.delivered = true → w.undelivered = false := by
    intro w _ hw
    obtain ⟨t, ht⟩ := Option.isSome_iff_exists.mp hw
    unfold AsyncWorkRecord.undelivered
    rw [ht]
    simp
  rw [hresults, hdelivered, deliveredResults, ← List.map_append]
  exact (perm_filter_or hdisjoint).map _

/-- A claim keeps the table, with the results that it brings. -/
theorem WorkTable.claim (h : WorkTable (before ++ [generation]) results)
    (hopen : generation.isOpen = true) (now : Timestamp) :
    WorkTable (before ++ [generation.claimed now])
      (results ++ (generation.update now).results) := by
  have hworks : worksOf (before ++ [generation.claimed now]) =
      worksOf before ++ generation.work.map (·.deliver now) := by
    rw [worksOf_append, worksOf_singleton]
    rfl
  have hold : worksOf (before ++ [generation]) = worksOf before ++ generation.work := by
    rw [worksOf_append, worksOf_singleton]
  -- What is claimed is at its end; it is delivered now.
  have hcompleted : ∀ w ∈ generation.work, w.terminal = true → w.completedAt.isSome = true :=
    fun w hw => h.completed w (hold ▸ List.mem_append_right _ hw)
  have hdelivered : ∀ w ∈ generation.work, w.delivered = true → w.terminal = true :=
    fun w hw => h.delivered w (hold ▸ List.mem_append_right _ hw)
  exact {
    last := lastOpen_concat (closed_of_concat h.last) _
    ids := by
      have hids := h.ids
      have hsame : (generation.work.map (·.deliver now)).map (fun w => w.workId) =
          generation.work.map fun w => w.workId := by
        rw [List.map_map]
        exact List.map_congr_left fun w _ =>
          congrArg AsyncWorkRegistration.workId (w.deliver_registration now)
      rw [hold, List.map_append] at hids
      rw [hworks, List.map_append, hsame]
      exact hids
    completed := by
      rw [hworks]
      intro w' hw' hterminal
      rcases List.mem_append.mp hw' with hw' | hw'
      · exact h.completed w' (hold ▸ List.mem_append_left _ hw') hterminal
      · obtain ⟨w, hw, rfl⟩ := List.mem_map.mp hw'
        rw [w.terminal_deliver] at hterminal
        rw [w.completedAt_deliver]
        exact hcompleted w hw hterminal
    delivered := by
      rw [hworks]
      intro w' hw' hseen
      rcases List.mem_append.mp hw' with hw' | hw'
      · exact h.delivered w' (hold ▸ List.mem_append_left _ hw') hseen
      · obtain ⟨w, hw, rfl⟩ := List.mem_map.mp hw'
        rw [w.delivered_deliver, Bool.or_eq_true] at hseen
        rw [w.terminal_deliver]
        -- It had been delivered, or is so by this claim.
        rcases hseen with hseen | hseen
        · exact hdelivered w hw hseen
        · unfold AsyncWorkRecord.undelivered at hseen
          exact (of_decide_eq_true hseen).1
    closed := by
      intro g hg hclosed
      rcases List.mem_append.mp hg with hg | hg
      · exact h.closed g (List.mem_append_left _ hg) hclosed
      · rw [List.mem_singleton.mp hg] at hclosed ⊢
        -- The generation is closed only when all of its work is at its end.
        have hfinished : generation.allFinished = true := by
          by_contra hnot
          unfold AsyncWorkGeneration.claimed AsyncWorkGeneration.isOpen at hclosed
          rw [if_neg hnot] at hclosed
          unfold AsyncWorkGeneration.isOpen at hopen
          exact Bool.false_ne_true (hclosed.symm.trans hopen)
        intro w' hw'
        obtain ⟨w, hw, rfl⟩ := List.mem_map.mp hw'
        rw [w.delivered_deliver]
        exact w.delivered_or_undelivered (List.all_eq_true.mp hfinished w hw)
    active := by
      intro g hg hgopen
      rcases List.mem_append.mp hg with hg | hg
      · exact h.active g (List.mem_append_left _ hg) hgopen
      · rw [List.mem_singleton.mp hg] at hgopen ⊢
        -- It stays open as long as some work runs, which is not delivered.
        have hunfinished : ¬ generation.allFinished = true := by
          intro hfinished
          unfold AsyncWorkGeneration.claimed AsyncWorkGeneration.isOpen at hgopen
          rw [if_pos hfinished] at hgopen
          cases hgopen
        unfold AsyncWorkGeneration.allFinished at hunfinished
        rw [List.all_eq_true] at hunfinished
        push Not at hunfinished
        obtain ⟨w, hw, hrunning⟩ := hunfinished
        refine ⟨w.deliver now, List.mem_map_of_mem hw, ?_⟩
        rw [w.delivered_deliver, Bool.or_eq_false_iff]
        constructor
        · by_contra hseen
          rw [Bool.not_eq_false] at hseen
          exact hrunning (hdelivered w hw hseen)
        · unfold AsyncWorkRecord.undelivered
          simp [hrunning]
    results := by
      have hresults := h.results
      rw [hold, deliveredResults_append] at hresults
      rw [hworks, deliveredResults_append]
      -- The results that the claim brings are those that were not delivered.
      refine (hresults.append_right _).trans ?_
      rw [List.append_assoc]
      exact (deliveredResults_claimed now hcompleted).append_left _ }

end OsAgent.Kernel
