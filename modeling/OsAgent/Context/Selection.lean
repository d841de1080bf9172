import OsAgent.Context.ContextWindowManager

/-!
# What is selected

The result of `select` is the context with ranges replaced. The summaries that may be taken have ranges
apart from each other, and come one after the other, so sorting them again changes nothing and none of them
is skipped (`replaceRanges_spec`). They are taken one by one until the estimate is small enough
(`select_spec`).
-/

namespace OsAgent.ContextWindow

/-! ## Contexts with ranges replaced -/

/-- A piece of the result: an item as it was, or a summary for the items of its range. -/
inductive Piece where
  | kept (index : ℕ)
  | replaced (record : ContextSummaryRecord)

/-- The items for which a piece stands. -/
def Piece.indices : Piece → List ℕ
  | .kept index => [index]
  | .replaced record =>
    List.range' record.sourceStartIndex.toNat
      (record.sourceEndIndex.toNat - record.sourceStartIndex.toNat)

/-- The summary of a piece. -/
def Piece.record? : Piece → Option ContextSummaryRecord
  | .kept _ => none
  | .replaced record => some record

section Replacing

variable {α : Type} {fullContext context : List (ContextItem α)} {chosen : List ContextSummaryRecord}

/-- What is there for a piece. -/
def Piece.item (fullContext : List (ContextItem α)) : Piece → Option (ContextItem α)
  | .kept index => fullContext[index]?
  | .replaced record => some (.contextSummary record.summary)

/-- A context in which the chosen summaries stand for their ranges: its pieces stand for all items, each of
them once and in order. -/
def Replaces (fullContext : List (ContextItem α)) (chosen : List ContextSummaryRecord)
    (context : List (ContextItem α)) : Prop :=
  ∃ pieces : List Piece, context.map some = pieces.map (Piece.item fullContext) ∧
    pieces.flatMap Piece.indices = List.range fullContext.length ∧ pieces.filterMap Piece.record? = chosen

/-- Ranges within the context, each of which starts where the one before it ends, or later. -/
structure Apart (fullContext : List (ContextItem α)) (chosen : List ContextSummaryRecord) : Prop where
  valid : ∀ record ∈ chosen, isValid fullContext record = true
  ordered : chosen.Pairwise fun a b => a.sourceEndIndex ≤ b.sourceStartIndex

/-- A summary is valid if its range is in the context and not empty. -/
theorem isValid_iff {record : ContextSummaryRecord} : isValid fullContext record = true ↔
    0 ≤ record.sourceStartIndex ∧ record.sourceEndIndex ≤ fullContext.length ∧
      record.sourceStartIndex < record.sourceEndIndex := by
  simp [isValid, and_assoc]

/-- An index inside a list is what it is. -/
theorem relativeIndex_natCast {length index : ℕ} (h : index ≤ length) :
    relativeIndex length index = index := by
  unfold relativeIndex
  rw [if_neg (by omega), Int.toNat_natCast, Nat.min_eq_left h]

/-- The items from one place to another are kept. -/
theorem slice_eq_kept {first stop : ℕ} (hstop : stop ≤ fullContext.length) (hfirst : first ≤ stop) :
    (slice fullContext first stop).map some =
      ((List.range' first (stop - first)).map Piece.kept).map (Piece.item fullContext) := by
  unfold slice
  rw [relativeIndex_natCast hstop, relativeIndex_natCast (hfirst.trans hstop), List.map_map]
  apply List.ext_getElem?
  intro i
  rw [List.getElem?_map, List.getElem?_map, List.getElem?_drop, List.getElem?_take]
  by_cases hi : first + i < stop
  · have hrange : (List.range' first (stop - first))[i]? = some (first + i) := by
      rw [List.getElem?_range' (by omega)]
      simp
    have hitem : fullContext[first + i]? = some fullContext[first + i] :=
      List.getElem?_eq_getElem (by omega)
    rw [if_pos hi, hrange, Option.map_some]
    show _ = some fullContext[first + i]?
    rw [hitem, Option.map_some]
  · have hrange : (List.range' first (stop - first))[i]? = none := by
      rw [List.getElem?_eq_none_iff, List.length_range']
      omega
    rw [if_neg hi, hrange]
    rfl

/-- The indices of kept items are those items. -/
theorem flatMap_kept (indices : List ℕ) : (indices.map Piece.kept).flatMap Piece.indices = indices := by
  induction indices with
  | nil => rfl
  | cons index indices ih =>
    rw [List.map_cons, List.flatMap_cons, ih]
    rfl

/-- Kept items have no summary. -/
theorem filterMap_kept (indices : List ℕ) : (indices.map Piece.kept).filterMap Piece.record? = [] := by
  rw [List.filterMap_map, List.filterMap_eq_nil_iff]
  intro index _
  rfl

/-- A range is its first part and the rest. -/
theorem range'_split {first middle last : ℕ} (h : first ≤ middle) (h' : middle ≤ last) :
    List.range' first (middle - first) ++ List.range' middle (last - middle) =
      List.range' first (last - first) := by
  have hsum : first + (middle - first) = middle := by omega
  have hlength : last - first = (middle - first) + (last - middle) := by omega
  rw [hlength, ← List.range'_append_1, hsum]

/-- The loop leaves nothing out from its position on. -/
theorem replaceFrom_spec {cursor : ℕ} (hcursor : cursor ≤ fullContext.length)
    (hchosen : Apart fullContext chosen)
    (hstart : ∀ record ∈ chosen, (cursor : ℤ) ≤ record.sourceStartIndex) :
    ∃ pieces : List Piece,
      (replaceFrom fullContext cursor chosen).map some = pieces.map (Piece.item fullContext) ∧
        pieces.flatMap Piece.indices = List.range' cursor (fullContext.length - cursor) ∧
        pieces.filterMap Piece.record? = chosen := by
  -- Along the chosen records, in order.
  induction chosen generalizing cursor with
  | nil =>
    refine ⟨(List.range' cursor (fullContext.length - cursor)).map Piece.kept, ?_, ?_, ?_⟩
    · exact slice_eq_kept (Nat.le_refl _) hcursor
    · exact flatMap_kept _
    · exact filterMap_kept _
  | cons record chosen ih =>
    obtain ⟨hvalid, hordered⟩ := hchosen
    obtain ⟨hpositive, hend, hrange⟩ := isValid_iff.mp (hvalid record List.mem_cons_self)
    obtain ⟨hafter, hordered⟩ := List.pairwise_cons.mp hordered
    -- The record starts at or after the cursor; what is between is kept.
    have hnow := hstart record List.mem_cons_self
    obtain ⟨first, hfirst⟩ := Int.eq_ofNat_of_zero_le hpositive
    obtain ⟨stop, hstop⟩ := Int.eq_ofNat_of_zero_le (by omega : 0 ≤ record.sourceEndIndex)
    have hrest : Apart fullContext chosen :=
      ⟨fun r hr => hvalid r (List.mem_cons_of_mem _ hr), hordered⟩
    have hlater : ∀ r ∈ chosen, (stop : ℤ) ≤ r.sourceStartIndex := by
      intro r hr
      rw [← hstop]
      exact hafter r hr
    -- From its end on the rest is by induction.
    obtain ⟨pieces, hitems, hindices, hrecords⟩ := @ih stop (by omega) hrest hlater
    refine ⟨(List.range' cursor (first - cursor)).map Piece.kept ++ Piece.replaced record :: pieces,
      ?_, ?_, ?_⟩
    · unfold replaceFrom
      rw [if_neg (by omega), hfirst, hstop, List.map_append, List.map_append,
        slice_eq_kept (by omega) (by omega), List.map_cons, List.map_cons, hitems]
      rfl
    · have hpiece : (Piece.replaced record).indices = List.range' first (stop - first) := by
        unfold Piece.indices
        dsimp only
        rw [hfirst, hstop, Int.toNat_natCast, Int.toNat_natCast]
      rw [List.flatMap_append, flatMap_kept, List.flatMap_cons, hpiece, hindices,
        range'_split (by omega) (by omega), range'_split (by omega) (by omega)]
    · rw [List.filterMap_append, filterMap_kept, List.nil_append, List.filterMap_cons]
      show record :: pieces.filterMap Piece.record? = record :: chosen
      rw [hrecords]

/-- Summaries that are apart are in the order of their starts. -/
theorem Apart.sorted (h : Apart fullContext chosen) :
    chosen.insertionSort (fun left right => left.sourceStartIndex ≤ right.sourceStartIndex) = chosen := by
  apply List.Pairwise.insertionSort_eq
  refine h.ordered.imp_of_mem ?_
  intro a b ha _ hab
  obtain ⟨-, -, hrange⟩ := isValid_iff.mp (h.valid a ha)
  omega

/-- Summaries with ranges apart stand for their ranges. -/
theorem replaceRanges_spec (h : Apart fullContext chosen) :
    Replaces fullContext chosen (replaceRanges fullContext chosen) := by
  unfold replaceRanges
  rw [h.sorted]
  have hstart : ∀ record ∈ chosen, ((0 : ℕ) : ℤ) ≤ record.sourceStartIndex := by
    intro record hrecord
    exact (isValid_iff.mp (h.valid record hrecord)).1
  obtain ⟨pieces, hitems, hindices, hrecords⟩ := replaceFrom_spec (Nat.zero_le _) h hstart
  refine ⟨pieces, hitems, ?_, hrecords⟩
  rw [hindices, List.range_eq_range', Nat.sub_zero]

/-- The first of summaries that are apart are so too. -/
theorem Apart.take (h : Apart fullContext chosen) (k : ℕ) : Apart fullContext (chosen.take k) :=
  ⟨fun record hrecord => h.valid record (List.mem_of_mem_take hrecord),
    h.ordered.sublist (List.take_sublist k chosen)⟩

/-- With no summaries the context is the full one. -/
theorem replaceRanges_nil : replaceRanges fullContext [] = fullContext := by
  show slice fullContext 0 fullContext.length = fullContext
  have hzero : relativeIndex fullContext.length 0 = 0 := relativeIndex_natCast (Nat.zero_le _)
  unfold slice
  rw [hzero, relativeIndex_natCast (Nat.le_refl _), List.take_length, List.drop_zero]

end Replacing

/-- A summary that was chosen is there. -/
theorem Replaces.mem {α : Type} {fullContext context : List (ContextItem α)}
    {chosen : List ContextSummaryRecord} (h : Replaces fullContext chosen context)
    {record : ContextSummaryRecord} (hrecord : record ∈ chosen) :
    .contextSummary record.summary ∈ context := by
  obtain ⟨pieces, hitems, -, rfl⟩ := h
  obtain ⟨piece, hpiece, hsome⟩ := List.mem_filterMap.mp hrecord
  have hitem : piece.item fullContext = some (.contextSummary record.summary) := by
    cases piece with
    | kept index => cases hsome
    | replaced r =>
      obtain rfl := Option.some.inj hsome
      rfl
  have hmem : piece.item fullContext ∈ context.map some := by
    rw [hitems]
    exact List.mem_map_of_mem hpiece
  rw [hitem] at hmem
  obtain ⟨item, hin, hsame⟩ := List.mem_map.mp hmem
  rw [← Option.some.inj hsame]
  exact hin

/-! ## The order of replacement -/

section Order

variable {α : Type} {fullContext : List (ContextItem α)} {summaries : List ContextSummaryRecord}

/-- The summaries of turns that are chosen are apart, and after what is covered. -/
theorem chooseTurns_spec (coveredUntil : ℤ)
    (hvalid : ∀ record ∈ summaries, isValid fullContext record = true) :
    (∀ record ∈ chooseTurns coveredUntil summaries,
        record ∈ summaries ∧ coveredUntil ≤ record.sourceStartIndex) ∧
      Apart fullContext (chooseTurns coveredUntil summaries) := by
  -- Along the summaries, with how far the chosen ones reach.
  induction summaries generalizing coveredUntil with
  | nil =>
    refine ⟨?_, ?_, List.Pairwise.nil⟩
    · intro record hrecord
      cases hrecord
    · intro record hrecord
      cases hrecord
  | cons summary summaries ih =>
    have hrest : ∀ record ∈ summaries, isValid fullContext record = true :=
      fun record hrecord => hvalid record (List.mem_cons_of_mem _ hrecord)
    unfold chooseTurns
    split_ifs with hcovered
    · -- It starts before what is covered: it is left out.
      obtain ⟨hmem, hapart⟩ := ih coveredUntil hrest
      refine ⟨?_, hapart⟩
      intro record hrecord
      obtain ⟨hin, hafter⟩ := hmem record hrecord
      exact ⟨List.mem_cons_of_mem _ hin, hafter⟩
    · -- It is chosen, and the next ones start after it.
      obtain ⟨hmem, hapart⟩ := ih summary.sourceEndIndex hrest
      have hsummary := hvalid summary List.mem_cons_self
      obtain ⟨-, -, hrange⟩ := isValid_iff.mp hsummary
      refine ⟨?_, ?_, List.pairwise_cons.mpr ⟨fun record hrecord => (hmem record hrecord).2, hapart.ordered⟩⟩
      · intro record hrecord
        rcases List.mem_cons.mp hrecord with rfl | hrecord
        · exact ⟨List.mem_cons_self, by omega⟩
        · obtain ⟨hin, hafter⟩ := hmem record hrecord
          exact ⟨List.mem_cons_of_mem _ hin, by omega⟩
      · intro record hrecord
        rcases List.mem_cons.mp hrecord with rfl | hrecord
        · exact hsummary
        · exact hapart.valid record hrecord

/-- The summaries that may be taken are of those there are, and apart. -/
theorem replacementOrder_spec (fullContext : List (ContextItem α))
    (summaries : List ContextSummaryRecord) :
    (∀ record ∈ replacementOrder fullContext summaries, record ∈ summaries) ∧
      Apart fullContext (replacementOrder fullContext summaries) := by
  -- What is sorted is what there was.
  have hturns : ∀ coveredUntil,
      ∀ record ∈ turnSummaries coveredUntil (summaries.filter (isValid fullContext)),
        record ∈ summaries.filter (isValid fullContext) := by
    intro coveredUntil record hrecord
    exact List.mem_of_mem_filter ((List.mem_insertionSort _).mp hrecord)
  have hvalid : ∀ record ∈ summaries.filter (isValid fullContext), isValid fullContext record = true := by
    intro record hrecord
    exact (List.mem_filter.mp hrecord).2
  unfold replacementOrder
  dsimp only
  cases hlatest : latestSecondary (summaries.filter (isValid fullContext)) with
  | none =>
    obtain ⟨hmem, hapart⟩ := chooseTurns_spec 0 fun record hrecord =>
      hvalid record (hturns 0 record hrecord)
    refine ⟨?_, hapart⟩
    intro record hrecord
    exact List.mem_of_mem_filter (hturns 0 record (hmem record hrecord).1)
  -- The latest summary of the second level comes first; the turns after it are added.
  | some latest =>
    obtain ⟨hmem, hapart⟩ := chooseTurns_spec latest.sourceEndIndex
      fun record hrecord => hvalid record (hturns latest.sourceEndIndex record hrecord)
    have hin : latest ∈ summaries.filter (isValid fullContext) := by
      unfold latestSecondary at hlatest
      have hhead := List.mem_of_head? hlatest
      exact List.mem_of_mem_filter ((List.mem_insertionSort _).mp hhead)
    refine ⟨?_, ?_, List.pairwise_cons.mpr ⟨fun record hrecord => (hmem record hrecord).2, hapart.ordered⟩⟩
    · intro record hrecord
      rcases List.mem_cons.mp hrecord with rfl | hrecord
      · exact List.mem_of_mem_filter hin
      · exact List.mem_of_mem_filter (hturns _ record (hmem record hrecord).1)
    · intro record hrecord
      rcases List.mem_cons.mp hrecord with rfl | hrecord
      · exact hvalid record hin
      · exact hapart.valid record hrecord

end Order

/-! ## Selecting -/

section Selecting

variable {α N : Type} [LinearOrder N] {m : ContextWindowManager N} {fullContext : List (ContextItem α)}
  {summaries : List ContextSummaryRecord} {estimateTokens : List (ContextItem α) → N}

/-- The loop stops at the first summary with which the estimate is small enough, or after the last one. -/
theorem selectFrom_spec (selected : List ContextSummaryRecord) (candidate : List (ContextItem α))
    (tokenEstimate : N) (hcandidate : candidate = replaceRanges fullContext selected)
    (htokens : tokenEstimate = estimateTokens candidate) :
    let result := selectFrom m fullContext estimateTokens selected candidate tokenEstimate summaries
    result.mode = .hybrid ∧ result.tokenEstimate = estimateTokens result.context ∧
      ∃ k ≤ summaries.length,
        result.context = replaceRanges fullContext (selected ++ summaries.take k) ∧
          (∀ j, 0 < j → j < k →
            m.targetTokens < estimateTokens (replaceRanges fullContext (selected ++ summaries.take j))) ∧
          (result.needsSecondaryCompaction = false ∧ 0 < k ∧ result.tokenEstimate ≤ m.targetTokens ∨
            result.needsSecondaryCompaction = true ∧ k = summaries.length ∧
              (0 < k → m.targetTokens < result.tokenEstimate)) := by
  -- Along the summaries: the first that brings the estimate below the target ends the loop.
  induction summaries generalizing selected candidate tokenEstimate with
  | nil =>
    dsimp only
    refine ⟨rfl, htokens, 0, Nat.le_refl _, ?_, ?_, Or.inr ⟨rfl, rfl, ?_⟩⟩
    · rw [List.take_zero, List.append_nil]
      exact hcandidate
    · intro j hpos hlt
      omega
    · intro hpos
      omega
  | cons summary summaries ih =>
    dsimp only
    have hcons : ∀ k, selected ++ (summary :: summaries).take (k + 1) =
        (selected ++ [summary]) ++ summaries.take k := by
      intro k
      rw [List.take_succ_cons, List.append_assoc]
      rfl
    unfold selectFrom
    dsimp only
    split_ifs with htarget
    · refine ⟨rfl, rfl, 1, by simp, ?_, ?_, Or.inl ⟨rfl, Nat.one_pos, htarget⟩⟩
      · rw [hcons 0, List.take_zero, List.append_nil]
      · intro j hpos hlt
        omega
    · -- It is not enough: the loop goes on with this one taken.
      obtain ⟨hmode, hestimate, k, hk, hcontext, hbefore, hend⟩ :=
        ih (selected ++ [summary]) (replaceRanges fullContext (selected ++ [summary])) _ rfl rfl
      refine ⟨hmode, hestimate, k + 1, by simpa using hk, ?_, ?_, ?_⟩
      · rw [hcons k]
        exact hcontext
      · intro j hpos hlt
        obtain ⟨i, rfl⟩ := Nat.exists_eq_succ_of_ne_zero (Nat.ne_of_gt hpos)
        rw [Nat.succ_eq_add_one, hcons i]
        rcases Nat.eq_zero_or_pos i with rfl | hi
        · rw [List.take_zero, List.append_nil]
          exact lt_of_not_ge htarget
        · exact hbefore i hi (by omega)
      · rcases hend with ⟨hneeds, -, hsmall⟩ | ⟨hneeds, hall, hlarge⟩
        · exact Or.inl ⟨hneeds, Nat.succ_pos k, hsmall⟩
        · refine Or.inr ⟨hneeds, by rw [hall, List.length_cons], ?_⟩
          intro _
          rcases Nat.eq_zero_or_pos k with hzero | hpos
          · rw [hestimate, hcontext, hzero, List.take_zero, List.append_nil]
            exact lt_of_not_ge htarget
          · exact hlarge hpos

/-- The context with the first summaries of the order in it. -/
def replacedBy (fullContext : List (ContextItem α)) (summaries : List ContextSummaryRecord) (k : ℕ) :
    List (ContextItem α) :=
  replaceRanges fullContext ((replacementOrder fullContext summaries).take k)

/-- The first summaries are all that are taken, and no fewer of them would do. -/
def TakesFirst (m : ContextWindowManager N) (fullContext : List (ContextItem α))
    (summaries : List ContextSummaryRecord) (estimateTokens : List (ContextItem α) → N)
    (context : List (ContextItem α)) (k : ℕ) : Prop :=
  Replaces fullContext ((replacementOrder fullContext summaries).take k) context ∧
    (∀ j < k, m.targetTokens < estimateTokens (replacedBy fullContext summaries j)) ∧
    (estimateTokens context ≤ m.targetTokens ∨ k = (replacementOrder fullContext summaries).length)

/-- What `select` returns. -/
structure Selects (m : ContextWindowManager N) (fullContext : List (ContextItem α))
    (summaries : List ContextSummaryRecord) (estimateTokens : List (ContextItem α) → N)
    (result : ContextSelection α N) : Prop where
  /-- The summaries that may be taken are of those given, with ranges apart from each other. -/
  known : ∀ record ∈ replacementOrder fullContext summaries, record ∈ summaries
  apart : Apart fullContext (replacementOrder fullContext summaries)
  estimate : result.tokenEstimate = estimateTokens result.context
  /-- A context that is small enough is left as it is. -/
  full : estimateTokens fullContext ≤ m.warningTokens →
    result.mode = .full ∧ result.context = fullContext
  /-- Otherwise summaries are taken as long as they are needed, and there are any. -/
  hybrid : m.warningTokens < estimateTokens fullContext → result.mode = .hybrid ∧
    ∃ k ≤ (replacementOrder fullContext summaries).length,
      TakesFirst m fullContext summaries estimateTokens result.context k
  needs : result.needsSecondaryCompaction = true ↔
    m.warningTokens < estimateTokens fullContext ∧
      ∀ k ≤ (replacementOrder fullContext summaries).length,
        m.targetTokens < estimateTokens (replacedBy fullContext summaries k)

/-- What is selected is as specified, for every context and every estimate. -/
theorem select_spec (m : ContextWindowManager N) (fullContext : List (ContextItem α))
    (summaries : List ContextSummaryRecord) (estimateTokens : List (ContextItem α) → N) :
    Selects m fullContext summaries estimateTokens (m.select fullContext summaries estimateTokens) := by
  obtain ⟨hknown, hapart⟩ := replacementOrder_spec fullContext summaries
  unfold ContextWindowManager.select
  dsimp only
  split_ifs with hwarning
  · refine ⟨hknown, hapart, rfl, fun _ => ⟨rfl, rfl⟩, fun hlarge => ?_, iff_of_false (by simp) ?_⟩
    · exact absurd hwarning (not_le_of_gt hlarge)
    · intro hneeds
      exact absurd hwarning (not_le_of_gt hneeds.1)
  · have hlarge := lt_of_not_ge hwarning
    have htarget := m.ordered.trans_lt hlarge
    obtain ⟨hmode, hestimate, k, hk, hcontext, hbefore, hend⟩ :=
      @selectFrom_spec α N _ m fullContext (replacementOrder fullContext summaries) estimateTokens []
        fullContext (estimateTokens fullContext) replaceRanges_nil.symm rfl
    rw [List.nil_append] at hcontext
    -- without a summary the context is too large as well
    have hnone : m.targetTokens < estimateTokens (replacedBy fullContext summaries 0) := by
      unfold replacedBy
      rw [List.take_zero, replaceRanges_nil]
      exact htarget
    have hfewer : ∀ j < k, m.targetTokens < estimateTokens (replacedBy fullContext summaries j) := by
      intro j hj
      rcases Nat.eq_zero_or_pos j with rfl | hpos
      · exact hnone
      · exact hbefore j hpos hj
    refine ⟨hknown, hapart, hestimate, fun hsmall => absurd hsmall hwarning, ?_, ?_⟩
    · intro _
      refine ⟨hmode, k, hk, ?_, hfewer, ?_⟩
      · rw [hcontext]
        exact replaceRanges_spec (hapart.take k)
      · rcases hend with ⟨-, -, hsmall⟩ | ⟨-, hall, -⟩
        · rw [hestimate] at hsmall
          exact Or.inl hsmall
        · exact Or.inr hall
    · rcases hend with ⟨hneeds, -, hsmall⟩ | ⟨hneeds, hall, hstill⟩
      · rw [hneeds]
        refine iff_of_false (by simp) ?_
        rintro ⟨-, hnever⟩
        rw [hestimate, hcontext] at hsmall
        exact absurd hsmall (not_le_of_gt (hnever k hk))
      · rw [hneeds]
        refine iff_of_true rfl ⟨hlarge, ?_⟩
        intro j hj
        rcases Nat.lt_or_eq_of_le hj with hlt | heq
        · exact hfewer j (by omega)
        · subst heq
          rcases Nat.eq_zero_or_pos k with hzero | hpos
          · rw [← hall, hzero]
            exact hnone
          · have hlast := hstill hpos
            rw [hestimate, hcontext, hall] at hlast
            exact hlast

end Selecting

/-! ## A context between the limits -/

/-- A window of 80 tokens. -/
def smallWindow : ContextWindowManager ℕ := ⟨80, 60, by decide⟩

/-- The summary of the first item. -/
def firstTurn : ContextSummaryRecord := ⟨"s", .turn, 0, 1, ⟨"request", "outcome"⟩, 0⟩

/-- A context of two items. -/
def twoItems : List (ContextItem ℕ) := [.other 0, .other 1]

/-- Between the two limits nothing is replaced, though there is a summary and the target is not reached. -/
theorem not_takesFirst_between_limits :
    ¬∃ k ≤ (replacementOrder twoItems [firstTurn]).length,
      TakesFirst smallWindow twoItems [firstTurn] (fun _ => 70)
        (smallWindow.select twoItems [firstTurn] fun _ => 70).context k := by
  rintro ⟨k, hk, hreplaces, -, hend⟩
  have horder : replacementOrder twoItems [firstTurn] = [firstTurn] := by decide
  rw [horder] at hk hreplaces hend
  rcases hend with hsmall | hall
  · exact absurd hsmall (by decide)
  · subst hall
    have hmem := hreplaces.mem List.mem_cons_self
    exact absurd hmem (by decide)

end OsAgent.ContextWindow
