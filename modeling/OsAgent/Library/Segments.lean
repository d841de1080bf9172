import Mathlib.Data.List.Basic

/-!
# Segments of a log

A reader takes a log in segments. Every entry of the log has a position, and a segment is all entries
after the one before it, up to its own upper position. `Covers` says so of a list of segments from some
position on. Then the log, read on to the last upper position, is the segments one after the other
(`flatMap_eq_filter`).
-/

namespace OsAgent.Library

variable {α β : Type*} (position : α → ℕ) (upper : β → ℕ) (entries : β → List α)

/-- The segments are what the log has after `start`, one after the other. -/
def Covers (log : List α) : ℕ → List β → Prop
  | _, [] => True
  | start, b :: segments =>
    entries b = log.filter (fun a => start < position a && position a ≤ upper b) ∧
      (∃ a ∈ entries b, position a = upper b) ∧ Covers log (upper b) segments

/-- Where the segments end. -/
def endOf (start : ℕ) (segments : List β) : ℕ := (segments.getLast?.map upper).getD start

variable {position upper entries} {log : List α} {start : ℕ} {segments : List β} {b : β}

/-- Without segments the end is the start. -/
@[simp]
theorem endOf_nil : endOf upper start [] = start := rfl

/-- The end is the upper position of the last segment. -/
@[simp]
theorem endOf_concat : endOf upper start (segments ++ [b]) = upper b := by
  unfold endOf
  rw [List.getLast?_concat]
  rfl

/-- The end does not depend on where the first segment starts. -/
theorem endOf_cons : endOf upper start (b :: segments) = endOf upper (upper b) segments := by
  unfold endOf
  rw [List.getLast?_cons]
  cases segments.getLast? <;> rfl

/-- A segment ends after it starts. -/
theorem lt_upper_of_covers (h : Covers position upper entries log start (b :: segments)) :
    start < upper b := by
  obtain ⟨hentries, ⟨a, ha, hupper⟩, -⟩ := h
  rw [hentries, List.mem_filter, Bool.and_eq_true, decide_eq_true_eq] at ha
  omega

/-- The segments end where they start, or later. -/
theorem le_endOf_of_covers (h : Covers position upper entries log start segments) :
    start ≤ endOf upper start segments := by
  induction segments generalizing start with
  | nil => exact Nat.le_refl start
  | cons b segments ih =>
    have hb := lt_upper_of_covers h
    have hrest := ih h.2.2
    rw [endOf_cons]
    omega

/-- The segments end at an entry of the log, unless there are none. -/
theorem exists_of_endOf (h : Covers position upper entries log start segments)
    (hne : segments ≠ []) : ∃ a ∈ log, position a = endOf upper start segments := by
  induction segments generalizing start with
  | nil => exact absurd rfl hne
  | cons b segments ih =>
    rw [endOf_cons]
    rcases eq_or_ne segments [] with rfl | hrest
    · obtain ⟨hentries, ⟨a, ha, hupper⟩, -⟩ := h
      rw [hentries] at ha
      exact ⟨a, (List.mem_filter.mp ha).1, hupper⟩
    · exact ih h.2.2 hrest

/-- Another segment starts where the others end. -/
theorem covers_concat : Covers position upper entries log start (segments ++ [b]) ↔
    Covers position upper entries log start segments ∧
      entries b = log.filter (fun a =>
        endOf upper start segments < position a && position a ≤ upper b) ∧
      ∃ a ∈ entries b, position a = upper b := by
  induction segments generalizing start with
  | nil =>
    show _ ∧ _ ∧ True ↔ True ∧ _
    rw [and_true, true_and]
    rfl
  | cons c segments ih =>
    rw [List.cons_append]
    unfold Covers
    rw [ih, endOf_cons, and_assoc, and_assoc]

/-- The log may grow: what comes later is of no segment. -/
theorem Covers.grow (h : Covers position upper entries log start segments) {more : List α}
    (hmore : ∀ a ∈ log, ∀ c ∈ more, position a < position c) :
    Covers position upper entries (log ++ more) start segments := by
  induction segments generalizing start with
  | nil => trivial
  | cons b segments ih =>
    obtain ⟨hentries, ⟨a, ha, hupper⟩, hrest⟩ := h
    refine ⟨?_, ⟨a, ha, hupper⟩, ih hrest⟩
    have hnone : more.filter (fun c => start < position c && position c ≤ upper b) = [] := by
      rw [List.filter_eq_nil_iff]
      intro c hc hwithin
      rw [Bool.and_eq_true, decide_eq_true_eq, decide_eq_true_eq] at hwithin
      rw [hentries] at ha
      have hlt := hmore a (List.mem_filter.mp ha).1 c hc
      omega
    rw [List.filter_append, hnone, List.append_nil]
    exact hentries

/-- In a log in order, what is up to an entry is what comes before it, and the entry. -/
theorem filter_le_eq_prefix {before after : List α} {last : α}
    (h : (before ++ after).Pairwise fun a c => position a < position c)
    (hlast : before.getLast? = some last) :
    (before ++ after).filter (fun a => position a ≤ position last) = before := by
  obtain ⟨init, rfl⟩ := List.getLast?_eq_some_iff.mp hlast
  obtain ⟨hbefore, -, hafter⟩ := List.pairwise_append.mp h
  have hin : (init ++ [last]).filter (fun a => position a ≤ position last) = init ++ [last] := by
    rw [List.filter_eq_self]
    intro a ha
    rw [decide_eq_true_eq]
    rcases List.mem_append.mp ha with hinit | hsame
    · have hlt := (List.pairwise_append.mp hbefore).2.2 a hinit last (List.mem_singleton.mpr rfl)
      omega
    · exact Nat.le_of_eq (congrArg position (List.mem_singleton.mp hsame))
  have hout : after.filter (fun a => position a ≤ position last) = [] := by
    rw [List.filter_eq_nil_iff]
    intro a ha hle
    rw [decide_eq_true_eq] at hle
    have hlt := hafter last (List.mem_append_right _ (List.mem_singleton.mpr rfl)) a ha
    omega
  rw [List.filter_append, hin, hout, List.append_nil]

/-- The part of a log in order between two positions is a part up to the middle and the rest. -/
theorem filter_between (h : log.Pairwise fun a c => position a < position c) {middle last : ℕ}
    (hstart : start ≤ middle) (hlast : middle ≤ last) :
    log.filter (fun a => start < position a && position a ≤ middle) ++
        log.filter (fun a => middle < position a && position a ≤ last) =
      log.filter (fun a => start < position a && position a ≤ last) := by
  -- Along the log: its positions only grow.
  induction log with
  | nil => rfl
  | cons a log ih =>
    obtain ⟨ha, hlog⟩ := List.pairwise_cons.mp h
    have hrest := ih hlog
    by_cases hmiddle : position a ≤ middle
    · have hsecond : (a :: log).filter (fun a => middle < position a && position a ≤ last) =
          log.filter (fun a => middle < position a && position a ≤ last) :=
        List.filter_cons_of_neg (by simp; omega)
      rw [hsecond]
      by_cases hafter : start < position a
      · rw [List.filter_cons_of_pos (by simp [hafter, hmiddle]),
          List.filter_cons_of_pos (by simp [hafter]; omega), List.cons_append, hrest]
      · rw [List.filter_cons_of_neg (by simp [hafter]), List.filter_cons_of_neg (by simp [hafter]),
          hrest]
    · -- From here on, all entries are after the middle.
      have hnone : (a :: log).filter (fun a => start < position a && position a ≤ middle) = [] := by
        rw [List.filter_eq_nil_iff]
        intro c hc hwithin
        rw [Bool.and_eq_true, decide_eq_true_eq, decide_eq_true_eq] at hwithin
        rcases List.mem_cons.mp hc with rfl | hc
        · exact hmiddle hwithin.2
        · have hlt := ha c hc
          omega
      rw [hnone, List.nil_append]
      apply List.filter_congr
      intro c hc
      have hlt : middle < position c := by
        rcases List.mem_cons.mp hc with rfl | hc
        · omega
        · have hac := ha c hc
          omega
      rw [decide_eq_true hlt, decide_eq_true (by omega : start < position c)]

/-- The log, up to where the segments end, is the segments one after the other. -/
theorem flatMap_eq_filter (hlog : log.Pairwise fun a c => position a < position c)
    (h : Covers position upper entries log start segments) :
    segments.flatMap entries =
      log.filter (fun a => start < position a && position a ≤ endOf upper start segments) := by
  induction segments generalizing start with
  | nil =>
    symm
    rw [List.flatMap_nil, List.filter_eq_nil_iff]
    intro a _ hwithin
    rw [Bool.and_eq_true, decide_eq_true_eq, decide_eq_true_eq, endOf_nil] at hwithin
    omega
  | cons b segments ih =>
    have hb := lt_upper_of_covers h
    obtain ⟨hentries, -, hrest⟩ := h
    have hend := le_endOf_of_covers hrest
    rw [List.flatMap_cons, ih hrest, hentries, endOf_cons]
    exact filter_between hlog (Nat.le_of_lt hb) hend

/-- What a selection keeps of the first elements is the beginning of what it keeps, if it keeps nothing after an
element that it leaves out. -/
theorem filter_take {p : α → Bool} {l : List α} (h : l.Pairwise fun a b => p b = true → p a = true)
    (n : ℕ) : (l.take n).filter p = (l.filter p).take n := by
  induction l generalizing n with
  | nil => simp
  | cons a l ih =>
    rw [List.pairwise_cons] at h
    cases n with
    | zero => simp
    | succ n =>
      rw [List.take_succ_cons]
      by_cases ha : p a = true
      · rw [List.filter_cons_of_pos ha, List.filter_cons_of_pos ha, List.take_succ_cons, ih h.2]
      · have hnone : l.filter p = [] := by
          rw [List.filter_eq_nil_iff]
          exact fun b hb hpb => ha (h.1 b hb hpb)
        rw [List.filter_cons_of_neg ha, List.filter_cons_of_neg ha, ih h.2, hnone]
        simp

/-- What equals a list is a start of it. -/
theorem prefix_of_eq {l l' : List α} (h : l' = l) : l <+: l' :=
  ⟨[], by rw [h, List.append_nil]⟩

end OsAgent.Library
