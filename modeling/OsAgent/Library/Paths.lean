import Mathlib.Data.List.Basic

/-!
# Absolute paths

Paths of a POSIX file system as `path.resolve` makes them: absolute, and without empty segments, dots,
and double dots. `resolve` appends a relative path to an absolute one. A relative path goes up some
number of directories and then down a list of names, which `walk` reads off its segments, and
`resolve_segments` says where it leads from a given path.
-/

namespace OsAgent.Library

/-- The characters between two slashes. -/
abbrev Segment := List Char

/-- A segment that names a directory entry. -/
def IsName (s : Segment) : Prop := s ≠ [] ∧ s ≠ ['.'] ∧ s ≠ ['.', '.'] ∧ '/' ∉ s

instance (s : Segment) : Decidable (IsName s) := inferInstanceAs (Decidable (_ ∧ _))

/-- An absolute path in normal form. -/
structure AbsolutePath where
  segments : List Segment
  names : ∀ s ∈ segments, IsName s
deriving DecidableEq

namespace AbsolutePath

/-- How the path is written. -/
def text (path : AbsolutePath) : List Char := '/' :: ['/'].intercalate path.segments

/-- A path is known by its segments. -/
@[ext]
theorem ext {path path' : AbsolutePath} (h : path.segments = path'.segments) : path = path' := by
  cases path
  cases path'
  simp_all

/-- The segments between the slashes of the text. The root is written with one slash, so it has an
empty segment here. -/
theorem splitOn_text (path : AbsolutePath) :
    path.text.splitOn '/' = [] :: if path.segments = [] then [[]] else path.segments := by
  have hsplit : path.text.splitOn '/' = [[]] ++ (['/'].intercalate path.segments).splitOn '/' :=
    List.splitOn_append_cons_self [] _
  rw [hsplit, List.singleton_append]
  congr 1
  split_ifs with hroot
  · rw [hroot]
    rfl
  · exact List.splitOn_intercalate '/' (fun s hs => (path.names s hs).2.2.2) hroot

/-- Segments that go on after others are written after a slash. -/
theorem intercalate_append {before more : List Segment} (hbefore : before ≠ []) (hmore : more ≠ []) :
    ['/'].intercalate (before ++ more) = ['/'].intercalate before ++ '/' :: ['/'].intercalate more := by
  have hcons (a : Segment) {rest : List Segment} (h : rest ≠ []) :
      ['/'].intercalate (a :: rest) = a ++ '/' :: ['/'].intercalate rest := by
    obtain ⟨b, rest, rfl⟩ := List.exists_cons_of_ne_nil h
    simp [List.intercalate]
  induction before with
  | nil => exact absurd rfl hbefore
  | cons a before ih =>
    cases before with
    | nil =>
      rw [List.singleton_append, hcons a hmore]
      simp [List.intercalate]
    | cons b before =>
      rw [List.cons_append, hcons a (by simp), ih (List.cons_ne_nil b before),
        hcons a (List.cons_ne_nil b before), List.append_assoc, List.cons_append]

/-- The text of a path that is below another one, which is not the root directory, goes on after the text
of that one and a slash. -/
theorem prefix_of_append {path path' : AbsolutePath} {more : List Segment}
    (hpath : path.segments ≠ []) (hmore : more ≠ [])
    (h : path'.segments = path.segments ++ more) : path.text ++ ['/'] <+: path'.text := by
  refine ⟨['/'].intercalate more, ?_⟩
  unfold text
  rw [h, intercalate_append hpath hmore, List.cons_append, List.cons_append, List.append_assoc,
    List.singleton_append]

/-- A path whose text goes on after that of another and a slash is below it. -/
theorem exists_append_of_prefix {path path' : AbsolutePath}
    (h : path.text ++ ['/'] <+: path'.text) :
    ∃ more, more ≠ [] ∧ path'.segments = path.segments ++ more := by
  obtain ⟨rest, hrest⟩ := h
  rw [List.append_assoc, List.singleton_append] at hrest
  have hsplit := congrArg (List.splitOn '/') hrest
  rw [List.splitOn_append_cons_self, splitOn_text, splitOn_text, List.cons_append] at hsplit
  have htail := (List.cons.inj hsplit).2
  have hmore : rest.splitOn '/' ≠ [] := List.splitOn_ne_nil '/' rest
  split_ifs at htail with hroot hroot' hroot'
  · exact absurd (List.cons.inj htail).2 hmore
  · have hname := path'.names [] (by rw [← htail]; exact List.mem_cons_self)
    exact absurd rfl hname.1
  · have hlength := congrArg List.length htail
    have hpos := List.length_pos_iff.mpr hroot
    have hpos' := List.length_pos_iff.mpr hmore
    rw [List.length_append, List.length_singleton] at hlength
    omega
  · exact ⟨_, hmore, htail.symm⟩

end AbsolutePath

/-! ## Normal form -/

/-- One more segment: an empty one and a dot stay, and a double dot goes up, but not above the
root. -/
def enter (stack : List Segment) (s : Segment) : List Segment :=
  if s = [] ∨ s = ['.'] then stack
  else if s = ['.', '.'] then stack.dropLast
  else stack ++ [s]

/-- Entering a segment keeps the names. -/
theorem names_enter {stack : List Segment} {s : Segment} (h : ∀ t ∈ stack, IsName t)
    (hs : '/' ∉ s) : ∀ t ∈ enter stack s, IsName t := by
  unfold enter
  split_ifs with hstay hup
  · exact h
  · exact fun t ht => h t (List.dropLast_subset stack ht)
  · intro t ht
    rcases List.mem_append.mp ht with ht | ht
    · exact h t ht
    · rw [List.mem_singleton.mp ht]
      exact ⟨fun hnil => hstay (.inl hnil), fun hdot => hstay (.inr hdot), hup, hs⟩

/-- Entering segments one after the other keeps the names. -/
theorem names_foldl_enter {segments stack : List Segment} (h : ∀ t ∈ stack, IsName t)
    (hs : ∀ s ∈ segments, '/' ∉ s) : ∀ t ∈ segments.foldl enter stack, IsName t := by
  induction segments generalizing stack with
  | nil => exact h
  | cons s segments ih =>
    rw [List.forall_mem_cons] at hs
    exact ih (names_enter h hs.1) hs.2

/-- What a list is split at is in none of the parts. -/
theorem not_mem_of_mem_splitOn {α : Type} [BEq α] [LawfulBEq α] {a : α} {l s : List α}
    (h : s ∈ l.splitOn a) : a ∉ s := by
  induction l generalizing s with
  | nil =>
    rw [List.splitOn_nil, List.mem_singleton] at h
    rw [h]
    exact List.not_mem_nil
  | cons b l ih =>
    rw [List.splitOn_cons_eq_if_modifyHead] at h
    split_ifs at h with hb
    · rcases List.mem_cons.mp h with rfl | h
      · exact List.not_mem_nil
      · exact ih h
    · cases hl : l.splitOn a with
      | nil => exact absurd hl (List.splitOn_ne_nil a l)
      | cons t ts =>
        rw [hl, List.modifyHead_cons] at h
        rcases List.mem_cons.mp h with rfl | h
        · intro hmem
          rcases List.mem_cons.mp hmem with rfl | hmem
          · exact hb (beq_self_eq_true a)
          · exact ih (by rw [hl]; exact List.mem_cons_self) hmem
        · exact ih (by rw [hl]; exact List.mem_cons_of_mem _ h)

/-- `resolve(base, relative)`, for a relative path. -/
def AbsolutePath.resolve (base : AbsolutePath) (relative : List Char) : AbsolutePath where
  segments := ((base.text ++ '/' :: relative).splitOn '/').foldl enter []
  names := names_foldl_enter (fun _ h => (by cases h)) fun _ => not_mem_of_mem_splitOn

/-! ## Where a relative path leads -/

/-- Some directories up, and then down along names. -/
structure Walk where
  up : ℕ
  down : List Segment
deriving DecidableEq

/-- One more segment of a relative path. -/
def Walk.enter (w : Walk) (s : Segment) : Walk :=
  if s = [] ∨ s = ['.'] then w
  else if s = ['.', '.'] then
    if w.down = [] then { w with up := w.up + 1 } else { w with down := w.down.dropLast }
  else { w with down := w.down ++ [s] }

/-- The walk of a relative path. -/
def walk (relative : List Char) : Walk := (relative.splitOn '/').foldl Walk.enter ⟨0, []⟩

/-- Where a walk from the directory with these segments ends. -/
def Walk.after (w : Walk) (segments : List Segment) : List Segment :=
  segments.take (segments.length - w.up) ++ w.down

/-- A walk and then a segment is the walk with the segment. -/
theorem enter_after (w : Walk) (segments : List Segment) (s : Segment) :
    Library.enter (w.after segments) s = (w.enter s).after segments := by
  unfold Library.enter Walk.enter Walk.after
  split_ifs with hstay hup hdown
  · rfl
  · have hlength : min (min (segments.length - w.up) segments.length - 1)
        (segments.length - w.up) = segments.length - (w.up + 1) := by omega
    rw [hdown, List.append_nil, List.append_nil, List.dropLast_eq_take, List.length_take,
      List.take_take, hlength]
  · exact List.dropLast_append_of_ne_nil hdown
  · exact List.append_assoc ..

/-- A walk and then some segments is the walk with the segments. -/
theorem foldl_enter_after (w : Walk) (segments more : List Segment) :
    more.foldl enter (w.after segments) = (more.foldl Walk.enter w).after segments := by
  induction more generalizing w with
  | nil => rfl
  | cons s more ih =>
    rw [List.foldl_cons, List.foldl_cons, enter_after, ih]

/-- The segments of an absolute path are entered one after the other. -/
theorem foldl_enter_text (path : AbsolutePath) :
    (path.text.splitOn '/').foldl enter [] = path.segments := by
  have hentered : ∀ segments stack : List Segment, (∀ s ∈ segments, IsName s) →
      segments.foldl enter stack = stack ++ segments := by
    intro segments
    induction segments with
    | nil =>
      intro stack _
      exact (List.append_nil stack).symm
    | cons s segments ih =>
      intro stack h
      rw [List.forall_mem_cons] at h
      obtain ⟨⟨hnil, hdot, hup, -⟩, hrest⟩ := h
      rw [List.foldl_cons, enter, if_neg (not_or.mpr ⟨hnil, hdot⟩), if_neg hup, ih _ hrest,
        List.append_assoc, List.singleton_append]
  rw [AbsolutePath.splitOn_text]
  split_ifs with hroot
  · rw [hroot]
    rfl
  · exact hentered path.segments [] path.names

/-- A relative path leads up and then down. -/
theorem resolve_segments (base : AbsolutePath) (relative : List Char) :
    (base.resolve relative).segments = (walk relative).after base.segments := by
  have hstart : base.segments = (⟨0, []⟩ : Walk).after base.segments := by
    unfold Walk.after
    simp
  unfold AbsolutePath.resolve walk
  dsimp only
  rw [List.splitOn_append_cons_self, List.foldl_append, foldl_enter_text]
  conv_lhs => rw [hstart]
  exact foldl_enter_after _ _ _

/-- It leads back to where it starts exactly when it goes down by the names that it has gone up. -/
theorem resolve_eq_self_iff {base : AbsolutePath} {relative : List Char} :
    base.resolve relative = base ↔
      (walk relative).down = base.segments.drop (base.segments.length - (walk relative).up) := by
  rw [AbsolutePath.ext_iff, resolve_segments, Walk.after]
  conv_lhs => rhs; rw [← List.take_append_drop
    (base.segments.length - (walk relative).up) base.segments]
  exact List.append_right_inj _

end OsAgent.Library
