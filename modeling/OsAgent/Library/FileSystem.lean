import Mathlib.Data.List.Induction
import OsAgent.Library.Paths

/-!
# Symbolic links

What a program learns of the symbolic links of a file system, it learns from `realpath`. A `FileSystem` is
what may be relied on of it: a real path is one of its own, and the links on the way to an entry are
followed before the entry is looked at. Programs that remove an entry follow the links on the way to it, and
remove a link at the end as the entry that it is, so what they remove has the place `FileSystem.removed`.

`LinkTable` lists the links of a file system. Following them from the root on gives a `realpath` with both
properties (`LinkTable.fileSystem`).
-/

namespace OsAgent.Library

namespace AbsolutePath

/-- `dirname`. -/
def parent (path : AbsolutePath) : AbsolutePath where
  segments := path.segments.dropLast
  names s hs := path.names s (List.dropLast_subset _ hs)

/-- The entry of a directory that has the last name of a path. -/
def placedIn (path directory : AbsolutePath) : AbsolutePath where
  segments := directory.segments ++ path.segments.getLast?.toList
  names s hs := by
    rcases List.mem_append.mp hs with hs | hs
    · exact directory.names s hs
    · exact path.names s (List.mem_of_getLast? (Option.mem_toList.mp hs))

end AbsolutePath

/-- A file system, as `realpath` shows it. -/
structure FileSystem (ε : Type*) where
  realpath : AbsolutePath → Except ε AbsolutePath
  /-- A real path leads to itself. -/
  real : ∀ path place, realpath path = .ok place → realpath place = .ok place
  /-- The links on the way are followed first. -/
  follows : ∀ path directory, path.segments ≠ [] → realpath path.parent = .ok directory →
    ∀ place, realpath path = .ok place ↔ realpath (path.placedIn directory) = .ok place

/-- The place of the entry that is removed under a path. -/
def FileSystem.removed {ε : Type*} (fs : FileSystem ε) (path : AbsolutePath) : Except ε AbsolutePath := do
  let directory ← fs.realpath path.parent
  pure (path.placedIn directory)

/-! ## Tables of links -/

/-- The links of a file system, by the segments of their paths. The root directory is no link, and no link
is on the way to where a link leads. -/
structure LinkTable where
  target : List Segment → Option AbsolutePath
  root : target [] = none
  plain : ∀ link place, target link = some place →
    ∀ segments, segments <+: place.segments → target segments = none

namespace LinkTable

variable (table : LinkTable)

/-- The segments of the entry of a real directory, after a link at it has been followed. -/
def enter (directory : List Segment) (name : Segment) : List Segment :=
  match table.target (directory ++ [name]) with
  | some place => place.segments
  | none => directory ++ [name]

/-- The segments of a path, after every link has been followed. -/
def follow (segments : List Segment) : List Segment := segments.foldl table.enter []

/-- No link is on the way. -/
def Plain (segments : List Segment) : Prop := ∀ before, before <+: segments → table.target before = none

variable {table}

/-- Following the links from one directory on names entries of file systems only. -/
theorem names_foldl {directory segments : List Segment} (hd : ∀ s ∈ directory, IsName s)
    (hs : ∀ s ∈ segments, IsName s) : ∀ s ∈ segments.foldl table.enter directory, IsName s := by
  induction segments generalizing directory with
  | nil => exact hd
  | cons name segments ih =>
    rw [List.forall_mem_cons] at hs
    refine ih ?_ hs.2
    unfold enter
    split
    · next place _ => exact place.names
    · intro s hmem
      rcases List.mem_append.mp hmem with hmem | hmem
      · exact hd s hmem
      · rw [List.mem_singleton.mp hmem]
        exact hs.1

/-- An entry of a plain directory is plain, once the link at it has been followed. -/
theorem Plain.enter {directory : List Segment} (h : table.Plain directory) (name : Segment) :
    table.Plain (table.enter directory name) := by
  unfold LinkTable.enter
  split
  · next place hplace => exact table.plain _ place hplace
  · next hnone =>
    intro before hbefore
    rcases List.prefix_concat_iff.mp hbefore with rfl | hshort
    · exact hnone
    · exact h before hshort

/-- Where the links lead is plain. -/
theorem plain_foldl {directory : List Segment} (h : table.Plain directory) (segments : List Segment) :
    table.Plain (segments.foldl table.enter directory) := by
  induction segments generalizing directory with
  | nil => exact h
  | cons name segments ih => exact ih (h.enter name)

/-- On a plain path nothing is followed. -/
theorem follow_of_plain {segments : List Segment} (h : table.Plain segments) :
    table.follow segments = segments := by
  induction segments using List.reverseRecOn with
  | nil => rfl
  | append_singleton segments name ih =>
    have hbefore : table.Plain segments :=
      fun before hpre => h before (hpre.trans (List.prefix_append _ _))
    have hlast : table.target (segments ++ [name]) = none := h _ List.prefix_rfl
    unfold follow at ih ⊢
    rw [List.foldl_append, ih hbefore, List.foldl_cons, List.foldl_nil, LinkTable.enter, hlast]

variable (table)

/-- `realpath`, where everything exists. -/
def realpath (path : AbsolutePath) : AbsolutePath where
  segments := table.follow path.segments
  names := names_foldl (fun _ h => (by cases h)) path.names

variable {table}

/-- Every real path is plain. -/
theorem plain_realpath (path : AbsolutePath) :
    table.Plain (table.realpath path).segments := by
  apply plain_foldl
  intro before hbefore
  rw [List.prefix_nil.mp hbefore]
  exact table.root

/-- Following the links of the directory first leads to the same place. -/
theorem realpath_placedIn {path : AbsolutePath} (hpath : path.segments ≠ []) :
    table.realpath (path.placedIn (table.realpath path.parent)) = table.realpath path := by
  have hdirectory : table.follow (table.realpath path.parent).segments =
      (table.realpath path.parent).segments := follow_of_plain (plain_realpath path.parent)
  obtain ⟨segments, name, hsplit⟩ := (List.eq_nil_or_concat path.segments).resolve_left hpath
  rw [List.concat_eq_append] at hsplit
  apply AbsolutePath.ext
  show table.follow ((table.realpath path.parent).segments ++ path.segments.getLast?.toList) =
    table.follow path.segments
  have hparent : (table.realpath path.parent).segments = table.follow segments := by
    show table.follow path.segments.dropLast = _
    rw [hsplit, List.dropLast_concat]
  rw [hparent] at hdirectory ⊢
  rw [hsplit, List.getLast?_concat]
  unfold follow at hdirectory ⊢
  rw [List.foldl_append, hdirectory, Option.toList_some, List.foldl_append]

variable (table)

/-- The file system with these links, in which everything exists. -/
def fileSystem (ε : Type*) : FileSystem ε where
  realpath path := .ok (table.realpath path)
  real path place h := by
    obtain rfl := Except.ok.inj h
    congr 1
    exact AbsolutePath.ext (follow_of_plain (plain_realpath path))
  follows path directory hpath h place := by
    obtain rfl := Except.ok.inj h
    rw [realpath_placedIn hpath]

end LinkTable

end OsAgent.Library
