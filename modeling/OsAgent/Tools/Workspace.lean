import OsAgent.Capability.Requests
import OsAgent.Library.FileSystem
import OsAgent.Library.Json

/-!
# Paths of the workspace

Tools name files by `workspace://current/...`, and `WorkspaceResolver` turns such a name into a path
of the host: by its text alone in `toHostPath`, and against the file system, which follows symbolic
links, in `assertResolvedInsideRoot`. `directory.delete` refuses the root of the workspace, as far as
its `validateInput` recognizes it. It does not see by the text of a path that a link on the way leads out
of the workspace, and that the path comes back to the root from there; and what is checked of the real path
is only that it is the root or below. `spares_iff` says when the root is spared.
-/

namespace OsAgent.Tools

open OsAgent.Library
open OsAgent.Capability (trim startsWith)

/-- `CURRENT_WORKSPACE_RESOURCE`. -/
def currentWorkspaceResource : String := "workspace://current/"

/-- What a tool throws. -/
inductive ToolError where
  /-- A `WorkspaceEscapeError`. -/
  | workspaceEscape (attemptedPath : String)
  /-- A `ToolPreconditionError`. -/
  | precondition (code message : String)
  | error (message : String)
deriving DecidableEq, Repr

/-! ## The resolver -/

/-- The resolver of a workspace, by the canonical path of its root. -/
structure WorkspaceResolver where
  root : AbsolutePath

namespace WorkspaceResolver

/-- `isAbsolute`. -/
def isAbsolute (path : List Char) : Bool := path.head? = some '/'

/-- The path below the root that an alias names. -/
def toRelativePath (aliasPath : String) : Except ToolError (List Char) :=
  let trimmed := trim aliasPath
  if trimmed = "" then .error (.workspaceEscape aliasPath)
  else if trimmed = currentWorkspaceResource ∨ trimmed = "workspace://current" then .ok ['.']
  else if ¬ startsWith trimmed currentWorkspaceResource then .error (.workspaceEscape aliasPath)
  else
    let relativePart := trimmed.toList.drop currentWorkspaceResource.length
    if isAbsolute relativePart then .error (.workspaceEscape aliasPath) else .ok relativePart

variable (resolver : WorkspaceResolver)

/-- Whether a path is the root or below it. -/
def isInsideRoot (hostPath : AbsolutePath) : Bool :=
  hostPath = resolver.root || (resolver.root.text ++ ['/']).isPrefixOf hostPath.text

/-- The path of the host that an alias names, if it is in the workspace. -/
def toHostPath (aliasPath : String) : Except ToolError AbsolutePath := do
  let relativePath ← toRelativePath aliasPath
  let hostPath := resolver.root.resolve relativePath
  require (resolver.isInsideRoot hostPath) (.workspaceEscape aliasPath)
  pure hostPath

/-- What `realpath` makes of a path. -/
abbrev Realpath := AbsolutePath → Except ToolError AbsolutePath

/-- The path behind all links, if it is in the workspace. -/
def assertResolvedInsideRoot (realpath : Realpath) (hostPath : AbsolutePath) :
    Except ToolError AbsolutePath := do
  let resolved ← realpath hostPath
  require (resolver.isInsideRoot resolved)
    (.workspaceEscape (String.ofList hostPath.text))
  pure resolved

/-- The constructor: the root is the path behind all links. -/
def create (realpath : Realpath) (hostRootPath : AbsolutePath) :
    Except ToolError WorkspaceResolver := do
  let canonicalRoot ← realpath hostRootPath
  pure ⟨canonicalRoot⟩

end WorkspaceResolver

open WorkspaceResolver

/-! ## `directory.delete` -/

/-- The result of `validateInput`: an input that is not valid has an error. -/
abbrev ToolInputValidation := Except String Unit

/-- A field has to be the alias of a path in the workspace. -/
def requireStringField (input : JsonValue) (field : String) : ToolInputValidation :=
  match input.get? field with
  | some (.string value) => do
    require (isBlank value = false) (field ++ " must be a non-empty string.")
    require (value = "workspace://current" ∨ startsWith value currentWorkspaceResource)
      (field ++ " must start with " ++ currentWorkspaceResource ++ ".")
  | _ => .error (field ++ " must be a non-empty string.")

namespace DirectoryDelete

/-- The root itself is refused by its name. -/
def validateInput (input : JsonValue) : ToolInputValidation := do
  requireStringField input "path"
  require ((input.get? "path").bind JsonValue.asString? ≠ some currentWorkspaceResource)
    "The workspace root directory cannot be deleted."

/-- The text of the path that is deleted. `validateInput` has made sure that there is one. -/
def pathOf (input : JsonValue) : String :=
  ((input.get? "path").bind JsonValue.asString?).getD "undefined"

/-- The path that is handed to `rm`, which deletes what is there and below. -/
def execute (realpath : Realpath) (workspaceRoot : Option AbsolutePath) (input : JsonValue) :
    Except ToolError AbsolutePath :=
  match workspaceRoot with
  | none => .error (.error
      "This tool requires a mounted workspace; none is attached to the conversation.")
  | some hostRootPath => do
    let resolver ← WorkspaceResolver.create realpath hostRootPath
    let hostPath ← resolver.toHostPath (pathOf input)
    let _ ← resolver.assertResolvedInsideRoot realpath hostPath
    pure hostPath

end DirectoryDelete

/-! ## What lies below the root -/

/-- The path has more segments than the root, after those of the root. -/
def StrictlyBelow (root path : AbsolutePath) : Prop :=
  ∃ more, more ≠ [] ∧ path.segments = root.segments ++ more

/-- What is below the root is not the root. -/
theorem StrictlyBelow.ne {root path : AbsolutePath} (h : StrictlyBelow root path) :
    path ≠ root := by
  rintro rfl
  obtain ⟨more, hmore, heq⟩ := h
  exact hmore (List.append_right_eq_self.mp heq.symm)

/-- The relative path goes up from the root by some directories and comes down by their names, or
stays where it is. It does not begin with a slash, since that is refused. -/
def ReturnsToRoot (root : AbsolutePath) (relative : List Char) : Prop :=
  isAbsolute relative = false ∧
    (walk relative).down = root.segments.drop (root.segments.length - (walk relative).up)

instance (root : AbsolutePath) (relative : List Char) : Decidable (ReturnsToRoot root relative) :=
  inferInstanceAs (Decidable (_ ∧ _))

/-- Without the white space around it, the path is the root's name without its slash, or the root's
name with a relative path after it that returns to the root. -/
def NamesRoot (root : AbsolutePath) (path : String) : Prop :=
  trim path = "workspace://current" ∨
    startsWith (trim path) currentWorkspaceResource ∧
      ReturnsToRoot root ((trim path).toList.drop currentWorkspaceResource.length)

instance (root : AbsolutePath) (path : String) : Decidable (NamesRoot root path) :=
  inferInstanceAs (Decidable (_ ∨ _ ∧ _))

variable {resolver : WorkspaceResolver} {hostPath : AbsolutePath} {path : String}

/-- What is inside the root is the root or lies below it. -/
theorem eq_or_strictlyBelow (h : resolver.isInsideRoot hostPath = true) :
    hostPath = resolver.root ∨ StrictlyBelow resolver.root hostPath := by
  unfold isInsideRoot at h
  rcases Bool.or_eq_true_iff.mp h with hroot | hbelow
  · exact .inl (of_decide_eq_true hroot)
  · exact .inr (AbsolutePath.exists_append_of_prefix (List.isPrefixOf_iff_prefix.mp hbelow))

/-- The root is inside itself. -/
theorem isInsideRoot_root : resolver.isInsideRoot resolver.root = true := by
  simp [isInsideRoot]

/-- A dot stays at the root. -/
theorem resolve_dot (root : AbsolutePath) : root.resolve ['.'] = root := by
  rw [resolve_eq_self_iff]
  show [] = root.segments.drop (root.segments.length - 0)
  rw [Nat.sub_zero, List.drop_length]

/-- An alias is read as a path inside the root. -/
theorem toHostPath_eq_ok : resolver.toHostPath path = .ok hostPath ↔
    ∃ relative, toRelativePath path = .ok relative ∧
      resolver.root.resolve relative = hostPath ∧ resolver.isInsideRoot hostPath = true := by
  unfold toHostPath
  simp only [bind_eq_ok, require_eq_ok, pure_eq_ok]
  constructor
  · rintro ⟨relative, hrelative, u, hinside, rfl⟩
    exact ⟨relative, hrelative, rfl, hinside⟩
  · rintro ⟨relative, hrelative, rfl, hinside⟩
    exact ⟨relative, hrelative, (), hinside, rfl⟩

/-- The relative part of a name leads back to the root exactly when the name names the root. -/
theorem namesRoot_iff {root : AbsolutePath} : NamesRoot root path ↔
    ∃ relative, toRelativePath path = .ok relative ∧ root.resolve relative = root := by
  unfold NamesRoot toRelativePath
  -- An empty name, a name of the root, a name below it, and any other are read differently.
  by_cases hempty : trim path = ""
  · rw [if_pos hempty, hempty]
    constructor
    · intro hnames
      exfalso
      rcases hnames with habsurd | ⟨habsurd, -⟩
      · revert habsurd
        decide +kernel
      · revert habsurd
        decide +kernel
    · rintro ⟨relative, habsurd, -⟩
      cases habsurd
  rw [if_neg hempty]
  by_cases hroot : trim path = currentWorkspaceResource ∨ trim path = "workspace://current"
  · rw [if_pos hroot]
    refine iff_of_true ?_ ⟨['.'], rfl, resolve_dot root⟩
    rcases hroot with hslash | hbare
    · refine .inr ⟨?_, ?_, ?_⟩
      · rw [hslash]
        decide +kernel
      · rw [hslash]
        decide +kernel
      · rw [hslash]
        show [] = root.segments.drop (root.segments.length - 0)
        rw [Nat.sub_zero, List.drop_length]
    · exact .inl hbare
  rw [if_neg hroot]
  obtain ⟨-, hbare⟩ := not_or.mp hroot
  by_cases hstart : startsWith (trim path) currentWorkspaceResource
  · rw [if_neg (not_not.mpr hstart)]
    unfold ReturnsToRoot
    cases habsolute : isAbsolute ((trim path).toList.drop currentWorkspaceResource.length) with
    | true => simp [hbare, habsolute]
    | false => simp [hbare, hstart, habsolute, resolve_eq_self_iff]
  · rw [if_pos hstart]
    simp [hbare, hstart]

/-- A name that resolves to the root names the root, and the other way around. -/
theorem toHostPath_root : resolver.toHostPath path = .ok resolver.root ↔
    NamesRoot resolver.root path := by
  rw [toHostPath_eq_ok, namesRoot_iff]
  refine exists_congr fun relative => and_congr_right fun _ => ?_
  exact and_iff_left isInsideRoot_root

/-! ## The root is spared -/

/-- Below the root by its text, the path leads to the root: the links on the way lead to the directory of
the root, and the last name is the name of the root. -/
def LinkedToRoot (fs : FileSystem ToolError) (root hostPath : AbsolutePath) : Prop :=
  StrictlyBelow root hostPath ∧ fs.realpath root = .ok root ∧
    ∃ directory, fs.realpath hostPath.parent = .ok directory ∧ hostPath.placedIn directory = root

/-- Without the white space around it, the path is the root's name with a relative path after it that
leads to the root over links. -/
def LinksToRoot (fs : FileSystem ToolError) (root : AbsolutePath) (path : String) : Prop :=
  startsWith (trim path) currentWorkspaceResource ∧
    isAbsolute ((trim path).toList.drop currentWorkspaceResource.length) = false ∧
      LinkedToRoot fs root
        (root.resolve ((trim path).toList.drop currentWorkspaceResource.length))

/-- An accepted input does not name the root, by its text or by what is deleted: what `rm` is given is
below the root, and the entry that it removes is not the root. -/
def Spares (fs : FileSystem ToolError) (resolver : WorkspaceResolver) (input : JsonValue) : Prop :=
  DirectoryDelete.validateInput input = .ok () →
    (∀ path hostPath, input.get? "path" = some (.string path) →
      resolver.toHostPath path = .ok hostPath → StrictlyBelow resolver.root hostPath) ∧
    ∀ (workspaceRoot : AbsolutePath) (deleted : AbsolutePath),
      fs.realpath workspaceRoot = .ok resolver.root →
      DirectoryDelete.execute fs.realpath (some workspaceRoot) input = .ok deleted →
      StrictlyBelow resolver.root deleted ∧ fs.removed deleted ≠ .ok resolver.root

/-- Names of entries below the root are those that begin as the root's name does, and go on with a relative
path that leads there. -/
theorem toHostPath_below (hroot : resolver.root.segments ≠ [])
    (hbelow : StrictlyBelow resolver.root hostPath) :
    resolver.toHostPath path = .ok hostPath ↔
      startsWith (trim path) currentWorkspaceResource ∧
        isAbsolute ((trim path).toList.drop currentWorkspaceResource.length) = false ∧
          resolver.root.resolve ((trim path).toList.drop currentWorkspaceResource.length) =
            hostPath := by
  -- What is below the root passes the check of the source.
  have hinside : resolver.isInsideRoot hostPath = true := by
    obtain ⟨more, hmore, hsegments⟩ := hbelow
    unfold isInsideRoot
    rw [Bool.or_eq_true]
    exact .inr (List.isPrefixOf_iff_prefix.mpr
      (AbsolutePath.prefix_of_append hroot hmore hsegments))
  rw [toHostPath_eq_ok]
  unfold toRelativePath
  dsimp only
  constructor
  · -- Each kind of name: empty, the root's own, the workspace's, an absolute one, a relative one.
    rintro ⟨relative, hrelative, hresolve, -⟩
    split_ifs at hrelative with hempty hnamed hstart habsolute
    · -- The root's own names lead to the root.
      cases hrelative
      rw [resolve_dot] at hresolve
      exact absurd hresolve.symm hbelow.ne
    · cases hrelative
      exact ⟨hstart, Bool.eq_false_iff.mpr habsolute, hresolve⟩
  · -- A name as described is none of the root's own, so its rest is resolved.
    rintro ⟨hstart, habsolute, hresolve⟩
    have hempty : trim path ≠ "" := by
      intro hempty
      rw [hempty] at hstart
      revert hstart
      decide +kernel
    have hnamed : ¬(trim path = currentWorkspaceResource ∨ trim path = "workspace://current") := by
      rintro (hslash | hbare)
      · -- Nothing is left of the name behind the slash.
        rw [hslash, show currentWorkspaceResource.toList.drop currentWorkspaceResource.length = []
          from by decide +kernel] at hresolve
        have hself : resolver.root.resolve [] = resolver.root := by
          rw [resolve_eq_self_iff]
          show [] = resolver.root.segments.drop (resolver.root.segments.length - 0)
          rw [Nat.sub_zero, List.drop_length]
        exact hbelow.ne (hresolve.symm.trans hself)
      · rw [hbare] at hstart
        revert hstart
        decide +kernel
    refine ⟨_, ?_, hresolve, hinside⟩
    rw [if_neg hempty, if_neg hnamed, if_neg (not_not.mpr hstart), if_neg (by simp [habsolute])]

/-- An entry that is placed in a directory is not the root directory. -/
theorem LinkedToRoot.segments_ne {fs : FileSystem ToolError} {root : AbsolutePath}
    (h : LinkedToRoot fs root hostPath) : root.segments ≠ [] ∧ hostPath.segments ≠ [] := by
  obtain ⟨⟨more, hmore, hsegments⟩, -, directory, -, hplaced⟩ := h
  have hhost : hostPath.segments ≠ [] := by
    rw [hsegments]
    simp [hmore]
  refine ⟨?_, hhost⟩
  rw [← hplaced]
  unfold AbsolutePath.placedIn
  simp [hhost]

/-- An accepted input has a path. -/
theorem exists_path_of_validateInput {input : JsonValue}
    (h : DirectoryDelete.validateInput input = .ok ()) :
    ∃ path, input.get? "path" = some (.string path) ∧ DirectoryDelete.pathOf input = path := by
  unfold DirectoryDelete.validateInput requireStringField at h
  rw [check_bind_eq_ok] at h
  cases hvalue : input.get? "path" with
  | none =>
    rw [hvalue] at h
    cases h.1
  | some value =>
    rw [hvalue] at h
    cases value with
    | string path => exact ⟨path, rfl, by rw [DirectoryDelete.pathOf, hvalue]; rfl⟩
    | _ => cases h.1

/-- What is deleted is what the path of the input resolves to. -/
theorem toHostPath_of_execute {realpath : Realpath} {workspaceRoot deleted : AbsolutePath}
    {input : JsonValue} (hroot : realpath workspaceRoot = .ok resolver.root)
    (h : DirectoryDelete.execute realpath (some workspaceRoot) input = .ok deleted) :
    resolver.toHostPath (DirectoryDelete.pathOf input) = .ok deleted := by
  unfold DirectoryDelete.execute WorkspaceResolver.create at h
  simp only [bind_eq_ok, pure_eq_ok] at h
  obtain ⟨created, ⟨canonicalRoot, hcanonical, rfl⟩, hostPath, hhost, -, -, rfl⟩ := h
  rw [hroot] at hcanonical
  obtain rfl := Except.ok.inj hcanonical
  exact hhost

/-- The path that leads to the root over links is deleted: its real path is the root, which is inside. -/
theorem execute_of_linkedToRoot {fs : FileSystem ToolError} {input : JsonValue}
    (hof : DirectoryDelete.pathOf input = path) (hhost : resolver.toHostPath path = .ok hostPath)
    (hlinked : LinkedToRoot fs resolver.root hostPath) :
    DirectoryDelete.execute fs.realpath (some resolver.root) input = .ok hostPath ∧
      fs.removed hostPath = .ok resolver.root := by
  obtain ⟨-, hhostPath⟩ := hlinked.segments_ne
  obtain ⟨-, hroot, directory, hdirectory, hplaced⟩ := hlinked
  have hreal : fs.realpath hostPath = .ok resolver.root := by
    rw [fs.follows hostPath directory hhostPath hdirectory, hplaced]
    exact hroot
  refine ⟨?_, ?_⟩
  · unfold DirectoryDelete.execute WorkspaceResolver.create
    rw [hof]
    simp only [bind_eq_ok, pure_eq_ok]
    refine ⟨resolver, ⟨resolver.root, hroot, rfl⟩, hostPath, hhost, resolver.root, ?_, rfl⟩
    unfold assertResolvedInsideRoot
    simp only [bind_eq_ok, require_eq_ok, pure_eq_ok]
    exact ⟨resolver.root, hreal, (), isInsideRoot_root, rfl⟩
  · unfold FileSystem.removed
    simp only [bind_eq_ok, pure_eq_ok]
    exact ⟨directory, hdirectory, hplaced⟩

/-- `directory.delete` spares the root exactly when `validateInput` refuses the path, or the path neither
names the root nor leads to it over links. -/
theorem spares_iff (fs : FileSystem ToolError) (resolver : WorkspaceResolver) (input : JsonValue) :
    Spares fs resolver input ↔
      ∀ path, input.get? "path" = some (.string path) →
        DirectoryDelete.validateInput input ≠ .ok () ∨
          ¬ NamesRoot resolver.root path ∧ ¬ LinksToRoot fs resolver.root path := by
  constructor
  · intro hspares path hpath
    by_cases hvalid : DirectoryDelete.validateInput input = .ok ()
    · refine .inr ⟨fun hnames => ?_, fun ⟨hstart, habsolute, hlinked⟩ => ?_⟩
      · have hbelow := (hspares hvalid).1 path resolver.root hpath (toHostPath_root.mpr hnames)
        exact hbelow.ne rfl
      · have hhost := (toHostPath_below hlinked.segments_ne.1 hlinked.1).mpr
          ⟨hstart, habsolute, rfl⟩
        have hof : DirectoryDelete.pathOf input = path := by
          rw [DirectoryDelete.pathOf, hpath]
          rfl
        obtain ⟨hexecute, hremoved⟩ := execute_of_linkedToRoot hof hhost hlinked
        exact ((hspares hvalid).2 resolver.root _ hlinked.2.1 hexecute).2 hremoved
    · exact .inl hvalid
  · intro hcondition hvalid
    obtain ⟨path, hpath, hof⟩ := exists_path_of_validateInput hvalid
    obtain ⟨hnames, hlinks⟩ := (hcondition path hpath).resolve_left (not_not.mpr hvalid)
    have hbelow : ∀ hostPath, resolver.toHostPath path = .ok hostPath →
        StrictlyBelow resolver.root hostPath := by
      intro hostPath hhost
      obtain ⟨-, -, -, hinside⟩ := toHostPath_eq_ok.mp hhost
      refine (eq_or_strictlyBelow hinside).resolve_left ?_
      rintro rfl
      exact hnames (toHostPath_root.mp hhost)
    refine ⟨fun path' hostPath hpath' hhost => ?_, fun workspaceRoot deleted hroot h => ?_⟩
    · rw [hpath] at hpath'
      obtain rfl := JsonValue.string.inj (Option.some.inj hpath')
      exact hbelow hostPath hhost
    · have hhost := toHostPath_of_execute hroot h
      rw [hof] at hhost
      refine ⟨hbelow deleted hhost, fun hremoved => hlinks ?_⟩
      -- What is removed is the root, so the directory that the links lead to is the root's.
      unfold FileSystem.removed at hremoved
      simp only [bind_eq_ok, pure_eq_ok] at hremoved
      obtain ⟨directory, hdirectory, hplaced⟩ := hremoved
      have hlinked : LinkedToRoot fs resolver.root deleted :=
        ⟨hbelow deleted hhost, fs.real _ _ hroot, directory, hdirectory, hplaced⟩
      obtain ⟨hstart, habsolute, rfl⟩ :=
        (toHostPath_below hlinked.segments_ne.1 hlinked.1).mp hhost
      exact ⟨hstart, habsolute, hlinked⟩

/-- A workspace two directories below the root of the file system. -/
def projectResolver : WorkspaceResolver :=
  ⟨⟨[['s', 'r', 'v'], ['w', 'o', 'r', 'k']], by decide⟩⟩

/-- The input of a call. -/
def pathInput (path : String) : JsonValue := .object [("path", .string path)]

/-- A file system without links. -/
def unlinked : FileSystem ToolError :=
  LinkTable.fileSystem ⟨fun _ => none, rfl, fun _ _ h => (by cases h)⟩ ToolError

/-- The name of the root without its slash passes, and the root is deleted. -/
theorem not_spares_root : ¬ Spares unlinked projectResolver (pathInput "workspace://current") := by
  have hvalid : DirectoryDelete.validateInput (pathInput "workspace://current") = .ok () := by
    decide +kernel
  have hroot : projectResolver.toHostPath "workspace://current" = .ok projectResolver.root := by
    decide +kernel
  intro hspares
  exact ((hspares hvalid).1 "workspace://current" projectResolver.root rfl hroot).ne rfl

/-- So do a blank or a dot after the slash, and a way around. -/
example : ∀ path ∈ ["workspace://current/ ", "workspace://current/.",
      "workspace://current/a/..", "workspace://current/../work"],
    DirectoryDelete.validateInput (pathInput path) = .ok () ∧
      NamesRoot projectResolver.root path := by
  decide +kernel

/-- A link in the workspace to the directory that the root is in. -/
def linkUp : LinkTable where
  target segments :=
    if segments = [['s', 'r', 'v'], ['w', 'o', 'r', 'k'], ['l', 'i', 'n', 'k']] then
      some ⟨[['s', 'r', 'v']], by decide⟩
    else none
  root := rfl
  plain link place h segments hprefix := by
    rw [Option.ite_none_right_eq_some] at h
    obtain ⟨-, hplace⟩ := h
    obtain rfl := Option.some.inj hplace
    -- The segments of the place are fewer than those of the link.
    have hlength : segments.length ≤ 1 := hprefix.length_le
    refine if_neg fun hsame => ?_
    rw [hsame] at hlength
    exact absurd hlength (by decide)

/-- The way over the link and back to the root is not seen by the text of the path. -/
example : DirectoryDelete.validateInput (pathInput "workspace://current/link/work") = .ok () ∧
    ¬ NamesRoot projectResolver.root "workspace://current/link/work" ∧
    DirectoryDelete.execute (linkUp.fileSystem ToolError).realpath (some projectResolver.root)
        (pathInput "workspace://current/link/work") =
      .ok ⟨[['s', 'r', 'v'], ['w', 'o', 'r', 'k'], ['l', 'i', 'n', 'k'], ['w', 'o', 'r', 'k']],
        by decide⟩ ∧
    (linkUp.fileSystem ToolError).removed
        ⟨[['s', 'r', 'v'], ['w', 'o', 'r', 'k'], ['l', 'i', 'n', 'k'], ['w', 'o', 'r', 'k']],
          by decide⟩ = .ok projectResolver.root := by
  decide +kernel

end OsAgent.Tools
