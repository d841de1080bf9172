import Mathlib.Data.Nat.Find
import OsAgent.Library.Occurrences
import OsAgent.Library.Program
import OsAgent.Library.Utf16
import OsAgent.Tools.Workspace

/-!
# `file.apply_patch`

The tool replaces the one place of a file where a text occurs. It looks for a second occurrence behind
the first one only, so it takes two occurrences that overlap for one. `exact_iff` says for which files
and texts it does what it is for.
-/

namespace OsAgent.Tools

open OsAgent.Library WorkspaceResolver
open OsAgent.Capability (startsWith)

/-- The file system, as far as the tool sees it: where a path leads, and the files of UTF-8 text. -/
structure FileSystem where
  realpath : Realpath
  files : AbsolutePath → Option (List Char)

namespace FileSystem

variable (fs : FileSystem)

/-- `readFile(path, 'utf8')`. -/
def readFile (path : AbsolutePath) : Except ToolError (List Char) := do
  let resolved ← fs.realpath path
  match fs.files resolved with
  | some text => .ok text
  | none => .error (.error "ENOENT")

/-- The file system after a file is written. -/
def put (resolved : AbsolutePath) (text : List Char) : FileSystem :=
  { fs with files := fun path => if path = resolved then some text else fs.files path }

end FileSystem

namespace ApplyPatch

/-- The input of the tool. -/
structure Input where
  path : String
  find : List CodeUnit
  replace : List CodeUnit

/-- What the tool returns. -/
structure Result where
  path : String
  replaced : Bool
  bytesWritten : ℕ
  charactersWritten : ℕ
  chineseCharactersWritten : ℕ
deriving DecidableEq, Repr

/-- The path has to be in the workspace, and the text to find not empty. -/
def validateInput (input : Input) : ToolInputValidation := do
  require (startsWith input.path currentWorkspaceResource)
    ("path must start with " ++ currentWorkspaceResource ++ ".")
  require (input.find ≠ []) "find must be a non-empty string."

/-- The code of the error for a text that does not occur. -/
def noMatch : ToolError :=
  .precondition "patch_no_match"
    "file.apply_patch found no match for `find`，未执行写入。请读取最新文件，精确复制要替换的原文。"

/-- The code of the error for a text that occurs again. -/
def ambiguous : ToolError :=
  .precondition "patch_ambiguous"
    "file.apply_patch matched `find` more than once，未执行写入。请增加上下文使匹配唯一。"

/-- The text of the file after the edit. -/
def edit (original find replace : List CodeUnit) : Except ToolError (List CodeUnit) :=
  match indexOf find original 0 with
  | none => .error noMatch
  | some firstIndex =>
    if (indexOf find original (firstIndex + find.length)).isSome then .error ambiguous
    else .ok (replaceAt original find replace firstIndex)

/-- The program of the tool. `isHan` is the script property of the platform's Unicode tables. -/
def execute (isHan : Char → Bool) (workspaceRoot : Option AbsolutePath) (input : Input) :
    EStateM ToolError FileSystem Result := do
  match workspaceRoot with
  | none => throw (.error "file.apply_patch requires a mounted workspace; none is attached.")
  | some hostRootPath => do
    let fs ← get
    let resolver ← WorkspaceResolver.create fs.realpath hostRootPath
    let hostPath ← resolver.toHostPath input.path
    let resolved ← resolver.assertResolvedInsideRoot fs.realpath hostPath
    let content ← fs.readFile hostPath
    let updated ← edit (Utf16.encode content) input.find input.replace
    let written := Utf16.decode updated
    set (fs.put resolved written)
    return {
      path := input.path
      replaced := true
      bytesWritten := byteLength written
      charactersWritten := updated.length
      chineseCharactersWritten := written.countP isHan }

/-! ## What the tool is for -/

/-- The path leads to a file with this content. -/
structure Names (fs : FileSystem) (workspaceRoot : AbsolutePath) (path : String)
    (resolved : AbsolutePath) (content : List Char) : Prop where
  leads : ∃ resolver hostPath, WorkspaceResolver.create fs.realpath workspaceRoot = .ok resolver ∧
    resolver.toHostPath path = .ok hostPath ∧
    resolver.assertResolvedInsideRoot fs.realpath hostPath = .ok resolved ∧
    fs.realpath hostPath = .ok resolved
  content : fs.files resolved = some content

/-- How the tool ends, and the file system that it leaves. -/
def Exact (content : List Char) (find replace : List CodeUnit) (fs : FileSystem)
    (resolved : AbsolutePath) (run : EStateM.Result ToolError FileSystem Result) : Prop :=
  let text := Utf16.encode content
  ((∀ i, ¬ OccursAt find text i) → run = .error noMatch fs) ∧
  (∀ i j, OccursAt find text i → OccursAt find text j → i ≠ j → run = .error ambiguous fs) ∧
  ∀ i, OccursAt find text i → (∀ j, OccursAt find text j → j = i) →
    ∃ result written, run = .ok result (fs.put resolved written) ∧
      Utf16.encode written = replaceAt text find replace i

/-- Wherever the text occurs first, it occurs again behind that place, or it occurs nowhere else and
the text with the replacement is one that a file can hold. -/
def Decided (text find replace : List CodeUnit) : Prop :=
  ∀ i, OccursAt find text i → (∀ j, j < i → ¬ OccursAt find text j) →
    (∃ j, i + find.length ≤ j ∧ OccursAt find text j) ∨
      (∀ j, OccursAt find text j → j = i) ∧
        Utf16.isWellFormed (replaceAt text find replace i) = true

variable {isHan : Char → Bool} {fs : FileSystem} {workspaceRoot resolved : AbsolutePath}
  {input : Input} {content : List Char} {text find replace : List CodeUnit}

/-- Once the file is read, the edit decides. -/
theorem execute_of_names (h : Names fs workspaceRoot input.path resolved content) :
    execute isHan (some workspaceRoot) input fs =
      match edit (Utf16.encode content) input.find input.replace with
      | .error e => .error e fs
      | .ok updated => .ok
          { path := input.path
            replaced := true
            bytesWritten := byteLength (Utf16.decode updated)
            charactersWritten := updated.length
            chineseCharactersWritten := (Utf16.decode updated).countP isHan }
          (fs.put resolved (Utf16.decode updated)) := by
  obtain ⟨⟨resolver, hostPath, hcreate, hhost, hresolved, hreal⟩, hcontent⟩ := h
  have hread : fs.readFile hostPath = .ok content := by
    rw [FileSystem.readFile, bind_eq_ok]
    exact ⟨resolved, hreal, by rw [hcontent]⟩
  apply eq_of_wp
  simp only [execute, wp_bind, wp_get, wp_lift, wp_set, wp_pure]
  refine ⟨fun resolver' hcreate' => ?_, fun e he => by rw [hcreate] at he; cases he⟩
  obtain rfl := Except.ok.inj (hcreate.symm.trans hcreate')
  refine ⟨fun hostPath' hhost' => ?_, fun e he => by rw [hhost] at he; cases he⟩
  obtain rfl := Except.ok.inj (hhost.symm.trans hhost')
  refine ⟨fun resolved' hresolved' => ?_, fun e he => by rw [hresolved] at he; cases he⟩
  obtain rfl := Except.ok.inj (hresolved.symm.trans hresolved')
  refine ⟨fun content' hread' => ?_, fun e he => by rw [hread] at he; cases he⟩
  obtain rfl := Except.ok.inj (hread.symm.trans hread')
  exact ⟨fun updated hupdated => by rw [hupdated], fun e he => by rw [he]⟩

/-- A text that occurs has a first occurrence. -/
theorem exists_first {i : ℕ} (h : OccursAt find text i) :
    ∃ i, OccursAt find text i ∧ ∀ j, j < i → ¬ OccursAt find text j :=
  ⟨Nat.find ⟨i, h⟩, Nat.find_spec ⟨i, h⟩, fun _ hj => Nat.find_min ⟨i, h⟩ hj⟩

/-! ## The edit -/

/-- Where the text does not occur there is no edit. -/
theorem edit_of_not_occurs (hfind : find ≠ []) (h : ∀ i, ¬ OccursAt find text i) :
    edit text find replace = .error noMatch := by
  have hnone : indexOf find text 0 = none := (indexOf_eq_none hfind).mpr fun i _ => h i
  rw [edit, hnone]

/-- The search begins with the first occurrence. -/
theorem indexOf_of_first {i : ℕ} (hfind : find ≠ []) (hoccurs : OccursAt find text i)
    (hfirst : ∀ j, j < i → ¬ OccursAt find text j) : indexOf find text 0 = some i := by
  have hle := (hoccurs.lt_length hfind).le
  exact indexOf_eq_some.mpr ⟨hle, Nat.zero_le i, hoccurs, fun j _ hj => hfirst j hj⟩

/-- Where the text occurs again there is no edit. -/
theorem edit_of_again {i j : ℕ} (hfind : find ≠ []) (hoccurs : OccursAt find text i)
    (hfirst : ∀ k, k < i → ¬ OccursAt find text k) (hagain : OccursAt find text j)
    (hj : i + find.length ≤ j) : edit text find replace = .error ambiguous := by
  rw [edit, indexOf_of_first hfind hoccurs hfirst]
  refine if_pos ?_
  by_contra hnone
  rw [Option.not_isSome_iff_eq_none, indexOf_eq_none hfind] at hnone
  exact hnone j hj hagain

/-- Where the text does not occur again the first occurrence is replaced. -/
theorem edit_of_not_again {i : ℕ} (hfind : find ≠ []) (hoccurs : OccursAt find text i)
    (hfirst : ∀ k, k < i → ¬ OccursAt find text k)
    (hlast : ∀ j, i + find.length ≤ j → ¬ OccursAt find text j) :
    edit text find replace = .ok (replaceAt text find replace i) := by
  have hnone : indexOf find text (i + find.length) = none := (indexOf_eq_none hfind).mpr hlast
  rw [edit, indexOf_of_first hfind hoccurs hfirst]
  dsimp only
  rw [hnone]
  rfl

/-- The tool does what it is for exactly when the first occurrence decides. -/
theorem exact_iff (hnames : Names fs workspaceRoot input.path resolved content)
    (hvalid : validateInput input = .ok ()) :
    Exact content input.find input.replace fs resolved
        (execute isHan (some workspaceRoot) input fs) ↔
      Decided (Utf16.encode content) input.find input.replace := by
  have hfind : input.find ≠ [] := by
    unfold validateInput at hvalid
    rw [check_bind_eq_ok, require_eq_ok, require_eq_ok] at hvalid
    exact hvalid.2
  rw [execute_of_names hnames]
  set text := Utf16.encode content
  constructor
  · rintro ⟨-, htwice, honce⟩ i hoccurs hfirst
    by_cases hagain : ∃ j, i + input.find.length ≤ j ∧ OccursAt input.find text j
    · exact .inl hagain
    right
    -- The code writes, so nothing may occur a second time, and the file is to hold the result.
    have hedit : edit text input.find input.replace =
        .ok (replaceAt text input.find input.replace i) :=
      edit_of_not_again hfind hoccurs hfirst fun j hj hoccurs => hagain ⟨j, hj, hoccurs⟩
    have hunique : ∀ j, OccursAt input.find text j → j = i := by
      intro j hj
      by_contra hne
      have hrun := htwice j i hj hoccurs hne
      rw [hedit] at hrun
      cases hrun
    refine ⟨hunique, ?_⟩
    obtain ⟨result, written, hrun, hwritten⟩ := honce i hoccurs hunique
    rw [hedit] at hrun
    have hput := (EStateM.Result.ok.inj hrun).2
    have hsame : Utf16.decode (replaceAt text input.find input.replace i) = written := by
      have hfile := congrArg (fun fs => FileSystem.files fs resolved) hput
      simpa [FileSystem.put] using hfile
    rw [← Utf16.encode_decode_iff, hsame]
    exact hwritten
  · intro hdecided
    refine ⟨fun hnone => ?_, fun i j hi hj hne => ?_, fun i hoccurs hunique => ?_⟩
    · rw [edit_of_not_occurs hfind hnone]
    · obtain ⟨k, hk, hfirst⟩ := exists_first hi
      rcases hdecided k hk hfirst with ⟨l, hl, hagain⟩ | ⟨hunique, -⟩
      · rw [edit_of_again hfind hk hfirst hagain hl]
      · exact absurd ((hunique i hi).trans (hunique j hj).symm) hne
    · have hpos := List.length_pos_iff.mpr hfind
      have hfirst : ∀ j, j < i → ¬ OccursAt input.find text j := by
        intro j hj hoccurs'
        have heq := hunique j hoccurs'
        omega
      have hlast : ∀ j, i + input.find.length ≤ j → ¬ OccursAt input.find text j := by
        intro j hj hoccurs'
        have heq := hunique j hoccurs'
        omega
      rcases hdecided i hoccurs hfirst with ⟨j, hj, hagain⟩ | ⟨-, hwellFormed⟩
      · exact absurd hagain (hlast j hj)
      · rw [edit_of_not_again hfind hoccurs hfirst hlast]
        exact ⟨_, _, rfl, (Utf16.encode_decode_iff _).mpr hwellFormed⟩

/-! ## Overlapping occurrences -/

/-- The path of a file in a workspace at the root of a host. -/
def filePath (name : List Char) (h : IsName name) : AbsolutePath where
  segments := [['w'], name]
  names := by
    intro s hs
    rcases List.mem_cons.mp hs with rfl | hs
    · decide
    · rw [List.mem_singleton.mp hs]
      exact h

/-- A file system without links, with one file. -/
def oneFile (content : List Char) : FileSystem where
  realpath path := .ok path
  files path := if path = filePath ['f'] (by decide) then some content else none

/-- The workspace of that file. -/
def fileRoot : AbsolutePath := ⟨[['w']], by decide⟩

/-- The path names the file. -/
theorem names_oneFile (content : List Char) :
    Names (oneFile content) fileRoot "workspace://current/f" (filePath ['f'] (by decide))
      content where
  leads := by
    have hhost : WorkspaceResolver.toHostPath ⟨fileRoot⟩ "workspace://current/f" =
        .ok (filePath ['f'] (by decide)) := by decide +kernel
    have hinside : WorkspaceResolver.isInsideRoot ⟨fileRoot⟩ (filePath ['f'] (by decide)) = true := by
      decide +kernel
    refine ⟨⟨fileRoot⟩, _, rfl, hhost, ?_, rfl⟩
    rw [WorkspaceResolver.assertResolvedInsideRoot, bind_eq_ok]
    refine ⟨filePath ['f'] (by decide), rfl, ?_⟩
    rw [check_bind_eq_ok, require_eq_ok]
    exact ⟨hinside, rfl⟩
  content := by
    unfold oneFile
    dsimp only
    exact if_pos rfl

/-- Looks for `ana` in the file. -/
def findAna : Input where
  path := "workspace://current/f"
  find := Utf16.encode ['a', 'n', 'a']
  replace := Utf16.encode ['o']

/-- The edit is exact for a text with one occurrence. -/
theorem exact_anas :
    Exact ['a', 'n', 'a', 's'] findAna.find findAna.replace (oneFile ['a', 'n', 'a', 's'])
      (filePath ['f'] (by decide))
      (execute (fun _ => false) (some fileRoot) findAna (oneFile ['a', 'n', 'a', 's'])) := by
  refine (exact_iff (names_oneFile _) (by decide +kernel)).mpr ?_
  have hunique : ∀ j < 4, OccursAt findAna.find (Utf16.encode ['a', 'n', 'a', 's']) j → j = 0 := by
    decide +kernel
  intro i hoccurs _
  obtain rfl := hunique i (hoccurs.lt_length (by decide)) hoccurs
  refine .inr ⟨fun j hj => hunique j (hj.lt_length (by decide)) hj, by decide +kernel⟩

/-- In `banana`, the text occurs twice. The second occurrence begins within the first one, and the
first one is replaced. -/
theorem not_exact_banana :
    ¬ Exact ['b', 'a', 'n', 'a', 'n', 'a'] findAna.find findAna.replace
      (oneFile ['b', 'a', 'n', 'a', 'n', 'a']) (filePath ['f'] (by decide))
      (execute (fun _ => false) (some fileRoot) findAna
        (oneFile ['b', 'a', 'n', 'a', 'n', 'a'])) := by
  have hedit : edit (Utf16.encode ['b', 'a', 'n', 'a', 'n', 'a']) findAna.find findAna.replace =
      .ok (Utf16.encode ['b', 'o', 'n', 'a']) := by
    decide +kernel
  rintro ⟨-, htwice, -⟩
  have hrun := htwice 1 3 (by decide +kernel) (by decide +kernel) (by decide)
  rw [execute_of_names (names_oneFile _), hedit] at hrun
  cases hrun

end ApplyPatch

end OsAgent.Tools
