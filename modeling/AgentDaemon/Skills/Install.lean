import AgentDaemon.Skills.Document
import Mathlib.Data.List.AList
import Mathlib.Data.List.Sort

/-!
The skill directory, its index, and the installation of documents. The index is by the names that the
documents declare, the directory by the names of the files, and of two files that declare one name
the first is listed, if it is among the first 64.
-/

namespace AgentDaemon.Skills

variable {Version : Type}

def maxSkillFiles : Nat := 64

/-! ## The directory -/

/-- What a name in the directory stands for. -/
inductive Entry where
  | file (bytes : List UInt8)
  | directory

/-- A directory that does not exist is as one without entries. -/
abbrev Directory := AList fun _ : FileName => Entry

/-- The bytes of a regular file. -/
def bytes? (directory : Directory) (path : FileName) : Option (List UInt8) :=
  match directory.lookup path with
  | some (.file bytes) => some bytes
  | _ => none

def isMarkdown (directory : Directory) (path : FileName) : Bool :=
  (bytes? directory path).isSome && path.markdown

/-- The Markdown files in their order. -/
def paths (directory : Directory) : List FileName :=
  (directory.keys.filter (isMarkdown directory)).insertionSort (· ≤ ·)

section Index

variable (fromStr : String → Option (SkillManifest Version))

def readAt (directory : Directory) (path : FileName) : Except String (ParsedSkill Version) :=
  match bytes? directory path with
  | some bytes => readSkill fromStr bytes
  | none => .error "读取 skill 失败"

structure SkillIndex (Version : Type) where
  manifest : SkillManifest Version
  path : FileName

/-- The loop of `load_index`, with the names that it has seen. -/
def indexFrom (directory : Directory) (seen : List String) : List FileName → List (SkillIndex Version)
  | [] => []
  | path :: paths =>
    match readAt fromStr directory path with
    | .ok parsed =>
      if parsed.manifest.name ∈ seen then indexFrom directory seen paths
      else ⟨parsed.manifest, path⟩ :: indexFrom directory (parsed.manifest.name :: seen) paths
    | .error _ => indexFrom directory seen paths

def loadIndex (directory : Directory) : List (SkillIndex Version) :=
  indexFrom fromStr directory [] ((paths directory).take maxSkillFiles)

end Index

/-! ## Lookups -/

@[simp] theorem bytes?_insert_self (directory : Directory) (path : FileName) (bytes : List UInt8) :
    bytes? (directory.insert path (.file bytes)) path = some bytes := by
  rw [bytes?, AList.lookup_insert]

theorem bytes?_insert_of_ne (directory : Directory) {path other : FileName} (h : path ≠ other)
    (entry : Entry) : bytes? (directory.insert other entry) path = bytes? directory path := by
  rw [bytes?, AList.lookup_insert_ne h, bytes?]

@[simp] theorem bytes?_erase_self (directory : Directory) (path : FileName) :
    bytes? (directory.erase path) path = none := by
  rw [bytes?, AList.lookup_erase]

theorem bytes?_erase_of_ne (directory : Directory) {path other : FileName} (h : path ≠ other) :
    bytes? (directory.erase other) path = bytes? directory path := by
  rw [bytes?, AList.lookup_erase_ne h, bytes?]

theorem isMarkdown_iff {directory : Directory} {path : FileName} :
    isMarkdown directory path = true ↔
      (∃ bytes, bytes? directory path = some bytes) ∧ path.markdown = true := by
  rw [isMarkdown, Bool.and_eq_true, Option.isSome_iff_exists]

theorem mem_keys_of_isMarkdown {directory : Directory} {path : FileName}
    (h : isMarkdown directory path = true) : path ∈ directory.keys := by
  obtain ⟨⟨bytes, hbytes⟩, -⟩ := isMarkdown_iff.mp h
  rw [← AList.mem_keys, ← AList.lookup_isSome]
  unfold bytes? at hbytes
  split at hbytes
  · rename_i e
    rw [e]
    rfl
  · cases hbytes

theorem mem_paths {directory : Directory} {path : FileName} :
    path ∈ paths directory ↔ isMarkdown directory path = true := by
  rw [paths, List.mem_insertionSort, List.mem_filter]
  exact ⟨And.right, fun h => ⟨mem_keys_of_isMarkdown h, h⟩⟩

theorem nodup_paths (directory : Directory) : (paths directory).Nodup :=
  (List.perm_insertionSort _ _).nodup_iff.mpr (directory.keys_nodup.filter _)

theorem sorted_paths (directory : Directory) : (paths directory).Pairwise (· < ·) := by
  have hle := List.pairwise_insertionSort (· ≤ ·) (directory.keys.filter (isMarkdown directory))
  exact (hle.and (nodup_paths directory)).imp fun h => lt_of_le_of_ne h.1 h.2

/-- Two directories with the same Markdown files. -/
def SameDocuments (directory directory' : Directory) : Prop :=
  ∀ path : FileName, path.markdown = true → bytes? directory path = bytes? directory' path

theorem SameDocuments.isMarkdown_eq {directory directory' : Directory}
    (h : SameDocuments directory directory') (path : FileName) :
    isMarkdown directory path = isMarkdown directory' path := by
  unfold isMarkdown
  cases hm : path.markdown with
  | false => rw [Bool.and_false, Bool.and_false]
  | true => rw [h path hm]

theorem SameDocuments.paths_eq {directory directory' : Directory}
    (h : SameDocuments directory directory') : paths directory = paths directory' := by
  have hperm : (paths directory).Perm (paths directory') := by
    refine (List.perm_ext_iff_of_nodup (nodup_paths _) (nodup_paths _)).mpr fun path => ?_
    rw [mem_paths, mem_paths, h.isMarkdown_eq]
  exact hperm.eq_of_pairwise (fun a b _ _ hab hba => absurd (hab.trans hba) (lt_irrefl a))
    (sorted_paths _) (sorted_paths _)

/-- A listing depends on the Markdown files only. -/
theorem SameDocuments.loadIndex_eq {directory directory' : Directory}
    (h : SameDocuments directory directory') (fromStr : String → Option (SkillManifest Version)) :
    loadIndex fromStr directory = loadIndex fromStr directory' := by
  have hread : ∀ (l : List FileName) (seen : List String), (∀ path ∈ l, path.markdown = true) →
      indexFrom fromStr directory seen l = indexFrom fromStr directory' seen l := by
    intro l
    induction l with
    | nil => intro seen _; rfl
    | cons path l ih =>
      intro seen hl
      have hpath : readAt fromStr directory path = readAt fromStr directory' path := by
        rw [readAt, readAt, h path (hl path List.mem_cons_self)]
      have hrest := fun seen => ih seen fun other hmem => hl other (List.mem_cons_of_mem path hmem)
      simp only [indexFrom, hpath, hrest]
  rw [loadIndex, loadIndex, h.paths_eq]
  refine hread _ _ fun path hpath => ?_
  exact (isMarkdown_iff.mp (mem_paths.mp (List.mem_of_mem_take hpath))).2

theorem sameDocuments_temporary (directory : Directory) (name : String) (pid : Nat) (entry : Entry) :
    SameDocuments (directory.insert (temporary name pid) entry) directory := by
  intro path hpath
  refine bytes?_insert_of_ne directory (fun he => ?_) entry
  rw [he, not_markdown_temporary] at hpath
  cases hpath

/-! ## The library -/

section Library

variable [LinearOrder Version] (fromStr : String → Option (SkillManifest Version))

/-- The directory, and the index of it that is kept once it is loaded. -/
structure SkillLibrary where
  directory : Directory
  index : Option (List (SkillIndex Version))
  coherent : ∀ skills, index = some skills → skills = loadIndex fromStr directory

variable {fromStr}

namespace SkillLibrary

def refresh (fromStr : String → Option (SkillManifest Version)) (directory : Directory) :
    SkillLibrary fromStr where
  directory := directory
  index := some (loadIndex fromStr directory)
  coherent _ h := (Option.some.inj h).symm

def ensureIndex (library : SkillLibrary fromStr) : SkillLibrary fromStr :=
  match library.index with
  | some _ => library
  | none => refresh fromStr library.directory

/-- The skills that a listing gives. -/
def list (library : SkillLibrary fromStr) : List (SkillIndex Version) :=
  library.ensureIndex.index.getD []

/-- The version that is listed for a name, and the body that is read for it. -/
def shown (library : SkillLibrary fromStr) (name : String) : Option (Version × String) := do
  let skill ← library.list.find? fun skill => skill.manifest.name = name
  let parsed ← (readAt fromStr library.directory skill.path).toOption
  pure (skill.manifest.version, parsed.body)

/-- The first file of an installation. It is no Markdown file. -/
def writeTemporary (library : SkillLibrary fromStr) (name : String) (pid : Nat)
    (bytes : List UInt8) : SkillLibrary fromStr where
  directory := library.directory.insert (temporary name pid) (.file bytes)
  index := library.index
  coherent skills h := by
    rw [library.coherent skills h]
    have hsame := sameDocuments_temporary library.directory name pid (.file bytes)
    exact (hsame.loadIndex_eq fromStr).symm

end SkillLibrary

/-- A document that is to be installed, and what the operating system answers meanwhile. -/
structure Source where
  bytes : List UInt8
  creates : Bool
  reads : Bool
  writes : Bool
  renames : Bool
  removes : Bool

inductive SkipReason (Version : Type) where
  | sameVersion
  | higherInstalled (version : Version)

inductive InstallOutcome (Version : Type) where
  | installed (name : String) (version : Version)
  | skipped (name : String) (version : Version) (reason : SkipReason Version)

inductive InstallError where
  | invalid (error : String)
  | nameMismatch (expected declared : String)
  | createDirectory
  | notInstalled (name : String)
  | readSource
  | writeTemporary
  | rename

def skipReason (current : Option (SkillIndex Version)) (manifest : SkillManifest Version)
    (force : Bool) : Option (SkipReason Version) :=
  match current with
  | none => none
  | some current =>
    if manifest.version = current.manifest.version then some .sameVersion
    else if manifest.version < current.manifest.version ∧ force = false then
      some (.higherInstalled current.manifest.version)
    else none

/-- The file that an installation takes away: the listed one of this name, if it is another. -/
def obsolete (current : Option (SkillIndex Version)) (name : String) (removes : Bool) :
    Option FileName :=
  match current with
  | some current => if current.path ≠ target name ∧ removes = true then some current.path else none
  | none => none

/-- The directory after the rename and the removal. -/
def commit (directory : Directory) (name : String) (pid : Nat) (bytes : List UInt8)
    (obsolete : Option FileName) : Directory :=
  let renamed := (directory.erase (temporary name pid)).insert (target name) (.file bytes)
  match obsolete with
  | some path => renamed.erase path
  | none => renamed

def isDirectory (directory : Directory) (path : FileName) : Bool :=
  match directory.lookup path with
  | some .directory => true
  | _ => false

namespace SkillLibrary

def current (library : SkillLibrary fromStr) (name : String) : Option (SkillIndex Version) :=
  library.list.find? fun skill => skill.manifest.name = name

/-- Where it succeeds, the directory that it leaves is loaded next. -/
def installParsed (library : SkillLibrary fromStr) (pid : Nat) (source : Source)
    (parsed : ParsedSkill Version) (force : Bool) (updateName : Option String) :
    SkillLibrary fromStr × Except InstallError (Directory × InstallOutcome Version) :=
  let name := parsed.manifest.name
  let version := parsed.manifest.version
  if source.creates = false then (library, .error .createDirectory)
  else
    let current := library.current name
    let library := library.ensureIndex
    if updateName.isSome && current.isNone then (library, .error (.notInstalled name))
    else match skipReason current parsed.manifest force with
    | some reason => (library, .ok (library.directory, .skipped name version reason))
    | none =>
      if source.reads = false then (library, .error .readSource)
      else if source.writes = false ∨ isDirectory library.directory (temporary name pid) = true then
        (library, .error .writeTemporary)
      else
        -- `ensure_inside` holds of the target: a name that is valid has no slash.
        let written := library.writeTemporary name pid source.bytes
        if source.renames = false ∨ isDirectory written.directory (target name) = true then
          (written, .error .rename)
        else
          let directory := commit written.directory name pid source.bytes
            (obsolete current name source.removes)
          (written, .ok (directory, .installed name version))

def install (library : SkillLibrary fromStr) (pid : Nat) (force : Bool) :
    List Source → SkillLibrary fromStr × Except InstallError (List (InstallOutcome Version))
  | [] => (library, .ok [])
  | source :: sources =>
    match readSkill fromStr source.bytes with
    | .error e => (library, .error (.invalid e))
    | .ok parsed =>
      match library.installParsed pid source parsed force none with
      | (left, .error e) => (left, .error e)
      | (_, .ok (directory, outcome)) =>
        let (library, outcomes) := (refresh fromStr directory).install pid force sources
        (library, outcomes.map (outcome :: ·))

def update (library : SkillLibrary fromStr) (pid : Nat) (name : String) (source : Source) :
    SkillLibrary fromStr × Except InstallError (InstallOutcome Version) :=
  match validateName name with
  | .error e => (library, .error (.invalid e))
  | .ok () =>
    match readSkill fromStr source.bytes with
    | .error e => (library, .error (.invalid e))
    | .ok parsed =>
      if parsed.manifest.name ≠ name then (library, .error (.nameMismatch name parsed.manifest.name))
      else match library.installParsed pid source parsed false (some name) with
      | (left, .error e) => (left, .error e)
      | (_, .ok (directory, outcome)) => (refresh fromStr directory, .ok outcome)

end SkillLibrary

end Library

end AgentDaemon.Skills
