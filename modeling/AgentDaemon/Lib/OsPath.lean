import AgentDaemon.Lib.Utf8
import AgentDaemon.Lib.Words
import Mathlib.Data.List.TakeWhile

/-!
Paths over bytes, as `std::path` sees them on Unix: their components, the last of them, and what is
put in its place. A file name need not be UTF-8.
-/

namespace AgentDaemon.OsPath

abbrev OsStr := List UInt8

def slash : UInt8 := 47

def dot : UInt8 := 46

/-- `std::path::Component`. A path is its components, by which it is compared. -/
inductive Part where
  | rootDir
  | curDir
  | parentDir
  | normal (name : OsStr)
  deriving DecidableEq

/-- The component of what stands between two slashes. -/
def part? (piece : OsStr) : Option Part :=
  if piece = [] ∨ piece = [dot] then none
  else if piece = [dot, dot] then some .parentDir
  else some (.normal piece)

def pieces (path : OsStr) : List OsStr := path.splitOnP (· == slash)

/-- `Path::components`. -/
def parts (path : OsStr) : List Part :=
  (if path.head? = some slash then [.rootDir]
    else if (pieces path).head? = some [dot] then [.curDir] else []) ++
      (pieces path).filterMap part?

def fileName (path : List Part) : Option OsStr :=
  match path.getLast? with
  | some (.normal name) => some name
  | _ => none

def parent (path : List Part) : Option (List Part) :=
  match path.getLast? with
  | none | some .rootDir => none
  | some _ => some path.dropLast

/-- `Path::join`. -/
def join (dir path : List Part) : List Part :=
  match path with
  | .rootDir :: _ => path
  | .curDir :: rest => if dir.isEmpty then path else dir ++ rest
  | _ => dir ++ path

def withFileName (path : List Part) (name : OsStr) : List Part :=
  join (if (fileName path).isSome then path.dropLast else path) (parts name)

/-- What is before the last dot of a file name, if anything is, and what is behind it. -/
def splitDot (name : OsStr) : OsStr × Option OsStr :=
  match name.reverse.dropWhile (· ≠ dot) with
  | [] => (name, none)
  | _ :: before =>
    if before.isEmpty then (name, none)
    else (before.reverse, some (name.reverse.takeWhile (· ≠ dot)).reverse)

def fileStem (path : List Part) : Option OsStr := (fileName path).map fun name => (splitDot name).1

def extension (path : List Part) : Option OsStr := (fileName path).bind fun name => (splitDot name).2

/-! ## One component -/

/-- What may be the name of an entry of a directory. -/
def IsName (name : OsStr) : Prop :=
  name ≠ [] ∧ name ≠ [dot] ∧ name ≠ [dot, dot] ∧ slash ∉ name

instance (name : OsStr) : Decidable (IsName name) := inferInstanceAs (Decidable (_ ∧ _ ∧ _ ∧ _))

theorem parts_of_isName {name : OsStr} (h : IsName name) : parts name = [.normal name] := by
  obtain ⟨hne, hdot, hdots, hslash⟩ := h
  have hpieces : pieces name = [name] := by
    apply List.splitOnP_eq_singleton
    intro b hb
    have hb' : b ≠ slash := fun e => hslash (e ▸ hb)
    simpa using hb'
  have hhead : name.head? ≠ some slash := fun e => hslash (List.mem_of_mem_head? e)
  have hfirst : ¬ [name].head? = some [dot] := fun e => hdot (Option.some.inj e)
  rw [parts, hpieces, if_neg hhead, if_neg hfirst, List.nil_append, List.filterMap_cons, part?,
    if_neg (by simp [hne, hdot]), if_neg hdots]
  rfl

theorem isName_of_mem_parts {path name : OsStr} (h : Part.normal name ∈ parts path) : IsName name := by
  have hpiece : Part.normal name ∈ (pieces path).filterMap part? := by
    rcases List.mem_append.mp h with hm | hm
    · split at hm
      · cases List.mem_singleton.mp hm
      · split at hm
        · cases List.mem_singleton.mp hm
        · cases hm
    · exact hm
  obtain ⟨piece, hp, e⟩ := List.mem_filterMap.mp hpiece
  unfold part? at e
  split at e
  · cases e
  rename_i hfilled
  split at e
  · cases e
  rename_i hdots
  cases e
  rw [not_or] at hfilled
  refine ⟨hfilled.1, hfilled.2, hdots, fun hm => ?_⟩
  have hno := Words.not_mem_piece hp slash hm
  simp at hno

theorem isName_of_fileName {path name : OsStr} (h : fileName (parts path) = some name) :
    IsName name := by
  unfold fileName at h
  split at h
  · rename_i last hlast
    cases h
    exact isName_of_mem_parts (List.mem_of_getLast? hlast)
  · cases h

@[simp] theorem fileName_concat (dir : List Part) (name : OsStr) :
    fileName (dir ++ [.normal name]) = some name := by
  rw [fileName, List.getLast?_concat]

@[simp] theorem parent_concat (dir : List Part) (name : OsStr) :
    parent (dir ++ [.normal name]) = some dir := by
  rw [parent, List.getLast?_concat, List.dropLast_concat]

theorem join_name (dir : List Part) {name : OsStr} (h : IsName name) :
    join dir (parts name) = dir ++ [.normal name] := by
  rw [parts_of_isName h]
  rfl

theorem withFileName_concat (dir : List Part) (old : OsStr) {name : OsStr} (h : IsName name) :
    withFileName (dir ++ [.normal old]) name = dir ++ [.normal name] := by
  rw [withFileName, fileName_concat, Option.isSome_some, if_pos rfl, List.dropLast_concat,
    join_name dir h]

/-- Whatever the path was, it ends with the new name. -/
theorem fileName_withFileName (path : List Part) {name : OsStr} (h : IsName name) :
    fileName (withFileName path name) = some name := by
  rw [withFileName, join_name _ h, fileName_concat]

/-! ## The last dot -/

theorem splitDot_none {name : OsStr} (h : dot ∉ name) : splitDot name = (name, none) := by
  have hdrop : name.reverse.dropWhile (· ≠ dot) = [] := by
    rw [List.dropWhile_eq_nil_iff]
    intro b hb
    have hb' : b ≠ dot := fun e => h (e ▸ List.mem_reverse.mp hb)
    simpa using hb'
  rw [splitDot, hdrop]

theorem splitDot_some {before after : OsStr} (h : dot ∉ after) (hne : before ≠ []) :
    splitDot (before ++ dot :: after) = (before, some after) := by
  have hafter : ∀ b ∈ after.reverse, decide (b ≠ dot) = true := by
    intro b hb
    have hb' : b ≠ dot := fun e => h (e ▸ List.mem_reverse.mp hb)
    simpa using hb'
  have hrev : (before ++ dot :: after).reverse = after.reverse ++ dot :: before.reverse := by simp
  have hdrop : (before ++ dot :: after).reverse.dropWhile (fun b => decide (b ≠ dot)) =
      dot :: before.reverse := by
    rw [hrev, List.dropWhile_append_of_pos hafter, List.dropWhile_cons_of_neg (by decide)]
  have htake : (before ++ dot :: after).reverse.takeWhile (fun b => decide (b ≠ dot)) =
      after.reverse := by
    rw [hrev, List.takeWhile_append_of_pos hafter, List.takeWhile_cons_of_neg (by decide),
      List.append_nil]
  simp only [splitDot, hdrop, htake, List.reverse_reverse, List.isEmpty_reverse]
  rw [if_neg (by simpa using hne)]

/-- A dot at the start is a part of the stem. -/
theorem splitDot_hidden {after : OsStr} (h : dot ∉ after) :
    splitDot (dot :: after) = (dot :: after, none) := by
  have hafter : ∀ b ∈ after.reverse, decide (b ≠ dot) = true := by
    intro b hb
    have hb' : b ≠ dot := fun e => h (e ▸ List.mem_reverse.mp hb)
    simpa using hb'
  have hdrop : (dot :: after).reverse.dropWhile (fun b => decide (b ≠ dot)) = [dot] := by
    rw [List.reverse_cons, List.dropWhile_append_of_pos hafter,
      List.dropWhile_cons_of_neg (by decide)]
  simp only [splitDot, hdrop]
  rfl

end AgentDaemon.OsPath
