import Mathlib.Data.List.Infix
import Mathlib.Algebra.Ring.Nat

/-!
Trees of directories, regular files and symbolic links, and the paths that lead through them.
`walk` goes down from a directory through directories only; `canonicalize` follows the links on
its way. A directory that is made later leaves every way through the tree as it was (`walk_mono`).
-/

namespace AgentDaemon

/-! ## Paths -/

/-- The name of an entry of a directory. -/
structure Name where
  chars : List Char
  valid : chars ≠ [] ∧ chars ≠ ['.'] ∧ chars ≠ ['.', '.'] ∧ '/' ∉ chars
  deriving DecidableEq

/-- `std::path::Component` on Unix. -/
inductive Component where
  | rootDir
  | curDir
  | parentDir
  | normal (name : Name)
  deriving DecidableEq

namespace Path

/-- What stands between the slashes. -/
def pieces : List Char → List (List Char)
  | [] => [[]]
  | c :: cs =>
    match pieces cs with
    | [] => [[c]]
    | piece :: rest => if c = '/' then [] :: piece :: rest else (c :: piece) :: rest

/-- The component of a piece, `none` for an empty one and for a dot. -/
def component? (piece : List Char) : Option Component :=
  if piece = ['.', '.'] then some .parentDir
  else if h : piece ≠ [] ∧ piece ≠ ['.'] ∧ piece ≠ ['.', '.'] ∧ '/' ∉ piece then
    some (.normal ⟨piece, h⟩)
  else none

/-- `Path::components`: of the dots only one at the start of a relative path counts. -/
def components (path : List Char) : List Component :=
  match path, pieces path with
  | '/' :: _, parts => .rootDir :: parts.filterMap component?
  | _, ['.'] :: parts => .curDir :: parts.filterMap component?
  | _, parts => parts.filterMap component?

/-- A path as the kernel walks it: a piece that is empty or a dot stays where it is, so that a
slash at the end asks for a directory. -/
def steps (path : List Char) : List Component :=
  (if path.head? = some '/' then [.rootDir] else []) ++
    (pieces path).map fun piece => (component? piece).getD .curDir

/-- The components of an absolute path without dots. -/
def absolute (path : List Name) : List Component := .rootDir :: path.map .normal

/-- `Path::starts_with`. -/
def startsWith (path : List Name) (base : List Component) : Bool := decide (base <+: absolute path)

/-- `Path::display`. -/
def display (path : List Name) : String :=
  if path = [] then "/" else String.join (path.map fun name => "/" ++ String.ofList name.chars)

theorem startsWith_absolute {path base : List Name} :
    startsWith path (absolute base) = true ↔ base <+: path := by
  have hinj : Function.Injective Component.normal := by
    intro a b h
    cases h
    rfl
  simp only [startsWith, absolute, decide_eq_true_eq, List.cons_prefix_cons, true_and]
  exact List.prefix_map_iff_of_injective hinj

end Path

/-! ## Trees -/

inductive Node where
  | file (bytes : List UInt8)
  | dir (entries : List (Name × Nat))
  | link (target : List Char)
  deriving DecidableEq

/-- Nodes under their numbers. An entry of a directory tells the number of its node, so that a file
may have several names. Number 0 is the root. -/
structure FileTree where
  nodes : List Node
  root : ∃ entries, nodes[0]? = some (.dir entries)
  deriving DecidableEq

namespace FileTree

def entries? (t : FileTree) (dir : Nat) : Option (List (Name × Nat)) :=
  match t.nodes[dir]? with
  | some (.dir entries) => some entries
  | _ => none

def isDir (t : FileTree) (node : Nat) : Bool := (t.entries? node).isSome

def lookup (name : Name) (entries : List (Name × Nat)) : Option Nat :=
  (entries.find? (·.1 = name)).map Prod.snd

def entry? (t : FileTree) (dir : Nat) (name : Name) : Option Nat :=
  (t.entries? dir).bind (lookup name)

/-- The directory that is reached from `dir` through directories only. -/
def walk (t : FileTree) (dir : Nat) : List Name → Option Nat
  | [] => some dir
  | name :: path => (t.entry? dir name).bind fun next =>
    if t.isDir next then t.walk next path else none

/-- The number of names of a node. -/
def nlink (t : FileTree) (node : Nat) : Nat :=
  (t.nodes.map fun
    | .dir entries => entries.countP (·.2 = node)
    | _ => 0).sum

/-! ### Links -/

/-- Goes on from the directory `done` and calls `follow` at a link. -/
def stepOver (t : FileTree) (follow : List Component → List Name → Option (List Name)) :
    List Component → List Name → Option (List Name)
  | [], done => some done
  | .rootDir :: todo, _ => t.stepOver follow todo []
  | .curDir :: todo, done => t.stepOver follow todo done
  | .parentDir :: todo, done => t.stepOver follow todo done.dropLast
  | .normal name :: todo, done =>
    match ((t.walk 0 done).bind (t.entry? · name)).bind (t.nodes[·]?) with
    | none => none
    | some (.link target) => follow (Path.steps target ++ todo) done
    | some (.dir _) => t.stepOver follow todo (done ++ [name])
    | some (.file _) => if todo = [] then some (done ++ [name]) else none

/-- Follows at most `links` links. -/
def resolve (t : FileTree) : Nat → List Component → List Name → Option (List Name)
  | 0 => t.stepOver fun _ _ => none
  | links + 1 => t.stepOver (t.resolve links)

/-- The kernel gives up on a path after this many links. -/
def maxLinks : Nat := 40

/-- `std::fs::canonicalize` of an absolute path. -/
def canonicalize (t : FileTree) (path : List Name) : Option (List Name) :=
  t.resolve maxLinks (path.map .normal) []

/-- `Path::exists`. -/
def exists? (t : FileTree) (path : List Name) : Bool := (t.canonicalize path).isSome

/-! ### Making a directory -/

def addEntry (name : Name) (node : Nat) : Node → Node
  | .dir entries => .dir (entries ++ [(name, node)])
  | other => other

/-- `mkdirat` for a name that is not taken. -/
def mkdirAt (t : FileTree) (dir : Nat) (name : Name) : FileTree where
  nodes := t.nodes.modify dir (addEntry name t.nodes.length) ++ [.dir []]
  root := by
    obtain ⟨entries, h⟩ := t.root
    have hlt : 0 < t.nodes.length := (List.getElem?_eq_some_iff.mp h).1
    rw [List.getElem?_append_left (by simpa using hlt), List.getElem?_modify, h]
    by_cases hd : dir = 0
    · exact ⟨entries ++ [(name, t.nodes.length)], by simp [hd, addEntry]⟩
    · exact ⟨entries, by simp [hd]⟩

/-- Whatever is found in `t` is found in `t'`. -/
structure Keeps (t t' : FileTree) : Prop where
  entry : ∀ dir name node, t.entry? dir name = some node → t'.entry? dir name = some node
  dir : ∀ node, t.isDir node = true → t'.isDir node = true

theorem Keeps.refl (t : FileTree) : Keeps t t := ⟨fun _ _ _ h => h, fun _ h => h⟩

theorem Keeps.trans {t t' t'' : FileTree} (h : Keeps t t') (h' : Keeps t' t'') : Keeps t t'' :=
  ⟨fun dir name node hn => h'.entry dir name node (h.entry dir name node hn),
    fun node hn => h'.dir node (h.dir node hn)⟩

theorem entries?_mkdirAt {t : FileTree} {dir node : Nat} {name : Name}
    {entries : List (Name × Nat)} (h : t.entries? node = some entries) :
    (t.mkdirAt dir name).entries? node =
      some (if node = dir then entries ++ [(name, t.nodes.length)] else entries) := by
  have hn : t.nodes[node]? = some (.dir entries) := by
    unfold entries? at h
    split at h
    · cases h
      assumption
    · cases h
  have hlt : node < t.nodes.length := (List.getElem?_eq_some_iff.mp hn).1
  have hm : (t.mkdirAt dir name).nodes[node]? =
      some (.dir (if node = dir then entries ++ [(name, t.nodes.length)] else entries)) := by
    rw [mkdirAt, List.getElem?_append_left (by simpa using hlt), List.getElem?_modify, hn]
    by_cases hd : dir = node
    · simp [hd, addEntry]
    · simp [hd, Ne.symm hd]
  simp only [entries?, hm]

theorem keeps_mkdirAt (t : FileTree) (dir : Nat) (name : Name) : Keeps t (t.mkdirAt dir name) where
  entry := by
    intro d n node h
    obtain ⟨entries, he, hl⟩ := Option.bind_eq_some_iff.mp h
    refine Option.bind_eq_some_iff.mpr ⟨_, entries?_mkdirAt he, ?_⟩
    split
    · obtain ⟨e, hfind, hnode⟩ := Option.map_eq_some_iff.mp hl
      exact Option.map_eq_some_iff.mpr ⟨e, by rw [List.find?_append, hfind]; rfl, hnode⟩
    · exact hl
  dir := by
    intro node h
    obtain ⟨entries, he⟩ := Option.isSome_iff_exists.mp h
    rw [isDir, entries?_mkdirAt he]
    rfl

/-! ### Ways -/

theorem walk_append {t : FileTree} {dir : Nat} (path more : List Name) :
    t.walk dir (path ++ more) = (t.walk dir path).bind (t.walk · more) := by
  induction path generalizing dir with
  | nil => rfl
  | cons name path ih =>
    simp only [List.cons_append, walk, Option.bind_assoc]
    congr 1
    funext next
    split
    · exact ih
    · rfl

/-! ### Files and their names -/

/-- The bytes of a regular file. -/
def bytes? (t : FileTree) (node : Nat) : Option (List UInt8) :=
  match t.nodes[node]? with
  | some (.file bytes) => some bytes
  | _ => none

/-- Change one node; a directory stays one. -/
def modify (t : FileTree) (node : Nat) (g : Node → Node)
    (hg : ∀ entries, ∃ entries', g (.dir entries) = .dir entries') : FileTree where
  nodes := t.nodes.modify node g
  root := by
    obtain ⟨entries, h⟩ := t.root
    rw [List.getElem?_modify, h]
    by_cases hn : node = 0
    · obtain ⟨entries', he⟩ := hg entries
      exact ⟨entries', by simp [hn, he]⟩
    · exact ⟨entries, by simp [hn]⟩

/-- Write over a file from its start. -/
def overwrite (bytes : List UInt8) : Node → Node
  | .file old => .file (bytes ++ old.drop bytes.length)
  | other => other

def relist (f : List (Name × Nat) → List (Name × Nat)) : Node → Node
  | .dir entries => .dir (f entries)
  | other => other

def writeAt (t : FileTree) (node : Nat) (bytes : List UInt8) : FileTree :=
  t.modify node (overwrite bytes) fun entries => ⟨entries, rfl⟩

def relistAt (t : FileTree) (dir : Nat) (f : List (Name × Nat) → List (Name × Nat)) : FileTree :=
  t.modify dir (relist f) fun entries => ⟨f entries, rfl⟩

/-- A new file that has no name yet. -/
def grow (t : FileTree) : FileTree where
  nodes := t.nodes ++ [.file []]
  root := by
    obtain ⟨entries, h⟩ := t.root
    exact ⟨entries, by rw [List.getElem?_append_left (List.getElem?_eq_some_iff.mp h).1, h]⟩

/-- `openat` with `O_CREAT` and `O_EXCL`. -/
def createAt (t : FileTree) (dir : Nat) (name : Name) : Option (FileTree × Nat) :=
  if t.isDir dir ∧ t.entry? dir name = none then
    some (t.grow.relistAt dir (· ++ [(name, t.nodes.length)]), t.nodes.length)
  else none

/-- `unlinkat` of anything but a directory. -/
def unlinkAt (t : FileTree) (dir : Nat) (name : Name) : FileTree :=
  if (t.entry? dir name).any t.isDir then t else t.relistAt dir (·.filter (·.1 ≠ name))

/-- `renameat` within one directory. Two names of one file are left as they are. -/
def renameAt (t : FileTree) (dir : Nat) (source target : Name) : Option FileTree :=
  match t.entry? dir source with
  | none => none
  | some node =>
    if t.entry? dir target = some node then some t
    else if (t.entry? dir target).any fun old =>
        t.isDir old != t.isDir node || (t.entries? old).any (· ≠ []) then none
    else some (t.relistAt dir fun entries =>
      entries.filter (fun e => e.1 ≠ source ∧ e.1 ≠ target) ++ [(target, node)])

theorem bytes?_eq_some {t : FileTree} {node : Nat} {bytes : List UInt8} :
    t.bytes? node = some bytes ↔ t.nodes[node]? = some (.file bytes) := by
  unfold bytes?
  split
  · rename_i h
    simp [h]
  · rename_i h
    simp only [reduceCtorEq, false_iff]
    exact h bytes

theorem isDir_of_bytes? {t : FileTree} {node : Nat} {bytes : List UInt8}
    (h : t.bytes? node = some bytes) : t.isDir node = false := by
  rw [isDir, entries?, bytes?_eq_some.mp h]
  rfl

theorem lookup_filter (p : Name → Bool) (name : Name) (entries : List (Name × Nat)) :
    lookup name (entries.filter fun e => p e.1) = if p name then lookup name entries else none := by
  rw [lookup, List.find?_filter, lookup]
  have hentry : (fun e : Name × Nat => decide (p e.1 = true ∧ decide (e.1 = name) = true)) =
      fun e => p name && decide (e.1 = name) := by
    funext e
    by_cases hname : e.1 = name <;> simp [hname]
  rw [hentry]
  by_cases hp : p name = true <;> simp [hp]

theorem lookup_append_singleton (entries : List (Name × Nat)) (name target : Name) (node : Nat) :
    lookup name (entries ++ [(target, node)]) =
      (lookup name entries).or (if target = name then some node else none) := by
  simp only [lookup, List.find?_append]
  cases entries.find? (·.1 = name) with
  | some e => rfl
  | none => by_cases h : target = name <;> simp [h]

theorem entries?_relistAt (t : FileTree) (dir node : Nat)
    (f : List (Name × Nat) → List (Name × Nat)) :
    (t.relistAt dir f).entries? node =
      if node = dir then (t.entries? node).map f else t.entries? node := by
  simp only [entries?, relistAt, modify, List.getElem?_modify]
  by_cases h : dir = node
  · subst h
    cases t.nodes[dir]? with
    | none => simp
    | some n => cases n <;> simp [relist]
  · have h' : node ≠ dir := fun e => h e.symm
    cases t.nodes[node]? <;> simp [h, h']

theorem bytes?_relistAt (t : FileTree) (dir node : Nat)
    (f : List (Name × Nat) → List (Name × Nat)) :
    (t.relistAt dir f).bytes? node = t.bytes? node := by
  simp only [bytes?, relistAt, modify, List.getElem?_modify]
  by_cases h : dir = node
  · subst h
    cases t.nodes[dir]? with
    | none => simp
    | some n => cases n <;> simp [relist]
  · cases t.nodes[node]? <;> simp [h]

theorem isDir_relistAt (t : FileTree) (dir node : Nat)
    (f : List (Name × Nat) → List (Name × Nat)) :
    (t.relistAt dir f).isDir node = t.isDir node := by
  rw [isDir, entries?_relistAt, isDir]
  split <;> simp

theorem entries?_writeAt (t : FileTree) (file node : Nat) (bytes : List UInt8) :
    (t.writeAt file bytes).entries? node = t.entries? node := by
  simp only [entries?, writeAt, modify, List.getElem?_modify]
  by_cases h : file = node
  · subst h
    cases t.nodes[file]? with
    | none => simp
    | some n => cases n <;> simp [overwrite]
  · cases t.nodes[node]? <;> simp [h]

theorem entry?_writeAt (t : FileTree) (file dir : Nat) (bytes : List UInt8) (name : Name) :
    entry? (t.writeAt file bytes) dir name = t.entry? dir name := by
  unfold entry?
  rw [entries?_writeAt]

theorem bytes?_writeAt (t : FileTree) (file node : Nat) (bytes : List UInt8) :
    (t.writeAt file bytes).bytes? node =
      if node = file then (t.bytes? node).map fun old => bytes ++ old.drop bytes.length
      else t.bytes? node := by
  simp only [bytes?, writeAt, modify, List.getElem?_modify]
  by_cases h : file = node
  · subst h
    cases t.nodes[file]? with
    | none => simp
    | some n => cases n <;> simp [overwrite]
  · have h' : node ≠ file := fun e => h e.symm
    cases t.nodes[node]? <;> simp [h, h']

theorem entries?_grow (t : FileTree) (node : Nat) : t.grow.entries? node = t.entries? node := by
  simp only [entries?, grow, List.getElem?_append]
  by_cases hlt : node < t.nodes.length
  · rw [if_pos hlt]
  · have hnone : t.nodes[node]? = none := List.getElem?_eq_none (Nat.le_of_not_lt hlt)
    rw [if_neg hlt, hnone]
    cases hn : node - t.nodes.length <;> simp

theorem bytes?_grow (t : FileTree) (node : Nat) :
    t.grow.bytes? node = if node = t.nodes.length then some [] else t.bytes? node := by
  simp only [bytes?, grow, List.getElem?_append]
  by_cases hlt : node < t.nodes.length
  · rw [if_pos hlt, if_neg (Nat.ne_of_lt hlt)]
  · have hnone : t.nodes[node]? = none := List.getElem?_eq_none (Nat.le_of_not_lt hlt)
    rw [if_neg hlt, hnone]
    by_cases he : node = t.nodes.length
    · simp [he]
    · have hpos : node - t.nodes.length ≠ 0 := by omega
      obtain ⟨k, hk⟩ := Nat.exists_eq_succ_of_ne_zero hpos
      simp [he, hk]

/-- What a new file is. -/
theorem createAt_eq_some {t t' : FileTree} {dir node : Nat} {name : Name}
    (h : t.createAt dir name = some (t', node)) :
    node = t.nodes.length ∧ t.isDir dir = true ∧ t.entry? dir name = none ∧
      (∀ other, t'.entry? dir other = if other = name then some node else t.entry? dir other) ∧
      (∀ n, t'.bytes? n = if n = node then some [] else t.bytes? n) ∧
      ∀ n, t'.isDir n = t.isDir n := by
  unfold createAt at h
  split at h
  · rename_i hfree
    simp only [Option.some.injEq, Prod.mk.injEq] at h
    obtain ⟨rfl, rfl⟩ := h
    refine ⟨rfl, hfree.1, hfree.2, fun other => ?_, fun n => ?_, fun n => ?_⟩
    · unfold entry?
      rw [entries?_relistAt, if_pos rfl, entries?_grow]
      obtain ⟨entries, he⟩ := Option.isSome_iff_exists.mp hfree.1
      have hfree' : lookup name entries = none := by
        have hnone := hfree.2
        unfold entry? at hnone
        rw [he] at hnone
        exact hnone
      rw [he, Option.map_some, Option.bind_some, lookup_append_singleton, Option.bind_some]
      by_cases hname : other = name
      · subst hname
        simp [hfree']
      · have hname' : name ≠ other := fun e => hname e.symm
        simp [hname, hname']
    · rw [bytes?_relistAt, bytes?_grow]
    · rw [isDir_relistAt, isDir, entries?_grow, isDir]
  · cases h

theorem entry?_relistAt_filter (t : FileTree) (dir : Nat) (p : Name → Bool) (name : Name) :
    entry? (t.relistAt dir (·.filter fun e => p e.1)) dir name =
      if p name then t.entry? dir name else none := by
  unfold entry?
  rw [entries?_relistAt, if_pos rfl]
  cases t.entries? dir with
  | none => simp
  | some entries => exact lookup_filter p name entries

theorem entry?_unlinkAt {t : FileTree} {dir : Nat} {name : Name}
    (h : (t.entry? dir name).any t.isDir = false) (other : Name) :
    entry? (t.unlinkAt dir name) dir other = if other = name then none else t.entry? dir other := by
  have hfilter := entry?_relistAt_filter t dir (fun n => decide (n ≠ name)) other
  rw [unlinkAt, if_neg (by simp [h]), hfilter]
  by_cases hname : other = name <;> simp [hname]

theorem entry?_unlinkAt_of_ne (t : FileTree) (dir : Nat) {name other : Name} (h : other ≠ name) :
    entry? (t.unlinkAt dir name) dir other = t.entry? dir other := by
  cases hdir : (t.entry? dir name).any t.isDir with
  | false => rw [entry?_unlinkAt hdir, if_neg h]
  | true => rw [unlinkAt, if_pos hdir]

theorem bytes?_unlinkAt (t : FileTree) (dir node : Nat) (name : Name) :
    (t.unlinkAt dir name).bytes? node = t.bytes? node := by
  unfold unlinkAt
  split
  · rfl
  · exact bytes?_relistAt t dir node _

/-- A file that is put in the place of another one, or at a free name. -/
theorem renameAt_file {t : FileTree} {dir node : Nat} {source target : Name}
    (hsource : t.entry? dir source = some node) (hne : source ≠ target)
    (hnode : t.isDir node = false) (htarget : (t.entry? dir target).any t.isDir = false)
    (hother : t.entry? dir target ≠ some node) :
    ∃ t', t.renameAt dir source target = some t' ∧
      (∀ name, t'.entry? dir name = if name = target then some node
        else if name = source then none else t.entry? dir name) ∧
      ∀ n, t'.bytes? n = t.bytes? n := by
  have hno : ((t.entry? dir target).any fun old =>
      t.isDir old != t.isDir node || (t.entries? old).any (· ≠ [])) = false := by
    cases hold : t.entry? dir target with
    | none => rfl
    | some old =>
      rw [hold] at htarget
      have hold' : t.isDir old = false := by simpa using htarget
      have hentries : t.entries? old = none := by
        rw [isDir, Option.isSome_eq_false_iff, Option.isNone_iff_eq_none] at hold'
        exact hold'
      simp [hnode, hold', hentries]
  refine ⟨_, by rw [renameAt, hsource]; simp only [if_neg hother, hno]; rfl, fun name => ?_,
    fun n => bytes?_relistAt t dir n _⟩
  obtain ⟨entries, he, hlookup⟩ := Option.bind_eq_some_iff.mp hsource
  have hfilter := lookup_filter (fun n => decide (n ≠ source ∧ n ≠ target)) name entries
  unfold entry?
  rw [entries?_relistAt, if_pos rfl, he, Option.map_some, Option.bind_some,
    lookup_append_singleton, hfilter, Option.bind_some]
  by_cases hname : name = target
  · subst hname
    simp
  · have hname' : target ≠ name := fun e => hname e.symm
    by_cases hs : name = source
    · subst hs
      simp [hname, hname']
    · simp [hname, hname', hs]

/-- A rename leaves the file under its new name. -/
theorem entry?_of_renameAt {t t' : FileTree} {dir : Nat} {source target : Name}
    (h : t.renameAt dir source target = some t') :
    t'.entry? dir target = t.entry? dir source ∧ ∀ n, t'.bytes? n = t.bytes? n := by
  unfold renameAt at h
  split at h
  · cases h
  rename_i node hsource
  split at h
  · rename_i hsame
    cases h
    exact ⟨hsame.trans hsource.symm, fun _ => rfl⟩
  · split at h
    · cases h
    · cases h
      refine ⟨?_, fun n => bytes?_relistAt t dir n _⟩
      obtain ⟨entries, he, hlookup⟩ := Option.bind_eq_some_iff.mp hsource
      have hfilter := lookup_filter (fun n => decide (n ≠ source ∧ n ≠ target)) target entries
      unfold entry?
      rw [entries?_relistAt, if_pos rfl, he, Option.map_some, Option.bind_some,
        lookup_append_singleton, hfilter, Option.bind_some, hlookup]
      simp

end FileTree

end AgentDaemon
