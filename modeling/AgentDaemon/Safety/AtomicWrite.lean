import AgentDaemon.Ids
import AgentDaemon.Lib.Transition
import AgentDaemon.Safety.FileAccess

/-!
`AuthorizedPath::atomic_write`, step by step: a temporary file is written beside the target and
renamed over it, and what was handed out is validated before and after. Every step may fail. A
write leaves all or nothing exactly if the directory is not what fails to be synced at the end and
the temporary file can be taken away again (`allOrNothing_iff`).
-/

namespace AgentDaemon.Safety

open AgentDaemon.Path Fallible Transition

/-! ## Validation -/

/-- `validate_current`. -/
def AuthorizedPath.validateCurrent (sha256 : List UInt8 → List UInt8) (file : AuthorizedPath)
    (t : FileTree) : Except AccessError Unit :=
  if file.path = [] then .error (.other "文件路径没有父目录")
  else do
    let (currentParent, _) ← openDirectoryTree false t 0 file.path.dropLast
    if file.parentIdentity ≠ currentParent then
      .error (.other ("父目录身份已变化，拒绝覆盖: " ++ display file.path))
    else
      let current ← openRegularAt t file.parent file.basename
      match file.version, current with
      | none, none => .ok ()
      | some expected, some node =>
        if expected.identity ≠ node ∨ t.nlink node > 1 then
          .error (.other ("目标身份或链接数已变化，拒绝覆盖: " ++ display file.path))
        else if (versionOf sha256 t node).map Version.sha256 ≠ some expected.sha256 then
          .error (.other ("文件内容已变化，拒绝覆盖: " ++ display file.path))
        else .ok ()
      | _, _ => .error (.other ("目标存在状态已变化，拒绝覆盖: " ++ display file.path))

/-- What stands under the name of the file. -/
def AuthorizedPath.target (file : AuthorizedPath) (t : FileTree) : Option (List UInt8) :=
  (t.entry? file.parent file.basename).bind t.bytes?

/-- The name is free as it was, or has a regular file of the version. -/
theorem validateCurrent_ok {sha256 : List UInt8 → List UInt8} {file : AuthorizedPath}
    {t : FileTree} (h : file.validateCurrent sha256 t = .ok ()) :
    (file.version = none ∧ t.entry? file.parent file.basename = none) ∨
      ∃ expected node bytes, file.version = some expected ∧
        t.entry? file.parent file.basename = some node ∧ t.bytes? node = some bytes := by
  unfold AuthorizedPath.validateCurrent at h
  split at h
  · cases h
  obtain ⟨⟨parent, u⟩, -, h⟩ := bind_eq_ok.mp h
  dsimp only at h
  split at h
  · cases h
  obtain ⟨current, hcurrent, h⟩ := bind_eq_ok.mp h
  split at h
  · rename_i hversion
    exact .inl ⟨hversion, openRegularAt_none hcurrent⟩
  · rename_i expected node hversion
    obtain ⟨hentry, bytes, hbytes⟩ := openRegularAt_some hcurrent
    exact .inr ⟨expected, node, bytes, hversion, hentry, FileTree.bytes?_eq_some.mpr hbytes⟩
  · cases h

/-! ## The write -/

/-- What `NEXT_TEMP` and the process number make of the name. -/
def temporaryName (pid counter : Nat) : Name where
  chars := ".agent-write-".toList ++ ((toString pid).toList ++ '-' :: (toString counter).toList)
  valid := by
    have hpid : '/' ∉ (toString pid).toList := fun h => absurd (isDigit_of_mem_toString h) (by decide)
    have hcounter : '/' ∉ (toString counter).toList := fun h =>
      absurd (isDigit_of_mem_toString h) (by decide)
    refine ⟨by simp, by simp, by simp, ?_⟩
    simp only [List.mem_append, List.mem_cons, not_or]
    exact ⟨by decide, hpid, by decide, hcounter⟩

structure AtomicWrite where
  sha256 : List UInt8 → List UInt8
  file : AuthorizedPath
  temp : Name
  bytes : List UInt8

/-- Where a write is. `temp` is the temporary file. -/
inductive WritePhase where
  | validating
  | creating
  | stating (temp : Nat)
  | permitting (temp : Nat)
  | writing (temp : Nat)
  | flushing (temp : Nat)
  | syncing (temp : Nat)
  | revalidating (temp : Nat)
  | replacing (temp : Nat)
  | syncingParent
  | unlinking (error : AccessError)
  | returned (result : Except AccessError Unit)

/-- The steps that a write has before it at most. -/
def WritePhase.ahead : WritePhase → Nat
  | validating => 11
  | creating => 10
  | stating _ => 9
  | permitting _ => 8
  | writing _ => 7
  | flushing _ => 6
  | syncing _ => 5
  | revalidating _ => 4
  | replacing _ => 3
  | syncingParent => 2
  | unlinking _ => 1
  | returned _ => 0

structure Writing where
  tree : FileTree
  phase : WritePhase

/-- What the operating system says when a step fails, and how much a write has written by then. -/
structure Fault where
  message : String
  short : Nat

namespace AtomicWrite

variable (w : AtomicWrite)

def validate (t : FileTree) (fault : Option Fault) : Except AccessError Unit :=
  match fault with
  | some fault => .error (.other fault.message)
  | none => w.file.validateCurrent w.sha256 t

/-- The next step. The permissions of the temporary file are no part of the tree. -/
def step (s : Writing) (fault : Option Fault) : Writing :=
  match s.phase with
  | .validating =>
    if w.file.intent = .read then ⟨s.tree, .returned (.error (.other "只读能力不允许写入"))⟩
    else
      match w.validate s.tree fault with
      | .error error => ⟨s.tree, .returned (.error error)⟩
      | .ok () => ⟨s.tree, .creating⟩
  | .creating =>
    match fault, s.tree.createAt w.file.parent w.temp with
    | none, some (tree, temp) =>
      ⟨tree, if w.file.original.isSome then .stating temp else .writing temp⟩
    | _, _ => ⟨s.tree, .returned (.error (.other "创建临时文件失败"))⟩
  | .stating temp =>
    match fault with
    | some fault => ⟨s.tree, .unlinking (.other fault.message)⟩
    | none => ⟨s.tree, .permitting temp⟩
  | .permitting temp =>
    match fault with
    | some _ => ⟨s.tree, .unlinking (.other "保留目标文件权限失败")⟩
    | none => ⟨s.tree, .writing temp⟩
  | .writing temp =>
    match fault with
    | some fault => ⟨s.tree.writeAt temp (w.bytes.take fault.short), .unlinking (.other fault.message)⟩
    | none => ⟨s.tree.writeAt temp w.bytes, .flushing temp⟩
  | .flushing temp =>
    match fault with
    | some fault => ⟨s.tree, .unlinking (.other fault.message)⟩
    | none => ⟨s.tree, .syncing temp⟩
  | .syncing temp =>
    match fault with
    | some fault => ⟨s.tree, .unlinking (.other fault.message)⟩
    | none => ⟨s.tree, .revalidating temp⟩
  | .revalidating temp =>
    match w.validate s.tree fault with
    | .error error => ⟨s.tree, .unlinking error⟩
    | .ok () => ⟨s.tree, .replacing temp⟩
  | .replacing _ =>
    match fault, s.tree.renameAt w.file.parent w.temp w.file.basename with
    | none, some tree => ⟨tree, .syncingParent⟩
    | _, _ => ⟨s.tree, .unlinking (.other "原子替换失败")⟩
  | .syncingParent =>
    match fault with
    | some fault => ⟨s.tree, .unlinking (.other fault.message)⟩
    | none => ⟨s.tree, .returned (.ok ())⟩
  | .unlinking error =>
    match fault with
    | some _ => ⟨s.tree, .returned (.error error)⟩
    | none => ⟨s.tree.unlinkAt w.file.parent w.temp, .returned (.error error)⟩
  | .returned result => ⟨s.tree, .returned result⟩

def start (t : FileTree) : Writing := ⟨t, .validating⟩

/-! ## All or nothing -/

/-- The names beside the target are as they were. -/
def Tidy (before after : FileTree) : Prop :=
  ∀ name, name ≠ w.file.basename →
    after.entry? w.file.parent name = before.entry? w.file.parent name

/-- A write that returned has replaced the content, or it has left it and no temporary file. -/
structure AllOrNothing (before after : FileTree) (result : Except AccessError Unit) : Prop where
  ok : result = .ok () → w.file.target after = some w.bytes
  error : ∀ error, result = .error error →
    w.file.target after = w.file.target before ∧ w.Tidy before after

/-- The directory does not fail to be synced once the content has changed, and the temporary file
can be taken away. -/
def Safe (before : FileTree) (s : Writing) (fault : Option Fault) : Prop :=
  match s.phase with
  | .syncingParent => fault.isSome → w.file.target before = some w.bytes
  | .unlinking _ => fault.isSome →
    s.tree.entry? w.file.parent w.temp = before.entry? w.file.parent w.temp
  | _ => True

instance (before : FileTree) : (s : Writing) → (fault : Option Fault) →
    Decidable (w.Safe before s fault)
  | ⟨_, .syncingParent⟩, fault =>
    inferInstanceAs (Decidable (fault.isSome → w.file.target before = some w.bytes))
  | ⟨tree, .unlinking _⟩, fault => inferInstanceAs (Decidable (fault.isSome →
      tree.entry? w.file.parent w.temp = before.entry? w.file.parent w.temp))
  | ⟨_, .validating⟩, _ | ⟨_, .creating⟩, _ | ⟨_, .stating _⟩, _ | ⟨_, .permitting _⟩, _
  | ⟨_, .writing _⟩, _ | ⟨_, .flushing _⟩, _ | ⟨_, .syncing _⟩, _ | ⟨_, .revalidating _⟩, _
  | ⟨_, .replacing _⟩, _ | ⟨_, .returned _⟩, _ => isTrue trivial

/-! ## What a step keeps -/

/-- The target as the validation found it: a regular file of the version, or a free name. -/
def Found (t : FileTree) : Prop :=
  (w.file.version = none ∧ t.entry? w.file.parent w.file.basename = none) ∨
    ∃ expected node bytes, w.file.version = some expected ∧
      t.entry? w.file.parent w.file.basename = some node ∧ t.bytes? node = some bytes

/-- The temporary file, with these bytes, stands beside what there was before. -/
structure Beside (before tree : FileTree) (temp : Nat) (bytes : List UInt8) : Prop where
  free : before.entry? w.file.parent w.temp = none
  found : w.Found before
  entry : ∀ name, tree.entry? w.file.parent name =
    if name = w.temp then some temp else before.entry? w.file.parent name
  fresh : temp = before.nodes.length
  others : ∀ node, node ≠ temp → tree.bytes? node = before.bytes? node
  bytes : tree.bytes? temp = some bytes

/-- Taking the temporary file away, if it is there, leaves what there was before. -/
def Undone (before tree : FileTree) : Prop :=
  (∃ temp bytes, w.Beside before tree temp bytes) ∨
    (before.entry? w.file.parent w.temp = none ∧ w.temp ≠ w.file.basename ∧
      w.file.target tree = w.file.target before ∧ w.Tidy before tree)

def Inv (before : FileTree) (s : Writing) : Prop :=
  match s.phase with
  | .validating => s.tree = before
  | .creating => s.tree = before ∧ w.Found before
  | .stating temp | .permitting temp | .writing temp => w.Beside before s.tree temp []
  | .flushing temp | .syncing temp | .revalidating temp => w.Beside before s.tree temp w.bytes
  | .replacing temp => w.Beside before s.tree temp w.bytes ∧ w.temp ≠ w.file.basename
  | .syncingParent => before.entry? w.file.parent w.temp = none ∧ w.temp ≠ w.file.basename ∧
    w.file.target s.tree = some w.bytes ∧ w.Tidy before s.tree
  | .unlinking _ => w.Undone before s.tree
  | .returned result => w.AllOrNothing before s.tree result

/-- The content was replaced, and the write is about to return an error, or has returned one. -/
def Lost (before : FileTree) (s : Writing) : Prop :=
  match s.phase with
  | .unlinking _ => w.temp ≠ w.file.basename ∧ s.tree.entry? w.file.parent w.temp = none ∧
    w.file.target s.tree ≠ w.file.target before
  | .returned result => ¬ w.AllOrNothing before s.tree result
  | _ => False

section Keeps

variable {w} {before tree : FileTree} {temp : Nat} {bytes : List UInt8}

theorem validate_ok {fault : Option Fault} (h : w.validate tree fault = .ok ()) : w.Found tree := by
  cases fault with
  | some fault => cases h
  | none => exact validateCurrent_ok h

/-- What is under the name of the target is not the new file. -/
theorem Beside.other (h : w.Beside before tree temp bytes) {node : Nat}
    (hnode : before.entry? w.file.parent w.file.basename = some node) : node ≠ temp := by
  rintro rfl
  rcases h.found with ⟨-, hnone⟩ | ⟨expected, n, b, -, hentry, hbytes⟩
  · rw [hnone] at hnode
    cases hnode
  · cases hentry.symm.trans hnode
    have hlt := (List.getElem?_eq_some_iff.mp (FileTree.bytes?_eq_some.mp hbytes)).1
    exact absurd h.fresh (Nat.ne_of_lt hlt)

theorem Beside.target (h : w.Beside before tree temp bytes) (hne : w.temp ≠ w.file.basename) :
    w.file.target tree = w.file.target before := by
  rw [AuthorizedPath.target, h.entry, if_neg hne.symm, AuthorizedPath.target]
  cases hentry : before.entry? w.file.parent w.file.basename with
  | none => rfl
  | some node => exact h.others node (h.other hentry)

theorem Beside.unlink (h : w.Beside before tree temp bytes) (name : Name) :
    FileTree.entry? (tree.unlinkAt w.file.parent w.temp) w.file.parent name =
      before.entry? w.file.parent name := by
  have hfile : (tree.entry? w.file.parent w.temp).any tree.isDir = false := by
    rw [h.entry, if_pos rfl, Option.any_some]
    exact FileTree.isDir_of_bytes? h.bytes
  rw [FileTree.entry?_unlinkAt hfile, h.entry]
  by_cases hname : name = w.temp
  · rw [if_pos hname, hname, h.free]
  · rw [if_neg hname, if_neg hname]

/-- Once the temporary file has been taken away all is as before. -/
theorem Undone.unlink (h : w.Undone before tree) :
    w.file.target (tree.unlinkAt w.file.parent w.temp) = w.file.target before ∧
      w.Tidy before (tree.unlinkAt w.file.parent w.temp) := by
  rcases h with ⟨temp, bytes, h⟩ | ⟨hfree, hne, htarget, htidy⟩
  · refine ⟨?_, fun name _ => h.unlink name⟩
    rw [AuthorizedPath.target, h.unlink, AuthorizedPath.target]
    cases hentry : before.entry? w.file.parent w.file.basename with
    | none => rfl
    | some node =>
      rw [Option.bind_some, FileTree.bytes?_unlinkAt]
      exact h.others node (h.other hentry)
  · have hgone : tree.entry? w.file.parent w.temp = none := (htidy _ hne).trans hfree
    have hentry : ∀ name, FileTree.entry? (tree.unlinkAt w.file.parent w.temp) w.file.parent name =
        tree.entry? w.file.parent name := by
      intro name
      rw [FileTree.entry?_unlinkAt (by rw [hgone]; rfl)]
      by_cases hname : name = w.temp
      · rw [if_pos hname, hname, hgone]
      · rw [if_neg hname]
    refine ⟨?_, fun name hname => (hentry name).trans (htidy name hname)⟩
    rw [← htarget, AuthorizedPath.target, hentry, AuthorizedPath.target]
    congr 1
    funext node
    exact FileTree.bytes?_unlinkAt tree _ node _

theorem Undone.allOrNothing (h : w.Undone before tree) (error : AccessError) :
    w.AllOrNothing before (tree.unlinkAt w.file.parent w.temp) (.error error) :=
  ⟨nofun, fun _ _ => h.unlink⟩

theorem Beside.create {u : FileTree} (hfound : w.Found before)
    (h : before.createAt w.file.parent w.temp = some (u, temp)) : w.Beside before u temp [] := by
  obtain ⟨hfresh, -, hfree, hentry, hbytes, -⟩ := FileTree.createAt_eq_some h
  exact ⟨hfree, hfound, hentry, hfresh, fun node hne => by rw [hbytes, if_neg hne],
    by rw [hbytes, if_pos rfl]⟩

theorem Beside.write (h : w.Beside before tree temp []) (bytes : List UInt8) :
    w.Beside before (tree.writeAt temp bytes) temp bytes where
  free := h.free
  found := h.found
  entry name := by rw [FileTree.entry?_writeAt, h.entry]
  fresh := h.fresh
  others node hne := by rw [FileTree.bytes?_writeAt, if_neg hne, h.others node hne]
  bytes := by
    rw [FileTree.bytes?_writeAt, if_pos rfl, h.bytes]
    simp

/-- Where the second validation passes, the temporary file has a name of its own. -/
theorem Beside.apart (h : w.Beside before tree temp bytes) (hfound : w.Found tree) :
    w.temp ≠ w.file.basename := by
  intro he
  have htree : tree.entry? w.file.parent w.file.basename = some temp := by
    rw [h.entry, if_pos he.symm]
  have hfree : before.entry? w.file.parent w.file.basename = none := he ▸ h.free
  rcases hfound with ⟨-, hnone⟩ | ⟨expected, node, b, hversion, -, -⟩
  · rw [htree] at hnone
    cases hnone
  · rcases h.found with ⟨hversion', -⟩ | ⟨_, n, c, -, hentry, -⟩
    · rw [hversion] at hversion'
      cases hversion'
    · rw [hfree] at hentry
      cases hentry

theorem Beside.rename (h : w.Beside before tree temp bytes) (hne : w.temp ≠ w.file.basename) :
    ∃ u, tree.renameAt w.file.parent w.temp w.file.basename = some u ∧
      w.file.target u = some bytes ∧ w.Tidy before u := by
  have htemp : tree.entry? w.file.parent w.temp = some temp := by rw [h.entry, if_pos rfl]
  have hold : tree.entry? w.file.parent w.file.basename =
      before.entry? w.file.parent w.file.basename := by rw [h.entry, if_neg hne.symm]
  have hfile : (tree.entry? w.file.parent w.file.basename).any tree.isDir = false := by
    rw [hold]
    rcases h.found with ⟨-, hnone⟩ | ⟨expected, node, b, -, hentry, hbytes⟩
    · rw [hnone]
      rfl
    · rw [hentry, Option.any_some]
      refine @FileTree.isDir_of_bytes? _ _ b ?_
      rw [h.others node (h.other hentry), hbytes]
  have hother : tree.entry? w.file.parent w.file.basename ≠ some temp := by
    rw [hold]
    exact fun he => h.other he rfl
  obtain ⟨u, hu, hentry, hbytes⟩ := FileTree.renameAt_file htemp hne
    (FileTree.isDir_of_bytes? h.bytes) hfile hother
  refine ⟨u, hu, ?_, fun name hname => ?_⟩
  · rw [AuthorizedPath.target, hentry, if_pos rfl, Option.bind_some, hbytes, h.bytes]
  · rw [hentry, if_neg hname, h.entry]
    by_cases hn : name = w.temp
    · rw [if_pos hn, hn, h.free]
    · rw [if_neg hn, if_neg hn]

/-- A write that stops before it has made anything. -/
theorem allOrNothing_same (error : AccessError) : w.AllOrNothing before before (.error error) :=
  ⟨nofun, fun _ _ => ⟨rfl, fun _ _ => rfl⟩⟩

theorem Inv.step {s : Writing} (h : w.Inv before s) {fault : Option Fault}
    (hsafe : w.Safe before s fault) : w.Inv before (w.step s fault) := by
  obtain ⟨tree, phase⟩ := s
  cases phase with
  | validating =>
    cases h
    simp only [AtomicWrite.step]
    split
    · exact allOrNothing_same _
    · split
      · exact allOrNothing_same _
      · rename_i hvalid
        exact ⟨rfl, validate_ok hvalid⟩
  | creating =>
    obtain ⟨rfl, hfound⟩ := h
    simp only [AtomicWrite.step]
    split
    · rename_i u temp hcreate
      have hbeside := Beside.create hfound hcreate
      cases w.file.original.isSome <;> exact hbeside
    · exact allOrNothing_same _
  | stating temp =>
    cases fault with
    | some fault => exact .inl ⟨temp, [], h⟩
    | none => exact h
  | permitting temp =>
    cases fault with
    | some fault => exact .inl ⟨temp, [], h⟩
    | none => exact h
  | writing temp =>
    cases fault with
    | some fault => exact .inl ⟨temp, _, Beside.write h _⟩
    | none => exact Beside.write h _
  | flushing temp =>
    cases fault with
    | some fault => exact .inl ⟨temp, _, h⟩
    | none => exact h
  | syncing temp =>
    cases fault with
    | some fault => exact .inl ⟨temp, _, h⟩
    | none => exact h
  | revalidating temp =>
    simp only [AtomicWrite.step]
    split
    · exact .inl ⟨temp, _, h⟩
    · rename_i hvalid
      exact ⟨h, Beside.apart h (validate_ok hvalid)⟩
  | replacing temp =>
    obtain ⟨hbeside, hne⟩ := h
    obtain ⟨u, hu, htarget, htidy⟩ := hbeside.rename hne
    simp only [AtomicWrite.step, hu]
    cases fault with
    | some fault => exact .inl ⟨temp, _, hbeside⟩
    | none => exact ⟨hbeside.free, hne, htarget, htidy⟩
  | syncingParent =>
    obtain ⟨hfree, hne, htarget, htidy⟩ := h
    cases fault with
    | some fault => exact .inr ⟨hfree, hne, htarget.trans (hsafe rfl).symm, htidy⟩
    | none => exact ⟨fun _ => htarget, nofun⟩
  | unlinking error =>
    cases fault with
    | none => exact Undone.allOrNothing h error
    | some fault =>
      rcases h with ⟨temp, bytes, h⟩ | ⟨-, -, htarget, htidy⟩
      · have hsame := hsafe rfl
        rw [h.entry, if_pos rfl, h.free] at hsame
        cases hsame
      · exact ⟨nofun, fun _ _ => ⟨htarget, htidy⟩⟩
  | returned result => exact h

theorem Inv.lost {s : Writing} (h : w.Inv before s) {fault : Option Fault}
    (hsafe : ¬ w.Safe before s fault) : w.Lost before (w.step s fault) := by
  obtain ⟨tree, phase⟩ := s
  cases phase with
  | syncingParent =>
    obtain ⟨hfree, hne, htarget, htidy⟩ := h
    cases fault with
    | none => exact absurd (fun hsome => absurd hsome (by simp)) hsafe
    | some fault =>
      refine ⟨hne, (htidy _ hne).trans hfree, fun hsame => hsafe fun _ => ?_⟩
      exact hsame.symm.trans htarget
  | unlinking error =>
    cases fault with
    | none => exact absurd (fun hsome => absurd hsome (by simp)) hsafe
    | some fault =>
      have hleft : tree.entry? w.file.parent w.temp ≠ before.entry? w.file.parent w.temp :=
        fun hsame => hsafe fun _ => hsame
      rcases h with ⟨temp, bytes, h⟩ | ⟨hfree, hne, -, htidy⟩
      · intro hall
        replace h : w.Beside before tree temp bytes := h
        replace hall : w.AllOrNothing before tree (.error error) := hall
        obtain ⟨htarget, htidy⟩ := hall.error error rfl
        by_cases hne : w.temp = w.file.basename
        · have hfree : before.entry? w.file.parent w.file.basename = none := hne ▸ h.free
          rw [AuthorizedPath.target, AuthorizedPath.target, h.entry, if_pos hne.symm, hfree,
            Option.bind_some, h.bytes] at htarget
          cases htarget
        · exact hleft (htidy _ hne)
      · exact absurd (htidy _ hne) hleft
  | _ => exact absurd trivial hsafe

theorem Lost.step {s : Writing} (h : w.Lost before s) (fault : Option Fault) :
    w.Lost before (w.step s fault) := by
  obtain ⟨tree, phase⟩ := s
  cases phase with
  | unlinking error =>
    obtain ⟨hne, hgone, htarget⟩ := h
    replace hgone : tree.entry? w.file.parent w.temp = none := hgone
    cases fault with
    | some fault => exact fun hall => htarget (hall.error error rfl).1
    | none =>
      intro hall
      replace hall : w.AllOrNothing before (tree.unlinkAt w.file.parent w.temp) (.error error) :=
        hall
      refine htarget (Eq.trans ?_ (hall.error error rfl).1)
      rw [AuthorizedPath.target, AuthorizedPath.target,
        FileTree.entry?_unlinkAt (by rw [hgone]; rfl), if_neg hne.symm]
      congr 1
      funext node
      exact (FileTree.bytes?_unlinkAt tree _ node _).symm
  | returned result => exact h
  | _ => exact absurd h id

theorem Lost.not_inv {s : Writing} (h : w.Lost before s) : ¬ w.Inv before s := by
  obtain ⟨tree, phase⟩ := s
  cases phase with
  | unlinking error =>
    obtain ⟨hne, hgone, htarget⟩ := h
    rintro (⟨temp, bytes, hbeside⟩ | ⟨-, -, hsame, -⟩)
    · have hthere := hbeside.entry w.temp
      rw [if_pos rfl, hgone] at hthere
      cases hthere
    · exact htarget hsame
  | returned result => exact h
  | _ => exact absurd h id

/-- Only the rename changes what stands under the name of the target, as long as the temporary file
is not what stands there. -/
theorem target_step {s : Writing} {fault : Option Fault} (htarget : w.file.target s.tree = some bytes)
    (hne : w.temp ≠ w.file.basename)
    (hother : ∀ temp, s.phase = .writing temp →
      s.tree.entry? w.file.parent w.file.basename ≠ some temp)
    (hput : ∀ temp, s.phase = .replacing temp → (w.step s fault).phase ≠ .syncingParent) :
    w.file.target (w.step s fault).tree = some bytes := by
  obtain ⟨tree, phase⟩ := s
  replace htarget : (tree.entry? w.file.parent w.file.basename).bind tree.bytes? = some bytes :=
    htarget
  obtain ⟨node, hentry, hbytes⟩ := Option.bind_eq_some_iff.mp htarget
  have hwrite : ∀ temp content, tree.entry? w.file.parent w.file.basename ≠ some temp →
      w.file.target (tree.writeAt temp content) = some bytes := by
    intro temp content hne'
    have hnode : node ≠ temp := fun e => hne' (e ▸ hentry)
    rw [AuthorizedPath.target, FileTree.entry?_writeAt, hentry, Option.bind_some,
      FileTree.bytes?_writeAt, if_neg hnode, hbytes]
  cases phase with
  | validating =>
    simp only [AtomicWrite.step]
    split
    · exact htarget
    · split <;> exact htarget
  | creating =>
    simp only [AtomicWrite.step]
    split
    · rename_i u temp hcreate
      obtain ⟨hfresh, -, -, hentry', hbytes', -⟩ := FileTree.createAt_eq_some hcreate
      have hlt := (List.getElem?_eq_some_iff.mp (FileTree.bytes?_eq_some.mp hbytes)).1
      have hnode : node ≠ temp := fun e => absurd (e.trans hfresh) (Nat.ne_of_lt hlt)
      rw [AuthorizedPath.target, hentry', if_neg hne.symm, hentry, Option.bind_some, hbytes',
        if_neg hnode, hbytes]
    · exact htarget
  | writing temp =>
    cases fault with
    | some fault => exact hwrite temp _ (hother temp rfl)
    | none => exact hwrite temp _ (hother temp rfl)
  | replacing temp =>
    have hkept := hput temp rfl
    simp only [AtomicWrite.step] at hkept ⊢
    split
    · rename_i hrename
      simp only [hrename] at hkept
      exact absurd rfl hkept
    · exact htarget
  | unlinking error =>
    cases fault with
    | some fault => exact htarget
    | none =>
      simp only [AtomicWrite.step]
      rw [AuthorizedPath.target, FileTree.entry?_unlinkAt_of_ne _ _ hne.symm, hentry,
        Option.bind_some, FileTree.bytes?_unlinkAt, hbytes]
  | returned result => exact htarget
  | _ =>
    simp only [AtomicWrite.step]
    split <;> exact htarget

end Keeps

/-! ## Runs -/

theorem ahead_step (s : Writing) (fault : Option Fault) :
    (w.step s fault).phase.ahead ≤ s.phase.ahead - 1 := by
  obtain ⟨tree, phase⟩ := s
  cases phase <;> simp only [AtomicWrite.step]
  case validating =>
    split
    · simp [WritePhase.ahead]
    · split <;> simp [WritePhase.ahead]
  case creating =>
    split
    · cases w.file.original.isSome <;> simp [WritePhase.ahead]
    · simp [WritePhase.ahead]
  case returned => simp [WritePhase.ahead]
  all_goals split <;> simp [WritePhase.ahead]

theorem ahead_after (s : Writing) (faults : List (Option Fault)) :
    (after w.step s faults).phase.ahead ≤ s.phase.ahead - faults.length := by
  induction faults generalizing s with
  | nil => simp
  | cons fault faults ih =>
    have hstep := ahead_step w s fault
    have hrest := ih (w.step s fault)
    rw [after_cons, List.length_cons]
    omega

/-- Whatever fails, a write returns, and it has left all or nothing if and only if the directory
did not fail to be synced after a change and the temporary file could be taken away. -/
theorem allOrNothing_iff (before : FileTree) (faults : List (Option Fault))
    (h : 11 ≤ faults.length) :
    ∃ result, (after w.step (start before) faults).phase = .returned result ∧
      (w.AllOrNothing before (after w.step (start before) faults).tree result ↔
        Along w.step (w.Safe before) (start before) faults) := by
  have hahead := ahead_after w (start before) faults
  have hiff := after_iff_along (G := w.Safe before) (I := w.Inv before)
    (B := w.Lost before) (fun s fault hs hsafe => Inv.step hs hsafe)
    (fun s fault hs hsafe => Inv.lost hs hsafe) (fun s fault hs => Lost.step hs fault)
    (fun s hs => Lost.not_inv hs) (s := start before) rfl faults
  rcases hfinal : after w.step (start before) faults with ⟨tree, phase⟩
  rw [hfinal] at hahead hiff
  cases phase with
  | returned result => exact ⟨result, rfl, hiff⟩
  | _ =>
    simp only [WritePhase.ahead, start] at hahead
    omega

/-! ### The file `/f` -/

private def f : Name := ⟨['f'], by decide⟩

private def fileTree : FileTree := ⟨[.dir [(f, 1)], .file [1]], ⟨_, rfl⟩⟩

/-- The write of one byte over another one. -/
private def overF : AtomicWrite where
  sha256 := id
  file := ⟨[f], 0, 0, f, .edit, some 1, some ⟨1, [1]⟩⟩
  temp := temporaryName 1 0
  bytes := [2]

/-- The rename fails. -/
private def failedRename : List (Option Fault) :=
  List.replicate 8 none ++ [some ⟨"EIO", 0⟩, none, none]

/-- The directory can not be synced. -/
private def failedSync : List (Option Fault) :=
  List.replicate 9 none ++ [some ⟨"EIO", 0⟩, none]

theorem allOrNothing_failedRename :
    ∃ result, (after overF.step (start fileTree) failedRename).phase = .returned result ∧
      overF.AllOrNothing fileTree (after overF.step (start fileTree) failedRename).tree result := by
  obtain ⟨result, hresult, hiff⟩ := allOrNothing_iff overF fileTree failedRename (by decide)
  exact ⟨result, hresult, hiff.mpr (by decide +kernel)⟩

/-- The write returns an error, and the target has the new content. -/
theorem not_allOrNothing_failedSync :
    (after overF.step (start fileTree) failedSync).phase = .returned (.error (.other "EIO")) ∧
    ¬ overF.AllOrNothing fileTree (after overF.step (start fileTree) failedSync).tree
      (.error (.other "EIO")) := by
  refine ⟨by rfl, fun h => ?_⟩
  have htarget := (h.error _ rfl).1
  revert htarget
  decide +kernel

end AtomicWrite

end AgentDaemon.Safety
