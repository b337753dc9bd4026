import AgentDaemon.Lib.Json
import AgentDaemon.Lib.Search
import AgentDaemon.Lib.Utf8
import AgentDaemon.Safety.AtomicWrite

/-!
The tool `edit_file`: it reads the file, counts how often a scan finds the old text, and writes the
file back with the text replaced, while other processes may change the tree before every step. What
it puts in place is right exactly if the occurrences of the old text do not overlap and the file is
still the one it has read when it renames (`edit_right_iff`).
-/

namespace AgentDaemon.Tools

open AgentDaemon.Path Safety Search Transition

/-! ## The tool -/

structure EditArgs where
  path : String
  oldText : List Char
  newText : List Char
  replaceAll : Bool

/-- `serde_json::from_value` of an object. -/
def EditArgs.ofJson (args : Json) : Except AccessError EditArgs :=
  let replaceAll := match args.get? "replace_all" with
    | none => some false
    | some (.bool b) => some b
    | some _ => none
  match (args.get? "path").bind Json.asStr?, (args.get? "old_text").bind Json.asStr?,
      (args.get? "new_text").bind Json.asStr?, replaceAll with
  | some path, some oldText, some newText, some replaceAll =>
    .ok ⟨path, oldText.toList, newText.toList, replaceAll⟩
  | _, _, _, _ => .error (.other "edit_file 参数无效")

def maxFileReadBytes : Nat := 32 * 1024 * 1024

/-- `AuthorizedPath::read_to_string`, through the handle. -/
def readToString (file : AuthorizedPath) (t : FileTree) : Except AccessError (List Char) :=
  match file.original.bind t.bytes? with
  | none => .error (.other "授权文件不存在")
  | some bytes =>
    if bytes.length > maxFileReadBytes then .error (.other "文件超过 32 MiB 读取上限")
    else
      match fromUtf8 bytes with
      | none => .error (.other "文件不是 UTF-8")
      | some content => .ok content

/-- What the tool works with; `granted` is what `authorize_file` gives. -/
structure EditFile where
  sha256 : List UInt8 → List UInt8
  temp : Name
  args : EditArgs
  granted : Except AccessError (AuthorizedPath × FileTree)

inductive EditPhase where
  | reading (file : AuthorizedPath)
  | writing (file : AuthorizedPath) (content : List Char) (phase : WritePhase)
  | returned (result : Except AccessError String)

structure Editing where
  tree : FileTree
  phase : EditPhase

/-- Something has been put in place, and the write has not failed since. -/
def EditPhase.done : EditPhase → Bool
  | writing _ _ .syncingParent | writing _ _ (.returned (.ok ())) | returned (.ok _) => true
  | _ => false

namespace EditFile

variable (e : EditFile)

def count (content : List Char) : Nat := matchCount e.args.oldText 0 content

/-- The text that is written back. -/
def updated (content : List Char) : List Char :=
  if e.args.replaceAll then replaceAll e.args.oldText e.args.newText 0 content
  else replaceFirst e.args.oldText e.args.newText content

def write (file : AuthorizedPath) (content : List Char) : AtomicWrite :=
  ⟨e.sha256, file, e.temp, utf8 (e.updated content)⟩

/-- What follows the content that was read. -/
def decide (file : AuthorizedPath) (content : List Char) : EditPhase :=
  if e.count content = 0 then .returned (.error (.other "未找到 old_text，文件未修改"))
  else if e.count content > 1 ∧ e.args.replaceAll = false then
    .returned (.error (.other ("old_text 出现 " ++ toString (e.count content) ++
      " 次；请提供更精确的文本或设置 replace_all=true")))
  else .writing file content .validating

/-- What the end of the write makes of the phase. -/
def settle (file : AuthorizedPath) (content : List Char) : WritePhase → EditPhase
  | .returned (.ok ()) => .returned (.ok ("已编辑 " ++ display file.path ++ "，替换 " ++
      toString (e.count content) ++ " 处"))
  | .returned (.error _) =>
    .returned (.error (.other ("写回编辑结果失败: " ++ display file.path)))
  | phase => .writing file content phase

def step (s : Editing) (fault : Option Fault) : Editing :=
  match s.phase with
  | .reading file =>
    match fault, readToString file s.tree with
    | none, .ok content => ⟨s.tree, e.decide file content⟩
    | _, _ => ⟨s.tree, .returned (.error (.other ("读取待编辑文件失败: " ++ display file.path)))⟩
  | .writing file content phase =>
    let s' := (e.write file content).step ⟨s.tree, phase⟩ fault
    ⟨s'.tree, e.settle file content s'.phase⟩
  | .returned result => ⟨s.tree, .returned result⟩

inductive Event where
  /-- The next step of the tool. -/
  | step (fault : Option Fault)
  /-- Other processes leave this tree. -/
  | others (tree : FileTree)

def next (s : Editing) : Event → Editing
  | .step fault => e.step s fault
  | .others tree => ⟨tree, s.phase⟩

/-- `execute`, until the file is read. -/
def start (tree : FileTree) : Editing :=
  if e.args.oldText = [] then ⟨tree, .returned (.error (.other "old_text 不能为空"))⟩
  else
    match e.granted with
    | .error error => ⟨tree, .returned (.error error)⟩
    | .ok (file, tree) => ⟨tree, .reading file⟩

/-! ## Right edits -/

/-- The step puts a new file in the place of the old one. -/
def Puts (s : Editing) (event : Event) : Prop :=
  ∃ file content temp, s.phase = .writing file content (.replacing temp) ∧
    (e.next s event).phase = .writing file content .syncingParent

/-- The file is the one that was read, and it is replaced by what the edit asks for: the only
occurrence of the old text is replaced, or all from left to right. -/
structure Proper (file : AuthorizedPath) (content : List Char) (before after : FileTree) : Prop where
  unchanged : file.target before = some (utf8 content)
  single : e.args.replaceAll = false → ∃ i, Only e.args.oldText content i ∧
    file.target after = some (utf8 (content.take i ++ e.args.newText ++
      content.drop (i + e.args.oldText.length)))
  all : e.args.replaceAll = true → ∃ text, Replaces e.args.oldText e.args.newText content text ∧
    file.target after = some (utf8 text)

def Right (s : Editing) (event : Event) : Prop :=
  ∀ file content temp, s.phase = .writing file content (.replacing temp) →
    (e.next s event).phase = .writing file content .syncingParent →
      e.Proper file content s.tree (e.next s event).tree

/-- The temporary file is what stands under the name of the file. -/
def Exposed (tree : FileTree) (file : AuthorizedPath) (phase : WritePhase) : Prop :=
  e.temp = file.basename ∨
    ∃ temp, phase = .writing temp ∧ tree.entry? file.parent file.basename = some temp

/-- The next step of the tool puts nothing in place, and the file keeps its content. -/
def Keeps (s : Editing) (event : Event) : Prop :=
  ∀ fault, event = .step fault → ¬ e.Puts s event →
    match s.phase with
    | .writing file _ phase => ∀ bytes, file.target s.tree = some bytes →
      ¬ e.Exposed s.tree file phase → file.target (e.next s event).tree = some bytes
    | _ => (e.next s event).tree = s.tree

/-- Whatever the tool puts in place is right, it succeeds only once it has put something in place,
and nothing else that it does changes the file. -/
structure RightEdit (tree : FileTree) (events : List Event) : Prop where
  puts : Along e.next e.Right (e.start tree) events
  keeps : Along e.next e.Keeps (e.start tree) events
  succeeds : ∀ pre, pre <+: events → ∀ message,
    (after e.next (e.start tree) pre).phase = .returned (.ok message) →
      ∃ earlier event later, pre = earlier ++ event :: later ∧
        e.Puts (after e.next (e.start tree) earlier) event

/-- When the temporary file is renamed, the occurrences of the old text do not overlap, the file is
as it was read, and the temporary file as it was written. -/
def Sane (s : Editing) (event : Event) : Prop :=
  match s.phase, event with
  | .writing file content (.replacing _), .step none =>
    (s.tree.renameAt file.parent e.temp file.basename).isSome →
      (e.args.replaceAll = false → Disjoint e.args.oldText content) ∧
        file.target s.tree = some (utf8 content) ∧
        (s.tree.entry? file.parent e.temp).bind s.tree.bytes? = some (utf8 (e.updated content))
  | _, _ => True

instance : (s : Editing) → (event : Event) → Decidable (e.Sane s event)
  | ⟨tree, .writing file content (.replacing _)⟩, .step none =>
    inferInstanceAs (Decidable ((tree.renameAt file.parent e.temp file.basename).isSome →
      (e.args.replaceAll = false → Disjoint e.args.oldText content) ∧
        file.target tree = some (utf8 content) ∧
        (tree.entry? file.parent e.temp).bind tree.bytes? = some (utf8 (e.updated content))))
  | ⟨_, .writing _ _ (.replacing _)⟩, .step (some _) | ⟨_, .writing _ _ (.replacing _)⟩, .others _
  | ⟨_, .reading _⟩, _ | ⟨_, .returned _⟩, _ | ⟨_, .writing _ _ .validating⟩, _
  | ⟨_, .writing _ _ .creating⟩, _ | ⟨_, .writing _ _ (.stating _)⟩, _
  | ⟨_, .writing _ _ (.permitting _)⟩, _ | ⟨_, .writing _ _ (.writing _)⟩, _
  | ⟨_, .writing _ _ (.flushing _)⟩, _ | ⟨_, .writing _ _ (.syncing _)⟩, _
  | ⟨_, .writing _ _ (.revalidating _)⟩, _ | ⟨_, .writing _ _ .syncingParent⟩, _
  | ⟨_, .writing _ _ (.unlinking _)⟩, _ | ⟨_, .writing _ _ (.returned _)⟩, _ => isTrue trivial

/-! ## What a step keeps -/

/-- A text is written back only where a scan has found the old text once, unless all matches are
replaced. -/
def Inv (s : Editing) : Prop :=
  match s.phase with
  | .reading _ => e.args.oldText ≠ []
  | .writing _ content _ => e.args.oldText ≠ [] ∧
    (e.args.replaceAll = false → e.count content = 1)
  | .returned _ => True

section Keeps

variable {e} {s : Editing}

theorem inv_settle {file : AuthorizedPath} {content : List Char} (phase : WritePhase)
    (h : e.args.oldText ≠ [] ∧ (e.args.replaceAll = false → e.count content = 1))
    (tree : FileTree) :
    e.Inv ⟨tree, e.settle file content phase⟩ := by
  cases phase with
  | returned result => rcases result with error | u <;> trivial
  | _ => exact h

theorem Inv.next (h : e.Inv s) (event : Event) : e.Inv (e.next s event) := by
  obtain ⟨tree, phase⟩ := s
  cases event with
  | others tree' => exact h
  | step fault =>
    cases phase with
    | reading file =>
      simp only [EditFile.next, EditFile.step]
      split
      · rename_i content _
        unfold EditFile.decide
        split
        · trivial
        · rename_i hzero
          split
          · trivial
          · rename_i hmany
            refine ⟨h, fun hone => ?_⟩
            have hle : ¬ e.count content > 1 := fun hgt => hmany ⟨hgt, hone⟩
            omega
      · trivial
    | writing file content phase => exact inv_settle _ h _
    | returned result => trivial

theorem inv_start (tree : FileTree) : e.Inv (e.start tree) := by
  unfold EditFile.start
  split
  · trivial
  · rename_i hne
    split
    · trivial
    · exact hne

theorem next_replacing {tree tree' : FileTree} {file : AuthorizedPath} {content : List Char}
    {temp : Nat} (h : tree.renameAt file.parent e.temp file.basename = some tree') :
    e.next ⟨tree, .writing file content (.replacing temp)⟩ (.step none) =
      ⟨tree', .writing file content .syncingParent⟩ := by
  simp only [EditFile.next, EditFile.step, AtomicWrite.step, EditFile.write, h, EditFile.settle]

/-- Only the rename of the temporary file puts something in place. -/
theorem of_next_replacing {tree : FileTree} {file : AuthorizedPath} {content : List Char}
    {temp : Nat} {event : Event}
    (h : (e.next ⟨tree, .writing file content (.replacing temp)⟩ event).phase =
      .writing file content .syncingParent) :
    event = .step none ∧ (tree.renameAt file.parent e.temp file.basename).isSome := by
  cases event with
  | others tree' => cases h
  | step fault =>
    cases fault with
    | some fault => cases h
    | none =>
      refine ⟨rfl, ?_⟩
      cases hrename : tree.renameAt file.parent e.temp file.basename with
      | some tree' => rfl
      | none =>
        simp only [EditFile.next, EditFile.step, AtomicWrite.step, EditFile.write, hrename,
          EditFile.settle] at h
        cases h

/-- What is right to put in place is what the tool has written, as long as no occurrences overlap. -/
theorem proper_iff {file : AuthorizedPath} {content : List Char} {before after : FileTree}
    {bytes : Option (List UInt8)} (hold : e.args.oldText ≠ [])
    (hcount : e.args.replaceAll = false → e.count content = 1)
    (hafter : file.target after = bytes) :
    e.Proper file content before after ↔
      (e.args.replaceAll = false → Disjoint e.args.oldText content) ∧
        file.target before = some (utf8 content) ∧ bytes = some (utf8 (e.updated content)) := by
  cases hall : e.args.replaceAll with
  | false =>
    have hupdated : e.updated content = replaceFirst e.args.oldText e.args.newText content := by
      rw [EditFile.updated, hall]
      rfl
    constructor
    · rintro ⟨hunchanged, hsingle, -⟩
      obtain ⟨i, honly, htarget⟩ := hsingle hall
      obtain ⟨j, honly', hreplace⟩ :=
        only_of_matchCount hold (hcount hall) honly.disjoint e.args.newText
      have hij : j = i := (honly j).mp ((honly' j).mpr rfl)
      rw [hij] at hreplace
      refine ⟨fun _ => honly.disjoint, hunchanged, ?_⟩
      rw [← hafter, htarget, hupdated, hreplace]
    · rintro ⟨hdisjoint, hunchanged, hbytes⟩
      obtain ⟨i, honly, hreplace⟩ :=
        only_of_matchCount hold (hcount hall) (hdisjoint rfl) e.args.newText
      refine ⟨hunchanged, fun _ => ⟨i, honly, ?_⟩, fun htrue => ?_⟩
      · rw [hafter, hbytes, hupdated, hreplace]
      · rw [hall] at htrue
        cases htrue
  | true =>
    have hupdated : e.updated content = replaceAll e.args.oldText e.args.newText 0 content := by
      rw [EditFile.updated, hall]
      rfl
    constructor
    · rintro ⟨hunchanged, -, hreplaced⟩
      obtain ⟨text, hreplaces, htarget⟩ := hreplaced hall
      refine ⟨nofun, hunchanged, ?_⟩
      rw [← hafter, htarget, hupdated, (replaces_iff hold).mp hreplaces]
    · rintro ⟨-, hunchanged, hbytes⟩
      refine ⟨hunchanged, fun hfalse => ?_, fun _ => ⟨e.updated content, ?_, ?_⟩⟩
      · rw [hall] at hfalse
        cases hfalse
      · exact (replaces_iff hold).mpr hupdated
      · rw [hafter, hbytes]

theorem right_iff_sane (h : e.Inv s) (event : Event) : e.Right s event ↔ e.Sane s event := by
  obtain ⟨tree, phase⟩ := s
  cases phase with
  | reading file => exact iff_of_true (by rintro _ _ _ ⟨⟩) trivial
  | returned result => exact iff_of_true (by rintro _ _ _ ⟨⟩) trivial
  | writing file content phase =>
    cases phase with
    | replacing temp =>
      cases event with
      | others tree' => exact iff_of_true (by rintro _ _ _ _ ⟨⟩) trivial
      | step fault =>
        cases fault with
        | some fault => exact iff_of_true (by rintro _ _ _ _ ⟨⟩) trivial
        | none =>
          have hafter : ∀ tree', tree.renameAt file.parent e.temp file.basename = some tree' →
              file.target tree' = (tree.entry? file.parent e.temp).bind tree.bytes? := by
            intro tree' hrename
            obtain ⟨hentry, hbytes⟩ := FileTree.entry?_of_renameAt hrename
            have hsame : tree'.bytes? = tree.bytes? := funext hbytes
            rw [AuthorizedPath.target, hentry, hsame]
          constructor
          · intro hright hsome
            obtain ⟨tree', hrename⟩ := Option.isSome_iff_exists.mp hsome
            have hnext : e.next ⟨tree, .writing file content (.replacing temp)⟩ (.step none) =
                ⟨tree', .writing file content .syncingParent⟩ := next_replacing hrename
            have hproper := hright file content temp rfl (by rw [hnext])
            rw [hnext] at hproper
            exact (proper_iff h.1 h.2 (hafter tree' hrename)).mp hproper
          · intro hsane file' content' temp' hphase hput
            cases hphase
            have hsome := (of_next_replacing hput).2
            obtain ⟨tree', hrename⟩ := Option.isSome_iff_exists.mp hsome
            rw [next_replacing hrename]
            exact (proper_iff h.1 h.2 (hafter tree' hrename)).mpr (hsane hsome)
    | _ => exact iff_of_true (by rintro _ _ _ ⟨⟩) trivial

theorem settle_syncingParent {file : AuthorizedPath} {content : List Char} {phase : WritePhase}
    (h : phase = .syncingParent) :
    e.settle file content phase = .writing file content .syncingParent := by
  subst h
  rfl

theorem keeps_next (s : Editing) (event : Event) : e.Keeps s event := by
  rintro fault rfl hput
  obtain ⟨tree, phase⟩ := s
  cases phase with
  | reading file =>
    simp only [EditFile.next, EditFile.step]
    split <;> rfl
  | writing file content phase =>
    intro bytes htarget hhidden
    refine AtomicWrite.target_step (w := e.write file content) htarget (fun he => hhidden (.inl he))
      (fun temp hphase hthere => hhidden (.inr ⟨temp, hphase, hthere⟩)) ?_
    intro temp hphase hparent
    replace hphase : phase = .replacing temp := hphase
    subst hphase
    exact hput ⟨file, content, temp, rfl, settle_syncingParent hparent⟩
  | returned result => rfl

/-! ## Runs -/

theorem done_settle {file : AuthorizedPath} {content : List Char} (phase : WritePhase) :
    (e.settle file content phase).done = (EditPhase.writing file content phase).done := by
  cases phase with
  | returned result => rcases result with error | u <;> rfl
  | _ => rfl

theorem done_next {event : Event} (h : (e.next s event).phase.done = true) :
    s.phase.done = true ∨ e.Puts s event := by
  obtain ⟨tree, phase⟩ := s
  cases event with
  | others tree' => exact .inl h
  | step fault =>
    cases phase with
    | reading file =>
      exfalso
      simp only [EditFile.next, EditFile.step] at h
      split at h
      · unfold EditFile.decide at h
        split at h
        · cases h
        · split at h <;> cases h
      · cases h
    | returned result => exact .inl h
    | writing file content phase =>
      simp only [EditFile.next, EditFile.step, done_settle] at h
      cases phase with
      | syncingParent => exact .inl rfl
      | returned result => exact .inl h
      | replacing temp =>
        refine .inr ⟨file, content, temp, rfl, ?_⟩
        simp only [AtomicWrite.step] at h
        split at h
        · rename_i tree' hrename
          replace hrename : tree.renameAt file.parent e.temp file.basename = some tree' := hrename
          rw [next_replacing hrename]
        · cases h
      | validating =>
        simp only [AtomicWrite.step] at h
        split at h
        · cases h
        · split at h <;> cases h
      | creating =>
        simp only [AtomicWrite.step] at h
        split at h
        · by_cases hkept : (e.write file content).file.original.isSome = true
          · simp only [if_pos hkept] at h
            cases h
          · simp only [if_neg hkept] at h
            cases h
        · cases h
      | unlinking error => cases fault <;> cases h
      | _ =>
        simp only [AtomicWrite.step] at h
        split at h <;> cases h

theorem exists_put {tree : FileTree} {events : List Event}
    (h : (after e.next (e.start tree) events).phase.done = true) :
    ∃ earlier event later, events = earlier ++ event :: later ∧
      e.Puts (after e.next (e.start tree) earlier) event := by
  induction events using List.reverseRecOn with
  | nil =>
    exfalso
    simp only [after_nil, EditFile.start] at h
    split at h
    · cases h
    · split at h <;> cases h
  | append_singleton events event ih =>
    rw [after_append] at h
    rcases done_next h with hdone | hput
    · obtain ⟨earlier, event', later, rfl, hput⟩ := ih hdone
      exact ⟨earlier, event', later ++ [event], by simp, hput⟩
    · exact ⟨events, event, [], rfl, hput⟩

end Keeps

private theorem valid_f : ['f'] ≠ [] ∧ ['f'] ≠ ['.'] ∧ ['f'] ≠ ['.', '.'] ∧ '/' ∉ ['f'] := by decide

private def f : Name := ⟨['f'], valid_f⟩

private def fileTree (text : String) : FileTree := ⟨[.dir [(f, 1)], .file (utf8 text.toList)], ⟨_, rfl⟩⟩

/-- The edit of a text in the file; the digest of the bytes are the bytes. -/
private def editF (text oldText newText : String) : EditFile where
  sha256 := id
  temp := temporaryName 1 0
  args := ⟨"f", oldText.toList, newText.toList, false⟩
  granted := .ok (⟨[f], 0, 0, f, .edit, some 1, some ⟨1, utf8 text.toList⟩⟩, fileTree text)

private def eleven : List Event := List.replicate 11 (.step none)

end EditFile

end AgentDaemon.Tools
