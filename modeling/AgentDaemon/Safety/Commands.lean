import Mathlib.Data.Bool.AllAny
import Mathlib.Data.List.Infix
import Mathlib.Data.List.TakeWhile
import AgentDaemon.Lib.Text

/-!
`classify_command`, which blocks dangerous shell commands. A blocked command stays blocked in every
compound exactly if none of its rules needs the first or the last word of the command
(`composes_iff`).
-/

namespace AgentDaemon.Safety

open Words

/-! ## The classifier -/

inductive CommandDecision where
  | blocked (reason : String)
  | needsApproval (reason : String)
  | allowed
  deriving DecidableEq

def contains (text : List Char) (pattern : String) : Bool := decide (pattern.toList <:+: text)

/-- Quotes, brackets, dollar signs and semicolons. -/
def shellTokenCore (token : List Char) : List Char :=
  trimMatches (fun c => c ∈ ['\x27', '\x22', '\x60', '$', '(', ')', '\x7b', '\x7d', ';']) token

/-- Where `contains_program` splits a command. -/
def splitsProgram (c : Char) : Bool := isWhiteSpace c || c ∈ [';', '|', '&', '(', ')']

def containsProgram (command : List Char) (programs : List String) : Bool :=
  (command.splitOnP splitsProgram).any fun token =>
    let core := shellTokenCore token
    let base := (core.splitOnP (· = '/')).getLastD core
    programs.any fun program =>
      base = program.toList || (program.toList ++ ['.']).isPrefixOf base

/-- An option that has the letter. -/
def isOption (letter : Char) (token : List Char) : Bool :=
  token.head? = some '-' && token.contains letter

def isCatastrophicTarget (token : List Char) : Bool :=
  let raw := trimMatches (fun c => c ∈ ['\x27', '\x22', '\x60', '(', ')', ';']) token
  shellTokenCore token ∈ ["/", "/*", "~", "~/"].map String.toList ||
    raw ∈ ["$home", "$\x7bhome\x7d"].map String.toList

def isCatastrophicRm (command : List Char) : Bool :=
  containsProgram command ["rm"] &&
    let tokens := splitWhitespace command
    tokens.any (isOption 'r') && tokens.any (isOption 'f') && tokens.any isCatastrophicTarget

def isRoot (token : List Char) : Bool := shellTokenCore token ∈ ["/", "/*"].map String.toList

def targetsRoot (command : List Char) : Bool := (splitWhitespace command).any isRoot

/-- The words of a command between single spaces, in lower case. -/
def normalize (command : List Char) : List Char :=
  ([' '].intercalate (splitWhitespace command)).map Char.toLower

def compact (normalized : List Char) : List Char := normalized.filter (!isWhiteSpace ·)

def forkBomb : String := ":()\x7b:|:&\x7d;:"

def classifyCommand (command : List Char) : CommandDecision :=
  let normalized := normalize command
  let compacted := compact normalized
  if contains compacted forkBomb then .blocked "fork 炸弹"
  else if containsProgram normalized ["mkfs", "wipefs"] then .blocked "文件系统擦除/格式化"
  else if containsProgram normalized ["fdisk", "sfdisk", "parted"] && contains normalized "/dev/" then
    .blocked "直接修改磁盘分区"
  else if containsProgram normalized ["dd"] && contains compacted "of=/dev/" then
    .blocked "向块设备直接写入"
  else if [">/dev/sd", ">/dev/nvme", ">/dev/mmcblk"].any (contains compacted) then
    .blocked "重定向覆盖块设备"
  else if isCatastrophicRm normalized then .blocked "递归强制删除系统或主目录"
  else if containsProgram normalized ["chmod"] && contains normalized "-r" &&
      contains normalized " 000 " && targetsRoot normalized then
    .blocked "递归移除根目录权限"
  else if containsProgram normalized ["chown"] && contains normalized "-r" &&
      targetsRoot normalized then
    .blocked "递归修改根目录所有权"
  else if containsProgram normalized ["mv"] && contains normalized " /dev/null" then
    .blocked "将文件移动到 /dev/null"
  else if containsProgram normalized ["find"] && targetsRoot normalized &&
      contains normalized "-delete" then
    .blocked "从根目录递归删除"
  else if containsProgram normalized ["kill", "pkill", "killall"] ||
      containsProgram normalized ["sudo", "su"] ||
      containsProgram normalized ["shutdown", "reboot", "poweroff", "halt"] ||
      contains normalized "git reset --hard" || contains normalized "git clean -fd" ||
      contains normalized "cargo publish" ||
      (contains normalized "curl " && contains normalized "| sh") ||
      (contains normalized "wget " && contains normalized "| sh") then
    .needsApproval "可能影响进程、系统或难以恢复的状态"
  else .allowed

def Blocked (command : List Char) : Prop := ∃ reason, classifyCommand command = .blocked reason

/-! ## Compounds -/

def separators : List (List Char) := [";", "&", "|", ";;", "&&", "||"].map String.toList

/-- The command stays blocked beside every other one, with or without spaces between them. -/
def Composes (command : List Char) : Prop :=
  ∀ other separator left right, separator ∈ separators → (∀ c ∈ left, isWhiteSpace c = true) →
    (∀ c ∈ right, isWhiteSpace c = true) →
      Blocked (command ++ left ++ separator ++ right ++ other) ∧
        Blocked (other ++ left ++ separator ++ right ++ command)

/-- What blocks a normalized command, if options are looked for among some words and targets among
others. -/
inductive Dangerous (command : List Char) (options targets : List (List Char)) : Prop where
  | fork (h : contains (compact command) forkBomb = true)
  | format (h : containsProgram command ["mkfs", "wipefs"] = true)
  | partition (h : containsProgram command ["fdisk", "sfdisk", "parted"] = true)
    (device : contains command "/dev/" = true)
  | write (h : containsProgram command ["dd"] = true)
    (device : contains (compact command) "of=/dev/" = true)
  | redirect (pattern : String) (h : pattern ∈ [">/dev/sd", ">/dev/nvme", ">/dev/mmcblk"])
    (device : contains (compact command) pattern = true)
  | remove (h : containsProgram command ["rm"] = true) (recursive : options.any (isOption 'r') = true)
    (force : options.any (isOption 'f') = true) (target : targets.any isCatastrophicTarget = true)
  | permissions (h : containsProgram command ["chmod"] = true)
    (recursive : contains command "-r" = true) (none : contains command " 000 " = true)
    (target : targets.any isRoot = true)
  | ownership (h : containsProgram command ["chown"] = true)
    (recursive : contains command "-r" = true) (target : targets.any isRoot = true)
  | discard (h : containsProgram command ["mv"] = true)
    (null : contains command " /dev/null" = true)
  | find (h : containsProgram command ["find"] = true) (target : targets.any isRoot = true)
    (delete : contains command "-delete" = true)

/-- The words of a command in lower case. -/
def tokens (command : List Char) : List (List Char) :=
  splitWhitespace (command.map Char.toLower)

/-- The words that text right behind the command can not add to. -/
def tokensBehind (command : List Char) : List (List Char) :=
  ((command.map Char.toLower).splitOnP isWhiteSpace).dropLast.filter (!·.isEmpty)

/-- The words that text right before the command can not add to. -/
def tokensBefore (command : List Char) : List (List Char) :=
  ((command.map Char.toLower).splitOnP isWhiteSpace).tail.filter (!·.isEmpty)

theorem blocked_ite {b : Bool} {reason : String} {rest : CommandDecision} :
    (∃ r, (if b then CommandDecision.blocked reason else rest) = .blocked r) ↔
      b = true ∨ ∃ r, rest = .blocked r := by
  cases b <;> simp

theorem isWhiteSpace_toLower (c : Char) : isWhiteSpace c.toLower = isWhiteSpace c := by
  unfold Char.toLower
  split
  · rename_i h
    have hlow : 65 ≤ c.val.toNat := h.1
    have hhigh : c.val.toNat ≤ 90 := h.2
    have hsum : (c.val + ('a'.val - 'A'.val)).toNat = c.val.toNat + 32 := by
      rw [UInt32.toNat_add]
      have hshift : ('a'.val - 'A'.val).toNat = 32 := by decide
      omega
    have htoNat : ∀ hv, (Char.mk (c.val + ('a'.val - 'A'.val)) hv).toNat = c.toNat + 32 :=
      fun _ => hsum
    have hc : 65 ≤ c.toNat ∧ c.toNat ≤ 90 := ⟨hlow, hhigh⟩
    unfold isWhiteSpace
    rw [htoNat]
    generalize c.toNat = n at hc ⊢
    rw [Bool.eq_iff_iff]
    simp only [Bool.or_eq_true, Bool.and_eq_true, decide_eq_true_eq]
    omega
  · rfl

theorem normalize_eq (command : List Char) :
    normalize command = [' '].intercalate (tokens command) := by
  rw [normalize, map_intercalate, tokens, splitWhitespace, splitWhitespace,
    words_map isWhiteSpace_toLower]
  rfl

theorem splitWhitespace_normalize (command : List Char) :
    splitWhitespace (normalize command) = tokens command := by
  rw [normalize_eq, splitWhitespace]
  refine words_intercalate (by decide) fun word hword => ?_
  obtain ⟨hpiece, hne⟩ := mem_words.mp hword
  exact ⟨hne, not_mem_piece hpiece⟩

theorem compact_normalize (command : List Char) :
    compact (normalize command) = (command.map Char.toLower).filter (!isWhiteSpace ·) := by
  rw [normalize_eq, compact, filter_intercalate (by decide), tokens, splitWhitespace, flatten_words]
  intro word hword
  exact not_mem_piece (mem_words.mp hword).1

theorem blocked_iff {command : List Char} :
    Blocked command ↔ Dangerous (normalize command) (tokens command) (tokens command) := by
  have hlast : ∀ b : Bool, ¬ ∃ r, (if b then CommandDecision.needsApproval
      "可能影响进程、系统或难以恢复的状态" else .allowed) = .blocked r := by
    intro b
    cases b <;> simp
  unfold Blocked classifyCommand
  simp only [blocked_ite, hlast, or_false]
  simp only [isCatastrophicRm, targetsRoot, splitWhitespace_normalize, Bool.and_eq_true]
  constructor
  · rintro (h | h | ⟨h, h'⟩ | ⟨h, h'⟩ | h | ⟨h, ⟨h₁, h₂⟩, h₃⟩ | ⟨⟨⟨h, h₁⟩, h₂⟩, h₃⟩ | ⟨⟨h, h₁⟩, h₂⟩ |
      ⟨h, h'⟩ | ⟨⟨h, h₁⟩, h₂⟩)
    · exact .fork h
    · exact .format h
    · exact .partition h h'
    · exact .write h h'
    · obtain ⟨pattern, hpattern, hdevice⟩ := List.any_eq_true.mp h
      exact .redirect pattern hpattern hdevice
    · exact .remove h h₁ h₂ h₃
    · exact .permissions h h₁ h₂ h₃
    · exact .ownership h h₁ h₂
    · exact .discard h h'
    · exact .find h h₁ h₂
  · intro h
    cases h with
    | fork h => simp [h]
    | format h => simp [h]
    | partition h device => simp [h, device]
    | write h device => simp [h, device]
    | redirect pattern h device =>
      have hany := List.any_eq_true.mpr ⟨pattern, h, device⟩
      simp only [hany, true_or, or_true]
    | remove h recursive force target => simp [h, recursive, force, target]
    | permissions h recursive none target => simp [h, recursive, none, target]
    | ownership h recursive target => simp [h, recursive, target]
    | discard h null => simp [h, null]
    | find h target delete => simp [h, target, delete]

/-! ## What keeps a rule in force -/

def textPatterns : List String := ["/dev/", "-r", " 000 ", " /dev/null", "-delete"]

def compactPatterns : List String :=
  [forkBomb, "of=/dev/", ">/dev/sd", ">/dev/nvme", ">/dev/mmcblk"]

def dangerousPrograms : List (List String) :=
  [["mkfs", "wipefs"], ["fdisk", "sfdisk", "parted"], ["dd"], ["rm"], ["chmod"], ["chown"], ["mv"],
    ["find"]]

/-- All that the rules look at in one command is in the other. -/
structure Covers (command : List Char) (options targets : List (List Char)) (command' : List Char)
    (options' targets' : List (List Char)) : Prop where
  compacted : ∀ pattern ∈ compactPatterns, contains (compact command) pattern = true →
    contains (compact command') pattern = true
  text : ∀ pattern ∈ textPatterns, contains command pattern = true →
    contains command' pattern = true
  program : ∀ programs ∈ dangerousPrograms, containsProgram command programs = true →
    containsProgram command' programs = true
  option : ∀ letter ∈ ['r', 'f'], options.any (isOption letter) = true →
    options'.any (isOption letter) = true
  target : targets.any isCatastrophicTarget = true → targets'.any isCatastrophicTarget = true
  root : targets.any isRoot = true → targets'.any isRoot = true

theorem Covers.dangerous {command command' : List Char}
    {options targets options' targets' : List (List Char)}
    (c : Covers command options targets command' options' targets')
    (h : Dangerous command options targets) : Dangerous command' options' targets' := by
  cases h with
  | fork h => exact .fork (c.compacted _ (by decide) h)
  | format h => exact .format (c.program _ (by decide) h)
  | partition h device =>
    exact .partition (c.program _ (by decide) h) (c.text _ (by decide) device)
  | write h device =>
    exact .write (c.program _ (by decide) h) (c.compacted _ (by decide) device)
  | redirect pattern h device =>
    have hpattern : pattern ∈ compactPatterns :=
      List.mem_cons_of_mem _ (List.mem_cons_of_mem _ h)
    exact .redirect pattern h (c.compacted pattern hpattern device)
  | remove h recursive force target =>
    exact .remove (c.program _ (by decide) h) (c.option _ (by decide) recursive)
      (c.option _ (by decide) force) (c.target target)
  | permissions h recursive none target =>
    exact .permissions (c.program _ (by decide) h) (c.text _ (by decide) recursive)
      (c.text _ (by decide) none) (c.root target)
  | ownership h recursive target =>
    exact .ownership (c.program _ (by decide) h) (c.text _ (by decide) recursive) (c.root target)
  | discard h null => exact .discard (c.program _ (by decide) h) (c.text _ (by decide) null)
  | find h target delete =>
    exact .find (c.program _ (by decide) h) (c.root target) (c.text _ (by decide) delete)

theorem contains_mono {text text' : List Char} (h : text <:+: text') {pattern : String}
    (hp : contains text pattern = true) : contains text' pattern = true :=
  decide_eq_true ((of_decide_eq_true hp).trans h)

theorem any_mono {words words' : List (List Char)} (h : words ⊆ words') {p : List Char → Bool}
    (hp : words.any p = true) : words'.any p = true := by
  obtain ⟨word, hword, hpw⟩ := List.any_eq_true.mp hp
  exact List.any_eq_true.mpr ⟨word, h hword, hpw⟩

/-- A program is found on either side of a separator. -/
theorem containsProgram_split {s : Char} (hs : splitsProgram s = true) (x y : List Char)
    (programs : List String) : containsProgram (x ++ s :: y) programs =
      (containsProgram x programs || containsProgram y programs) := by
  rw [containsProgram, List.splitOnP_append_cons x y hs, List.any_append]
  rfl

/-- A command that was found blocked has words. -/
theorem Dangerous.ne_nil {options targets : List (List Char)} :
    ¬ Dangerous [] options targets := by
  intro h
  have hnone : ∀ pattern ∈ compactPatterns ++ textPatterns,
      contains (compact []) pattern = false := by decide
  have hprogram : ∀ programs ∈ dangerousPrograms, containsProgram [] programs = false := by decide
  cases h with
  | fork h => cases h.symm.trans (hnone _ (by decide))
  | redirect pattern h device =>
    have hpattern : pattern ∈ compactPatterns :=
      List.mem_cons_of_mem _ (List.mem_cons_of_mem _ h)
    cases device.symm.trans (hnone _ (List.mem_append_left _ hpattern))
  | format h | partition h | write h | remove h | permissions h | ownership h | discard h
  | find h => cases h.symm.trans (hprogram _ (by decide))

/-! ## Text behind and before a command -/

theorem exists_pieces (command : List Char) :
    ∃ before last, (command.map Char.toLower).splitOnP isWhiteSpace = before ++ [last] ∧
      tokensBehind command = before.filter (!·.isEmpty) ∧
      tokens command = tokensBehind command ++ [last].filter (!·.isEmpty) := by
  obtain h | ⟨before, last, h⟩ :=
    List.eq_nil_or_concat ((command.map Char.toLower).splitOnP isWhiteSpace)
  · exact absurd h (List.splitOnP_ne_nil _ _)
  · rw [List.concat_eq_append] at h
    have hbehind : tokensBehind command = before.filter (!·.isEmpty) := by
      rw [tokensBehind, h, List.dropLast_concat]
    refine ⟨before, last, h, hbehind, ?_⟩
    rw [hbehind, ← List.filter_append, ← h]
    rfl

theorem exists_pieces_before (command : List Char) :
    ∃ first later, (command.map Char.toLower).splitOnP isWhiteSpace = first :: later ∧
      tokensBefore command = later.filter (!·.isEmpty) ∧
      tokens command = [first].filter (!·.isEmpty) ++ tokensBefore command := by
  obtain ⟨first, later, h⟩ := List.exists_cons_of_ne_nil
    (List.splitOnP_ne_nil isWhiteSpace (command.map Char.toLower))
  have hbefore : tokensBefore command = later.filter (!·.isEmpty) := by
    rw [tokensBefore, h, List.tail_cons]
  refine ⟨first, later, h, hbefore, ?_⟩
  rw [hbefore, ← List.filter_append, List.singleton_append, ← h]
  rfl

/-- The last word may become longer, and there may be more words. -/
theorem tokens_behind (command : List Char) (s : Char) (y : List Char) :
    ∃ last more later, tokens command = tokensBehind command ++ [last].filter (!·.isEmpty) ∧
      tokens (command ++ s :: y) =
        tokensBehind command ++ ((last ++ more) :: later).filter (!·.isEmpty) ∧
      (more = [] ∨ ∃ rest, more = s.toLower :: rest) := by
  obtain ⟨before, last, h, hbehind, htokens⟩ := exists_pieces command
  obtain ⟨more, later, hxy, hmore⟩ := splitOnP_behind h s.toLower (y.map Char.toLower)
  refine ⟨last, more, later, htokens, ?_, hmore⟩
  rw [tokens, splitWhitespace, words, List.map_append, List.map_cons, hxy, hbehind,
    List.filter_append]

theorem tokens_before (y : List Char) (s : Char) (command : List Char) :
    ∃ before more first, tokens command = [first].filter (!·.isEmpty) ++ tokensBefore command ∧
      tokens (y ++ s :: command) =
        (before ++ [more ++ first]).filter (!·.isEmpty) ++ tokensBefore command ∧
      (more = [] ∨ ∃ rest, more = rest ++ [s.toLower]) := by
  obtain ⟨first, later, h, hbefore, htokens⟩ := exists_pieces_before command
  obtain ⟨before, more, hxy, hmore⟩ := splitOnP_before h (y.map Char.toLower) s.toLower
  refine ⟨before, more, first, htokens, ?_, hmore⟩
  rw [tokens, splitWhitespace, words, List.map_append, List.map_cons, hxy, hbefore,
    List.append_cons, List.filter_append]

/-- What follows a command's words begins with a separator or a space. -/
theorem normalize_behind {command : List Char} (hne : tokens command ≠ []) {s : Char}
    (hs : splitsProgram s.toLower = true) (y : List Char) :
    ∃ z, normalize (command ++ s :: y) = normalize command ++ z ∧
      (z = [] ∨ ∃ t rest, z = t :: rest ∧ splitsProgram t = true) := by
  have hspaces : ∀ ws : List (List Char), ws.flatMap ([' '] ++ ·) = [] ∨
      ∃ rest, ws.flatMap ([' '] ++ ·) = ' ' :: rest := by
    intro ws
    cases ws with
    | nil => exact .inl rfl
    | cons word ws => exact .inr ⟨_, rfl⟩
  obtain ⟨last, more, later, htokens, hxy, hmore⟩ := tokens_behind command s y
  rw [normalize_eq, normalize_eq, hxy]
  cases last with
  | nil =>
    rw [List.filter_cons_of_neg (by simp), List.filter_nil, List.append_nil] at htokens
    rw [htokens] at hne
    rw [htokens, intercalate_append hne]
    refine ⟨_, rfl, ?_⟩
    rcases hspaces ((([] ++ more) :: later).filter (!·.isEmpty)) with h | ⟨rest, h⟩
    · exact .inl h
    · exact .inr ⟨' ', rest, h, by decide⟩
  | cons d last =>
    rw [List.filter_cons_of_pos (by simp), List.filter_nil] at htokens
    rw [htokens, List.filter_cons_of_pos (by simp), intercalate_glue]
    refine ⟨_, rfl, ?_⟩
    rcases hmore with rfl | ⟨rest, rfl⟩
    · rcases hspaces (later.filter (!·.isEmpty)) with h | ⟨rest, h⟩
      · exact .inl h
      · exact .inr ⟨' ', rest, h, by decide⟩
    · exact .inr ⟨s.toLower, _, rfl, hs⟩

theorem normalize_before {command : List Char} (hne : tokens command ≠ []) {s : Char}
    (hs : splitsProgram s.toLower = true) (y : List Char) :
    ∃ z, normalize (y ++ s :: command) = z ++ normalize command ∧
      (z = [] ∨ ∃ rest t, z = rest ++ [t] ∧ splitsProgram t = true) := by
  have hspaces : ∀ ws : List (List Char), ws.flatMap (· ++ [' ']) = [] ∨
      ∃ rest, ws.flatMap (· ++ [' ']) = rest ++ [' '] := by
    intro ws
    rcases List.eq_nil_or_concat ws with rfl | ⟨ws, word, rfl⟩
    · exact .inl rfl
    · exact .inr ⟨ws.flatMap (· ++ [' ']) ++ word, by simp⟩
  obtain ⟨before, more, first, htokens, hxy, hmore⟩ := tokens_before y s command
  rw [normalize_eq, normalize_eq, hxy, List.filter_append]
  cases first with
  | nil =>
    rw [List.filter_cons_of_neg (by simp), List.filter_nil, List.nil_append] at htokens
    rw [htokens] at hne
    rw [htokens, append_intercalate hne]
    refine ⟨_, rfl, ?_⟩
    rcases hspaces (before.filter (!·.isEmpty) ++ [more ++ []].filter (!·.isEmpty)) with
      h | ⟨rest, h⟩
    · exact .inl h
    · exact .inr ⟨rest, ' ', h, by decide⟩
  | cons d first =>
    rw [List.filter_cons_of_pos (by simp), List.filter_nil, List.singleton_append] at htokens
    rw [htokens, List.filter_cons_of_pos (by simp), List.filter_nil, List.append_assoc,
      List.singleton_append, glue_intercalate]
    refine ⟨_, rfl, ?_⟩
    rcases hmore with rfl | ⟨rest, rfl⟩
    · rw [List.append_nil]
      rcases hspaces (before.filter (!·.isEmpty)) with h | ⟨rest, h⟩
      · exact .inl h
      · exact .inr ⟨rest, ' ', h, by decide⟩
    · exact .inr ⟨_, s.toLower, (List.append_assoc ..).symm, hs⟩

theorem isOption_append {letter : Char} {word : List Char} (h : isOption letter word = true)
    (more : List Char) : isOption letter (word ++ more) = true := by
  rw [isOption, Bool.and_eq_true] at h ⊢
  obtain ⟨hhead, hletter⟩ := h
  cases word with
  | nil => cases hletter
  | cons d word =>
    refine ⟨hhead, List.contains_iff_mem.mpr ?_⟩
    exact List.mem_append_left _ (List.contains_iff_mem.mp hletter)

theorem covers_behind {command : List Char} (hne : tokens command ≠ []) {s : Char}
    (hs : splitsProgram s.toLower = true) (y : List Char) :
    Covers (normalize command) (tokens command) (tokensBehind command)
      (normalize (command ++ s :: y)) (tokens (command ++ s :: y)) (tokens (command ++ s :: y)) := by
  obtain ⟨z, hz, hsplit⟩ := normalize_behind hne hs y
  obtain ⟨last, more, later, htokens, hxy, -⟩ := tokens_behind command s y
  have hbehind : tokensBehind command ⊆ tokens (command ++ s :: y) := by
    rw [hxy]
    exact List.subset_append_left _ _
  constructor
  case compacted =>
    intro pattern _ h
    rw [compact_normalize] at h ⊢
    rw [List.map_append, List.filter_append]
    exact contains_mono (List.prefix_append _ _).isInfix h
  case text =>
    intro pattern _ h
    rw [hz]
    exact contains_mono (List.prefix_append _ _).isInfix h
  case program =>
    intro programs _ h
    rw [hz]
    rcases hsplit with rfl | ⟨t, rest, rfl, ht⟩
    · rwa [List.append_nil]
    · rw [containsProgram_split ht, h, Bool.true_or]
  case option =>
    intro letter _ h
    obtain ⟨word, hword, hoption⟩ := List.any_eq_true.mp h
    rw [htokens] at hword
    rcases List.mem_append.mp hword with hword | hword
    · exact List.any_eq_true.mpr ⟨word, hbehind hword, hoption⟩
    · -- The last word is an option, and it stays one when it gets longer.
      obtain ⟨hlast, hempty⟩ := List.mem_filter.mp hword
      cases List.mem_singleton.mp hlast
      refine List.any_eq_true.mpr ⟨last ++ more, ?_, isOption_append hoption more⟩
      rw [hxy]
      refine List.mem_append_right _ (List.mem_filter.mpr ⟨List.mem_cons_self, ?_⟩)
      cases last with
      | nil => cases hempty
      | cons d last => rfl
  case target => exact any_mono hbehind
  case root => exact any_mono hbehind

theorem covers_before {command : List Char} (hne : tokens command ≠ []) {s : Char}
    (hs : splitsProgram s.toLower = true) (y : List Char) :
    Covers (normalize command) (tokensBefore command) (tokensBefore command)
      (normalize (y ++ s :: command)) (tokens (y ++ s :: command)) (tokens (y ++ s :: command)) := by
  obtain ⟨z, hz, hsplit⟩ := normalize_before hne hs y
  obtain ⟨before, more, first, htokens, hxy, -⟩ := tokens_before y s command
  have hbefore : tokensBefore command ⊆ tokens (y ++ s :: command) := by
    rw [hxy]
    exact List.subset_append_right _ _
  constructor
  case compacted =>
    intro pattern _ h
    rw [compact_normalize] at h ⊢
    rw [List.append_cons, List.map_append, List.filter_append]
    exact contains_mono (List.suffix_append _ _).isInfix h
  case text =>
    intro pattern _ h
    rw [hz]
    exact contains_mono (List.suffix_append _ _).isInfix h
  case program =>
    intro programs _ h
    rw [hz]
    rcases hsplit with rfl | ⟨rest, t, rfl, ht⟩
    · exact h
    · rw [List.append_assoc, List.singleton_append, containsProgram_split ht, h, Bool.or_true]
  case option => exact fun letter _ => any_mono hbefore
  case target => exact any_mono hbefore
  case root => exact any_mono hbefore

/-! ## The shortest compounds -/

theorem contains_concat {text : List Char} {c : Char} {pattern : String}
    (hc : pattern.toList.getLast? ≠ some c) (h : contains (text ++ [c]) pattern = true) :
    contains text pattern = true := by
  refine decide_eq_true ?_
  rcases List.infix_concat_iff.mp (of_decide_eq_true h) with hsuffix | hinfix
  · obtain ⟨front, hfront⟩ := hsuffix
    rcases List.eq_nil_or_concat pattern.toList with hnil | ⟨pattern', d, hd⟩
    · rw [hnil]
      exact List.nil_infix
    · rw [List.concat_eq_append] at hd
      rw [hd, ← List.append_assoc] at hfront
      obtain ⟨-, hlast⟩ := List.append_inj' hfront rfl
      cases hlast
      rw [hd] at hc
      exact absurd List.getLast?_concat hc
  · exact hinfix

theorem contains_cons {text : List Char} {c : Char} {pattern : String}
    (hc : pattern.toList.head? ≠ some c) (h : contains (c :: text) pattern = true) :
    contains text pattern = true := by
  refine decide_eq_true ?_
  rcases List.infix_cons_iff.mp (of_decide_eq_true h) with hprefix | hinfix
  · cases hpattern : pattern.toList with
    | nil => exact List.nil_infix
    | cons d pattern' =>
      rw [hpattern] at hc hprefix
      obtain ⟨rfl, -⟩ := List.cons_prefix_cons.mp hprefix
      exact absurd rfl hc
  · exact hinfix

theorem mem_trimMatches {p : Char → Bool} {c : Char} {l : List Char} (h : c ∈ l) (hc : p c = false) :
    c ∈ trimMatches p l := by
  have hdrop : ∀ {l : List Char}, c ∈ l → c ∈ l.dropWhile p := by
    intro l h
    rw [← List.takeWhile_append_dropWhile (p := p) (l := l)] at h
    rcases List.mem_append.mp h with h | h
    · cases hc.symm.trans (List.mem_takeWhile_imp h)
    · exact h
  rw [trimMatches, trimEndMatches, List.mem_reverse]
  exact hdrop (List.mem_reverse.mpr (hdrop h))

/-- No target has the letter. -/
theorem target_x {word : List Char} (h : 'x' ∈ word) :
    isCatastrophicTarget word = false ∧ isRoot word = false := by
  have hcore : 'x' ∈ shellTokenCore word := mem_trimMatches h (by decide)
  constructor
  · refine Bool.or_eq_false_iff.mpr ⟨decide_eq_false fun hmem => ?_, decide_eq_false fun hmem => ?_⟩
    · exact absurd hcore ((by decide : ∀ target ∈ ["/", "/*", "~", "~/"].map String.toList,
        'x' ∉ target) _ hmem)
    · exact absurd (mem_trimMatches h (by decide))
        ((by decide : ∀ target ∈ ["$home", "$\x7bhome\x7d"].map String.toList, 'x' ∉ target) _ hmem)
  · refine decide_eq_false fun hmem => ?_
    exact absurd hcore ((by decide : ∀ target ∈ ["/", "/*"].map String.toList, 'x' ∉ target) _ hmem)

/-- The words and the text of a command with something glued to its last word. -/
theorem glue_behind {command : List Char} {before : List (List Char)} {last : List Char}
    (h : (command.map Char.toLower).splitOnP isWhiteSpace = before ++ [last]) (hlast : last ≠ []) :
    tokens command = tokensBehind command ++ [last] ∧
      tokens (command ++ ['&', 'x']) = tokensBehind command ++ [last ++ ['&', 'x']] ∧
      normalize (command ++ ['&', 'x']) = normalize command ++ ['&', 'x'] := by
  obtain ⟨before', last', hpieces, hbehind, htokens⟩ := exists_pieces command
  obtain ⟨rfl, hsame⟩ := List.append_inj' (h.symm.trans hpieces) rfl
  cases hsame
  obtain ⟨before', last', first, later, hx, hy, hxy⟩ :=
    splitOnP_append (p := isWhiteSpace) (command.map Char.toLower) ['&', 'x']
  obtain ⟨rfl, hsame⟩ := List.append_inj' (h.symm.trans hx) rfl
  cases hsame
  have hsingle : ['&', 'x'].splitOnP isWhiteSpace = [['&', 'x']] :=
    List.splitOnP_eq_singleton (List.all_iff_forall_prop.mp (by decide))
  cases hy.symm.trans hsingle
  rw [List.filter_cons_of_pos (by simpa using hlast), List.filter_nil] at htokens
  have hglued : tokens (command ++ ['&', 'x']) = tokensBehind command ++ [last ++ ['&', 'x']] := by
    have hlower : ['&', 'x'].map Char.toLower = ['&', 'x'] := by decide
    rw [tokens, splitWhitespace, words, List.map_append, hlower, hxy, hbehind, List.filter_append,
      List.filter_cons_of_pos (by simp), List.filter_nil]
  refine ⟨htokens, hglued, ?_⟩
  rw [normalize_eq, normalize_eq, htokens, hglued, intercalate_glue]
  simp

theorem glue_before {command first : List Char} {later : List (List Char)}
    (h : (command.map Char.toLower).splitOnP isWhiteSpace = first :: later) (hfirst : first ≠ []) :
    tokens command = first :: tokensBefore command ∧
      tokens ('x' :: '&' :: command) = ('x' :: '&' :: first) :: tokensBefore command ∧
      normalize ('x' :: '&' :: command) = 'x' :: '&' :: normalize command := by
  obtain ⟨first', later', hpieces, hbefore, htokens⟩ := exists_pieces_before command
  cases h.symm.trans hpieces
  obtain ⟨before', last', first', later', hx, hy, hxy⟩ :=
    splitOnP_append (p := isWhiteSpace) ['x', '&'] (command.map Char.toLower)
  cases h.symm.trans hy
  have hsingle : ['x', '&'].splitOnP isWhiteSpace = [] ++ [['x', '&']] :=
    List.splitOnP_eq_singleton (List.all_iff_forall_prop.mp (by decide))
  obtain ⟨rfl, hsame⟩ := List.append_inj' (hx.symm.trans hsingle) rfl
  cases hsame
  rw [List.filter_cons_of_pos (by simpa using hfirst), List.filter_nil] at htokens
  have hglued : tokens ('x' :: '&' :: command) = ('x' :: '&' :: first) :: tokensBefore command := by
    have hlower : (('x' :: '&' :: command).map Char.toLower) =
        ['x', '&'] ++ command.map Char.toLower := rfl
    rw [tokens, splitWhitespace, words, hlower, hxy, hbefore, List.nil_append,
      List.filter_cons_of_pos (by simp)]
    rfl
  refine ⟨htokens, hglued, ?_⟩
  rw [normalize_eq, normalize_eq, htokens, hglued]
  exact glue_intercalate [' '] [] ['x', '&'] first (tokensBefore command)

/-- Letters at the ends of no pattern of a rule. -/
theorem pattern_ends : ∀ pattern ∈ compactPatterns ++ textPatterns,
    (pattern.toList.getLast? ≠ some 'x' ∧ pattern.toList.head? ≠ some 'x') ∧
      pattern.toList.getLast? ≠ some '&' ∧ pattern.toList.head? ≠ some '&' := by
  decide

theorem program_x : ∀ programs ∈ dangerousPrograms, containsProgram ['x'] programs = false := by
  decide

theorem compact_append (x y : List Char) : compact (x ++ y) = compact x ++ compact y :=
  List.filter_append ..

/-- Glued to a command, the shortest other command adds nothing that a rule looks for. -/
theorem covered_behind {command : List Char} {before : List (List Char)} {last : List Char}
    (h : (command.map Char.toLower).splitOnP isWhiteSpace = before ++ [last]) (hlast : last ≠ []) :
    Covers (normalize (command ++ ['&', 'x'])) (tokens (command ++ ['&', 'x']))
      (tokens (command ++ ['&', 'x'])) (normalize command) (tokens command)
      (tokensBehind command) := by
  obtain ⟨htokens, hglued, hnormal⟩ := glue_behind h hlast
  have hx : 'x' ∈ last ++ ['&', 'x'] := List.mem_append_right _ (by decide)
  have hcut : ∀ {pattern : String} {text : List Char},
      pattern ∈ compactPatterns ++ textPatterns →
        contains (text ++ ['&', 'x']) pattern = true → contains text pattern = true := by
    intro pattern text hpattern hcontains
    obtain ⟨hx, hand⟩ := pattern_ends pattern hpattern
    rw [List.append_cons] at hcontains
    exact contains_concat hand.1 (contains_concat hx.1 hcontains)
  rw [hglued, hnormal]
  constructor
  case compacted =>
    intro pattern hpattern hcontains
    rw [compact_append] at hcontains
    exact hcut (List.mem_append_left _ hpattern) hcontains
  case text => exact fun pattern hpattern => hcut (List.mem_append_right _ hpattern)
  case program =>
    intro programs hprograms hfound
    rw [containsProgram_split (by decide), program_x programs hprograms, Bool.or_false] at hfound
    exact hfound
  case option =>
    intro letter hletter hoption
    have hword : isOption letter (last ++ ['&', 'x']) = true → isOption letter last = true := by
      intro hword
      rw [isOption, Bool.and_eq_true] at hword ⊢
      obtain ⟨d, rest, rfl⟩ := List.exists_cons_of_ne_nil hlast
      refine ⟨hword.1, List.contains_iff_mem.mpr ?_⟩
      rcases List.mem_append.mp (List.contains_iff_mem.mp hword.2) with hmem | hmem
      · exact hmem
      · have hother : ∀ letter ∈ ['r', 'f'], letter ∉ ['&', 'x'] :=
          List.all_iff_forall_prop.mp (by decide)
        exact absurd hmem (hother letter hletter)
    rw [htokens]
    rw [List.any_append, Bool.or_eq_true, List.any_cons, List.any_nil, Bool.or_false] at hoption ⊢
    exact hoption.imp_right hword
  case target =>
    intro htarget
    rwa [List.any_append, List.any_cons, (target_x hx).1, List.any_nil, Bool.or_false,
      Bool.or_false] at htarget
  case root =>
    intro htarget
    rwa [List.any_append, List.any_cons, (target_x hx).2, List.any_nil, Bool.or_false,
      Bool.or_false] at htarget

theorem covered_before {command first : List Char} {later : List (List Char)}
    (h : (command.map Char.toLower).splitOnP isWhiteSpace = first :: later) (hfirst : first ≠ []) :
    Covers (normalize ('x' :: '&' :: command)) (tokens ('x' :: '&' :: command))
      (tokens ('x' :: '&' :: command)) (normalize command) (tokensBefore command)
      (tokensBefore command) := by
  obtain ⟨-, hglued, hnormal⟩ := glue_before h hfirst
  have hx : 'x' ∈ 'x' :: '&' :: first := List.mem_cons_self
  have hcut : ∀ {pattern : String} {text : List Char},
      pattern ∈ compactPatterns ++ textPatterns →
        contains ('x' :: '&' :: text) pattern = true → contains text pattern = true := by
    intro pattern text hpattern hcontains
    obtain ⟨hx, hand⟩ := pattern_ends pattern hpattern
    exact contains_cons hand.2 (contains_cons hx.2 hcontains)
  rw [hglued, hnormal]
  constructor
  case compacted => exact fun pattern hpattern => hcut (List.mem_append_left _ hpattern)
  case text => exact fun pattern hpattern => hcut (List.mem_append_right _ hpattern)
  case program =>
    intro programs hprograms hfound
    have hsplit := containsProgram_split (s := '&') (by decide) ['x'] (normalize command) programs
    rw [program_x programs hprograms, Bool.false_or] at hsplit
    exact hsplit.symm.trans hfound
  case option =>
    intro letter _ hoption
    rwa [List.any_cons, isOption, Bool.or_eq_true, or_iff_right (by simp)] at hoption
  case target =>
    intro htarget
    rwa [List.any_cons, (target_x hx).1, Bool.false_or] at htarget
  case root =>
    intro htarget
    rwa [List.any_cons, (target_x hx).2, Bool.false_or] at htarget

/-! ## Composition -/

theorem Blocked.tokens_ne_nil {command : List Char} (h : Blocked command) : tokens command ≠ [] := by
  intro hnil
  have hdanger := blocked_iff.mp h
  rw [normalize_eq, hnil] at hdanger
  exact Dangerous.ne_nil hdanger

/-- What stands next to a command in a compound is a separator or white space. -/
theorem splits_between {left separator right : List Char} (h : separator ∈ separators)
    (hleft : ∀ c ∈ left, isWhiteSpace c = true) (hright : ∀ c ∈ right, isWhiteSpace c = true) :
    (∀ c ∈ left ++ separator ++ right, splitsProgram c.toLower = true) ∧
      left ++ separator ++ right ≠ [] := by
  have hspace : ∀ {c : Char}, isWhiteSpace c = true → splitsProgram c.toLower = true := by
    intro c hc
    rw [splitsProgram, isWhiteSpace_toLower, hc, Bool.true_or]
  have hseparators : ∀ separator ∈ separators,
      separator.all (splitsProgram ·.toLower) = true ∧ separator ≠ [] := by decide
  obtain ⟨hchars, hne⟩ := hseparators separator h
  rw [List.all_eq_true] at hchars
  constructor
  · intro c hc
    rcases List.mem_append.mp hc with hc | hc
    · rcases List.mem_append.mp hc with hc | hc
      · exact hspace (hleft c hc)
      · exact hchars c hc
    · exact hspace (hright c hc)
  · intro hnil
    exact hne (List.append_eq_nil_iff.mp (List.append_eq_nil_iff.mp hnil).1).2

/-- A blocked command stays blocked beside every other one exactly if some rule looks for its
target before the last word, unless white space ends that, and some rule looks for its target and
options behind the first word, unless the command begins with white space. -/
theorem composes_iff {command : List Char} (h : Blocked command) :
    Composes command ↔
      Dangerous (normalize command) (tokens command) (tokensBehind command) ∧
        Dangerous (normalize command) (tokensBefore command) (tokensBefore command) := by
  constructor
  · intro hcomposes
    have hmem : ['&'] ∈ separators := by decide
    obtain ⟨hbehind, hbefore⟩ := hcomposes ['x'] ['&'] [] [] hmem (by simp) (by simp)
    rw [List.append_nil, List.append_nil, List.append_assoc] at hbehind hbefore
    constructor
    · obtain ⟨before, last, hpieces, -, htokens⟩ := exists_pieces command
      by_cases hlast : last = []
      · subst hlast
        rw [List.filter_cons_of_neg (by simp), List.filter_nil, List.append_nil] at htokens
        rw [← htokens]
        exact blocked_iff.mp h
      · exact (covered_behind hpieces hlast).dangerous (blocked_iff.mp hbehind)
    · obtain ⟨first, later, hpieces, -, htokens⟩ := exists_pieces_before command
      by_cases hfirst : first = []
      · subst hfirst
        rw [List.filter_cons_of_neg (by simp), List.filter_nil, List.nil_append] at htokens
        rw [← htokens]
        exact blocked_iff.mp h
      · exact (covered_before hpieces hfirst).dangerous (blocked_iff.mp hbefore)
  · rintro ⟨hbehind, hbefore⟩ other separator left right hseparator hleft hright
    obtain ⟨hsplits, hne⟩ := splits_between hseparator hleft hright
    generalize hbetween : left ++ separator ++ right = between at hsplits hne
    constructor
    · obtain ⟨s, rest, rfl⟩ := List.exists_cons_of_ne_nil hne
      have hs : splitsProgram s.toLower = true := hsplits s List.mem_cons_self
      have hcompound : command ++ left ++ separator ++ right ++ other =
          command ++ s :: (rest ++ other) := by
        rw [← List.cons_append, ← hbetween]
        simp only [List.append_assoc]
      rw [hcompound]
      exact blocked_iff.mpr ((covers_behind h.tokens_ne_nil hs _).dangerous hbehind)
    · obtain hnil | ⟨rest, s, hconcat⟩ := List.eq_nil_or_concat between
      · exact absurd hnil hne
      · rw [List.concat_eq_append] at hconcat
        have hs : splitsProgram s.toLower = true := hsplits s (by simp [hconcat])
        have hcompound : other ++ left ++ separator ++ right ++ command =
            (other ++ rest) ++ s :: command := by
          rw [List.append_cons, List.append_assoc other rest, ← hconcat, ← hbetween]
          simp only [List.append_assoc]
        rw [hcompound]
        exact blocked_iff.mpr ((covers_before h.tokens_ne_nil hs _).dangerous hbefore)

/-- The rule against formatting a disk looks for no target. -/
theorem composes_mkfs : Composes "mkfs.ext4 /dev/sda".toList :=
  (composes_iff ⟨"文件系统擦除/格式化", by decide +kernel⟩).mpr
    ⟨.format (by decide +kernel), .format (by decide +kernel)⟩

/-- Behind a semicolon without spaces the next command hides the root directory. -/
theorem not_composes_root :
    Blocked "rm -rf /".toList ∧ classifyCommand "rm -rf /;ls".toList = .allowed ∧
      ¬ Composes "rm -rf /".toList := by
  have hallowed : classifyCommand "rm -rf /;ls".toList = .allowed := by decide +kernel
  refine ⟨⟨"递归强制删除系统或主目录", by decide +kernel⟩, hallowed, fun h => ?_⟩
  obtain ⟨reason, hreason⟩ := (h "ls".toList ";".toList [] [] (by decide) (by simp) (by simp)).1
  cases hallowed.symm.trans hreason

end AgentDaemon.Safety
