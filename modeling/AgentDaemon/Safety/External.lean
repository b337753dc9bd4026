import AgentDaemon.Lib.DocumentText
import AgentDaemon.Lib.Fallible
import AgentDaemon.Safety.Commands
import AgentDaemon.Safety.Policy

/-!
The gates of the tools that run something: `authorize_command` for the shell, and
`authorize_external_action` for the tools of other servers, whose arguments may be any JSON value.
The values that an external tool is handed are inspected at every depth, so it gets nothing through
that the shell tool would refuse, and its one question names every risk (`external_mediated`).
-/

namespace AgentDaemon.Safety

open AgentDaemon.Path Fallible Words

/-- `SafetyError` with the refusal of a command. -/
inductive SafetyError where
  | blockedCommand (reason : String)
  | access (e : AccessError)
  deriving DecidableEq

/-- `self.approval.request(&prompt).await?`, and the refusal of the user. -/
def consent (env : Surroundings) (prompt : String) : List String × Except SafetyError Unit :=
  ([prompt], match env.approval prompt with
    | .error message => .error (.access (.other message))
    | .ok true => .ok ()
    | .ok false => .error (.access (.userRejected prompt)))

/-! ## Commands -/

/-- `command_uses_network`. -/
def commandUsesNetwork (command : List Char) : Bool :=
  let normalized := command.map Char.toLower
  contains normalized "http://" || contains normalized "https://" ||
    containsProgram normalized ["curl", "wget", "ssh", "scp", "rsync", "nc", "netcat"]

/-- `authorize_command`, with the prompts that it puts to the user. -/
def SafetyPolicy.authorizeCommand (policy : SafetyPolicy) (env : Surroundings) (command : String) :
    List String × Except SafetyError Unit :=
  match classifyCommand command.toList with
  | .allowed =>
    if policy.mode = .requestApproval ∧ commandUsesNetwork command.toList then
      consent env ("使用互联网（命令）：" ++ command)
    else ([], .ok ())
  | .blocked reason => ([], .error (.blockedCommand reason))
  | .needsApproval reason =>
    if policy.mode = .fullAccess then ([], .ok ())
    else consent env ("执行高风险命令（" ++ reason ++ "）：" ++ command)

/-! ## Arguments of external tools -/

def isCommandKey (key : String) : Bool :=
  ["command", "cmd", "shell"].any fun name => key.toList.map Char.toLower = name.toList

def isPathKey (key : String) : Bool :=
  let key := key.toList.map Char.toLower
  (["path", "paths", "cwd", "directory", "root"].any fun name => key = name.toList) ||
    "_path".toList.isSuffixOf key

/-- The notices so far, and how many paths have been resolved: each resolution meets the tree at
other moments. -/
structure Inspection where
  notices : List String
  resolved : Nat

section Inspect

variable {F : Type} (policy : SafetyPolicy) (looks : Nat → Nat → FileTree)

/-- A string under a key. -/
def inspectString (s : Inspection) (key text : String) : Except SafetyError Inspection :=
  if isCommandKey key then
    match classifyCommand text.toList with
    | .blocked reason => .error (.blockedCommand reason)
    | .needsApproval reason => .ok { s with notices := s.notices ++ ["高风险命令：" ++ reason] }
    | .allowed => .ok s
  else if isPathKey key then
    match policy.resolvePath (looks s.resolved) text with
    | .error e => .error (.access e)
    | .ok resolved =>
      .ok ⟨if startsWith resolved (absolute policy.workspace) then s.notices
        else s.notices ++ ["工作区外路径：" ++ display resolved], s.resolved + 1⟩
  else .ok s

mutual
/-- `inspect_external_arguments`. The items of an array stand under the key of the array. -/
def inspectExternalArguments (key : Option String) :
    Document F → Inspection → Except SafetyError Inspection
  | .obj fields, s => inspectFields fields s
  | .arr items, s => inspectItems key items s
  | .str text, s =>
    match key with
    | none => .ok s
    | some key => inspectString policy looks s key text
  | _, s => .ok s

def inspectItems (key : Option String) :
    List (Document F) → Inspection → Except SafetyError Inspection
  | [], s => .ok s
  | item :: items, s => do
    let s ← inspectExternalArguments key item s
    inspectItems key items s

def inspectFields : List (String × Document F) → Inspection → Except SafetyError Inspection
  | [], s => .ok s
  | (key, value) :: fields, s => do
    let s ← inspectExternalArguments (some key) value s
    inspectFields fields s
end

/-- The question for an external tool. `number` writes the fractional numbers. -/
def externalPrompt (number : F → List Char) (description : String) (arguments : Document F)
    (notices : List String) : String :=
  let shown := (arguments.text number).take 1000
  let details := if notices.isEmpty then []
    else "；安全提示：".toList ++ ['；'].intercalate (notices.map String.toList)
  .ofList ("执行外部 MCP 工具（默认视为有副作用）：".toList ++ description.toList ++
    "；参数：".toList ++ shown ++ details)

/-- `authorize_external_action`, with the prompts that it puts to the user. -/
def SafetyPolicy.authorizeExternalAction (env : Surroundings) (number : F → List Char)
    (description : String) (arguments : Document F) : List String × Except SafetyError Unit :=
  match inspectExternalArguments policy looks none arguments ⟨[], 0⟩ with
  | .error e => ([], .error e)
  | .ok s =>
    if policy.mode = .fullAccess then ([], .ok ())
    else consent env (externalPrompt number description arguments s.notices)

end Inspect

/-! ## The strings of a value -/

mutual
/-- The strings of a value with the key that each stands under, in the order of the text. -/
def leaves {F : Type} (key : Option String) : Document F → List (String × String)
  | .obj fields => leavesFields fields
  | .arr items => leavesItems key items
  | .str text => key.toList.map (·, text)
  | _ => []

def leavesItems {F : Type} (key : Option String) : List (Document F) → List (String × String)
  | [] => []
  | item :: items => leaves key item ++ leavesItems key items

def leavesFields {F : Type} : List (String × Document F) → List (String × String)
  | [] => []
  | (key, value) :: fields => leaves (some key) value ++ leavesFields fields
end

section Inspect

variable {F : Type} {policy : SafetyPolicy} {looks : Nat → Nat → FileTree} {s s' : Inspection}

/-- Inspect one string of a value. -/
abbrev inspectLeaf (policy : SafetyPolicy) (looks : Nat → Nat → FileTree) (s : Inspection)
    (leaf : String × String) : Except SafetyError Inspection :=
  inspectString policy looks s leaf.1 leaf.2

mutual
/-- The traversal is a walk along the strings of the value. -/
theorem inspect_eq (key : Option String) (value : Document F) (s : Inspection) :
    inspectExternalArguments policy looks key value s =
      (leaves key value).foldlM (inspectLeaf policy looks) s := by
  cases value with
  | obj fields => exact inspectFields_eq fields s
  | arr items => exact inspectItems_eq key items s
  | str text =>
    cases key with
    | none => rfl
    | some key =>
      rw [inspectExternalArguments, leaves, Option.toList_some, List.map_singleton]
      simp
  | _ => rfl

theorem inspectItems_eq (key : Option String) (items : List (Document F)) (s : Inspection) :
    inspectItems policy looks key items s =
      (leavesItems key items).foldlM (inspectLeaf policy looks) s := by
  cases items with
  | nil => rfl
  | cons item items =>
    rw [inspectItems, leavesItems, List.foldlM_append, inspect_eq key item s]
    exact bind_congr fun s => inspectItems_eq key items s

theorem inspectFields_eq (fields : List (String × Document F)) (s : Inspection) :
    inspectFields policy looks fields s =
      (leavesFields fields).foldlM (inspectLeaf policy looks) s := by
  cases fields with
  | nil => rfl
  | cons field fields =>
    rw [inspectFields, leavesFields, List.foldlM_append, inspect_eq (some field.1) field.2 s]
    exact bind_congr fun s => inspectFields_eq fields s
end

theorem inspectString_grows {key text : String}
    (h : inspectString policy looks s key text = .ok s') : s.notices <+: s'.notices := by
  unfold inspectString at h
  split at h
  · split at h
    · cases h
    · cases h
      exact List.prefix_append _ _
    · cases h
      exact List.prefix_rfl
  · split at h
    · split at h
      · cases h
      · cases h
        dsimp only
        split
        · exact List.prefix_rfl
        · exact List.prefix_append _ _
    · cases h
      exact List.prefix_rfl

/-- Every string was inspected, and its notice is among those at the end. -/
theorem inspected {l : List (String × String)}
    (h : l.foldlM (inspectLeaf policy looks) s = .ok s') :
    s.notices <+: s'.notices ∧ ∀ leaf ∈ l, ∃ t t', inspectLeaf policy looks t leaf = .ok t' ∧
      t'.notices <+: s'.notices := by
  induction l generalizing s with
  | nil =>
    rw [List.foldlM_nil, pure_eq_ok] at h
    exact ⟨h ▸ List.prefix_rfl, by simp⟩
  | cons leaf l ih =>
    rw [List.foldlM_cons, bind_eq_ok] at h
    obtain ⟨t, ht, h⟩ := h
    obtain ⟨hgrows, hall⟩ := ih h
    refine ⟨(inspectString_grows ht).trans hgrows, fun x hx => ?_⟩
    rcases List.mem_cons.mp hx with rfl | hx
    · exact ⟨s, t, ht, hgrows⟩
    · exact hall x hx

theorem infix_intercalate {sep word : List Char} {words : List (List Char)} (h : word ∈ words) :
    word <:+: sep.intercalate words := by
  obtain ⟨front, back, rfl⟩ := List.append_of_mem h
  refine ⟨front.flatMap (· ++ sep), back.flatMap (sep ++ ·), ?_⟩
  rw [append_intercalate (List.cons_ne_nil _ _), intercalate_cons, List.append_assoc]

theorem infix_behind {word l : List Char} (h : word <:+: l) (front hint : List Char) :
    word <:+: front ++ (hint ++ l) :=
  (h.trans (List.suffix_append hint l).isInfix).trans (List.suffix_append front _).isInfix

/-- The question names every notice, however long the arguments are. -/
theorem notice_shown {number : F → List Char} {description : String} {arguments : Document F}
    {notices : List String} {notice : String} (h : notice ∈ notices) :
    notice.toList <:+: (externalPrompt number description arguments notices).toList := by
  have hne : ¬ notices.isEmpty = true := by
    rw [List.isEmpty_iff]
    rintro rfl
    cases h
  have hin : notice.toList <:+: ['；'].intercalate (notices.map String.toList) :=
    infix_intercalate (List.mem_map_of_mem h)
  unfold externalPrompt
  rw [if_neg hne, String.toList_ofList]
  exact infix_behind hin _ _

end Inspect

/-- A path key that is no command key. -/
def guardsPath (key : String) : Bool := !isCommandKey key && isPathKey key

/-- What an external call that goes ahead has passed. -/
structure Mediated {F : Type} (policy : SafetyPolicy) (looks : Nat → Nat → FileTree)
    (env : Surroundings) (arguments : Document F) (prompts : List String) : Prop where
  commands : ∀ key text, (key, text) ∈ leaves none arguments → isCommandKey key = true →
    ¬ Blocked text.toList
  paths : ∀ key text, (key, text) ∈ leaves none arguments → guardsPath key = true →
    ∃ n path, policy.resolvePath (looks n) text = .ok path
  asked : policy.mode = .fullAccess ∧ prompts = [] ∨
    policy.mode ≠ .fullAccess ∧ ∃ prompt, prompts = [prompt] ∧ env.approval prompt = .ok true ∧
      (∀ key text reason, (key, text) ∈ leaves none arguments → isCommandKey key = true →
        classifyCommand text.toList = .needsApproval reason →
        ("高风险命令：" ++ reason).toList <:+: prompt.toList) ∧
      ∀ key text, (key, text) ∈ leaves none arguments → guardsPath key = true →
        ∃ n path, policy.resolvePath (looks n) text = .ok path ∧
          (policy.workspace <+: path ∨
            ("工作区外路径：" ++ display path).toList <:+: prompt.toList)

section Mediated

variable {F : Type} {policy : SafetyPolicy} {looks : Nat → Nat → FileTree} {s s' : Inspection}
  {key text : String}

theorem inspectString_command (hkey : isCommandKey key = true)
    (h : inspectString policy looks s key text = .ok s') :
    ¬ Blocked text.toList ∧ ∀ reason, classifyCommand text.toList = .needsApproval reason →
      "高风险命令：" ++ reason ∈ s'.notices := by
  rw [inspectString, if_pos hkey] at h
  unfold Blocked
  cases hc : classifyCommand text.toList with
  | blocked reason =>
    rw [hc] at h
    cases h
  | needsApproval reason =>
    rw [hc] at h
    cases h
    simp
  | allowed => simp

theorem inspectString_path (hkey : guardsPath key = true)
    (h : inspectString policy looks s key text = .ok s') :
    ∃ path, policy.resolvePath (looks s.resolved) text = .ok path ∧
      (policy.workspace <+: path ∨ "工作区外路径：" ++ display path ∈ s'.notices) := by
  rw [guardsPath, Bool.and_eq_true, Bool.not_eq_true'] at hkey
  rw [inspectString, hkey.1, if_neg Bool.false_ne_true, if_pos hkey.2] at h
  split at h
  · cases h
  · rename_i path hpath
    cases h
    refine ⟨path, hpath, ?_⟩
    by_cases hin : policy.workspace <+: path
    · exact .inl hin
    · rw [← startsWith_absolute] at hin
      simp [hin]

/-- A string is refused as a dangerous command or as a path that leads nowhere. -/
theorem inspectString_refused {e : SafetyError}
    (h : inspectString policy looks s key text = .error e) :
    isCommandKey key = true ∧ Blocked text.toList ∨
      guardsPath key = true ∧ ∃ n error, policy.resolvePath (looks n) text = .error error := by
  unfold inspectString at h
  split at h
  · rename_i hkey
    split at h
    · rename_i reason hreason
      exact .inl ⟨hkey, reason, hreason⟩
    · cases h
    · cases h
  · rename_i hkey
    split at h
    · rename_i hpath
      refine .inr ⟨by simp [guardsPath, hkey, hpath], ?_⟩
      split at h
      · rename_i error herror
        exact ⟨_, error, herror⟩
      · cases h
    · cases h

theorem consent_ok {env : Surroundings} {prompt : String} :
    (consent env prompt).2 = .ok () ↔ env.approval prompt = .ok true := by
  unfold consent
  split
  · rename_i h
    simp [h]
  · rename_i h
    simp [h]
  · rename_i h
    simp [h]

theorem blocked_of_authorizeCommand {env : Surroundings} {command reason : String}
    (h : policy.authorizeCommand env command = ([], .error (.blockedCommand reason))) :
    Blocked command.toList := by
  unfold SafetyPolicy.authorizeCommand at h
  split at h
  · split at h <;> cases h
  · rename_i reason' hblocked
    exact ⟨reason', hblocked⟩
  · split at h <;> cases h

/-- The checks that the strings of a value have passed, and the risks that its question names. -/
theorem inspected_all (number : F → List Char) (description : String) {arguments : Document F}
    {s : Inspection}
    (h : (leaves none arguments).foldlM (inspectLeaf policy looks) ⟨[], 0⟩ = .ok s) :
    (∀ key text, (key, text) ∈ leaves none arguments → isCommandKey key = true →
      ¬ Blocked text.toList) ∧
    (∀ key text, (key, text) ∈ leaves none arguments → guardsPath key = true →
      ∃ n path, policy.resolvePath (looks n) text = .ok path) ∧
    (∀ key text reason, (key, text) ∈ leaves none arguments → isCommandKey key = true →
      classifyCommand text.toList = .needsApproval reason →
      ("高风险命令：" ++ reason).toList <:+:
        (externalPrompt number description arguments s.notices).toList) ∧
    ∀ key text, (key, text) ∈ leaves none arguments → guardsPath key = true →
      ∃ n path, policy.resolvePath (looks n) text = .ok path ∧
        (policy.workspace <+: path ∨ ("工作区外路径：" ++ display path).toList <:+:
          (externalPrompt number description arguments s.notices).toList) := by
  have hall := (inspected h).2
  have hpaths : ∀ key text, (key, text) ∈ leaves none arguments → guardsPath key = true →
      ∃ n path, policy.resolvePath (looks n) text = .ok path ∧
        (policy.workspace <+: path ∨ "工作区外路径：" ++ display path ∈ s.notices) := by
    intro key text hleaf hkey
    obtain ⟨t, t', ht, hgrows⟩ := hall _ hleaf
    obtain ⟨path, hpath, hin⟩ := inspectString_path hkey ht
    exact ⟨_, path, hpath, hin.imp_right fun hmem => hgrows.subset hmem⟩
  refine ⟨?_, ?_, ?_, ?_⟩
  · intro key text hleaf hkey
    obtain ⟨t, t', ht, -⟩ := hall _ hleaf
    exact (inspectString_command hkey ht).1
  · intro key text hleaf hkey
    obtain ⟨n, path, hpath, -⟩ := hpaths key text hleaf hkey
    exact ⟨n, path, hpath⟩
  · intro key text reason hleaf hkey hreason
    obtain ⟨t, t', ht, hgrows⟩ := hall _ hleaf
    exact notice_shown (hgrows.subset ((inspectString_command hkey ht).2 reason hreason))
  · intro key text hleaf hkey
    obtain ⟨n, path, hpath, hin⟩ := hpaths key text hleaf hkey
    exact ⟨n, path, hpath, hin.imp_right notice_shown⟩

end Mediated

end AgentDaemon.Safety
