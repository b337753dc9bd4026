import AgentDaemon.Lib.FileTree

/-!
`authorize_path`: what a requested path is resolved to, and when the policy grants it. The tree is
looked at several times on the way, and other processes may change it between two looks.
-/

namespace AgentDaemon.Safety

open AgentDaemon.Path

inductive PathIntent where
  | read | write | edit
  deriving DecidableEq, Repr

def PathIntent.label : PathIntent → String
  | read => "读取"
  | write => "写入"
  | edit => "编辑"

inductive SafetyMode where
  | requestApproval | riskApproval | fullAccess
  deriving DecidableEq, Repr

/-- `SafetyError`, as far as paths go, and the errors that only carry a text. -/
inductive AccessError where
  | outsideRead (path : List Name)
  | userRejected (prompt : String)
  | invalidPath (path : List Name)
  | protectedPath (path : List Name)
  | other (message : String)
  deriving DecidableEq

/-- `workspace` is what `std::fs::canonicalize` gave when the policy was made. -/
structure SafetyPolicy where
  workspace : List Name
  mode : SafetyMode

/-- What a call of `authorize_file` meets: the variable `HOME`, the answers of the user, the tree at
each look of the resolution, and the tree at the moment of the opening. -/
structure Surroundings where
  home : Option String
  approval : String → Except String Bool
  looks : Nat → FileTree
  opening : FileTree

/-! ## Resolution -/

/-- `lexical_normalize`. At the root `..` stays where it is. -/
def lexicalNormalize (path : List Component) : List Name :=
  path.foldl (fun done component => match component with
    | .rootDir => []
    | .curDir => done
    | .parentDir => done.dropLast
    | .normal name => done ++ [name]) []

/-- The loop of `resolve_existing_prefix`; `up` is the path `existing` from its end. -/
def existingPrefix (looks : Nat → FileTree) (path : List Name) (look : Nat) :
    (up suffix : List Name) → Except AccessError (List Name)
  | [], suffix =>
    if (looks look).exists? [] then
      match (looks (look + 1)).canonicalize [] with
      | none => .error (.other ("无法解析路径前缀: " ++ display []))
      | some resolved => .ok (resolved ++ suffix)
    else .error (.invalidPath path)
  | name :: up, suffix =>
    if (looks look).exists? (name :: up).reverse then
      match (looks (look + 1)).canonicalize (name :: up).reverse with
      | none => .error (.other ("无法解析路径前缀: " ++ display (name :: up).reverse))
      | some resolved => .ok (resolved ++ suffix)
    else existingPrefix looks path (look + 1) up (name :: suffix)

def resolveExistingPrefix (looks : Nat → FileTree) (path : List Name) :
    Except AccessError (List Name) :=
  existingPrefix looks path 0 path.reverse []

namespace SafetyPolicy

def resolvePath (policy : SafetyPolicy) (looks : Nat → FileTree) (requested : String) :
    Except AccessError (List Name) :=
  let candidate :=
    if requested.toList.head? = some '/' then components requested.toList
    else absolute policy.workspace ++ components requested.toList
  resolveExistingPrefix looks (lexicalNormalize candidate)

end SafetyPolicy

/-! ## Protected paths -/

def agentDirectory : Name := ⟨".my-agent".toList, by decide⟩

def gitDirectory : Name := ⟨".git".toList, by decide⟩

def protectedRoots : List String :=
  ["/etc", "/private/etc", "/System", "/usr", "/bin", "/sbin", "/dev", "/proc", "/sys"]

def protectedInHome : List String := [".ssh", ".aws", ".gnupg"]

/-- The directories that `is_protected_path` names. -/
def protectedDirectories (home : Option String) (workspace : List Name) : List (List Component) :=
  absolute (workspace ++ [agentDirectory]) ::
    protectedRoots.map (components ·.toList) ++
    home.toList.flatMap fun home =>
      protectedInHome.map fun name => components home.toList ++ components name.toList

/-- `is_protected_path`. -/
def isProtectedPath (home : Option String) (path workspace : List Name) : Bool :=
  (protectedDirectories home workspace).any (startsWith path) ||
    path.any fun part => part = gitDirectory

/-! ## Authorisation -/

/-- Asks the user. -/
def askFor (env : Surroundings) (prompt : String) (resolved : List Name) :
    List String × Except AccessError (List Name) :=
  ([prompt], match env.approval prompt with
    | .error message => .error (.other message)
    | .ok true => .ok resolved
    | .ok false => .error (.userRejected prompt))

/-- `authorize_path`, with the prompts that it puts to the user. -/
def SafetyPolicy.authorizePath (policy : SafetyPolicy) (env : Surroundings) (requested : String)
    (intent : PathIntent) : List String × Except AccessError (List Name) :=
  match policy.resolvePath env.looks requested with
  | .error e => ([], .error e)
  | .ok resolved =>
    if intent ≠ .read ∧ isProtectedPath env.home resolved policy.workspace then
      ([], .error (.protectedPath resolved))
    else if policy.mode = .fullAccess then ([], .ok resolved)
    else if startsWith resolved (absolute policy.workspace) then
      if policy.mode = .requestApproval ∧ intent ≠ .read then
        askFor env (intent.label ++ "工作区内路径 " ++ display resolved) resolved
      else ([], .ok resolved)
    else if intent = .read then ([], .error (.outsideRead resolved))
    else askFor env (intent.label ++ "工作区外路径 " ++ display resolved) resolved

/-- A grant that nobody was asked for is for a path in the workspace or for everything, and no
grant to write is for a protected path. -/
theorem authorizePath_cases {policy : SafetyPolicy} {env : Surroundings} {requested : String}
    {intent : PathIntent} {prompts : List String} {path : List Name}
    (h : policy.authorizePath env requested intent = (prompts, .ok path)) :
    (intent = .read ∨ isProtectedPath env.home path policy.workspace = false) ∧
      (policy.mode = .fullAccess ∨ policy.workspace <+: path ∨ intent ≠ .read ∧ prompts ≠ []) := by
  unfold SafetyPolicy.authorizePath at h
  split at h
  · cases h
  rename_i resolved hresolved
  have hask : ∀ {prompt : String}, askFor env prompt resolved = (prompts, .ok path) →
      path = resolved ∧ prompts ≠ [] := by
    intro prompt ha
    simp only [askFor, Prod.mk.injEq] at ha
    obtain ⟨rfl, ha⟩ := ha
    split at ha
    · cases ha
    · cases ha
      exact ⟨rfl, by simp⟩
    · cases ha
  split at h
  · cases h
  rename_i hprotected
  have hfree : intent = .read ∨ isProtectedPath env.home resolved policy.workspace = false := by
    rw [not_and_or, ne_eq, not_not, Bool.not_eq_true] at hprotected
    exact hprotected
  split at h
  · rename_i hfull
    cases h
    exact ⟨hfree, .inl hfull⟩
  split at h
  · rename_i hinside
    rw [startsWith_absolute] at hinside
    split at h
    · obtain ⟨rfl, -⟩ := hask h
      exact ⟨hfree, .inr (.inl hinside)⟩
    · cases h
      exact ⟨hfree, .inr (.inl hinside)⟩
  split at h
  · cases h
  · rename_i hwrite
    obtain ⟨rfl, hasked⟩ := hask h
    exact ⟨hfree, .inr (.inr ⟨hwrite, hasked⟩)⟩

end AgentDaemon.Safety
