import AgentDaemon.Lib.Fallible
import AgentDaemon.Safety.Policy

/-!
`authorize_file`: the path that the policy granted is walked once more, name by name and without
following a link, and only what this walk reaches is handed out. The walk sees one tree. So a file
that was granted without a question stands in the workspace, or in its place (`contained`), and
one that may be written stands under no protected path.
-/

namespace AgentDaemon.Safety

open AgentDaemon.Path Fallible

/-! ## Opening -/

inductive OpenError where
  | notFound | refused
  deriving DecidableEq, Repr

/-- `open_at`: `O_NOFOLLOW` refuses a link, and `O_DIRECTORY` whatever is not a directory. -/
def openAt (t : FileTree) (parent : Nat) (name : Name) (directory : Bool) : Except OpenError Nat :=
  match t.entry? parent name with
  | none => .error .notFound
  | some node =>
    match t.nodes[node]? with
    | some (.dir _) => .ok node
    | some (.file _) => if directory then .error .refused else .ok node
    | _ => .error .refused

/-- `c_name`. -/
def cName (name : Name) : Except AccessError Unit :=
  if '\x00' ∈ name.chars then .error (.other "nul byte found in provided data") else .ok ()

/-- `open_regular_at`. -/
def openRegularAt (t : FileTree) (parent : Nat) (name : Name) : Except AccessError (Option Nat) :=
  match openAt t parent name false with
  | .ok node => if t.isDir node then .error (.other "目标不是普通文件") else .ok (some node)
  | .error .notFound => .ok none
  | .error .refused => .error (.other "安全打开目标失败")

/-- The loop of `open_directory_tree`; with `create`, directories that are missing are made. -/
def openDirectoryTree (create : Bool) (t : FileTree) (current : Nat) :
    List Name → Except AccessError (Nat × FileTree)
  | [] => .ok (current, t)
  | name :: path => do
    cName name
    match openAt t current name true with
    | .ok next => openDirectoryTree create t next path
    | .error .refused => .error (.other "安全打开父目录失败")
    | .error .notFound =>
      if create then
        match openAt (t.mkdirAt current name) current name true with
        | .ok next => openDirectoryTree create (t.mkdirAt current name) next path
        | .error _ => .error (.other "")
      else .error (.other "安全打开父目录失败")

/-- The identity of a file and the digest of its bytes. -/
structure Version where
  identity : Nat
  sha256 : List UInt8
  deriving DecidableEq

/-- A handle is the number of its node. -/
structure AuthorizedPath where
  path : List Name
  parent : Nat
  parentIdentity : Nat
  basename : Name
  intent : PathIntent
  original : Option Nat
  version : Option Version
  deriving DecidableEq

/-- `version_of`. `sha256` is the function of the hash crate. -/
def versionOf (sha256 : List UInt8 → List UInt8) (t : FileTree) (node : Nat) : Option Version :=
  match t.nodes[node]? with
  | some (.file bytes) => some ⟨node, sha256 bytes⟩
  | _ => none

/-- `AuthorizedPath::open`, from the root that `File::open("/")` opens. -/
def AuthorizedPath.open (sha256 : List UInt8 → List UInt8) (t : FileTree) (path : List Name)
    (intent : PathIntent) : Except AccessError (AuthorizedPath × FileTree) :=
  match path.getLast? with
  | none => .error (.other "文件路径没有父目录")
  | some basename => do
    cName basename
    let (parent, t) ← openDirectoryTree (intent = .write) t 0 path.dropLast
    let original ← openRegularAt t parent basename
    if original = none ∧ intent ≠ .write then
      .error (.other ("文件不存在: " ++ display path))
    else if intent ≠ .read ∧ original.any (t.nlink · > 1) then
      .error (.other ("拒绝写入硬链接目标: " ++ display path))
    else
      .ok (⟨path, parent, parent, basename, intent, original, original.bind (versionOf sha256 t)⟩, t)

/-- `authorize_file`, with the prompts and the tree as the opening leaves it. -/
def SafetyPolicy.authorizeFile (policy : SafetyPolicy) (sha256 : List UInt8 → List UInt8)
    (env : Surroundings) (requested : String) (intent : PathIntent) :
    List String × Except AccessError (AuthorizedPath × FileTree) :=
  match policy.authorizePath env requested intent with
  | (prompts, .error e) => (prompts, .error e)
  | (prompts, .ok path) => (prompts, AuthorizedPath.open sha256 env.opening path intent)

/-! ## What a handle refers to -/

/-- The handle stands at its path: the way to its directory leads through directories only, and its
file is a regular one, or, for a file to be written, a name that is free. -/
structure Reached (t : FileTree) (file : AuthorizedPath) : Prop where
  path : file.path = file.path.dropLast ++ [file.basename]
  parent : t.walk 0 file.path.dropLast = some file.parent
  target : (∃ node bytes, file.original = some node ∧
      t.entry? file.parent file.basename = some node ∧ t.nodes[node]? = some (.file bytes)) ∨
    file.original = none ∧ file.intent = .write ∧ t.entry? file.parent file.basename = none

/-- The directory of the handle is the workspace directory or below it. -/
def InWorkspace (policy : SafetyPolicy) (t : FileTree) (file : AuthorizedPath) : Prop :=
  ∃ dir below, t.walk 0 policy.workspace = some dir ∧
    file.path = policy.workspace ++ below ++ [file.basename] ∧
    t.walk dir below = some file.parent

theorem openAt_directory {t : FileTree} {parent node : Nat} {name : Name}
    (h : openAt t parent name true = .ok node) :
    t.entry? parent name = some node ∧ t.isDir node = true := by
  unfold openAt at h
  split at h
  · cases h
  rename_i found hentry
  split at h
  · rename_i entries hnode
    cases h
    exact ⟨hentry, by rw [FileTree.isDir, FileTree.entries?, hnode]; rfl⟩
  · cases h
  · cases h

theorem openDirectoryTree_walk {create : Bool} {t t' : FileTree} {current parent : Nat}
    {path : List Name} (h : openDirectoryTree create t current path = .ok (parent, t')) :
    FileTree.Keeps t t' ∧ t'.walk current path = some parent := by
  induction path generalizing t current with
  | nil =>
    cases h
    exact ⟨.refl t', rfl⟩
  | cons name path ih =>
    -- the directory that was just opened is still there when the rest has been walked
    have hnext : ∀ {u : FileTree} {next : Nat}, openAt u current name true = .ok next →
        openDirectoryTree create u next path = .ok (parent, t') →
        FileTree.Keeps u t' ∧ t'.walk current (name :: path) = some parent := by
      intro u next hopen hrest
      obtain ⟨hentry, hdir⟩ := openAt_directory hopen
      obtain ⟨hkeeps, hwalk⟩ := ih hrest
      refine ⟨hkeeps, Option.bind_eq_some_iff.mpr ⟨next, hkeeps.entry _ _ _ hentry, ?_⟩⟩
      rw [if_pos (hkeeps.dir next hdir)]
      exact hwalk
    rw [openDirectoryTree] at h
    obtain ⟨-, -, h⟩ := bind_eq_ok.mp h
    split at h
    · exact hnext ‹_› h
    · cases h
    · split at h
      · split at h
        · obtain ⟨hkeeps, hwalk⟩ := hnext ‹_› h
          exact ⟨(FileTree.keeps_mkdirAt t current name).trans hkeeps, hwalk⟩
        · cases h
      · cases h

theorem openRegularAt_some {t : FileTree} {parent node : Nat} {name : Name}
    (h : openRegularAt t parent name = .ok (some node)) :
    t.entry? parent name = some node ∧ ∃ bytes, t.nodes[node]? = some (.file bytes) := by
  unfold openRegularAt openAt at h
  split at h
  · rename_i found hopen
    split at h
    · cases h
    rename_i hdir
    cases h
    split at hopen
    · cases hopen
    rename_i found hentry
    split at hopen
    · rename_i entries hnode
      cases hopen
      exact absurd (by rw [FileTree.isDir, FileTree.entries?, hnode]; rfl) hdir
    · rename_i bytes hnode
      cases hopen
      exact ⟨hentry, bytes, hnode⟩
    · cases hopen
  · cases h
  · cases h

theorem openRegularAt_none {t : FileTree} {parent : Nat} {name : Name}
    (h : openRegularAt t parent name = .ok none) : t.entry? parent name = none := by
  unfold openRegularAt openAt at h
  split at h
  · split at h
    · cases h
    · cases h
  · rename_i hopen
    split at hopen
    · assumption
    · split at hopen
      · cases hopen
      · cases hopen
      · cases hopen
  · cases h

theorem open_reached {sha256 : List UInt8 → List UInt8} {t t' : FileTree} {path : List Name}
    {intent : PathIntent} {file : AuthorizedPath}
    (h : AuthorizedPath.open sha256 t path intent = .ok (file, t')) :
    file.path = path ∧ file.intent = intent ∧ Reached t' file := by
  unfold AuthorizedPath.open at h
  split at h
  · cases h
  rename_i basename hlast
  obtain ⟨-, -, h⟩ := bind_eq_ok.mp h
  obtain ⟨⟨parent, t₁⟩, htree, h⟩ := bind_eq_ok.mp h
  obtain ⟨original, hregular, h⟩ := bind_eq_ok.mp h
  obtain ⟨-, hwalk⟩ := openDirectoryTree_walk htree
  split at h
  · cases h
  rename_i hexists
  split at h
  · cases h
  cases h
  refine ⟨rfl, rfl, ?_, hwalk, ?_⟩
  · exact (List.dropLast_append_getLast? basename hlast).symm
  cases original with
  | some node =>
    obtain ⟨hentry, bytes, hbytes⟩ := openRegularAt_some hregular
    exact .inl ⟨node, bytes, rfl, hentry, hbytes⟩
  | none =>
    rw [not_and, not_not] at hexists
    exact .inr ⟨rfl, hexists rfl, openRegularAt_none hregular⟩

/-- A handle whose path lies behind that of the workspace is in the workspace directory. -/
theorem Reached.inWorkspace {policy : SafetyPolicy} {t : FileTree} {file : AuthorizedPath}
    (h : Reached t file) (hpath : policy.workspace <+: file.path) :
    InWorkspace policy t file ∨ file.path = policy.workspace := by
  obtain ⟨more, hmore⟩ := hpath
  rcases List.eq_nil_or_concat more with rfl | ⟨below, last, rfl⟩
  · exact .inr (by rw [← hmore, List.append_nil])
  · have hlast : policy.workspace ++ below ++ [last] =
        file.path.dropLast ++ [file.basename] := by
      rw [← h.path, ← hmore, List.concat_eq_append, List.append_assoc]
    obtain ⟨hdrop, hname⟩ := List.append_inj' hlast rfl
    have hparent := h.parent
    rw [← hdrop, FileTree.walk_append] at hparent
    obtain ⟨dir, hdir, hbelow⟩ := Option.bind_eq_some_iff.mp hparent
    refine .inl ⟨dir, below, hdir, ?_, hbelow⟩
    rw [h.path, ← hlast, hname]

theorem contained {policy : SafetyPolicy} {sha256 : List UInt8 → List UInt8} {env : Surroundings}
    {requested : String} {intent : PathIntent} {prompts : List String} {file : AuthorizedPath}
    {t : FileTree}
    (h : policy.authorizeFile sha256 env requested intent = (prompts, .ok (file, t))) :
    Reached t file ∧
      (policy.mode ≠ .fullAccess → intent = .read ∨ prompts = [] →
        InWorkspace policy t file ∨ file.path = policy.workspace) ∧
      (intent ≠ .read → isProtectedPath env.home file.path policy.workspace = false) := by
  unfold SafetyPolicy.authorizeFile at h
  split at h
  · cases h
  rename_i asked path hgrant
  obtain ⟨rfl, hopen⟩ := Prod.mk.inj h
  obtain ⟨rfl, -, hreached⟩ := open_reached hopen
  obtain ⟨hprotected, hinside⟩ := authorizePath_cases hgrant
  refine ⟨hreached, ?_, fun hwrite => hprotected.resolve_left hwrite⟩
  intro hmode hunasked
  rcases hinside with hfull | hinside | ⟨hwrite, hasked⟩
  · exact absurd hfull hmode
  · exact hreached.inWorkspace hinside
  · rcases hunasked with hread | hnone
    · exact absurd hread hwrite
    · exact absurd hnone hasked

/-! ## Concrete trees -/

private def w : Name := ⟨['w'], by decide⟩
private def u : Name := ⟨['u'], by decide⟩
private def home : Name := ⟨"home".toList, by decide⟩
private def data : Name := ⟨"data".toList, by decide⟩
private def ssh : Name := ⟨".ssh".toList, by decide⟩
private def keys : Name := ⟨"authorized_keys".toList, by decide⟩

/-- A file `u` in the workspace `/w`. -/
private def plain : Surroundings where
  home := none
  approval := fun _ => .ok false
  looks := fun _ => ⟨[.dir [(w, 1)], .dir [(u, 2)], .file []], ⟨_, rfl⟩⟩
  opening := ⟨[.dir [(w, 1)], .dir [(u, 2)], .file []], ⟨_, rfl⟩⟩

theorem contained_plain :
    InWorkspace ⟨[w], .riskApproval⟩ plain.opening
        ⟨[w, u], 1, 1, u, .edit, some 2, some ⟨2, []⟩⟩ ∨ [w, u] = [w] := by
  have h : SafetyPolicy.authorizeFile ⟨[w], .riskApproval⟩ id plain "./u" .edit =
      ([], .ok (⟨[w, u], 1, 1, u, .edit, some 2, some ⟨2, []⟩⟩, plain.opening)) := by
    decide +kernel
  exact (contained h).2.1 (by decide) (.inr rfl)

/-- The workspace `/w` is a directory at first and a regular file later. -/
private def replaced : Surroundings where
  home := none
  approval := fun _ => .ok false
  looks := fun _ => ⟨[.dir [(w, 1)], .dir []], ⟨_, rfl⟩⟩
  opening := ⟨[.dir [(w, 1)], .file []], ⟨_, rfl⟩⟩

/-- `/home` is a link to `/data`, and `HOME` is `/home/u`. -/
private def linked : FileTree where
  nodes := [.dir [(home, 1), (data, 2), (w, 5)], .link "/data".toList, .dir [(u, 3)],
    .dir [(ssh, 4)], .dir [], .dir []]
  root := ⟨_, rfl⟩

private def linkedHome : Surroundings where
  home := some "/home/u"
  approval := fun _ => .ok false
  looks := fun _ => linked
  opening := linked

/-- The strict reading: what was granted without a question is inside the workspace directory, and
what may be written is not below a directory that a protected path leads to, links followed. -/
structure Contained (policy : SafetyPolicy) (env : Surroundings) (prompts : List String)
    (t : FileTree) (file : AuthorizedPath) : Prop where
  inside : policy.mode ≠ .fullAccess → file.intent = .read ∨ prompts = [] →
    InWorkspace policy t file
  unprotected : file.intent ≠ .read → ∀ base ∈ protectedDirectories env.home policy.workspace,
    ∀ real, t.resolve FileTree.maxLinks base [] = some real → ¬ real <+: file.path

theorem not_contained_replaced :
    (∃ file t, SafetyPolicy.authorizeFile ⟨[w], .riskApproval⟩ id replaced "." .read =
        ([], .ok (file, t)) ∧ ¬ Contained ⟨[w], .riskApproval⟩ replaced [] t file) ∧
    ∃ file t, SafetyPolicy.authorizeFile ⟨[w], .fullAccess⟩ id linkedHome
        "/home/u/.ssh/authorized_keys" .write = ([], .ok (file, t)) ∧
      ¬ Contained ⟨[w], .fullAccess⟩ linkedHome [] t file := by
  constructor
  · refine ⟨⟨[w], 0, 0, w, .read, some 1, some ⟨1, []⟩⟩, replaced.opening, by decide +kernel, ?_⟩
    intro h
    obtain ⟨dir, below, -, hpath, -⟩ := h.inside (by decide) (.inl rfl)
    have hlen := congrArg List.length hpath
    simp at hlen
  · refine ⟨⟨[data, u, ssh, keys], 4, 4, keys, .write, none, none⟩, linked, by decide +kernel, ?_⟩
    intro h
    exact h.unprotected (by decide) (components "/home/u/.ssh".toList) (by decide +kernel)
      [data, u, ssh] (by decide +kernel) (by decide +kernel)

end AgentDaemon.Safety
