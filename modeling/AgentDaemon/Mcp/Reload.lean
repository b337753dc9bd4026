import AgentDaemon.Lib.Fallible
import AgentDaemon.Lib.FileTree
import AgentDaemon.Lib.Table
import AgentDaemon.Lib.Text
import AgentDaemon.Lib.Utf8
import AgentDaemon.Mcp.Client
import Mathlib.Data.List.Lattice
import Mathlib.Data.List.Pairwise

/-!
`McpManager::reload`: the configuration is read, each server is connected, and the tools it lists
go into one table under their bridged names. A server with a name that is taken is taken out again.
`reload_isolated`: the table is what the connected servers list, and no server costs another one
its tools.
-/

namespace AgentDaemon.Mcp

open Document

variable {F κ : Type}

/-! ## Configuration -/

structure ServerConfig where
  name : String
  command : String
  args : List String
  env : List (String × String)
  cwd : List Name

structure McpServerStatus where
  name : String
  connected : Bool
  tools : List String
  error : Option String
  deriving DecidableEq

/-- What `load_config` reads of the machine: the workspace, `std::env::var` and
`std::fs::canonicalize`, the two with the texts of their errors. -/
structure Host where
  workspace : List Name
  var : String → Except String String
  canonicalize : List Char → Except String (List Name)

def requiredString (object : Document F) (key : String) : Except String String :=
  match (object.get? key).bind asStr? with
  | some value => if blank value then .error (key ++ " 必须是非空字符串") else .ok value
  | none => .error (key ++ " 必须是非空字符串")

def optionalStringArray (object : Document F) (key : String) : Except String (List String) :=
  match object.get? key with
  | none => .ok []
  | some (.arr items) => items.mapM fun item =>
    match item.asStr? with
    | some text => .ok text
    | none => .error "args 必须是字符串数组"
  | some _ => .error "args 必须是字符串数组"

def optionalStringMap (object : Document F) (key : String) :
    Except String (List (String × String)) :=
  match object.get? key with
  | none => .ok []
  | some (.obj fields) => fields.mapM fun (name, value) =>
    match value.asStr? with
    | some text => .ok (name, text)
    | none => .error "env 值必须是字符串"
  | some _ => .error "env 必须是字符串 map"

def placeholder (host : Host) (key : List Char) : Except String (List Char) :=
  if key.isEmpty then .error "占位符名称不能为空"
  else if key = "WORKSPACE_ROOT".toList then .ok (Path.display host.workspace).toList
  else match host.var (String.ofList key) with
    | .ok value => .ok value.toList
    | .error e => .error ("占位符环境变量未设置：" ++ String.ofList key ++ ": " ++ e)

/-- A placeholder is longer than two characters, so that their number is fuel enough. -/
def expandFrom (host : Host) : Nat → List Char → Except String (List Char)
  | 0, rest => .ok rest
  | n + 1, rest =>
    match splitOnce ['$', '\x7b'] rest with
    | none => .ok rest
    | some (before, after) =>
      match splitOnce ['\x7d'] after with
      | none => .error "占位符缺少右花括号"
      | some (key, rest) => do
        let value ← placeholder host key
        let rest ← expandFrom host n rest
        return before ++ (value ++ rest)

def expandPlaceholders (host : Host) (input : String) : Except String String :=
  String.ofList <$> expandFrom host input.toList.length input.toList

/-- `Path::join`. -/
def joinPath (dir : List Name) (path : List Char) : List Char :=
  if path.head? = some '/' then path
  else (if dir.isEmpty then ['/'] else (Path.display dir).toList ++ ['/']) ++ path

def parseCwd (host : Host) (object : Document F) : Except String (List Name) :=
  match object.get? "cwd" with
  | none => .ok host.workspace
  | some value =>
    match value.asStr? with
    | none => .error "cwd 必须是字符串"
    | some value => do
      let expanded ← expandPlaceholders host value
      let candidate := joinPath host.workspace expanded.toList
      match host.canonicalize candidate with
      | .error e => .error ("无法解析 cwd：" ++ String.ofList candidate ++ ": " ++ e)
      | .ok canonical =>
        if host.workspace.isPrefixOf canonical then .ok canonical
        else .error ("cwd 必须位于工作区内：" ++ Path.display canonical)

def parseServerConfig (host : Host) (name : String) (value : Document F) :
    Except String ServerConfig :=
  match value with
  | .obj _ => do
    let command ← requiredString value "command"
    let args ← (← optionalStringArray value "args").mapM (expandPlaceholders host)
    let env ← (← optionalStringMap value "env").mapM fun (key, text) =>
      (key, ·) <$> expandPlaceholders host text
    let cwd ← parseCwd host value
    return { name, command, args, env, cwd }
  | _ => .error "server 条目必须是对象"

inductive ConfigLoad where
  | disabled
  | fileError (error : String)
  | servers (valid : List ServerConfig) (invalid : List McpServerStatus)

/-- The loop of `load_config` over the entries. -/
def parseServers (host : Host) : List (String × Document F) →
    List ServerConfig × List McpServerStatus
  | [] => ([], [])
  | (name, value) :: servers =>
    let (valid, invalid) := parseServers host servers
    match parseServerConfig host name value with
    | .ok config => (config :: valid, invalid)
    | .error e => (valid, ⟨name, false, [], some ("配置无效：" ++ e)⟩ :: invalid)

/-- `file` is `mcp.json`, `none` where there is none, and `fromSlice` is `serde_json::from_slice`. -/
def loadConfig (host : Host) (fromSlice : List UInt8 → Except String (Document F))
    (file : Option (Except String (List UInt8))) : ConfigLoad :=
  let path := String.ofList (joinPath host.workspace ".my-agent/mcp.json".toList)
  match file with
  | none => .disabled
  | some (.error e) => .fileError ("读取 " ++ path ++ " 失败：" ++ e)
  | some (.ok bytes) =>
    match fromSlice bytes with
    | .error e => .fileError ("解析 " ++ path ++ " 失败：" ++ e)
    | .ok root =>
      match root.get? "mcpServers" with
      | some (.obj servers) => .servers (parseServers host servers).1 (parseServers host servers).2
      | _ => .fileError "mcp.json 顶层必须包含对象 mcpServers"

/-! ## Tools -/

structure RemoteTool (F : Type) where
  name : String
  description : String
  inputSchema : Document F

def isObject : Document F → Bool
  | .obj _ => true
  | _ => false

def parseRemoteTool (tool : Document F) : Except String (RemoteTool F) :=
  match ((tool.get? "name").bind asStr?).filter fun name => !blank name with
  | none => .error "MCP tool 缺少 name"
  | some name =>
    let inputSchema := (tool.get? "inputSchema").getD (.obj [("type", .str "object")])
    if isObject inputSchema then
      .ok ⟨name, ((tool.get? "description").bind asStr?).getD "外部 MCP 工具", inputSchema⟩
    else .error ("MCP tool " ++ name ++ " 的 inputSchema 必须是对象")

def parseRemoteTools (result : Document F) : Except String (List (RemoteTool F)) :=
  match result.get? "tools" with
  | some (.arr tools) => tools.mapM parseRemoteTool
  | _ => .error "tools/list 响应缺少 tools 数组"

/-- What comes of starting a server: its client, and its answers to `initialize` and to
`tools/list`. -/
abbrev Launch (F κ : Type) := ServerConfig → Except String (κ × Document F × Document F)

/-- `McpClient::connect`. -/
def connect (launch : Launch F κ) (config : ServerConfig) :
    Except String (κ × List (RemoteTool F)) := do
  let (client, initialized, listed) ← launch config
  match (initialized.get? "protocolVersion").bind asStr? with
  | none => .error "MCP initialize 响应缺少 protocolVersion"
  | some _ => return (client, ← parseRemoteTools listed)

def sanitizeName (value : String) : String :=
  String.ofList (value.toList.map fun c => if c.isAlphanum || c = '_' then c.toLower else '_')

def bridgeName (server tool : String) : String :=
  "mcp__" ++ sanitizeName server ++ "__" ++ sanitizeName tool

structure McpTool (F κ : Type) where
  bridgeName : String
  remoteName : String
  description : String
  inputSchema : Document F
  serverName : String
  client : κ

/-- The tools under their bridged names. -/
abbrev ToolTable (F κ : Type) := Table (McpTool.bridgeName (F := F) (κ := κ))

def bridge (config : ServerConfig) (client : κ) (remote : RemoteTool F) : McpTool F κ :=
  ⟨bridgeName config.name remote.name, remote.name, remote.description, remote.inputSchema,
    config.name, client⟩

/-- The loop over the tools of a server: the names that went in, and the one that was taken. -/
def addTools (config : ServerConfig) (client : κ) :
    List (RemoteTool F) → List String → ToolTable F κ → List String × Option String × ToolTable F κ
  | [], names, tools => (names, none, tools)
  | remote :: remotes, names, tools =>
    let tool := bridge config client remote
    match tools.insert tool with
    | none => (names, some ("MCP 工具名冲突：" ++ tool.bridgeName), tools)
    | some tools => addTools config client remotes (names ++ [tool.bridgeName]) tools

/-! ## Reload -/

/-- The locals of `reload`. -/
structure Loading (F κ : Type) where
  servers : List McpServerStatus
  clients : List κ
  tools : ToolTable F κ

def addServer (launch : Launch F κ) (s : Loading F κ) (config : ServerConfig) : Loading F κ :=
  match connect launch config with
  | .error e => { s with servers := s.servers ++ [⟨config.name, false, [], some e⟩] }
  | .ok (client, remotes) =>
    match addTools config client remotes [] s.tools with
    | (names, some e, tools) =>
      { s with
        servers := s.servers ++ [⟨config.name, false, [], some e⟩]
        tools := tools.filter fun tool => !names.contains tool.bridgeName }
    | (names, none, tools) =>
      ⟨s.servers ++ [⟨config.name, true, names, none⟩], s.clients ++ [client], tools⟩

structure McpStatus where
  fileError : Option String := none
  servers : List McpServerStatus := []

/-- The snapshot and the clients. -/
structure McpManager (F κ : Type) where
  status : McpStatus
  tools : ToolTable F κ
  clients : List κ

/-- `sort_by`, which is stable. -/
def sortServers (servers : List McpServerStatus) : List McpServerStatus :=
  servers.mergeSort fun left right => decide (left.name ≤ right.name)

/-- What `reload` puts in the place of the snapshot and of the clients. -/
def reload (launch : Launch F κ) : ConfigLoad → McpManager F κ
  | .disabled => ⟨{}, .empty, []⟩
  | .fileError e => ⟨{ fileError := some e }, .empty, []⟩
  | .servers valid invalid =>
    let s := valid.foldl (addServer launch) ⟨invalid, [], .empty⟩
    ⟨{ servers := sortServers s.servers }, s.tools, s.clients⟩

/-! ## Isolation -/

def ConfigLoad.valid : ConfigLoad → List ServerConfig
  | .servers valid _ => valid
  | _ => []

/-- The names that a server lists, bridged. -/
def bridgedNames (config : ServerConfig) (remotes : List (RemoteTool F)) : List String :=
  remotes.map fun remote => bridgeName config.name remote.name

/-- The tools are what the connected servers list, each of them one server's. A server that
answers is connected with all of its tools, or two of its own names or one of them and one of
another connected server are the same. -/
structure Isolated (launch : Launch F κ) (valid : List ServerConfig) (m : McpManager F κ) :
    Prop where
  exposed : ∀ name, (m.tools.find? name).isSome = true ↔
    ∃ server ∈ m.status.servers, server.connected = true ∧ name ∈ server.tools
  owner : ∀ tool ∈ m.tools.rows, ∃ server ∈ m.status.servers, server.connected = true ∧
    server.name = tool.serverName ∧ tool.bridgeName ∈ server.tools ∧
      ∀ other ∈ m.status.servers, tool.bridgeName ∈ other.tools → other = server
  disjoint : m.status.servers.Pairwise fun left right => left.tools.Disjoint right.tools
  failed : ∀ server ∈ m.status.servers, server.connected = false →
    server.tools = [] ∧ ∀ tool ∈ m.tools.rows, tool.serverName ≠ server.name
  whole : ∀ config ∈ valid, ∀ client remotes, connect launch config = .ok (client, remotes) →
    (⟨config.name, true, bridgedNames config remotes, none⟩ ∈ m.status.servers ∧
      ∀ remote ∈ remotes, bridge config client remote ∈ m.tools.rows) ∨
    (∃ e, ⟨config.name, false, [], some e⟩ ∈ m.status.servers) ∧
      (¬ (bridgedNames config remotes).Nodup ∨
        ∃ other ∈ m.status.servers, other.connected = true ∧ other.name ≠ config.name ∧
          ∃ name ∈ bridgedNames config remotes, name ∈ other.tools)

/-! ### The tools of one server -/

/-- All tools went in behind the others, or those before the one whose name was taken. -/
theorem addTools_cases (config : ServerConfig) (client : κ) (remotes : List (RemoteTool F))
    (names : List String) (tools : ToolTable F κ) :
    (∃ tools', addTools config client remotes names tools =
        (names ++ bridgedNames config remotes, none, tools') ∧
      tools'.rows = tools.rows ++ remotes.map (bridge config client)) ∨
    ∃ before remote after e tools', remotes = before ++ remote :: after ∧
      addTools config client remotes names tools =
        (names ++ bridgedNames config before, some e, tools') ∧
      tools'.rows = tools.rows ++ before.map (bridge config client) ∧
      bridgeName config.name remote.name ∈ tools'.rows.map McpTool.bridgeName := by
  induction remotes generalizing names tools with
  | nil => exact .inl ⟨tools, by simp [addTools, bridgedNames], by simp⟩
  | cons remote remotes ih =>
    cases hins : tools.insert (bridge config client remote) with
    | none =>
      obtain ⟨taken, htaken⟩ := Table.find?_of_insert_none hins
      refine .inr ⟨[], remote, remotes, "MCP 工具名冲突：" ++ (bridge config client remote).bridgeName,
        tools, rfl, ?_, by simp, ?_⟩
      · rw [addTools, hins, bridgedNames, List.map_nil, List.append_nil]
      · rw [← show (bridge config client remote).bridgeName = bridgeName config.name remote.name
          from rfl, ← Table.key_of_find? htaken]
        exact List.mem_map_of_mem (Table.mem_of_find? htaken)
    | some tools₁ =>
      have hrows := Table.rows_insert hins
      have hstep : addTools config client (remote :: remotes) names tools =
          addTools config client remotes (names ++ [(bridge config client remote).bridgeName])
            tools₁ := by
        rw [addTools, hins]
      rcases ih (names ++ [(bridge config client remote).bridgeName]) tools₁ with
        ⟨tools', e, hr⟩ | ⟨before, taken, after, error, tools', hsplit, e, hr, htaken⟩
      · refine .inl ⟨tools', ?_, ?_⟩
        · rw [hstep, e, List.append_assoc]
          rfl
        · rw [hr, hrows, List.append_assoc]
          rfl
      · refine .inr ⟨remote :: before, taken, after, error, tools', by rw [hsplit]; rfl, ?_, ?_,
          htaken⟩
        · rw [hstep, e, List.append_assoc]
          rfl
        · rw [hr, hrows, List.append_assoc]
          rfl

/-- What one server does: nothing is left of it, or all of its tools are there. -/
theorem addServer_cases (launch : Launch F κ) (s : Loading F κ) (config : ServerConfig) :
    (∃ client remotes tools', connect launch config = .ok (client, remotes) ∧
      addServer launch s config = ⟨s.servers ++ [⟨config.name, true, bridgedNames config remotes,
        none⟩], s.clients ++ [client], tools'⟩ ∧
      tools'.rows = s.tools.rows ++ remotes.map (bridge config client)) ∨
    ∃ e, addServer launch s config = { s with
        servers := s.servers ++ [⟨config.name, false, [], some e⟩] } ∧
      ∀ client remotes, connect launch config = .ok (client, remotes) →
        ¬ (bridgedNames config remotes).Nodup ∨
          ∃ name ∈ bridgedNames config remotes, name ∈ s.tools.rows.map McpTool.bridgeName := by
  unfold addServer
  cases hconnect : connect launch config with
  | error e => exact .inr ⟨e, rfl, fun _ _ h => nomatch h⟩
  | ok answer =>
    obtain ⟨client, remotes⟩ := answer
    rcases addTools_cases config client remotes [] s.tools with
      ⟨tools', e, hr⟩ | ⟨before, remote, after, error, tools', rfl, e, hr, htaken⟩
    · refine .inl ⟨client, remotes, tools', rfl, ?_, hr⟩
      simp only [e, List.nil_append]
    · refine .inr ⟨error, ?_, ?_⟩
      · have hnames : bridgedNames config before =
            (before.map (bridge config client)).map McpTool.bridgeName := by
          rw [bridgedNames, List.map_map]
          rfl
        simp only [e, List.nil_append, hnames, Table.filter_of_append hr]
      · rintro _ _ ⟨⟩
        have hname : bridgeName config.name remote.name ∈
            bridgedNames config (before ++ remote :: after) :=
          List.mem_map.mpr ⟨remote, by simp, rfl⟩
        rw [hr, List.map_append, List.mem_append] at htaken
        rcases htaken with hold | hown
        · exact .inr ⟨_, hname, hold⟩
        · refine .inl fun hnd => ?_
          rw [bridgedNames, List.map_append, List.map_cons, List.nodup_append] at hnd
          rw [List.map_map] at hown
          exact hnd.2.2 _ hown _ List.mem_cons_self rfl

/-! ### All servers -/

/-- The state of the loop after the servers `done`. -/
structure Loaded (launch : Launch F κ) (done : List ServerConfig) (s : Loading F κ) : Prop where
  rows : s.tools.rows.map McpTool.bridgeName = s.servers.flatMap McpServerStatus.tools
  owned : ∀ tool ∈ s.tools.rows, ∃ server ∈ s.servers, server.connected = true ∧
    server.name = tool.serverName ∧ tool.bridgeName ∈ server.tools
  failed : ∀ server ∈ s.servers, server.connected = false → server.tools = []
  whole : ∀ config ∈ done, ∀ client remotes, connect launch config = .ok (client, remotes) →
    (⟨config.name, true, bridgedNames config remotes, none⟩ ∈ s.servers ∧
      ∀ remote ∈ remotes, bridge config client remote ∈ s.tools.rows) ∨
    (∃ e, ⟨config.name, false, [], some e⟩ ∈ s.servers) ∧
      (¬ (bridgedNames config remotes).Nodup ∨
        ∃ other ∈ s.servers, other.connected = true ∧ other.name ≠ config.name ∧
          ∃ name ∈ bridgedNames config remotes, name ∈ other.tools)

variable {launch : Launch F κ} {done : List ServerConfig} {s : Loading F κ} {config : ServerConfig}

/-- What was said of the servers before stays so when servers and tools are added. -/
theorem Loaded.whole_mono (h : Loaded launch done s) (s' : Loading F κ)
    (hservers : s.servers ⊆ s'.servers) (hrows : s.tools.rows ⊆ s'.tools.rows) :
    ∀ config ∈ done, ∀ client remotes, connect launch config = .ok (client, remotes) →
      (⟨config.name, true, bridgedNames config remotes, none⟩ ∈ s'.servers ∧
        ∀ remote ∈ remotes, bridge config client remote ∈ s'.tools.rows) ∨
      (∃ e, ⟨config.name, false, [], some e⟩ ∈ s'.servers) ∧
        (¬ (bridgedNames config remotes).Nodup ∨
          ∃ other ∈ s'.servers, other.connected = true ∧ other.name ≠ config.name ∧
            ∃ name ∈ bridgedNames config remotes, name ∈ other.tools) := by
  intro config hc client remotes hconnect
  rcases h.whole config hc client remotes hconnect with ⟨hin, hall⟩ | ⟨⟨e, hout⟩, hwhy⟩
  · exact .inl ⟨hservers hin, fun remote hr => hrows (hall remote hr)⟩
  · refine .inr ⟨⟨e, hservers hout⟩, ?_⟩
    rcases hwhy with hown | ⟨other, ho, hrest⟩
    · exact .inl hown
    · exact .inr ⟨other, hservers ho, hrest⟩

/-- **Step.** -/
theorem Loaded.addServer (h : Loaded launch done s)
    (hname : config.name ∉ s.servers.map McpServerStatus.name) :
    Loaded launch (done ++ [config]) (addServer launch s config) := by
  have hnew : ∀ server ∈ s.servers, server.name ≠ config.name := fun server hs e =>
    hname (List.mem_map.mpr ⟨server, hs, e⟩)
  rcases addServer_cases launch s config with
    ⟨client, remotes, tools', hconnect, e, hrows⟩ | ⟨error, e, hwhy⟩
  · rw [e]
    have hbridged : (remotes.map (bridge config client)).map McpTool.bridgeName =
        bridgedNames config remotes := by
      rw [bridgedNames, List.map_map]
      rfl
    have hservers : s.servers ⊆ s.servers ++ [⟨config.name, true, bridgedNames config remotes,
      none⟩] := fun _ hm => List.mem_append_left _ hm
    have hsub : s.tools.rows ⊆ tools'.rows := fun _ hm => hrows ▸ List.mem_append_left _ hm
    refine ⟨?_, fun tool ht => ?_, fun server hs hf => ?_, fun c hc => ?_⟩
    · rw [hrows, List.map_append, hbridged, h.rows, List.flatMap_append, List.flatMap_singleton]
    · rw [hrows, List.mem_append] at ht
      rcases ht with ht | ht
      · obtain ⟨server, hs, hrest⟩ := h.owned tool ht
        exact ⟨server, hservers hs, hrest⟩
      · obtain ⟨remote, hr, rfl⟩ := List.mem_map.mp ht
        exact ⟨_, List.mem_append_right _ List.mem_cons_self, rfl, rfl,
          List.mem_map.mpr ⟨remote, hr, rfl⟩⟩
    · rcases List.mem_append.mp hs with hs | hs
      · exact h.failed server hs hf
      · rw [List.mem_singleton.mp hs] at hf
        cases hf
    · rcases List.mem_append.mp hc with hc | hc
      · exact h.whole_mono ⟨_, s.clients ++ [client], tools'⟩ hservers hsub c hc
      · rw [List.mem_singleton.mp hc]
        intro client' remotes' hconnect'
        rw [hconnect] at hconnect'
        cases hconnect'
        refine .inl ⟨List.mem_append_right _ List.mem_cons_self, fun remote hr => ?_⟩
        rw [hrows]
        exact List.mem_append_right _ (List.mem_map_of_mem hr)
  · rw [e]
    have hservers : s.servers ⊆ s.servers ++ [⟨config.name, false, [], some error⟩] :=
      fun _ hm => List.mem_append_left _ hm
    refine ⟨?_, fun tool ht => ?_, fun server hs hf => ?_, fun c hc => ?_⟩
    · rw [h.rows, List.flatMap_append, List.flatMap_singleton, List.append_nil]
    · obtain ⟨server, hs, hrest⟩ := h.owned tool ht
      exact ⟨server, hservers hs, hrest⟩
    · rcases List.mem_append.mp hs with hs | hs
      · exact h.failed server hs hf
      · rw [List.mem_singleton.mp hs]
    · rcases List.mem_append.mp hc with hc | hc
      · exact h.whole_mono { s with servers := _ } hservers (fun _ hm => hm) c hc
      · rw [List.mem_singleton.mp hc]
        intro client remotes hconnect
        refine .inr ⟨⟨error, List.mem_append_right _ List.mem_cons_self⟩, ?_⟩
        rcases hwhy client remotes hconnect with hown | ⟨name, hn, hold⟩
        · exact .inl hown
        · rw [h.rows, List.mem_flatMap] at hold
          obtain ⟨other, ho, hn'⟩ := hold
          have hconnected : other.connected = true := by
            by_contra hf
            rw [h.failed other ho (Bool.not_eq_true _ ▸ hf)] at hn'
            cases hn'
          exact .inr ⟨other, hservers ho, hconnected, hnew other ho, name, hn, hn'⟩

theorem map_name_addServer (launch : Launch F κ) (s : Loading F κ) (config : ServerConfig) :
    (addServer launch s config).servers.map McpServerStatus.name =
      s.servers.map McpServerStatus.name ++ [config.name] := by
  rcases addServer_cases launch s config with ⟨_, _, _, -, e, -⟩ | ⟨_, e, -⟩
  · rw [e, List.map_append]
    rfl
  · rw [e, List.map_append]
    rfl

/-- **Run.** -/
theorem Loaded.foldl (h : Loaded launch done s) (valid : List ServerConfig)
    (hnd : (s.servers.map McpServerStatus.name ++ valid.map ServerConfig.name).Nodup) :
    Loaded launch (done ++ valid) (valid.foldl (Mcp.addServer launch) s) ∧
      (valid.foldl (Mcp.addServer launch) s).servers.map McpServerStatus.name =
        s.servers.map McpServerStatus.name ++ valid.map ServerConfig.name := by
  induction valid generalizing done s with
  | nil =>
    rw [List.append_nil, List.map_nil, List.append_nil]
    exact ⟨h, rfl⟩
  | cons config valid ih =>
    have hnames := map_name_addServer launch s config
    have hname : config.name ∉ s.servers.map McpServerStatus.name := by
      intro hm
      rw [List.map_cons, List.nodup_append] at hnd
      exact hnd.2.2 _ hm _ List.mem_cons_self rfl
    have hrest : ((Mcp.addServer launch s config).servers.map McpServerStatus.name ++
        valid.map ServerConfig.name).Nodup := by
      rw [hnames, List.append_assoc]
      exact hnd
    obtain ⟨hloaded, hall⟩ := ih (h.addServer hname) hrest
    rw [List.append_assoc] at hloaded
    refine ⟨hloaded, ?_⟩
    rw [List.foldl_cons, hall, hnames, List.append_assoc]
    rfl

theorem name_of_parse {host : Host} {name : String} {value : Document F}
    (h : parseServerConfig host name value = .ok config) : config.name = name := by
  unfold parseServerConfig at h
  cases value with
  | obj fields =>
    simp only [Fallible.bind_eq_ok] at h
    obtain ⟨_, -, _, -, _, -, _, -, _, -, _, -, h⟩ := h
    cases h
    rfl
  | _ => cases h

/-- The entries are distributed over the two lists. -/
theorem parseServers_names (host : Host) (servers : List (String × Document F)) :
    ((parseServers host servers).2.map McpServerStatus.name ++
      (parseServers host servers).1.map ServerConfig.name).Perm (servers.map Prod.fst) := by
  induction servers with
  | nil => exact List.Perm.refl _
  | cons entry servers ih =>
    obtain ⟨name, value⟩ := entry
    rw [parseServers]
    cases hparse : parseServerConfig host name value with
    | ok config =>
      dsimp only
      rw [List.map_cons, name_of_parse hparse]
      exact List.perm_middle.trans (ih.cons name)
    | error e => exact ih.cons name

theorem failed_parseServers (host : Host) (servers : List (String × Document F)) :
    ∀ server ∈ (parseServers host servers).2, server.connected = false ∧ server.tools = [] := by
  induction servers with
  | nil => exact fun _ hm => nomatch hm
  | cons entry servers ih =>
    obtain ⟨name, value⟩ := entry
    rw [parseServers]
    cases parseServerConfig host name value with
    | ok config => exact ih
    | error e =>
      intro server hs
      rcases List.mem_cons.mp hs with rfl | hs
      · exact ⟨rfl, rfl⟩
      · exact ih server hs

/-- The loop leaves the servers isolated, in whatever order they are shown. -/
theorem Loaded.isolated {valid : List ServerConfig} {m : McpManager F κ}
    (h : Loaded launch valid s) (hnames : (s.servers.map McpServerStatus.name).Nodup)
    (hservers : m.status.servers.Perm s.servers) (htools : m.tools = s.tools) :
    Isolated launch valid m := by
  have hdisjoint : s.servers.Pairwise fun left right => left.tools.Disjoint right.tools := by
    have hnd := s.tools.nodup
    rw [h.rows, List.nodup_flatMap] at hnd
    exact hnd.2
  have hmem : ∀ server, server ∈ m.status.servers ↔ server ∈ s.servers := fun server =>
    hservers.mem_iff
  have hone : ∀ left ∈ s.servers, ∀ right ∈ s.servers, left.name = right.name → left = right :=
    fun left hl right hr e => List.inj_on_of_nodup_map hnames hl hr e
  have hsame : ∀ left ∈ s.servers, ∀ right ∈ s.servers, ∀ name ∈ left.tools, name ∈ right.tools →
      right = left := by
    intro left hl right hr name hn hn'
    by_contra hne
    have hsymm : Std.Symm fun left right : McpServerStatus => left.tools.Disjoint right.tools :=
      ⟨fun _ _ hd => List.Disjoint.symm hd⟩
    exact hdisjoint.forall hr hl hne hn' hn
  refine ⟨fun name => ?_, fun tool ht => ?_, ?_, fun server hs hf => ⟨?_, fun tool ht e => ?_⟩, ?_⟩
  · have hkey : (m.tools.find? name).isSome = true ↔ name ∈ s.tools.rows.map McpTool.bridgeName := by
      rw [htools, Option.isSome_iff_exists, List.mem_map]
      exact exists_congr fun tool => Table.find?_eq_some_iff
    rw [hkey, h.rows, List.mem_flatMap]
    constructor
    · rintro ⟨server, hs, hn⟩
      refine ⟨server, (hmem server).mpr hs, ?_, hn⟩
      by_contra hf
      rw [h.failed server hs (Bool.not_eq_true _ ▸ hf)] at hn
      cases hn
    · rintro ⟨server, hs, -, hn⟩
      exact ⟨server, (hmem server).mp hs, hn⟩
  · rw [htools] at ht
    obtain ⟨server, hs, hconnected, hname, hin⟩ := h.owned tool ht
    refine ⟨server, (hmem server).mpr hs, hconnected, hname, hin, fun other ho hin' => ?_⟩
    exact hsame server hs other ((hmem other).mp ho) _ hin hin'
  · exact (hservers.pairwise_iff fun hd => List.Disjoint.symm hd).mpr hdisjoint
  · exact h.failed server ((hmem server).mp hs) hf
  · rw [htools] at ht
    obtain ⟨owner, ho, hconnected, hname, -⟩ := h.owned tool ht
    rw [hone owner ho server ((hmem server).mp hs) (hname.trans e), hf] at hconnected
    cases hconnected
  · intro config hc client remotes hconnect
    rcases h.whole config hc client remotes hconnect with ⟨hin, hall⟩ | ⟨⟨e, hout⟩, hwhy⟩
    · exact .inl ⟨(hmem _).mpr hin, htools ▸ hall⟩
    · refine .inr ⟨⟨e, (hmem _).mpr hout⟩, ?_⟩
      rcases hwhy with hown | ⟨other, ho, hrest⟩
      · exact .inl hown
      · exact .inr ⟨other, (hmem other).mpr ho, hrest⟩

/-- Without servers there is nothing to isolate. -/
theorem isolated_nil (launch : Launch F κ) (m : McpManager F κ) (hservers : m.status.servers = [])
    (htools : m.tools = .empty) : Isolated launch [] m := by
  have hstart : Loaded launch [] (⟨[], [], .empty⟩ : Loading F κ) :=
    ⟨rfl, fun _ hm => (nomatch hm), fun _ hm => (nomatch hm), fun _ hm => (nomatch hm)⟩
  exact hstart.isolated List.nodup_nil (hservers ▸ List.Perm.refl _) htools

/-- **Isolation.** After a reload from any file, with any servers. An object of `serde_json` has no
name twice. -/
theorem reload_isolated (launch : Launch F κ) (host : Host)
    (fromSlice : List UInt8 → Except String (Document F))
    (file : Option (Except String (List UInt8)))
    (hkeys : ∀ bytes root servers, fromSlice bytes = .ok root →
      root.get? "mcpServers" = some (.obj servers) → (servers.map Prod.fst).Nodup) :
    Isolated launch (loadConfig host fromSlice file).valid
      (reload launch (loadConfig host fromSlice file)) := by
  unfold loadConfig
  split
  · exact isolated_nil launch _ rfl rfl
  · exact isolated_nil launch _ rfl rfl
  rename_i bytes
  dsimp only
  split
  · exact isolated_nil launch _ rfl rfl
  rename_i root hroot
  split
  · rename_i servers hservers
    have hperm := parseServers_names host servers
    have hnd := hperm.nodup_iff.mpr (hkeys bytes root servers hroot hservers)
    have hinvalid := failed_parseServers host servers
    have hstart : Loaded launch [] (⟨(parseServers host servers).2, [], .empty⟩ : Loading F κ) := by
      refine ⟨?_, fun _ hm => (nomatch hm), fun server hs _ => (hinvalid server hs).2,
        fun _ hm => (nomatch hm)⟩
      exact (List.flatMap_eq_nil_iff.mpr fun server hs => (hinvalid server hs).2).symm
    obtain ⟨hloaded, hnames⟩ := hstart.foldl (parseServers host servers).1 hnd
    refine hloaded.isolated ?_ (List.mergeSort_perm _ _) rfl
    rw [hnames]
    exact hnd
  · exact isolated_nil launch _ rfl rfl

/-! ### Three servers -/

def threeServers : Document Unit :=
  .obj [("mcpServers", .obj [("docs", .obj [("command", .str "docs-server")]),
    ("files", .obj [("command", .str "file-server")]), ("old", .int 7)])]

def threeServersText : String := "\x7b\"mcpServers\":\x7b\"docs\":\x7b\"command\":\"docs-server\"\x7d," ++
  "\"files\":\x7b\"command\":\"file-server\"\x7d,\"old\":7\x7d\x7d"

/-- `serde_json`, as far as it goes with this file. -/
def readThreeServers (bytes : List UInt8) : Except String (Document Unit) :=
  if bytes = utf8 threeServersText.toList then .ok threeServers else .error "expected value"

def emptyHost : Host := ⟨[], fun _ => .error "environment variable not found", fun _ => .ok []⟩

/-- The first server lists two tools with one bridged name. -/
def launchThree : Launch Unit Nat := fun config =>
  let initialized : Document Unit := .obj [("protocolVersion", .str "2024-11-05")]
  let tool (name : String) : Document Unit := .obj [("name", .str name)]
  if config.name = "docs" then
    .ok (0, initialized, .obj [("tools", .arr [tool "find page", tool "read file", tool "read-file"])])
  else .ok (1, initialized, .obj [("tools", .arr [tool "read file"])])

example : ((reload launchThree (loadConfig emptyHost readThreeServers
    (some (.ok (utf8 threeServersText.toList))))).tools.rows.map McpTool.bridgeName) =
      ["mcp__files__read_file"] := by decide +kernel

theorem reload_isolated_three : Isolated launchThree
    (loadConfig emptyHost readThreeServers (some (.ok (utf8 threeServersText.toList)))).valid
    (reload launchThree (loadConfig emptyHost readThreeServers
      (some (.ok (utf8 threeServersText.toList))))) := by
  refine reload_isolated launchThree emptyHost readThreeServers
    (some (.ok (utf8 threeServersText.toList))) ?_
  intro bytes root servers hroot hservers
  unfold readThreeServers at hroot
  split at hroot
  · cases hroot
    cases hservers
    decide
  · cases hroot

end AgentDaemon.Mcp
