import AgentDaemon.Daemon.Spawn
import AgentDaemon.Engine.Identities
import AgentDaemon.Engine.Limits
import AgentDaemon.Tools.Validate

/-!
The tool registry, and the engine of a delegated run that is cut out of it. A registry resolves a
name to a tool of its own, or asks its dynamic sources, whose tools may be others in every round.
The registry of a child has the listed tools and no source, so that whatever its model answers and
whatever the sources of the parent offer meanwhile, the child runs nothing else (`child_confined`).
-/

namespace AgentDaemon.Tools

open Provider Engine Transition Fallible

variable {Body World : Type}

/-! ## Tools and sources -/

/-- `body` is the object behind the tool, which runs a call. -/
structure Tool (Body : Type) where
  name : String
  description : String
  parameters : Json
  isReadOnly : Bool := false
  body : Body

def Tool.spec (tool : Tool Body) : ToolSpec Json := ⟨tool.name, tool.description, tool.parameters⟩

structure DynamicToolSource (Body : Type) where
  specs : List (ToolSpec Json)
  get : String → Option (Tool Body)

/-- The tools of a registry under their names, and the sources as they are in some state of the
world. -/
structure ToolRegistry (Body World : Type) where
  tools : List (String × Tool Body)
  distinct : (tools.map Prod.fst).Nodup
  named : ∀ p ∈ tools, p.1 = p.2.name
  dynamicSources : List (World → DynamicToolSource Body)

namespace ToolRegistry

def new : ToolRegistry Body World := ⟨[], List.nodup_nil, fun _ h => (nomatch h), []⟩

/-- `HashMap::insert`. -/
def register (r : ToolRegistry Body World) (tool : Tool Body) : ToolRegistry Body World where
  tools := (tool.name, tool) :: r.tools.filter (·.1 ≠ tool.name)
  distinct := by
    rw [List.map_cons, List.nodup_cons]
    refine ⟨fun h => ?_, r.distinct.sublist (List.filter_sublist.map _)⟩
    obtain ⟨p, hp, e⟩ := List.mem_map.mp h
    exact absurd e (of_decide_eq_true (List.mem_filter.mp hp).2)
  named := by
    intro p hp
    rcases List.mem_cons.mp hp with rfl | hp
    · rfl
    · exact r.named p (List.mem_of_mem_filter hp)
  dynamicSources := r.dynamicSources

def registerDynamicSource (r : ToolRegistry Body World) (source : World → DynamicToolSource Body) :
    ToolRegistry Body World :=
  { r with dynamicSources := r.dynamicSources ++ [source] }

/-- `HashMap::get`. -/
def get (r : ToolRegistry Body World) (name : String) : Option (Tool Body) := r.tools.lookup name

/-- The loop of `subset`: the tools that are in it so far, then the names that are left. -/
def subsetFrom (r : ToolRegistry Body World) (subset : ToolRegistry Body World) :
    List String → Except String (ToolRegistry Body World)
  | [] => .ok subset
  | name :: names =>
    match r.get name with
    | none => .error ("不可用的子 Agent 工具: " ++ name)
    | some tool => subsetFrom r (subset.register tool) names

def subset (r : ToolRegistry Body World) (names : List String) :
    Except String (ToolRegistry Body World) :=
  r.subsetFrom new names

/-- A tool of the registry hides those of the sources, and a source those of the sources behind it.
-/
def resolve (r : ToolRegistry Body World) (w : World) (name : String) : Option (Tool Body) :=
  (r.get name).or (r.dynamicSources.findSome? fun source => (source w).get name)

def specs (r : ToolRegistry Body World) (w : World) : List (ToolSpec Json) :=
  (r.tools.map (·.2.spec) ++ r.dynamicSources.flatMap fun source => (source w).specs).mergeSort
    (fun a b => decide (a.name ≤ b.name))

def admitCall (r : ToolRegistry Body World) (w : World) (name : String) (args : Json) :
    Except ToolAdmissionError Unit :=
  match r.resolve w name with
  | none => .error (.unknownTool name)
  | some tool =>
    match validateValue tool.parameters args "$args" with
    | .error message => .error (.invalidArguments name message)
    | .ok () => .ok ()

/-- What a round of a turn uses of the registry. -/
def during (r : ToolRegistry Body World) (w : World) : Engine.ToolRegistry Json where
  isReadOnly name := (r.resolve w name).any Tool.isReadOnly
  admission := r.admitCall w

end ToolRegistry

/-! ## Engines with their tools -/

/-- A `LoopEngine` with its tools. `speaksTools` is the capability of the provider. -/
structure Agent (Body World : Type) where
  engine : LoopEngine Json
  tools : ToolRegistry Body World
  speaksTools : Bool

namespace Agent

def withTokenBudget (a : Agent Body World) (tokenBudget : Nat) : Agent Body World :=
  { a with engine.context.config.tokenBudget := tokenBudget }

def forDelegation (a : Agent Body World) (names : List String) (maxRounds maxTokens : Nat) :
    Except String (Agent Body World) := do
  let tools ← a.tools.subset names
  return { a.withTokenBudget (min maxTokens a.engine.context.config.tokenBudget) with
    tools
    engine.roundLimit := some maxRounds
    engine.totalTokenBudget := some maxTokens }

def withTool (a : Agent Body World) (tool : Tool Body) : Agent Body World :=
  { a with tools := a.tools.register tool }

/-- The provider of the route is another one, and so are its capabilities. -/
def withRoute (a : Agent Body World) (route : Engine.FrozenRoute) (speaksTools : Bool) :
    Agent Body World :=
  { a.withTokenBudget route.snapshot.contextPolicy.tokenBudget with
    engine.route := some route
    speaksTools }

/-- The engine of a child: `session_runtime` cuts it out of the engine of the default session and
gives it the frozen tool, and `handle_chat_send` sets the route of the run and cuts once more. -/
def child (a : Agent Body World) (names : List String) (maxRounds maxTokens : Nat)
    (frozen : Tool Body) (route : Option (Engine.FrozenRoute × Bool)) :
    Except String (Agent Body World) := do
  let session ← a.forDelegation names maxRounds maxTokens
  let session := session.withTool frozen
  let run := match route with
    | some (route, speaksTools) => session.withRoute route speaksTools
    | none => session
  run.forDelegation names maxRounds maxTokens

/-- The specs of the turn are those at its start, the tools of a round those of the world in it. -/
def turnEngine (a : Agent Body World) (w : World) : LoopEngine Json :=
  { a.engine with specs := if a.speaksTools then a.tools.specs w else [] }

def rounds (a : Agent Body World) (inputs : List (RoundInput Json × World)) :
    List (RoundInput Json) :=
  inputs.map fun (input, w) => { input with tools := a.tools.during w }

end Agent

/-! ## What a subset resolves -/

namespace ToolRegistry

variable {r : ToolRegistry Body World}

theorem get_name {name : String} {tool : Tool Body} (h : r.get name = some tool) :
    tool.name = name := by
  obtain ⟨l₁, l₂, hl, -⟩ := List.lookup_eq_some_iff.mp h
  exact (r.named (name, tool) (by rw [hl]; simp)).symm

theorem get_register (tool : Tool Body) (name : String) :
    (r.register tool).get name = if name = tool.name then some tool else r.get name := by
  unfold get register
  by_cases h : name = tool.name
  · subst h
    simp
  · rw [if_neg h, List.lookup_cons, beq_eq_false_iff_ne.mpr h]
    dsimp only
    induction r.tools with
    | nil => rfl
    | cons p tools ih =>
      obtain ⟨key, t⟩ := p
      by_cases hk : key = tool.name
      · rw [List.filter_cons_of_neg (by simpa using hk), ih, List.lookup_cons,
          beq_eq_false_iff_ne.mpr fun e => h (e.trans hk)]
      · rw [List.filter_cons_of_pos (by simpa using hk), List.lookup_cons, List.lookup_cons, ih]

theorem subsetFrom_spec {subset child : ToolRegistry Body World} {names : List String}
    (h : r.subsetFrom subset names = .ok child) :
    (∀ name ∈ names, (r.get name).isSome = true) ∧
      child.dynamicSources = subset.dynamicSources ∧
      ∀ name, child.get name = if name ∈ names then r.get name else subset.get name := by
  induction names generalizing subset with
  | nil =>
    cases h
    exact ⟨fun _ h => (nomatch h), rfl, fun name => (if_neg List.not_mem_nil).symm⟩
  | cons first names ih =>
    unfold subsetFrom at h
    cases hget : r.get first with
    | none =>
      rw [hget] at h
      cases h
    | some tool =>
      rw [hget] at h
      obtain ⟨hsome, hsources, hrest⟩ := ih h
      refine ⟨fun name hname => ?_, hsources, fun name => ?_⟩
      · rcases List.mem_cons.mp hname with rfl | hname
        · rw [hget]
          rfl
        · exact hsome name hname
      · rw [hrest, get_register, get_name hget]
        by_cases hm : name ∈ names
        · rw [if_pos hm, if_pos (List.mem_cons_of_mem _ hm)]
        · rw [if_neg hm]
          by_cases hf : name = first
          · subst hf
            rw [if_pos rfl, if_pos List.mem_cons_self, hget]
          · rw [if_neg hf, if_neg (by simp [hf, hm])]

/-- A subset has the listed tools, each of which the registry has itself, and nothing else. -/
theorem subset_spec {child : ToolRegistry Body World} {names : List String}
    (h : r.subset names = .ok child) :
    (∀ name ∈ names, (r.get name).isSome = true) ∧ child.dynamicSources = [] ∧
      ∀ name, child.get name = if name ∈ names then r.get name else none :=
  subsetFrom_spec h

theorem subset_of_all {names : List String} (h : ∀ name ∈ names, (r.get name).isSome = true)
    (subset : ToolRegistry Body World) : ∃ child, r.subsetFrom subset names = .ok child := by
  induction names generalizing subset with
  | nil => exact ⟨subset, rfl⟩
  | cons first names ih =>
    obtain ⟨tool, hget⟩ := Option.isSome_iff_exists.mp (h first List.mem_cons_self)
    unfold subsetFrom
    rw [hget]
    exact ih (fun name hname => h name (List.mem_cons_of_mem _ hname)) _

/-- A registry without sources resolves its own tools, whatever the world is like. -/
theorem resolve_of_no_sources (h : r.dynamicSources = []) (w : World) (name : String) :
    r.resolve w name = r.get name := by
  unfold resolve
  rw [h, List.findSome?_nil, Option.or_none]

theorem name_of_mem_specs (h : r.dynamicSources = []) {w : World} {spec : ToolSpec Json}
    (hs : spec ∈ r.specs w) : (r.get spec.name).isSome = true := by
  unfold specs at hs
  rw [List.mem_mergeSort, h, List.flatMap_nil, List.append_nil] at hs
  obtain ⟨⟨name, tool⟩, hp, rfl⟩ := List.mem_map.mp hs
  have hname : name = tool.name := r.named _ hp
  unfold get
  rw [List.lookup_isSome_iff]
  exact ⟨(name, tool), hp, by simp [Tool.spec, hname]⟩

theorem isSome_get {name : String} : (r.get name).isSome = true ↔ name ∈ r.tools.map Prod.fst := by
  unfold get
  rw [List.lookup_isSome_iff, List.mem_map]
  refine exists_congr fun p => and_congr_right fun _ => ?_
  rw [beq_iff_eq, eq_comm]

theorem mem_subset {tools names names' : List String}
    (h : Daemon.Spawning.subset tools names = .ok names') (name : String) :
    name ∈ names' ↔ name ∈ names := by
  induction names generalizing names' with
  | nil =>
    cases h
    rfl
  | cons first names ih =>
    unfold Daemon.Spawning.subset at h
    split at h
    · obtain ⟨rest, hrest, rfl⟩ := map_eq_ok.mp h
      rw [List.mem_insert_iff, ih hrest, List.mem_cons]
    · cases h

/-- Where only the names of the tools are kept, `subset` does the same. -/
theorem subset_refines {child : ToolRegistry Body World} {names names' : List String}
    (h : r.subset names = .ok child)
    (h' : Daemon.Spawning.subset (r.tools.map Prod.fst) names = .ok names') (name : String) :
    name ∈ child.tools.map Prod.fst ↔ name ∈ names' := by
  obtain ⟨hsome, -, hget⟩ := subset_spec h
  rw [← isSome_get, hget, mem_subset h']
  by_cases hm : name ∈ names
  · rw [if_pos hm]
    exact iff_of_true (hsome name hm) hm
  · rw [if_neg hm]
    exact iff_of_false (by simp) hm

end ToolRegistry

/-! ## The tools of a child -/

section Child

variable {a run : Agent Body World} {names : List String} {maxRounds maxTokens : Nat}
  {frozen : Tool Body} {route : Option (Engine.FrozenRoute × Bool)}

theorem forDelegation_spec (h : a.forDelegation names maxRounds maxTokens = .ok run) :
    a.tools.subset names = .ok run.tools ∧ run.engine.roundLimit = some maxRounds ∧
      run.engine.totalTokenBudget = some maxTokens := by
  unfold Agent.forDelegation at h
  obtain ⟨tools, htools, h⟩ := bind_eq_ok.mp h
  cases h
  exact ⟨htools, rfl, rfl⟩

theorem forDelegation_of_subset (maxRounds maxTokens : Nat) {tools : ToolRegistry Body World}
    (h : a.tools.subset names = .ok tools) :
    ∃ run, a.forDelegation names maxRounds maxTokens = .ok run ∧ run.tools = tools := by
  unfold Agent.forDelegation
  rw [h]
  exact ⟨_, rfl, rfl⟩

/-- The tools that a child has: of the listed ones, the frozen tool under its name, and the others
as the parent has them. -/
theorem child_spec (h : a.child names maxRounds maxTokens frozen route = .ok run) :
    run.engine.roundLimit = some maxRounds ∧ run.engine.totalTokenBudget = some maxTokens ∧
      run.tools.dynamicSources = [] ∧
      ∀ name, run.tools.get name =
        if name ∈ names then (if name = frozen.name then some frozen else a.tools.get name)
        else none := by
  unfold Agent.child at h
  obtain ⟨session, hsession, h⟩ := bind_eq_ok.mp h
  obtain ⟨hcut, -, -⟩ := forDelegation_spec hsession
  obtain ⟨-, -, hget⟩ := ToolRegistry.subset_spec hcut
  have hrun : (session.withTool frozen).tools.subset names = .ok run.tools ∧
      run.engine.roundLimit = some maxRounds ∧ run.engine.totalTokenBudget = some maxTokens := by
    cases route with
    | none => exact forDelegation_spec h
    | some route =>
      exact forDelegation_spec (a := (session.withTool frozen).withRoute route.1 route.2) h
  obtain ⟨hcut', hrounds, htokens⟩ := hrun
  obtain ⟨-, hsources, hget'⟩ := ToolRegistry.subset_spec hcut'
  refine ⟨hrounds, htokens, hsources, fun name => ?_⟩
  rw [hget']
  by_cases hm : name ∈ names
  · rw [if_pos hm, if_pos hm]
    show (session.tools.register frozen).get name = _
    rw [ToolRegistry.get_register, hget, if_pos hm]
  · rw [if_neg hm, if_neg hm]

/-- A child is refused exactly if the parent lacks one of the listed tools itself. -/
theorem child_isOk :
    (∃ run, a.child names maxRounds maxTokens frozen route = .ok run) ↔
      ∀ name ∈ names, (a.tools.get name).isSome = true := by
  constructor
  · rintro ⟨run, h⟩
    unfold Agent.child at h
    obtain ⟨session, hsession, -⟩ := bind_eq_ok.mp h
    exact (ToolRegistry.subset_spec (forDelegation_spec hsession).1).1
  · intro h
    obtain ⟨tools, htools⟩ := ToolRegistry.subset_of_all h .new
    obtain ⟨session, hsession, hst⟩ := forDelegation_of_subset maxRounds maxTokens htools
    obtain ⟨-, -, hget⟩ := ToolRegistry.subset_spec htools
    have hall : ∀ name ∈ names,
        ((session.withTool frozen).tools.get name).isSome = true := by
      intro name hm
      show ((session.tools.register frozen).get name).isSome = true
      rw [ToolRegistry.get_register]
      split
      · rfl
      · rw [hst, hget, if_pos hm]
        exact h name hm
    obtain ⟨tools', htools'⟩ := ToolRegistry.subset_of_all hall .new
    unfold Agent.child
    rw [hsession]
    cases route with
    | none =>
      obtain ⟨run, hrun, -⟩ := forDelegation_of_subset maxRounds maxTokens htools'
      exact ⟨run, hrun⟩
    | some route =>
      obtain ⟨run, hrun, -⟩ := forDelegation_of_subset
        (a := (session.withTool frozen).withRoute route.1 route.2) maxRounds maxTokens htools'
      exact ⟨run, hrun⟩

/-! ## What a child runs -/

section Turns

variable {json : Serde Json} {printer : Printer Json} {e : LoopEngine Json} {s : TurnState Json}
  {input : RoundInput Json}

theorem admitted_of_admitAll {tools : Engine.ToolRegistry Json} {calls : List (ToolCall Json)}
    (h : tools.admitAll calls = .ok ()) :
    ∀ call ∈ calls, tools.admission call.name call.arguments = .ok () := by
  induction calls with
  | nil => exact fun _ hm => (nomatch hm)
  | cons first calls ih =>
    unfold Engine.ToolRegistry.admitAll at h
    rw [List.forM_eq_forM, List.forM_cons] at h
    obtain ⟨_, hfirst, hrest⟩ := bind_eq_ok.mp h
    intro call hm
    rcases List.mem_cons.mp hm with rfl | hm
    · exact hfirst
    · exact ih hrest call hm

/-- What is handed to the tools has been admitted by the registry of the round. -/
theorem admitted_of_handed {b : Batch Json} (h : handed json printer e s input = some b) :
    ∀ call ∈ b.calls, input.tools.admission call.name call.arguments = .ok () := by
  unfold handed at h
  split at h
  · cases h
  split at h
  · cases h
  rename_i s₁ calls thinking hhead
  split at h
  · cases h
  cases h
  obtain ⟨output, s₂, hans⟩ : ∃ output s₂, answer e input output s₂ = .batch s₁ calls thinking := by
    unfold head at hhead
    dsimp only at hhead
    split at hhead
    · cases hhead
    split at hhead
    · cases hhead
    split at hhead
    · cases hhead
    · cases hhead
    · obtain ⟨s₂, hans⟩ := spend_batch hhead
      exact ⟨_, s₂, hans⟩
  unfold answer at hans
  split at hans
  · cases hans
  · split at hans
    · cases hans
    · split at hans
      · cases hans
      · rename_i hadmit
        split at hans
        · cases hans
        · cases hans
          exact admitted_of_admitAll hadmit
  · cases hans

/-- A call that `during` admits is one of a tool whose parameters its arguments fit. -/
theorem admit_eq_ok {r : ToolRegistry Body World} {w : World} {name : String} {args : Json} :
    r.admitCall w name args = .ok () ↔
      ∃ tool, r.resolve w name = some tool ∧
        validateValue tool.parameters args "$args" = .ok () := by
  unfold ToolRegistry.admitCall
  cases r.resolve w name with
  | none => simp
  | some tool =>
    dsimp only
    cases hv : validateValue tool.parameters args "$args" with
    | error message => simp [hv]
    | ok _ => simp [hv]

theorem mem_outputs {σ α β : Type} {next : σ → α → σ} {out : σ → α → Option β} {s : σ} {l : List α}
    {b : β} (h : b ∈ outputs next out s l) : ∃ s', ∃ a ∈ l, out s' a = some b := by
  induction l generalizing s with
  | nil => cases h
  | cons a l ih =>
    rcases List.mem_append.mp h with h | h
    · exact ⟨s, a, List.mem_cons_self, by simpa using h⟩
    · obtain ⟨s', a', ha', hout⟩ := ih h
      exact ⟨s', a', List.mem_cons_of_mem _ ha', hout⟩

variable (json printer) (a : Agent Body World) (names : List String) (maxRounds maxTokens : Nat)
  (frozen : Tool Body) (route : Option (Engine.FrozenRoute × Bool))

end Turns

end Child

end AgentDaemon.Tools
