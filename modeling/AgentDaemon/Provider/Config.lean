import AgentDaemon.Lib.Text
import AgentDaemon.Provider.Attempt
import Mathlib.Data.List.Nodup

/-!
The configuration file of the model connections: its profiles, the active one and the fallbacks,
the changes that `models.use` and `models.save` make to it, and the fallbacks that the provider
manager takes from it.
-/

namespace AgentDaemon.Provider

structure ProviderProfile where
  id : String
  name : String
  apiType : ApiType
  apiKey : Option String
  baseUrl : String
  model : String
  deriving DecidableEq, Repr

structure ConfigFile where
  activeProfile : Option String := none
  profiles : List ProviderProfile := []
  fallbackProfileIds : List String := []
  deriving DecidableEq, Repr

/-- What the profiles are checked against: `Url::parse`, which gives the scheme, and the value of
`OLLAMA_TOOLS_ENABLED`. -/
structure Environment where
  urlScheme : String → Except String String
  ollamaTools : Except String Bool

/-! ## Profiles -/

section Profiles

variable (env : Environment)

def ProviderProfile.validate (p : ProviderProfile) : Except String Unit :=
  if blank p.id then .error "模型配置 ID 不能为空"
  else if blank p.model then .error "模型名称不能为空"
  else if p.apiType ≠ .ollama ∧ p.apiKey.all blank then
    .error (p.apiType.asStr ++ " 配置需要 API key")
  else if blank p.baseUrl then .error "服务地址不能为空"
  else
    match env.urlScheme p.baseUrl with
    | .error error => .error ("服务地址不是合法 URL：" ++ p.baseUrl ++ ": " ++ error)
    | .ok scheme =>
      if scheme = "http" ∨ scheme = "https" then .ok ()
      else .error "服务地址必须使用 http:// 或 https://"

/-- `build_provider_from_profile`. -/
def ProviderProfile.build (p : ProviderProfile) : Except String Unit :=
  match p.validate env with
  | .error error => .error error
  | .ok () =>
    match p.apiType with
    | .ollama => env.ollamaTools.map fun _ => ()
    | _ => .ok ()

def normalizeProfileId (id name model : String) : String :=
  let source := if blank id then if blank name then model else name else id
  let normalized := (trim source).toList.map fun c => if c.isAlphanum then c.toLower else '-'
  let normalized := trimMatches (· = '-') normalized
  if normalized.isEmpty then "model" else .ofList normalized

/-- The profile as `upsert` takes it. -/
def ProviderProfile.normalize (p : ProviderProfile) : ProviderProfile :=
  let id := normalizeProfileId p.id p.name p.model
  { p with
    id
    name := if blank p.name then id else trim p.name
    baseUrl := .ofList (trimEndMatches (· = '/') p.baseUrl.toList) }

end Profiles

/-! ## Changes -/

namespace ConfigFile

variable (env : Environment) (config : ConfigFile)

def find? (id : String) : Option ProviderProfile := config.profiles.find? fun p => p.id = id

/-- The profile that is stored as active. -/
def active? : Option ProviderProfile := config.activeProfile.bind config.find?

/-- The profiles of the fallback ids. -/
def fallbackProfiles : List ProviderProfile := config.fallbackProfileIds.filterMap config.find?

/-- The first of these profiles that is not valid. -/
def checkProfiles : List ProviderProfile → Except String Unit
  | [] => .ok ()
  | p :: ps =>
    match p.validate env with
    | .error error => .error error
    | .ok () => checkProfiles ps

/-- What `save` checks before it writes. -/
def check : Except String Unit :=
  match checkProfiles env config.profiles with
  | .error error => .error error
  | .ok () =>
    match config.activeProfile.filter fun id => (config.find? id).isNone with
    | some id => .error ("活动模型配置不存在：" ++ id)
    | none =>
      match config.fallbackProfileIds.find? fun id => (config.find? id).isNone with
      | some id => .error ("备用模型配置不存在：" ++ id)
      | none => .ok ()

def checked : Except String ConfigFile := (config.check env).map fun _ => config

/-- `activate`, until it writes. -/
def activate (id : String) : Except String ConfigFile :=
  match config.find? id with
  | none => .error ("不存在模型配置：" ++ id)
  | some _ => { config with activeProfile := some id }.checked env

/-- A profile without a key keeps the one that is stored. -/
def keepKey (p : ProviderProfile) : ProviderProfile :=
  match config.find? p.id with
  | some existing => if p.apiKey.isNone then { p with apiKey := existing.apiKey } else p
  | none => p

/-- The first profile of this id is replaced; a new one comes last. -/
def put (p : ProviderProfile) : List ProviderProfile → List ProviderProfile
  | [] => [p]
  | q :: qs => if q.id = p.id then p :: qs else q :: put p qs

/-- `upsert`, until it writes. -/
def upsert (profile : ProviderProfile) (activate : Bool) : Except String ConfigFile :=
  let profile := config.keepKey profile.normalize
  match profile.validate env with
  | .error error => .error error
  | .ok () =>
    { config with
      profiles := put profile config.profiles
      activeProfile := if activate ∨ config.activeProfile.isNone then some profile.id
        else config.activeProfile }.checked env

/-! ### What a change leaves -/

variable {env config}

theorem id_of_find? {id : String} {p : ProviderProfile} (h : config.find? id = some p) :
    p.id = id := by
  have hp := List.find?_some h
  exact of_decide_eq_true hp

theorem mem_of_find? {id : String} {p : ProviderProfile} (h : config.find? id = some p) :
    p ∈ config.profiles := List.mem_of_find?_eq_some h

theorem checked_eq_ok {c : ConfigFile} (h : config.checked env = .ok c) :
    c = config ∧ config.check env = .ok () := by
  rw [checked] at h
  rcases hcheck : config.check env with error | _
  · rw [hcheck] at h
    cases h
  · rw [hcheck] at h
    cases h
    exact ⟨rfl, rfl⟩

/-- In a configuration that was checked, the active id and the fallback ids have profiles. -/
theorem found_of_check (h : config.check env = .ok ()) :
    (∀ id ∈ config.activeProfile, (config.find? id).isSome) ∧
      ∀ id ∈ config.fallbackProfileIds, (config.find? id).isSome := by
  unfold check at h
  split at h
  · cases h
  split at h
  · cases h
  rename_i hactive
  split at h
  · cases h
  rename_i hfallbacks
  constructor
  · intro id hid
    have hnone := Option.filter_eq_none_iff.mp hactive id hid
    simpa [Option.isSome_iff_ne_none] using hnone
  · intro id hid
    have hnone := List.find?_eq_none.mp hfallbacks id hid
    simpa [Option.isSome_iff_ne_none] using hnone

/-- The fallback ids of a configuration that was checked all have profiles. -/
theorem map_fallbackProfiles (h : config.check env = .ok ()) :
    config.fallbackProfiles.map ProviderProfile.id = config.fallbackProfileIds := by
  have hfound := (found_of_check h).2
  unfold fallbackProfiles
  generalize config.fallbackProfileIds = ids at hfound
  induction ids with
  | nil => rfl
  | cons id ids ih =>
    obtain ⟨p, hp⟩ := Option.isSome_iff_exists.mp (hfound id List.mem_cons_self)
    rw [List.filterMap_cons, hp, List.map_cons, id_of_find? hp,
      ih fun id' hid' => hfound id' (List.mem_cons_of_mem _ hid')]

theorem find?_put (p : ProviderProfile) (id : String) (ps : List ProviderProfile) :
    (put p ps).find? (fun q => q.id = id) =
      if p.id = id then some p else ps.find? fun q => q.id = id := by
  induction ps with
  | nil =>
    by_cases h : p.id = id
    · simp [put, h]
    · simp [put, h]
  | cons q qs ih =>
    rw [put]
    by_cases hq : q.id = p.id
    · rw [if_pos hq]
      by_cases h : p.id = id
      · simp [h]
      · simp [h, hq]
    · rw [if_neg hq]
      by_cases hqid : q.id = id
      · have hne : ¬ p.id = id := fun h => hq (hqid.trans h.symm)
        simp [hqid, hne]
      · simp only [List.find?_cons, hqid, decide_false]
        exact ih

theorem id_keepKey (p : ProviderProfile) : (config.keepKey p).id = p.id := by
  unfold keepKey
  split
  · split <;> rfl
  · rfl

/-- What `models.use` stores. -/
theorem activate_eq_ok {id : String} {c : ConfigFile} (h : config.activate env id = .ok c) :
    c = { config with activeProfile := some id } ∧ c.check env = .ok () := by
  unfold activate at h
  split at h
  · cases h
  · obtain ⟨rfl, hcheck⟩ := checked_eq_ok h
    exact ⟨rfl, hcheck⟩

/-- What `models.save` stores: the profile goes in, the others stay. -/
theorem upsert_eq_ok {profile : ProviderProfile} {activate : Bool} {c : ConfigFile}
    (h : config.upsert env profile activate = .ok c) :
    (∀ id, c.find? id = if (config.keepKey profile.normalize).id = id
        then some (config.keepKey profile.normalize) else config.find? id) ∧
      c.activeProfile.isSome ∧ c.fallbackProfileIds = config.fallbackProfileIds ∧
      c.check env = .ok () := by
  unfold upsert at h
  dsimp only at h
  split at h
  · cases h
  obtain ⟨rfl, hcheck⟩ := checked_eq_ok h
  refine ⟨fun id => find?_put _ id config.profiles, ?_, rfl, hcheck⟩
  dsimp only
  split
  · rfl
  · rename_i hactive
    rw [not_or] at hactive
    simpa [Option.isSome_iff_ne_none] using hactive.2

end ConfigFile

/-! ## Fallbacks -/

/-- The loop of `set_fallbacks`: the active profile and repeats are left out. -/
def selectFallbacks (env : Environment) (activeId : String) (seen : List String) :
    List ProviderProfile → Except String (List ProviderProfile)
  | [] => .ok []
  | p :: ps =>
    if p.id = activeId ∨ p.id ∈ seen then selectFallbacks env activeId seen ps
    else
      match p.build env with
      | .error error => .error error
      | .ok () => (selectFallbacks env activeId (p.id :: seen) ps).map (p :: ·)

/-- The fallbacks are the other profiles, each once and in their order. -/
theorem selectFallbacks_spec {env : Environment} {activeId : String} {seen : List String}
    {ps fallbacks : List ProviderProfile}
    (h : selectFallbacks env activeId seen ps = .ok fallbacks) :
    List.Sublist fallbacks ps ∧ fallbacks.map ProviderProfile.id =
      ((ps.map ProviderProfile.id).filter fun id => id ≠ activeId ∧ id ∉ seen).eraseDups := by
  induction ps generalizing seen fallbacks with
  | nil =>
    cases h
    exact ⟨.refl _, rfl⟩
  | cons p ps ih =>
    rw [selectFallbacks] at h
    rw [List.map_cons, List.filter_cons]
    by_cases hskip : p.id = activeId ∨ p.id ∈ seen
    · rw [if_pos hskip] at h
      obtain ⟨hsub, hids⟩ := ih h
      refine ⟨hsub.cons p, ?_⟩
      rw [if_neg (by simpa [or_iff_not_imp_left] using hskip)]
      exact hids
    · rw [if_neg hskip] at h
      split at h
      · cases h
      · rcases hrest : selectFallbacks env activeId (p.id :: seen) ps with error | rest
        · rw [hrest] at h
          cases h
        · rw [hrest] at h
          cases h
          obtain ⟨hsub, hids⟩ := ih hrest
          refine ⟨hsub.cons_cons p, ?_⟩
          rw [not_or] at hskip
          rw [if_pos (by simpa using hskip), List.eraseDups_cons, List.filter_filter, List.map_cons,
            hids]
          congr 3
          funext id
          simp only [List.mem_cons, not_or]
          grind

end AgentDaemon.Provider
