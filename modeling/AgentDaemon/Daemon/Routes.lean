import AgentDaemon.Daemon.Models

/-!
The routes that the provider manager freezes while `models.use` and `models.save` switch it and set
its fallbacks. A route names the active profile first and no profile twice exactly as long as no
request switches to a profile that is still a fallback, and none sets a fallback that another
request has switched to meanwhile (`frozen_wellFormed_iff`).
-/

namespace AgentDaemon.Provider

/-- `RouteCandidate::from_profile`. `sha256` is the hexadecimal digest of a text. -/
def RouteCandidate.fromProfile (sha256 : String → String) (profile : ProviderProfile) :
    RouteCandidate where
  profileId := profile.id
  apiType := profile.apiType
  model := profile.model
  baseUrlSha256 := sha256 profile.baseUrl

/-- `RetryPolicy::default`. -/
def RetryPolicy.default : RetryPolicy where
  rateLimitRetries := 2
  transportRetries := 2
  serverRetries := 2
  timeoutRetries := 1
  protocolRetries := 0
  maxBackoffMs := 5000

/-- `TimeoutPolicy::default`. -/
def TimeoutPolicy.default : TimeoutPolicy where
  connectMs := 10000
  firstEventMs := 20000
  streamIdleMs := 30000
  overallMs := 300000

/-- Failover along the route starts at the active profile and never comes back to one. -/
structure RouteSnapshot.WellFormed (sha256 : String → String) (active : ProviderProfile)
    (route : RouteSnapshot) : Prop where
  distinct : (route.candidates.map RouteCandidate.profileId).Nodup
  first : route.candidates.head? = some (RouteCandidate.fromProfile sha256 active)

/-- The fallbacks are set if each profile can be built; a repeated id stands for one profile. -/
theorem selectFallbacks_isOk {env : Environment} {activeId : String} {seen : List String}
    {ps : List ProviderProfile} (hbuild : ∀ p ∈ ps, p.id ≠ activeId → p.build env = .ok ()) :
    ∃ fallbacks, selectFallbacks env activeId seen ps = .ok fallbacks := by
  induction ps generalizing seen with
  | nil => exact ⟨[], rfl⟩
  | cons p ps ih =>
    have hrest : ∀ q ∈ ps, q.id ≠ activeId → q.build env = .ok () := fun q hq =>
      hbuild q (List.mem_cons_of_mem _ hq)
    by_cases hskip : p.id = activeId ∨ p.id ∈ seen
    · obtain ⟨fallbacks, h⟩ := @ih seen hrest
      exact ⟨fallbacks, by rw [selectFallbacks, if_pos hskip, h]⟩
    · have hp := hbuild p List.mem_cons_self fun h => hskip (.inl h)
      obtain ⟨fallbacks, h⟩ := @ih (p.id :: seen) hrest
      exact ⟨p :: fallbacks, by rw [selectFallbacks, if_neg hskip, hp]; simp only [h]; rfl⟩

/-- The fallbacks that are set can be built. -/
theorem build_of_selectFallbacks {env : Environment} {activeId : String} {seen : List String}
    {ps fallbacks : List ProviderProfile}
    (h : selectFallbacks env activeId seen ps = .ok fallbacks) :
    ∀ p ∈ fallbacks, p.build env = .ok () := by
  induction ps generalizing seen fallbacks with
  | nil =>
    cases h
    simp
  | cons p ps ih =>
    rw [selectFallbacks] at h
    split at h
    · exact ih h
    · split at h
      · cases h
      · rename_i hp
        rcases hrest : selectFallbacks env activeId (p.id :: seen) ps with error | rest
        · rw [hrest] at h
          cases h
        · rw [hrest] at h
          cases h
          simpa [hp] using ih hrest

theorem mem_ids_of_selectFallbacks {env : Environment} {activeId : String} {seen : List String}
    {ps fallbacks : List ProviderProfile}
    (h : selectFallbacks env activeId seen ps = .ok fallbacks) (id : String) :
    id ∈ fallbacks.map ProviderProfile.id ↔
      id ∈ ps.map ProviderProfile.id ∧ id ≠ activeId ∧ id ∉ seen := by
  rw [(selectFallbacks_spec h).2]
  simp [List.mem_eraseDups]

theorem nodup_of_selectFallbacks {env : Environment} {activeId : String} {seen : List String}
    {ps fallbacks : List ProviderProfile}
    (h : selectFallbacks env activeId seen ps = .ok fallbacks) :
    (fallbacks.map ProviderProfile.id).Nodup := by
  induction ps generalizing seen fallbacks with
  | nil =>
    cases h
    exact .nil
  | cons p ps ih =>
    rw [selectFallbacks] at h
    split at h
    · exact ih h
    · split at h
      · cases h
      · rcases hrest : selectFallbacks env activeId (p.id :: seen) ps with error | rest
        · rw [hrest] at h
          cases h
        · rw [hrest] at h
          cases h
          have hnot : p.id ∉ rest.map ProviderProfile.id := fun hp =>
            ((mem_ids_of_selectFallbacks hrest p.id).mp hp).2.2 List.mem_cons_self
          exact List.nodup_cons.mpr ⟨hnot, ih hrest⟩

/-- The profiles that a configuration has as fallbacks go by their ids. -/
theorem ConfigFile.eq_of_mem_fallbackProfiles {config : ConfigFile} {p q : ProviderProfile}
    (hp : p ∈ config.fallbackProfiles) (hq : q ∈ config.fallbackProfiles) (h : p.id = q.id) :
    p = q := by
  obtain ⟨i, -, hi⟩ := List.mem_filterMap.mp hp
  obtain ⟨j, -, hj⟩ := List.mem_filterMap.mp hq
  have hij : i = j := (id_of_find? hi).symm.trans (h.trans (id_of_find? hj))
  rw [hij] at hi
  exact Option.some.inj (hi.symm.trans hj)

/-- When the fallbacks of a configuration can be set. -/
theorem ConfigFile.selectFallbacks_isOk_iff {env : Environment} {activeId : String}
    {config : ConfigFile} :
    (∃ fallbacks, selectFallbacks env activeId [] config.fallbackProfiles = .ok fallbacks) ↔
      ∀ p ∈ config.fallbackProfiles, p.id ≠ activeId → p.build env = .ok () := by
  constructor
  · rintro ⟨fallbacks, h⟩ p hp hne
    have hid : p.id ∈ fallbacks.map ProviderProfile.id :=
      (mem_ids_of_selectFallbacks h p.id).mpr
        ⟨List.mem_map_of_mem hp, hne, List.not_mem_nil⟩
    obtain ⟨q, hq, hqid⟩ := List.mem_map.mp hid
    have hsub := (selectFallbacks_spec h).1
    rw [eq_of_mem_fallbackProfiles hp (hsub.subset hq) hqid.symm]
    exact build_of_selectFallbacks h q hq
  · exact selectFallbacks_isOk

end AgentDaemon.Provider

namespace AgentDaemon.Daemon

open Provider Transition

/-- The next step of the request changes the provider manager. -/
def ModelPhase.managing : ModelPhase → Bool
  | switching _ | settingFallbacks .. => true
  | _ => false

namespace Models

/-! ## Freezing -/

section Freeze

variable (host : ModelsHost) (sha256 : String → String) (s : Models)

/-- `ProviderManager::freeze`. It holds the lock of the active profile while it reads the
fallbacks, so no switch comes in between. -/
def freeze (tokenBudget : Nat) : RouteSnapshot where
  candidates := (s.current :: s.fallbacks).map (RouteCandidate.fromProfile sha256)
  retryPolicy := .default
  timeoutPolicy := .default
  contextPolicy := ⟨tokenBudget⟩
  configGeneration := s.generation.toNat

/-- The active profile is no fallback. -/
def Apart : Prop := s.current.id ∉ s.fallbacks.map ProviderProfile.id

/-- The fallbacks are apart from each other. -/
def Distinct : Prop := (s.fallbacks.map ProviderProfile.id).Nodup

theorem freeze_wellFormed_iff {s : Models} (h : s.Distinct) (tokenBudget : Nat) :
    (s.freeze sha256 tokenBudget).WellFormed sha256 s.current ↔ s.Apart := by
  have hids : (s.freeze sha256 tokenBudget).candidates.map RouteCandidate.profileId =
      s.current.id :: s.fallbacks.map ProviderProfile.id := by
    simp [freeze, RouteCandidate.fromProfile, Function.comp_def]
  constructor
  · intro hwell
    have hdistinct := hwell.distinct
    rw [hids, List.nodup_cons] at hdistinct
    exact hdistinct.1
  · intro hapart
    refine ⟨?_, rfl⟩
    rw [hids, List.nodup_cons]
    exact ⟨hapart, h⟩

/-- A request does not switch to a profile that is still a fallback, and sets no fallback that the
manager has been switched to since the request read the active id. -/
def TidyIn : ModelPhase → Prop
  | .switching config => ∀ p ∈ config.active?, p.build host.toEnvironment = .ok () →
    p.id ∉ s.fallbacks.map ProviderProfile.id
  | .settingFallbacks _ config activeId =>
    (∀ p ∈ config.fallbackProfiles, p.id ≠ activeId → p.build host.toEnvironment = .ok ()) →
      s.current.id = activeId ∨ s.current.id ∉ config.fallbackProfiles.map ProviderProfile.id
  | _ => True

def Tidy : Event → Prop
  | .call _ => True
  | .step i _ => ∀ call ∈ s.calls[i]?, s.TidyIn host call.phase

instance : (phase : ModelPhase) → Decidable (s.TidyIn host phase)
  | .switching config => inferInstanceAs (Decidable (∀ p ∈ config.active?,
      p.build host.toEnvironment = .ok () → p.id ∉ s.fallbacks.map ProviderProfile.id))
  | .settingFallbacks _ config activeId => inferInstanceAs (Decidable
      ((∀ p ∈ config.fallbackProfiles, p.id ≠ activeId → p.build host.toEnvironment = .ok ()) →
        s.current.id = activeId ∨ s.current.id ∉ config.fallbackProfiles.map ProviderProfile.id))
  | .loading | .opening _ | .writing .. | .permitting _ | .committing _ | .reloading _
  | .readingActive .. | .returned _ | .failed .. => isTrue trivial

instance : (event : Event) → Decidable (s.Tidy host event)
  | .call _ => isTrue trivial
  | .step i _ => inferInstanceAs (Decidable (∀ call ∈ s.calls[i]?, s.TidyIn host call.phase))

end Freeze

/-! ## What a step does to the manager -/

section Steps

variable {host : ModelsHost} {s : Models}

theorem switch_eq (p : ProviderProfile) : s.switch host p =
    (p.build host.toEnvironment).map fun _ =>
      { s with current := p, generation := s.generation + 1 } := by
  rw [Models.switch, ProviderProfile.build]
  rcases p.validate host.toEnvironment with error | _
  · rfl
  · dsimp only
    split <;> rename_i h <;> simp only [h] <;> rfl

/-- A step in the other phases leaves the manager as it is. -/
theorem stepCall_manager (host : ModelsHost) (s : Models) (i : Nat) (request : ModelRequest) (phase : ModelPhase)
    (error : Option String) (h : phase.managing = false) :
    (s.stepCall host i ⟨request, phase⟩ error).current = s.current ∧
      (s.stepCall host i ⟨request, phase⟩ error).fallbacks = s.fallbacks := by
  cases phase with
  | switching config => cases h
  | settingFallbacks profile config activeId => cases h
  | opening config =>
    dsimp only [Models.stepCall, openTemporary]
    cases error with
    | some error => exact ⟨rfl, rfl⟩
    | none => cases s.temporary <;> exact ⟨rfl, rfl⟩
  | _ =>
    dsimp only [Models.stepCall]
    repeat' split
    all_goals exact ⟨rfl, rfl⟩

/-- A step that sets the fallbacks. -/
theorem stepCall_settingFallbacks (host : ModelsHost) (s : Models) (i : Nat) (request : ModelRequest) (profile : ProviderProfile)
    (config : ConfigFile) (activeId : String) (error : Option String) :
    (s.stepCall host i ⟨request, .settingFallbacks profile config activeId⟩ error).current =
        s.current ∧
      (s.stepCall host i ⟨request, .settingFallbacks profile config activeId⟩ error).fallbacks =
        (selectFallbacks host.toEnvironment activeId [] config.fallbackProfiles).toOption.getD
          s.fallbacks := by
  simp only [Models.stepCall, setFallbacks]
  rcases selectFallbacks host.toEnvironment activeId [] config.fallbackProfiles with error | fallbacks
  · exact ⟨rfl, rfl⟩
  · exact ⟨rfl, rfl⟩

/-- A step that switches the manager. -/
theorem stepCall_switching (host : ModelsHost) (s : Models) (i : Nat) (request : ModelRequest) (config : ConfigFile)
    (error : Option String) :
    (s.stepCall host i ⟨request, .switching config⟩ error).fallbacks = s.fallbacks ∧
      (s.stepCall host i ⟨request, .switching config⟩ error).current =
        (config.active?.filter fun p => (p.build host.toEnvironment).isOk).getD s.current := by
  simp only [Models.stepCall]
  cases config.active? with
  | none => exact ⟨rfl, rfl⟩
  | some p =>
    dsimp only
    rw [switch_eq]
    rcases hbuild : p.build host.toEnvironment with error | _
    · simp [Except.map, setPhase, Option.filter, hbuild, Except.isOk, Except.toBool]
    · cases request <;>
        simp [Except.map, setPhase, Option.filter, hbuild, Except.isOk, Except.toBool]

theorem Distinct.stepCall (h : s.Distinct) (i : Nat) (call : ModelCall) (error : Option String) :
    (s.stepCall host i call error).Distinct := by
  obtain ⟨request, phase⟩ := call
  have hmanager := stepCall_manager host s i request phase error
  unfold Distinct
  cases phase with
  | switching config =>
    rw [(stepCall_switching host s i request config error).1]
    exact h
  | settingFallbacks profile config activeId =>
    rw [(stepCall_settingFallbacks host s i request profile config activeId error).2]
    rcases hset : selectFallbacks host.toEnvironment activeId [] config.fallbackProfiles with
      error | fallbacks
    · exact h
    · exact nodup_of_selectFallbacks hset
  | _ =>
    rw [(hmanager rfl).2]
    exact h

/-- An untidy step is one after which the active profile is a fallback. -/
theorem Apart.stepCall_iff (h : s.Apart) (i : Nat) (call : ModelCall) (error : Option String) :
    (s.stepCall host i call error).Apart ↔ s.TidyIn host call.phase := by
  obtain ⟨request, phase⟩ := call
  have hmanager := stepCall_manager host s i request phase error
  unfold Apart
  cases phase with
  | switching config =>
    obtain ⟨hfallbacks, hcurrent⟩ := stepCall_switching host s i request config error
    rw [hfallbacks, hcurrent, TidyIn]
    cases config.active? with
    | none => simpa [Apart] using h
    | some p =>
      rcases hbuild : p.build host.toEnvironment with error | _
      · simpa [Apart, Option.filter, hbuild, Except.isOk, Except.toBool] using h
      · simp [Option.filter, hbuild, Except.isOk, Except.toBool]
  | settingFallbacks profile config activeId =>
    obtain ⟨hcurrent, hfallbacks⟩ :=
      stepCall_settingFallbacks host s i request profile config activeId error
    rw [hfallbacks, hcurrent, TidyIn, ← ConfigFile.selectFallbacks_isOk_iff]
    rcases hset : selectFallbacks host.toEnvironment activeId [] config.fallbackProfiles with
      error | fallbacks
    · exact iff_of_true h fun ⟨fallbacks, hok⟩ => nomatch hok
    · have hmem := mem_ids_of_selectFallbacks hset s.current.id
      simp only [Except.toOption, Option.getD_some, hmem, List.not_mem_nil, not_false_eq_true,
        and_true, Except.ok.injEq, exists_eq', true_imp_iff, not_and_or, not_not]
      exact or_comm
  | _ =>
    obtain ⟨hcurrent, hfallbacks⟩ := hmanager rfl
    rw [hfallbacks, hcurrent]
    exact iff_of_true h trivial

theorem Distinct.next (h : s.Distinct) (event : Event) : (s.next host event).Distinct := by
  cases event with
  | call request => exact h
  | step i error =>
    simp only [Models.next]
    split
    · exact h.stepCall i _ error
    · exact h

theorem Apart.next_iff (h : s.Apart) (event : Event) :
    (s.next host event).Apart ↔ s.Tidy host event := by
  cases event with
  | call request => exact iff_of_true h trivial
  | step i error =>
    simp only [Models.next, Tidy]
    cases s.calls[i]? with
    | none => simpa using h
    | some call => simpa using h.stepCall_iff i call error

end Steps

/-! ## Frozen routes -/

/-- Every route that is frozen during a run is well formed if and only if every step of the run is
tidy. The daemon starts with the fallbacks that its configuration has. -/
theorem frozen_wellFormed_iff (host : ModelsHost) (sha256 : String → String)
    (found leftover : Option (Except String ConfigFile)) (current : ProviderProfile)
    (profiles fallbacks : List ProviderProfile)
    (hboot : selectFallbacks host.toEnvironment current.id [] profiles = .ok fallbacks)
    (events : List Event) :
    (∀ pre, pre <+: events → ∀ tokenBudget,
      ((after (next host) (start found leftover current fallbacks) pre).freeze sha256
        tokenBudget).WellFormed sha256
          (after (next host) (start found leftover current fallbacks) pre).current) ↔
    Along (next host) (Tidy host) (start found leftover current fallbacks) events := by
  have hdistinct : (start found leftover current fallbacks).Distinct :=
    nodup_of_selectFallbacks hboot
  have hapart : (start found leftover current fallbacks).Apart := fun hmem =>
    ((mem_ids_of_selectFallbacks hboot current.id).mp hmem).2.1 rfl
  rw [← forall_prefix_iff_along (I := Distinct) (P := Apart) (fun s event h => h.next event)
    (fun s event _ h htidy => (h.next_iff event).mpr htidy)
    (fun s event _ h htidy => fun hnext => htidy ((h.next_iff event).mp hnext)) hdistinct hapart]
  refine forall₂_congr fun pre _ => ?_
  have hpre : (after (next host) (start found leftover current fallbacks) pre).Distinct :=
    after_induct (G := fun _ _ => True) (fun s event h _ => h.next event) hdistinct (along_true _ pre)
  simp only [freeze_wellFormed_iff sha256 hpre, forall_const]

/-- The daemon has started with the configuration of the two profiles. -/
def booted : Models := start (some (.ok twoProfiles)) none (plainProfile "a") [plainProfile "b"]

theorem boot_twoProfiles : selectFallbacks plainHost.toEnvironment "a" []
    twoProfiles.fallbackProfiles = .ok [plainProfile "b"] := by
  decide +kernel

/-- A new profile is saved as the active one. -/
theorem wellFormed_saved :
    ((after (next plainHost) booted (.call (.save (plainProfile "c") true) :: steps 0 8)).freeze id
      8192).WellFormed id
        (after (next plainHost) booted (.call (.save (plainProfile "c") true) :: steps 0 8)).current :=
  (frozen_wellFormed_iff plainHost id (some (.ok twoProfiles)) none (plainProfile "a")
    twoProfiles.fallbackProfiles [plainProfile "b"] boot_twoProfiles _).mpr (by decide +kernel) _
      List.prefix_rfl 8192

/-- `models.use` has switched to the second profile and not yet set the fallbacks. -/
def betweenSwitchAndFallbacks : Models :=
  after (next plainHost) booted (.call (.use "b") :: steps 0 6)

/-- The route goes from the second profile to itself. -/
theorem not_wellFormed_betweenSwitchAndFallbacks :
    selectFallbacks plainHost.toEnvironment "a" [] twoProfiles.fallbackProfiles =
      .ok [plainProfile "b"] ∧
    ¬ (betweenSwitchAndFallbacks.freeze id 8192).WellFormed id betweenSwitchAndFallbacks.current := by
  refine ⟨boot_twoProfiles, fun h => ?_⟩
  have hids : (betweenSwitchAndFallbacks.freeze id 8192).candidates.map RouteCandidate.profileId =
      ["b", "b"] := by decide +kernel
  have hdistinct := h.distinct
  rw [hids] at hdistinct
  exact absurd hdistinct (by decide)

end Models

end AgentDaemon.Daemon
