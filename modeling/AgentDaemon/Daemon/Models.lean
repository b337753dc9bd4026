import AgentDaemon.Lib.Slots
import AgentDaemon.Provider.Config
import AgentDaemon.Lib.Transition

/-!
The requests `models.use` and `models.save`. Each one loads the configuration file, writes it anew
under a temporary name, renames that into place and then switches the provider manager and sets its
fallbacks; nothing keeps two of them apart. As long as none changes the file under another one, and
the one that renamed last is also the last to switch the manager and to set its fallbacks, the
manager agrees with the file once all have returned (`agreed_after`).
-/

namespace AgentDaemon.Daemon

open Provider Transition

/-! ## Files -/

/-- What a file holds: something that was found there, or what was written to it since it was
emptied, one text over the other. -/
inductive FileText where
  | found (parsed : Except String ConfigFile)
  | written (configs : List ConfigFile)
  deriving DecidableEq

def FileText.add (config : ConfigFile) : FileText → FileText
  | found _ => written [config]
  | written configs => written (configs ++ [config])

/-- What the requests work in: where the configuration is and where it is written anew, and what
`serde_json` says of a file that several requests wrote over each other. -/
structure ModelsHost extends Environment where
  path : String
  temporaryPath : String
  overwritten : List ConfigFile → Except String ConfigFile

/-- A configuration that was written whole is read back as it was. -/
def FileText.parse (host : ModelsHost) : FileText → Except String ConfigFile
  | found parsed => parsed
  | written [] => .error "EOF while parsing a value at line 1 column 0"
  | written [config] => .ok config
  | written configs => host.overwritten configs

/-! ## Requests -/

inductive ModelRequest where
  | use (profileId : String)
  | save (profile : ProviderProfile) (activate : Bool)

/-- The change that a request makes to the configuration. -/
def ModelRequest.change (host : ModelsHost) (config : ConfigFile) :
    ModelRequest → Except String ConfigFile
  | .use profileId => config.activate host.toEnvironment profileId
  | .save profile activate => config.upsert host.toEnvironment profile activate

/-- The profile that a request has stored. -/
def ModelRequest.stored (config : ConfigFile) : ModelRequest → Option ProviderProfile
  | .use _ => none
  | .save profile _ => config.find? profile.normalize.id

/-- Where a request is. `config` is what it made of the file, or in the last phases what it takes
the fallbacks from; `profile` is what it switched the manager to. -/
inductive ModelPhase where
  | loading
  | opening (config : ConfigFile)
  | writing (config : ConfigFile) (inode : Nat)
  | permitting (config : ConfigFile)
  | committing (config : ConfigFile)
  | switching (config : ConfigFile)
  | reloading (profile : ProviderProfile)
  | readingActive (profile : ProviderProfile) (config : ConfigFile)
  | settingFallbacks (profile : ProviderProfile) (config : ConfigFile) (activeId : String)
  | returned (profile : ProviderProfile)
  | failed (code : Int) (message : String)

structure ModelCall where
  request : ModelRequest
  phase : ModelPhase

namespace ModelPhase

/-- The request has switched the manager. -/
def switched : ModelPhase → Bool
  | reloading _ | readingActive .. | settingFallbacks .. | returned _ => true
  | _ => false

def isReturned : ModelPhase → Bool
  | returned _ => true
  | _ => false

/-- The request has renamed its file into place and goes on. -/
def committed : ModelPhase → Bool
  | switching _ => true
  | phase => phase.switched

end ModelPhase

/-- `commits` are the requests that renamed their file into place, and `saved` the profiles that
went into the configuration so, each in their order. -/
structure Models where
  inodes : List FileText
  file : Option Nat
  temporary : Option Nat
  current : ProviderProfile
  fallbacks : List ProviderProfile
  generation : UInt64
  calls : List ModelCall := []
  commits : List Nat := []
  saved : List ProviderProfile := []

namespace Models

inductive Event where
  | call (request : ModelRequest)
  /-- The next operation of request `i`; `error` is what the operating system says if it fails. -/
  | step (i : Nat) (error : Option String)

section Operations

variable (host : ModelsHost) (s : Models)

def setPhase (i : Nat) (phase : ModelPhase) : Models :=
  { s with calls := s.calls.modify i fun call => { call with phase } }

/-- `ConfigStore::load`. -/
def load : Except String ConfigFile :=
  match s.file.bind fun inode => s.inodes[inode]? with
  | none => .ok {}
  | some text =>
    match text.parse host with
    | .error error => .error ("解析配置文件失败 " ++ host.path ++ "：" ++ error)
    | .ok config => .ok config

/-- `OpenOptions::create(true).truncate(true)` on the temporary name. -/
def openTemporary : Models × Nat :=
  match s.temporary with
  | none =>
    ({ s with inodes := s.inodes ++ [.written []], temporary := some s.inodes.length },
      s.inodes.length)
  | some inode => ({ s with inodes := s.inodes.set inode (.written []) }, inode)

def writeAll (inode : Nat) (config : ConfigFile) : Models :=
  { s with inodes := s.inodes.modify inode (FileText.add config) }

/-- `rename` of the temporary file into place. -/
def commit (i inode : Nat) (stored : Option ProviderProfile) : Models :=
  { s with
    file := some inode
    temporary := none
    commits := s.commits ++ [i]
    saved := s.saved ++ stored.toList }

/-- `ProviderManager::switch`. -/
def switch (profile : ProviderProfile) : Except String Models :=
  match profile.validate host.toEnvironment with
  | .error error => .error error
  | .ok () =>
    match profile.build host.toEnvironment with
    | .error error => .error error
    | .ok () => .ok { s with current := profile, generation := s.generation + 1 }

/-- `ProviderManager::set_fallbacks`, once it has the active id. -/
def setFallbacks (activeId : String) (profiles : List ProviderProfile) : Except String Models :=
  match selectFallbacks host.toEnvironment activeId [] profiles with
  | .error error => .error error
  | .ok fallbacks => .ok { s with fallbacks, generation := s.generation + 1 }

def invalidParams : Int := -32602

def internalError : Int := -32603

/-- How a request ends whose change of the file fails. -/
def refused (request : ModelRequest) (error : String) : ModelPhase :=
  match request with
  | .use _ => .failed invalidParams ("切换模型失败：" ++ error)
  | .save .. => .failed invalidParams ("保存模型配置失败：" ++ error)

/-- The name that a rename takes away is missing. -/
def notFound : String := "No such file or directory (os error 2)"

/-- The step of a request in its phase. -/
def stepCall (i : Nat) (call : ModelCall) (error : Option String) : Models :=
  match call.phase with
  | .loading =>
    match error with
    | some error =>
      s.setPhase i (refused call.request ("读取配置文件失败 " ++ host.path ++ "：" ++ error))
    | none =>
      match s.load host with
      | .error error => s.setPhase i (refused call.request error)
      | .ok config =>
        match call.request.change host config with
        | .error error => s.setPhase i (refused call.request error)
        | .ok config => s.setPhase i (.opening config)
  | .opening config =>
    match error with
    | some error => s.setPhase i (refused call.request ("写入临时配置失败 " ++ host.temporaryPath ++ "：" ++ error))
    | none => s.openTemporary.1.setPhase i (.writing config s.openTemporary.2)
  | .writing config inode =>
    match error with
    | some error => s.setPhase i (refused call.request ("写入配置失败 " ++ host.temporaryPath ++ "：" ++ error))
    | none => (s.writeAll inode config).setPhase i (.permitting config)
  | .permitting config =>
    match s.temporary, error with
    | some _, none => s.setPhase i (.committing config)
    | _, error =>
      s.setPhase i (refused call.request
        ("设置配置权限失败 " ++ host.temporaryPath ++ "：" ++ error.getD notFound))
  | .committing config =>
    match s.temporary, error with
    | some inode, none => (s.commit i inode (call.request.stored config)).setPhase i (.switching config)
    | _, error =>
      s.setPhase i (refused call.request
        ("提交配置失败 " ++ host.path ++ "：" ++ error.getD notFound))
  | .switching config =>
    match config.active? with
    | none => s.setPhase i (.failed internalError "活动模型配置不存在")
    | some profile =>
      match s.switch host profile with
      | .error error => s.setPhase i (.failed invalidParams ("加载模型失败：" ++ error))
      | .ok s =>
        match call.request with
        | .use _ => s.setPhase i (.reloading profile)
        | .save .. => s.setPhase i (.readingActive profile config)
  | .reloading profile =>
    match error, s.load host with
    | some error, _ =>
      s.setPhase i (.failed internalError ("读取备用模型配置失败：" ++ "读取配置文件失败 " ++ host.path ++
        "：" ++ error))
    | none, .error error => s.setPhase i (.failed internalError ("读取备用模型配置失败：" ++ error))
    | none, .ok config => s.setPhase i (.readingActive profile config)
  | .readingActive profile config => s.setPhase i (.settingFallbacks profile config s.current.id)
  | .settingFallbacks profile config activeId =>
    match s.setFallbacks host activeId config.fallbackProfiles with
    | .error error => s.setPhase i (.failed invalidParams ("加载备用模型失败：" ++ error))
    | .ok s => s.setPhase i (.returned profile)
  | .returned _ => s
  | .failed .. => s

def next (s : Models) : Event → Models
  | .call request => { s with calls := s.calls ++ [⟨request, .loading⟩] }
  | .step i error =>
    match s.calls[i]? with
    | some call => s.stepCall host i call error
    | none => s

end Operations

/-! ## Agreement -/

/-- The last profile that was saved under an id. -/
def lastSaved (s : Models) (id : String) : Option ProviderProfile :=
  s.saved.reverse.find? fun p => p.id = id

/-- The manager agrees with the configuration file. -/
structure Agrees (s : Models) (config : ConfigFile) : Prop where
  current : config.active? = some s.current
  saved : ∀ id p, s.lastSaved id = some p → p ∈ config.profiles
  /-- The active profile and repeats are no fallbacks. -/
  fallbackIds : s.fallbacks.map ProviderProfile.id =
    (config.fallbackProfileIds.filter fun id => id ≠ s.current.id).eraseDups
  fallbacks : ∀ p ∈ s.fallbacks, p ∈ config.profiles

/-- Once all requests have returned, the manager agrees with the file. -/
def Agreed (host : ModelsHost) (s : Models) : Prop :=
  s.calls ≠ [] → (∀ call ∈ s.calls, call.phase.isReturned = true) →
    ∃ config, s.load host = .ok config ∧ s.Agrees config

/-- The step of a request that is not the last to have renamed does not undo what that one has
done to the manager. -/
def Undoes (s : Models) (i : Nat) (done : ModelPhase → Bool) : Prop :=
  ∃ j ∈ s.commits.getLast?, j ≠ i ∧ ∃ call ∈ s.calls[j]?, done call.phase = true

/-- No request changes the file under another one, and none undoes at the manager what the last to
rename has done there. -/
def OrderlyIn (host : ModelsHost) (s : Models) (i : Nat) (request : ModelRequest)
    (error : Option String) : ModelPhase → Prop
  | .writing _ inode => s.file ≠ some inode
  | .committing config => error = none →
    (∀ inode ∈ s.temporary, s.inodes[inode]? = some (.written [config])) ∧
      (s.load host).bind (fun file => request.change host file) = .ok config
  | .switching _ => ¬ s.Undoes i ModelPhase.switched
  | .settingFallbacks .. => ¬ s.Undoes i ModelPhase.isReturned
  | _ => True

def Orderly (host : ModelsHost) (s : Models) : Event → Prop
  | .call _ => True
  | .step i error => ∀ call ∈ s.calls[i]?, s.OrderlyIn host i call.request error call.phase

instance (s : Models) (i : Nat) (done : ModelPhase → Bool) : Decidable (s.Undoes i done) :=
  inferInstanceAs (Decidable (∃ j ∈ s.commits.getLast?, j ≠ i ∧ ∃ call ∈ s.calls[j]?,
    done call.phase = true))

instance (host : ModelsHost) (s : Models) (i : Nat) (request : ModelRequest)
    (error : Option String) : (phase : ModelPhase) → Decidable (s.OrderlyIn host i request error phase)
  | .writing _ inode => inferInstanceAs (Decidable (s.file ≠ some inode))
  | .committing config => inferInstanceAs (Decidable (error = none →
      (∀ inode ∈ s.temporary, s.inodes[inode]? = some (.written [config])) ∧
        (s.load host).bind (fun file => request.change host file) = .ok config))
  | .switching _ => inferInstanceAs (Decidable (¬ s.Undoes i ModelPhase.switched))
  | .settingFallbacks .. => inferInstanceAs (Decidable (¬ s.Undoes i ModelPhase.isReturned))
  | .loading | .opening _ | .permitting _ | .reloading _ | .readingActive .. | .returned _
  | .failed .. => isTrue trivial

instance (host : ModelsHost) (s : Models) : (event : Event) → Decidable (s.Orderly host event)
  | .call _ => isTrue trivial
  | .step i error => inferInstanceAs (Decidable (∀ call ∈ s.calls[i]?,
      s.OrderlyIn host i call.request error call.phase))

/-! ## What an orderly step keeps -/

/-- What holds of the last request to rename, by its phase. -/
def Ahead (host : ModelsHost) (s : Models) : ModelPhase → Prop
  | .switching config => s.load host = .ok config ∧ config.check host.toEnvironment = .ok ()
  | .reloading _ => ∃ config, s.load host = .ok config ∧
    config.check host.toEnvironment = .ok () ∧ config.active? = some s.current
  | .readingActive _ config => s.load host = .ok config ∧
    config.check host.toEnvironment = .ok () ∧ config.active? = some s.current
  | .settingFallbacks _ config activeId => s.load host = .ok config ∧
    config.check host.toEnvironment = .ok () ∧ config.active? = some s.current ∧
      activeId = s.current.id
  | .returned _ => ∃ config, s.load host = .ok config ∧ config.active? = some s.current ∧
    s.fallbacks.map ProviderProfile.id =
      (config.fallbackProfileIds.filter fun id => id ≠ s.current.id).eraseDups ∧
    ∀ p ∈ s.fallbacks, p ∈ config.profiles
  | _ => True

structure Inv (host : ModelsHost) (s : Models) : Prop where
  inodes : ∀ n, s.file = some n ∨ s.temporary = some n → n < s.inodes.length
  apart : ∀ n, s.temporary = some n → s.file ≠ some n
  known : ∀ i ∈ s.commits, i < s.calls.length
  done : ∀ (i : Nat) (call : ModelCall), s.calls[i]? = some call → call.phase.committed = true →
    i ∈ s.commits
  last : ∀ (i : Nat) (call : ModelCall), s.commits.getLast? = some i → s.calls[i]? = some call →
    s.Ahead host call.phase
  saved : s.commits ≠ [] → ∃ config, s.load host = .ok config ∧
    ∀ id p, s.lastSaved id = some p → config.find? id = some p
  unsaved : s.commits = [] → s.saved = []

section Keeps

variable {host : ModelsHost} {s s' : Models}

theorem Inv.agreed (h : s.Inv host) : s.Agreed host := by
  intro hcalls hall
  obtain ⟨call, hcall⟩ := List.exists_mem_of_ne_nil _ hcalls
  obtain ⟨i, hi⟩ := List.mem_iff_getElem?.mp hcall
  have hcommitted : call.phase.committed = true := by
    have hreturned := hall call hcall
    cases hphase : call.phase <;> rw [hphase] at hreturned <;> first | rfl | cases hreturned
  have hne : s.commits ≠ [] := List.ne_nil_of_mem (h.done i call hi hcommitted)
  -- The last request to rename has returned.
  have hlast := List.getLast?_eq_some_getLast hne
  have hlt := h.known _ (List.getLast_mem hne)
  have hj := List.getElem?_eq_getElem hlt
  have hahead := h.last _ _ hlast hj
  have hreturned := hall _ (List.getElem_mem hlt)
  rcases hphase : s.calls[s.commits.getLast hne].phase <;> rw [hphase] at hreturned hahead <;>
    try cases hreturned
  obtain ⟨config, hload, hactive, hids, hmem⟩ := hahead
  obtain ⟨config', hload', hsaved⟩ := h.saved hne
  cases hload.symm.trans hload'
  exact ⟨config, hload, hactive, fun id p hp => ConfigFile.mem_of_find? (hsaved id p hp), hids, hmem⟩

theorem getElem?_of_setPhase {i j : Nat} {phase : ModelPhase} {call' : ModelCall}
    (h : (s.setPhase i phase).calls[j]? = some call') :
    ∃ call, s.calls[j]? = some call ∧ call' = if j = i then { call with phase } else call :=
  Slots.of_modify h

theorem Ahead.congr {phase : ModelPhase} (h : s.Ahead host phase)
    (hload : s'.load host = s.load host) (hcurrent : s'.current = s.current)
    (hfallbacks : s'.fallbacks = s.fallbacks) : s'.Ahead host phase := by
  cases phase <;> first | trivial | simpa only [Ahead, hload, hcurrent, hfallbacks] using h

theorem Inv.setPhase (h : s.Inv host) {i : Nat} {phase : ModelPhase}
    (hdone : phase.committed = true → i ∈ s.commits)
    (hlast : s.commits.getLast? = some i → s.Ahead host phase) :
    (s.setPhase i phase).Inv host where
  inodes := h.inodes
  apart := h.apart
  known j hj := by
    rw [Models.setPhase, List.length_modify]
    exact h.known j hj
  done j call' hcall' hcommitted := by
    obtain ⟨call, hcall, rfl⟩ := getElem?_of_setPhase hcall'
    split at hcommitted
    · rename_i hji
      exact hji ▸ hdone hcommitted
    · exact h.done j call hcall hcommitted
  last j call' hj hcall' := by
    obtain ⟨call, hcall, rfl⟩ := getElem?_of_setPhase hcall'
    split
    · rename_i hji
      exact (hlast (hji ▸ hj)).congr rfl rfl rfl
    · exact (h.last j call hj hcall).congr rfl rfl rfl
  saved := h.saved
  unsaved := h.unsaved

/-- A request that goes on without a change to the file or the manager. -/
theorem Inv.pass (h : s.Inv host) (i : Nat) {phase : ModelPhase} (hphase : phase.committed = false) :
    (s.setPhase i phase).Inv host := by
  refine h.setPhase (fun hcommitted => absurd (hphase.symm.trans hcommitted) nofun) fun _ => ?_
  cases phase <;> trivial

theorem refused_committed (request : ModelRequest) (error : String) :
    (refused request error).committed = false := by
  cases request <;> rfl

/-- What a change of other files than the configuration leaves. -/
theorem Inv.ofLoad (h : s.Inv host)
    (hinodes : ∀ n, s'.file = some n ∨ s'.temporary = some n → n < s'.inodes.length)
    (hapart : ∀ n, s'.temporary = some n → s'.file ≠ some n)
    (hload : s'.load host = s.load host) (hcalls : s'.calls = s.calls)
    (hcommits : s'.commits = s.commits) (hsaved : s'.saved = s.saved)
    (hcurrent : s'.current = s.current) (hfallbacks : s'.fallbacks = s.fallbacks) :
    s'.Inv host where
  inodes := hinodes
  apart := hapart
  known := by rw [hcommits, hcalls]; exact h.known
  done := by rw [hcommits, hcalls]; exact h.done
  last i call hi hcall := by
    rw [hcommits] at hi
    rw [hcalls] at hcall
    exact (h.last i call hi hcall).congr hload hcurrent hfallbacks
  saved := by
    have hlast : s'.lastSaved = s.lastSaved := by
      funext id
      rw [lastSaved, hsaved, lastSaved]
    rw [hcommits, hload, hlast]
    exact h.saved
  unsaved := by
    rw [hcommits, hsaved]
    exact h.unsaved

theorem load_eq (hfile : s'.file = s.file)
    (htext : ∀ n, s.file = some n → s'.inodes[n]? = s.inodes[n]?) : s'.load host = s.load host := by
  have hbind : (s'.file.bind fun n => s'.inodes[n]?) = s.file.bind fun n => s.inodes[n]? := by
    rw [hfile]
    rcases hf : s.file with _ | n
    · rfl
    · exact htext n hf
  rw [load, load, hbind]

theorem Inv.openTemporary (h : s.Inv host) : s.openTemporary.1.Inv host := by
  unfold Models.openTemporary
  split
  · rename_i hnone
    refine h.ofLoad ?_ ?_ ?_ rfl rfl rfl rfl rfl
    · intro n hn
      rw [List.length_append]
      rcases hn with hn | hn
      · exact Nat.lt_add_right 1 (h.inodes n (.inl hn))
      · cases hn
        exact Nat.lt_succ_self _
    · rintro n hn hfile
      cases hn
      exact Nat.lt_irrefl _ (h.inodes _ (.inl hfile))
    · exact load_eq rfl fun n hn => List.getElem?_append_left (h.inodes n (.inl hn))
  · rename_i inode htemporary
    refine h.ofLoad ?_ h.apart ?_ rfl rfl rfl rfl rfl
    · intro n hn
      rw [List.length_set]
      exact h.inodes n hn
    · refine load_eq rfl fun n hn => List.getElem?_set_ne ?_
      rintro rfl
      exact h.apart _ htemporary hn

theorem Inv.writeAll (h : s.Inv host) {inode : Nat} (config : ConfigFile)
    (hfile : s.file ≠ some inode) : (s.writeAll inode config).Inv host := by
  refine h.ofLoad ?_ h.apart ?_ rfl rfl rfl rfl rfl
  · intro n hn
    rw [Models.writeAll, List.length_modify]
    exact h.inodes n hn
  · refine load_eq rfl fun n hn => ?_
    rw [Models.writeAll, List.getElem?_modify_ne]
    rintro rfl
    exact hfile hn

/-- What a request stores, and what it leaves. -/
theorem change_eq_ok {request : ModelRequest} {file config : ConfigFile}
    (h : request.change host file = .ok config) : config.check host.toEnvironment = .ok () ∧
      ∀ id, config.find? id = ((request.stored config).filter fun p => p.id = id).or (file.find? id) := by
  cases request with
  | use profileId =>
    obtain ⟨rfl, hcheck⟩ := ConfigFile.activate_eq_ok h
    exact ⟨hcheck, fun id => rfl⟩
  | save profile activate =>
    obtain ⟨hfind, -, -, hcheck⟩ := ConfigFile.upsert_eq_ok h
    refine ⟨hcheck, fun id => ?_⟩
    have hstored : config.find? profile.normalize.id = some (file.keepKey profile.normalize) := by
      rw [hfind, if_pos (ConfigFile.id_keepKey profile.normalize)]
    rw [ModelRequest.stored, hstored, hfind]
    by_cases hid : (file.keepKey profile.normalize).id = id
    · simp [Option.filter, hid]
    · simp [Option.filter, hid]

/-- A rename that puts a request's own change of the file in place. -/
theorem Inv.commit (h : s.Inv host) {i inode : Nat} {call : ModelCall} {config : ConfigFile}
    (hcall : s.calls[i]? = some call) (htemporary : s.temporary = some inode)
    (htext : s.inodes[inode]? = some (.written [config]))
    (hchange : (s.load host).bind (fun file => call.request.change host file) = .ok config) :
    ((s.commit i inode (call.request.stored config)).setPhase i (.switching config)).Inv host := by
  rcases hfile : s.load host with error | file
  · rw [hfile] at hchange
    cases hchange
  rw [hfile] at hchange
  obtain ⟨hcheck, hfind⟩ := change_eq_ok hchange
  have hload : (s.commit i inode (call.request.stored config)).load host = .ok config := by
    simp [Models.commit, load, htext, FileText.parse]
  have hsaved : ∀ id p, (s.commit i inode (call.request.stored config)).lastSaved id = some p →
      config.find? id = some p := by
    intro id p hp
    have hlast : (s.commit i inode (call.request.stored config)).lastSaved id =
        ((call.request.stored config).filter fun p => p.id = id).or (s.lastSaved id) := by
      rw [lastSaved, Models.commit, lastSaved, List.reverse_append, List.find?_append]
      cases call.request.stored config with
      | none => rfl
      | some q => by_cases hq : q.id = id <;> simp [Option.filter, hq]
    rw [hlast, Option.or_eq_some_iff] at hp
    rw [hfind, Option.or_eq_some_iff]
    refine hp.imp_right fun ⟨hnone, hp⟩ => ⟨hnone, ?_⟩
    by_cases hcommits : s.commits = []
    · rw [lastSaved, h.unsaved hcommits] at hp
      cases hp
    · obtain ⟨file', hfile', hkept⟩ := h.saved hcommits
      cases hfile.symm.trans hfile'
      exact hkept id p hp
  exact {
    inodes := by
      intro n hn
      rcases hn with hn | hn
      · cases hn
        exact h.inodes inode (.inr htemporary)
      · cases hn
    apart := nofun
    known := by
      intro j hj
      rw [Models.setPhase, List.length_modify]
      rcases List.mem_append.mp hj with hj | hj
      · exact h.known j hj
      · cases List.mem_singleton.mp hj
        exact Slots.lt_of_some hcall
    done := by
      intro j call' hcall' hcommitted
      obtain ⟨call₀, hcall₀, rfl⟩ := getElem?_of_setPhase hcall'
      split at hcommitted
      · rename_i hji
        exact List.mem_append_right _ (List.mem_singleton.mpr hji)
      · exact List.mem_append_left _ (h.done j call₀ hcall₀ hcommitted)
    last := by
      intro j call' hj hcall'
      obtain ⟨call₀, hcall₀, rfl⟩ := getElem?_of_setPhase hcall'
      rw [Models.setPhase, Models.commit, List.getLast?_concat] at hj
      rw [if_pos (Option.some.inj hj).symm]
      exact ⟨hload, hcheck⟩
    saved := fun _ => ⟨config, hload, hsaved⟩
    unsaved := fun hnil => absurd hnil (by simp [Models.setPhase, Models.commit]) }

theorem not_undone {i j : Nat} {done : ModelPhase → Bool} (hin : ¬ s.Undoes i done)
    {call call' : ModelCall} (hcall : s.calls[i]? = some call) (hno : done call.phase = false)
    (hj : s.commits.getLast? = some j) (hcall' : s.calls[j]? = some call') :
    done call'.phase = false := by
  by_cases hji : j = i
  · subst hji
    cases hcall.symm.trans hcall'
    exact hno
  · rcases hdone : done call'.phase
    · rfl
    · exact absurd ⟨j, hj, hji, call', hcall', hdone⟩ hin

/-- A switch of the manager before the last request to rename has done it. -/
theorem Inv.switch (h : s.Inv host) {i : Nat} {call : ModelCall} {config : ConfigFile}
    (hcall : s.calls[i]? = some call) (hphase : call.phase = .switching config)
    (hin : ¬ s.Undoes i ModelPhase.switched) {profile : ProviderProfile} {s₁ : Models}
    (hswitch : s.switch host profile = .ok s₁) {phase : ModelPhase}
    (hnext : s₁.load host = .ok config → config.check host.toEnvironment = .ok () →
      s₁.current = profile → s₁.Ahead host phase) : (s₁.setPhase i phase).Inv host := by
  have hs₁ : s₁ = { s with current := profile, generation := s.generation + 1 } := by
    unfold Models.switch at hswitch
    split at hswitch
    · cases hswitch
    · split at hswitch
      · cases hswitch
      · exact (Except.ok.inj hswitch).symm
  subst hs₁
  have hmanager : Inv host { s with current := profile, generation := s.generation + 1 } := {
    inodes := h.inodes
    apart := h.apart
    known := h.known
    done := h.done
    last := by
      intro j call' hj hcall'
      have hno := not_undone hin hcall (by rw [hphase]; rfl) hj hcall'
      have hahead := h.last j call' hj hcall'
      revert hahead hno
      cases call'.phase with
      | switching config => exact fun _ hahead => hahead
      | loading | opening _ | writing _ _ | permitting _ | committing _ | failed _ _ =>
        exact fun _ _ => trivial
      | reloading _ | readingActive _ _ | settingFallbacks _ _ _ | returned _ =>
        exact fun hno => nomatch hno
    saved := h.saved
    unsaved := h.unsaved }
  refine hmanager.setPhase (fun _ => h.done i call hcall (by rw [hphase]; rfl)) fun hlast => ?_
  have hahead := h.last i call hlast hcall
  rw [hphase] at hahead
  exact hnext hahead.1 hahead.2 rfl

/-- The fallbacks are set before the last request to rename has set them. -/
theorem Inv.setFallbacks (h : s.Inv host) {i : Nat} {call : ModelCall} {profile : ProviderProfile}
    {config : ConfigFile} {activeId : String} (hcall : s.calls[i]? = some call)
    (hphase : call.phase = .settingFallbacks profile config activeId)
    (hin : ¬ s.Undoes i ModelPhase.isReturned) {s₁ : Models}
    (hset : s.setFallbacks host activeId config.fallbackProfiles = .ok s₁) :
    (s₁.setPhase i (.returned profile)).Inv host := by
  obtain ⟨fallbacks, hselect, rfl⟩ : ∃ fallbacks,
      selectFallbacks host.toEnvironment activeId [] config.fallbackProfiles = .ok fallbacks ∧
        s₁ = { s with fallbacks, generation := s.generation + 1 } := by
    unfold Models.setFallbacks at hset
    split at hset
    · cases hset
    · rename_i fallbacks hselect
      exact ⟨fallbacks, hselect, (Except.ok.inj hset).symm⟩
  have hmanager : Inv host { s with fallbacks, generation := s.generation + 1 } := {
    inodes := h.inodes
    apart := h.apart
    known := h.known
    done := h.done
    last := by
      intro j call' hj hcall'
      have hno := not_undone hin hcall (by rw [hphase]; rfl) hj hcall'
      have hahead := h.last j call' hj hcall'
      revert hahead hno
      cases call'.phase with
      | returned _ => exact fun hno => nomatch hno
      | _ => exact fun _ hahead => hahead
    saved := h.saved
    unsaved := h.unsaved }
  refine hmanager.setPhase (fun _ => h.done i call hcall (by rw [hphase]; rfl)) fun hlast => ?_
  have hahead := h.last i call hlast hcall
  rw [hphase] at hahead
  obtain ⟨hload, hcheck, hactive, rfl⟩ := hahead
  obtain ⟨hsub, hids⟩ := selectFallbacks_spec hselect
  refine ⟨config, hload, hactive, ?_, ?_⟩
  · rw [hids, ConfigFile.map_fallbackProfiles hcheck]
    simp
  · intro p hp
    obtain ⟨id, -, hid⟩ := List.mem_filterMap.mp (hsub.subset hp)
    exact ConfigFile.mem_of_find? hid

/-- The step of a request in its phase. -/
theorem Inv.stepCall (h : s.Inv host) {i : Nat} {call : ModelCall}
    (hcall : s.calls[i]? = some call) (error : Option String)
    (hin : s.Orderly host (.step i error)) : (s.stepCall host i call error).Inv host := by
  replace hin := hin call hcall
  unfold Models.stepCall
  cases hphase : call.phase with
  | loading =>
    dsimp only
    split
    · exact h.pass i (refused_committed ..)
    · split
      · exact h.pass i (refused_committed ..)
      · split
        · exact h.pass i (refused_committed ..)
        · exact h.pass i rfl
  | opening config =>
    dsimp only
    split
    · exact h.pass i (refused_committed ..)
    · exact h.openTemporary.pass i rfl
  | writing config inode =>
    rw [hphase] at hin
    dsimp only
    split
    · exact h.pass i (refused_committed ..)
    · exact (h.writeAll config hin).pass i rfl
  | permitting config =>
    dsimp only
    split
    · exact h.pass i rfl
    · exact h.pass i (refused_committed ..)
  | committing config =>
    rw [hphase] at hin
    dsimp only
    split
    · rename_i inode htemporary
      obtain ⟨htext, hchange⟩ := hin rfl
      exact h.commit hcall htemporary (htext inode htemporary) hchange
    · exact h.pass i (refused_committed ..)
  | switching config =>
    rw [hphase] at hin
    dsimp only
    split
    · exact h.pass i rfl
    · rename_i profile hactive
      split
      · exact h.pass i rfl
      · rename_i s₁ hswitch
        split
        · exact h.switch hcall hphase hin hswitch fun hload hcheck hcurrent =>
            ⟨config, hload, hcheck, hcurrent ▸ hactive⟩
        · exact h.switch hcall hphase hin hswitch fun hload hcheck hcurrent =>
            ⟨hload, hcheck, hcurrent ▸ hactive⟩
  | reloading profile =>
    dsimp only
    split
    · exact h.pass i rfl
    · exact h.pass i rfl
    · rename_i config hload
      refine h.setPhase (fun _ => h.done i call hcall (by rw [hphase]; rfl)) fun hlast => ?_
      have hahead := h.last i call hlast hcall
      rw [hphase] at hahead
      obtain ⟨config', hload', hcheck, hactive⟩ := hahead
      cases hload.symm.trans hload'
      exact ⟨hload, hcheck, hactive⟩
  | readingActive profile config =>
    refine h.setPhase (fun _ => h.done i call hcall (by rw [hphase]; rfl)) fun hlast => ?_
    have hahead := h.last i call hlast hcall
    rw [hphase] at hahead
    exact ⟨hahead.1, hahead.2.1, hahead.2.2, rfl⟩
  | settingFallbacks profile config activeId =>
    rw [hphase] at hin
    dsimp only
    split
    · exact h.pass i rfl
    · rename_i s₁ hset
      exact h.setFallbacks hcall hphase hin hset
  | returned profile => exact h
  | failed code message => exact h

theorem Inv.next (h : s.Inv host) {event : Event} (hin : s.Orderly host event) :
    (s.next host event).Inv host := by
  cases event with
  | call request =>
    have hold : ∀ {i : Nat} {call : ModelCall},
        (s.calls ++ [⟨request, .loading⟩])[i]? = some call →
        s.calls[i]? = some call ∨ call.phase = .loading := by
      intro i call hcall
      rcases Slots.of_concat hcall with hcall | ⟨-, rfl⟩
      · exact .inl hcall
      · exact .inr rfl
    exact {
      inodes := h.inodes
      apart := h.apart
      known := by
        intro i hi
        rw [Models.next, List.length_append]
        exact Nat.lt_add_right 1 (h.known i hi)
      done := by
        intro i call hcall hcommitted
        rcases hold hcall with hcall | hphase
        · exact h.done i call hcall hcommitted
        · rw [hphase] at hcommitted
          cases hcommitted
      last := by
        intro i call hi hcall
        rcases hold hcall with hcall | hphase
        · exact (h.last i call hi hcall).congr rfl rfl rfl
        · rw [hphase]
          trivial
      saved := h.saved
      unsaved := h.unsaved }
  | step i error =>
    simp only [Models.next]
    split
    · rename_i call hcall
      exact h.stepCall hcall error hin
    · exact h

end Keeps

/-! ## Runs -/

/-- Before the first request: what is found at the two names, and what the manager has. -/
def start (found leftover : Option (Except String ConfigFile)) (current : ProviderProfile)
    (fallbacks : List ProviderProfile) : Models where
  inodes := found.toList.map FileText.found ++ leftover.toList.map FileText.found
  file := found.map fun _ => 0
  temporary := leftover.map fun _ => found.toList.length
  current := current
  fallbacks := fallbacks
  generation := 1

theorem inv_start (host : ModelsHost) (found leftover : Option (Except String ConfigFile))
    (current : ProviderProfile) (fallbacks : List ProviderProfile) :
    (start found leftover current fallbacks).Inv host where
  inodes n hn := by cases found <;> cases leftover <;> simp [start] at hn ⊢ <;> omega
  apart n hn := by cases found <;> cases leftover <;> simp [start] at hn ⊢; omega
  known i hi := by simp [start] at hi
  done i call hcall := by simp [start] at hcall
  last i call hi := by simp [start] at hi
  saved hne := absurd rfl hne
  unsaved _ := rfl

/-- As long as no request changes the file under another one, and the last to rename is also the
last at the manager, the manager agrees with the file once all requests have returned. -/
theorem agreed_after (host : ModelsHost) (found leftover : Option (Except String ConfigFile))
    (current : ProviderProfile) (fallbacks : List ProviderProfile) (events : List Event)
    (h : Along (next host) (Orderly host) (start found leftover current fallbacks) events) :
    ∀ pre, pre <+: events →
      (after (next host) (start found leftover current fallbacks) pre).Agreed host := by
  rintro pre ⟨post, rfl⟩
  have hinv : (after (next host) (start found leftover current fallbacks) pre).Inv host :=
    after_induct (fun _ _ hs hin => hs.next hin) (inv_start host found leftover current fallbacks)
      (along_append.mp h).1
  exact hinv.agreed

/-! ### Two requests -/

def plainHost : ModelsHost where
  urlScheme _ := .ok "https"
  ollamaTools := .ok true
  path := "config.json"
  temporaryPath := "config.tmp-1"
  overwritten _ := .error "trailing characters"

def plainProfile (id : String) : ProviderProfile :=
  ⟨id, id, .openaiChat, some "key", "https://models", id⟩

def twoProfiles : ConfigFile := ⟨some "a", [plainProfile "a", plainProfile "b"], ["a", "b"]⟩

def beforeRequests : Models := start (some (.ok twoProfiles)) none (plainProfile "a") []

def steps (i n : Nat) : List Event := List.replicate n (.step i none)

/-- The second request starts when the first has returned. -/
def oneByOne : List Event :=
  .call (.use "b") :: steps 0 9 ++ .call (.save (plainProfile "c") false) :: steps 1 8

theorem agreed_oneByOne : (after (next plainHost) beforeRequests oneByOne).Agreed plainHost :=
  agreed_after plainHost _ _ _ _ oneByOne (by decide +kernel) oneByOne List.prefix_rfl

/-- The first request renames first and switches the manager last. -/
def crossed : List Event :=
  .call (.use "a") :: .call (.use "b") :: steps 0 5 ++ steps 1 9 ++ steps 0 4

/-- The file has the second profile active, and the manager the first. -/
theorem not_agreed_crossed : ¬ (after (next plainHost) beforeRequests crossed).Agreed plainHost := by
  intro h
  obtain ⟨config, hload, hagrees⟩ := h (by decide +kernel) (by decide +kernel)
  have hfile : (after (next plainHost) beforeRequests crossed).load plainHost =
      .ok { twoProfiles with activeProfile := some "b" } := by decide +kernel
  cases hload.symm.trans hfile
  have hcurrent := hagrees.current
  revert hcurrent
  decide +kernel

end Models

end AgentDaemon.Daemon
