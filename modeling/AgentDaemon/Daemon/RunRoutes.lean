import AgentDaemon.Daemon.Routes
import AgentDaemon.Storage.Intake

/-!
The route of a run from its admission to its engine. `chat.send` freezes the manager and stores the
snapshot with the run; the providers wait in `frozen_routes`, or are built anew from the snapshot
when the daemon has restarted or the run is a child's. Meanwhile `models.use` and `models.save` go
on switching the manager, the configuration changes and the daemon restarts. A run that executes
calls the providers that its snapshot names, and the snapshot is one that the manager gave before
the run was there (`routes_kept`).
-/

namespace AgentDaemon.Provider

/-- A route with its providers, each by the profile that it was built from. -/
structure FrozenRoute where
  snapshot : RouteSnapshot
  providers : List ProviderProfile
  deriving DecidableEq

/-- `RouteCandidate::matches`. -/
def RouteCandidate.matches (sha256 : String → String) (candidate : RouteCandidate)
    (profile : ProviderProfile) : Bool :=
  candidate.profileId = profile.id && candidate.apiType = profile.apiType &&
    candidate.model = profile.model && candidate.baseUrlSha256 = sha256 profile.baseUrl

namespace FrozenRoute

section

variable (env : Environment) (sha256 : String → String)

/-- The provider of a candidate, from the first profile that matches it. -/
def provider (profiles : List ProviderProfile) (candidate : RouteCandidate) :
    Except String ProviderProfile :=
  match profiles.find? (candidate.matches sha256) with
  | none => .error "原 run 的 Provider 配置不可用或已改变"
  | some profile => (fun _ => profile) <$> profile.build env

/-- `FrozenRoute::restore`. -/
def restore (snapshot : RouteSnapshot) (profiles : List ProviderProfile) :
    Except String FrozenRoute :=
  match snapshot.candidates.mapM (provider env sha256 profiles) with
  | .error error => .error error
  | .ok [] => .error "route snapshot 没有候选 Provider"
  | .ok providers => .ok ⟨snapshot, providers⟩

/-- The providers are those that the snapshot names, in its order, and there is a primary one. -/
structure Serves (route : FrozenRoute) : Prop where
  named : List.Forall₂
    (fun candidate profile => RouteCandidate.matches sha256 candidate profile = true)
    route.snapshot.candidates route.providers
  primary : route.providers ≠ []

end

end FrozenRoute

end AgentDaemon.Provider

namespace AgentDaemon.Daemon

open Provider Storage Transition Fallible

/-- `ProviderManager::freeze`, with the providers. -/
def Models.freezeRoute (s : Models) (sha256 : String → String) (tokenBudget : Nat) :
    FrozenRoute where
  snapshot := s.freeze sha256 tokenBudget
  providers := s.current :: s.fallbacks

/-! ## Sends -/

/-- Where a `handle_chat_send` is. -/
inductive SendStage where
  | arrived
  | frozen (route : FrozenRoute)
  /-- The run is new, and its route not yet in `frozen_routes`. -/
  | admitted (run : RunId) (route : FrozenRoute)
  | queued (run : RunId)
  | started (run : RunId)
  /-- `frozen_routes` has no route of the run. -/
  | thawed (run : RunId)
  | running (run : RunId) (route : Option FrozenRoute)
  /-- About to finish the run as failed. -/
  | failing (run : RunId)
  | returned
  deriving DecidableEq

structure Send where
  sessionId : SessionId
  requestId : RequestId
  message : String
  mode : AdmissionMode
  tokenBudget : Nat
  stage : SendStage
  deriving DecidableEq

/-- What the environment answers to a step. -/
structure SendEnv where
  clock : Clock
  /-- The call of the store fails. -/
  fails : Bool
  /-- What `ConfigStore::load` returns. -/
  config : Except String ConfigFile

structure Routing where
  models : Models
  store : RunStore
  frozenRoutes : List (RunId × FrozenRoute)
  sends : List Send

namespace Routing

inductive Event where
  | send (sessionId : SessionId) (requestId : RequestId) (message : String)
    (mode : AdmissionMode) (tokenBudget : Nat)
  | step (i : Nat) (env : SendEnv)
  /-- A send finds in the queue that it is cancelled. -/
  | cancel (i : Nat)
  /-- A send returns, at whatever stage: its run ends, its caller or the daemon goes. -/
  | leave (i : Nat)
  | manage (event : Models.Event)
  /-- An operation of the store; only `chat.send` calls `admit_with_route`. -/
  | store (op : Op)
  /-- A new daemon on the old store, with what its configuration gives it. -/
  | restart (found leftover : Option (Except String ConfigFile)) (current : ProviderProfile)
    (profiles : List ProviderProfile)

section Operations

variable (host : ModelsHost) (sha256 : String → String) (s : Routing)

def setStage (i : Nat) (stage : SendStage) : Routing :=
  { s with sends := s.sends.modify i ({ · with stage }) }

/-- `frozen_routes.remove`. -/
def thaw (run : RunId) : Routing :=
  { s with frozenRoutes := s.frozenRoutes.filter fun entry => entry.1 ≠ run }

/-- `frozen_routes.insert`. -/
def insertRoute (run : RunId) (route : FrozenRoute) : Routing :=
  { s.thaw run with frozenRoutes := (s.thaw run).frozenRoutes ++ [(run, route)] }

/-- A delegated session takes the request of its child run only. -/
def admits (send : Send) : Bool :=
  !(s.store.delegations.rows.any fun d => d.childSessionId = send.sessionId) ||
    send.requestId = .string ("delegation:" ++ send.sessionId.val)

/-- `manager.restore` from the profiles of the configuration and of the manager. -/
def restore (i : Nat) (run : RunId) (snapshot : RouteSnapshot)
    (config : Except String ConfigFile) : Routing :=
  match config with
  | .error _ => s.setStage i (.failing run)
  | .ok config =>
    match FrozenRoute.restore host.toEnvironment sha256 snapshot
        (config.profiles ++ [s.models.current]) with
    | .error _ => s.setStage i (.failing run)
    | .ok route => s.setStage i (.running run (some route))

/-- The step of a send in its stage. -/
def advance (i : Nat) (send : Send) (env : SendEnv) : Routing :=
  match send.stage with
  | .arrived =>
    if s.admits send then s.setStage i (.frozen (s.models.freezeRoute sha256 send.tokenBudget))
    else s.setStage i .returned
  | .frozen route =>
    if env.fails then s.setStage i .returned
    else match s.store.admitWithRoute send.sessionId send.requestId send.message send.mode
        (some route.snapshot) (env.clock 0) with
    | .error _ => s.setStage i .returned
    | .ok (.new run, store) => { s with store }.setStage i (.admitted run.runId route)
    | .ok (.existing run, store) =>
      { s with store }.setStage i
        (if run.status = RunStatus.queued then .queued run.runId else .returned)
  | .admitted run route => (s.insertRoute run route).setStage i (.queued run)
  | .queued run =>
    if env.fails then s.setStage i .returned
    else match s.store.tryStartQueued run env.clock with
    | .error _ => s.setStage i .returned
    | .ok (true, store) => { s with store }.setStage i (.started run)
    | .ok (false, store) => { s with store }
  | .started run =>
    match s.frozenRoutes.find? fun entry => entry.1 = run with
    | some entry => (s.thaw run).setStage i (.running run (some entry.2))
    | none => s.setStage i (.thawed run)
  | .thawed run =>
    if env.fails then s.setStage i .returned
    else match s.store.routeSnapshot run with
    | none => s.setStage i (.running run none)
    | some snapshot => s.restore host sha256 i run snapshot env.config
  | .failing run =>
    if env.fails then s.setStage i .returned
    else { s with store := s.store.next (.finish run .failed none
      (some (-32002, "冻结 Provider 配置无法恢复")) (env.clock 0)) }.setStage i .returned
  | .running .. => s
  | .returned => s

/-- The start of a daemon: its manager has the fallbacks of the configuration. -/
def boot (found leftover : Option (Except String ConfigFile)) (current : ProviderProfile)
    (profiles : List ProviderProfile) : Routing :=
  match selectFallbacks host.toEnvironment current.id [] profiles with
  | .error _ => s
  | .ok fallbacks => ⟨Models.start found leftover current fallbacks, s.store, [], []⟩

def next (s : Routing) : Event → Routing
  | .send sessionId requestId message mode tokenBudget =>
    { s with sends := s.sends ++ [⟨sessionId, requestId, message, mode, tokenBudget, .arrived⟩] }
  | .step i env =>
    match s.sends[i]? with
    | some send => s.advance host sha256 i send env
    | none => s
  | .cancel i =>
    match s.sends[i]?.map Send.stage with
    | some (.queued run) => (s.thaw run).setStage i .returned
    | _ => s
  | .leave i => s.setStage i .returned
  | .manage event => { s with models := s.models.next host event }
  | .store op =>
    match op with
    | .admitWithRoute .. => s
    | op => { s with store := s.store.next op }
  | .restart found leftover current profiles => s.boot host found leftover current profiles

/-- A daemon on an empty store. -/
def start (models : Models) : Routing := ⟨models, .empty, [], []⟩

end Operations

/-! ## What holds of every state -/

section Invariant

variable {host : ModelsHost} {sha256 : String → String} {past : List Routing} {s : Routing}

/-- The manager gave the snapshot in a state of `past`. -/
def Given (sha256 : String → String) (past : List Routing) (snapshot : RouteSnapshot) : Prop :=
  ∃ p ∈ past, ∃ tokenBudget, snapshot = p.models.freeze sha256 tokenBudget

/-- The manager gave the snapshot when the run was not there yet. -/
def GivenTo (sha256 : String → String) (past : List Routing) (run : RunId)
    (snapshot : RouteSnapshot) : Prop :=
  ∃ p ∈ past, ¬ p.store.Has run ∧ ∃ tokenBudget, snapshot = p.models.freeze sha256 tokenBudget

/-- The route is that of the run. -/
structure RouteOf (sha256 : String → String) (s : RunStore) (run : RunId) (route : FrozenRoute) :
    Prop where
  has : s.Has run
  stored : s.routeSnapshot run = some route.snapshot
  serves : route.Serves sha256

/-- What the stage of a send says of the store. -/
def StageFits (sha256 : String → String) (past : List Routing) (s : RunStore) : SendStage → Prop
  | .arrived | .returned => True
  | .frozen route => route.Serves sha256 ∧ Given sha256 past route.snapshot
  | .admitted run route => RouteOf sha256 s run route
  | .queued run | .started run | .thawed run | .failing run => s.Has run
  | .running run route => ∃ frozen, route = some frozen ∧ RouteOf sha256 s run frozen

structure Inv (sha256 : String → String) (past : List Routing) (s : Routing) : Prop where
  aligned : Aligned s.store.control
  owned : s.store.RoutesOwned
  grown : ∀ p ∈ past, ∀ id, p.store.Has id → s.store.Has id
  /-- Every run has its route. -/
  routed : ∀ id, s.store.Has id →
    ∃ snapshot, s.store.routeSnapshot id = some snapshot ∧ GivenTo sha256 past id snapshot
  entries : ∀ entry ∈ s.frozenRoutes, RouteOf sha256 s.store entry.1 entry.2
  sends : ∀ send ∈ s.sends, StageFits sha256 past s.store send.stage

/-! ### Freezing and restoring -/

theorem matches_fromProfile (profile : ProviderProfile) :
    (RouteCandidate.fromProfile sha256 profile).matches sha256 profile = true := by
  simp [RouteCandidate.matches, RouteCandidate.fromProfile]

theorem serves_freezeRoute (m : Models) (tokenBudget : Nat) :
    (m.freezeRoute sha256 tokenBudget).Serves sha256 := by
  refine ⟨?_, List.cons_ne_nil _ _⟩
  show List.Forall₂ _ ((m.current :: m.fallbacks).map _) (m.current :: m.fallbacks)
  rw [List.forall₂_map_left_iff]
  exact List.forall₂_same.mpr fun profile _ => matches_fromProfile profile

theorem matches_of_provider {env : Environment} {profiles : List ProviderProfile}
    {candidate : RouteCandidate} {profile : ProviderProfile}
    (h : FrozenRoute.provider env sha256 profiles candidate = .ok profile) :
    candidate.matches sha256 profile = true := by
  unfold FrozenRoute.provider at h
  split at h
  · cases h
  · rename_i found hfound
    obtain ⟨-, -, rfl⟩ := map_eq_ok.mp h
    exact List.find?_some hfound

/-- What is restored is the snapshot, with providers that it names. -/
theorem restore_spec {env : Environment} {snapshot : RouteSnapshot}
    {profiles : List ProviderProfile} {route : FrozenRoute}
    (h : FrozenRoute.restore env sha256 snapshot profiles = .ok route) :
    route.snapshot = snapshot ∧ route.Serves sha256 := by
  unfold FrozenRoute.restore at h
  split at h
  · cases h
  · cases h
  · rename_i providers hne hall
    cases h
    exact ⟨rfl, (mapM_eq_ok hall).imp fun _ _ => matches_of_provider, fun he => hne he⟩

/-! ### The past grows -/

theorem Given.mono {more : List Routing} {snapshot : RouteSnapshot}
    (h : Given sha256 past snapshot) : Given sha256 (past ++ more) snapshot := by
  obtain ⟨p, hp, hgave⟩ := h
  exact ⟨p, List.mem_append_left more hp, hgave⟩

theorem GivenTo.mono {more : List Routing} {run : RunId} {snapshot : RouteSnapshot}
    (h : GivenTo sha256 past run snapshot) : GivenTo sha256 (past ++ more) run snapshot := by
  obtain ⟨p, hp, hgave⟩ := h
  exact ⟨p, List.mem_append_left more hp, hgave⟩

theorem StageFits.mono {more : List Routing} {store : RunStore} {stage : SendStage}
    (h : StageFits sha256 past store stage) : StageFits sha256 (past ++ more) store stage := by
  cases stage with
  | frozen route => exact ⟨h.1, h.2.mono⟩
  | _ => exact h

/-- The state itself is one of the past of the next. -/
theorem Inv.pass (h : Inv sha256 past s) : Inv sha256 (past ++ [s]) s where
  aligned := h.aligned
  owned := h.owned
  grown := by
    intro p hp id hid
    rcases List.mem_append.mp hp with hp | hp
    · exact h.grown p hp id hid
    · rwa [List.mem_singleton.mp hp] at hid
  routed := by
    intro id hid
    obtain ⟨snapshot, hsnapshot, hgiven⟩ := h.routed id hid
    exact ⟨snapshot, hsnapshot, hgiven.mono⟩
  entries := h.entries
  sends := fun send hsend => (h.sends send hsend).mono

/-! ### The store moves -/

/-- The runs of a store stay, with their routes. -/
def Extends (s s' : RunStore) : Prop :=
  (∀ id, s.Has id → s'.Has id) ∧ ∀ id, s.Has id → s'.routeSnapshot id = s.routeSnapshot id

theorem RouteOf.mono {store store' : RunStore} {run : RunId} {route : FrozenRoute}
    (h : RouteOf sha256 store run route) (he : Extends store store') :
    RouteOf sha256 store' run route :=
  ⟨he.1 run h.has, (he.2 run h.has).trans h.stored, h.serves⟩

theorem StageFits.extend {store store' : RunStore} {stage : SendStage}
    (h : StageFits sha256 past store stage) (he : Extends store store') :
    StageFits sha256 past store' stage := by
  cases stage with
  | arrived => trivial
  | frozen route => exact h
  | admitted run route => exact RouteOf.mono h he
  | queued run => exact he.1 run h
  | started run => exact he.1 run h
  | thawed run => exact he.1 run h
  | running run route =>
    obtain ⟨frozen, hroute, hof⟩ := h
    exact ⟨frozen, hroute, hof.mono he⟩
  | failing run => exact he.1 run h
  | returned => trivial

theorem extends_next (h : Inv sha256 past s) (op : Op) : Extends s.store (s.store.next op) := by
  rcases RunStore.routes_next h.aligned h.owned op with ⟨hhas, hroutes⟩ | ⟨head, route, -, hnew⟩
  · exact ⟨fun id => (hhas id).mpr, fun id _ => hroutes id⟩
  · refine ⟨fun id hid => (hnew.has id).mpr (.inl hid), fun id hid => ?_⟩
    rw [hnew.snapshot, if_neg]
    rintro rfl
    exact hnew.fresh hid

/-- A run is admitted with a route that the manager gave. -/
def Asked (sha256 : String → String) (past : List Routing) : Op → Prop
  | .admitWithRoute _ _ _ _ asked _ =>
    ∃ snapshot, asked = some snapshot ∧ Given sha256 past snapshot
  | _ => True

/-- A child takes the route of its parent, which the manager gave. -/
theorem given_of_enrols (h : Inv sha256 past s) {op : Op} {head : Head}
    {route : Option RouteSnapshot}
    (hasked : Asked sha256 past op)
    (henrols : op.Enrols s.store head route) :
    ∃ snapshot, route = some snapshot ∧ Given sha256 past snapshot := by
  cases op with
  | admitWithRoute sid rid input mode asked now =>
    rw [henrols.2.2.2]
    exact hasked
  | admitDelegation request clock =>
    obtain ⟨-, hparent, rfl⟩ := henrols
    obtain ⟨snapshot, hsnapshot, p, hp, -, hgave⟩ := h.routed _ (mem_heads.mpr hparent)
    exact ⟨snapshot, hsnapshot, p, hp, hgave⟩
  | _ => cases henrols

theorem Inv.store (h : Inv sha256 past s) (op : Op) (hasked : Asked sha256 past op) :
    Inv sha256 past { s with store := s.store.next op } where
  aligned := RunStore.aligned_next h.aligned op
  owned := h.owned.next h.aligned op
  grown := fun p hp id hid => (extends_next h op).1 id (h.grown p hp id hid)
  routed := by
    intro id hid
    by_cases hold : s.store.Has id
    · obtain ⟨snapshot, hsnapshot, hgiven⟩ := h.routed id hold
      exact ⟨snapshot, ((extends_next h op).2 id hold).trans hsnapshot, hgiven⟩
    · rcases RunStore.routes_next h.aligned h.owned op with ⟨hhas, -⟩ |
        ⟨head, route, henrols, hnew⟩
      · exact absurd ((hhas id).mp hid) hold
      · obtain rfl := ((hnew.has id).mp hid).resolve_left hold
        obtain ⟨snapshot, rfl, p, hp, hgave⟩ : ∃ snapshot, route = some snapshot ∧
            Given sha256 past snapshot := given_of_enrols h hasked henrols
        refine ⟨snapshot, by rw [hnew.snapshot, if_pos rfl], p, hp, fun hid => ?_, hgave⟩
        exact hold (h.grown p hp _ hid)
  entries := fun entry hentry => (h.entries entry hentry).mono (extends_next h op)
  sends := fun send hsend => (h.sends send hsend).extend (extends_next h op)

/-! ### The steps -/

theorem Inv.setStage (h : Inv sha256 past s) (i : Nat) (stage : SendStage)
    (hstage : StageFits sha256 past s.store stage) : Inv sha256 past (s.setStage i stage) where
  aligned := h.aligned
  owned := h.owned
  grown := h.grown
  routed := h.routed
  entries := h.entries
  sends := by
    intro send hsend
    obtain ⟨k, hk⟩ := List.mem_iff_getElem?.mp hsend
    obtain ⟨x, hx, rfl⟩ := Slots.of_modify hk
    split
    · exact hstage
    · exact h.sends x (List.mem_of_getElem? hx)

theorem Inv.thaw (h : Inv sha256 past s) (run : RunId) : Inv sha256 past (s.thaw run) where
  aligned := h.aligned
  owned := h.owned
  grown := h.grown
  routed := h.routed
  entries := fun entry hentry => h.entries entry (List.mem_of_mem_filter hentry)
  sends := h.sends

theorem Inv.insertRoute (h : Inv sha256 past s) {run : RunId} {route : FrozenRoute}
    (hof : RouteOf sha256 s.store run route) : Inv sha256 past (s.insertRoute run route) where
  aligned := h.aligned
  owned := h.owned
  grown := h.grown
  routed := h.routed
  entries := by
    intro entry hentry
    rcases List.mem_append.mp hentry with hentry | hentry
    · exact (h.thaw run).entries entry hentry
    · rw [List.mem_singleton.mp hentry]
      exact hof
  sends := h.sends

theorem Inv.restore (h : Inv sha256 past s) (i : Nat) {run : RunId} {snapshot : RouteSnapshot}
    (hrun : s.store.Has run) (hsnapshot : s.store.routeSnapshot run = some snapshot)
    (config : Except String ConfigFile) :
    Inv sha256 past (s.restore host sha256 i run snapshot config) := by
  unfold Routing.restore
  rcases config with error | config
  · exact h.setStage i _ hrun
  · dsimp only
    cases hrestore : FrozenRoute.restore host.toEnvironment sha256 snapshot
        (config.profiles ++ [s.models.current]) with
    | error error => exact h.setStage i _ hrun
    | ok route =>
      obtain ⟨rfl, hserves⟩ := restore_spec hrestore
      exact h.setStage i _ ⟨route, rfl, hrun, hsnapshot, hserves⟩

/-- A new run comes with the route that its send has frozen. -/
theorem Inv.admitWithRoute (h : Inv sha256 past s) {send : Send} {route : FrozenRoute}
    (hserves : route.Serves sha256) (hgiven : Given sha256 past route.snapshot) {now : Int}
    {admission : Admission} {store : RunStore}
    (hadd : s.store.admitWithRoute send.sessionId send.requestId send.message send.mode
      (some route.snapshot) now = .ok (admission, store)) :
    Inv sha256 past { s with store } ∧
      (∀ run, admission = .new run → RouteOf sha256 store run.runId route) ∧
      ∀ run, admission = .existing run → store.Has run.runId := by
  have hexec : s.store.exec (.admitWithRoute send.sessionId send.requestId send.message send.mode
      (some route.snapshot) now) = .ok (.admission admission, store) := by
    rw [RunStore.exec, hadd]
    rfl
  have hnext := h.store _ (show Asked sha256 past (.admitWithRoute send.sessionId send.requestId
    send.message send.mode (some route.snapshot) now) from ⟨_, rfl, hgiven⟩)
  rw [RunStore.next_of_ok hexec] at hnext
  refine ⟨hnext, fun run hrun => ?_, fun run hrun => ?_⟩
  · rcases RunStore.admitWithRoute_cases hadd with ⟨stored, -, -, -, -, hold, -⟩ |
      ⟨-, rec, hrec, -, henq⟩
    · cases hold.symm.trans hrun
    · cases hrec.symm.trans hrun
      have henrolled := RunStore.enqueueRun_enrolled henq
      have hspec := henrolled.routes_spec h.owned
      exact ⟨(hspec.has _).mpr (.inr rfl), (hspec.snapshot _).trans (if_pos rfl), hserves⟩
  · rcases RunStore.admitWithRoute_cases hadd with ⟨stored, hstored, -, -, -, hold, rfl⟩ |
      ⟨-, rec, hrec, -⟩
    · cases hold.symm.trans hrun
      exact List.mem_map.mpr ⟨stored.head, List.mem_map_of_mem hstored, rfl⟩
    · cases hrec.symm.trans hrun

theorem Inv.advance (h : Inv sha256 past s) (hs : s ∈ past) (i : Nat) {send : Send}
    (hsend : s.sends[i]? = some send) (env : SendEnv) :
    Inv sha256 past (s.advance host sha256 i send env) := by
  have hfits := h.sends send (List.mem_of_getElem? hsend)
  have hreturned := h.setStage i .returned trivial
  rcases hstage : send.stage with
    _ | route | ⟨run, route⟩ | run | run | run | ⟨run, route⟩ | run | _
  all_goals
    rw [hstage] at hfits
    unfold Routing.advance
    rw [hstage]
    dsimp only
  case arrived =>
    split
    · exact h.setStage i _ ⟨serves_freezeRoute s.models _, s, hs, _, rfl⟩
    · exact hreturned
  case frozen =>
    split
    · exact hreturned
    · cases hadmit : s.store.admitWithRoute send.sessionId send.requestId send.message send.mode
          (some route.snapshot) (env.clock 0) with
      | error error => exact hreturned
      | ok answer =>
        obtain ⟨admission, store⟩ := answer
        obtain ⟨hnext, hnew, hold⟩ := h.admitWithRoute hfits.1 hfits.2 hadmit
        cases admission with
        | new run => exact hnext.setStage i _ (hnew run rfl)
        | existing run =>
          refine hnext.setStage i _ ?_
          split
          · exact hold run rfl
          · trivial
  case admitted =>
    exact (h.insertRoute hfits).setStage i (.queued run) hfits.has
  case queued =>
    split
    · exact hreturned
    · cases htry : s.store.tryStartQueued run env.clock with
      | error error => exact hreturned
      | ok answer =>
        obtain ⟨began, store⟩ := answer
        have hexec : s.store.exec (.tryStartQueued run env.clock) = .ok (.flag began, store) := by
          rw [RunStore.exec, htry]
          rfl
        have hnext := h.store (.tryStartQueued run env.clock) trivial
        have hhas := (extends_next h (.tryStartQueued run env.clock)).1 run hfits
        rw [RunStore.next_of_ok hexec] at hnext hhas
        cases began with
        | true => exact hnext.setStage i (.started run) hhas
        | false => exact hnext
  case started =>
    cases hentry : s.frozenRoutes.find? fun entry => entry.1 = run with
    | none => exact h.setStage i (.thawed run) hfits
    | some entry =>
      have hrun := List.find?_some hentry
      rw [decide_eq_true_eq] at hrun
      have hof := h.entries entry (List.mem_of_find?_eq_some hentry)
      rw [hrun] at hof
      exact (h.thaw run).setStage i _ ⟨entry.2, rfl, hof⟩
  case thawed =>
    split
    · exact hreturned
    · cases hsnapshot : s.store.routeSnapshot run with
      | none =>
        obtain ⟨snapshot, hsome, -⟩ := h.routed run hfits
        cases hsnapshot.symm.trans hsome
      | some snapshot => exact h.restore i hfits hsnapshot env.config
  case running => exact h
  case failing =>
    split
    · exact hreturned
    · exact (h.store _ (show Asked sha256 past (.finish run .failed none
        (some (-32002, "冻结 Provider 配置无法恢复")) (env.clock 0)) from trivial)).setStage i _ trivial
  case returned => exact h

theorem inv_boot (h : Inv sha256 past s) (found leftover : Option (Except String ConfigFile))
    (current : ProviderProfile) (profiles : List ProviderProfile) :
    Inv sha256 past (s.boot host found leftover current profiles) := by
  unfold boot
  split
  · exact h
  · exact ⟨h.aligned, h.owned, h.grown, h.routed, by simp, by simp⟩

theorem Inv.next (h : Inv sha256 past s) (hs : s ∈ past) (event : Event) :
    Inv sha256 past (s.next host sha256 event) := by
  cases event with
  | send sessionId requestId message mode tokenBudget =>
    refine ⟨h.aligned, h.owned, h.grown, h.routed, h.entries, fun send hsend => ?_⟩
    rcases List.mem_append.mp hsend with hsend | hsend
    · exact h.sends send hsend
    · rw [List.mem_singleton.mp hsend]
      trivial
  | step i env =>
    unfold Routing.next
    dsimp only
    split
    · rename_i send hsend
      exact h.advance hs i hsend env
    · exact h
  | cancel i =>
    unfold Routing.next
    dsimp only
    split
    · exact (h.thaw _).setStage i _ trivial
    · exact h
  | leave i => exact h.setStage i _ trivial
  | manage event => exact ⟨h.aligned, h.owned, h.grown, h.routed, h.entries, h.sends⟩
  | store op =>
    unfold Routing.next
    cases op with
    | admitWithRoute sid rid input mode asked now => exact h
    | _ => exact h.store _ trivial
  | restart found leftover current profiles => exact inv_boot h found leftover current profiles

theorem inv_start (models : Models) : Inv sha256 [] (start models) where
  aligned := .nil
  owned := fun _ _ => rfl
  grown := by simp
  routed := fun id hid => by cases hid
  entries := by simp [start]
  sends := by simp [start]

end Invariant

/-! ## The route of a run -/

/-- The route that a run executes with. -/
structure Kept (host : ModelsHost) (sha256 : String → String) (models : Models)
    (events : List Event) (run : RunId) (route : FrozenRoute) : Prop where
  /-- It is the one stored with the run. -/
  stored : (after (next host sha256) (start models) events).store.routeSnapshot run =
    some route.snapshot
  /-- The providers that are called are those that it names. -/
  serves : route.Serves sha256
  /-- The manager gave it when the run was not there yet. -/
  given : ∃ pre, pre <+: events ∧
    ¬ (after (next host sha256) (start models) pre).store.Has run ∧ ∃ tokenBudget,
      route.snapshot =
        (after (next host sha256) (start models) pre).models.freeze sha256 tokenBudget

/-- No run executes without a route, and whatever happens to the manager, the configuration and the
daemon between its admission and its start, it executes with what the manager gave it before. -/
theorem routes_kept (host : ModelsHost) (sha256 : String → String) (models : Models)
    (events : List Event) {send : Send} {run : RunId} {route : Option FrozenRoute}
    (hsend : send ∈ (after (next host sha256) (start models) events).sends)
    (hstage : send.stage = .running run route) :
    ∃ frozen, route = some frozen ∧ Kept host sha256 models events run frozen := by
  have hstep : ∀ (past : List Routing) (s : Routing) (event : Event), Inv sha256 past s →
      Inv sha256 (past ++ [s]) (s.next host sha256 event) :=
    fun past s event h => h.pass.next (List.mem_append_right past List.mem_cons_self) event
  obtain ⟨past, hinv, hpast⟩ := trail_induct hstep (inv_start models) events
  have hfits := hinv.sends send hsend
  rw [hstage] at hfits
  obtain ⟨frozen, rfl, hof⟩ := hfits
  obtain ⟨snapshot, hsnapshot, p, hp, hnew, hgave⟩ := hinv.routed run hof.has
  cases hof.stored.symm.trans hsnapshot
  obtain ⟨pre, hpre, rfl⟩ := hpast p hp
  exact ⟨frozen, rfl, hof.stored, hof.serves, pre, hpre, hnew, hgave⟩

/-- A run is admitted, the daemon starts again with another model, and the request is sent again. -/
def sentAgain : List Event :=
  let env : SendEnv := ⟨fun n => n, false, .ok Models.twoProfiles⟩
  let send : Event := .send ⟨"s"⟩ (.number 1) "hello" .queue 8192
  [send, .step 0 env, .step 0 env, .restart none none (Models.plainProfile "c") [], send,
    .step 0 env, .step 0 env, .step 0 env, .step 0 env, .step 0 env]

/-- The route of the first daemon, with its two models. -/
def firstRoute : FrozenRoute := Models.booted.freezeRoute id 8192

/-- The run goes on with the models of the daemon that admitted it. -/
theorem routes_kept_sentAgain : firstRoute.providers.map ProviderProfile.id = ["a", "b"] ∧
    ∃ frozen, some firstRoute = some frozen ∧
      Kept Models.plainHost id Models.booted sentAgain ⟨"run-1"⟩ frozen := by
  have hsend : (⟨⟨"s"⟩, .number 1, "hello", .queue, 8192, .running ⟨"run-1"⟩ (some firstRoute)⟩ :
      Send) ∈ (after (next Models.plainHost id) (start Models.booted) sentAgain).sends := by
    decide +kernel
  exact ⟨by decide, routes_kept Models.plainHost id Models.booted sentAgain hsend rfl⟩

end Routing

end AgentDaemon.Daemon
