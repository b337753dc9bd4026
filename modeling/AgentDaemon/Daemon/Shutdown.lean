import AgentDaemon.Lib.Slots
import AgentDaemon.Storage.Recovery

/-!
How the daemon stops. `run_unix_server` cancels the shutdown token, ends its connections, takes the
lock of the owned tasks and joins them, and then recovers the store. Connections and tasks call
`spawn_owned` meanwhile, which looks at the token under the same lock. When the server has returned
no task is left that could go on with a run, and a start would find nothing to recover
(`shutdown_settles`).
-/

namespace AgentDaemon.Daemon.Shutdown

open Storage Transition

/-- A task of the runtime. An aborted one goes on up to its next await. -/
inductive Life where
  | running
  | aborted
  | ended
  deriving DecidableEq, Repr

def Life.abort : Life → Life
  | .ended => .ended
  | _ => .aborted

/-- Who calls `spawn_owned`. -/
inductive Party where
  | connection (c : Nat)
  | task (t : Nat)
  deriving DecidableEq, Repr

/-- Where a `spawn_owned` is. There is no await between the lock and the return. -/
inductive SpawnStage where
  | locking
  | checking
  | spawning
  | returned (accepted : Bool)
  deriving DecidableEq, Repr

/-- It holds the lock of `request_tasks`. -/
def SpawnStage.holds : SpawnStage → Bool
  | checking | spawning => true
  | _ => false

structure Spawn where
  caller : Party
  stage : SpawnStage
  deriving DecidableEq, Repr

inductive Holder where
  | spawn (j : Nat)
  | server
  deriving DecidableEq, Repr

/-- Where `run_unix_server` is. -/
inductive Phase where
  | serving
  /-- Out of the loop. -/
  | stopping
  /-- The connections are aborted. -/
  | severing
  /-- In `join_owned`, without the lock. -/
  | locking
  | joining
  /-- The grace is over and the tasks are aborted. -/
  | aborting
  | joined
  | recovered
  | returned
  | failed
  deriving DecidableEq, Repr

namespace Phase

/-- The connections have ended. -/
def severed : Phase → Bool
  | locking | joining | aborting | joined | recovered | returned => true
  | _ => false

/-- `join_owned` has returned. -/
def hasJoined : Phase → Bool
  | joined | recovered | returned => true
  | _ => false

def hasRecovered : Phase → Bool
  | recovered | returned => true
  | _ => false

end Phase

structure Server where
  store : RunStore
  /-- The shutdown token is cancelled. -/
  cancelled : Bool
  /-- Who holds the lock of `request_tasks`. -/
  lock : Option Holder
  connections : List Life
  tasks : List Life
  spawns : List Spawn
  phase : Phase

namespace Server

inductive Event where
  | accept
  /-- A connection or a task comes to its end, or to the await where it is aborted. -/
  | finish (party : Party)
  | spawn (caller : Party)
  | stepSpawn (j : Nat)
  /-- An owned task calls the store. -/
  | act (t : Nat) (op : Op)
  /-- `daemon.stop` -/
  | stop (t : Nat)
  /-- Ctrl-C, or nobody has been there for a while. -/
  | interrupt
  /-- The loop ends with an error. -/
  | fault
  /-- The timer of a sub-agent removes it from the queue. It may have begun before it was
  aborted. -/
  | deadline (run : RunId) (now : Int)
  /-- The next step of `run_unix_server`. -/
  | serve (clock : Clock)
  /-- Five seconds have passed in `join_owned`. -/
  | grace

section Operations

variable (s : Server)

def alive : Party → Bool
  | .connection c => s.connections[c]?.any (· ≠ .ended)
  | .task t => s.tasks[t]?.any (· ≠ .ended)

/-- The party is in `spawn_owned` with the lock. -/
def holding (party : Party) : Bool :=
  s.spawns.any fun sp => sp.caller = party && sp.stage.holds

def finish (party : Party) : Server :=
  if s.holding party then s
  else match party with
  | .connection c => { s with connections := s.connections.modify c fun _ => .ended }
  | .task t => { s with tasks := s.tasks.modify t fun _ => .ended }

def setSpawn (j : Nat) (stage : SpawnStage) : Server :=
  { s with spawns := s.spawns.modify j ({ · with stage }) }

/-- `spawn_owned`, a step at a time. -/
def advanceSpawn (j : Nat) (stage : SpawnStage) : Server :=
  match stage with
  | .locking =>
    if s.lock = none then { s with lock := some (.spawn j) }.setSpawn j .checking else s
  | .checking =>
    if s.cancelled then { s with lock := none }.setSpawn j (.returned false)
    else s.setSpawn j .spawning
  | .spawning =>
    { s with tasks := s.tasks ++ [Life.running], lock := none }.setSpawn j (.returned true)
  | .returned _ => s

/-- `run_unix_server` and `join_owned`, a step at a time. -/
def serve (clock : Clock) : Server :=
  match s.phase with
  | .serving => if s.cancelled then { s with phase := .stopping } else s
  | .stopping =>
    { s with cancelled := true, connections := s.connections.map Life.abort, phase := .severing }
  | .severing =>
    if s.connections.all (· = .ended) then { s with phase := .locking } else s
  | .locking =>
    if s.lock = none then { s with lock := some .server, phase := .joining } else s
  | .joining | .aborting =>
    if s.tasks.all (· = .ended) then { s with lock := none, phase := .joined } else s
  | .joined =>
    match s.store.recover clock with
    | .error _ => { s with phase := .failed }
    | .ok (_, store) => { s with store, phase := .recovered }
  | .recovered => { s with phase := .returned }
  | .returned | .failed => s

def next (s : Server) : Event → Server
  | .accept =>
    if s.phase = .serving then { s with connections := s.connections ++ [Life.running] } else s
  | .finish party => s.finish party
  | .spawn caller =>
    if s.alive caller then { s with spawns := s.spawns ++ [⟨caller, .locking⟩] } else s
  | .stepSpawn j =>
    match s.spawns[j]? with
    | some sp => if s.alive sp.caller then s.advanceSpawn j sp.stage else s
    | none => s
  | .act t op => if s.alive (.task t) then { s with store := s.store.next op } else s
  | .stop t => if s.alive (.task t) then { s with cancelled := true } else s
  | .interrupt => if s.phase = .serving then { s with phase := .stopping } else s
  | .fault => if s.phase = .serving then { s with phase := .failed } else s
  | .deadline run now => { s with store := s.store.next (.removeQueued run now) }
  | .serve clock => s.serve clock
  | .grace =>
    if s.phase = .joining then { s with tasks := s.tasks.map Life.abort, phase := .aborting }
    else s

end Operations

/-- The daemon serves, with the tasks that take up the queued runs. -/
def start (store : RunStore) (queued : Nat) : Server :=
  ⟨store, false, none, [], List.replicate queued Life.running, [], .serving⟩

/-! ## What holds of every state -/

/-- No run is going and no question is open. -/
structure Idle (s : RunStore) : Prop where
  stopped : ∀ id, ¬ s.Going id
  settled : ∀ i ∈ s.interactions.rows, i.status ≠ .pending

structure Inv (s : Server) : Prop where
  reached : ∃ ops, s.store = storeAfter ops
  /-- A call that looks at the token or spawns has the lock. -/
  locked : ∀ j sp, s.spawns[j]? = some sp → sp.stage.holds = true → s.lock = some (.spawn j)
  joining : s.phase = .joining ∨ s.phase = .aborting → s.lock = some .server
  severed : s.phase.severed = true → ∀ life ∈ s.connections, life = .ended
  joined : s.phase.hasJoined = true → ∀ life ∈ s.tasks, life = .ended
  idle : s.phase.hasRecovered = true → Idle s.store

variable {s : Server}

theorem Idle.removeQueued {s : RunStore} (h : Idle s) (run : RunId) (now : Int) :
    Idle (s.next (.removeQueued run now)) := by
  constructor
  · intro id hid
    rcases RunStore.going_of_next hid nofun with hgoing | hstarts | happroval
    · exact h.stopped id hgoing
    · cases hstarts
    · cases happroval
  · have hsame : (s.next (.removeQueued run now)).interactions = s.interactions := by
      cases hremove : s.removeQueued run now with
      | error e =>
        rw [RunStore.next, RunStore.exec, hremove]
        rfl
      | ok answer =>
        have harchive := RunStore.removeQueued_archive hremove
        have hint := congrArg Archive.interactions harchive
        rw [RunStore.next, RunStore.exec, hremove]
        refine Eq.trans hint ?_
        split <;> rfl
    rw [hsame]
    exact h.settled

theorem Idle.of_recover {ops : List Op} {clock : Clock} {n : Nat} {s : RunStore}
    (h : (storeAfter ops).recover clock = .ok (n, s)) : Idle s :=
  ⟨not_going_of_recover h, fun i hi => (asked_of_recover h i hi).1⟩

theorem Inv.not_alive (h : s.Inv) (hj : s.phase.hasJoined = true) (party : Party) :
    s.alive party = false := by
  have hs : s.phase.severed = true := by
    revert hj
    cases s.phase <;> simp [Phase.hasJoined, Phase.severed]
  cases party with
  | connection c =>
    rw [alive]
    cases hc : s.connections[c]? with
    | none => rfl
    | some life => simp [h.severed hs life (List.mem_of_getElem? hc)]
  | task t =>
    rw [alive]
    cases ht : s.tasks[t]? with
    | none => rfl
    | some life => simp [h.joined hj life (List.mem_of_getElem? ht)]

theorem Inv.act (h : s.Inv) (op : Op)
    (hidle : s.phase.hasRecovered = true → Idle (s.store.next op)) :
    Inv { s with store := s.store.next op } where
  reached := by
    obtain ⟨ops, hops⟩ := h.reached
    refine ⟨ops ++ [op], ?_⟩
    rw [storeAfter_append, ← hops]
    rfl
  locked := h.locked
  joining := h.joining
  severed := h.severed
  joined := h.joined
  idle := hidle

theorem hasJoined_of_hasRecovered {phase : Phase} (h : phase.hasRecovered = true) :
    phase.hasJoined = true := by
  cases phase <;> first | rfl | cases h

theorem Inv.finish (h : s.Inv) (party : Party) : (s.finish party).Inv := by
  have hended : ∀ (l : List Life) (k : Nat), (∀ life ∈ l, life = .ended) →
      ∀ life ∈ l.modify k fun _ => .ended, life = .ended := by
    intro l k hl life hlife
    obtain ⟨i, hi⟩ := List.mem_iff_getElem?.mp hlife
    obtain ⟨x, hx, rfl⟩ := Slots.of_modify hi
    split
    · rfl
    · exact hl x (List.mem_of_getElem? hx)
  unfold Server.finish
  split
  · exact h
  · cases party with
    | connection c =>
      exact ⟨h.reached, h.locked, h.joining, fun hs => hended _ c (h.severed hs), h.joined, h.idle⟩
    | task t =>
      exact ⟨h.reached, h.locked, h.joining, h.severed, fun hj => hended _ t (h.joined hj), h.idle⟩

/-- A call that does not look at the token or spawn has let the lock go. -/
theorem locked_setSpawn {l : List Spawn} {j : Nat} {stage : SpawnStage} {lock lock' : Option Holder}
    (hlocked : ∀ k sp, l[k]? = some sp → sp.stage.holds = true → lock = some (.spawn k))
    (hself : stage.holds = true → lock' = some (.spawn j))
    (hothers : ∀ k, k ≠ j → lock = some (.spawn k) → lock' = some (.spawn k)) (k : Nat) (sp : Spawn)
    (hk : (l.modify j ({ · with stage }))[k]? = some sp) (hholds : sp.stage.holds = true) :
    lock' = some (.spawn k) := by
  obtain ⟨x, hx, rfl⟩ := Slots.of_modify hk
  by_cases hkj : k = j
  · rw [if_pos hkj] at hholds
    rw [hkj]
    exact hself hholds
  · rw [if_neg hkj] at hholds
    exact hothers k hkj (hlocked k x hx hholds)

/-- The call lets the lock go. -/
theorem Inv.releaseSpawn (h : s.Inv) {j : Nat} (hlock : s.lock = some (.spawn j))
    {tasks : List Life} (htasks : s.phase.hasJoined = true → ∀ life ∈ tasks, life = .ended)
    (accepted : Bool) :
    ({ s with tasks, lock := none }.setSpawn j (.returned accepted)).Inv where
  reached := h.reached
  locked := by
    refine locked_setSpawn h.locked nofun fun k hkj hk => ?_
    rw [hlock] at hk
    cases hk
    exact absurd rfl hkj
  joining := by
    intro hjoining
    cases hlock.symm.trans (h.joining hjoining)
  severed := h.severed
  joined := htasks
  idle := h.idle

theorem Inv.advanceSpawn (h : s.Inv) {j : Nat} {sp : Spawn} (hj : s.spawns[j]? = some sp)
    (halive : s.alive sp.caller = true) : (s.advanceSpawn j sp.stage).Inv := by
  have hlock := h.locked j sp hj
  cases hstage : sp.stage with
  | locking =>
    unfold Server.advanceSpawn
    dsimp only
    split
    · rename_i hfree
      refine ⟨h.reached, ?_, fun hjoining => ?_, h.severed, h.joined, h.idle⟩
      · refine locked_setSpawn h.locked (fun _ => rfl) fun k _ hk => ?_
        cases hfree.symm.trans hk
      · cases hfree.symm.trans (h.joining hjoining)
    · exact h
  | checking =>
    rw [hstage] at hlock
    unfold Server.advanceSpawn
    dsimp only
    split
    · exact h.releaseSpawn (hlock rfl) h.joined false
    · refine ⟨h.reached, ?_, h.joining, h.severed, h.joined, h.idle⟩
      exact locked_setSpawn h.locked (fun _ => hlock rfl) fun _ _ hk => hk
  | spawning =>
    rw [hstage] at hlock
    refine h.releaseSpawn (hlock rfl) (fun hjoined => ?_) true
    rw [h.not_alive hjoined] at halive
    cases halive
  | returned accepted => exact h

theorem all_ended {l : List Life} (h : l.all (· = .ended) = true) : ∀ life ∈ l, life = .ended := by
  intro life hlife
  simpa using List.all_eq_true.mp h life hlife

/-- `join_owned` returns when it has joined every task. -/
theorem Inv.release (h : s.Inv) (hphase : s.phase = .joining ∨ s.phase = .aborting)
    (hended : s.tasks.all (· = .ended) = true) : { s with lock := none, phase := .joined }.Inv where
  reached := h.reached
  locked := by
    intro k sp hk hholds
    cases (h.joining hphase).symm.trans (h.locked k sp hk hholds)
  joining := nofun
  severed := fun _ => h.severed (by rcases hphase with hp | hp <;> rw [hp] <;> rfl)
  joined := fun _ => all_ended hended
  idle := nofun

theorem Inv.serve (h : s.Inv) (clock : Clock) : (s.serve clock).Inv := by
  cases hphase : s.phase
  all_goals
    unfold Server.serve
    rw [hphase]
    dsimp only
  case serving =>
    split
    · exact ⟨h.reached, h.locked, nofun, nofun, nofun, nofun⟩
    · exact h
  case stopping => exact ⟨h.reached, h.locked, nofun, nofun, nofun, nofun⟩
  case severing =>
    split
    · rename_i hended
      exact ⟨h.reached, h.locked, nofun, fun _ => all_ended hended, nofun, nofun⟩
    · exact h
  case locking =>
    have hsevered := h.severed (by rw [hphase]; rfl)
    split
    · rename_i hfree
      refine ⟨h.reached, fun k sp hk hholds => ?_, fun _ => rfl, fun _ => hsevered, nofun, nofun⟩
      cases hfree.symm.trans (h.locked k sp hk hholds)
    · exact h
  case joining =>
    split
    · rename_i hended
      exact h.release (.inl hphase) hended
    · exact h
  case aborting =>
    split
    · rename_i hended
      exact h.release (.inr hphase) hended
    · exact h
  case joined =>
    have hsevered := h.severed (by rw [hphase]; rfl)
    have hjoined := h.joined (by rw [hphase]; rfl)
    obtain ⟨ops, hops⟩ := h.reached
    cases hrecover : s.store.recover clock with
    | error e => exact ⟨h.reached, h.locked, nofun, nofun, nofun, nofun⟩
    | ok answer =>
      obtain ⟨n, store⟩ := answer
      rw [hops] at hrecover
      exact ⟨⟨_, storeAfter_recover hrecover⟩, h.locked, nofun, fun _ => hsevered, fun _ => hjoined,
        fun _ => .of_recover hrecover⟩
  case recovered =>
    have hsevered := h.severed (by rw [hphase]; rfl)
    have hjoined := h.joined (by rw [hphase]; rfl)
    have hidle := h.idle (by rw [hphase]; rfl)
    exact ⟨h.reached, h.locked, nofun, fun _ => hsevered, fun _ => hjoined, fun _ => hidle⟩
  case returned => exact h
  case failed => exact h

theorem Inv.next (h : s.Inv) (event : Event) : (s.next event).Inv := by
  cases event with
  | accept =>
    unfold Server.next
    dsimp only
    split
    · rename_i hserving
      refine ⟨h.reached, h.locked, h.joining, fun hs => ?_, h.joined, h.idle⟩
      rw [hserving] at hs
      cases hs
    · exact h
  | finish party => exact h.finish party
  | spawn caller =>
    unfold Server.next
    dsimp only
    split
    · refine ⟨h.reached, fun j sp hj hholds => ?_, h.joining, h.severed, h.joined, h.idle⟩
      rcases Slots.of_concat hj with hj | ⟨-, rfl⟩
      · exact h.locked j sp hj hholds
      · cases hholds
    · exact h
  | stepSpawn j =>
    unfold Server.next
    dsimp only
    split
    · rename_i sp hj
      split
      · rename_i halive
        exact h.advanceSpawn hj halive
      · exact h
    · exact h
  | act t op =>
    unfold Server.next
    dsimp only
    split
    · rename_i halive
      refine h.act op fun hrecovered => ?_
      rw [h.not_alive (hasJoined_of_hasRecovered hrecovered)] at halive
      cases halive
    · exact h
  | stop t =>
    unfold Server.next
    dsimp only
    split
    · exact ⟨h.reached, h.locked, h.joining, h.severed, h.joined, h.idle⟩
    · exact h
  | interrupt =>
    unfold Server.next
    dsimp only
    split
    · exact ⟨h.reached, h.locked, nofun, nofun, nofun, nofun⟩
    · exact h
  | fault =>
    unfold Server.next
    dsimp only
    split
    · exact ⟨h.reached, h.locked, nofun, nofun, nofun, nofun⟩
    · exact h
  | deadline run now => exact h.act _ fun hrecovered => (h.idle hrecovered).removeQueued run now
  | serve clock => exact h.serve clock
  | grace =>
    unfold Server.next
    dsimp only
    split
    · rename_i hjoining
      refine ⟨h.reached, h.locked, fun _ => h.joining (.inl hjoining), fun _ => ?_, nofun, nofun⟩
      exact h.severed (by rw [hjoining]; rfl)
    · exact h

theorem inv_start (ops : List Op) (queued : Nat) : (start (storeAfter ops) queued).Inv :=
  ⟨⟨ops, rfl⟩, nofun, nofun, nofun, nofun, nofun⟩

theorem inv_after (h : s.Inv) (events : List Event) : (after next s events).Inv :=
  after_induct (G := fun _ _ => True) (fun _ event h _ => h.next event) h (along_true s events)

/-! ## Tasks that come late -/

/-- The call with the lock has looked at the token and is about to spawn. -/
def taking (s : Server) : Nat :=
  match s.lock with
  | some (.spawn j) => if s.spawns[j]?.any fun sp => sp.stage = .spawning then 1 else 0
  | _ => 0

theorem taking_le_one (s : Server) : s.taking ≤ 1 := by
  unfold taking
  split
  · split <;> decide
  · exact Nat.zero_le 1

theorem taking_of_lock (h : ∀ j, s.lock ≠ some (.spawn j)) : s.taking = 0 := by
  unfold taking
  split
  · rename_i j hj
    exact absurd hj (h j)
  · rfl

theorem taking_eq {j : Nat} {sp : Spawn} (hlock : s.lock = some (.spawn j))
    (hj : s.spawns[j]? = some sp) : s.taking = if sp.stage = .spawning then 1 else 0 := by
  unfold taking
  rw [hlock]
  dsimp only
  rw [hj, Option.any_some]
  simp

/-- After the token is cancelled the only new task is that of a call that had looked at it
before. -/
structure NoMore (s s' : Server) : Prop where
  cancelled : s'.cancelled = true
  tasks : s'.tasks.length + s'.taking ≤ s.tasks.length + s.taking

theorem NoMore.of_eq {s' : Server} (hc : s'.cancelled = true)
    (htasks : s'.tasks.length = s.tasks.length) (hlock : s'.lock = s.lock)
    (hspawns : s'.spawns = s.spawns) : NoMore s s' := by
  refine ⟨hc, Nat.le_of_eq ?_⟩
  rw [htasks, taking, taking, hlock, hspawns]

theorem NoMore.spawn (hc : s.cancelled = true) (sp : Spawn) (hsp : sp.stage = .locking) :
    NoMore s { s with spawns := s.spawns ++ [sp] } := by
  refine ⟨hc, Nat.add_le_add_left ?_ _⟩
  by_cases hlock : ∃ j, s.lock = some (.spawn j)
  · obtain ⟨j, hlock⟩ := hlock
    cases hj : (s.spawns ++ [sp])[j]? with
    | none =>
      have hzero : ({ s with spawns := s.spawns ++ [sp] } : Server).taking = 0 := by
        unfold taking
        dsimp only
        rw [hlock]
        dsimp only
        rw [hj]
        rfl
      rw [hzero]
      exact Nat.zero_le _
    | some x =>
      rw [taking_eq (s := { s with spawns := s.spawns ++ [sp] }) hlock hj]
      rcases Slots.of_concat hj with hold | ⟨-, rfl⟩
      · exact Nat.le_of_eq (taking_eq hlock hold).symm
      · rw [hsp]
        exact Nat.zero_le _
  · rw [taking_of_lock (s := { s with spawns := s.spawns ++ [sp] }) fun j hj => hlock ⟨j, hj⟩]
    exact Nat.zero_le _

theorem NoMore.advanceSpawn (h : s.Inv) (hc : s.cancelled = true) {j : Nat} {sp : Spawn}
    (hj : s.spawns[j]? = some sp) : NoMore s (s.advanceSpawn j sp.stage) := by
  have hlock := h.locked j sp hj
  have htaking : sp.stage.holds = true → s.taking = if sp.stage = .spawning then 1 else 0 :=
    fun hholds => taking_eq (hlock hholds) hj
  have hreleased : ∀ (tasks : List Life) (accepted : Bool),
      ({ s with tasks, lock := none }.setSpawn j (.returned accepted)).taking = 0 :=
    fun _ _ => taking_of_lock fun _ => nofun
  cases hstage : sp.stage with
  | locking =>
    unfold Server.advanceSpawn
    dsimp only
    split
    · refine ⟨hc, Nat.add_le_add_left ?_ _⟩
      have hzero : ({ s with lock := some (.spawn j) }.setSpawn j .checking).taking = 0 :=
        (taking_eq rfl (Slots.modify_self hj _)).trans (if_neg nofun)
      rw [hzero]
      exact Nat.zero_le _
    · exact .of_eq hc rfl rfl rfl
  | checking =>
    unfold Server.advanceSpawn
    dsimp only
    rw [if_pos hc]
    refine ⟨hc, ?_⟩
    rw [hreleased]
    exact Nat.le_add_right _ _
  | spawning =>
    rw [hstage] at htaking
    refine ⟨hc, ?_⟩
    unfold Server.advanceSpawn
    dsimp only
    rw [hreleased, htaking rfl]
    exact Nat.le_of_eq (List.length_append)
  | returned accepted => exact .of_eq hc rfl rfl rfl

theorem NoMore.serve (hc : s.cancelled = true) (clock : Clock) :
    NoMore s (s.serve clock) := by
  have hsame : NoMore s s := .of_eq hc rfl rfl rfl
  cases hphase : s.phase
  all_goals
    unfold Server.serve
    rw [hphase]
    dsimp only
  case serving =>
    rw [if_pos hc]
    exact .of_eq hc rfl rfl rfl
  case stopping => exact .of_eq rfl rfl rfl rfl
  case severing =>
    split
    · exact .of_eq hc rfl rfl rfl
    · exact hsame
  case locking =>
    split
    · refine ⟨hc, Nat.add_le_add_left ?_ _⟩
      rw [taking_of_lock (s := { s with lock := some .server, phase := .joining }) fun _ => nofun]
      exact Nat.zero_le _
    · exact hsame
  case joined =>
    cases s.store.recover clock with
    | error e => exact .of_eq hc rfl rfl rfl
    | ok answer => exact .of_eq hc rfl rfl rfl
  case recovered => exact .of_eq hc rfl rfl rfl
  case returned => exact hsame
  case failed => exact hsame
  all_goals
    split
    · refine ⟨hc, Nat.add_le_add_left ?_ _⟩
      rw [taking_of_lock (s := { s with lock := none, phase := .joined }) fun _ => nofun]
      exact Nat.zero_le _
    · exact hsame

theorem NoMore.next (h : s.Inv) (hc : s.cancelled = true) (event : Event) :
    NoMore s (s.next event) := by
  have hsame : NoMore s s := .of_eq hc rfl rfl rfl
  cases event with
  | accept =>
    unfold Server.next
    dsimp only
    split
    · exact .of_eq hc rfl rfl rfl
    · exact hsame
  | finish party =>
    unfold Server.next Server.finish
    dsimp only
    split
    · exact hsame
    · cases party with
      | connection c => exact .of_eq hc rfl rfl rfl
      | task t => exact .of_eq hc (List.length_modify _ _ _) rfl rfl
  | spawn caller =>
    unfold Server.next
    dsimp only
    split
    · exact .spawn hc _ rfl
    · exact hsame
  | stepSpawn j =>
    unfold Server.next
    dsimp only
    split
    · rename_i sp hj
      split
      · exact .advanceSpawn h hc hj
      · exact hsame
    · exact hsame
  | act t op =>
    unfold Server.next
    dsimp only
    split
    · exact .of_eq hc rfl rfl rfl
    · exact hsame
  | stop t =>
    unfold Server.next
    dsimp only
    split
    · exact .of_eq rfl rfl rfl rfl
    · exact hsame
  | interrupt =>
    unfold Server.next
    dsimp only
    split
    · exact .of_eq hc rfl rfl rfl
    · exact hsame
  | fault =>
    unfold Server.next
    dsimp only
    split
    · exact .of_eq hc rfl rfl rfl
    · exact hsame
  | deadline run now => exact .of_eq hc rfl rfl rfl
  | serve clock => exact .serve hc clock
  | grace =>
    unfold Server.next
    dsimp only
    split
    · exact .of_eq hc (List.length_map _) rfl rfl
    · exact hsame

theorem no_more_after (h : s.Inv) (hc : s.cancelled = true) (events : List Event) :
    NoMore s (after next s events) := by
  induction events generalizing s with
  | nil => exact .of_eq hc rfl rfl rfl
  | cons event events ih =>
    have hstep := NoMore.next h hc event
    have hrest := ih (h.next event) hstep.cancelled
    exact ⟨hrest.cancelled, Nat.le_trans hrest.tasks hstep.tasks⟩

/-! ## The end of the daemon -/

theorem phase_advanceSpawn (s : Server) (j : Nat) (stage : SpawnStage) :
    (s.advanceSpawn j stage).phase = s.phase := by
  unfold advanceSpawn
  split
  · split <;> rfl
  · split <;> rfl
  · rfl
  · rfl

theorem returned_next (hphase : s.phase = .returned) (event : Event) :
    (s.next event).phase = .returned := by
  cases event with
  | accept => simp [next, hphase]
  | finish party =>
    simp only [next, finish]
    split
    · exact hphase
    · cases party <;> exact hphase
  | spawn caller =>
    simp only [next]
    split <;> exact hphase
  | stepSpawn j =>
    simp only [next]
    split
    · split
      · exact (phase_advanceSpawn _ _ _).trans hphase
      · exact hphase
    · exact hphase
  | act t op =>
    simp only [next]
    split <;> exact hphase
  | stop t =>
    simp only [next]
    split <;> exact hphase
  | interrupt => simp [next, hphase]
  | fault => simp [next, hphase]
  | deadline run now => exact hphase
  | serve clock => simp [next, serve, hphase]
  | grace => simp [next, hphase]

/-- Nothing is left that works on the store, and nothing that a start would have to recover. -/
structure Left (s : Server) : Prop where
  tasks : ∀ life ∈ s.tasks, life = .ended
  connections : ∀ life ∈ s.connections, life = .ended
  stopped : ∀ r ∈ s.store.runs.rows, r.status.active = false
  recovered : ∀ clock, s.store.recover clock = .ok (0, s.store)

theorem Inv.left (h : s.Inv) (hphase : s.phase = .returned) : s.Left := by
  have hidle := h.idle (by rw [hphase]; rfl)
  have hstopped : ∀ r ∈ s.store.runs.rows, r.status.active = false := by
    intro r hr
    by_contra hactive
    refine hidle.stopped r.id ⟨r.status, ?_, by simpa using hactive⟩
    rw [status?_eq, RunStore.control_run?, Table.find?_of_mem hr]
    rfl
  refine ⟨h.joined (by rw [hphase]; rfl), h.severed (by rw [hphase]; rfl), hstopped, ?_⟩
  exact recover_idle hstopped hidle.settled

/-- A connection has a run started, and the daemon is stopped before it is done. -/
def stoppedRun : List Event :=
  [.accept, .spawn (.connection 0), .stepSpawn 0, .stepSpawn 0, .stepSpawn 0,
    .act 1 (.admitWithRoute ⟨"s"⟩ (.number 1) "hello" .queue none 0),
    .act 1 (.tryStartQueued ⟨"run-1"⟩ fun n => n), .stop 1, .serve fun n => n, .serve fun n => n,
    .finish (.connection 0), .serve fun n => n, .serve fun n => n, .grace, .finish (.task 0),
    .finish (.task 1), .serve fun n => n, .serve fun n => n, .serve fun n => n]

end Server

end AgentDaemon.Daemon.Shutdown
