import AgentDaemon.Lib.Slots
import AgentDaemon.Lib.Transition
import Mathlib.Logic.Function.Basic

/-!
The runtime files of a workspace: the startup lock that `ensure_daemon` takes, and the socket, PID
file and ready marker of the daemon. Every process works on the same four names, one file operation
at a time. As long as no process decides to remove, or makes, a file that another one is about to
take away, the lock has one holder and every process removes its own files (`undisturbed_after`).
-/

namespace AgentDaemon.Daemon.Startup

open Transition

/-! ## Files -/

inductive RuntimeFile where
  | socket
  | pid
  | ready
  | startupLock
  deriving DecidableEq, Repr

namespace RuntimeFile

/-- The order in which `cleanup` removes them. -/
def all : List RuntimeFile := [socket, pid, ready, startupLock]

end RuntimeFile

/-- What the marker says of the program that wrote it. -/
structure ReadyMarker where
  pid : Nat
  version : String
  executableFingerprint : Option String
  deriving DecidableEq

inductive Content where
  | empty
  | pid (pid : Nat)
  | marker (marker : ReadyMarker)
  | other
  deriving DecidableEq

/-- `owner` is the process that made the file or was the last to open it for writing. -/
structure FileNode where
  inode : Nat
  owner : Option Nat
  modified : Nat
  content : Content
  deriving DecidableEq

/-! ## Processes -/

inductive DaemonStatus where
  | ready (pid : Nat)
  | starting (pid : Option Nat)
  | stale (pid : Option Nat)
  | stopped
  deriving DecidableEq

/-- How far a call of `status` is. -/
inductive StatusStage where
  | connecting
  | readingReadyPid
  | readingPid
  | checkingReady (pid : Option Nat)
  | checkingSocket (pid : Option Nat)
  | checkingAlive (pid : Nat)
  deriving DecidableEq

/-- Where `status` is called. -/
inductive Ask where
  | first
  | stopping (left : Nat)
  | stopped
  | staleCheck
  | beforeSpawn
  | polling (left : Nat)
  /-- `my-agent daemon`, before the server runs. -/
  | daemonCommand
  /-- `my-agent stop`. -/
  | stopCommand
  deriving DecidableEq

/-- Who calls `cleanup`. -/
inductive Cleaner where
  | ensureDaemon
  | stopCommand
  | server
  deriving DecidableEq

/-- Where a process is; each step is one file operation. -/
inductive Phase where
  | asking (ask : Ask) (stage : StatusStage)
  | readingMarker
  | requestingStop
  | cleaning (cleaner : Cleaner) (rest : List RuntimeFile)
  | testingLock
  | removingLock
  | creatingLock
  | spawning
  /-- `ensure_daemon` returns, and drops its `StartupGuard`. -/
  | returning
  | checkingSocket
  | removingSocket
  | binding
  | openingPid
  | writingPid (inode : Nat)
  | openingReady
  | writingReady (inode : Nat)
  | serving
  | ended
  deriving DecidableEq

/-- `guard` says that the process holds a `StartupGuard`. -/
structure Process where
  phase : Phase
  guard : Bool
  version : String
  fingerprint : String

namespace Phase

/-- The listener is open until `run_unix_server` returns. -/
def listening : Phase → Bool
  | openingPid | writingPid _ | openingReady | writingReady _ | serving | cleaning .server _ => true
  | _ => false

/-- The files that the process goes on to remove, whosever they are. -/
def removes : Phase → List RuntimeFile
  | cleaning _ rest => rest
  | removingLock => [.startupLock]
  | removingSocket => [.socket]
  | _ => []

/-- Where a process with a `StartupGuard` can be. -/
def guarded : Phase → Bool
  | asking .beforeSpawn _ | spawning | asking (.polling _) _ | returning => true
  | _ => false

end Phase

/-- A file that was removed, and whether its owner was there. -/
structure Removal where
  remover : Nat
  file : RuntimeFile
  owner : Option Nat
  live : Bool
  deriving DecidableEq

structure Runtime where
  files : RuntimeFile → Option FileNode
  processes : List Process := []
  now : Nat := 0
  nextInode : Nat
  removals : List Removal := []

namespace Runtime

/-! ## File operations -/

section Operations

variable (s : Runtime)

/-- The process is still running. -/
def live (p : Nat) : Bool := (s.processes[p]?).any fun process => process.phase ≠ .ended

def goTo (p : Nat) (phase : Phase) : Runtime :=
  { s with processes := s.processes.modify p fun process => { process with phase } }

def setGuard (p : Nat) (guard : Bool) : Runtime :=
  { s with processes := s.processes.modify p fun process => { process with guard } }

def exists? (f : RuntimeFile) : Bool := (s.files f).isSome

/-- `remove_file`. -/
def unlink (p : Nat) (f : RuntimeFile) : Runtime :=
  match s.files f with
  | none => s
  | some node =>
    { s with
      files := Function.update s.files f none
      removals := s.removals ++ [⟨p, f, node.owner, node.owner.any s.live⟩] }

/-- A new file of process `p`. -/
def create (p : Nat) (f : RuntimeFile) : Runtime :=
  { s with
    files := Function.update s.files f (some ⟨s.nextInode, some p, s.now, .empty⟩)
    nextInode := s.nextInode + 1 }

/-- `tokio::fs::write`, until the file is open and empty; gives its inode. -/
def openFile (p : Nat) (f : RuntimeFile) : Runtime × Nat :=
  match s.files f with
  | none => (s.create p f, s.nextInode)
  | some node =>
    ({ s with files := Function.update s.files f (some ⟨node.inode, some p, s.now, .empty⟩) },
      node.inode)

/-- What is written goes to the file that was opened, which may have lost its name. -/
def writeFile (f : RuntimeFile) (inode : Nat) (content : Content) : Runtime :=
  match s.files f with
  | none => s
  | some node =>
    if node.inode = inode then
      { s with files := Function.update s.files f (some { node with modified := s.now, content }) }
    else s

/-- `UnixStream::connect`. -/
def connects : Bool :=
  match s.files .socket with
  | some ⟨_, some p, _, _⟩ => (s.processes[p]?).any fun process => process.phase.listening
  | _ => false

def readPid : Option Nat :=
  match s.files .pid with
  | some ⟨_, _, _, .pid pid⟩ => some pid
  | _ => none

/-- `ready_marker_matches_current_executable`; `fingerprinted` says that the process could read its
own executable. -/
def markerMatches (process : Process) (fingerprinted : Bool) : Bool :=
  match s.files .ready with
  | some ⟨_, _, _, .marker marker⟩ =>
    fingerprinted ∧ marker.version = process.version ∧
      marker.executableFingerprint = some process.fingerprint
  | _ => false

/-- `Duration::from_secs(10)`. -/
def staleAfter : Nat := 10000

/-- A lock from the future has no age. -/
def startupLockIsStale : Bool :=
  match s.files .startupLock with
  | some node => node.modified ≤ s.now ∧ staleAfter ≤ s.now - node.modified
  | none => false

/-! ## `status` -/

/-- The next operation of `status`; `alive` is what `kill -0` says. -/
def statusStep (stage : StatusStage) (alive : Bool) : StatusStage ⊕ DaemonStatus :=
  match stage with
  | .connecting => if s.connects then .inl .readingReadyPid else .inl .readingPid
  | .readingReadyPid => .inr (.ready (s.readPid.getD 0))
  | .readingPid => .inl (.checkingReady s.readPid)
  | .checkingReady pid => if s.exists? .ready then .inr (.stale pid) else .inl (.checkingSocket pid)
  | .checkingSocket pid =>
    if s.exists? .socket then .inr (.stale pid)
    else match pid with
      | some pid => .inl (.checkingAlive pid)
      | none => .inr .stopped
  | .checkingAlive pid =>
    if alive then .inr (.starting (some pid)) else .inr (.stale (some pid))

end Operations

/-- Where the caller of `status` goes on. -/
def afterStatus : Ask → DaemonStatus → Phase
  | .first, .ready _ => .readingMarker
  | .first, _ => .asking .staleCheck .connecting
  | .stopping (left + 1), .ready _ => .asking (.stopping left) .connecting
  | .stopping _, _ => .asking .stopped .connecting
  | .stopped, .ready _ => .ended
  | .stopped, _ => .asking .staleCheck .connecting
  | .staleCheck, .stale _ => .cleaning .ensureDaemon RuntimeFile.all
  | .staleCheck, _ => .testingLock
  | .beforeSpawn, .ready _ => .asking (.polling 59) .connecting
  | .beforeSpawn, _ => .spawning
  | .polling _, .ready _ => .returning
  | .polling (left + 1), _ => .asking (.polling left) .connecting
  | .polling 0, _ => .returning
  | .daemonCommand, .ready _ => .ended
  | .daemonCommand, _ => .checkingSocket
  | .stopCommand, .stale _ => .cleaning .stopCommand RuntimeFile.all
  | .stopCommand, _ => .ended

def afterCleanup : Cleaner → Phase
  | .ensureDaemon => .testingLock
  | .stopCommand | .server => .ended

/-! ## Steps -/

/-- What a process is started as. -/
inductive Command where
  | ensureDaemon
  | daemon
  | stop

def Command.phase : Command → Phase
  | .ensureDaemon => .asking .first .connecting
  | .daemon => .asking .daemonCommand .connecting
  | .stop => .asking .stopCommand .connecting

inductive Event where
  | start (command : Command) (version fingerprint : String)
  /-- The next operation of process `p`; `answer` says whether what is not about these files goes
  well. -/
  | step (p : Nat) (answer : Bool)
  /-- The server of process `p` leaves its loop. -/
  | shutdown (p : Nat)
  /-- Process `p` is killed, or its server returns early with an error. -/
  | crash (p : Nat)
  | clock (now : Nat)

section Steps

variable (s : Runtime)

def startProcess (command : Command) (version fingerprint : String) : Runtime :=
  { s with processes := s.processes ++ [⟨command.phase, false, version, fingerprint⟩] }

/-- The step of a process in its phase. -/
def stepProcess (p : Nat) (process : Process) (answer : Bool) : Runtime :=
  match process.phase with
  | .asking ask stage =>
    match s.statusStep stage answer with
    | .inl stage => s.goTo p (.asking ask stage)
    | .inr status => s.goTo p (afterStatus ask status)
  | .readingMarker =>
    if s.markerMatches process answer then s.goTo p .ended else s.goTo p .requestingStop
  | .requestingStop => s.goTo p (.asking (.stopping 49) .connecting)
  | .cleaning cleaner [] => s.goTo p (afterCleanup cleaner)
  | .cleaning cleaner (f :: rest) => (s.unlink p f).goTo p (.cleaning cleaner rest)
  | .testingLock => if s.startupLockIsStale then s.goTo p .removingLock else s.goTo p .creatingLock
  | .removingLock => (s.unlink p .startupLock).goTo p .creatingLock
  | .creatingLock =>
    if s.exists? .startupLock then s.goTo p (.asking (.polling 59) .connecting)
    else if answer then
      ((s.create p .startupLock).goTo p (.asking .beforeSpawn .connecting)).setGuard p true
    else s.goTo p .ended
  | .spawning =>
    if answer then
      (s.startProcess .daemon process.version process.fingerprint).goTo p
        (.asking (.polling 59) .connecting)
    else s.goTo p .returning
  | .returning =>
    if process.guard then ((s.setGuard p false).unlink p .startupLock).goTo p .ended
    else s.goTo p .ended
  | .checkingSocket =>
    if s.exists? .socket then s.goTo p .removingSocket else s.goTo p .binding
  | .removingSocket =>
    if s.exists? .socket then (s.unlink p .socket).goTo p .binding else s.goTo p .ended
  | .binding =>
    if s.exists? .socket ∨ answer = false then s.goTo p .ended
    else (s.create p .socket).goTo p .openingPid
  | .openingPid =>
    if answer then
      let (s, inode) := s.openFile p .pid
      s.goTo p (.writingPid inode)
    else s.goTo p .ended
  | .writingPid inode =>
    if answer then (s.writeFile .pid inode (.pid p)).goTo p .openingReady else s.goTo p .ended
  | .openingReady =>
    if answer then
      let (s, inode) := s.openFile p .ready
      s.goTo p (.writingReady inode)
    else s.goTo p .ended
  | .writingReady inode =>
    if answer then
      (s.writeFile .ready inode
        (.marker ⟨p, process.version, some process.fingerprint⟩)).goTo p .serving
    else s.goTo p .ended
  | .serving => s
  | .ended => s

def next (s : Runtime) : Event → Runtime
  | .start command version fingerprint => s.startProcess command version fingerprint
  | .step p answer =>
    match s.processes[p]? with
    | some process => s.stepProcess p process answer
    | none => s
  | .shutdown p =>
    match s.processes[p]? with
    | some process =>
      if process.phase = .serving then s.goTo p (.cleaning .server RuntimeFile.all) else s
    | none => s
  | .crash p =>
    match s.processes[p]? with
    | some process =>
      if process.phase = .ended then s else (s.setGuard p false).goTo p .ended
    | none => s
  | .clock now => { s with now }

end Steps

/-! ## Exclusion -/

/-- The lock has one holder, and no process removes a file of another one that is running. -/
structure Exclusive (s : Runtime) : Prop where
  lock : ∀ (p q : Nat) (a b : Process), s.processes[p]? = some a → s.processes[q]? = some b →
    a.guard = true → b.guard = true → p = q
  removals : ∀ r ∈ s.removals, r.live = true → r.owner = some r.remover

/-- The file belongs to no other process that is running. -/
def Spares (s : Runtime) (p : Nat) (f : RuntimeFile) : Prop :=
  ∀ node ∈ s.files f, ∀ q ∈ node.owner, s.live q = true → q = p

/-- No other process is about to remove the file. -/
def Clear (s : Runtime) (p : Nat) (f : RuntimeFile) : Prop :=
  ∀ (q : Nat) (h : q < s.processes.length), f ∈ s.processes[q].phase.removes → q = p

/-- The files that the step of a process decides to remove. -/
def decides (s : Runtime) (process : Process) (answer : Bool) : List RuntimeFile :=
  match process.phase with
  | .asking ask stage =>
    match s.statusStep stage answer with
    | .inl _ => []
    | .inr status => (afterStatus ask status).removes
  | .testingLock => if s.startupLockIsStale then [.startupLock] else []
  | .checkingSocket => if s.exists? .socket then [.socket] else []
  | _ => []

/-- The file that the step of a process makes or opens for writing. -/
def makes (s : Runtime) : Phase → List RuntimeFile
  | .creatingLock => if s.exists? .startupLock then [] else [.startupLock]
  | .binding => if s.exists? .socket then [] else [.socket]
  | .openingPid => [.pid]
  | .openingReady => [.ready]
  | _ => []

/-- A process decides to remove files only while none of them belongs to another process that is
running, and makes a file only while no other process is about to remove it. -/
def Orderly (s : Runtime) : Event → Prop
  | .step p answer => ∀ process ∈ s.processes[p]?,
    (∀ f ∈ s.decides process answer, s.Spares p f) ∧ ∀ f ∈ s.makes process.phase, s.Clear p f
  | .shutdown p => ∀ process ∈ s.processes[p]?, process.phase = .serving →
    ∀ f ∈ RuntimeFile.all, s.Spares p f
  | _ => True

instance (s : Runtime) (p : Nat) (f : RuntimeFile) : Decidable (s.Spares p f) :=
  inferInstanceAs (Decidable (∀ node ∈ s.files f, ∀ q ∈ node.owner, s.live q = true → q = p))

instance (s : Runtime) (p : Nat) (f : RuntimeFile) : Decidable (s.Clear p f) :=
  inferInstanceAs (Decidable (∀ (q : Nat) (h : q < s.processes.length),
    f ∈ s.processes[q].phase.removes → q = p))

instance (s : Runtime) : (event : Event) → Decidable (s.Orderly event)
  | .step p answer => inferInstanceAs (Decidable (∀ process ∈ s.processes[p]?,
      (∀ f ∈ s.decides process answer, s.Spares p f) ∧ ∀ f ∈ s.makes process.phase, s.Clear p f))
  | .shutdown p => inferInstanceAs (Decidable (∀ process ∈ s.processes[p]?,
      process.phase = .serving → ∀ f ∈ RuntimeFile.all, s.Spares p f))
  | .start .. | .crash _ | .clock _ => isTrue trivial

/-! ## What an orderly step keeps -/

/-- A guard goes with the lock that its process made, and what a process is about to remove is its
own or nobody's. -/
structure Inv (s : Runtime) : Prop where
  owners : ∀ f node, s.files f = some node → ∀ p, node.owner = some p → p < s.processes.length
  guards : ∀ (p : Nat) (a : Process), s.processes[p]? = some a → a.guard = true →
    a.phase.guarded = true ∧ ∃ node, s.files .startupLock = some node ∧ node.owner = some p
  spared : ∀ (p : Nat) (a : Process) (f : RuntimeFile), s.processes[p]? = some a →
    f ∈ a.phase.removes → s.Spares p f
  removals : ∀ r ∈ s.removals, r.live = true → r.owner = some r.remover

section Keeps

variable {s : Runtime} {p : Nat}

theorem Inv.exclusive (h : s.Inv) : s.Exclusive where
  lock p q a b ha hb hguard hguard' := by
    obtain ⟨-, node, hnode, hp⟩ := h.guards p a ha hguard
    obtain ⟨-, node', hnode', hq⟩ := h.guards q b hb hguard'
    cases hnode.symm.trans hnode'
    exact Option.some.inj (hp.symm.trans hq)
  removals := h.removals

theorem live_iff {q : Nat} : s.live q = true ↔ ∃ a, s.processes[q]? = some a ∧ a.phase ≠ .ended := by
  rw [live, Option.any_eq_true_iff_get]
  constructor
  · rintro ⟨hsome, hget⟩
    obtain ⟨a, ha⟩ := Option.isSome_iff_exists.mp hsome
    refine ⟨a, ha, ?_⟩
    simpa [ha] using hget
  · rintro ⟨a, ha, hphase⟩
    exact ⟨by rw [ha]; rfl, by simpa [ha] using hphase⟩

theorem getElem?_of_goTo {q : Nat} {phase : Phase} {b : Process}
    (h : (s.goTo p phase).processes[q]? = some b) :
    ∃ a, s.processes[q]? = some a ∧ b = if q = p then { a with phase } else a :=
  Slots.of_modify h

theorem getElem?_of_setGuard {q : Nat} {guard : Bool} {b : Process}
    (h : (s.setGuard p guard).processes[q]? = some b) :
    ∃ a, s.processes[q]? = some a ∧ b = if q = p then { a with guard } else a :=
  Slots.of_modify h

/-- No process comes back. -/
theorem live_of_goTo {a : Process} (ha : s.processes[p]? = some a) (hlive : a.phase ≠ .ended)
    {phase : Phase} {q : Nat} (h : (s.goTo p phase).live q = true) : s.live q = true := by
  obtain ⟨b, hb, hphase⟩ := live_iff.mp h
  obtain ⟨b', hb', rfl⟩ := getElem?_of_goTo hb
  refine live_iff.mpr ⟨b', hb', ?_⟩
  split at hphase
  · rename_i hqp
    subst hqp
    cases ha.symm.trans hb'
    exact hlive
  · exact hphase

theorem Spares.mono {s' : Runtime} {q : Nat} {f : RuntimeFile} (h : s.Spares q f)
    (hfile : s'.files f = s.files f) (hlive : ∀ q, s'.live q = true → s.live q = true) :
    s'.Spares q f := by
  intro node hnode q' hq' hl
  exact h node (hfile ▸ hnode) q' hq' (hlive q' hl)

/-- A process goes on, with its guard only where one is dropped, and to remove what is spared. -/
theorem Inv.goTo (h : s.Inv) {a : Process} (ha : s.processes[p]? = some a)
    (hlive : a.phase ≠ .ended) {phase : Phase} (hguard : a.guard = true → phase.guarded = true)
    (hspared : ∀ f ∈ phase.removes, s.Spares p f) : (s.goTo p phase).Inv where
  owners f node hnode q hq := by
    rw [Runtime.goTo, List.length_modify]
    exact h.owners f node hnode q hq
  guards q b hb hb' := by
    obtain ⟨b', hb₀, rfl⟩ := getElem?_of_goTo hb
    by_cases hqp : q = p
    · subst hqp
      cases ha.symm.trans hb₀
      rw [if_pos rfl] at hb' ⊢
      exact ⟨hguard hb', (h.guards q a ha hb').2⟩
    · rw [if_neg hqp] at hb' ⊢
      exact h.guards q b' hb₀ hb'
  spared q b f hb hf := by
    obtain ⟨b', hb₀, rfl⟩ := getElem?_of_goTo hb
    have hkept : s.Spares q f := by
      split at hf
      · rename_i hqp
        exact hqp ▸ hspared f hf
      · exact h.spared q b' f hb₀ hf
    exact hkept.mono rfl fun _ => live_of_goTo ha hlive
  removals := h.removals

/-- A process that does not go on to remove anything. -/
theorem Inv.goOn (h : s.Inv) {a : Process} (ha : s.processes[p]? = some a)
    (hlive : a.phase ≠ .ended) {phase : Phase} (hguard : a.guard = true → phase.guarded = true)
    (hremoves : phase.removes = []) : (s.goTo p phase).Inv := by
  refine h.goTo ha hlive hguard ?_
  rw [hremoves]
  nofun

theorem live_setGuard (guard : Bool) (q : Nat) : (s.setGuard p guard).live q = s.live q := by
  rw [live, live, setGuard, List.getElem?_modify]
  cases s.processes[q]? with
  | none => rfl
  | some a =>
    rw [Option.map_eq_map, Option.map_some]
    split <;> rfl

theorem Inv.setGuard (h : s.Inv) {guard : Bool}
    (hguard : guard = true → ∀ a, s.processes[p]? = some a →
      a.phase.guarded = true ∧ ∃ node, s.files .startupLock = some node ∧ node.owner = some p) :
    (s.setGuard p guard).Inv where
  owners f node hnode q hq := by
    rw [Runtime.setGuard, List.length_modify]
    exact h.owners f node hnode q hq
  guards q b hb hb' := by
    obtain ⟨b', hb₀, rfl⟩ := getElem?_of_setGuard hb
    by_cases hqp : q = p
    · subst hqp
      rw [if_pos rfl] at hb' ⊢
      exact hguard hb' b' hb₀
    · rw [if_neg hqp] at hb' ⊢
      exact h.guards q b' hb₀ hb'
  spared q b f hb hf := by
    obtain ⟨b', hb₀, rfl⟩ := getElem?_of_setGuard hb
    have hf' : f ∈ b'.phase.removes := by
      split at hf <;> exact hf
    exact (h.spared q b' f hb₀ hf').mono rfl fun q' hl => by rwa [live_setGuard] at hl
  removals := h.removals

/-- A file that is spared is removed; the lock only while nobody has a guard. -/
theorem Inv.unlink (h : s.Inv) {f : RuntimeFile} (hspared : s.Spares p f)
    (hlock : f = .startupLock → ∀ (q : Nat) (b : Process), s.processes[q]? = some b →
      b.guard = false) : (s.unlink p f).Inv := by
  unfold Runtime.unlink
  split
  · exact h
  rename_i node hnode
  exact {
    owners := by
      intro f' node' hnode' q hq
      dsimp only at hnode' ⊢
      rw [Function.update_apply] at hnode'
      split at hnode'
      · cases hnode'
      · exact h.owners f' node' hnode' q hq
    guards := by
      intro q b hb hguard
      obtain ⟨hphase, node', hnode', hq⟩ := h.guards q b hb hguard
      refine ⟨hphase, node', ?_, hq⟩
      dsimp only
      rw [Function.update_apply, if_neg]
      · exact hnode'
      · rintro rfl
        rw [hlock rfl q b hb] at hguard
        cases hguard
    spared := by
      intro q b f' hb hf' node' hnode' q' hq' hl
      dsimp only at hnode'
      rw [Function.update_apply] at hnode'
      split at hnode'
      · cases hnode'
      · exact h.spared q b f' hb hf' node' hnode' q' hq' hl
    removals := by
      intro r hr hl
      rcases List.mem_append.mp hr with hr | hr
      · exact h.removals r hr hl
      · cases List.mem_singleton.mp hr
        rcases hq : node.owner with _ | q
        · rw [hq] at hl
          cases hl
        · rw [hq] at hl
          exact congrArg some (hspared node hnode q hq hl) }

/-- A process makes a file that no other one is about to remove; the lock only while nobody has a
guard. -/
theorem Inv.put (h : s.Inv) {f : RuntimeFile} {node : FileNode} (nextInode : Nat)
    (hp : p < s.processes.length) (howner : node.owner = some p) (hclear : s.Clear p f)
    (hlock : f = .startupLock → ∀ (q : Nat) (b : Process), s.processes[q]? = some b →
      b.guard = false) :
    Inv { s with files := Function.update s.files f (some node), nextInode } where
  owners f' node' hnode' q hq := by
    dsimp only at hnode' ⊢
    rw [Function.update_apply] at hnode'
    split at hnode'
    · cases hnode'
      cases howner.symm.trans hq
      exact hp
    · exact h.owners f' node' hnode' q hq
  guards q b hb hguard := by
    obtain ⟨hphase, node', hnode', hq⟩ := h.guards q b hb hguard
    refine ⟨hphase, node', ?_, hq⟩
    dsimp only
    rw [Function.update_apply, if_neg]
    · exact hnode'
    · rintro rfl
      rw [hlock rfl q b hb] at hguard
      cases hguard
  spared q b f' hb hf' node' hnode' q' hq' hl := by
    dsimp only at hnode'
    rw [Function.update_apply] at hnode'
    split at hnode'
    · rename_i hff
      cases hnode'
      cases howner.symm.trans hq'
      obtain ⟨hlt, hget⟩ := List.getElem?_eq_some_iff.mp hb
      refine (hclear q hlt ?_).symm
      rw [hget]
      exact hff ▸ hf'
    · exact h.spared q b f' hb hf' node' hnode' q' hq' hl
  removals := h.removals

/-- What is written does not change whose the file is. -/
theorem Inv.writeFile (h : s.Inv) (f : RuntimeFile) (inode : Nat) (content : Content) :
    (s.writeFile f inode content).Inv := by
  unfold Runtime.writeFile
  split
  · exact h
  rename_i node hnode
  split
  · have hold : ∀ {f' node'}, Function.update s.files f
        (some { node with modified := s.now, content }) f' = some node' →
        ∃ node₀, s.files f' = some node₀ ∧ node₀.owner = node'.owner := by
      intro f' node' hnode'
      rw [Function.update_apply] at hnode'
      split at hnode'
      · rename_i hff
        cases hnode'
        exact ⟨node, hff ▸ hnode, rfl⟩
      · exact ⟨node', hnode', rfl⟩
    exact {
      owners := by
        intro f' node' hnode' q hq
        obtain ⟨node₀, hnode₀, howner⟩ := hold hnode'
        exact h.owners f' node₀ hnode₀ q (howner.trans hq)
      guards := by
        intro q b hb hguard
        obtain ⟨hphase, node', hnode', hq⟩ := h.guards q b hb hguard
        refine ⟨hphase, ?_⟩
        dsimp only
        rw [Function.update_apply]
        split
        · rename_i hff
          cases (hff ▸ hnode).symm.trans hnode'
          exact ⟨_, rfl, hq⟩
        · exact ⟨node', hnode', hq⟩
      spared := by
        intro q b f' hb hf' node' hnode' q' hq' hl
        obtain ⟨node₀, hnode₀, howner⟩ := hold hnode'
        exact h.spared q b f' hb hf' node₀ hnode₀ q' (howner.trans hq') hl
      removals := h.removals }
  · exact h

theorem Inv.startProcess (h : s.Inv) (command : Command) (version fingerprint : String) :
    (s.startProcess command version fingerprint).Inv := by
  have hold : ∀ {q : Nat} {b : Process},
      (s.startProcess command version fingerprint).processes[q]? = some b →
      s.processes[q]? = some b ∨ b.guard = false ∧ b.phase.removes = [] := by
    intro q b hb
    rcases Slots.of_concat hb with hb | ⟨-, rfl⟩
    · exact .inl hb
    · exact .inr ⟨rfl, by cases command <;> rfl⟩
  exact {
    owners := by
      intro f node hnode q hq
      rw [Runtime.startProcess, List.length_append]
      exact Nat.lt_add_right 1 (h.owners f node hnode q hq)
    guards := by
      intro q b hb hguard
      rcases hold hb with hb | ⟨hno, -⟩
      · exact h.guards q b hb hguard
      · rw [hno] at hguard
        cases hguard
    spared := by
      intro q b f hb hf node hnode q' hq' hl
      rcases hold hb with hb | ⟨-, hno⟩
      · refine h.spared q b f hb hf node hnode q' hq' ?_
        -- The owner is not the new process.
        have hlt := h.owners f node hnode q' hq'
        rwa [live, Runtime.startProcess, List.getElem?_append_left hlt, ← live] at hl
      · rw [hno] at hf
        cases hf
    removals := h.removals }

theorem Inv.unguarded (h : s.Inv) {a : Process} (ha : s.processes[p]? = some a)
    (hphase : a.phase.guarded = false) : a.guard = false := by
  rcases hguard : a.guard
  · rfl
  · exact absurd (h.guards p a ha hguard).1 (by rw [hphase]; nofun)

/-- Where the lock is spared, only the process itself can have a guard. -/
theorem Inv.no_guard (h : s.Inv) {a : Process} (ha : s.processes[p]? = some a)
    (hno : a.guard = false) (hspared : s.Spares p .startupLock) (q : Nat) (b : Process)
    (hb : s.processes[q]? = some b) : b.guard = false := by
  rcases hguard : b.guard
  · rfl
  · obtain ⟨hphase, node, hnode, hq⟩ := h.guards q b hb hguard
    have hlive : s.live q = true := by
      refine live_iff.mpr ⟨b, hb, ?_⟩
      intro hended
      rw [hended] at hphase
      cases hphase
    have hqp : q = p := hspared node hnode q hq hlive
    subst hqp
    cases ha.symm.trans hb
    rw [hno] at hguard
    cases hguard

theorem processes_unlink (f : RuntimeFile) : (s.unlink p f).processes = s.processes := by
  unfold Runtime.unlink
  split <;> rfl

theorem processes_writeFile (f : RuntimeFile) (inode : Nat) (content : Content) :
    (s.writeFile f inode content).processes = s.processes := by
  unfold Runtime.writeFile
  split
  · rfl
  · split <;> rfl

theorem processes_openFile (f : RuntimeFile) : (s.openFile p f).1.processes = s.processes := by
  unfold Runtime.openFile
  split <;> rfl

theorem Inv.openFile (h : s.Inv) {a : Process} (ha : s.processes[p]? = some a) {f : RuntimeFile}
    (hf : f ≠ .startupLock) (hclear : s.Clear p f) : (s.openFile p f).1.Inv := by
  have hp := Slots.lt_of_some ha
  unfold Runtime.openFile
  split
  · exact h.put _ hp rfl hclear fun hlock => absurd hlock hf
  · exact h.put _ hp rfl hclear fun hlock => absurd hlock hf

theorem guarded_afterStatus {ask : Ask} {stage : StatusStage}
    (h : (Phase.asking ask stage).guarded = true) (status : DaemonStatus) :
    (afterStatus ask status).guarded = true := by
  cases ask with
  | beforeSpawn => cases status <;> rfl
  | polling left =>
    cases left with
    | zero => cases status <;> rfl
    | succ left => cases status <;> rfl
  | _ => cases h

/-- A process without a guard goes on. -/
theorem Inv.pass (h : s.Inv) {a : Process} (ha : s.processes[p]? = some a)
    (hlive : a.phase ≠ .ended) (hno : a.guard = false) {phase : Phase}
    (hspared : ∀ f ∈ phase.removes, s.Spares p f) : (s.goTo p phase).Inv :=
  h.goTo ha hlive (fun hguard => absurd (hno.symm.trans hguard) nofun) hspared

/-- A process removes the first of the files that it is about to remove. -/
theorem Inv.take (h : s.Inv) {a : Process} (ha : s.processes[p]? = some a)
    (hlive : a.phase ≠ .ended) (hno : a.guard = false) {f : RuntimeFile}
    (hf : f ∈ a.phase.removes) {phase : Phase}
    (hsub : ∀ f ∈ phase.removes, f ∈ a.phase.removes) : ((s.unlink p f).goTo p phase).Inv := by
  have hspared := h.spared p a f ha hf
  have hunlinked : (s.unlink p f).Inv :=
    h.unlink hspared fun hlock => h.no_guard ha hno (hlock ▸ hspared)
  have ha' : (s.unlink p f).processes[p]? = some a := by rwa [processes_unlink]
  exact hunlinked.pass ha' hlive hno fun f' hf' => hunlinked.spared p a f' ha' (hsub f' hf')

/-- `ensure_daemon` takes the lock. -/
theorem Inv.takeLock (h : s.Inv) {a : Process} (ha : s.processes[p]? = some a)
    (hlive : a.phase ≠ .ended) (hno : a.guard = false) (hfree : s.exists? .startupLock = false)
    (hclear : s.Clear p .startupLock) :
    (((s.create p .startupLock).goTo p (.asking .beforeSpawn .connecting)).setGuard p true).Inv := by
  have hunheld : ∀ (q : Nat) (b : Process), s.processes[q]? = some b → b.guard = false := by
    intro q b hb
    rcases hguard : b.guard
    · rfl
    · obtain ⟨-, node, hnode, -⟩ := h.guards q b hb hguard
      rw [exists?, hnode] at hfree
      cases hfree
  have hmade : (s.create p .startupLock).Inv :=
    h.put _ (Slots.lt_of_some ha) rfl hclear fun _ => hunheld
  have hgone : ((s.create p .startupLock).goTo p (.asking .beforeSpawn .connecting)).Inv :=
    hmade.pass ha hlive hno nofun
  refine hgone.setGuard ?_
  intro _ b hb
  obtain ⟨b', -, rfl⟩ := getElem?_of_goTo hb
  rw [if_pos rfl]
  have hfile : (s.create p .startupLock).files .startupLock =
      some ⟨s.nextInode, some p, s.now, .empty⟩ := by
    simp [create]
  exact ⟨rfl, _, hfile, rfl⟩

/-- `ensure_daemon` drops its guard, and the lock with it. -/
theorem Inv.dropGuard (h : s.Inv) {a : Process} (ha : s.processes[p]? = some a)
    (hlive : a.phase ≠ .ended) (hguard : a.guard = true) :
    (((s.setGuard p false).unlink p .startupLock).goTo p .ended).Inv := by
  obtain ⟨-, node, hnode, howner⟩ := h.guards p a ha hguard
  have hdropped : (s.setGuard p false).Inv := h.setGuard nofun
  have ha' : (s.setGuard p false).processes[p]? = some { a with guard := false } :=
    Slots.modify_self ha _
  have hspared : (s.setGuard p false).Spares p .startupLock := by
    intro node' hnode' q hq _
    cases hnode.symm.trans hnode'
    exact Option.some.inj (hq.symm.trans howner)
  have hunlinked : ((s.setGuard p false).unlink p .startupLock).Inv :=
    hdropped.unlink hspared fun _ => hdropped.no_guard ha' rfl hspared
  have hkept : ((s.setGuard p false).unlink p .startupLock).processes[p]? = _ :=
    (congrArg (fun processes => processes[p]?) (processes_unlink _)).trans ha'
  exact hunlinked.pass hkept hlive rfl nofun

/-- A step of a process in its phase. -/
theorem Inv.stepProcess (h : s.Inv) {a : Process} (ha : s.processes[p]? = some a) (answer : Bool)
    (hdecides : ∀ f ∈ s.decides a answer, s.Spares p f)
    (hmakes : ∀ f ∈ s.makes a.phase, s.Clear p f) : (s.stepProcess p a answer).Inv := by
  have hp := Slots.lt_of_some ha
  by_cases hlive : a.phase = .ended
  · rw [Runtime.stepProcess, hlive]
    exact h
  unfold Runtime.stepProcess
  cases hphase : a.phase with
  | asking ask stage =>
    rw [decides, hphase] at hdecides
    dsimp only at hdecides ⊢
    rcases hstatus : s.statusStep stage answer with stage' | status
    · refine h.goOn ha hlive ?_ rfl
      intro hguard
      have hguarded := (h.guards p a ha hguard).1
      rw [hphase] at hguarded
      cases ask <;> first | rfl | cases hguarded
    · rw [hstatus] at hdecides
      refine h.goTo ha hlive ?_ hdecides
      intro hguard
      have hguarded := (h.guards p a ha hguard).1
      rw [hphase] at hguarded
      exact guarded_afterStatus hguarded status
  | readingMarker =>
    have hno := h.unguarded ha (by rw [hphase]; rfl)
    dsimp only
    split
    · exact h.pass ha hlive hno nofun
    · exact h.pass ha hlive hno nofun
  | requestingStop =>
    have hno := h.unguarded ha (by rw [hphase]; rfl)
    exact h.pass ha hlive hno nofun
  | cleaning cleaner files =>
    have hno := h.unguarded ha (by rw [hphase]; rfl)
    cases files with
    | nil =>
      refine h.pass ha hlive hno ?_
      cases cleaner <;> nofun
    | cons f rest =>
      refine h.take ha hlive hno ?_ ?_
      · rw [hphase]
        exact List.mem_cons_self
      · rw [hphase]
        exact fun f' hf' => List.mem_cons_of_mem f hf'
  | testingLock =>
    have hno := h.unguarded ha (by rw [hphase]; rfl)
    rw [decides, hphase] at hdecides
    dsimp only at hdecides ⊢
    split
    · rename_i hstale
      rw [if_pos hstale] at hdecides
      exact h.pass ha hlive hno hdecides
    · exact h.pass ha hlive hno nofun
  | removingLock =>
    have hno := h.unguarded ha (by rw [hphase]; rfl)
    refine h.take ha hlive hno ?_ nofun
    rw [hphase]
    exact List.mem_singleton_self _
  | creatingLock =>
    have hno := h.unguarded ha (by rw [hphase]; rfl)
    rw [makes.eq_def, hphase] at hmakes
    dsimp only at hmakes ⊢
    split
    · exact h.pass ha hlive hno nofun
    · rename_i hfree
      rw [if_neg hfree] at hmakes
      split
      · exact h.takeLock ha hlive hno (by simpa using hfree)
          (hmakes _ (List.mem_singleton_self _))
      · exact h.pass ha hlive hno nofun
  | spawning =>
    dsimp only
    split
    · have hspawned := h.startProcess .daemon a.version a.fingerprint
      have ha' : (s.startProcess .daemon a.version a.fingerprint).processes[p]? = some a :=
        Slots.append_of_some ha _
      exact hspawned.goOn ha' hlive (fun _ => rfl) rfl
    · exact h.goOn ha hlive (fun _ => rfl) rfl
  | returning =>
    dsimp only
    split
    · rename_i hguard
      exact h.dropGuard ha hlive hguard
    · rename_i hguard
      exact h.pass ha hlive (by simpa using hguard) nofun
  | checkingSocket =>
    have hno := h.unguarded ha (by rw [hphase]; rfl)
    rw [decides, hphase] at hdecides
    dsimp only at hdecides ⊢
    split
    · rename_i hexists
      rw [if_pos hexists] at hdecides
      exact h.pass ha hlive hno hdecides
    · exact h.pass ha hlive hno nofun
  | removingSocket =>
    have hno := h.unguarded ha (by rw [hphase]; rfl)
    dsimp only
    split
    · refine h.take ha hlive hno ?_ nofun
      rw [hphase]
      exact List.mem_singleton_self _
    · exact h.pass ha hlive hno nofun
  | binding =>
    have hno := h.unguarded ha (by rw [hphase]; rfl)
    rw [makes.eq_def, hphase] at hmakes
    dsimp only at hmakes ⊢
    split
    · exact h.pass ha hlive hno nofun
    · rename_i hfree
      rw [if_neg fun hexists => hfree (.inl hexists)] at hmakes
      have hmade : (s.create p .socket).Inv :=
        h.put _ hp rfl (hmakes _ (List.mem_singleton_self _)) nofun
      exact hmade.pass ha hlive hno nofun
  | openingPid =>
    have hno := h.unguarded ha (by rw [hphase]; rfl)
    rw [makes.eq_def, hphase] at hmakes
    dsimp only
    split
    · have hopened := h.openFile ha (f := .pid) nofun (hmakes _ (List.mem_singleton_self _))
      exact hopened.pass (by rwa [processes_openFile]) hlive hno nofun
    · exact h.pass ha hlive hno nofun
  | writingPid inode =>
    have hno := h.unguarded ha (by rw [hphase]; rfl)
    dsimp only
    split
    · exact (h.writeFile _ _ _).pass (by rwa [processes_writeFile]) hlive hno nofun
    · exact h.pass ha hlive hno nofun
  | openingReady =>
    have hno := h.unguarded ha (by rw [hphase]; rfl)
    rw [makes.eq_def, hphase] at hmakes
    dsimp only
    split
    · have hopened := h.openFile ha (f := .ready) nofun (hmakes _ (List.mem_singleton_self _))
      exact hopened.pass (by rwa [processes_openFile]) hlive hno nofun
    · exact h.pass ha hlive hno nofun
  | writingReady inode =>
    have hno := h.unguarded ha (by rw [hphase]; rfl)
    dsimp only
    split
    · exact (h.writeFile _ _ _).pass (by rwa [processes_writeFile]) hlive hno nofun
    · exact h.pass ha hlive hno nofun
  | serving => exact h
  | ended => exact absurd hphase hlive

/-- What an orderly step keeps. -/
theorem Inv.next (h : s.Inv) {event : Event} (hin : s.Orderly event) : (s.next event).Inv := by
  cases event with
  | start command version fingerprint => exact h.startProcess command version fingerprint
  | step p answer =>
    simp only [Runtime.next]
    split
    · rename_i a ha
      exact h.stepProcess ha answer (hin a ha).1 (hin a ha).2
    · exact h
  | shutdown p =>
    simp only [Runtime.next]
    split
    · rename_i a ha
      split
      · rename_i hphase
        have hno := h.unguarded ha (by rw [hphase]; rfl)
        exact h.pass ha (by rw [hphase]; nofun) hno (hin a ha hphase)
      · exact h
    · exact h
  | crash p =>
    simp only [Runtime.next]
    split
    · rename_i a ha
      split
      · exact h
      · rename_i hlive
        have hdropped : (s.setGuard p false).Inv := h.setGuard nofun
        have ha' : (s.setGuard p false).processes[p]? = some { a with guard := false } :=
          Slots.modify_self ha _
        exact hdropped.pass ha' hlive rfl nofun
    · exact h
  | clock now => exact ⟨h.owners, h.guards, h.spared, h.removals⟩

end Keeps

/-! ## Runs -/

/-- The files that earlier processes left behind. -/
def atRest (leftover : RuntimeFile → Option FileNode) (nextInode : Nat) : Runtime where
  files f := (leftover f).map fun node => { node with owner := none }
  nextInode := nextInode

theorem inv_atRest (leftover : RuntimeFile → Option FileNode) (nextInode : Nat) :
    (atRest leftover nextInode).Inv where
  owners f node hnode p hp := by
    obtain ⟨node', -, rfl⟩ := Option.map_eq_some_iff.mp hnode
    cases hp
  guards p a ha := by simp [atRest] at ha
  spared p a f ha := by simp [atRest] at ha
  removals r hr := by simp [atRest] at hr

/-- As long as no process decides to remove, or makes, a file in the way of another one, the lock
has one holder and no process removes the file of another one. -/
theorem undisturbed_after (leftover : RuntimeFile → Option FileNode) (nextInode : Nat)
    (events : List Event) (h : Along next Orderly (atRest leftover nextInode) events) :
    ∀ pre, pre <+: events → (after next (atRest leftover nextInode) pre).Exclusive := by
  rintro pre ⟨post, rfl⟩
  have hinv : (after next (atRest leftover nextInode) pre).Inv :=
    after_induct (fun _ _ hs hin => hs.next hin) (inv_atRest leftover nextInode)
      (along_append.mp h).1
  exact hinv.exclusive

def steps (p n : Nat) : List Event := List.replicate n (.step p true)

/-- `ensure_daemon` finds nothing, takes the lock and starts a daemon, which answers and is shut
down again. -/
def quietStart : List Event :=
  .start .ensureDaemon "0.1.0" "f" :: steps 0 15 ++ steps 1 10 ++ steps 0 3 ++
    .shutdown 1 :: steps 1 5

theorem exclusive_quietStart : (after next (atRest (fun _ => none) 0) quietStart).Exclusive :=
  undisturbed_after _ _ quietStart (by decide +kernel) quietStart List.prefix_rfl

/-- A daemon has taken its socket, PID file and marker down when the next `ensure_daemon` takes the
lock; then it takes the lock down, and a third process takes it again. -/
def shutdownMeetsStart : List Event :=
  .start .daemon "0.1.0" "f" :: steps 0 10 ++ .shutdown 0 :: steps 0 3 ++
    .start .ensureDaemon "0.1.0" "f" :: steps 1 11 ++ steps 0 1 ++
    .start .ensureDaemon "0.1.0" "f" :: steps 2 11

theorem not_exclusive_shutdownMeetsStart :
    ¬ (after next (atRest (fun _ => none) 0) shutdownMeetsStart).Exclusive := by
  intro h
  have hremoved := h.removals ⟨0, .startupLock, some 1, true⟩ (by decide +kernel) rfl
  cases hremoved

end Runtime

end AgentDaemon.Daemon.Startup
