import AgentDaemon.Lib.Transition
import AgentDaemon.Storage.Runs

/-!
The run store as a state machine. An `Op` is one call of a public method that can write,
with all its arguments; calls that only read are functions of the state. The connection sits
behind a mutex and every method is one transaction, so any interleaving of callers, restarts
included, is a list of operations.
-/

namespace AgentDaemon.Storage

open Provider Transition

inductive Op where
  | admitWithRoute (sessionId : SessionId) (requestId : RequestId) (input : String)
      (mode : AdmissionMode) (route : Option RouteSnapshot) (now : Int)
  | tryStartQueued (runId : RunId) (clock : Clock)
  | removeQueued (runId : RunId) (now : Int)
  | prepareToolBatch (runId : RunId) (round : Nat) (calls : List PreparedCall)
  | startTool (runId : RunId) (round : Nat) (callId : String) (now : Int)
  | finishTool (runId : RunId) (round : Nat) (callId outcome : String)
      (artifactRef : Option String) (receipt : Json) (now : Int)
  | finishToolBatch (runId : RunId) (round : Nat)
  | appendEvent (runId : RunId) (event : String) (data : Json)
  | claimInteraction (id : InteractionId) (sessionId : SessionId) (runId : RunId)
      (revision : Int) (approved : Bool)
  | finish (runId : RunId) (status : RunStatus) (content : Option String)
      (error : Option (Int × String)) (now : Int)
  | reconcileUnknown (runId : RunId) (sessionId : SessionId) (expectedLastSeq : Nat)
      (status : RunStatus) (content : Option String) (evidence digest : String) (now : Int)
  | recover (clock : Clock)
  | startProviderAttempt (attempt : ProviderAttempt)
  | finishProviderAttempt (attempt : ProviderAttempt)
  | admitDelegation (request : DelegationRequest) (clock : Clock)
  | reserveDelegationResult (childRunId : RunId) (owner : String) (revision : Int)
      (clock : Clock)
  | releaseDelegationResult (childRunId : RunId) (owner : String) (revision : Int)
      (clock : Clock)
  | deliverDelegationResult (childRunId : RunId) (owner : String) (revision : Int)
      (clock : Clock)

inductive Reply where
  | admission (a : Admission)
  | flag (b : Bool)
  | done
  | seq (n : Nat)
  | interaction (r : InteractionRecord)
  | run (r : RunRecord)
  | count (n : Nat)
  | delegation (r : DelegationRecord)
  deriving DecidableEq, Repr

namespace Op

/-- The run that an appended event asks an approval for, with the interaction it opens. -/
def requestsApproval : Op → Option (RunId × InteractionId)
  | .appendEvent runId event data => (RunStore.approvalRequested event data).map (runId, ·)
  | _ => none

/-- The run that an `approval_required` event is appended to. -/
def approvalRun : Op → Option RunId
  | .appendEvent runId event _ => if event = "approval_required" then some runId else none
  | _ => none

def starts : Op → Option RunId
  | .tryStartQueued runId _ => some runId
  | _ => none

def finishes : Op → Option RunId
  | .finish runId _ _ _ _ => some runId
  | _ => none

def reconciles : Op → Option RunId
  | .reconcileUnknown runId _ _ _ _ _ _ _ => some runId
  | _ => none

/-- The run on behalf of which the engine makes a call. -/
def engineRun : Op → Option RunId
  | prepareToolBatch runId _ _ | startTool runId _ _ _ | finishTool runId _ _ _ _ _ _
  | finishToolBatch runId _ | appendEvent runId _ _ => some runId
  | startProviderAttempt attempt | finishProviderAttempt attempt => some attempt.runId
  | _ => none

end Op

namespace RunStore

/-- Call a method. -/
def exec (s : RunStore) : Op → Except RuntimeError (Reply × RunStore)
  | .admitWithRoute sessionId requestId input mode route now =>
    Prod.map .admission id <$> s.admitWithRoute sessionId requestId input mode route now
  | .tryStartQueued runId clock => Prod.map .flag id <$> s.tryStartQueued runId clock
  | .removeQueued runId now => Prod.map .flag id <$> s.removeQueued runId now
  | .prepareToolBatch runId round calls =>
    Prod.map (fun _ => .done) id <$> s.prepareToolBatch runId round calls
  | .startTool runId round callId now =>
    Prod.map (fun _ => .done) id <$> s.startTool runId round callId now
  | .finishTool runId round callId outcome artifactRef receipt now =>
    Prod.map (fun _ => .done) id <$> s.finishTool runId round callId outcome artifactRef receipt now
  | .finishToolBatch runId round =>
    Prod.map (fun _ => .done) id <$> s.finishToolBatch runId round
  | .appendEvent runId event data => Prod.map .seq id <$> s.appendEvent runId event data
  | .claimInteraction id sessionId runId revision approved =>
    Prod.map .interaction (fun s => s) <$> s.claimInteraction id sessionId runId revision approved
  | .finish runId status content error now =>
    Prod.map .run id <$> s.finish runId status content error now
  | .reconcileUnknown runId sessionId expectedLastSeq status content evidence digest now =>
    Prod.map .run id <$>
      s.reconcileUnknown runId sessionId expectedLastSeq status content evidence digest now
  | .recover clock => Prod.map .count id <$> s.recover clock
  | .startProviderAttempt attempt =>
    Prod.map (fun _ => .done) id <$> s.startProviderAttempt attempt
  | .finishProviderAttempt attempt =>
    Prod.map (fun _ => .done) id <$> s.finishProviderAttempt attempt
  | .admitDelegation request clock =>
    Prod.map .delegation id <$> s.admitDelegation request clock
  | .reserveDelegationResult childRunId owner revision clock =>
    Prod.map .delegation id <$> s.reserveDelegationResult childRunId owner revision clock
  | .releaseDelegationResult childRunId owner revision clock =>
    Prod.map .delegation id <$> s.releaseDelegationResult childRunId owner revision clock
  | .deliverDelegationResult childRunId owner revision clock =>
    Prod.map .delegation id <$> s.deliverDelegationResult childRunId owner revision clock

/-- The store after a call: a failed transaction is rolled back. -/
def next (s : RunStore) (op : Op) : RunStore :=
  match s.exec op with
  | .ok (_, s') => s'
  | .error _ => s

theorem next_of_ok {s s' : RunStore} {op : Op} {r : Reply} (h : s.exec op = .ok (r, s')) :
    s.next op = s' := by
  simp only [next, h]

theorem next_of_error {s : RunStore} {op : Op} {e : RuntimeError} (h : s.exec op = .error e) :
    s.next op = s := by
  simp only [next, h]

end RunStore

/-- The store after a sequence of calls on a fresh database. -/
def storeAfter (ops : List Op) : RunStore := after RunStore.next .empty ops

theorem storeAfter_append (ops ops' : List Op) :
    storeAfter (ops ++ ops') = after RunStore.next (storeAfter ops) ops' := after_append _ _ _

/-- Approvals that open an interaction are requested only of runs in a status of `P`. -/
def ApprovalsOn (P : RunStatus → Bool) (s : RunStore) (op : Op) : Prop :=
  ∀ id i r, op.requestsApproval = some (id, i) → s.interactions.find? i = none →
    s.runs.find? id = some r → P r.status = true

/-- `approval_required` events are appended only to runs that are running or waiting. -/
def ApprovalsOnActive (s : RunStore) (op : Op) : Prop :=
  ∀ id r, op.approvalRun = some id → s.runs.find? id = some r → r.status.active = true

theorem ApprovalsOnActive.approvalsOn {s : RunStore} {op : Op} (h : ApprovalsOnActive s op) :
    ApprovalsOn RunStatus.active s op := by
  intro id i r hop _ hr
  refine h id r ?_ hr
  cases op with
  | appendEvent runId event data =>
    simp only [Op.requestsApproval, Option.map_eq_some_iff, Prod.mk.injEq] at hop
    obtain ⟨j, hj, rfl, -⟩ := hop
    unfold RunStore.approvalRequested at hj
    split at hj
    · rename_i he
      simp [Op.approvalRun, he]
    · cases hj
  | _ => cases hop

theorem approvalsOn_any (s : RunStore) (op : Op) : ApprovalsOn (fun _ => true) s op :=
  fun _ _ _ _ _ _ => rfl

end AgentDaemon.Storage
