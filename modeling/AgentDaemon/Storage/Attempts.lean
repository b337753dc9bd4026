import AgentDaemon.Provider.Audit
import AgentDaemon.Storage.Journal
import Mathlib.Algebra.Ring.Nat

/-!
The audit of provider attempts. The store tells the start of an attempt once and its end at most
once, keeps the record of an attempt that has ended, takes the same record again without a change
and refuses any other, and counts the usage of each attempt once (`attempts_audited`).
-/

namespace AgentDaemon.Storage

open Provider Transition Fallible

/-! ## What the audit is -/

def attemptStarted : String := "provider_attempt_started"

def attemptTerminal : String := "provider_attempt_terminal"

/-- The run and the attempt that an event of this kind is about. -/
def StoredEvent.mark (kind : String) (e : StoredEvent) : Option (RunId × String) :=
  if e.event = kind then ((e.data.get? "attempt_id").bind Json.asStr?).map (e.runId, ·) else none

structure Audit where
  attempts : Table ProviderAttempt.attemptId
  starts : List (RunId × String)
  ends : List (RunId × String)

namespace RunStore

def audit (s : RunStore) : Audit where
  attempts := s.providerAttempts
  starts := s.events.rows.filterMap (StoredEvent.mark attemptStarted)
  ends := s.events.rows.filterMap (StoredEvent.mark attemptTerminal)

/-- `provider_attempts`: the rows that the run has, oldest first. -/
def providerAttemptsOf (s : RunStore) (runId : RunId) : List ProviderAttempt :=
  s.providerAttempts.rows.filter fun a => a.runId = runId

/-- `provider_usage`. -/
def providerUsage (s : RunStore) (runId : RunId) : ProviderUsage :=
  ((s.providerAttemptsOf runId).filterMap ProviderAttempt.usage).foldl ProviderUsage.addAttempt .empty

end RunStore

/-- Every attempt has one start in the log of its run, and one end there once it has ended. -/
structure Audit.Once (a : Audit) : Prop where
  starts : a.starts = a.attempts.rows.map fun x => (x.runId, x.attemptId)
  ends : (a.ends.map Prod.snd).Nodup
  ended : ∀ runId id, (runId, id) ∈ a.ends ↔
    ∃ x, a.attempts.find? id = some x ∧ x.runId = runId ∧ x.status ≠ .started

/-! ## Operations on other things -/

/-- The event is not one of the audit. -/
def unaudited (event : String) : Bool := event != attemptStarted && event != attemptTerminal

namespace RunStore

variable {s s' : RunStore}

theorem insertEvent_marks {id : RunId} {event : String} {data : Json} {n : Nat}
    (h : s.insertEvent id event data = .ok (n, s')) (kind : String) :
    s'.events.rows.filterMap (StoredEvent.mark kind) =
      s.events.rows.filterMap (StoredEvent.mark kind) ++
        (StoredEvent.mark kind ⟨id, n, event, data⟩).toList := by
  obtain ⟨run, events, -, -, hev, rfl⟩ := insertEvent_spec h
  rw [Table.rows_insert hev, List.filterMap_append]
  rw [List.filterMap_cons, List.filterMap_nil]
  cases StoredEvent.mark kind ⟨id, n, event, data⟩ <;> rfl

theorem insertEvent_attempts {id : RunId} {event : String} {data : Json} {n : Nat}
    (h : s.insertEvent id event data = .ok (n, s')) :
    s'.providerAttempts = s.providerAttempts := by
  obtain ⟨run, events, -, -, -, rfl⟩ := insertEvent_spec h
  rfl

theorem insertEvent_audit {id : RunId} {event : String} {data : Json} {n : Nat}
    (h : s.insertEvent id event data = .ok (n, s')) (he : unaudited event = true) :
    s'.audit = s.audit := by
  simp only [unaudited, Bool.and_eq_true, bne_iff_ne] at he
  simp only [audit, insertEvent_attempts h, insertEvent_marks h, StoredEvent.mark, if_neg he.1,
    if_neg he.2, Option.toList_none, List.append_nil]

theorem insertContent_audit {id : RunId} {data : Option Json}
    (h : s.insertContent id data = .ok s') : s'.audit = s.audit := by
  unfold insertContent at h
  split at h
  · cases h
    rfl
  · obtain ⟨⟨n, s₁⟩, hev, rfl⟩ := map_eq_ok.mp h
    exact insertEvent_audit hev (by decide)

theorem markTerminalIn_audit {id : RunId} {rec : RunRecord} {now : Int}
    (h : s.markTerminalIn id rec now = .ok s') : s'.audit = s.audit := by
  rcases markTerminalIn_cases h with ⟨-, rfl⟩ | ⟨d, -, rfl | ⟨parent, n, data, -, -, hev⟩⟩
  · rfl
  · rfl
  · have he := insertEvent_audit hev (by decide)
    exact he

theorem enqueueRun_audit {sid : SessionId} {rid : RequestId} {input : String}
    {route : Option RouteSnapshot} {now : Int} {id : RunId}
    (h : s.enqueueRun sid rid input route now = .ok (id, s')) : s'.audit = s.audit := by
  simp only [enqueueRun, bind_eq_ok, constraint_eq_ok, pure_eq_ok] at h
  obtain ⟨runs, hruns, turns, -, routes, -, ⟨n, s₁⟩, hev, queued, -, h⟩ := h
  have he := insertEvent_audit hev (by decide)
  cases h
  exact he

theorem tryStartQueued_audit {id : RunId} {clock : Clock} {b : Bool}
    (h : s.tryStartQueued id clock = .ok (b, s')) : s'.audit = s.audit := by
  rcases tryStartQueued_cases h with ⟨-, rfl, -⟩ | ⟨n, data, s₁, -, -, -, -, hev, rfl⟩
  · rfl
  · have he := insertEvent_audit hev (by decide)
    exact he

theorem removeQueued_audit {id : RunId} {now : Int} {b : Bool}
    (h : s.removeQueued id now = .ok (b, s')) : s'.audit = s.audit := by
  rcases removeQueued_cases h with ⟨rfl, -, n, s₁, rec, hev, -, hterm⟩ | ⟨rfl, -, rfl⟩
  · have he := insertEvent_audit hev (by decide)
    exact (markTerminalIn_audit hterm).trans he
  · rfl

theorem moveTool_audit {id : RunId} {round : Nat} {callId : String} {source : ToolStatus}
    {f : ToolExecution → ToolExecution} {hf : ∀ t, (f t).key = t.key} {message : String} {u : Unit}
    (h : s.moveTool id round callId source f hf message = .ok (u, s')) : s'.audit = s.audit := by
  rw [moveTool_eq h]
  rfl

theorem appendEvent_audit {id : RunId} {event : String} {data : Json} {n : Nat}
    (h : s.appendEvent id event data = .ok (n, s')) (he : unaudited event = true) :
    s'.audit = s.audit := by
  obtain ⟨s₁, hev, ⟨-, rfl⟩ | ⟨i, prompt, payload, interactions, -, -, -, rfl⟩⟩ :=
    appendEvent_cases h
  · exact insertEvent_audit hev he
  · have hs₁ := insertEvent_audit hev he
    exact hs₁

theorem claimInteraction_audit {i : InteractionId} {sid : SessionId} {id : RunId}
    {revision : Int} {approved : Bool} {rec : InteractionRecord}
    (h : s.claimInteraction i sid id revision approved = .ok (rec, s')) : s'.audit = s.audit := by
  rcases claimInteraction_cases h with ⟨rfl, -⟩ | ⟨x, run, n, -, -, -, -, -, -, -, hev, -⟩
  · rfl
  · rw [insertEvent_audit hev (by decide), answering]
    split <;> rfl

theorem finish_audit {id : RunId} {status : RunStatus} {content : Option String}
    {error : Option (Int × String)} {now : Int} {rec : RunRecord}
    (h : s.finish id status content error now = .ok (rec, s')) : s'.audit = s.audit := by
  obtain ⟨-, ⟨rfl, -⟩ | ⟨current, s₁, n, s₂, data, -, -, hcontent, hev, -, hmark⟩⟩ := finish_cases h
  · rfl
  · have he := insertEvent_audit hev (by decide)
    exact (markTerminalIn_audit hmark).trans (he.trans (insertContent_audit hcontent))

theorem reconcileUnknown_audit {id : RunId} {sid : SessionId} {seq : Nat} {status : RunStatus}
    {content : Option String} {evidence digest : String} {now : Int} {rec : RunRecord}
    (h : s.reconcileUnknown id sid seq status content evidence digest now = .ok (rec, s')) :
    s'.audit = s.audit := by
  obtain ⟨-, -, current, s₁, n, s₂, kept, payload, data, -, -, hcontent, hev, -, hmark⟩ :=
    reconcileUnknown_cases h
  have he := insertEvent_audit hev (by decide)
  exact (markTerminalIn_audit hmark).trans (he.trans (insertContent_audit hcontent))

theorem recoverRun_audit {id : RunId} {now : Int} (h : s.recoverRun id now = .ok s') :
    s'.audit = s.audit := by
  obtain ⟨n, s₁, rec, hev, -, hterm⟩ := recoverRun_cases h
  have he := insertEvent_audit hev (by decide)
  exact (markTerminalIn_audit hterm).trans he

theorem recoverRuns_audit {clock : Clock} (l : List (RunId × Nat))
    (h : l.foldlM (fun s (p : RunId × Nat) => s.recoverRun p.1 (clock p.2)) s = .ok s') :
    s'.audit = s.audit := by
  induction l generalizing s with
  | nil =>
    rw [List.foldlM_nil, pure_eq_ok] at h
    rw [h]
  | cons p l ih =>
    rw [List.foldlM_cons, bind_eq_ok] at h
    obtain ⟨s₁, hs₁, h⟩ := h
    exact (ih h).trans (recoverRun_audit hs₁)

theorem recover_audit {clock : Clock} {n : Nat} (h : s.recover clock = .ok (n, s')) :
    s'.audit = s.audit := by
  unfold recover at h
  obtain ⟨s₁, hfold, h⟩ := bind_eq_ok.mp h
  have he := recoverRuns_audit _ hfold
  cases h
  exact he

theorem enqueueChild_audit {request : DelegationRequest} {position : TreePosition} {now : Int}
    {rec : DelegationRecord} (h : s.enqueueChild request position now = .ok (rec, s')) :
    s'.audit = s.audit := by
  simp only [enqueueChild, bind_eq_ok, constraint_eq_ok] at h
  obtain ⟨sessions, -, ⟨id, s₁⟩, henq, delegations, -, ⟨n, s₂⟩, hev, h⟩ := h
  have he := insertEvent_audit hev (by decide)
  have henqueue := enqueueRun_audit henq
  dsimp only at h
  split at h
  · cases h
  · cases h
    exact he.trans henqueue

theorem writeDelegation_audit {id : RunId} {f : Delegation → Delegation}
    {hf : ∀ d, (f d).childRunId = d.childRunId} {rec : DelegationRecord}
    (h : s.writeDelegation id f hf = .ok (rec, s')) : s'.audit = s.audit := by
  rw [(writeDelegation_cases h).2]
  rfl

/-! ## Operations on attempts -/

theorem startProviderAttempt_audit {attempt : ProviderAttempt} {u : Unit}
    (h : s.startProviderAttempt attempt = .ok (u, s')) :
    ∃ attempts, s.providerAttempts.insert attempt = some attempts ∧ attempt.status = .started ∧
      s'.audit = ⟨attempts, s.audit.starts ++ [(attempt.runId, attempt.attemptId)], s.audit.ends⟩ := by
  unfold startProviderAttempt at h
  split at h
  · cases h
  rename_i hstatus
  split at h
  · cases h
  obtain ⟨attempts, hins, h⟩ := bind_eq_ok.mp h
  obtain ⟨⟨n, s₁⟩, hev, h⟩ := bind_eq_ok.mp h
  cases h
  refine ⟨attempts, constraint_eq_ok.mp hins, not_not.mp hstatus, ?_⟩
  simp [audit, insertEvent_attempts hev, insertEvent_marks hev, StoredEvent.mark, attemptStarted,
    attemptTerminal, Json.get?, Json.asStr?]

/-- The record of an attempt once it has ended. -/
theorem attemptId_ended (attempt a : ProviderAttempt) :
    ({ attempt with attemptId := a.attemptId } : ProviderAttempt).attemptId = a.attemptId := rfl

def ended (t : Table ProviderAttempt.attemptId) (attempt : ProviderAttempt) :
    Table ProviderAttempt.attemptId :=
  t.update (fun a => a.attemptId = attempt.attemptId && a.status = .started)
    (fun a => { attempt with attemptId := a.attemptId }) (attemptId_ended attempt)

/-- What a call that ends an attempt has found. -/
structure Ends (s : RunStore) (attempt previous : ProviderAttempt) : Prop where
  found : s.providerAttempts.find? attempt.attemptId = some previous
  started : previous.status = .started
  terminal : attempt.status ≠ .started
  runId : previous.runId = attempt.runId
  round : previous.round = attempt.round
  candidateIndex : previous.candidateIndex = attempt.candidateIndex

theorem finishProviderAttempt_audit {attempt : ProviderAttempt} {u : Unit}
    (h : s.finishProviderAttempt attempt = .ok (u, s')) :
    (s' = s ∧ s.providerAttempts.find? attempt.attemptId = some attempt ∧
      attempt.status ≠ .started) ∨
    ∃ previous, s.Ends attempt previous ∧
      s'.audit = ⟨ended s.providerAttempts attempt, s.audit.starts,
        s.audit.ends ++ [(attempt.runId, attempt.attemptId)]⟩ := by
  unfold finishProviderAttempt at h
  split at h
  · cases h
  rename_i hterminal
  split at h
  · cases h
  rename_i previous hfound
  split at h
  · split at h
    · rename_i heq
      cases h
      exact .inl ⟨rfl, heq ▸ hfound, hterminal⟩
    · cases h
  rename_i hstarted
  split at h
  · cases h
  rename_i howner
  simp only [ne_eq, not_or, not_not] at hstarted howner
  obtain ⟨⟨n, s₁⟩, hev, h⟩ := bind_eq_ok.mp h
  cases h
  refine .inr ⟨previous, ⟨hfound, hstarted, hterminal, howner.1, howner.2.1, howner.2.2⟩, ?_⟩
  simp [audit, insertEvent_attempts hev, insertEvent_marks hev, StoredEvent.mark, attemptStarted,
    attemptTerminal, Json.get?, Json.asStr?, ended]

end RunStore

/-- The operation tells nothing of provider attempts but through their own operations. -/
def Op.unaudited : Op → Bool
  | .appendEvent _ event _ => Storage.unaudited event
  | _ => true

/-- What an operation does to the audit. -/
inductive Audited (s s' : RunStore) : Op → Prop
  | start {attempt : ProviderAttempt} (h : s.startProviderAttempt attempt = .ok ((), s')) :
      Audited s s' (.startProviderAttempt attempt)
  | finish {attempt : ProviderAttempt} (h : s.finishProviderAttempt attempt = .ok ((), s')) :
      Audited s s' (.finishProviderAttempt attempt)
  | other {op : Op} (h : s'.audit = s.audit) : Audited s s' op

theorem exec_audited {s s' : RunStore} {op : Op} {reply : Reply}
    (h : s.exec op = .ok (reply, s')) (hop : op.unaudited = true) : Audited s s' op := by
  cases op with
  | admitWithRoute sid rid input mode route now =>
    obtain ⟨r, -, hx⟩ := RunStore.of_exec h
    rcases RunStore.admitWithRoute_cases hx with ⟨stored, -, -, -, -, -, rfl⟩ | ⟨-, rec, -, -, henq⟩
    · exact .other rfl
    · have he := RunStore.enqueueRun_audit henq
      exact .other (he.trans rfl)
  | tryStartQueued id clock =>
    obtain ⟨r, -, hx⟩ := RunStore.of_exec h
    exact .other (RunStore.tryStartQueued_audit hx)
  | removeQueued id now =>
    obtain ⟨b, -, hx⟩ := RunStore.of_exec h
    exact .other (RunStore.removeQueued_audit hx)
  | prepareToolBatch id round calls =>
    obtain ⟨r, -, hx⟩ := RunStore.of_exec h
    obtain ⟨run, tools, n, data, -, -, -, -, hev⟩ := RunStore.prepareToolBatch_cases hx
    have he := RunStore.insertEvent_audit hev (by decide)
    exact .other he
  | startTool id round callId now =>
    obtain ⟨r, -, hx⟩ := RunStore.of_exec h
    exact .other (RunStore.moveTool_audit hx)
  | finishTool id round callId outcome artifactRef receipt now =>
    obtain ⟨r, -, hx⟩ := RunStore.of_exec h
    exact .other (RunStore.moveTool_audit hx)
  | finishToolBatch id round =>
    obtain ⟨r, -, hx⟩ := RunStore.of_exec h
    obtain ⟨n, data, hev⟩ := RunStore.finishToolBatch_cases hx
    exact .other (RunStore.insertEvent_audit hev (by decide))
  | appendEvent id event data =>
    obtain ⟨r, -, hx⟩ := RunStore.of_exec h
    exact .other (RunStore.appendEvent_audit hx hop)
  | claimInteraction i sid id revision approved =>
    obtain ⟨r, -, hx⟩ := RunStore.of_exec h
    exact .other (RunStore.claimInteraction_audit hx)
  | finish id status content error now =>
    obtain ⟨r, -, hx⟩ := RunStore.of_exec h
    exact .other (RunStore.finish_audit hx)
  | reconcileUnknown id sid seq status content evidence digest now =>
    obtain ⟨r, -, hx⟩ := RunStore.of_exec h
    exact .other (RunStore.reconcileUnknown_audit hx)
  | recover clock =>
    obtain ⟨r, -, hx⟩ := RunStore.of_exec h
    exact .other (RunStore.recover_audit hx)
  | startProviderAttempt attempt =>
    obtain ⟨r, -, hx⟩ := RunStore.of_exec h
    exact .start hx
  | finishProviderAttempt attempt =>
    obtain ⟨r, -, hx⟩ := RunStore.of_exec h
    exact .finish hx
  | admitDelegation request clock =>
    obtain ⟨rec, -, hx⟩ := RunStore.of_exec h
    rcases RunStore.admitDelegation_spec hx with ⟨rfl, -⟩ | ⟨parent, -, -, hx⟩
    · exact .other rfl
    · exact .other (RunStore.enqueueChild_audit hx)
  | reserveDelegationResult child owner revision clock =>
    obtain ⟨r, -, hx⟩ := RunStore.of_exec h
    rcases RunStore.reserveDelegationResult_cases hx with ⟨rfl, -⟩ | ⟨d, -, -, -, expired, hf, hwrite⟩
    · exact .other rfl
    · exact .other (RunStore.writeDelegation_audit hwrite)
  | releaseDelegationResult child owner revision clock =>
    obtain ⟨r, -, hx⟩ := RunStore.of_exec h
    rcases RunStore.transitionResult_cases hx with ⟨rfl, -⟩ | ⟨d, -, -, hwrite⟩
    · exact .other rfl
    · exact .other (RunStore.writeDelegation_audit hwrite)
  | deliverDelegationResult child owner revision clock =>
    obtain ⟨r, -, hx⟩ := RunStore.of_exec h
    rcases RunStore.transitionResult_cases hx with ⟨rfl, -⟩ | ⟨d, -, -, hwrite⟩
    · exact .other rfl
    · exact .other (RunStore.writeDelegation_audit hwrite)

/-! ## The audit of a run -/

section Run

variable {s s' : RunStore}

theorem find?_ended {t : Table ProviderAttempt.attemptId} {attempt previous : ProviderAttempt}
    (hfound : t.find? attempt.attemptId = some previous) (hstarted : previous.status = .started)
    (id : String) : (RunStore.ended t attempt).find? id =
      if id = attempt.attemptId then some attempt else t.find? id := by
  rw [RunStore.ended, Table.find?_update]
  by_cases hid : id = attempt.attemptId
  · have hkey : previous.attemptId = attempt.attemptId := Table.key_of_find? hfound
    simp [hid, hfound, hstarted, hkey]
  · rw [if_neg hid]
    cases hx : t.find? id with
    | none => rfl
    | some x =>
      have hkey : x.attemptId = id := Table.key_of_find? hx
      simp [hkey, hid]

/-- The end of an attempt leaves its run and its id. -/
theorem owners_ended {t : Table ProviderAttempt.attemptId} {attempt previous : ProviderAttempt}
    (hfound : t.find? attempt.attemptId = some previous) (hrun : previous.runId = attempt.runId) :
    (RunStore.ended t attempt).rows.map (fun x => (x.runId, x.attemptId)) =
      t.rows.map fun x => (x.runId, x.attemptId) := by
  have hrow : ∀ r ∈ t.rows, (if decide (r.attemptId = attempt.attemptId) && r.status = .started
      then { attempt with attemptId := r.attemptId } else r).runId = r.runId := by
    intro r hr
    split
    · rename_i hp
      simp only [Bool.and_eq_true, decide_eq_true_eq] at hp
      have hfind := Table.find?_of_mem hr
      rw [hp.1, hfound] at hfind
      cases hfind
      exact hrun.symm
    · rfl
  rw [RunStore.ended, Table.rows_update, List.map_map]
  apply List.map_congr_left
  intro r hr
  have hid : (if decide (r.attemptId = attempt.attemptId) && r.status = .started
      then { attempt with attemptId := r.attemptId } else r).attemptId = r.attemptId := by
    split <;> rfl
  exact Prod.ext (hrow r hr) hid

/-- The record of an attempt that has ended stays. -/
theorem Audited.keeps {op : Op} (h : Audited s s' op) {id : String} {x : ProviderAttempt}
    (hx : s.providerAttempts.find? id = some x) (hterminal : x.status ≠ .started) :
    s'.providerAttempts.find? id = some x := by
  cases h with
  | start h =>
    obtain ⟨attempts, hins, -, he⟩ := RunStore.startProviderAttempt_audit h
    have hattempts : s'.providerAttempts = attempts := congrArg Audit.attempts he
    rw [hattempts]
    exact Table.find?_insert_of_some hins hx
  | @finish attempt h =>
    rcases RunStore.finishProviderAttempt_audit h with ⟨rfl, -⟩ | ⟨previous, hends, he⟩
    · exact hx
    · have hattempts : s'.providerAttempts = RunStore.ended s.providerAttempts attempt :=
        congrArg Audit.attempts he
      rw [hattempts, find?_ended hends.found hends.started, if_neg]
      · exact hx
      · rintro rfl
        have hsame : x = previous := Option.some.inj (hx.symm.trans hends.found)
        exact hterminal (hsame ▸ hends.started)
  | other h =>
    have hattempts : s'.providerAttempts = s.providerAttempts := congrArg Audit.attempts h
    rw [hattempts]
    exact hx

namespace Audit.Once

theorem start {attempt : ProviderAttempt} {u : Unit} (hs : s.audit.Once)
    (h : s.startProviderAttempt attempt = .ok (u, s')) : s'.audit.Once := by
  obtain ⟨attempts, hins, hstarted, he⟩ := RunStore.startProviderAttempt_audit h
  have hfresh : s.providerAttempts.find? attempt.attemptId = none := Table.insert_fresh hins
  rw [he]
  refine ⟨?_, hs.ends, fun runId id => ?_⟩
  · rw [Table.rows_insert hins, List.map_append, hs.starts]
    rfl
  · rw [hs.ended]
    dsimp only [RunStore.audit]
    rw [Table.find?_insert hins]
    by_cases hid : attempt.attemptId = id
    · subst hid
      simp [hfresh, hstarted]
    · rw [if_neg hid]

theorem finish {attempt : ProviderAttempt} {u : Unit} (hs : s.audit.Once)
    (h : s.finishProviderAttempt attempt = .ok (u, s')) : s'.audit.Once := by
  rcases RunStore.finishProviderAttempt_audit h with ⟨rfl, -⟩ | ⟨previous, hends, he⟩
  · exact hs
  have hfind := find?_ended hends.found hends.started
  have hnew : attempt.attemptId ∉ s.audit.ends.map Prod.snd := by
    intro hmem
    obtain ⟨⟨runId, id⟩, hend, hid⟩ := List.mem_map.mp hmem
    obtain ⟨x, hx, -, hterminal⟩ := (hs.ended runId id).mp hend
    dsimp only at hid
    rw [hid] at hx
    have hsame : x = previous := Option.some.inj (hx.symm.trans hends.found)
    exact hterminal (hsame ▸ hends.started)
  rw [he]
  refine ⟨?_, ?_, fun runId id => ?_⟩
  · exact hs.starts.trans (owners_ended hends.found hends.runId).symm
  · rw [List.map_append]
    exact Journal.nodup_concat hs.ends hnew
  · rw [List.mem_append, hs.ended, List.mem_singleton]
    dsimp only [RunStore.audit]
    rw [hfind]
    by_cases hid : id = attempt.attemptId
    · subst hid
      simp only [hends.found, Option.some.injEq, Prod.mk.injEq, and_true, if_true]
      constructor
      · rintro (⟨x, rfl, -, hterminal⟩ | rfl)
        · exact absurd hends.started hterminal
        · exact ⟨attempt, rfl, rfl, hends.terminal⟩
      · rintro ⟨x, rfl, rfl, -⟩
        exact .inr rfl
    · simp [hid]

theorem audited {op : Op} (hs : s.audit.Once) (h : Audited s s' op) : s'.audit.Once := by
  cases h with
  | start h => exact hs.start h
  | finish h => exact hs.finish h
  | other h =>
    rw [h]
    exact hs

end Audit.Once

/-- An operation that fails leaves the audit. -/
theorem next_audited (s : RunStore) {op : Op} (hop : op.unaudited = true) :
    Audited s (s.next op) op := by
  cases h : s.exec op with
  | ok r =>
    rw [RunStore.next_of_ok h]
    exact exec_audited h hop
  | error e =>
    rw [RunStore.next_of_error h]
    exact .other rfl

end Run

/-! ## Calls that are made again -/

namespace RunStore

variable {s : RunStore} {attempt previous : ProviderAttempt}

/-- The same end again. -/
theorem finishProviderAttempt_again
    (hfound : s.providerAttempts.find? attempt.attemptId = some previous)
    (hterminal : previous.status ≠ .started) (hsame : previous.toJson = attempt.toJson) :
    s.exec (.finishProviderAttempt attempt) = .ok (.done, s) := by
  obtain rfl := ProviderAttempt.toJson_inj hsame
  simp only [exec, finishProviderAttempt, hfound, if_neg hterminal, if_pos hterminal, if_true]
  rfl

/-- Another end, or the end of another attempt under this id. -/
theorem finishProviderAttempt_conflict
    (hfound : s.providerAttempts.find? attempt.attemptId = some previous)
    (hother : previous.status ≠ .started ∧ previous ≠ attempt ∨ previous.runId ≠ attempt.runId ∨
      previous.round ≠ attempt.round ∨ previous.candidateIndex ≠ attempt.candidateIndex) :
    ∃ e, s.exec (.finishProviderAttempt attempt) = .error e := by
  cases h : s.exec (.finishProviderAttempt attempt) with
  | error e => exact ⟨e, rfl⟩
  | ok r =>
    obtain ⟨answer, s'⟩ := r
    obtain ⟨u, -, hx⟩ := of_exec h
    exfalso
    rcases finishProviderAttempt_audit hx with ⟨-, hsame, hterminal⟩ | ⟨stored, hends, -⟩
    · cases hfound.symm.trans hsame
      rcases hother with h | h | h | h
      · exact h.2 rfl
      · exact h rfl
      · exact h rfl
      · exact h rfl
    · cases hfound.symm.trans hends.found
      rcases hother with h | h | h | h
      · exact h.1 hends.started
      · exact h hends.runId
      · exact h hends.round
      · exact h hends.candidateIndex

/-- A second start. -/
theorem startProviderAttempt_again
    (hfound : s.providerAttempts.find? attempt.attemptId = some previous) :
    ∃ e, s.exec (.startProviderAttempt attempt) = .error e := by
  cases h : s.exec (.startProviderAttempt attempt) with
  | error e => exact ⟨e, rfl⟩
  | ok r =>
    obtain ⟨answer, s'⟩ := r
    obtain ⟨u, -, hx⟩ := of_exec h
    obtain ⟨attempts, hins, -⟩ := startProviderAttempt_audit hx
    have hfresh : s.providerAttempts.find? attempt.attemptId = none := Table.insert_fresh hins
    cases hfound.symm.trans hfresh

end RunStore

/-! ## Audited once -/

/-- The ids of the attempts that a run has started, in their order. -/
def RunStore.startedAttempts (s : RunStore) (runId : RunId) : List String :=
  (s.audit.starts.filter fun mark => mark.1 = runId).map Prod.snd

/-- What a store is when every attempt is audited once. -/
structure AuditedOnce (s : RunStore) : Prop where
  /-- The log has one start of every attempt. -/
  started : ∀ id, (s.audit.starts.map Prod.snd).count id =
    if (s.providerAttempts.find? id).isSome then 1 else 0
  /-- It has one end of every attempt that has ended. -/
  terminal : ∀ id, (s.audit.ends.map Prod.snd).count id =
    if (s.providerAttempts.find? id).any (·.status ≠ .started) then 1 else 0
  restarted : ∀ attempt previous : ProviderAttempt,
    s.providerAttempts.find? attempt.attemptId = some previous →
      (∃ e, s.exec (.startProviderAttempt attempt) = .error e) ∧
        s.next (.startProviderAttempt attempt) = s
  repeated : ∀ attempt previous : ProviderAttempt,
    s.providerAttempts.find? attempt.attemptId = some previous → previous.status ≠ .started →
      previous.toJson = attempt.toJson →
        s.exec (.finishProviderAttempt attempt) = .ok (.done, s) ∧
          s.next (.finishProviderAttempt attempt) = s
  refused : ∀ attempt previous : ProviderAttempt,
    s.providerAttempts.find? attempt.attemptId = some previous →
      previous.status ≠ .started ∧ previous ≠ attempt ∨ previous.runId ≠ attempt.runId ∨
        previous.round ≠ attempt.round ∨ previous.candidateIndex ≠ attempt.candidateIndex →
        (∃ e, s.exec (.finishProviderAttempt attempt) = .error e) ∧
          s.next (.finishProviderAttempt attempt) = s
  /-- Each attempt that the run has started counts once. -/
  usage : ∀ runId, ∀ f ∈ ProviderUsage.fields, f (s.providerUsage runId) =
    saturatingSum ((s.startedAttempts runId).map fun id =>
      (s.providerAttempts.find? id).bind fun attempt => attempt.usage.bind f)

theorem saturatingSum_filterMap {α : Type} (l : List α) (g : α → Option ProviderUsage)
    (f : ProviderUsage → Option Nat) :
    saturatingSum ((l.filterMap g).map f) = saturatingSum (l.map fun x => (g x).bind f) := by
  have hany : ∀ l : List α, ((l.filterMap g).map f).any Option.isSome =
      (l.map fun x => (g x).bind f).any Option.isSome := by
    intro l
    induction l with
    | nil => rfl
    | cons x l ih => cases hx : g x <;> simp_all
  have hsum : ∀ l : List α, (((l.filterMap g).map f).map (Option.getD · 0)).sum =
      ((l.map fun x => (g x).bind f).map (Option.getD · 0)).sum := by
    intro l
    induction l with
    | nil => rfl
    | cons x l ih => cases hx : g x <;> simp_all
  rw [saturatingSum, saturatingSum, hany, hsum]

theorem Audit.Once.startedAttempts_eq {s : RunStore} (hs : s.audit.Once) (runId : RunId) :
    s.startedAttempts runId = (s.providerAttemptsOf runId).map ProviderAttempt.attemptId := by
  rw [RunStore.startedAttempts, hs.starts, List.filter_map, List.map_map]
  rfl

theorem Audit.Once.auditedOnce {s : RunStore} (hs : s.audit.Once) : AuditedOnce s where
  started := by
    intro id
    have hids : s.audit.starts.map Prod.snd =
        s.providerAttempts.rows.map ProviderAttempt.attemptId := by
      rw [hs.starts, List.map_map]
      rfl
    rw [hids, s.providerAttempts.nodup.count]
    congr 1
    rw [eq_iff_iff, Option.isSome_iff_exists]
    constructor
    · intro hmem
      obtain ⟨x, hx, rfl⟩ := List.mem_map.mp hmem
      exact ⟨x, Table.find?_of_mem hx⟩
    · rintro ⟨x, hx⟩
      exact List.mem_map.mpr ⟨x, Table.mem_of_find? hx, Table.key_of_find? hx⟩
  terminal := by
    intro id
    rw [hs.ends.count]
    congr 1
    rw [eq_iff_iff, Option.any_eq_true]
    constructor
    · intro hmem
      obtain ⟨⟨runId, id⟩, hend, rfl⟩ := List.mem_map.mp hmem
      obtain ⟨x, hx, -, hterminal⟩ := (hs.ended runId _).mp hend
      exact ⟨x, hx, decide_eq_true hterminal⟩
    · rintro ⟨x, hx, hterminal⟩
      have hend := (hs.ended x.runId id).mpr ⟨x, hx, rfl, of_decide_eq_true hterminal⟩
      exact List.mem_map.mpr ⟨_, hend, rfl⟩
  restarted := by
    intro attempt previous hfound
    obtain ⟨e, he⟩ := RunStore.startProviderAttempt_again hfound
    exact ⟨⟨e, he⟩, RunStore.next_of_error he⟩
  repeated := by
    intro attempt previous hfound hterminal hsame
    have h := RunStore.finishProviderAttempt_again hfound hterminal hsame
    exact ⟨h, RunStore.next_of_ok h⟩
  refused := by
    intro attempt previous hfound hother
    obtain ⟨e, he⟩ := RunStore.finishProviderAttempt_conflict hfound hother
    exact ⟨⟨e, he⟩, RunStore.next_of_error he⟩
  usage := by
    intro runId f hf
    rw [RunStore.providerUsage, field_foldl_addAttempt _ hf, saturatingSum_filterMap,
      hs.startedAttempts_eq, List.map_map]
    congr 1
    apply List.map_congr_left
    intro x hx
    have hrow : x ∈ s.providerAttempts.rows := (List.mem_filter.mp hx).1
    simp [Table.find?_of_mem hrow]

/-- After every sequence of operations each attempt is audited once, and the record of an attempt
that has ended is the one it ended with. -/
theorem attempts_audited (ops : List Op) (h : ∀ op ∈ ops, op.unaudited = true) :
    AuditedOnce (storeAfter ops) ∧
      ∀ pre, pre <+: ops → ∀ (id : String) (x : ProviderAttempt),
        (storeAfter pre).providerAttempts.find? id = some x → x.status ≠ .started →
          (storeAfter ops).providerAttempts.find? id = some x := by
  have halong : ∀ (s : RunStore) (l : List Op), (∀ op ∈ l, op.unaudited = true) →
      Along RunStore.next (fun _ op => op.unaudited = true) s l := by
    intro s l hl
    exact along_mono (along_true s l) fun _ op hop _ => hl op hop
  have hempty : RunStore.empty.audit.Once :=
    ⟨rfl, List.nodup_nil, fun _ _ => by simp [RunStore.audit, RunStore.empty]⟩
  constructor
  · have hs : (storeAfter ops).audit.Once :=
      after_induct (I := fun s : RunStore => s.audit.Once)
        (fun s op hs hop => hs.audited (next_audited s hop)) hempty (halong _ ops h)
    exact hs.auditedOnce
  · rintro pre ⟨post, rfl⟩ id x hx hterminal
    rw [storeAfter_append]
    have hpost := halong (storeAfter pre) post fun op hop => h op (List.mem_append_right _ hop)
    exact after_induct (I := fun s => s.providerAttempts.find? id = some x)
      (fun s op hs hop => (next_audited s hop).keeps hs hterminal) hx hpost

/-! ### A retried attempt -/

/-- The first attempt of the first round of a run. -/
def firstAttempt (status : AttemptStatus) (usage : Option ProviderUsage) : ProviderAttempt where
  attemptId := "run-1:0:0:0"
  runId := runIdOf 1
  round := 0
  candidateIndex := 0
  providerProfileId := "default"
  apiType := .openaiChat
  model := "m"
  status := status
  errorKind := none
  diagnostic := none
  retryAfterMs := none
  streamCommitted := false
  startedAtMs := 1
  firstEventAtMs := none
  finishedAtMs := none
  usage := usage

/-- An attempt, and another one that reports more tokens than can be counted. -/
def twoAttempts : List Op :=
  [.admitWithRoute ⟨"s"⟩ (.string "r") "hello" .queue none 0,
    .startProviderAttempt (firstAttempt .started none),
    .finishProviderAttempt (firstAttempt .failed (some ⟨some 3, none, none, none⟩)),
    .finishProviderAttempt (firstAttempt .succeeded (some ⟨some 9, none, none, none⟩)),
    .startProviderAttempt { firstAttempt .started none with attemptId := "run-1:0:0:1" },
    .finishProviderAttempt { firstAttempt .succeeded (some ⟨some u64Max, some 1, none, none⟩) with
      attemptId := "run-1:0:0:1" }]

theorem audited_twoAttempts : (AuditedOnce (storeAfter twoAttempts) ∧
      ∀ pre, pre <+: twoAttempts → ∀ (id : String) (x : ProviderAttempt),
        (storeAfter pre).providerAttempts.find? id = some x → x.status ≠ .started →
          (storeAfter twoAttempts).providerAttempts.find? id = some x) ∧
    (storeAfter twoAttempts).providerUsage (runIdOf 1) = ⟨some u64Max, some 1, none, none⟩ :=
  ⟨attempts_audited twoAttempts (by decide), by decide +kernel⟩

end AgentDaemon.Storage
