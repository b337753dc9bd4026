import AgentDaemon.Storage.Receipts
import AgentDaemon.Lib.Slots
import AgentDaemon.Lib.Utf8

/-!
The calls that run and the receipts that the store has of them. A call begins only after its receipt
has left `prepared`, and the receipt becomes terminal only after the call has returned, in every
order of the steps of any number of executions and of the other operations of the store, and
wherever an execution is dropped. So the receipts show every call that may have had an effect
(`ledger_honest`).
-/

namespace AgentDaemon.Engine.Ledger

open Storage Transition Slots

/-! ## Executions -/

/-- What a tool gives back, or the text of its error. -/
structure Outcome where
  content : String
  error : Option String
  deriving DecidableEq, Repr

/-- Where an `execute_one` is. `refused` has not begun; `lost` has been dropped, or could not record
what its call has given back, and says how far it has come. -/
inductive Phase where
  | waiting
  | started
  | running
  | returned (outcome : Outcome)
  | recorded
  | refused
  | lost (began returned : Bool)
  deriving DecidableEq, Repr

namespace Phase

/-- `start_tool` has succeeded. -/
def claimed : Phase → Bool
  | waiting | refused => false
  | _ => true

/-- The tool has been called. -/
def began : Phase → Bool
  | running | returned _ | recorded => true
  | lost began _ => began
  | _ => false

/-- The status of the receipt. -/
def status : Phase → ToolStatus
  | waiting | refused => .prepared
  | recorded => .terminal
  | _ => .running

/-- The future is dropped, at a cancellation or a crash. -/
def dropped : Phase → Phase
  | waiting => refused
  | started => lost false false
  | running => lost true false
  | returned _ => lost true true
  | phase => phase

theorem claimed_of_began {phase : Phase} (h : phase.began = true) : phase.claimed = true := by
  cases phase <;> first | rfl | cases h

theorem status_ne_prepared {phase : Phase} (h : phase.claimed = true) :
    phase.status ≠ .prepared := by
  cases phase with
  | waiting => cases h
  | refused => cases h
  | _ => exact fun e => by cases e

theorem status_of_not_claimed {phase : Phase} (h : ¬ phase.claimed = true) :
    phase.status = .prepared := by
  cases phase <;> first | rfl | exact absurd rfl h

theorem status_terminal_iff {phase : Phase} : phase.status = .terminal ↔ phase = .recorded := by
  cases phase <;> simp [status]

end Phase

/-- The run, the round and the call. -/
abbrev Key := RunId × Nat × String

structure Execution where
  key : Key
  phase : Phase
  deriving DecidableEq, Repr

/-- The operations on the store in their order, and the executions in that of their creation. -/
structure LedgerState where
  ops : List Op := []
  executions : List Execution := []

inductive Action where
  /-- Any other operation on the store. -/
  | store (op : Op)
  | execute (key : Key)
  | start (i : Nat) (now : Int)
  | run (i : Nat)
  | finish (i : Nat) (outcome : Outcome)
  /-- `artifact` is none when the output could not be stored. -/
  | record (i : Nat) (artifact : Option String) (durationMs : Nat) (now : Int)
  | drop (i : Nat)

def movesTool : Op → Bool
  | .startTool .. | .finishTool .. => true
  | _ => false

variable (sha256 : String → String)

/-- The receipt of a call. -/
def receiptOf (outcome : Outcome) (durationMs : Nat) : Json :=
  .obj [("duration_ms", .num durationMs),
    ("error", (outcome.error.map Json.str).getD .null),
    ("output", .str (String.ofList (outcome.content.toList.take 4096))),
    ("output_bytes", .num (utf8 outcome.content.toList).length),
    ("output_sha256", .str (sha256 outcome.content)),
    ("output_truncated", .bool (outcome.content.toList.length > 4096)),
    ("success", .bool outcome.error.isNone)]

namespace LedgerState

variable (d : LedgerState)

def runStore : RunStore := storeAfter d.ops

def issue (op : Op) : LedgerState := { d with ops := d.ops ++ [op] }

def setPhase (i : Nat) (phase : Phase) : LedgerState :=
  { d with executions := d.executions.modify i fun e => { e with phase } }

/-- The operation is issued, and the execution goes on if it succeeds. -/
def attempt (i : Nat) (op : Op) (done failed : Phase) : LedgerState :=
  match d.runStore.exec op with
  | .ok _ => (d.issue op).setPhase i done
  | .error _ => (d.issue op).setPhase i failed

def advance (i : Nat) (e : Execution) : Action → LedgerState
  | .start _ now =>
    if e.phase = .waiting then
      d.attempt i (.startTool e.key.1 e.key.2.1 e.key.2.2 now) .started .refused
    else d
  | .run _ => if e.phase = .started then d.setPhase i .running else d
  | .finish _ outcome => if e.phase = .running then d.setPhase i (.returned outcome) else d
  | .record _ artifact durationMs now =>
    match e.phase, artifact with
    | .returned outcome, some artifact =>
      d.attempt i (.finishTool e.key.1 e.key.2.1 e.key.2.2
        (if outcome.error.isSome then "tool_error" else "success") (some artifact)
        (receiptOf sha256 outcome durationMs) now) .recorded (.lost true true)
    | .returned _, none => d.setPhase i (.lost true true)
    | _, _ => d
  | .drop _ => d.setPhase i e.phase.dropped
  | _ => d

def next (a : Action) : LedgerState :=
  match a with
  | .store op => if movesTool op then d else d.issue op
  | .execute key => { d with executions := d.executions ++ [⟨key, .waiting⟩] }
  | .start i _ | .run i | .finish i _ | .record i _ _ _ | .drop i =>
    match d.executions[i]? with
    | some e => d.advance sha256 i e a
    | none => d

end LedgerState

/-! ## What the operations do to the receipts -/

section Receipts

variable {s s' : RunStore} {op : Op} {reply : Reply}

theorem nodup_tools (s : RunStore) : (s.control.tools.map ToolView.key).Nodup := by
  have h : s.control.tools.map ToolView.key =
      s.toolExecutions.rows.map Storage.ToolExecution.key := by
    unfold RunStore.control
    rw [List.map_map]
    rfl
  rw [h]
  exact s.toolExecutions.nodup

theorem tool_unique {t t' : ToolView} (ht : t ∈ s.control.tools) (ht' : t' ∈ s.control.tools)
    (h : t.key = t'.key) : t = t' :=
  List.inj_on_of_nodup_map (nodup_tools s) ht ht' h

theorem performs_toolMoved {chs : List Change} {key : Key} {source target : ToolStatus}
    (h : op.Performs s s' reply chs) (hm : .toolMoved key source target ∈ chs) :
    movesTool op = true := by
  cases op <;> simp only [Op.Performs] at h <;> grind [movesTool]

/-- An operation that moves no receipt adds prepared ones at most. -/
theorem tools_next (s : RunStore) (h : movesTool op = false) :
    ∃ new, (s.next op).control.tools = s.control.tools ++ new ∧
      ∀ t ∈ new, t.status = .prepared := by
  cases hx : s.exec op with
  | error e => exact ⟨[], by rw [RunStore.next_of_error hx, List.append_nil], by simp⟩
  | ok p =>
    obtain ⟨reply, s'⟩ := p
    obtain ⟨chs, hp, ha, hc⟩ := simulation hx
    rw [RunStore.next_of_ok hx, hc]
    refine after_induct (G := fun c ch => ch.Enabled c ∧ ∀ key a b, ch ≠ .toolMoved key a b)
      (I := fun c => ∃ new, c.tools = s.control.tools ++ new ∧ ∀ t ∈ new, t.status = .prepared)
      (fun c ch ih hg => ?_) ⟨[], (List.append_nil _).symm, by simp⟩
      (along_mono ha fun c ch hm hen => ⟨hen, ?_⟩)
    · obtain ⟨new, hnew, hprepared⟩ := ih
      obtain ⟨hen, hne⟩ := hg
      cases ch with
      | prepared run tools =>
        refine ⟨new ++ tools, ?_, fun t ht => ?_⟩
        · show c.tools ++ tools = _
          rw [hnew, List.append_assoc]
        · rcases List.mem_append.mp ht with ht | ht
          · exact hprepared t ht
          · exact (hen.2 t ht).2
      | toolMoved key a b => exact absurd rfl (hne key a b)
      | admitted run session child => exact ⟨new, hnew, hprepared⟩
      | started run => exact ⟨new, hnew, hprepared⟩
      | removed run => exact ⟨new, hnew, hprepared⟩
      | awaiting run => exact ⟨new, hnew, hprepared⟩
      | resumed run => exact ⟨new, hnew, hprepared⟩
      | finished run v => exact ⟨new, hnew, hprepared⟩
      | reconciled run v => exact ⟨new, hnew, hprepared⟩
      | lost run => exact ⟨new, hnew, hprepared⟩
      | leased child lease => exact ⟨new, hnew, hprepared⟩
    · rintro key a b rfl
      rw [performs_toolMoved hp hm] at h
      cases h

/-- A receipt moves, and the others stay as they are. -/
structure Moved (key : Key) (source target : ToolStatus) (c c' : Control) : Prop where
  moved : ∃ t ∈ c.tools, t.key = key ∧ t.status = source
  tools : c'.tools = c.tools.map fun t =>
    if t.key = key ∧ t.status = source then { t with status := target } else t

theorem exists_of_moveTool {id : RunId} {round : Nat} {callId : String} {source : ToolStatus}
    {f : Storage.ToolExecution → Storage.ToolExecution} {hf : ∀ t, (f t).key = t.key}
    {message : String} {u : Unit}
    (h : s.moveTool id round callId source f hf message = .ok (u, s')) :
    ∃ t ∈ s.control.tools, t.key = (id, round, callId) ∧ t.status = source := by
  unfold RunStore.moveTool at h
  dsimp only at h
  split at h
  · cases h
  · rename_i hcount
    have hpos : 0 < s.toolExecutions.count fun t =>
        t.key = (id, round, callId) && t.status = source := by
      rw [not_not.mp hcount]
      exact Nat.one_pos
    obtain ⟨t, ht, hp⟩ := List.countP_pos_iff.mp hpos
    rw [Bool.and_eq_true, decide_eq_true_eq, decide_eq_true_eq] at hp
    exact ⟨t.view, List.mem_map_of_mem ht, hp.1, hp.2⟩

theorem moved_startTool {key : Key} {now : Int}
    (h : s.exec (.startTool key.1 key.2.1 key.2.2 now) = .ok (reply, s')) :
    Moved key .prepared .running s.control s'.control := by
  obtain ⟨u, rfl, hx⟩ := RunStore.of_exec h
  have hc := RunStore.startTool_spec hx
  unfold RunStore.startTool at hx
  exact ⟨exists_of_moveTool hx, congrArg Control.tools hc⟩

theorem moved_finishTool {key : Key} {outcome : String} {artifact : Option String} {receipt : Json}
    {now : Int}
    (h : s.exec (.finishTool key.1 key.2.1 key.2.2 outcome artifact receipt now) =
      .ok (reply, s')) :
    Moved key .running .terminal s.control s'.control := by
  obtain ⟨u, rfl, hx⟩ := RunStore.of_exec h
  have hc := RunStore.finishTool_spec hx
  unfold RunStore.finishTool at hx
  exact ⟨exists_of_moveTool hx, congrArg Control.tools hc⟩

theorem Moved.self {key : Key} {source target : ToolStatus} {c c' : Control}
    (h : Moved key source target c c') : ∃ t ∈ c'.tools, t.key = key ∧ t.status = target := by
  obtain ⟨t, ht, hkey, hstatus⟩ := h.moved
  refine ⟨{ t with status := target }, ?_, hkey, rfl⟩
  rw [h.tools]
  refine List.mem_map.mpr ⟨t, ht, ?_⟩
  rw [if_pos ⟨hkey, hstatus⟩]

theorem Moved.other {key : Key} {source target : ToolStatus} {c c' : Control} {t : ToolView}
    (h : Moved key source target c c') (ht : t ∈ c.tools) (hkey : t.key ≠ key) : t ∈ c'.tools := by
  rw [h.tools]
  refine List.mem_map.mpr ⟨t, ht, ?_⟩
  rw [if_neg fun hp => hkey hp.1]

/-- A receipt after the step is one from before it, or the one that has moved. -/
theorem Moved.of_mem {key : Key} {source target : ToolStatus} {c c' : Control} {t : ToolView}
    (h : Moved key source target c c') (ht : t ∈ c'.tools) : t ∈ c.tools ∨ t.key = key := by
  rw [h.tools] at ht
  obtain ⟨x, hx, rfl⟩ := List.mem_map.mp ht
  by_cases hp : x.key = key ∧ x.status = source
  · rw [if_pos hp]
    exact .inr hp.1
  · rw [if_neg hp]
    exact .inl hx

end Receipts

/-! ## The ledger -/

namespace LedgerState

structure Inv (d : LedgerState) : Prop where
  /-- The receipt of an execution that has begun says so. -/
  kept : ∀ (i : Nat) (e : Execution), d.executions[i]? = some e → e.phase.claimed = true →
    ∃ t ∈ d.runStore.control.tools, t.key = e.key ∧ t.status = e.phase.status
  sole : ∀ (i j : Nat) (e e' : Execution), d.executions[i]? = some e →
    d.executions[j]? = some e' → e.key = e'.key → e.phase.claimed = true →
    e'.phase.claimed = true → i = j
  /-- A receipt has been moved by the execution of its call. -/
  moved : ∀ t ∈ d.runStore.control.tools, t.status ≠ .prepared →
    ∃ (i : Nat) (e : Execution), d.executions[i]? = some e ∧ e.key = t.key ∧ e.phase.claimed = true

variable {sha256} {d : LedgerState} {i : Nat} {e : Execution} {phase : Phase}

theorem runStore_issue (d : LedgerState) (op : Op) :
    (d.issue op).runStore = d.runStore.next op := by
  unfold runStore issue
  rw [storeAfter_append, after_cons]
  rfl

theorem inv_empty : Inv {} :=
  ⟨fun _ _ h => by simp at h, fun _ _ _ _ h => by simp at h, fun t ht => by
    simp [runStore, storeAfter, RunStore.control, RunStore.empty] at ht⟩

/-- The phase goes on without the store. -/
theorem Inv.setPhase (h : d.Inv) (hi : d.executions[i]? = some e)
    (hclaimed : phase.claimed = e.phase.claimed)
    (hstatus : e.phase.claimed = true → phase.status = e.phase.status) :
    (d.setPhase i phase).Inv := by
  have hof : ∀ (k : Nat) (x' : Execution), (d.setPhase i phase).executions[k]? = some x' →
      ∃ x, d.executions[k]? = some x ∧ x'.key = x.key ∧ x'.phase.claimed = x.phase.claimed ∧
        (x.phase.claimed = true → x'.phase.status = x.phase.status) := by
    intro k x' hk
    obtain ⟨x, hx, rfl⟩ := of_modify hk
    by_cases hki : k = i
    · subst hki
      cases hi.symm.trans hx
      rw [if_pos rfl]
      exact ⟨e, hi, rfl, hclaimed, hstatus⟩
    · rw [if_neg hki]
      exact ⟨x, hx, rfl, rfl, fun _ => rfl⟩
  refine ⟨fun k x' hk hc => ?_, fun k j x' y' hk hj hkey hc hc' => ?_, fun t ht hne => ?_⟩
  · obtain ⟨x, hx, hkey, hclaims, hst⟩ := hof k x' hk
    rw [hclaims] at hc
    obtain ⟨t, ht, htkey, htstatus⟩ := h.kept k x hx hc
    exact ⟨t, ht, htkey.trans hkey.symm, htstatus.trans (hst hc).symm⟩
  · obtain ⟨x, hx, hxkey, hxclaims, -⟩ := hof k x' hk
    obtain ⟨y, hy, hykey, hyclaims, -⟩ := hof j y' hj
    exact h.sole k j x y hx hy (hxkey.symm.trans (hkey.trans hykey)) (hxclaims ▸ hc)
      (hyclaims ▸ hc')
  · obtain ⟨k, x, hx, hkey, hc⟩ := h.moved t ht hne
    by_cases hki : k = i
    · subst hki
      cases hi.symm.trans hx
      exact ⟨k, { e with phase }, modify_self hi _, hkey, hclaimed.trans hc⟩
    · exact ⟨k, x, (modify_other hki _).trans hx, hkey, hc⟩

theorem Inv.issue (h : d.Inv) {op : Op} (hop : movesTool op = false) : (d.issue op).Inv := by
  obtain ⟨new, hnew, hprepared⟩ := tools_next d.runStore hop
  rw [← runStore_issue] at hnew
  refine ⟨fun k x hk hc => ?_, h.sole, fun t ht hne => ?_⟩
  · obtain ⟨t, ht, hrest⟩ := h.kept k x hk hc
    exact ⟨t, by rw [hnew]; exact List.mem_append_left _ ht, hrest⟩
  · rw [hnew] at ht
    rcases List.mem_append.mp ht with ht | ht
    · exact h.moved t ht hne
    · exact absurd (hprepared t ht) hne

/-- An operation that fails changes nothing. -/
theorem Inv.issue_error (h : d.Inv) {op : Op} {error : RuntimeError}
    (hx : d.runStore.exec op = .error error) : (d.issue op).Inv := by
  have hs : (d.issue op).runStore = d.runStore := by
    rw [runStore_issue, RunStore.next_of_error hx]
  refine ⟨fun k x hk hc => ?_, h.sole, fun t ht hne => ?_⟩
  · rw [hs]
    exact h.kept k x hk hc
  · rw [hs] at ht
    exact h.moved t ht hne

/-- The execution moves its receipt. -/
theorem Inv.move (h : d.Inv) (hi : d.executions[i]? = some e) {op : Op} {reply : Reply}
    {s' : RunStore} (hx : d.runStore.exec op = .ok (reply, s'))
    (hm : Moved e.key e.phase.status phase.status d.runStore.control s'.control)
    (hphase : phase.claimed = true) : ((d.issue op).setPhase i phase).Inv := by
  have hs : ((d.issue op).setPhase i phase).runStore = s' := by
    show (d.issue op).runStore = s'
    rw [runStore_issue, RunStore.next_of_ok hx]
  -- another execution of the call would have a receipt in another status
  have halone : ∀ (k : Nat) (x : Execution), d.executions[k]? = some x → k ≠ i →
      x.phase.claimed = true → x.key ≠ e.key := by
    intro k x hk hki hc hkey
    by_cases he : e.phase.claimed = true
    · exact hki (h.sole k i x e hk hi hkey hc he)
    · obtain ⟨t, ht, htkey, htstatus⟩ := h.kept k x hk hc
      obtain ⟨t', ht', htkey', htstatus'⟩ := hm.moved
      obtain rfl := tool_unique ht ht' (htkey.trans (hkey.trans htkey'.symm))
      rw [htstatus, Phase.status_of_not_claimed he] at htstatus'
      exact Phase.status_ne_prepared hc htstatus'
  have hof : ∀ (k : Nat) (x' : Execution),
      ((d.issue op).setPhase i phase).executions[k]? = some x' →
      k = i ∧ x' = { e with phase } ∨ k ≠ i ∧ d.executions[k]? = some x' := by
    intro k x' hk
    obtain ⟨x, hxk, rfl⟩ := of_modify (l := d.executions) hk
    by_cases hki : k = i
    · subst hki
      cases hi.symm.trans hxk
      exact .inl ⟨rfl, if_pos rfl⟩
    · rw [if_neg hki]
      exact .inr ⟨hki, hxk⟩
  refine ⟨fun k x' hk hc => ?_, fun k j x' y' hk hj hkey hc hc' => ?_, fun t ht hne => ?_⟩
  · rw [hs]
    rcases hof k x' hk with ⟨rfl, rfl⟩ | ⟨hki, hold⟩
    · exact hm.self
    · obtain ⟨t, ht, htkey, htstatus⟩ := h.kept k x' hold hc
      exact ⟨t, hm.other ht (htkey ▸ halone k x' hold hki hc), htkey, htstatus⟩
  · rcases hof k x' hk with ⟨rfl, rfl⟩ | ⟨hki, hold⟩
    · rcases hof j y' hj with ⟨rfl, -⟩ | ⟨hji, hold'⟩
      · rfl
      · exact absurd hkey.symm (halone j y' hold' hji hc')
    · rcases hof j y' hj with ⟨rfl, rfl⟩ | ⟨hji, hold'⟩
      · exact absurd hkey (halone k x' hold hki hc)
      · exact h.sole k j x' y' hold hold' hkey hc hc'
  · rw [hs] at ht
    by_cases hkey : t.key = e.key
    · exact ⟨i, { e with phase }, modify_self (l := d.executions) hi _, hkey.symm, hphase⟩
    · obtain ⟨k, x, hxk, hxkey, hc⟩ := h.moved t ((hm.of_mem ht).resolve_right hkey) hne
      refine ⟨k, x, ?_, hxkey, hc⟩
      have hki : k ≠ i := by
        rintro rfl
        cases hi.symm.trans hxk
        exact hkey hxkey.symm
      exact (modify_other (l := d.executions) hki _).trans hxk

theorem Inv.advance (h : d.Inv) (hi : d.executions[i]? = some e) (a : Action) :
    (d.advance sha256 i e a).Inv := by
  obtain ⟨key, phase⟩ := e
  cases a with
  | store op => exact h
  | execute key => exact h
  | start k now =>
    simp only [LedgerState.advance]
    split
    · rename_i hphase
      obtain rfl : phase = .waiting := hphase
      unfold attempt
      split
      · rename_i hx
        exact h.move hi hx (moved_startTool hx) rfl
      · rename_i hx
        have hclaimed : Phase.refused.claimed = Phase.waiting.claimed := rfl
        exact (h.issue_error hx).setPhase hi hclaimed fun hc => by cases hc
    · exact h
  | run k =>
    simp only [LedgerState.advance]
    split
    · rename_i hphase
      obtain rfl : phase = .started := hphase
      exact h.setPhase hi rfl fun _ => rfl
    · exact h
  | finish k outcome =>
    simp only [LedgerState.advance]
    split
    · rename_i hphase
      obtain rfl : phase = .running := hphase
      exact h.setPhase hi rfl fun _ => rfl
    · exact h
  | record k artifact durationMs now =>
    cases phase with
    | returned outcome =>
      cases artifact with
      | none => exact h.setPhase hi rfl fun _ => rfl
      | some artifact =>
        simp only [LedgerState.advance]
        unfold attempt
        split
        · rename_i hx
          exact h.move hi hx (moved_finishTool hx) rfl
        · rename_i hx
          exact (h.issue_error hx).setPhase hi rfl fun _ => rfl
    | waiting => exact h
    | started => exact h
    | running => exact h
    | recorded => exact h
    | refused => exact h
    | lost began returned => exact h
  | drop k =>
    refine h.setPhase hi ?_ fun hc => ?_
    · cases phase <;> rfl
    · cases phase <;> rfl

theorem Inv.next (h : d.Inv) (a : Action) : (d.next sha256 a).Inv := by
  have hadvance : ∀ k : Nat, (match d.executions[k]? with
      | some e => d.advance sha256 k e a
      | none => d).Inv := by
    intro k
    split
    · rename_i hk
      exact h.advance hk a
    · exact h
  cases a with
  | store op =>
    simp only [LedgerState.next]
    split
    · exact h
    · rename_i hop
      exact h.issue (Bool.not_eq_true _ ▸ hop)
  | execute key =>
    have hof : ∀ (k : Nat) (x : Execution),
        (d.executions ++ [⟨key, .waiting⟩])[k]? = some x → x.phase.claimed = true →
        d.executions[k]? = some x := by
      intro k x hk hc
      rcases of_concat hk with hold | ⟨-, rfl⟩
      · exact hold
      · cases hc
    refine ⟨fun k x hk hc => h.kept k x (hof k x hk hc) hc, fun k j x y hk hj hkey hc hc' =>
      h.sole k j x y (hof k x hk hc) (hof j y hj hc') hkey hc hc', fun t ht hne => ?_⟩
    obtain ⟨k, x, hk, hrest⟩ := h.moved t ht hne
    exact ⟨k, x, append_of_some hk _, hrest⟩
  | start k now => exact hadvance k
  | run k => exact hadvance k
  | finish k outcome => exact hadvance k
  | record k artifact durationMs now => exact hadvance k
  | drop k => exact hadvance k

theorem inv_after (actions : List Action) : (after (LedgerState.next sha256) {} actions).Inv :=
  after_induct (G := fun _ _ => True) (fun _ a h _ => h.next a) inv_empty (along_true _ _)

/-- A terminal receipt has been recorded by the one execution of its call. -/
theorem Inv.recorded (h : d.Inv) {t : ToolView} (ht : t ∈ d.runStore.control.tools)
    (hterminal : t.status = .terminal) :
    ∃ (i : Nat) (e : Execution), d.executions[i]? = some e ∧ e.key = t.key ∧
      e.phase = .recorded := by
  obtain ⟨i, e, hi, hkey, hc⟩ := h.moved t ht (by rw [hterminal]; decide)
  obtain ⟨t', ht', hkey', hstatus⟩ := h.kept i e hi hc
  obtain rfl := tool_unique ht ht' (hkey.symm.trans hkey'.symm)
  exact ⟨i, e, hi, hkey, Phase.status_terminal_iff.mp (hstatus.symm.trans hterminal)⟩

end LedgerState

/-- **Honest receipts.** In every order of the steps, wherever executions are dropped: no call of a
run is begun twice; a call that has begun has a receipt that is no longer prepared; a receipt is
terminal exactly if the call has returned and been recorded; and where `finish` has given the run a
verdict other than an unknown outcome, every call that has begun has been recorded, and is a read if
the verdict is a cancellation. -/
theorem ledger_honest (actions : List Action) :
    let d := after (LedgerState.next sha256) {} actions
    let receipts := (storeAfter d.ops).toolExecutions.rows
    (∀ (i j : Nat) (a b : Execution), d.executions[i]? = some a → d.executions[j]? = some b →
      a.key = b.key → a.phase.began = true → b.phase.began = true → i = j) ∧
    (∀ (i : Nat) (a : Execution), d.executions[i]? = some a → a.phase.began = true →
      ∃ t ∈ receipts, t.key = a.key ∧ t.status ≠ .prepared ∧
        (t.status = .terminal ↔ a.phase = .recorded)) ∧
    (∀ t ∈ receipts, t.status = .terminal →
      ∃ (i : Nat) (a : Execution), d.executions[i]? = some a ∧ a.key = t.key ∧
        a.phase = .recorded) ∧
    ∀ (id : RunId) (st : RunStatus), SetByFinish d.ops id st → st.final = true →
      ∀ (i : Nat) (a : Execution), d.executions[i]? = some a → a.key.1 = id →
        a.phase.began = true → a.phase = .recorded ∧
          (st = .cancelled → ∃ t ∈ receipts, t.key = a.key ∧ t.effect = "read") := by
  intro d receipts
  have h : d.Inv := LedgerState.inv_after actions
  have hview : ∀ t ∈ d.runStore.control.tools, ∃ x ∈ receipts, x.view = t := by
    intro t ht
    exact List.mem_map.mp ht
  have hkept : ∀ (i : Nat) (a : Execution), d.executions[i]? = some a → a.phase.began = true →
      ∃ t ∈ d.runStore.control.tools, t.key = a.key ∧ t.status = a.phase.status := fun i a hi ha =>
    h.kept i a hi (Phase.claimed_of_began ha)
  refine ⟨fun i j a b hi hj hkey ha hb =>
    h.sole i j a b hi hj hkey (Phase.claimed_of_began ha) (Phase.claimed_of_began hb),
    fun i a hi ha => ?_, fun t ht hterminal => ?_, fun id st hset hfinal i a hi hid ha => ?_⟩
  · obtain ⟨t, ht, hkey, hstatus⟩ := hkept i a hi ha
    obtain ⟨x, hx, rfl⟩ := hview t ht
    have hxstatus : x.status = a.phase.status := hstatus
    refine ⟨x, hx, hkey, ?_⟩
    rw [hxstatus]
    exact ⟨Phase.status_ne_prepared (Phase.claimed_of_began ha), Phase.status_terminal_iff⟩
  · exact h.recorded (t := t.view) (List.mem_map_of_mem ht) hterminal
  · obtain ⟨hsettled, heffects⟩ := confirmed_after hset hfinal
    obtain ⟨t, ht, hkey, hstatus⟩ := hkept i a hi ha
    have hterminal : t.status = .terminal := hsettled t ht (by rw [hkey, hid])
    obtain ⟨x, hx, rfl⟩ := hview t ht
    refine ⟨?_, fun hst => ⟨x, hx, hkey, ?_⟩⟩
    · exact Phase.status_terminal_iff.mp (hstatus.symm.trans hterminal)
    · by_contra hread
      have hprepared := heffects hst x.view ht (by rw [hkey, hid]) hread
      rw [hterminal] at hprepared
      cases hprepared

end AgentDaemon.Engine.Ledger
