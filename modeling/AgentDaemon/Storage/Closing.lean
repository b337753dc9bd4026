import AgentDaemon.Storage.Status
import AgentDaemon.Storage.Events

/-!
The log of one run. Its events stand in the order of their numbers, and a call adds behind them
(`Grows.later`). Once the run has ended nobody but its engine adds to it (`next_closed`), so the
last two events of a run that was completed by `finish` are its content and its end
(`finish_content`).
-/

namespace AgentDaemon.Storage

open Transition Fallible Journal

namespace Journal

variable {q : StoredEvent → Prop} {j k : Journal} {id : RunId}

/-- The events of the run stand in the order of their numbers. -/
def Ordered (j : Journal) (id : RunId) : Prop :=
  (j.events.filter fun e => e.runId = id).Pairwise (·.seq < ·.seq)

theorem Ordered.grows (h : j.Ordered id) (hj : j.Sound) (hg : Grows q j k) : k.Ordered id := by
  induction hg with
  | refl => exact h
  | openSession _ _ ih => exact ih
  | enroll _ _ _ _ ih => exact ih
  | spawn _ _ _ ih => exact ih
  | log hg hn _ ih =>
    rw [Ordered, Journal.log, List.filter_append]
    refine List.pairwise_append.mpr ⟨ih, List.pairwise_singleton _ _ |>.filter _, ?_⟩
    intro a ha b hb
    obtain ⟨ha, haid⟩ := List.mem_filter.mp ha
    obtain ⟨hb, hbid⟩ := List.mem_filter.mp hb
    rw [List.mem_singleton.mp hb] at hbid ⊢
    have hbelow := (hj.grows hg).below_event ha
    rw [of_decide_eq_true haid, ← of_decide_eq_true hbid] at hbelow
    exact Nat.lt_succ_of_le (hbelow.le (hj.grows hg) hn)
  | settle _ _ ih => exact ih

theorem Grows.mono {p : StoredEvent → Prop} (hg : Grows q j k) (hp : ∀ e, q e → p e) :
    Grows p j k := by
  induction hg with
  | refl => exact .refl
  | openSession _ session ih => exact ih.openSession session
  | enroll _ hid hkey hs ih => exact ih.enroll hid hkey hs
  | spawn _ hid hs ih => exact ih.spawn hid hs
  | log _ hn hq ih => exact ih.log hn (hp _ hq)
  | settle _ ht ih => exact ih.settle ht

/-- What is added to the log of a run comes after every number that is in use. -/
theorem Grows.later (hg : Grows q j k) (hj : j.Sound) : ∃ new, k.events = j.events ++ new ∧
    ∀ e ∈ new, q e ∧ ∀ n, j.Below e.runId n → n < e.seq := by
  induction hg with
  | refl => exact ⟨[], by simp⟩
  | openSession _ _ ih => exact ih
  | enroll _ _ _ _ ih => exact ih
  | spawn _ _ _ ih => exact ih
  | @log k id n hg hn event data hq ih =>
    obtain ⟨new, hk, hnew⟩ := ih
    refine ⟨new ++ [⟨id, n + 1, event, data⟩], by rw [Journal.log, hk, List.append_assoc], ?_⟩
    intro e he
    rcases List.mem_append.mp he with he | he
    · exact hnew e he
    · rw [List.mem_singleton.mp he]
      exact ⟨hq, fun m hm => Nat.lt_succ_of_le ((hm.grows hj hg).le (hj.grows hg) hn)⟩
  | settle _ _ ih => exact ih

/-- A run without a new event keeps its counter. -/
theorem Grows.counter (hg : Grows (fun e => e.runId ≠ id) j k) {m : Nat} (hm : (id, m) ∈ j.runs) :
    (id, m) ∈ k.runs := by
  induction hg with
  | refl => exact hm
  | openSession _ _ ih => exact ih
  | enroll _ _ _ _ ih => exact List.mem_append_left _ ih
  | spawn _ _ _ ih => exact List.mem_append_left _ ih
  | log _ _ hq ih => exact List.mem_map.mpr ⟨_, ih, if_neg fun h => hq h.symm⟩
  | settle _ _ ih => exact ih

end Journal

theorem ordered_after (ops : List Op) (id : RunId) : (storeAfter ops).journal.Ordered id := by
  have hempty : RunStore.empty.journal.Sound := journal_sound []
  have h : RunStore.empty.journal.Ordered id := List.Pairwise.nil
  exact h.grows hempty (RunStore.after_grows .empty ops)

namespace RunStore

variable {s s' : RunStore} {id k : RunId} {op : Op}

/-! ## A run that has ended -/

theorem routine_of_ne (h : k ≠ id) : Routine (fun e => e.runId ≠ id) k := by
  rintro e rfl -
  exact h

theorem Ended.ne_of_unended (h : s.Ended id) (hk : s.Unended k) : k ≠ id := by
  rintro rfl
  obtain ⟨a, ha, ht⟩ := h
  obtain ⟨v, hv, hlive⟩ := hk
  rw [status?_eq, hv] at ha
  cases ha
  cases hlive.symm.trans ht

theorem Ended.ne_of_run {v : RunView} (h : s.Ended id) (hv : s.control.run? k = some v)
    (hlive : v.verdict.status.terminal = false) : k ≠ id := h.ne_of_unended ⟨v, hv, hlive⟩

theorem Ended.known (h : s.Ended id) : id ∈ s.journal.runs.map Prod.fst := by
  obtain ⟨r, hr⟩ := h.dequeued.exists_run
  exact List.mem_map.mpr ⟨_, mem_journal hr, rfl⟩

/-- Nobody but its engine adds to the log of a run that has ended. -/
theorem next_closed (h : s.Ended id) (hop : ∀ clock, op ≠ .recover clock)
    (hengine : op.engineRun ≠ some id) (hrec : op.reconciles ≠ some id) :
    Grows (fun e => e.runId ≠ id) s.journal (s.next op).journal := by
  have happ : op.approvalRun ≠ some id := by
    intro ha
    cases op with
    | appendEvent k event data =>
      simp only [Op.approvalRun] at ha
      split at ha
      · exact hengine ha
      · cases ha
    | _ => cases ha
  have hended := h.next hop happ
  cases hx : s.exec op with
  | error e =>
    rw [next_of_error hx]
    exact .refl
  | ok p =>
    obtain ⟨reply, s'⟩ := p
    rw [next_of_ok hx] at hended ⊢
    have hp : ∀ k, s'.Unended k → Routine (fun e => e.runId ≠ id) k := fun k hk =>
      routine_of_ne (hended.ne_of_unended hk)
    have hnew : ∀ k ∉ s.journal.runs.map Prod.fst, Routine (fun e => e.runId ≠ id) k := by
      intro k hk
      refine routine_of_ne ?_
      rintro rfl
      exact hk h.known
    cases op with
    | admitWithRoute sid rid input mode route now =>
      obtain ⟨r, -, hx⟩ := of_exec hx
      exact admitWithRoute_grows hx .refl hnew
    | tryStartQueued k clock =>
      obtain ⟨r, -, hx⟩ := of_exec hx
      rcases tryStartQueued_cases hx with ⟨-, rfl, -⟩ | ⟨-, -, -, -, -, -, hone, -⟩
      · exact .refl
      · obtain ⟨v, hv, hst⟩ := runsIn_eq_one.mp hone
        exact tryStartQueued_grows hx .refl (routine_of_ne (h.ne_of_run hv (by rw [hst]; rfl)))
    | removeQueued k now =>
      obtain ⟨r, -, hx⟩ := of_exec hx
      refine removeQueued_grows hx .refl (fun hb => ?_) hp
      rcases removeQueued_cases hx with ⟨-, hone, -⟩ | ⟨hb', -⟩
      · obtain ⟨v, hv, hst⟩ := runsIn_eq_one.mp hone
        exact routine_of_ne (h.ne_of_run hv (by rw [hst]; rfl))
      · cases hb.symm.trans hb'
    | claimInteraction i sid k revision approved =>
      obtain ⟨r, -, hx⟩ := of_exec hx
      rcases claimInteraction_cases hx with ⟨rfl, -⟩ | ⟨x, run, n, -, -, -, -, hrun, -, hst, -⟩
      · exact .refl
      · refine claimInteraction_grows hx .refl (routine_of_ne ?_)
        have hv : s.control.run? k = some run.view := by rw [control_run?, hrun]; rfl
        have hlive : run.view.verdict.status.terminal = false := by
          show run.status.terminal = false
          rw [hst]
          rfl
        exact h.ne_of_run hv hlive
    | finish k status content error now =>
      obtain ⟨r, -, hx⟩ := of_exec hx
      by_cases hk : k = id
      · subst hk
        obtain ⟨-, ⟨rfl, -⟩ | ⟨current, _, _, _, _, hcur, hgoing, -⟩⟩ := finish_cases hx
        · exact .refl
        · exact absurd rfl (h.ne_of_run (readRun_view hcur).2 hgoing)
      · exact finish_grows hx .refl (fun _ => routine_of_ne hk) hp fun _ _ _ => hk
    | reconcileUnknown k sid seq status content evidence digest now =>
      obtain ⟨r, -, hx⟩ := of_exec hx
      have hk : k ≠ id := fun hk => hrec (congrArg some hk)
      exact reconcileUnknown_grows hx .refl (fun e he _ => he ▸ hk) hp
    | recover clock => exact absurd rfl (hop clock)
    | admitDelegation request clock =>
      obtain ⟨r, -, hx⟩ := of_exec hx
      rcases admitDelegation_spec hx with ⟨rfl, -⟩ | ⟨parent, hparent, hactive, hx⟩
      · exact .refl
      · refine enqueueChild_grows hx .refl hnew (routine_of_ne ?_)
        refine h.ne_of_run (readRun_view hparent).2 ?_
        by_contra hterm
        have hoff := active_eq_false_of_terminal (Bool.not_eq_false _ ▸ hterm)
        cases hactive.symm.trans hoff
    | reserveDelegationResult child owner revision clock =>
      obtain ⟨r, -, hx⟩ := of_exec hx
      exact reserveDelegationResult_grows hx .refl
    | releaseDelegationResult child owner revision clock =>
      obtain ⟨r, -, hx⟩ := of_exec hx
      exact transitionResult_grows hx .refl
    | deliverDelegationResult child owner revision clock =>
      obtain ⟨r, -, hx⟩ := of_exec hx
      exact transitionResult_grows hx .refl
    | startTool k round callId now =>
      obtain ⟨r, -, hx⟩ := of_exec hx
      exact moveTool_grows hx .refl
    | finishTool k round callId outcome artifactRef receipt now =>
      obtain ⟨r, -, hx⟩ := of_exec hx
      exact moveTool_grows hx .refl
    | prepareToolBatch k round calls =>
      obtain ⟨r, -, hx⟩ := of_exec hx
      exact prepareToolBatch_grows hx .refl (routine_of_ne fun hk => hengine (congrArg some hk))
    | finishToolBatch k round =>
      obtain ⟨r, -, hx⟩ := of_exec hx
      exact finishToolBatch_grows hx .refl (routine_of_ne fun hk => hengine (congrArg some hk))
    | appendEvent k event data =>
      obtain ⟨r, -, hx⟩ := of_exec hx
      exact appendEvent_grows hx .refl fun _ hk => hengine (congrArg some hk)
    | startProviderAttempt attempt =>
      obtain ⟨r, -, hx⟩ := of_exec hx
      exact startProviderAttempt_grows hx .refl
        (routine_of_ne fun hk => hengine (congrArg some hk))
    | finishProviderAttempt attempt =>
      obtain ⟨r, -, hx⟩ := of_exec hx
      exact finishProviderAttempt_grows hx .refl
        (routine_of_ne fun hk => hengine (congrArg some hk))

/-! ## The last events of a completed run -/

theorem mem_log {j : Journal} {n : Nat} (hn : (id, n) ∈ j.runs) (event : String) (data : Json) :
    (id, n + 1) ∈ (j.log id n event data).runs := List.mem_map.mpr ⟨_, hn, if_pos rfl⟩

/-- The end of a run, after its content: nothing of a turn is logged any more. -/
theorem finish_tail {s₁ s₂ : RunStore} {n m : Nat} {data : Json} {status : RunStatus}
    {content : Option String} {error : Option (Int × String)} {now : Int} {rec : RunRecord}
    (hs : s₁.journal.Sound) (hn : (id, n) ∈ s₁.journal.runs)
    (hev : s₁.insertEvent id "terminal" data = .ok (m, s₂))
    (hterm : ((s₂.setVerdict id status content error).orphanPending id).markTerminalIn id rec now =
      .ok s') (hended : s'.Ended id) :
    (id, n + 1) ∈ s'.journal.runs ∧ Grows (fun e => e.event ∉ turnEvents) s₁.journal s'.journal := by
  obtain ⟨m', -, hm, hlog⟩ := insertEvent_journal hev
  obtain rfl := hs.last_unique hn hm
  have hstart : ∀ q : StoredEvent → Prop,
      Grows q s₂.journal ((s₂.setVerdict id status content error).orphanPending id).journal :=
    fun q => orphanPending_grows (by rw [journal_setVerdict]; exact .refl) id
  constructor
  · have hg : Grows (fun e => e.runId ≠ id) s₂.journal s'.journal :=
      markTerminalIn_grows hterm (hstart _) fun k hk => routine_of_ne (hended.ne_of_unended hk)
    refine hg.counter ?_
    rw [hlog]
    exact mem_log hm _ _
  · have hg : Grows (fun e => e.event ∉ turnEvents) s₂.journal s'.journal :=
      markTerminalIn_grows hterm (hstart _) fun _ _ e _ he => he
    refine Grows.trans ?_ hg
    rw [hlog]
    exact Grows.refl.log hm (by simp [turnEvents])

/-- The run record that `finish` returns has the content that the verdict keeps. -/
theorem content_finish {status : RunStatus} {content : Option String}
    {error : Option (Int × String)} {now : Int} {rec : RunRecord}
    (h : s.finish id status content error now = .ok (rec, s')) :
    (s' = s ∧ rec.content = content) ∨ rec.content = s.verdictContent id status content := by
  obtain ⟨-, ⟨rfl, -, -, hverdict⟩ | ⟨current, s₁, m, s₂, data, hcur, -, hcontent, hev, hrec,
    hterm⟩⟩ := finish_cases h
  · exact .inl ⟨rfl, congrArg Verdict.content hverdict⟩
  · have hc : s₂.control = s.control :=
      (insertEvent_control hev).trans (insertContent_control hcontent)
    obtain ⟨hverdict, -⟩ := setVerdict_markTerminalIn
      ⟨_, hc ▸ (readRun_view hcur).2⟩ (control_orphanPending _ _) hrec hterm
    exact .inr (congrArg Verdict.content hverdict)

/-- A run that its driver ends as completed logs its content, and its end behind it, unless the
outcome of a tool is unknown. -/
theorem finish_content {c : String} {error : Option (Int × String)} {now : Int} {rec : RunRecord}
    (hs : s.journal.Sound) (hlive : s.Unended id)
    (h : s.finish id .completed (some c) error now = .ok (rec, s')) :
    (rec.content = none ∧ Grows (fun e => e.event ∉ turnEvents) s.journal s'.journal) ∨
    rec.content = some c ∧ ∃ n, (id, n) ∈ s.journal.runs ∧ (id, n + 2) ∈ s'.journal.runs ∧
      Grows (fun e => e.event ∉ turnEvents)
        (s.journal.log id n "assistant_content" (.obj [("content", .str c)])) s'.journal := by
  have hended := finish_ended h
  rcases content_finish h with ⟨rfl, -⟩ | hverdict
  · exact absurd rfl (hended.ne_of_unended hlive)
  obtain ⟨-, ⟨rfl, -⟩ | ⟨current, s₁, m, s₂, data, hcur, -, hcontent, hev, -, hterm⟩⟩ :=
    finish_cases h
  · exact absurd rfl (hended.ne_of_unended hlive)
  obtain ⟨r, hr, -⟩ := readRun_eq_some hcur
  have hn := mem_journal hr
  rw [hverdict]
  unfold verdictContent at hcontent hterm ⊢
  split at hcontent
  · rename_i hst
    rw [if_pos hst] at hterm ⊢
    obtain ⟨⟨n, s₁⟩, hinsert, rfl⟩ := map_eq_ok.mp hcontent
    obtain ⟨n', -, hn', hlog⟩ := insertEvent_journal hinsert
    obtain rfl := hs.last_unique hn hn'
    have hs₁ : s₁.journal.Sound := by
      rw [hlog]
      exact hs.log hn _ _
    have hn₁ : (id, r.lastSeq + 1) ∈ s₁.journal.runs := by
      rw [hlog]
      exact mem_log hn _ _
    obtain ⟨hcounter, hg⟩ := finish_tail hs₁ hn₁ hev hterm hended
    exact .inr ⟨rfl, r.lastSeq, hn, hcounter, hlog ▸ hg⟩
  · rename_i hst
    rw [if_neg hst] at hterm ⊢
    cases hcontent
    exact .inl ⟨rfl, (finish_tail hs hn hev hterm hended).2⟩

/-- A run that is not ended as completed logs no content. -/
theorem finish_silent {status : RunStatus} {content : Option String}
    {error : Option (Int × String)} {now : Int} {rec : RunRecord} (hst : status ≠ .completed)
    (h : s.finish id status content error now = .ok (rec, s')) :
    Grows (fun e => e.event ∉ turnEvents) s.journal s'.journal :=
  finish_grows h .refl (fun _ _ _ he => he) (fun _ _ _ _ he => he) fun e => absurd e hst

end RunStore

end AgentDaemon.Storage
