import AgentDaemon.Storage.Archive
import AgentDaemon.Storage.Lifecycle

/-!
Calls that are made twice. A request that a session has made before is answered with its run
(`admission_idempotent`), the first answer to a question stays (`firstAnswerWins`), and a `finish`
that is repeated finds its own verdict exactly if it asked for what was stored
(`finish_repeats_iff`).
-/

namespace AgentDaemon.Storage

open Transition Fallible

/-! ## Admissions -/

/-- The store knows a request again. -/
structure KnowsRequests (s : RunStore) : Prop where
  unique : ∀ r ∈ s.runs.rows, ∀ r' ∈ s.runs.rows, r.key = r'.key → r = r'
  /-- A request that is repeated is answered with its run. -/
  repeated : ∀ r ∈ s.runs.rows, ∀ mode route now,
    s.exec (.admitWithRoute r.sessionId r.requestId r.input mode route now) =
      .ok (.admission (.existing r.record), s)
  /-- Another input under the same request is refused. -/
  conflict : ∀ r ∈ s.runs.rows, ∀ input mode route now, input ≠ r.input →
    (∃ e, s.exec (.admitWithRoute r.sessionId r.requestId input mode route now) = .error e) ∧
      s.next (.admitWithRoute r.sessionId r.requestId input mode route now) = s
  /-- A busy session takes no run that does not want to wait. -/
  busy : ∀ r ∈ s.runs.rows, r.status.busy = true → ∀ rid input route now,
    s.next (.admitWithRoute r.sessionId rid input .rejectIfBusy route now) = s

theorem unique_of_sound {s : RunStore} (hs : s.journal.Sound) {r r' : Run}
    (hr : r ∈ s.runs.rows) (hr' : r' ∈ s.runs.rows) (hkey : r.key = r'.key) : r = r' := by
  have hkeys := hs.keys
  rw [RunStore.journal, List.map_map] at hkeys
  exact List.inj_on_of_nodup_map hkeys hr hr' hkey

theorem find_request_of_mem {s : RunStore} (hs : s.journal.Sound) {r : Run}
    (hr : r ∈ s.runs.rows) :
    s.runs.rows.find? (fun x => x.sessionId = r.sessionId ∧ x.requestId = r.requestId) =
      some r := by
  cases h : s.runs.rows.find? fun x => x.sessionId = r.sessionId ∧ x.requestId = r.requestId with
  | none => simpa using List.find?_eq_none.mp h r hr
  | some x =>
    have hp := List.find?_some h
    simp only [decide_eq_true_eq] at hp
    have hkey : x.key = r.key := by simp [Run.key, hp]
    rw [unique_of_sound hs (List.mem_of_find?_eq_some h) hr hkey]

theorem admitWithRoute_known {s : RunStore} (hs : s.journal.Sound) {r : Run}
    (hr : r ∈ s.runs.rows) (input : String) (mode : AdmissionMode)
    (route : Option Provider.RouteSnapshot) (now : Int) :
    s.admitWithRoute r.sessionId r.requestId input mode route now =
      if r.input ≠ input then .error (.protocol "相同 request id 的输入内容不同")
      else .ok (.existing r.record, s) := by
  rw [RunStore.admitWithRoute, find_request_of_mem hs hr]

theorem enqueueRun_error {s : RunStore} {sid : SessionId} {rid : RequestId} {input : String}
    {route : Option Provider.RouteSnapshot} {now : Int} {e : RuntimeError}
    (h : s.enqueueRun sid rid input route now = .error e) : ∃ cause, e = .persistence cause := by
  have hconstraint : ∀ {α : Type} {o : Option α} {e}, constraint o = .error e →
      ∃ cause, e = .persistence cause := by
    intro α o e h
    cases o with
    | none =>
      cases h
      exact ⟨_, rfl⟩
    | some a => cases h
  have hevent : ∀ {s : RunStore} {id event data e}, s.insertEvent id event data = .error e →
      ∃ cause, e = .persistence cause := by
    intro s id event data e h
    unfold RunStore.insertEvent at h
    split at h
    · cases h
      exact ⟨_, rfl⟩
    · split at h
      · cases h
        exact ⟨_, rfl⟩
      · cases h
  simp only [RunStore.enqueueRun] at h
  rcases bind_eq_error.mp h with h | ⟨runs, -, h⟩
  · exact hconstraint h
  rcases bind_eq_error.mp h with h | ⟨turns, -, h⟩
  · exact hconstraint h
  rcases bind_eq_error.mp h with h | ⟨routes, -, h⟩
  · unfold RunStore.insertRoute at h
    split at h
    · cases h
    · exact hconstraint h
  rcases bind_eq_error.mp h with h | ⟨p, -, h⟩
  · exact hevent h
  rcases bind_eq_error.mp h with h | ⟨queued, -, h⟩
  · exact hconstraint h
  · cases h

/-- A request that the session has not made before is no conflict, and its run is a new one. -/
theorem admitWithRoute_unknown {s : RunStore} {sid : SessionId} {rid : RequestId}
    (hnew : ∀ r ∈ s.runs.rows, ¬ (r.sessionId = sid ∧ r.requestId = rid)) (input : String)
    (mode : AdmissionMode) (route : Option Provider.RouteSnapshot) (now : Int) :
    (∃ e, s.admitWithRoute sid rid input mode route now = .error e ∧
      e ≠ .protocol "相同 request id 的输入内容不同") ∨
    ∃ rec s', s.admitWithRoute sid rid input mode route now = .ok (.new rec, s') ∧
      s.runs.find? rec.runId = none ∧
      s'.archive = s.archive.file (.run ⟨rec.runId, sid, rid, input⟩) := by
  have hnone : s.runs.rows.find? (fun r => r.sessionId = sid ∧ r.requestId = rid) = none := by
    rw [List.find?_eq_none]
    intro r hr
    simpa using hnew r hr
  cases h : s.admitWithRoute sid rid input mode route now with
  | error e =>
    refine .inl ⟨e, rfl, ?_⟩
    unfold RunStore.admitWithRoute at h
    rw [hnone] at h
    dsimp only at h
    split at h
    · cases h
      decide
    · rcases bind_eq_error.mp h with h | ⟨⟨id, s₁⟩, -, h⟩
      · obtain ⟨cause, rfl⟩ := enqueueRun_error h
        exact nofun
      · dsimp only at h
        split at h
        · cases h
          exact nofun
        · cases h
  | ok p =>
    obtain ⟨a, s'⟩ := p
    right
    rcases RunStore.admitWithRoute_spec h with ⟨r, hr, hsid, hrid, -⟩ | ⟨rec, rfl, hread, hfresh, -⟩
    · exact absurd ⟨hsid, hrid⟩ (hnew r hr)
    · refine ⟨rec, s', rfl, hfresh, ?_⟩
      rcases RunStore.admitWithRoute_archive h with rfl | ⟨id, hid, -, he⟩
      · -- the run that is read was not there before
        obtain ⟨r, hr, -⟩ := RunStore.readRun_eq_some hread
        cases hfresh.symm.trans hr
      · have hmem : rec.runId ∈ s'.archive.heads.map Head.id := by
          obtain ⟨r, hr, -⟩ := RunStore.readRun_eq_some hread
          exact mem_heads.mpr ⟨r, hr⟩
        rw [he, Archive.file, List.map_append] at hmem
        rcases List.mem_append.mp hmem with hm | hm
        · obtain ⟨r, hr⟩ := mem_heads.mp hm
          cases hfresh.symm.trans hr
        · rw [he, List.mem_singleton.mp hm]

theorem admitWithRoute_busy {s : RunStore} {r : Run} (hr : r ∈ s.runs.rows)
    (hbusy : r.status.busy = true) (rid : RequestId) (input : String)
    (route : Option Provider.RouteSnapshot) (now : Int) :
    s.next (.admitWithRoute r.sessionId rid input .rejectIfBusy route now) = s := by
  have hcount : s.runs.count (fun x => x.sessionId = r.sessionId && x.status.busy) ≠ 0 := by
    intro h
    rw [Table.count, List.countP_eq_zero] at h
    exact h r hr (by rw [hbusy]; simp)
  cases h : s.exec (.admitWithRoute r.sessionId rid input .rejectIfBusy route now) with
  | error e => exact RunStore.next_of_error h
  | ok p =>
    rw [RunStore.next_of_ok h]
    obtain ⟨a, -, hx⟩ := RunStore.of_exec h
    unfold RunStore.admitWithRoute at hx
    split at hx
    · split at hx
      · cases hx
      · cases hx
        rfl
    · rw [if_pos ⟨rfl, hcount⟩] at hx
      cases hx

/-- **Admission is idempotent.** In every reachable store a request has one run, which is what it
is answered with when it is made again, now or later. -/
theorem admission_idempotent (ops later : List Op) :
    KnowsRequests (storeAfter ops) ∧
      ∀ r ∈ (storeAfter ops).runs.rows,
        ∃ r' ∈ (storeAfter (ops ++ later)).runs.rows, r'.head = r.head := by
  have hs := journal_sound ops
  refine ⟨⟨?_, ?_, ?_, ?_⟩, ?_⟩
  · intro r hr r' hr' hkey
    exact unique_of_sound hs hr hr' hkey
  · intro r hr mode route now
    have h := admitWithRoute_known hs hr r.input mode route now
    rw [if_neg (by simp)] at h
    simp only [RunStore.exec, h]
    rfl
  · intro r hr input mode route now hne
    have h := admitWithRoute_known hs hr input mode route now
    rw [if_pos hne.symm] at h
    have hx : (storeAfter ops).exec
        (.admitWithRoute r.sessionId r.requestId input mode route now) =
          .error (.protocol "相同 request id 的输入内容不同") := by
      simp only [RunStore.exec, h]
      rfl
    exact ⟨⟨_, hx⟩, RunStore.next_of_error hx⟩
  · intro r hr hbusy rid input route now
    exact admitWithRoute_busy hr hbusy rid input route now
  · intro r hr
    rw [storeAfter_append]
    exact head_after hr later

/-! ## Answers -/

/-- The first answer to a question stays. -/
structure FirstAnswerWins (s : RunStore) : Prop where
  kept : ∀ i x, s.interactions.find? i = some x → x.status = .answered ∨ x.status = .rejected →
    ∀ later, (after RunStore.next s later).interactions.find? i = some x
  /-- The accepted answer is accepted again, and nothing happens. -/
  repeated : ∀ i sid id revision approved rec s',
    s.claimInteraction i sid id revision approved = .ok (rec, s') → ∀ later revision',
      (after RunStore.next s' later).exec (.claimInteraction i sid id revision' approved) =
        .ok (.interaction rec, after RunStore.next s' later)
  /-- A claim is refused if another answer was accepted, if it comes from another owner, or if the
  question has another revision. -/
  refused : ∀ i x r sid id revision approved, s.interactions.find? i = some x →
    s.runs.find? x.runId = some r →
    (x.status ≠ .pending ∧ x.response ≠ some (RunStore.answerJson approved)) ∨ sid ≠ r.sessionId ∨
      id ≠ x.runId ∨ (x.status = .pending ∧ revision ≠ x.revision) →
    ∃ e, s.exec (.claimInteraction i sid id revision approved) = .error e
  unchanged : ∀ i x sid id revision approved, s.interactions.find? i = some x →
    x.status ≠ .pending ∨ x.runId ≠ id ∨ revision ≠ x.revision ∨
      (s.runs.find? id).map Run.sessionId ≠ some sid →
    s.next (.claimInteraction i sid id revision approved) = s

/-- The record of a question of a run in `session`. -/
def Interaction.record (x : Interaction) (session : SessionId) : InteractionRecord :=
  ⟨x.id, session, x.runId, x.kind, x.status, x.revision, x.prompt, x.payload, x.response⟩

theorem readInteraction_eq {s : RunStore} {i : InteractionId} {x : Interaction} {r : Run}
    (hx : s.interactions.find? i = some x) (hr : s.runs.find? x.runId = some r) :
    s.readInteraction i = some (x.record r.sessionId) := by
  simp [RunStore.readInteraction, hx, hr, Interaction.record]

theorem exists_of_readInteraction {s : RunStore} {i : InteractionId} {rec : InteractionRecord}
    (h : s.readInteraction i = some rec) :
    ∃ x r, s.interactions.find? i = some x ∧ s.runs.find? x.runId = some r ∧
      rec = x.record r.sessionId := by
  obtain ⟨x, hx, h⟩ := Option.bind_eq_some_iff.mp h
  obtain ⟨r, hr, rfl⟩ := Option.map_eq_some_iff.mp h
  exact ⟨x, r, hx, hr, rfl⟩

theorem session_after {s : RunStore} {id : RunId} {r : Run} (hr : s.runs.find? id = some r)
    (ops : List Op) : ∃ r', (after RunStore.next s ops).runs.find? id = some r' ∧
      r'.sessionId = r.sessionId := by
  obtain ⟨r', hr', hhead⟩ := head_after (Table.mem_of_find? hr) ops
  have hid : r'.id = id := Eq.trans (congrArg Head.id hhead) (Table.key_of_find? hr : r.id = id)
  exact ⟨r', Table.find?_eq_some_iff.mpr ⟨hr', hid⟩, congrArg Head.sessionId hhead⟩

/-- What a claim returns, and leaves in the store. -/
theorem claimInteraction_reply {s s' : RunStore} {i : InteractionId} {sid : SessionId}
    {id : RunId} {revision : Int} {approved : Bool} {rec : InteractionRecord}
    (h : s.claimInteraction i sid id revision approved = .ok (rec, s')) :
    s'.readInteraction i = some rec ∧ rec.sessionId = sid ∧ rec.ownerRunId = id ∧
      (rec.status = .answered ∨ rec.status = .rejected) ∧
      rec.response = some (RunStore.answerJson approved) := by
  obtain ⟨y, hy, hst, hresponse⟩ := RunStore.claimInteraction_claimed h
  rcases RunStore.claimInteraction_cases h with ⟨rfl, hread, hsid, hid, hst, hresponse⟩ |
    ⟨x, run, n, hx, howner, hpending, -, hrun, hsid, -, hev, hread⟩
  · exact ⟨hread, hsid, hid, hst, hresponse⟩
  · obtain ⟨z, r, hz, hr, rfl⟩ := exists_of_readInteraction hread
    cases hz.symm.trans hy
    have hfile := RunStore.claimInteraction_archive h
    have hone : after RunStore.next s [.claimInteraction i sid id revision approved] = s' :=
      RunStore.next_of_ok (r := .interaction _) (by rw [RunStore.exec, h]; rfl)
    obtain ⟨r', hr', hsession⟩ := session_after hrun [.claimInteraction i sid id revision approved]
    rw [hone] at hr'
    have hid : y.runId = id := by
      rcases hfile with rfl | ⟨-, he⟩
      · cases hx.symm.trans hy
        exact howner
      · have hint : s'.interactions = (s.archive.file (.answered i approved)).interactions :=
          congrArg Archive.interactions he
        rw [hint] at hy
        have e := Table.find?_update s.interactions (fun x => x.id = i && x.status = .pending)
          (RunStore.answered · approved) (fun _ => rfl) i
        rw [hx, Option.map_some] at e
        rw [← Option.some.inj (e.symm.trans hy)]
        split
        · exact howner
        · exact howner
    rw [hid] at hr
    cases hr.symm.trans hr'
    exact ⟨hread, hsession.trans hsid, hid, hst, hresponse⟩

/-- **The first answer wins.** -/
theorem firstAnswerWins (s : RunStore) : FirstAnswerWins s where
  kept := by
    intro i x hx hst later
    refine (RunStore.after_grows s later).keepsSettled i x hx ?_
    rcases hst with hst | hst <;> simp [hst]
  repeated := by
    intro i sid id revision approved rec s' h later revision'
    obtain ⟨hread, rfl, rfl, hst, hresponse⟩ := claimInteraction_reply h
    obtain ⟨x, r, hx, hr, rfl⟩ := exists_of_readInteraction hread
    have hsettled : (x.record r.sessionId).status ≠ .pending := by
      rcases hst with hst | hst <;> rw [hst] <;> decide
    have hx' := (RunStore.after_grows s' later).keepsSettled i x hx hsettled
    obtain ⟨r', hr', hsession⟩ := session_after hr later
    have hread' := readInteraction_eq hx' hr'
    rw [hsession] at hread'
    rw [RunStore.exec, RunStore.claimInteraction, hread']
    simp only [ne_eq, not_true_eq_false, or_self, if_false, hsettled, not_false_eq_true, if_true,
      hst, hresponse, true_and]
    rfl
  refused := by
    intro i x r sid id revision approved hx hr hwrong
    cases h : s.exec (.claimInteraction i sid id revision approved) with
    | error e => exact ⟨e, rfl⟩
    | ok p =>
      exfalso
      obtain ⟨rec, -, hx'⟩ := RunStore.of_exec h
      rcases RunStore.claimInteraction_cases hx' with ⟨-, hread, hsid, hid, hst, hresponse⟩ |
        ⟨y, run, n, hy, howner, hpending, hrevision, hrun, hsid, -⟩
      · rw [readInteraction_eq hx hr] at hread
        cases hread
        rcases hwrong with ⟨-, hne⟩ | hne | hne | ⟨hpending, -⟩
        · exact hne hresponse
        · exact hne hsid.symm
        · exact hne hid.symm
        · rcases hst with hst | hst <;> cases hpending.symm.trans hst
      · cases hx.symm.trans hy
        rw [howner] at hr
        cases hr.symm.trans hrun
        rcases hwrong with ⟨hne, -⟩ | hne | hne | ⟨-, hne⟩
        · exact hne hpending
        · exact hne hsid.symm
        · exact hne howner.symm
        · exact hne hrevision.symm
  unchanged := by
    intro i x sid id revision approved hx hwrong
    cases h : s.exec (.claimInteraction i sid id revision approved) with
    | error e => exact RunStore.next_of_error h
    | ok p =>
      rw [RunStore.next_of_ok h]
      obtain ⟨rec, -, hx'⟩ := RunStore.of_exec h
      rcases RunStore.claimInteraction_archive hx' with hsame | ⟨⟨y, hclaims⟩, -⟩
      · exact hsame
      · exfalso
        cases hx.symm.trans hclaims.found
        obtain ⟨run, hrun, hsid, -⟩ := hclaims.session
        rcases hwrong with hne | hne | hne | hne
        · exact hne hclaims.pending
        · exact hne hclaims.owner
        · exact hne hclaims.revision.symm
        · exact hne (by rw [hrun, Option.map_some, hsid])

/-! ## Verdicts -/

/-- The verdict that `finish` stores for a run without one is the verdict it was asked for. -/
structure AsAsked (s : RunStore) (id : RunId) (status : RunStatus) (content : Option String)
    (error : Option (Int × String)) : Prop where
  /-- The receipts of the run do not make its outcome unknown. -/
  receipts : status = .unknownAfterRestart ∨
    s.control.Settled id ∧ (status = .cancelled → s.control.NoEffects id)
  content : status = .completed ∨ content = none
  error : status = .unknownAfterRestart → error = some (-32002, "工具执行结果未知，禁止自动重放")

theorem downgrade_of_receipts {s : RunStore} {id : RunId} {status : RunStatus}
    (hsettled : s.control.Settled id) (heffects : status = .cancelled → s.control.NoEffects id) :
    s.downgrade id status = status := by
  have hopen : s.toolExecutions.count (fun t => t.runId = id && t.status ≠ .terminal) = 0 := by
    rw [Table.count, List.countP_eq_zero]
    intro t ht h
    simp only [Bool.and_eq_true, decide_eq_true_eq] at h
    exact h.2 (hsettled t.view (List.mem_map_of_mem ht) h.1)
  have hstarted : status = .cancelled → s.toolExecutions.count (fun t =>
      t.runId = id && t.effect ≠ "read" && (t.status = .running || t.status = .terminal)) = 0 := by
    intro hst
    rw [Table.count, List.countP_eq_zero]
    intro t ht h
    simp only [Bool.and_eq_true, decide_eq_true_eq, Bool.or_eq_true] at h
    have hprepared : t.status = .prepared :=
      heffects hst t.view (List.mem_map_of_mem ht) h.1.1 h.1.2
    rcases h.2 with h' | h' <;> cases hprepared.symm.trans h'
  unfold RunStore.downgrade
  rw [if_neg]
  rintro (h | ⟨hst, h⟩)
  · omega
  · have := hstarted hst
    omega

/-- A requested verdict is kept where the receipts allow it. -/
theorem downgrade_eq_self_iff {s : RunStore} {id : RunId} {status : RunStatus} :
    s.downgrade id status = status ↔ status = .unknownAfterRestart ∨
      s.control.Settled id ∧ (status = .cancelled → s.control.NoEffects id) := by
  constructor
  · intro h
    by_cases hst : status = .unknownAfterRestart
    · exact .inl hst
    · refine .inr ⟨RunStore.settled_of_downgrade (h.trans_ne hst), fun hc => ?_⟩
      exact RunStore.noEffects_of_downgrade (h.trans hc)
  · rintro (rfl | ⟨hsettled, heffects⟩)
    · rcases s.downgrade_eq id .unknownAfterRestart with h | h <;> exact h
    · exact downgrade_of_receipts hsettled heffects

theorem readRun_insertEvent {s s' : RunStore} {id k : RunId} {event : String} {data : Json}
    {n : Nat} (h : s.insertEvent k event data = .ok (n, s')) (hne : k ≠ id) :
    s'.readRun id = s.readRun id := by
  obtain ⟨run, events, -, -, -, rfl⟩ := RunStore.insertEvent_spec h
  have e := Table.find?_update s.runs (fun r => r.id = k) ({ · with lastSeq := n }) (fun _ => rfl) id
  refine (congrArg (Option.map Run.record) e).trans ?_
  rw [RunStore.readRun]
  cases hr : s.runs.find? id with
  | none => rfl
  | some r =>
    have hid : r.id = id := Table.key_of_find? hr
    have hk : ¬ r.id = k := fun e => hne (e.symm.trans hid)
    simp [hk]

/-- The parent of a run that ends is told only while it goes on, so a run that has ended stays as
it is. -/
theorem readRun_markTerminalIn {s s' : RunStore} {id k : RunId} {rec rec' : RunRecord} {now : Int}
    (h : s.markTerminalIn k rec' now = .ok s') (hread : s.readRun id = some rec)
    (ht : rec.status.terminal = true) : s'.readRun id = some rec := by
  rcases RunStore.markTerminalIn_cases h with ⟨-, rfl⟩ | ⟨d, -, rfl |
    ⟨parent, n, data, hparent, hgoing, hev⟩⟩
  · exact hread
  · exact hread
  · have hne : parent.runId ≠ id := by
      rintro rfl
      have hsame : (s.closeDelegation k rec' now).readRun parent.runId = some rec := hread
      rw [(RunStore.readRun_view hparent).1, hparent] at hsame
      cases hsame
      exact hgoing ht
    rw [readRun_insertEvent hev hne]
    exact hread

/-- A `finish` of a run that has ended compares the verdict with the stored one. -/
theorem finish_again {s : RunStore} {id : RunId} {status : RunStatus} {content : Option String}
    {error : Option (Int × String)} {rec : RunRecord} (hst : status.terminal = true)
    (hread : s.readRun id = some rec) (ht : rec.status.terminal = true) (now : Int) :
    s.finish id status content error now = .ok (rec, s) ↔
      rec.verdict = ⟨status, content, error.map Prod.fst, error.map Prod.snd⟩ := by
  rw [RunStore.finish, hread]
  simp only [hst, Bool.not_true, Bool.false_eq_true, if_false, ht, if_true, RunRecord.verdict,
    Verdict.mk.injEq]
  split
  · rename_i h
    simp [h]
  · rename_i h
    simp [h]

/-- What `finish` returns for a run without a verdict, and leaves in the store. -/
theorem finish_first {s s' : RunStore} {id : RunId} {status : RunStatus}
    {content : Option String} {error : Option (Int × String)} {now : Int} {rec : RunRecord}
    {r : Run} (h : s.finish id status content error now = .ok (rec, s'))
    (hr : s.runs.find? id = some r) (hgoing : r.status.terminal = false) :
    status.terminal = true ∧ s'.readRun id = some rec ∧ rec.status.terminal = true ∧
      rec.verdict = ⟨s.downgrade id status, s.verdictContent id status content,
        (s.verdictError id status error).map Prod.fst,
        (s.verdictError id status error).map Prod.snd⟩ := by
  have hcur : s.readRun id = some r.record := by rw [RunStore.readRun, hr, Option.map_some]
  obtain ⟨hst, ⟨-, hread, ht, -⟩ | ⟨current, s₁, n, s₂, data, -, -, hcontent, hev, hread,
    hmark⟩⟩ := RunStore.finish_cases h
  · cases hcur.symm.trans hread
    rw [show r.record.status = r.status from rfl, hgoing] at ht
    cases ht
  · have hc : s₂.control = s.control :=
      (RunStore.insertEvent_control hev).trans (RunStore.insertContent_control hcontent)
    obtain ⟨hverdict, -⟩ := RunStore.setVerdict_markTerminalIn
      ⟨_, hc ▸ (RunStore.readRun_view hcur).2⟩ (RunStore.control_orphanPending _ _) hread hmark
    have hstatus : rec.status = s.downgrade id status := congrArg (·.status) hverdict
    have ht : rec.status.terminal = true := by
      rcases s.downgrade_eq id status with e | e
      · rw [hstatus, e]
        exact hst
      · rw [hstatus, e]
        rfl
    exact ⟨hst, readRun_markTerminalIn hmark hread ht, ht, hverdict⟩

/-- **A repeated `finish`.** Where `finish` has succeeded, the same call returns the same record and
changes nothing exactly if the run had ended before, or ended with the verdict asked for. -/
theorem finish_repeats_iff {s s' : RunStore} {id : RunId} {status : RunStatus}
    {content : Option String} {error : Option (Int × String)} {now : Int} {rec : RunRecord}
    (h : s.finish id status content error now = .ok (rec, s')) :
    (∀ now', s'.finish id status content error now' = .ok (rec, s')) ↔
      (∃ r, s.runs.find? id = some r ∧ r.status.terminal = true) ∨
        AsAsked s id status content error := by
  cases hr : s.runs.find? id with
  | none =>
    exfalso
    obtain ⟨-, ⟨-, hread, -⟩ | ⟨current, s₁, n, s₂, data, hread, -⟩⟩ := RunStore.finish_cases h
    · simp [RunStore.readRun, hr] at hread
    · simp [RunStore.readRun, hr] at hread
  | some r =>
    cases hgoing : r.status.terminal with
    | true =>
      obtain ⟨hst, ⟨rfl, hread, ht, hverdict⟩ | ⟨current, s₁, n, s₂, data, hread, hct, -⟩⟩ :=
        RunStore.finish_cases h
      · refine iff_of_true (fun now' => ?_) (.inl ⟨r, rfl, hgoing⟩)
        exact (finish_again hst hread ht now').mpr hverdict
      · exfalso
        simp only [RunStore.readRun, hr, Option.map_some, Option.some.injEq] at hread
        rw [← hread, show r.record.status = r.status from rfl, hgoing] at hct
        cases hct
    | false =>
      obtain ⟨hst, hread, ht, hverdict⟩ := finish_first h hr hgoing
      have hagain : (∀ now', s'.finish id status content error now' = .ok (rec, s')) ↔
          rec.verdict = ⟨status, content, error.map Prod.fst, error.map Prod.snd⟩ :=
        ⟨fun hall => (finish_again hst hread ht 0).mp (hall 0),
          fun hv now' => (finish_again hst hread ht now').mpr hv⟩
      have hno : ¬ ∃ x, some r = some x ∧ x.status.terminal = true := by
        rintro ⟨x, hx, hterminal⟩
        cases hx
        rw [hgoing] at hterminal
        cases hterminal
      rw [hagain, hverdict, or_iff_right hno]
      simp only [Verdict.mk.injEq, RunStore.verdictContent, RunStore.verdictError]
      constructor
      · rintro ⟨hdown, hcontent, hcode, hmessage⟩
        rw [hdown] at hcontent hcode hmessage
        refine ⟨downgrade_eq_self_iff.mp hdown, ?_, ?_⟩
        · by_cases hc : status = .completed
          · exact .inl hc
          · rw [if_neg hc] at hcontent
            exact .inr hcontent.symm
        · intro hu
          rw [if_pos hu] at hcode hmessage
          cases error with
          | none => cases hcode
          | some e =>
            simp only [Option.map_some, Option.some.injEq] at hcode hmessage
            rw [show e = (e.1, e.2) from rfl, ← hcode, ← hmessage]
      · rintro ⟨hreceipts, hcontent, herror⟩
        have hdown := downgrade_eq_self_iff.mpr hreceipts
        rw [hdown]
        refine ⟨rfl, ?_, ?_⟩
        · rcases hcontent with hc | hc
          · rw [if_pos hc]
          · rw [hc, ite_self]
        · by_cases hu : status = .unknownAfterRestart
          · rw [if_pos hu, herror hu]
            exact ⟨rfl, rfl⟩
          · rw [if_neg hu]
            exact ⟨rfl, rfl⟩

/-- Admit a run and start it, and leave one read unresolved. -/
def unresolvedRun : List Op :=
  [.admitWithRoute ⟨"s"⟩ (.number 1) "hi" .queue none 0, .tryStartQueued (runIdOf 1) fun _ => 0,
    .prepareToolBatch (runIdOf 1) 0 [⟨⟨"a", "read_file", .null⟩, "read", "d", true⟩]]

/-- The answer to a completed run is stored as it was asked for. -/
theorem finish_repeats_iff_startedRun :
    ∃ rec s', (storeAfter (unresolvedRun.take 2)).finish (runIdOf 1) .completed (some "done") none
        0 = .ok (rec, s') ∧
      ∀ now', s'.finish (runIdOf 1) .completed (some "done") none now' = .ok (rec, s') := by
  have hr : (storeAfter (unresolvedRun.take 2)).runs.find? (runIdOf 1) =
      some ⟨1, ⟨"s"⟩, .number 1, .running, "hi", 2, none, none, none, 0⟩ := by decide
  have hst : RunStatus.completed.terminal = true := rfl
  obtain ⟨rec, s', h⟩ := finish_total (journal_sound (unresolvedRun.take 2)) hr rfl hst
    (some "done") none 0
  refine ⟨rec, s', h, (finish_repeats_iff h).mpr (.inr ⟨.inr ⟨?_, nofun⟩, .inl rfl, nofun⟩)⟩
  intro t ht
  cases ht

/-- A run with an unresolved receipt that is cancelled ends with another verdict, and the same call
is refused as a conflict. -/
theorem not_finish_repeats_unresolvedRun :
    ¬ ∀ ops id status content error now rec s',
      (storeAfter ops).finish id status content error now = .ok (rec, s') →
        ∀ now', s'.finish id status content error now' = .ok (rec, s') := by
  intro hall
  have hconflict : ((storeAfter unresolvedRun).finish (runIdOf 1) .cancelled none
      (some (-32800, "cancelled")) 0).toOption.map (fun p => (p.2.finish (runIdOf 1) .cancelled none
        (some (-32800, "cancelled")) 0).toBool) = some false := by decide
  cases h : (storeAfter unresolvedRun).finish (runIdOf 1) .cancelled none
      (some (-32800, "cancelled")) 0 with
  | error e =>
    rw [h] at hconflict
    cases hconflict
  | ok p =>
    rw [h] at hconflict
    have hagain := hall unresolvedRun (runIdOf 1) .cancelled none (some (-32800, "cancelled")) 0
      p.1 p.2 h 0
    simp only [Except.toOption, Option.map_some, hagain] at hconflict
    cases hconflict

end AgentDaemon.Storage
