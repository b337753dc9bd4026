import AgentDaemon.Daemon.Wakeup

/-!
A driver waits in its queue loop for a run that is still queued, or its token is cancelled, or
the cancel that took the run out of the queue is about to cancel it (`Lively`). A driver that
registers after its run has left the queue breaks this, and nothing else does, but a timer that
is stopped halfway: `lively_after`.
-/

namespace AgentDaemon.Daemon

open Provider Storage Transition

/-! ## Drivers that wait for nothing -/

/-- A cancel has taken the run out of the queue and is about to tell its driver. -/
def Announced (d : DaemonState) (id : RunId) : Prop :=
  ∃ (j : Nat) (c : Cancel) (run : RunRecord),
    d.cancels[j]? = some c ∧ c.stage = .announcing run ∧ run.runId = id

/-- Every driver in its queue loop has a queued run, or learns that it has not. -/
def Lively (d : DaemonState) : Prop :=
  ∀ (i : Nat) c, d.chats[i]? = some c → c.stage.queueing = true → c.cancelled = false →
    d.store.Dequeued c.runId → Announced d c.runId

/-- A chat registers while its run is queued, and a timer is stopped before it tells of its run
only where no driver is to be told. -/
structure Timely (d : DaemonState) (a : DaemonAction) : Prop where
  registers : ∀ (i : Nat) c env, a = .advance i env → d.chats[i]? = some c → c.stage = .admitted →
    d.lookup c.key = none → d.store.Dequeued c.runId → Announced d c.runId
  tells : ∀ (j : Nat) c run, a.Mutes d j → d.cancels[j]? = some c → c.stage = .announcing run →
    ∀ (i : Nat) chat, d.chats[i]? = some chat → chat.stage.queueing = true →
      chat.cancelled = false → chat.runId ≠ run.runId

/-- A run that `resolve_interaction` may give up has left the queue. -/
def Answered (d : DaemonState) : Prop :=
  ∀ run, d.control = some (.resolve run) → d.store.Dequeued run

section Step

variable {d d' : DaemonState} {a : DaemonAction}

/-! ## The control lock -/

theorem advanceCancel_control (d : DaemonState) (j : Nat) (c : Cancel) (env : Env) :
    (d.advanceCancel j c env).control = d.control ∨
      (d.advanceCancel j c env).control = some (.cancel j) ∨
        (d.advanceCancel j c env).control = none := by
  have hdispatch : ∀ run, (d.dispatch j run).control = d.control ∨
      (d.dispatch j run).control = some (.cancel j) ∨ (d.dispatch j run).control = none := by
    intro run
    unfold DaemonState.dispatch
    split
    · exact .inl rfl
    · exact .inr (.inr rfl)
  unfold DaemonState.advanceCancel
  split
  · split
    · exact .inr (.inl rfl)
    · exact .inl rfl
  · split
    · exact .inr (.inr rfl)
    · split
      · exact .inr (.inr rfl)
      · split
        · exact .inl rfl
        · exact hdispatch _
  · split
    · exact .inr (.inr rfl)
    · split
      · exact .inr (.inr rfl)
      · exact .inl rfl
      · exact .inl rfl
  · split <;> exact .inl rfl
  · exact .inr (.inr rfl)
  · split
    · exact .inr (.inr rfl)
    · split
      · exact .inr (.inr rfl)
      · exact hdispatch _
  · split
    · exact .inl rfl
    · exact .inr (.inr rfl)
  · exact .inr (.inr rfl)
  · split
    · exact .inl rfl
    · split
      · exact .inl rfl
      · split <;> exact .inl rfl
  · exact .inl rfl

/-- `resolve_interaction` holds the lock for a run that was waiting for its answer. -/
theorem resolve_of_next (d : DaemonState) (a : DaemonAction) {run : RunId}
    (h : (d.next a).control = some (.resolve run)) :
    d.control = some (.resolve run) ∨ d.store.Going run := by
  revert h
  cases a with
  | chat key message mode route now =>
    simp only [DaemonState.next, DaemonState.newChat]
    split
    · split <;> exact .inl
    · exact .inl
  | advance i env =>
    simp only [DaemonState.next, DaemonState.withChat]
    split
    · exact .inl
    · rw [(advance_frame d i _ env).2]
      exact .inl
  | engine i op =>
    simp only [DaemonState.next, DaemonState.withChat, DaemonState.engine]
    split
    · exact .inl
    · split <;> exact .inl
  | storageError i message =>
    simp only [DaemonState.next, DaemonState.withChat, DaemonState.storageError]
    split
    · exact .inl
    · split <;> exact .inl
  | expire i =>
    simp only [DaemonState.next, DaemonState.withChat]
    split
    · exact .inl
    · split <;> exact .inl
  | cancel params => exact .inl
  | advanceCancel j env =>
    simp only [DaemonState.next, DaemonState.withCancel]
    split
    · exact .inl
    · rename_i c _
      intro h
      rcases advanceCancel_control d j c env with e | e | e
      · exact .inl (e ▸ h)
      · cases e.symm.trans h
      · cases e.symm.trans h
  | abortCancel j =>
    simp only [DaemonState.next, DaemonState.withCancel, DaemonState.abortCancel]
    split
    · exact .inl
    · split
      · intro h
        have h' : (if d.control = some (Holder.cancel j) then none else d.control) =
            some (.resolve run) := h
        split at h'
        · cases h'
        · exact .inl h'
      · exact .inl
  | spawnCheck request =>
    simp only [DaemonState.next, DaemonState.spawnCheck]
    split
    · exact .inl
    · split
      · exact .inl
      · split
        · intro h
          cases h
        · exact .inl
  | spawnAdmit env =>
    simp only [DaemonState.next, DaemonState.spawnAdmit]
    split
    · intro h
      cases h
    · exact .inl
  | answer id sessionId runId revision approved lost =>
    simp only [DaemonState.next, DaemonState.answer]
    split
    · exact .inl
    · split
      · exact .inl
      · rename_i hx
        dsimp only
        split
        · rename_i hp
          rintro ⟨⟩
          simp only [Bool.and_eq_true] at hp
          exact .inr (claimInteraction_going hx hp.2)
        · intro h
          cases h
  | resolveLost env =>
    simp only [DaemonState.next, DaemonState.resolveLost]
    split
    · intro h
      cases h
    · exact .inl
  | client op =>
    simp only [DaemonState.next]
    split <;> exact .inl

theorem Answered.step (h : Answered d) (hr : Registry d) (a : DaemonAction) :
    Answered (d.next a) := by
  intro run hcontrol
  rcases resolve_of_next d a hcontrol with hold | hgoing
  · exact (next_effect hr a).dequeued (h run hold)
  · exact (next_effect hr a).dequeued hgoing.dequeued

/-! ## Drivers and the runs they wait for -/

/-- A run leaves the queue by the driver that has it, or by a cancel that goes on to tell. -/
theorem dequeued_of_effect (hr : Registry d) (hw : Answered d) (he : Effect d a d') {k : Nat}
    {c : Chat} (hk : d.chats[k]? = some c) (hq : c.stage.queueing = true)
    (h : d'.store.Dequeued c.runId) :
    d.store.Dequeued c.runId ∨ Announced d' c.runId ∨
      ∃ clock, d.store.tryStartQueued c.runId clock = .ok (true, d'.store) ∧
        d'.chats = d.chats.modify k ({ · with stage := .started }) := by
  have hsame : d'.store = d.store → d.store.Dequeued c.runId := fun e => e ▸ h
  -- no other registered chat has this run
  have hown : ∀ {i : Nat} {c' : Chat}, d.chats[i]? = some c' → c'.stage.driving = true →
      c'.runId ≠ c.runId := by
    intro i c' hi hdriving hrun
    have e := hr.run_unique hi hk (ChatStage.driving_held hdriving) (ChatStage.queueing_held hq) hrun
    subst e
    cases hi.symm.trans hk
    cases (ChatStage.queueing_not_driving hq).symm.trans hdriving
  have hcall : ∀ {o : Op}, (∀ clock, o ≠ .recover clock) → d'.store = d.store.next o →
      d.store.Dequeued c.runId ∨ o.starts = some c.runId ∨ o.approvalRun = some c.runId ∨
        o.Ends c.runId := fun hop e => RunStore.dequeued_of_next (e ▸ h) hop
  cases he with
  | quiet hs | turn _ _ _ _ _ hs | duplicate _ _ _ _ _ hs | register _ _ _ _ _ _ hs
  | arm _ _ _ _ hs | failed _ _ _ _ _ hs | left _ _ _ _ _ hs | woke _ _ _ _ _ hs
  | notified hs | broken _ _ _ _ _ hs | signalled _ _ _ _ _ _ hs => exact .inl (hsame hs)
  | call op hop hends hstart happ hs | admitted _ op hop hends hstart happ hs =>
    rcases hcall hop hs with hold | e | e | e
    · exact .inl hold
    · cases hstart.symm.trans e
    · cases happ.symm.trans e
    · exact absurd e (hends _)
  | engine i c' op hi hst hop hs =>
    have hne := hown hi (by rw [hst]; rfl)
    obtain ⟨hrec, hstart, hends⟩ := Op.engineRun_quiet hop
    rcases hcall hrec hs with hold | e | e | e
    · exact .inl hold
    · cases hstart.symm.trans e
    · exact absurd (Op.approvalRun_of_engineRun hop e).symm hne
    · exact absurd e (hends _)
  | removed j c' run now hj _ hx =>
    obtain ⟨b, hx, hc⟩ := hx
    cases b with
    | true =>
      rcases hcall (o := .removeQueued run.runId now) (fun _ e => nomatch e)
        (next_removeQueued hx).symm with hold | e | e | e
      · exact .inl hold
      · cases e
      · cases e
      · exact .inr (.inl ⟨j, { c' with stage := .announcing run }, run, by simp [hc, hj], rfl, e⟩)
    | false =>
      obtain ⟨st, hst, hne⟩ := h
      exact .inl ⟨st, by rw [status?_eq, ← removeQueued_refused hx, ← status?_eq, hst], hne⟩
  | lost run env _ hcontrol _ hs =>
    have hrec : ∀ clock, Op.finish run .unknownAfterRestart none
        (some (-32002, "审批执行体已消失")) (env.clock 0) ≠ .recover clock := nofun
    rcases hcall hrec hs with hold | e | e | e
    · exact .inl hold
    · cases e
    · cases e
    · exact .inl (e ▸ hw run hcontrol)
  | started i c' clock hi hst hx _ hc =>
    rcases hcall (o := .tryStartQueued c'.runId clock) (fun _ e => nomatch e)
      (next_tryStartQueued hx).symm with hold | e | e | e
    · exact .inl hold
    · have hrun : c'.runId = c.runId := Option.some.inj e
      have hik := hr.run_unique hi hk (by rw [hst]; rfl) (ChatStage.queueing_held hq) hrun
      subst hik
      exact .inr (.inr ⟨clock, hrun ▸ hx, hc⟩)
    · cases e
    · exact e.elim
  | refused i c' clock _ _ hx =>
    obtain ⟨st, hst, hne⟩ := h
    exact .inl ⟨st, by rw [status?_eq, ← tryStartQueued_refused hx, ← status?_eq, hst], hne⟩
  | aborted i c' code message env hi hst _ hs =>
    split at hs
    · exact .inl (hsame hs)
    · have hrec : ∀ clock, Op.finish c'.runId .failed none (some (code, message)) (env.clock 0) ≠
          .recover clock := nofun
      rcases hcall hrec hs with hold | e | e | e
      · exact .inl hold
      · cases e
      · cases e
      · exact absurd e (hown hi (by rw [hst]; rfl))
  | committed i c' status content error now rec hi hst hx =>
    rcases hcall (o := .finish c'.runId status content error now) (fun _ e => nomatch e)
      (next_finish hx).symm with hold | e | e | e
    · exact .inl hold
    · cases e
    · cases e
    · exact absurd e (hown hi (by rw [hst]; rfl))

/-- A driver that waits with its token intact did so before the step, or has just registered. -/
theorem queueing_of_next (he : Effect d a d') {k : Nat} {c : Chat} (hk : d'.chats[k]? = some c)
    (hq : c.stage.queueing = true) (hcan : c.cancelled = false) :
    (∃ c₀, d.chats[k]? = some c₀ ∧ c₀.stage.queueing = true ∧ c₀.cancelled = false ∧
      c₀.key = c.key ∧ c₀.runId = c.runId) ∨
    ∃ c₀ env, a = .advance k env ∧ d.chats[k]? = some c₀ ∧ c₀.stage = .admitted ∧
      d.lookup c₀.key = none ∧ d'.store = d.store ∧ c₀.runId = c.runId := by
  have hmodify : ∀ {i : Nat} {c₁ : Chat} {f : Chat → Chat}, d.chats[i]? = some c₁ →
      d'.chats = d.chats.modify i f → ((f c₁).stage.queueing = true → (f c₁).cancelled = false →
        (c₁.stage.queueing = true ∧ c₁.cancelled = false) ∧ (f c₁).key = c₁.key ∧
          (f c₁).runId = c₁.runId) →
      ∃ c₀, d.chats[k]? = some c₀ ∧ c₀.stage.queueing = true ∧ c₀.cancelled = false ∧
        c₀.key = c.key ∧ c₀.runId = c.runId := by
    intro i c₁ f hi hc hf
    obtain ⟨c₀, hk₀, e⟩ := (reshaped_modify hc).of_some hk
    split at e
    · rename_i hik
      subst hik
      cases hi.symm.trans hk₀
      obtain ⟨⟨hq₀, hcan₀⟩, hkey, hrun⟩ := hf (e ▸ hq) (e ▸ hcan)
      exact ⟨c₁, hi, hq₀, hcan₀, hkey.symm.trans (e ▸ rfl), hrun.symm.trans (e ▸ rfl)⟩
    · exact ⟨c₀, hk₀, e ▸ hq, e ▸ hcan, e ▸ rfl, e ▸ rfl⟩
  have hnotify : ∀ {c₀ : Chat}, d.notifyWaiters.chats[k]? = some c₀ → c₀.stage.queueing = true →
      c₀.cancelled = false → ∃ c₁, d.chats[k]? = some c₁ ∧ c₁.stage.queueing = true ∧
        c₁.cancelled = false ∧ c₁.key = c₀.key ∧ c₁.runId = c₀.runId := by
    intro c₀ hk₀ hq₀ hcan₀
    obtain ⟨c₁, hk₁, rfl⟩ := (reshaped_notify (d := d) rfl).of_some hk₀
    split at hq₀ <;> split at hcan₀ <;> split <;>
      exact ⟨c₁, hk₁, hq₀, hcan₀, rfl, rfl⟩
  cases he with
  | quiet _ _ hc | call _ _ _ _ _ _ _ hc | engine _ _ _ _ _ _ _ _ hc
  | removed _ _ _ _ _ _ _ _ hc | lost _ _ _ _ _ _ _ hc =>
    exact .inl ⟨c, hc ▸ hk, hq, hcan, rfl, rfl⟩
  | admitted c₁ _ _ _ _ _ _ _ hst _ hc =>
    rw [hc] at hk
    rcases Slots.of_concat hk with hk | ⟨-, rfl⟩
    · exact .inl ⟨c, hk, hq, hcan, rfl, rfl⟩
    · rcases hst with e | e | ⟨e, -⟩ <;> rw [e] at hq <;> cases hq
  | turn i c₁ st hi ht _ _ hc =>
    exact .inl (hmodify hi hc fun hq' hcan' => ⟨⟨ht.of_queueing hq', hcan'⟩, rfl, rfl⟩)
  | duplicate i c₁ hi _ _ _ _ hc | started i c₁ _ hi _ _ _ hc | failed i c₁ hi _ _ _ _ hc
  | aborted i c₁ _ _ _ hi _ _ _ _ hc | committed i c₁ _ _ _ _ _ hi _ _ _ hc =>
    refine .inl (hmodify hi hc fun hq' => ?_)
    cases hq'
  | register i c₁ hi hst hact hl hs _ hc =>
    obtain ⟨c₀, hk₀, e⟩ := (reshaped_modify hc).of_some hk
    split at e
    · rename_i hik
      subst hik
      cases hi.symm.trans hk₀
      obtain ⟨env, hact⟩ := hact
      exact .inr ⟨c₁, env, hact, hi, hst, hl, hs, e ▸ rfl⟩
    · exact .inl ⟨c₀, hk₀, e ▸ hq, e ▸ hcan, e ▸ rfl, e ▸ rfl⟩
  | arm i c₁ hi hst _ _ hc | refused i c₁ _ hi hst _ _ hc =>
    exact .inl (hmodify hi hc fun _ hcan' => ⟨⟨by rw [hst]; rfl, hcan'⟩, rfl, rfl⟩)
  | left i c₁ st hi ht _ _ hc =>
    refine .inl (hmodify hi hc fun hq' => ?_)
    cases ht.held.2.symm.trans (ChatStage.queueing_held hq')
  | woke i c₁ st hi ht _ _ hc =>
    rw [hc] at hk
    obtain ⟨c₀, hk₀, rfl⟩ := Slots.of_modify hk
    split at hq
    · rename_i hik
      subst hik
      have hst : c₁.stage.queueing = true := by
        generalize c₁.stage = s at ht
        cases ht <;> first | rfl | cases hq
      have hlisten : c₁.stage.listening = false := by
        generalize c₁.stage = s at ht
        cases ht <;> rfl
      obtain ⟨c₂, hk₂, rfl⟩ := (reshaped_notify (d := d) rfl).of_some hk₀
      cases hi.symm.trans hk₂
      rw [hlisten, if_pos rfl] at hcan ⊢
      exact .inl ⟨c₁, hi, hst, hcan, rfl, rfl⟩
    · rename_i hik
      rw [if_neg hik] at hcan ⊢
      exact .inl (hnotify hk₀ hq hcan)
  | notified _ _ hc =>
    rw [hc] at hk
    exact .inl (hnotify hk hq hcan)
  | broken i c₁ message hi _ _ _ hc =>
    refine .inl (hmodify hi hc fun _ hcan' => ?_)
    cases hcan'
  | signalled i j c₁ run _ _ _ _ hc =>
    obtain ⟨c₀, hk₀, e⟩ := (reshaped_modify hc).of_some hk
    split at e
    · rw [← e] at hcan
      cases hcan
    · exact .inl ⟨c₀, hk₀, e ▸ hq, e ▸ hcan, e ▸ rfl, e ▸ rfl⟩

/-- A cancel that is about to tell a driver keeps that in mind, tells it, or is stopped. -/
theorem Announced.next {id : RunId} (h : Announced d id) (hr : Registry d) (hh : Hunted d)
    (a : DaemonAction) {k : Nat} {c : Chat} (hk : d.chats[k]? = some c)
    (hheld : c.stage.held = true) (hrun : c.runId = id) :
    Announced (d.next a) id ∨
      (∃ c', (d.next a).chats[k]? = some c' ∧ c'.cancelled = true) ∨
      ∃ (j : Nat) (c' : Cancel) (run : RunRecord), a.Mutes d j ∧ d.cancels[j]? = some c' ∧
        c'.stage = .announcing run ∧ run.runId = id := by
  obtain ⟨j, c', run, hj, hst, rfl⟩ := h
  rcases cancel_next hj a with hj' | ⟨env, rfl, e⟩ | ⟨rfl, e⟩
  · exact .inl ⟨j, c', run, hj', hst, rfl⟩
  · refine .inr (.inl ⟨{ c with cancelled := true }, ?_, rfl⟩)
    have hkey : d.lookup run.key = some k := by
      have hknown := (hh j c' hj).known run (by rw [hst]; rfl)
      rw [← hrun, hr.known k c hk] at hknown
      rw [← Option.some.inj hknown]
      exact hr.lookup_held hk hheld
    rw [e]
    simp only [DaemonState.advanceCancel, hst, hkey]
    simp [DaemonState.signal, DaemonState.editChat, DaemonState.setCancel,
      DaemonState.editCancel, hk]
  · rcases abortCancel_eq hj hst with e' | hmute
    · exact .inl ⟨j, c', run, by rw [e, e']; exact hj, hst, rfl⟩
    · exact .inr (.inr ⟨j, c', run, hmute, hj, hst, rfl⟩)

/-- Every action keeps the waiting drivers lively, as long as none registers too late. -/
theorem Lively.step (h : Lively d) (hr : Registry d) (hh : Hunted d) (hw : Answered d)
    (hsafe : Timely d a) : Lively (d.next a) := by
  intro k c hk hq hcan hdq
  have he := next_effect hr a
  rcases queueing_of_next he hk hq hcan with ⟨c₀, hk₀, hq₀, hcan₀, -, hrun⟩ |
    ⟨c₀, env, rfl, hk₀, hst, hl, hs, hrun⟩
  · rw [← hrun] at hdq ⊢
    rcases dequeued_of_effect hr hw he hk₀ hq₀ hdq with hold | hnew | ⟨clock, -, hc⟩
    · rcases (h k c₀ hk₀ hq₀ hcan₀ hold).next hr hh a hk₀ (ChatStage.queueing_held hq₀) rfl with
        hann | ⟨c', hk', hcan'⟩ | ⟨j, c', run, hmute, hj, hstage, e⟩
      · exact hann
      · cases hk.symm.trans hk'
        cases hcan.symm.trans hcan'
      · exact absurd e.symm (hsafe.tells j c' run hmute hj hstage k c₀ hk₀ hq₀ hcan₀)
    · exact hnew
    · rw [hc] at hk
      cases hk.symm.trans (Slots.modify_self hk₀ _)
      cases hq
  · rw [← hrun] at hdq ⊢
    rw [hs] at hdq
    obtain ⟨j, c', run, hj, hstage, e⟩ := hsafe.registers k c₀ env rfl hk₀ hst hl hdq
    refine ⟨j, c', run, ?_, hstage, e⟩
    rcases cancel_next hj (.advance k env) with hj' | ⟨_, e', -⟩ | ⟨e', -⟩
    · exact hj'
    · cases e'
    · cases e'

end Step

/-! ## Every state of a run -/

/-- **No zombie driver.** From any start of the daemon and along any interleaving in which no
driver registers for a run that has left the queue, a driver in its queue loop whose token is
intact has a queued run, or is about to be told. -/
theorem lively_after {ops : List Op} {clock : Clock} {d : DaemonState}
    (hboot : DaemonState.boot (storeAfter ops) clock = .ok d) (run : List DaemonAction)
    (h : Along DaemonState.next Timely d run) : Lively (after DaemonState.next d run) := by
  have hb := booted hboot
  have hstart : Registry d ∧ Hunted d ∧ Answered d ∧ Lively d := by
    refine ⟨hb.registry, hb.hunted, fun id hid => ?_, fun i c hi => ?_⟩
    · rw [hb.control] at hid
      cases hid
    · rw [hb.chats] at hi
      cases hi
  refine (after_induct (I := fun d => Registry d ∧ Hunted d ∧ Answered d ∧ Lively d) ?_
    hstart h).2.2.2
  rintro d a ⟨hr, hh, hw, hl⟩ hsafe
  exact ⟨hr.step (next_effect hr a), hh.step hr a, hw.step hr a, hl.step hr hh hw hsafe⟩

/-- A chat that registers has a queued run, and no timer is stopped. -/
def punctual (d : DaemonState) : DaemonAction → Bool
  | .advance i _ => (d.chats[i]?).all fun c =>
    decide (c.stage = .admitted → d.store.status? c.runId = some .queued)
  | .abortCancel _ => false
  | _ => true

theorem timely_of_punctual {d : DaemonState} {a : DaemonAction} (h : punctual d a = true) :
    Timely d a where
  registers i c env ha hi hst _ hdq := by
    subst ha
    obtain ⟨b, hb, hne⟩ := hdq
    have hq : d.store.status? c.runId = some .queued := by simpa [punctual, hi, hst] using h
    cases hb.symm.trans hq
    exact absurd rfl hne
  tells j c run hmute := by
    rw [hmute.1] at h
    cases h

/-- The second message is cancelled while it waits for the first one. -/
def cancelledTurn : List DaemonAction :=
  [.chat oneKey "hello" .queue none 0, go 0, go 0, go 0, go 0, go 0, go 0, go 0, go 0,
    .chat nextKey "again" .queue none 0, go 1, go 1, go 1, go 1, go 1,
    .cancel ⟨none, some (runIdOf 2), some ⟨"s"⟩⟩,
    .advanceCancel 0 {}, .advanceCancel 0 {}, .advanceCancel 0 {}]

theorem lively_cancelledTurn :
    (after DaemonState.next freshDaemon cancelledTurn).chats.map (fun c => (c.stage, c.cancelled)) =
        [(.running, false), (.waiting, false)] ∧
      (after DaemonState.next freshDaemon cancelledTurn).store.status? (runIdOf 2) =
        some .cancelled ∧
      Lively (after DaemonState.next freshDaemon cancelledTurn) := by
  refine ⟨by decide +kernel, by decide +kernel, lively_after boot_fresh cancelledTurn ?_⟩
  have hpunctual :
      Along DaemonState.next (fun d a => punctual d a = true) freshDaemon cancelledTurn := by
    decide +kernel
  exact along_mono hpunctual fun _ _ _ => timely_of_punctual

/-- A cancel takes the run out of the queue between its admission and the registration of its
driver, finds no driver to tell, and returns. -/
def lateRegistration : List DaemonAction :=
  [.chat oneKey "hello" .queue none 0, .cancel ⟨none, some (runIdOf 1), some ⟨"s"⟩⟩,
    .advanceCancel 0 {}, .advanceCancel 0 {}, .advanceCancel 0 {}, .advanceCancel 0 {},
    .advanceCancel 0 {}, .advanceCancel 0 {}, go 0, go 0, go 0, go 0, go 0]

theorem not_lively_lateRegistration :
    DaemonState.boot (storeAfter []) (fun _ => 0) = .ok freshDaemon ∧
      ¬ Lively (after DaemonState.next freshDaemon lateRegistration) := by
  refine ⟨rfl, fun h => ?_⟩
  have hstate : (after DaemonState.next freshDaemon lateRegistration).chats.map
      (fun c => (c.runId, c.stage, c.cancelled)) = [(runIdOf 1, .waiting, false)] ∧
      (after DaemonState.next freshDaemon lateRegistration).cancels.map (·.stage) =
        [.returned (.found true (runIdOf 1))] ∧
      (after DaemonState.next freshDaemon lateRegistration).store.status? (runIdOf 1) =
        some .cancelled := by decide +kernel
  obtain ⟨hchats, hcancels, hstatus⟩ := hstate
  generalize after DaemonState.next freshDaemon lateRegistration = d at *
  obtain ⟨c, hc, e⟩ := List.map_eq_singleton_iff.mp hchats
  obtain ⟨c', hc', e'⟩ := List.map_eq_singleton_iff.mp hcancels
  simp only [Prod.mk.injEq] at e
  have hdq : d.store.Dequeued c.runId := ⟨.cancelled, by rw [e.1]; exact hstatus, nofun⟩
  obtain ⟨j, c₀, run, hj, hst, -⟩ := h 0 c (by rw [hc]; rfl) (by rw [e.2.1]; rfl) e.2.2 hdq
  rw [hc'] at hj
  rw [List.mem_singleton.mp (List.mem_of_getElem? hj), e'] at hst
  cases hst

end AgentDaemon.Daemon
