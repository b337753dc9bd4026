import AgentDaemon.Daemon.Handover

/-!
The queue of a session is woken by one `Notify` that keeps no state per waiter: a driver that
ends its run must signal it afterwards. `prompt_after` says that a driver that sleeps while its
run is the next one of an idle session has a notification coming, along every run in which no
task ends a run without one before such a sleeper.
-/

namespace AgentDaemon.Daemon

open Provider Storage Transition

/-! ## Sleepers and notifications to come -/

/-- No notification has reached the future of this driver, and its token is not cancelled. -/
def Chat.Asleep (c : Chat) : Prop := c.stage = .waiting ∧ c.notified = false ∧ c.cancelled = false

/-- Every way on from here calls `notify_waiters`. -/
def ChatStage.owes : ChatStage → Bool
  | .registered | .committed | .deregistered => true
  | _ => false

def CancelStage.owes : CancelStage → Bool
  | .announcing _ | .waking _ => true
  | _ => false

/-- A notification is pending, from a task other than those of `but`. -/
def OwedBut (d : DaemonState) (but : Nat → Prop) : Prop :=
  (∃ (i : Nat) (c : Chat), d.chats[i]? = some c ∧ c.stage.owes = true) ∨
    ∃ (j : Nat) (c : Cancel), d.cancels[j]? = some c ∧ c.stage.owes = true ∧ ¬ but j

/-- A notification is pending. -/
def Owed (d : DaemonState) : Prop := OwedBut d fun _ => False

/-- The driver of a run whose turn has come does not sleep with no notification pending. -/
def Prompt (d : DaemonState) : Prop :=
  ∀ (i : Nat) c, d.chats[i]? = some c → c.Asleep → d.store.NextUp c.runId → Owed d

/-- The action ends the run `id` and calls no `notify_waiters`. -/
def DaemonAction.Drops (a : DaemonAction) (d : DaemonState) (id : RunId) : Prop :=
  (∃ (i : Nat) (c : Chat) (env : Env) (code : Int) (message : String), a = .advance i env ∧
    env.fails = false ∧ d.chats[i]? = some c ∧ c.stage = .aborting code message ∧ c.runId = id) ∨
  ∃ env : Env, a = .resolveLost env ∧ env.fails = false ∧ d.control = some (.resolve id)

/-- No run ends in silence before a sleeper that comes next, and no timer is muted that would
have woken one. -/
def Heard (d : DaemonState) (a : DaemonAction) : Prop :=
  ∀ (i : Nat) c, d.chats[i]? = some c → c.Asleep →
    (∀ id, a.Drops d id → d.store.NextAfter (· = id) c.runId → Owed d) ∧
    ∀ j, a.Mutes d j → d.store.NextUp c.runId → OwedBut d (· = j)

theorem Chat.Asleep.listening {c : Chat} (h : c.Asleep) : c.stage.listening = true := by
  rw [h.1]
  rfl

/-! ## Pending notifications after a step -/

section Step

variable {d d' : DaemonState} {a : DaemonAction}

/-- After `notify_waiters` nobody sleeps. -/
theorem not_asleep_of_notify {k : Nat} {c : Chat} (h : d.notifyWaiters.chats[k]? = some c) :
    ¬ c.Asleep := by
  intro hs
  obtain ⟨c₀, -, rfl⟩ := (reshaped_notify (d := d) rfl).of_some h
  split at hs
  · cases hs.2.1
  · exact absurd hs.listening ‹_›

/-- A cancel that owes a notification goes on owing it, calls it, or is muted. -/
theorem cancel_owes {j : Nat} {c : Cancel} (hj : d.cancels[j]? = some c)
    (ho : c.stage.owes = true) (a : DaemonAction) :
    (∃ c', (d.next a).cancels[j]? = some c' ∧ c'.stage.owes = true) ∨
      (d.next a).chats = d.notifyWaiters.chats ∨ a.Mutes d j := by
  rcases cancel_next hj a with hj' | ⟨env, rfl, e⟩ | ⟨rfl, e⟩
  · exact .inl ⟨c, hj', ho⟩
  · cases hst : c.stage with
    | announcing run =>
      refine .inl ⟨{ c with stage := .waking run }, ?_, rfl⟩
      rw [e]
      simp only [DaemonState.advanceCancel, hst]
      split <;> simp [DaemonState.signal, DaemonState.editChat, DaemonState.setCancel,
        DaemonState.editCancel, hj]
    | waking run =>
      refine .inr (.inl ?_)
      rw [e]
      simp only [DaemonState.advanceCancel, hst]
      rfl
    | _ =>
      rw [hst] at ho
      cases ho
  · rw [e]
    cases hst : c.stage with
    | announcing run =>
      rcases abortCancel_eq hj hst with e' | hmute
      · exact .inl ⟨c, e'.symm ▸ hj, ho⟩
      · exact .inr (.inr hmute)
    | waking run =>
      refine .inl ⟨c, ?_, ho⟩
      simp only [DaemonState.abortCancel, hst, CancelStage.abortable, Bool.and_false]
      exact hj
    | _ =>
      rw [hst] at ho
      cases ho

/-- A chat that owes a notification goes on owing it, or everybody is awake. -/
theorem chat_owes (he : Effect d a d') {k : Nat} {c : Chat} (hk : d.chats[k]? = some c)
    (ho : c.stage.owes = true) :
    (∃ c', d'.chats[k]? = some c' ∧ c'.stage.owes = true) ∨
      ∀ (i : Nat) c, d'.chats[i]? = some c → ¬ c.Asleep := by
  have hmodify : ∀ {i : Nat} {c₀ : Chat} {f : Chat → Chat}, d.chats[i]? = some c₀ →
      d'.chats = d.chats.modify i f → (c₀.stage.owes = true → (f c₀).stage.owes = true) →
        ∃ c', d'.chats[k]? = some c' ∧ c'.stage.owes = true := by
    intro i c₀ f hi hc hf
    refine ⟨_, (reshaped_modify hc).some hk, ?_⟩
    split
    · rename_i e
      subst e
      cases hi.symm.trans hk
      exact hf ho
    · exact ho
  cases he with
  | quiet _ _ hc | call _ _ _ _ _ _ _ hc | engine _ _ _ _ _ _ _ _ hc
  | removed _ _ _ _ _ _ _ _ hc | lost _ _ _ _ _ _ _ hc => exact .inl ⟨c, hc ▸ hk, ho⟩
  | admitted c₀ _ _ _ _ _ _ _ _ _ hc =>
    refine .inl ⟨c, ?_, ho⟩
    rw [hc, Slots.append_of_some hk]
  | turn i c₀ st hi ht _ _ hc =>
    refine .inl (hmodify hi hc fun h => ?_)
    generalize c₀.stage = s at ht h
    cases ht <;> cases h
  | duplicate i c₀ hi hst _ _ _ hc | arm i c₀ hi hst _ _ hc | started i c₀ _ hi hst _ _ hc
  | refused i c₀ _ hi hst _ _ hc | aborted i c₀ _ _ _ hi hst _ _ _ hc =>
    refine .inl (hmodify hi hc fun h => ?_)
    rw [hst] at h
    cases h
  | register i c₀ hi _ _ _ _ _ hc | committed i c₀ _ _ _ _ _ hi _ _ _ hc =>
    exact .inl (hmodify hi hc fun _ => rfl)
  | failed i c₀ hi hst _ _ _ hc =>
    refine .inl (hmodify hi hc fun h => ?_)
    rcases hst with e | e | ⟨_, _, _, e⟩ <;> rw [e] at h <;> cases h
  | left i c₀ st hi ht _ _ hc =>
    refine .inl (hmodify hi hc fun h => ?_)
    generalize c₀.stage = s at ht h
    cases ht <;> first | rfl | cases h
  | woke i c₀ st hi ht _ _ hc =>
    refine .inr fun k' c' hk' hs => ?_
    rw [hc] at hk'
    obtain ⟨c₁, hk₁, rfl⟩ := Slots.of_modify hk'
    split at hs
    · have hst : st = .waiting := hs.1
      generalize c₀.stage = s at ht
      subst hst
      cases ht
    · exact not_asleep_of_notify hk₁ hs
  | notified _ _ hc =>
    refine .inr fun k' c' hk' => ?_
    rw [hc] at hk'
    exact not_asleep_of_notify hk'
  | broken i c₀ message hi _ _ _ hc => exact .inl (hmodify hi hc id)
  | signalled i j c₀ run _ _ _ _ hc =>
    refine .inl ⟨_, (reshaped_modify hc).some hk, ?_⟩
    split <;> exact ho

/-- A pending notification stays pending or reaches everybody, but for a muted timer. -/
theorem OwedBut.next {but : Nat → Prop} (h : OwedBut d but) (hr : Registry d)
    (hbut : ∀ j, a.Mutes d j → but j) :
    Owed (d.next a) ∨ ∀ (i : Nat) c, (d.next a).chats[i]? = some c → ¬ c.Asleep := by
  rcases h with ⟨k, c, hk, ho⟩ | ⟨j, c, hj, ho, hno⟩
  · exact (chat_owes (next_effect hr a) hk ho).imp_left fun ⟨c', hk', ho'⟩ => .inl ⟨k, c', hk', ho'⟩
  · rcases cancel_owes hj ho a with ⟨c', hj', ho'⟩ | hall | hmute
    · exact .inl (.inr ⟨j, c', hj', ho', id⟩)
    · refine .inr fun i c hi => ?_
      rw [hall] at hi
      exact not_asleep_of_notify hi
    · exact absurd (hbut j hmute) hno

/-- Who sleeps after a step slept before it, unless its start was refused just now. -/
theorem asleep_of_next (he : Effect d a d') {k : Nat} {c : Chat} (hk : d'.chats[k]? = some c)
    (hs : c.Asleep) : d.chats[k]? = some c ∨ ∃ (c₀ : Chat) (clock : Clock),
      d.chats[k]? = some c₀ ∧ c₀.runId = c.runId ∧
        d.store.tryStartQueued c.runId clock = .ok (false, d'.store) := by
  have hmodify : ∀ {i : Nat} {f : Chat → Chat}, d'.chats = d.chats.modify i f →
      (∀ c₀, d.chats[i]? = some c₀ → ¬ (f c₀).Asleep) → d.chats[k]? = some c := by
    intro i f hc hf
    obtain ⟨c₀, hk₀, e⟩ := (reshaped_modify hc).of_some hk
    split at e
    · rename_i hik
      subst hik
      exact absurd (e ▸ hs) (hf c₀ hk₀)
    · exact e ▸ hk₀
  cases he with
  | quiet _ _ hc | call _ _ _ _ _ _ _ hc | engine _ _ _ _ _ _ _ _ hc
  | removed _ _ _ _ _ _ _ _ hc | lost _ _ _ _ _ _ _ hc => exact .inl (hc ▸ hk)
  | admitted c₀ _ _ _ _ _ _ _ hst _ hc =>
    rw [hc] at hk
    rcases Slots.of_concat hk with hk | ⟨-, rfl⟩
    · exact .inl hk
    · rcases hst with e | e | ⟨e, -⟩ <;> cases e.symm.trans hs.1
  | turn i c₀ st hi ht _ _ hc =>
    refine .inl (hmodify hc fun c₁ _ hs' => ?_)
    have hst : st = .waiting := hs'.1
    generalize c₀.stage = s at ht
    subst hst
    cases ht
  | duplicate _ _ _ _ _ _ _ hc | register _ _ _ _ _ _ _ _ hc | arm _ _ _ _ _ _ hc
  | failed _ _ _ _ _ _ _ hc | started _ _ _ _ _ _ _ hc | aborted _ _ _ _ _ _ _ _ _ _ hc
  | committed _ _ _ _ _ _ _ _ _ _ _ hc =>
    exact .inl (hmodify hc fun _ _ hs' => nomatch hs'.1)
  | refused i c₀ clock hi _ hx _ hc =>
    obtain ⟨c₁, hk₁, e⟩ := (reshaped_modify hc).of_some hk
    split at e
    · rename_i hik
      subst hik
      cases hi.symm.trans hk₁
      have hrun : c₀.runId = c.runId := by rw [← e]
      exact .inr ⟨c₀, clock, hi, hrun, hrun ▸ hx⟩
    · exact .inl (e ▸ hk₁)
  | left i c₀ st hi ht _ _ hc =>
    refine .inl (hmodify hc fun c₁ _ hs' => ?_)
    have hst : st = .waiting := hs'.1
    generalize c₀.stage = s at ht
    subst hst
    cases ht
  | woke i c₀ st hi ht _ _ hc =>
    rw [hc] at hk
    obtain ⟨c₁, hk₁, rfl⟩ := Slots.of_modify hk
    split at hs
    · have hst : st = .waiting := hs.1
      generalize c₀.stage = s at ht
      subst hst
      cases ht
    · exact absurd hs (not_asleep_of_notify hk₁)
  | notified _ _ hc =>
    rw [hc] at hk
    exact absurd hs (not_asleep_of_notify hk)
  | broken i c₀ message hi hst _ _ hc =>
    refine .inl (hmodify hc fun c₁ hi' hs' => ?_)
    cases hi.symm.trans hi'
    cases hst.symm.trans hs'.1
  | signalled i j c₀ run _ _ _ _ hc => exact .inl (hmodify hc fun c₁ _ hs' => nomatch hs'.2.2)

/-- What has come of the runs before one whose turn has come. -/
theorem nextUp_of_effect (he : Effect d a d') {id : RunId} {k : ActiveKey}
    (hid : d.store.key? id = some k) (h : d'.store.NextUp id) :
    d.store.NextUp id ∨ Owed d' ∨
      ∃ run, a.Drops d run ∧ d.store.NextAfter (· = run) id := by
  obtain ⟨st, hst⟩ := RunStore.status?_isSome_of_key? hid
  have hsame : d'.store = d.store → d.store.NextUp id := fun e => e ▸ h
  have hcall : ∀ {o : Op}, (∀ clock, o ≠ .recover clock) → d'.store = d.store.next o →
      d.store.NextAfter o.Ends id := fun hop e => nextAfter_of_next hop hst (e ▸ h)
  cases he with
  | quiet hs | turn _ _ _ _ _ hs | duplicate _ _ _ _ _ hs | register _ _ _ _ _ _ hs
  | arm _ _ _ _ hs | failed _ _ _ _ _ hs | left _ _ _ _ _ hs | woke _ _ _ _ _ hs
  | notified hs | broken _ _ _ _ _ hs | signalled _ _ _ _ _ _ hs => exact .inl (hsame hs)
  | call op hop hends _ _ hs => exact .inl ((hcall hop hs).nextUp hends)
  | admitted c op hop hends _ _ hs => exact .inl ((hcall hop hs).nextUp hends)
  | engine i c op _ _ hop hs =>
    obtain ⟨hrec, -, hends⟩ := Op.engineRun_quiet hop
    exact .inl ((hcall hrec hs).nextUp hends)
  | removed j c run now hj _ hx =>
    obtain ⟨b, hx, hc⟩ := hx
    cases b with
    | true =>
      refine .inr (.inl (.inr ⟨j, { c with stage := .announcing run }, ?_, rfl, fun e => e⟩))
      simp [hc, hj]
    | false =>
      rw [nextUp_iff, removeQueued_refused hx] at h
      exact .inl (nextUp_iff.mpr h)
  | lost run env ha hcontrol hok hs =>
    refine .inr (.inr ⟨run, .inr ⟨env, ha, hok, hcontrol⟩, ?_⟩)
    refine (hcall ?_ hs).mono fun _ e => e.symm
    exact fun _ e => nomatch e
  | started i c clock _ _ hx =>
    refine .inl ((hcall (o := .tryStartQueued c.runId clock) (fun _ e => nomatch e)
      (next_tryStartQueued hx).symm).nextUp fun _ e => e)
  | refused i c clock _ _ hx =>
    rw [nextUp_iff, tryStartQueued_refused hx] at h
    exact .inl (nextUp_iff.mpr h)
  | aborted i c code message env hi hstage ha hs =>
    split at hs
    · exact .inl (hsame hs)
    · rename_i hok
      refine .inr (.inr ⟨c.runId,
        .inl ⟨i, c, env, code, message, ha, by simpa using hok, hi, hstage, rfl⟩, ?_⟩)
      refine (hcall ?_ hs).mono fun _ e => e.symm
      exact fun _ e => nomatch e
  | committed i c status content error now rec hi _ _ _ hc =>
    refine .inr (.inl (.inl ⟨i, _, (reshaped_modify hc).some hi, ?_⟩))
    rw [if_pos rfl]
    rfl

/-- Every action keeps the sleepers served, as long as no run ends in silence before one. -/
theorem Prompt.step (h : Prompt d) (hr : Registry d) (hsafe : Heard d a) :
    Prompt (d.next a) := by
  intro k c hk hs hnext
  have he := next_effect hr a
  rcases asleep_of_next he hk hs with hk₀ | ⟨c₀, clock, hk₀, hrun, hx⟩
  · have hkey := hr.known k c hk₀
    have hheard := hsafe k c hk₀ hs
    have hlater : ∀ {but : Nat → Prop}, OwedBut d but → (∀ j, a.Mutes d j → but j) →
        Owed (d.next a) := by
      intro but ho hbut
      rcases ho.next hr hbut with ho' | hall
      · exact ho'
      · exact absurd hs (hall k c hk)
    rcases nextUp_of_effect he hkey hnext with hold | ho | ⟨run, hdrop, hafter⟩
    · by_cases hmute : ∃ j, a.Mutes d j
      · obtain ⟨j, hj⟩ := hmute
        refine hlater (hheard.2 j hj hold) fun j' hj' => ?_
        have e := hj.1.symm.trans hj'.1
        cases e
        rfl
      · exact hlater (h k c hk₀ hs hold) fun j hj => hmute ⟨j, hj⟩
    · exact ho
    · refine hlater (hheard.1 run hdrop hafter) ?_
      rintro j ⟨e, -⟩
      rcases hdrop with ⟨_, _, _, _, _, e', -⟩ | ⟨_, e', -⟩ <;> cases e.symm.trans e'
  · obtain ⟨ops, e⟩ := hr.stored
    rw [e] at hx
    rw [nextUp_iff, tryStartQueued_refused hx, ← nextUp_iff] at hnext
    exact absurd hnext (not_nextUp_of_refused hx)

end Step

/-! ## Every state of a run -/

/-- **No lost wake-up.** From any start of the daemon and along any interleaving in which no
task ends a run in silence before a sleeper, the driver of a run whose turn has come is awake
or about to be woken. -/
theorem prompt_after {ops : List Op} {clock : Clock} {d : DaemonState}
    (hboot : DaemonState.boot (storeAfter ops) clock = .ok d) (run : List DaemonAction)
    (h : Along DaemonState.next Heard d run) : Prompt (after DaemonState.next d run) := by
  have hb := booted hboot
  have hstart : Registry d ∧ Prompt d := by
    refine ⟨hb.registry, fun i c hi => ?_⟩
    rw [hb.chats] at hi
    cases hi
  refine (after_induct (I := fun d => Registry d ∧ Prompt d) ?_ hstart h).2
  rintro d a ⟨hr, hp⟩ hsafe
  exact ⟨hr.step (next_effect hr a), hp.step hr hsafe⟩

def ChatStage.aborts : ChatStage → Bool
  | .aborting _ _ => true
  | _ => false

/-- The chat does not fail its run, no answer is lost and no timer is stopped. -/
def plain (d : DaemonState) : DaemonAction → Bool
  | .advance i _ => (d.chats[i]?).all fun c => !c.stage.aborts
  | .resolveLost _ | .abortCancel _ => false
  | _ => true

theorem heard_of_plain {d : DaemonState} {a : DaemonAction} (h : plain d a = true) :
    Heard d a := by
  intro i c hi hs
  refine ⟨fun id hdrop => ?_, fun j hmute => ?_⟩
  · rcases hdrop with ⟨k, c', env, code, message, rfl, -, hk, hst, -⟩ | ⟨env, rfl, -⟩
    · simp [plain, hk, hst, ChatStage.aborts] at h
    · cases h
  · rw [hmute.1] at h
    cases h

/-- A second message, to the same session. -/
def nextKey : ActiveKey := ⟨⟨"s"⟩, .number 2⟩

/-- The second message waits until the first one is answered. -/
def twoTurns : List DaemonAction :=
  [.chat oneKey "hello" .queue none 0, go 0, go 0, go 0, go 0, go 0, go 0, go 0, go 0,
    .chat nextKey "again" .queue none 0, go 1, go 1, go 1, go 1, go 1,
    .advance 0 { result := .content "hi" }, go 0]

theorem prompt_twoTurns :
    (after DaemonState.next freshDaemon twoTurns).chats.map (·.stage) = [.committed, .waiting] ∧
      Prompt (after DaemonState.next freshDaemon twoTurns) := by
  refine ⟨by decide +kernel, prompt_after boot_fresh twoTurns ?_⟩
  have hplain : Along DaemonState.next (fun d a => plain d a = true) freshDaemon twoTurns := by
    decide +kernel
  exact along_mono hplain fun _ _ _ => heard_of_plain

/-- The route of a profile. -/
def oneRoute : RouteSnapshot :=
  ⟨[⟨"default", .openaiChat, "m", "sha"⟩], ⟨2, 2, 2, 2, 1, 1000⟩, ⟨1, 1, 1, 1⟩, ⟨1000⟩, 1⟩

/-- A message was queued when the daemon went down. -/
def leftQueued : List Op :=
  [.admitWithRoute oneKey.sessionId oneKey.requestId "hello" .queue oneRoute 0]

/-- The daemon after the restart. -/
def rebooted : DaemonState :=
  { freshDaemon with store := (storeAfter leftQueued).next (.recover fun _ => 0) }

/-- The request is sent again, but the profile of its route is gone. The next message of the
session sleeps while the driver of the first one fails its run. -/
def silentFailure : List DaemonAction :=
  [.chat oneKey "hello" .queue none 0, go 0, go 0, go 0, go 0, go 0, go 0,
    .chat nextKey "again" .queue none 0, go 1, go 1, go 1, go 1, go 1,
    .advance 0 { restored := false }, go 0, go 0]

theorem not_prompt_silentFailure :
    DaemonState.boot (storeAfter leftQueued) (fun _ => 0) = .ok rebooted ∧
      ¬ Prompt (after DaemonState.next rebooted silentFailure) := by
  refine ⟨rfl, fun h => ?_⟩
  have hstate : (after DaemonState.next rebooted silentFailure).chats.map
      (fun c => (c.runId, c.stage, c.notified, c.cancelled)) =
        [(runIdOf 1, .returned, false, false), (runIdOf 2, .waiting, false, false)] ∧
      (after DaemonState.next rebooted silentFailure).cancels = [] ∧
      (after DaemonState.next rebooted silentFailure).store.runs.rows.map
        (fun r => (r.id, r.sessionId, r.status)) =
        [(runIdOf 1, ⟨"s"⟩, .failed), (runIdOf 2, ⟨"s"⟩, .queued)] := by decide +kernel
  obtain ⟨hchats, hcancels, hrows⟩ := hstate
  generalize after DaemonState.next rebooted silentFailure = d at *
  obtain ⟨c₀, l, hc, e₀, hl⟩ := List.map_eq_cons_iff.mp hchats
  obtain ⟨c, rfl, e⟩ := List.map_eq_singleton_iff.mp hl
  obtain ⟨r₀, m, hr, f₀, hm⟩ := List.map_eq_cons_iff.mp hrows
  obtain ⟨r, rfl, f⟩ := List.map_eq_singleton_iff.mp hm
  simp only [Prod.mk.injEq] at e₀ e f₀ f
  have hnext : d.store.NextUp c.runId := by
    refine ⟨[r₀], r, [], hr, f.1.trans e.1.symm, f.2.2, ?_, ?_⟩
    · intro x hx _
      rw [List.mem_singleton.mp hx, f₀.2.2]
      decide
    · intro x hx _
      rw [hr] at hx
      simp only [List.mem_cons, List.not_mem_nil, or_false] at hx
      rcases hx with rfl | rfl
      · rw [f₀.2.2]
        rfl
      · rw [f.2.2]
        rfl
  rcases h 1 c (by rw [hc]; rfl) e.2 hnext with ⟨i, c', hi, ho⟩ | ⟨j, c', hj, -⟩
  · rw [hc] at hi
    have hmem := List.mem_of_getElem? hi
    simp only [List.mem_cons, List.not_mem_nil, or_false] at hmem
    rcases hmem with rfl | rfl
    · rw [e₀.2.1] at ho
      cases ho
    · rw [e.2.1] at ho
      cases ho
  · rw [hcancels] at hj
    cases hj

end AgentDaemon.Daemon
