import AgentDaemon.Daemon.Registry

/-!
No abandoned run. As long as a store call of a driver fails only once the run has ended,
`handle_chat_send` returns only when its run has ended or another registered chat has it
(`kept_after`). A call that fails earlier leaves the run behind: `abandonedRun` is the shortest
way there.
-/

namespace AgentDaemon.Daemon

open Provider Storage Transition

namespace ChatStage

/-- Out of the active map for good. -/
def gone : ChatStage → Bool
  | thawing | deregistered | returned => true
  | _ => false

theorem driving_held {st : ChatStage} (h : st.driving = true) : st.held = true := by
  cases st <;> first | rfl | cases h

theorem queueing_held {st : ChatStage} (h : st.queueing = true) : st.held = true := by
  cases st <;> first | rfl | cases h

theorem queueing_not_driving {st : ChatStage} (h : st.queueing = true) : st.driving = false := by
  cases st <;> first | rfl | cases h

theorem parting_held {st : ChatStage} (h : st.parting = true) : st.held = true := by
  cases st <;> first | rfl | cases h

theorem gone_not_held {st : ChatStage} (h : st.gone = true) : st.held = false := by
  cases st <;> first | rfl | cases h

theorem Turn.of_gone {c : Chat} {a b : ChatStage} (h : Turn c a b) (hb : b.gone = true) :
    a.gone = true := by
  cases h <;> first | rfl | cases hb

end ChatStage

/-- A registered chat has the run. -/
def Owned (d : DaemonState) (id : RunId) : Prop :=
  ∃ key i, ∃ c : Chat, (key, i) ∈ d.active ∧ d.chats[i]? = some c ∧ c.runId = id

/-- A chat that has returned left its run ended, or to another registered chat. -/
def Kept (d : DaemonState) : Prop :=
  ∀ (i : Nat) c, d.chats[i]? = some c → c.stage = .returned →
    d.store.Ended c.runId ∨ Owned d c.runId

/-- The store call of a driver fails only once its run has ended. -/
def Sturdy (d : DaemonState) (a : DaemonAction) : Prop :=
  ∀ (i : Nat) c, d.chats[i]? = some c → a.failsAt i →
    (c.stage = .trying ∨ c.stage = .routing ∨ (∃ code message, c.stage = .aborting code message) ∨
      ∃ status content error, c.stage = .committing status content error) →
    d.store.Ended c.runId

/-- Every run that is going has a driver, and a chat parts with its run only when that has
ended or is left to another one. -/
structure Handover (d : DaemonState) : Prop where
  covered : ∀ id, d.store.Going id →
    ∃ (i : Nat) (c : Chat), d.chats[i]? = some c ∧ c.stage.driving = true ∧ c.runId = id
  parted : ∀ (i : Nat) c, d.chats[i]? = some c → c.stage.parting = true → d.store.Ended c.runId
  told : ∀ (i : Nat) c, d.chats[i]? = some c → c.stage.queueing = true → c.cancelled = true →
    d.store.Ended c.runId
  kept : ∀ (i : Nat) c, d.chats[i]? = some c → c.stage.gone = true →
    d.store.Ended c.runId ∨
      ∃ (j : Nat) (c' : Chat), d.chats[j]? = some c' ∧ c'.stage.held = true ∧ c'.runId = c.runId

section Step

variable {d d' : DaemonState} {a : DaemonAction}

/-- A step that may move the store, and notifies chats at most. -/
theorem Handover.calm {g : Nat → Chat → Chat} (h : Handover d) (hc : Reshaped g d d')
    (hg : ∀ k c, (g k c).stage = c.stage ∧ (g k c).runId = c.runId ∧
      (g k c).cancelled = c.cancelled)
    (hgoing : ∀ id, d'.store.Going id → d.store.Going id)
    (hended : ∀ id, d.store.Ended id → d'.store.Ended id) : Handover d' where
  covered id hid := by
    obtain ⟨i, c, hi, hst, hrun⟩ := h.covered id (hgoing id hid)
    obtain ⟨hst', hrun', -⟩ := hg i c
    exact ⟨i, _, hc.some hi, hst' ▸ hst, hrun'.trans hrun⟩
  parted i c' hi hst := by
    obtain ⟨c, hi₀, rfl⟩ := hc.of_some hi
    obtain ⟨hst', hrun', -⟩ := hg i c
    rw [hst'] at hst
    exact hrun' ▸ hended _ (h.parted i c hi₀ hst)
  told i c' hi hst hcan := by
    obtain ⟨c, hi₀, rfl⟩ := hc.of_some hi
    obtain ⟨hst', hrun', hcan'⟩ := hg i c
    rw [hst'] at hst
    rw [hcan'] at hcan
    exact hrun' ▸ hended _ (h.told i c hi₀ hst hcan)
  kept i c' hi hst := by
    obtain ⟨c, hi₀, rfl⟩ := hc.of_some hi
    obtain ⟨hst', hrun', -⟩ := hg i c
    rw [hst'] at hst
    rw [hrun']
    rcases h.kept i c hi₀ hst with hid | ⟨j, c', hj, hheld, hrun⟩
    · exact .inl (hended _ hid)
    · obtain ⟨hst'', hrun'', -⟩ := hg j c'
      exact .inr ⟨j, _, hc.some hj, hst'' ▸ hheld, hrun''.trans hrun⟩

/-- A step of the chat `i`, which must account for the stage it comes to. -/
theorem Handover.moved {i : Nat} {c : Chat} {f : Chat → Chat} (h : Handover d)
    (hi : d.chats[i]? = some c) (hc : d'.chats = d.chats.modify i f)
    (hrun : (f c).runId = c.runId)
    (hparted : (f c).stage.parting = true → d'.store.Ended c.runId)
    (htold : (f c).stage.queueing = true → (f c).cancelled = true → d'.store.Ended c.runId)
    (hkept : (f c).stage.gone = true → d'.store.Ended c.runId ∨
      ∃ (j : Nat) (c' : Chat), j ≠ i ∧ d.chats[j]? = some c' ∧ c'.stage.held = true ∧ c'.runId = c.runId)
    (hheld : c.stage.held = true → (f c).stage.held = true ∨ d'.store.Ended c.runId)
    (hdriving : c.stage.driving = true → (f c).stage.driving = true ∨ d'.store.Ended c.runId)
    (hgoing : ∀ id, d'.store.Going id →
      d.store.Going id ∨ id = c.runId ∧ (f c).stage.driving = true)
    (hended : ∀ id, d.store.Ended id → d'.store.Ended id) : Handover d' := by
  have hself : d'.chats[i]? = some (f c) := by
    rw [(reshaped_modify hc).some hi, if_pos rfl]
  have hother : ∀ {k : Nat} {c' : Chat}, k ≠ i → d.chats[k]? = some c' →
      d'.chats[k]? = some c' := by
    intro k c' hne hk
    rw [(reshaped_modify hc).some hk, if_neg fun e => hne e.symm]
  have hcases : ∀ {k : Nat} {c' : Chat}, d'.chats[k]? = some c' →
      k = i ∧ c' = f c ∨ k ≠ i ∧ d.chats[k]? = some c' := by
    intro k c' hk
    obtain ⟨c₀, hk₀, rfl⟩ := (reshaped_modify hc).of_some hk
    by_cases e : i = k
    · subst e
      cases hi.symm.trans hk₀
      exact .inl ⟨rfl, if_pos rfl⟩
    · exact .inr ⟨fun e' => e e'.symm, by rw [if_neg e]; exact hk₀⟩
  exact {
    covered := by
      intro id hid
      rcases hgoing id hid with hold | ⟨rfl, hst⟩
      · obtain ⟨k, c', hk, hst, hrun'⟩ := h.covered id hold
        by_cases e : k = i
        · subst e
          cases hi.symm.trans hk
          rcases hdriving hst with hst' | hend
          · exact ⟨k, _, hself, hst', hrun.trans hrun'⟩
          · exact absurd (hrun' ▸ hend) hid.not_ended
        · exact ⟨k, c', hother e hk, hst, hrun'⟩
      · exact ⟨i, _, hself, hst, hrun⟩
    parted := by
      intro k c' hk hst
      rcases hcases hk with ⟨rfl, rfl⟩ | ⟨-, hk⟩
      · exact hrun ▸ hparted hst
      · exact hended _ (h.parted k c' hk hst)
    told := by
      intro k c' hk hst hcan
      rcases hcases hk with ⟨rfl, rfl⟩ | ⟨-, hk⟩
      · exact hrun ▸ htold hst hcan
      · exact hended _ (h.told k c' hk hst hcan)
    kept := by
      intro k c' hk hst
      rcases hcases hk with ⟨rfl, rfl⟩ | ⟨-, hk⟩
      · rw [hrun]
        rcases hkept hst with hend | ⟨j, c', hne, hj, hheld', hrun'⟩
        · exact .inl hend
        · exact .inr ⟨j, c', hother hne hj, hheld', hrun'⟩
      · rcases h.kept k c' hk hst with hend | ⟨j, c₀, hj, hheld', hrun'⟩
        · exact .inl (hended _ hend)
        · by_cases e : j = i
          · subst e
            cases hi.symm.trans hj
            rcases hheld hheld' with hst' | hend
            · exact .inr ⟨j, _, hself, hst', hrun.trans hrun'⟩
            · exact .inl (hrun' ▸ hend)
          · exact .inr ⟨j, c₀, hother e hj, hheld', hrun'⟩ }

theorem Handover.kept_else {i : Nat} {c : Chat} (h : Handover d) (hi : d.chats[i]? = some c)
    (hg : c.stage.gone = true) : d.store.Ended c.runId ∨
      ∃ (j : Nat) (c' : Chat), j ≠ i ∧ d.chats[j]? = some c' ∧ c'.stage.held = true ∧
        c'.runId = c.runId := by
  rcases h.kept i c hi hg with hend | ⟨j, c', hj, hheld, hrun⟩
  · exact .inl hend
  · refine .inr ⟨j, c', ?_, hj, hheld, hrun⟩
    rintro rfl
    cases hi.symm.trans hj
    cases (ChatStage.gone_not_held hg).symm.trans hheld

/-- A call on behalf of a turn under way. It may revive the run of the turn, which is covered. -/
theorem Handover.engine {i : Nat} {c : Chat} {op : Op} (h : Handover d) (hr : Registry d)
    (hi : d.chats[i]? = some c) (hst : c.stage = .running) (hop : op.engineRun = some c.runId)
    (hs : d'.store = d.store.next op) (hc : d'.chats = d.chats) : Handover d' := by
  obtain ⟨hrecover, hstart, -⟩ := Op.engineRun_quiet hop
  have happ : ∀ id, op.approvalRun = some id → id = c.runId :=
    fun _ => Op.approvalRun_of_engineRun hop
  have hheld : c.stage.held = true := by rw [hst]; rfl
  -- a run that does not stay ended is that of the turn, which no other chat has
  have hended : ∀ id, d.store.Ended id → d'.store.Ended id ∨ id = c.runId := by
    intro id hid
    rw [hs]
    by_cases e : op.approvalRun = some id
    · exact .inr (happ id e)
    · exact .inl (hid.next hrecover e)
  have hsame : ∀ {k : Nat} {c' : Chat}, d.chats[k]? = some c' → c'.stage.held = true →
      c'.stage ≠ .running → d.store.Ended c'.runId → d'.store.Ended c'.runId := by
    intro k c' hk hheld' hne hid
    rcases hended _ hid with hend | e
    · exact hend
    · cases hr.run_unique hi hk hheld hheld' e.symm
      cases hi.symm.trans hk
      exact absurd hst hne
  exact {
    covered := by
      intro id hid
      rw [hs] at hid
      rcases RunStore.going_of_next hid hrecover with hold | e | e
      · rw [hc]
        exact h.covered id hold
      · cases hstart.symm.trans e
      · exact ⟨i, c, hc ▸ hi, by rw [hst]; rfl, (happ id e).symm⟩
    parted := by
      intro k c' hk hpart
      rw [hc] at hk
      refine hsame hk (ChatStage.parting_held hpart) ?_ (h.parted k c' hk hpart)
      intro e
      rw [e] at hpart
      cases hpart
    told := by
      intro k c' hk hq hcan
      rw [hc] at hk
      refine hsame hk (ChatStage.queueing_held hq) ?_ (h.told k c' hk hq hcan)
      intro e
      rw [e] at hq
      cases hq
    kept := by
      intro k c' hk hgone
      rw [hc] at hk ⊢
      rcases h.kept k c' hk hgone with hid | hown
      · rcases hended _ hid with hend | e
        · exact .inl hend
        · exact .inr ⟨i, c, hi, hheld, e.symm⟩
      · exact .inr hown }

/-- A new chat. A run that is going has its driver, so one that is not queued is kept. -/
theorem Handover.append {c : Chat} (h : Handover d)
    (hst : c.stage = .freezing ∨ c.stage = .admitted ∨
      c.stage = .returned ∧ d.store.Dequeued c.runId)
    (hc : d'.chats = d.chats ++ [c]) (hgoing : ∀ id, d'.store.Going id → d.store.Going id)
    (hended : ∀ id, d.store.Ended id → d'.store.Ended id) : Handover d' := by
  have hold : ∀ {k : Nat} {c₀ : Chat}, d.chats[k]? = some c₀ → d'.chats[k]? = some c₀ := by
    intro k c₀ hk
    rw [hc]
    exact Slots.append_of_some hk _
  have hcases : ∀ {k : Nat} {c' : Chat}, d'.chats[k]? = some c' →
      d.chats[k]? = some c' ∨ c' = c := by
    intro k c' hk
    rw [hc] at hk
    rcases Slots.of_concat hk with hk | ⟨-, e⟩
    · exact .inl hk
    · exact .inr e
  exact {
    covered := by
      intro id hid
      obtain ⟨k, c', hk, hst', hrun⟩ := h.covered id (hgoing id hid)
      exact ⟨k, c', hold hk, hst', hrun⟩
    parted := by
      intro k c' hk hpart
      rcases hcases hk with hk | rfl
      · exact hended _ (h.parted k c' hk hpart)
      · rcases hst with e | e | ⟨e, -⟩ <;> rw [e] at hpart <;> cases hpart
    told := by
      intro k c' hk hq hcan
      rcases hcases hk with hk | rfl
      · exact hended _ (h.told k c' hk hq hcan)
      · rcases hst with e | e | ⟨e, -⟩ <;> rw [e] at hq <;> cases hq
    kept := by
      intro k c' hk hgone
      rcases hcases hk with hk | rfl
      · rcases h.kept k c' hk hgone with hid | ⟨j, c₀, hj, hheld, hrun⟩
        · exact .inl (hended _ hid)
        · exact .inr ⟨j, c₀, hold hj, hheld, hrun⟩
      · rcases hst with e | e | ⟨-, hdq⟩
        · rw [e] at hgone
          cases hgone
        · rw [e] at hgone
          cases hgone
        · rcases hdq.going_or_ended with hg | hid
          · obtain ⟨j, c₀, hj, hst', hrun⟩ := h.covered _ hg
            exact .inr ⟨j, c₀, hold hj, ChatStage.driving_held hst', hrun⟩
          · exact .inl (hended _ hid) }

/-- A driver whose token is taken by a cancel is running, or its run has ended. -/
theorem Handover.signalled_ended {i j : Nat} {c : Cancel} {run : RunRecord} {chat : Chat}
    (h : Handover d) (hr : Registry d) (hh : Hunted d) (hj : d.cancels[j]? = some c)
    (hst : c.stage = .announcing run ∧ d.lookup run.key = some i ∨ c.stage = .signalling run i)
    (hi : d.chats[i]? = some chat) (hq : chat.stage.queueing = true) :
    d.store.Ended chat.runId := by
  have hunt := hh j c hj
  have hrun : chat.runId = run.runId ∧ d.store.Dequeued run.runId := by
    rcases hst with ⟨hst, hl⟩ | hst
    · refine ⟨?_, hunt.taken run (by rw [hst]; rfl) (by rw [hst]; rfl)⟩
      obtain ⟨chat', hi', hkey, -⟩ := hr.lookup_eq_some hl
      cases hi.symm.trans hi'
      refine RunStore.eq_of_key? hr.sound (hr.known i chat hi) ?_
      rw [hkey]
      exact hunt.known run (by rw [hst]; rfl)
    · obtain ⟨chat', hi', hrun⟩ := hunt.token run i hst
      cases hi.symm.trans hi'
      exact ⟨hrun, hunt.taken run (by rw [hst]; rfl) (by rw [hst]; rfl)⟩
  rw [hrun.1]
  rcases hrun.2.going_or_ended with hg | hid
  · obtain ⟨k, c', hk, hst', hrun'⟩ := h.covered _ hg
    have e := hr.run_unique hi hk (ChatStage.queueing_held hq) (ChatStage.driving_held hst')
      (hrun.1.trans hrun'.symm)
    subst e
    cases hi.symm.trans hk
    cases (ChatStage.queueing_not_driving hq).symm.trans hst'
  · exact hid

/-- A call that starts nothing and asks for no approval. -/
theorem going_ended_next {s : RunStore} {o : Op} (hop : ∀ clock, o ≠ .recover clock)
    (hstart : o.starts = none) (happ : o.approvalRun = none) :
    (∀ id, (s.next o).Going id → s.Going id) ∧ ∀ id, s.Ended id → (s.next o).Ended id := by
  refine ⟨fun id hid => ?_, fun id hid => hid.next hop (by rw [happ]; exact nofun)⟩
  rcases RunStore.going_of_next hid hop with hg | e | e
  · exact hg
  · rw [hstart] at e
    cases e
  · rw [happ] at e
    cases e

/-- Every action keeps the handover, as long as the store call of a driver fails only once
its run has ended. -/
theorem Handover.step (h : Handover d) (hr : Registry d) (hh : Hunted d) (he : Effect d a d')
    (hsafe : Sturdy d a) : Handover d' := by
  have hkeep : d'.store = d.store →
      (∀ id, d'.store.Going id → d.store.Going id) ∧ ∀ id, d.store.Ended id → d'.store.Ended id :=
    fun e => e ▸ ⟨fun _ => id, fun _ => id⟩
  cases he with
  | quiet hs ha hc =>
    exact h.calm (g := fun _ c => c) (fun k => by rw [hc, Option.map_id'])
      (fun _ _ => ⟨rfl, rfl, rfl⟩) (hkeep hs).1 (hkeep hs).2
  | call op hop _ hstart happ hs ha hc =>
    have hk := going_ended_next (s := d.store) hop hstart happ
    rw [← hs] at hk
    exact h.calm (g := fun _ c => c) (fun k => by rw [hc, Option.map_id'])
      (fun _ _ => ⟨rfl, rfl, rfl⟩) hk.1 hk.2
  | engine i c op hi hst hop hs ha hc => exact h.engine hr hi hst hop hs hc
  | removed j c run now hj hst hx ha hc =>
    obtain ⟨b, hx, -⟩ := hx
    have hk := going_ended_next (s := d.store) (o := .removeQueued run.runId now)
      (fun _ e => nomatch e) rfl rfl
    rw [next_removeQueued hx] at hk
    exact h.calm (g := fun _ c => c) (fun k => by rw [hc, Option.map_id'])
      (fun _ _ => ⟨rfl, rfl, rfl⟩) hk.1 hk.2
  | lost runId env _ _ _ hs ha hc =>
    have hk := going_ended_next (s := d.store) (o := .finish runId .unknownAfterRestart none
      (some (-32002, "审批执行体已消失")) (env.clock 0)) (fun _ e => nomatch e) rfl rfl
    rw [← hs] at hk
    exact h.calm (g := fun _ c => c) (fun k => by rw [hc, Option.map_id'])
      (fun _ _ => ⟨rfl, rfl, rfl⟩) hk.1 hk.2
  | admitted c op hop _ hstart happ hs hkey hst ha hc =>
    have hk := going_ended_next (s := d.store) hop hstart happ
    rw [← hs] at hk
    exact h.append hst hc hk.1 hk.2
  | turn i c st hi ht hs ha hc =>
    have hold := (hkeep hs).2
    refine h.moved hi hc rfl (fun hp => ?_) (fun hq hcan => ?_) (fun hg => ?_) (fun hheld => ?_)
      (fun hd => .inl (ht.driving hd)) (fun id hid => .inl ((hkeep hs).1 id hid)) hold
    · obtain ⟨hq, hcan⟩ := ht.of_parting hp
      exact hold _ (h.told i c hi hq hcan)
    · exact hold _ (h.told i c hi (ht.of_queueing hq) hcan)
    · exact (h.kept_else hi (ht.of_gone hg)).imp_left (hold _)
    · exact .inl (ht.held_eq.trans hheld)
  | duplicate i c hi hst hl hs ha hc =>
    have hold := (hkeep hs).2
    refine h.moved hi hc rfl nofun nofun (fun _ => .inr ?_) (fun hheld => ?_) (fun hd => ?_)
      (fun id hid => .inl ((hkeep hs).1 id hid)) hold
    · obtain ⟨j, hj⟩ := Option.isSome_iff_exists.mp hl
      obtain ⟨c', hj', hkey, hheld⟩ := hr.lookup_eq_some hj
      refine ⟨j, c', ?_, hj', hheld, RunStore.eq_of_key? hr.sound (hr.known j c' hj') ?_⟩
      · rintro rfl
        cases hi.symm.trans hj'
        rw [hst] at hheld
        cases hheld
      · rw [hkey]
        exact hr.known i c hi
    · rw [hst] at hheld
      cases hheld
    · rw [hst] at hd
      cases hd
  | register i c hi hst _ hl hs ha hc =>
    refine h.moved hi hc rfl nofun nofun nofun (fun _ => .inl rfl) (fun hd => ?_)
      (fun id hid => .inl ((hkeep hs).1 id hid)) (hkeep hs).2
    rw [hst] at hd
    cases hd
  | arm i c hi hst hs ha hc =>
    have hold := (hkeep hs).2
    refine h.moved hi hc rfl nofun (fun _ hcan => ?_) nofun (fun _ => .inl rfl) (fun hd => ?_)
      (fun id hid => .inl ((hkeep hs).1 id hid)) hold
    · exact hold _ (h.told i c hi (by rw [hst]; rfl) hcan)
    · rw [hst] at hd
      cases hd
  | failed i c hi hst hwhy hs ha hc =>
    have hold := (hkeep hs).2
    have hend : d'.store.Ended c.runId := by
      refine hold _ ?_
      rcases hwhy with hf | hend
      · refine hsafe i c hi hf ?_
        rcases hst with e | e | e
        · exact .inl e
        · exact .inr (.inl e)
        · exact .inr (.inr (.inr e))
      · exact hend
    exact h.moved hi hc rfl (fun _ => hend) nofun nofun (fun _ => .inl rfl) (fun _ => .inr hend)
      (fun id hid => .inl ((hkeep hs).1 id hid)) hold
  | started i c clock hi hst hx ha hc =>
    refine h.moved hi hc rfl nofun nofun nofun (fun _ => .inl rfl) (fun _ => .inl rfl)
      (fun id hid => ?_) fun id hid => ?_
    · rw [← next_tryStartQueued hx] at hid
      rcases RunStore.going_of_next hid (fun _ e => nomatch e) with hg | e | e
      · exact .inl hg
      · exact .inr ⟨(Option.some.inj e).symm, rfl⟩
      · cases e
    · rw [← next_tryStartQueued hx]
      exact hid.next (fun _ e => nomatch e) nofun
  | refused i c clock hi hst hx ha hc =>
    have hold : ∀ id, d.store.Ended id → d'.store.Ended id := by
      intro id hid
      rw [← next_tryStartQueued hx]
      exact hid.next (fun _ e => nomatch e) nofun
    refine h.moved hi hc rfl nofun (fun _ hcan => ?_) nofun (fun _ => .inl rfl) (fun hd => ?_)
      (fun id hid => ?_) hold
    · exact hold _ (h.told i c hi (by rw [hst]; rfl) hcan)
    · rw [hst] at hd
      cases hd
    · exact .inl ((going_congr (tryStartQueued_refused hx)).mp hid)
  | aborted i c code message env hi hst e hs ha hc =>
    have hk : d'.store.Ended c.runId ∧ (∀ id, d'.store.Going id → d.store.Going id) ∧
        ∀ id, d.store.Ended id → d'.store.Ended id := by
      split at hs
      · rename_i hf
        refine ⟨(hkeep hs).2 _ (hsafe i c hi ⟨env, e, hf⟩ ?_), hkeep hs⟩
        exact .inr (.inr (.inl ⟨code, message, hst⟩))
      · obtain ⟨r, hrun⟩ := hr.exists_run hi
        rw [hs]
        exact ⟨finish_next_ended hr.sound hrun rfl _ _ _,
          going_ended_next (fun _ e => nomatch e) rfl rfl⟩
    exact h.moved hi hc rfl (fun _ => hk.1) nofun nofun (fun _ => .inl rfl) (fun _ => .inr hk.1)
      (fun id hid => .inl (hk.2.1 id hid)) hk.2.2
  | committed i c status content error now rec hi hst hx ha hc =>
    have hend : d'.store.Ended c.runId := finish_ended hx
    have hk := going_ended_next (s := d.store)
      (o := .finish c.runId status content error now) (fun _ e => nomatch e) rfl rfl
    rw [next_finish hx] at hk
    exact h.moved hi hc rfl (fun _ => hend) nofun nofun (fun _ => .inl rfl) (fun _ => .inr hend)
      (fun id hid => .inl (hk.1 id hid)) hk.2
  | left i c st hi ht hs ha hc =>
    have hend := (hkeep hs).2 _ (h.parted i c hi (by
      generalize c.stage = s at ht
      cases ht <;> rfl))
    refine h.moved hi hc rfl (fun _ => hend) (fun _ _ => hend) (fun _ => .inl hend)
      (fun _ => .inr hend) (fun _ => .inr hend) (fun id hid => .inl ((hkeep hs).1 id hid))
      (hkeep hs).2
  | woke i c st hi ht hs ha hc =>
    have hquiet : Handover d.notifyWaiters := by
      refine h.calm (reshaped_notify rfl) (fun k c => ?_) (fun _ => id) fun _ => id
      split <;> exact ⟨rfl, rfl, rfl⟩
    have hi' : d.notifyWaiters.chats[i]? = some c := by
      have hshape : Reshaped _ d d.notifyWaiters := reshaped_notify rfl
      have hsome := hshape.some hi
      rwa [if_neg] at hsome
      generalize c.stage = s at ht
      cases ht <;> nofun
    have hold := (hkeep hs).2
    refine hquiet.moved hi' hc rfl (fun hp => ?_) (fun hq hcan => ?_) (fun hg => ?_)
      (fun hheld => .inl ?_) (fun hd => .inl ?_) (fun id hid => .inl ((hkeep hs).1 id hid)) hold
    · generalize c.stage = s at ht
      cases ht <;> cases hp
    · refine hold _ (h.told i c hi ?_ hcan)
      generalize c.stage = s at ht
      cases ht <;> first | rfl | cases hq
    · have hg' : c.stage.gone = true := by
        generalize c.stage = s at ht
        cases ht <;> first | rfl | cases hg
      exact (hquiet.kept_else hi' hg').imp_left (hold _)
    · generalize c.stage = s at ht hheld
      cases ht <;> first | rfl | cases hheld
    · generalize c.stage = s at ht hd
      cases ht <;> cases hd
  | notified hs ha hc =>
    refine h.calm (reshaped_notify hc) (fun k c => ?_) (hkeep hs).1 (hkeep hs).2
    split <;> exact ⟨rfl, rfl, rfl⟩
  | broken i c message hi hst hs ha hc =>
    refine h.moved hi hc rfl (fun hp => ?_) (fun hq => ?_) (fun hg => ?_) .inl .inl
      (fun id hid => .inl ((hkeep hs).1 id hid)) (hkeep hs).2
    · dsimp only at hp
      rw [hst] at hp
      cases hp
    · dsimp only at hq
      rw [hst] at hq
      cases hq
    · dsimp only at hg
      rw [hst] at hg
      cases hg
  | signalled i j c run hj hst hs ha hc =>
    have hold := (hkeep hs).2
    cases hi : d.chats[i]? with
    | none =>
      refine h.calm (g := fun _ c => c) (fun k => ?_) (fun _ _ => ⟨rfl, rfl, rfl⟩) (hkeep hs).1 hold
      rw [hc, Option.map_id', List.modify_eq_self (List.getElem?_eq_none_iff.mp hi)]
    | some chat =>
      refine h.moved hi hc rfl (fun hp => hold _ (h.parted i chat hi hp))
        (fun hq _ => hold _ (h.signalled_ended hr hh hj hst hi hq))
        (fun hg => (h.kept_else hi hg).imp_left (hold _)) .inl .inl
        (fun id hid => .inl ((hkeep hs).1 id hid)) hold

end Step

/-! ## Every state of a run -/

/-- A condition on actions that no failing call violates. -/
theorem sturdy_of_sound {d : DaemonState} {run : List DaemonAction}
    (h : ∀ a ∈ run, ∀ i, ¬ a.failsAt i) : Along DaemonState.next Sturdy d run :=
  along_mono (along_true d run) fun _ a ha _ i _ _ hf => absurd hf (h a ha i)

/-- The drivers along a run in which store calls fail only once it does no harm. -/
theorem handover_after {d : DaemonState} (hb : Booted d) {run : List DaemonAction}
    (h : Along DaemonState.next Sturdy d run) :
    Registry (after DaemonState.next d run) ∧ Hunted (after DaemonState.next d run) ∧
      Handover (after DaemonState.next d run) := by
  refine after_induct (I := fun d => Registry d ∧ Hunted d ∧ Handover d) ?_ ?_ h
  · rintro d a ⟨hr, hh, hd⟩ hsafe
    have he := next_effect hr a
    exact ⟨hr.step he, hh.step hr a, hd.step hr hh he hsafe⟩
  · have hnone : ∀ {i : Nat} {c : Chat}, d.chats[i]? ≠ some c := by
      intro i c hi
      rw [hb.chats] at hi
      cases hi
    exact ⟨hb.registry, hb.hunted, fun id hid => absurd hid (hb.idle id),
      fun _ _ hi => absurd hi hnone, fun _ _ hi => absurd hi hnone,
      fun _ _ hi => absurd hi hnone⟩

theorem owned_of_held {d : DaemonState} (hr : Registry d) {i : Nat} {c : Chat}
    (hi : d.chats[i]? = some c) (hheld : c.stage.held = true) : Owned d c.runId :=
  ⟨c.key, i, c, hr.held i c hi hheld, hi, rfl⟩

/-- **No abandoned run.** From any start of the daemon and along any interleaving in which the
store call of a driver fails only once its run has ended, a chat that has returned left its
run ended, or to another registered chat. -/
theorem kept_after {ops : List Op} {clock : Clock} {d : DaemonState}
    (hboot : DaemonState.boot (storeAfter ops) clock = .ok d) (run : List DaemonAction)
    (h : Along DaemonState.next Sturdy d run) : Kept (after DaemonState.next d run) := by
  obtain ⟨hr, -, hd⟩ := handover_after (booted hboot) h
  intro i c hi hst
  rcases hd.kept i c hi (by rw [hst]; rfl) with hend | ⟨j, c', hj, hheld, hrun⟩
  · exact .inl hend
  · exact .inr (hrun ▸ owned_of_held hr hj hheld)

/-- A daemon on a new database. -/
def freshDaemon : DaemonState := ⟨.empty, [], [], [], [], none⟩

theorem boot_fresh : DaemonState.boot (storeAfter []) (fun _ => 0) = .ok freshDaemon := rfl

/-- The next stretch of the chat `i`, with nothing going wrong. -/
def go (i : Nat) : DaemonAction := .advance i {}

def oneKey : ActiveKey := ⟨⟨"s"⟩, .number 1⟩

/-- A message is sent and answered. -/
def oneTurn : List DaemonAction :=
  [.chat oneKey "hello" .queue none 0, go 0, go 0, go 0, go 0, go 0, go 0, go 0, go 0,
    .advance 0 { result := .content "hi" }, go 0, go 0, go 0]

theorem kept_oneTurn :
    (after DaemonState.next freshDaemon oneTurn).chats.map (·.stage) = [.returned] ∧
      Kept (after DaemonState.next freshDaemon oneTurn) := by
  refine ⟨by decide +kernel, kept_after boot_fresh oneTurn (sturdy_of_sound ?_)⟩
  rintro a ha i ⟨env, rfl, hf⟩
  simp only [oneTurn, go, List.mem_cons, List.not_mem_nil, or_false, reduceCtorEq,
    DaemonAction.advance.injEq, false_or] at ha
  rcases ha with h | h | h | h | h | h | h | h | h | h | h | h <;> rw [h.2] at hf <;> cases hf

/-- `try_start_queued` fails, and the driver of the queued run returns. -/
def abandonedRun : List DaemonAction :=
  [.chat oneKey "hello" .queue none 0, go 0, go 0, go 0, go 0,
    .advance 0 { fails := true }, go 0]

theorem not_kept_abandonedRun :
    DaemonState.boot (storeAfter []) (fun _ => 0) = .ok freshDaemon ∧
      ¬ Kept (after DaemonState.next freshDaemon abandonedRun) := by
  refine ⟨rfl, fun h => ?_⟩
  have hstate : (after DaemonState.next freshDaemon abandonedRun).chats.map
      (fun c => (c.runId, c.stage)) = [(runIdOf 1, .returned)] ∧
      (after DaemonState.next freshDaemon abandonedRun).active = [] ∧
      (after DaemonState.next freshDaemon abandonedRun).store.status? (runIdOf 1) =
        some .queued := by decide +kernel
  obtain ⟨hchats, hactive, hstatus⟩ := hstate
  generalize after DaemonState.next freshDaemon abandonedRun = d at *
  obtain ⟨c, hc, e⟩ := List.map_eq_singleton_iff.mp hchats
  simp only [Prod.mk.injEq] at e
  rcases h 0 c (by rw [hc]; rfl) e.2 with ⟨a, ha, ht⟩ | ⟨key, i, c', hm, -⟩
  · rw [e.1] at ha
    cases hstatus.symm.trans ha
    cases ht
  · rw [hactive] at hm
    cases hm

end AgentDaemon.Daemon
