import AgentDaemon.Daemon.Requesters

/-!
Entries of the pending map whose task is gone. A request that is dropped leaves its entry behind
(`stray_drop`), and nothing but an answer or a cancellation takes it out afterwards (`stray_next`).
-/

namespace AgentDaemon.Daemon.Leftovers

open Storage Transition Broker
open Resolving (done Healthy turning turns_next getElem?_setStage)

section Strays

variable {b : Broker} {k j : Nat} {r r' : Request} {e : PendingApproval} {a : Action}
  {id : InteractionId}

def Entered (b : Broker) (k : Nat) : Prop := ∃ e ∈ b.pending, e.request = k

/-- The entry is in the map, and the task of its request is gone. -/
def Stray (b : Broker) (k : Nat) : Prop :=
  Entered b k ∧ ∃ r, b.requests[k]? = some r ∧ r.stage.receiving = false

/-- A request without a task does not go on. -/
theorem stage_of_gone (hb : Linked b) (hr : b.requests[k]? = some r)
    (h : r.stage.receiving = false) (a : Action) :
    ∃ r', (b.next a).requests[k]? = some r' ∧ r'.stage = r.stage := by
  by_cases ha : turning a = some k
  · refine ⟨r, ?_, rfl⟩
    obtain ⟨info, sessionId, stage, channel⟩ := r
    revert h
    cases a with
    | register j =>
      cases ha
      rw [Broker.next, Broker.register, hr]
      cases stage <;> simp [Stage.receiving, hr]
    | sendFrame j ok =>
      cases ha
      rw [Broker.next, Broker.sendFrame, hr]
      cases stage <;> simp [Stage.receiving, hr]
    | unregister j =>
      cases ha
      rw [Broker.next, Broker.unregister, hr]
      cases stage <;> simp [Stage.receiving, hr]
    | poll j =>
      cases ha
      rw [Broker.next, Broker.poll, hr]
      cases stage <;> simp [Stage.receiving, hr]
    | drop j =>
      cases ha
      rw [Broker.next, Broker.drop, hr]
      cases stage <;> simp [Stage.receiving, hr]
    | _ => cases ha
  · obtain ⟨r', hr', -, hst⟩ := turns_next hb a k r hr
    exact ⟨r', hr', hst fun e => ha e.symm⟩

/-- A task that is not dropped either waits on or returns. -/
theorem receiving_of_next (hb : Linked b) (hr : b.requests[k]? = some r)
    (hr' : (b.next a).requests[k]? = some r') (hdrop : ∀ j, a ≠ .drop j)
    (h : r.stage.receiving = true) : r'.stage.receiving = true ∨ done r'.stage = true := by
  by_cases ha : turning a = some k
  · have hsame : ∀ {r'}, b.requests[k]? = some r' → r'.stage.receiving = true ∨ done r'.stage = true := by
      intro r' hr'
      cases hr.symm.trans hr'
      exact .inl h
    revert hr'
    cases a with
    | register j =>
      cases ha
      rw [Broker.next, Broker.register]
      split
      · intro hr'
        rw [getElem?_setStage hr']
        exact .inl rfl
      · exact hsame
    | sendFrame j ok =>
      cases ha
      rw [Broker.next, Broker.sendFrame]
      split
      · intro hr'
        rw [getElem?_setStage hr']
        cases ok <;> exact .inl rfl
      · exact hsame
    | unregister j =>
      cases ha
      rw [Broker.next, Broker.unregister]
      split
      · intro hr'
        rw [getElem?_setStage hr']
        exact .inr rfl
      · intro hr'
        rw [getElem?_setStage hr']
        exact .inr rfl
      · exact hsame
    | poll j =>
      cases ha
      rw [Broker.next, Broker.poll]
      split
      · intro hr'
        rw [getElem?_setStage hr']
        exact .inr rfl
      · intro hr'
        rw [getElem?_setStage hr']
        exact .inl rfl
      · exact hsame
    | drop j => exact absurd rfl (hdrop j)
    | _ => cases ha
  · obtain ⟨r₁, hr₁, -, hst⟩ := turns_next hb a k r hr
    cases hr'.symm.trans hr₁
    rw [hst fun e => ha e.symm]
    exact .inl h

theorem mem_release_of_ne {use : Request → Request} (he : e ∈ b.pending) (hne : e.info.id ≠ id) :
    e ∈ (b.release id use).pending := by
  unfold Broker.release
  split
  · exact he
  · exact List.mem_filter.mpr ⟨he, by simpa using hne⟩

theorem mem_releaseAll_of_notMem {ids : List InteractionId} {use : Request → Request}
    (he : e ∈ b.pending) (hids : e.info.id ∉ ids) :
    e ∈ (ids.foldl (fun b id => b.release id use) b).pending := by
  induction ids generalizing b with
  | nil => exact he
  | cons id ids ih =>
    rw [List.mem_cons, not_or] at hids
    exact ih (mem_release_of_ne he hids.1) hids.2

/-- Another request releases another entry. -/
theorem info_ne (hb : Healthy b) (he : e ∈ b.pending) (hr : b.requests[j]? = some r)
    (hne : e.request ≠ j) : e.info.id ≠ r.info.id := by
  obtain ⟨r₀, hr₀, hinfo, -⟩ := hb.linked.owner e he
  intro hid
  exact hne (hb.numbered.eq_of_id hr₀ hr (hinfo ▸ hid))

/-- Only an answer or a cancellation takes out the entry of a request without a task. -/
theorem mem_next_of_gone (hb : Healthy b) (he : e ∈ b.pending)
    (hr : b.requests[e.request]? = some r) (h : r.stage.receiving = false)
    (hkept : e.request ∉ b.resolutions a) : e ∈ (b.next a).pending := by
  -- a request that still goes on is another one
  have hother : ∀ {j : Nat} {r' : Request}, b.requests[j]? = some r' → r'.stage.receiving = true →
      e.info.id ≠ r'.info.id := by
    intro j r' hr' hreceiving
    refine info_ne hb he hr' fun hj => ?_
    cases hr.symm.trans (hj ▸ hr')
    cases h.symm.trans hreceiving
  cases a with
  | request requestId sessionId prompt pid nonce => exact he
  | register j =>
    rw [Broker.next, Broker.register]
    split
    · rename_i hj
      exact List.mem_append_left _ (mem_release_of_ne he (hother hj rfl))
    · exact he
  | sendFrame j ok =>
    rw [Broker.next, Broker.sendFrame]
    split <;> exact he
  | unregister j =>
    rw [Broker.next, Broker.unregister]
    split
    · rename_i hj
      exact mem_release_of_ne he (hother hj rfl)
    · rename_i hj
      exact mem_release_of_ne he (hother hj rfl)
    · exact he
  | poll j =>
    rw [Broker.next, Broker.poll]
    split <;> exact he
  | drop j =>
    rw [Broker.next, Broker.drop]
    split
    · split <;> exact he
    · exact he
  | respond id sessionId runId revision approved fails =>
    simp only [resolutions] at hkept
    simp only [Broker.next, respondClaimed]
    split
    · exact he
    · rename_i waiter hlook
      split
      · exact he
      · rename_i record store hclaim
        rw [hlook, hclaim, List.mem_singleton] at hkept
        obtain ⟨hmem, hid⟩ := lookup_eq_some hlook
        refine mem_release_of_ne (b := { b with store }) he fun hsame => hkept ?_
        have hentry : e = waiter :=
          List.inj_on_of_nodup_map hb.linked.nodup he hmem (hsame.trans hid.symm)
        rw [hentry]
  | cancel sessionId requestId =>
    refine mem_releaseAll_of_notMem he fun hids => hkept ?_
    obtain ⟨e', he', hid⟩ := List.mem_map.mp hids
    have hentry : e' = e :=
      List.inj_on_of_nodup_map hb.linked.nodup (List.mem_filter.mp he').1 he hid
    exact List.mem_map.mpr ⟨e', he', congrArg _ hentry⟩
  | storage op => exact he

theorem stray_next (hb : Healthy b) (hdrop : ∀ j, a ≠ .drop j) :
    Stray (b.next a) k ↔ Stray b k ∧ k ∉ b.resolutions a := by
  constructor
  · rintro ⟨⟨e, he, rfl⟩, r', hr', hgone⟩
    have hopen := (hb.next a).open_ e he r' hr'
    have hbefore : ∀ r, b.requests[e.request]? = some r → r.stage.receiving = false := by
      intro r hr
      by_contra hreceiving
      rcases receiving_of_next hb.linked hr hr' hdrop (by simpa using hreceiving) with h | h
      · cases hgone.symm.trans h
      · cases hopen.symm.trans h
    rcases next_pending he with hmem | ⟨r, hr, -, hst⟩
    · obtain ⟨r, hr, -⟩ := hb.linked.owner e hmem
      refine ⟨⟨⟨e, hmem, rfl⟩, r, hr, hbefore r hr⟩, fun hres => ?_⟩
      exact (settled_of_resolution hb.linked hres).2 e he rfl
    · have hfalse := hbefore r hr
      rw [hst] at hfalse
      cases hfalse
  · rintro ⟨⟨⟨e, he, rfl⟩, r, hr, hgone⟩, hkept⟩
    obtain ⟨r', hr', hst⟩ := stage_of_gone hb.linked hr hgone a
    exact ⟨⟨e, mem_next_of_gone hb he hr hgone hkept, rfl⟩, r', hr', by rw [hst, hgone]⟩

/-- A task that is dropped leaves its entry. -/
theorem stray_drop (hb : Linked b) (j : Nat) :
    Stray (b.next (.drop j)) k ↔ Stray b k ∨ k = j ∧ Entered b k := by
  have hpending : (b.next (.drop j)).pending = b.pending := by
    rw [Broker.next, Broker.drop]
    split
    · split <;> rfl
    · rfl
  have hentered : Entered (b.next (.drop j)) k ↔ Entered b k := by rw [Entered, hpending, Entered]
  constructor
  · rintro ⟨hin, r', hr', hgone⟩
    rw [hentered] at hin
    by_cases hkj : k = j
    · exact .inr ⟨hkj, hin⟩
    · obtain ⟨e, he, rfl⟩ := hin
      obtain ⟨r, hr, -⟩ := hb.owner e he
      obtain ⟨r₁, hr₁, -, hst⟩ := turns_next hb (.drop j) _ r hr
      cases hr'.symm.trans hr₁
      rw [hst fun h => hkj (Option.some.inj h)] at hgone
      exact .inl ⟨⟨e, he, rfl⟩, r, hr, hgone⟩
  · rintro (⟨hin, r, hr, hgone⟩ | ⟨rfl, hin⟩)
    · obtain ⟨r', hr', hst⟩ := stage_of_gone hb hr hgone (.drop j)
      exact ⟨hentered.mpr hin, r', hr', by rw [hst, hgone]⟩
    · refine ⟨hentered.mpr hin, ?_⟩
      obtain ⟨e, he, rfl⟩ := hin
      obtain ⟨r, hr, -⟩ := hb.owner e he
      rw [Broker.next, Broker.drop, hr]
      dsimp only
      split
      · rw [Broker.setStage, requests_edit, if_pos rfl, hr]
        exact ⟨_, rfl, rfl⟩
      · rename_i hnot
        exact ⟨r, hr, by simpa using hnot⟩

end Strays

end AgentDaemon.Daemon.Leftovers
