import AgentDaemon.Daemon.Broker

/-!
Approval gating. Along every run of the broker a request is granted only after its interaction
was claimed with the answer `approved`, an entry is resolved at most once, and a claim that
fails changes nothing (`gated_after`).
-/

namespace AgentDaemon.Daemon

open Storage Transition

namespace Broker

/-! ## A request is granted by a claim -/

section Granted

variable {b : Broker} {k : Nat} {r r' : Request} {id : InteractionId} {a : Action}

/-- `true` is on its way to the requester, or has arrived. -/
def Grants (r : Request) : Prop := r.channel = .sent true ∨ r.stage = .returned (.ok true)

/-- What one step does to a request: it keeps its identity, never returns to its first stage
and is granted by nothing but an approving answer. -/
structure Moves (grant : Prop) (r r' : Request) : Prop where
  info : r'.info = r.info
  past : r.stage ≠ .created → r'.stage ≠ .created
  grants : Grants r' → Grants r ∨ grant

theorem Moves.refl (grant : Prop) (r : Request) : Moves grant r r := ⟨rfl, fun h => h, .inl⟩

theorem Moves.trans {grant : Prop} {r₁ r₂ r₃ : Request} (h : Moves grant r₁ r₂)
    (h' : Moves grant r₂ r₃) : Moves grant r₁ r₃ :=
  ⟨h'.info.trans h.info, fun hp => h'.past (h.past hp),
    fun hg => (h'.grants hg).elim h.grants .inr⟩

theorem moves_stage (grant : Prop) (r : Request) {stage : Stage} (hs : stage ≠ .created)
    (h : stage = .returned (.ok true) → r.channel = .sent true) :
    Moves grant r { r with stage } :=
  ⟨rfl, fun _ => hs, fun hg => hg.elim (fun hc => .inl (.inl hc)) fun hs => .inl (.inl (h hs))⟩

theorem moves_send (approved : Bool) (r : Request) :
    Moves (approved = true) r (r.send approved) := by
  unfold Request.send
  split
  · refine ⟨rfl, fun hp => hp, fun hg => hg.elim (fun hc => .inr ?_) fun hs => .inl (.inr hs)⟩
    simpa using hc
  · exact .refl _ r

theorem moves_close (grant : Prop) (r : Request) : Moves grant r r.close :=
  ⟨rfl, fun hp => hp, fun hg => hg.elim nofun fun hs => .inl (.inr hs)⟩

theorem setStage_moves {grant : Prop} (hr : b.requests[k]? = some r) (j : Nat) {stage : Stage}
    (hs : stage ≠ .created) (h : j = k → stage = .returned (.ok true) → r.channel = .sent true) :
    ∃ r', (b.setStage j stage).requests[k]? = some r' ∧ Moves grant r r' := by
  rw [setStage, requests_edit, hr]
  split
  · rename_i hj
    exact ⟨_, rfl, moves_stage grant r hs (h hj)⟩
  · exact ⟨r, rfl, .refl grant r⟩

theorem release_moves {grant : Prop} {use : Request → Request} (id : InteractionId)
    (hr : b.requests[k]? = some r)
    (h : (∃ e, b.lookup id = some e ∧ e.request = k) → Moves grant r (use r)) :
    ∃ r', (b.release id use).requests[k]? = some r' ∧ Moves grant r r' := by
  unfold release
  split
  · exact ⟨r, hr, .refl grant r⟩
  · rename_i e hlook
    rw [requests_edit]
    dsimp only
    rw [hr]
    split
    · rename_i hk
      exact ⟨_, rfl, h ⟨e, hlook, hk⟩⟩
    · exact ⟨r, rfl, .refl grant r⟩

theorem closeAndSet_moves {grant : Prop} (hr : b.requests[k]? = some r) (j : Nat) {stage : Stage}
    (hs : stage ≠ .created) (h : stage ≠ .returned (.ok true)) :
    ∃ r', ((b.release id Request.close).setStage j stage).requests[k]? = some r' ∧
      Moves grant r r' := by
  obtain ⟨r₁, hr₁, h₁⟩ := release_moves _ hr fun _ => moves_close grant r
  obtain ⟨r₂, hr₂, h₂⟩ := setStage_moves hr₁ j hs fun _ hs => absurd hs h
  exact ⟨r₂, hr₂, h₁.trans h₂⟩

theorem releaseAll_moves {grant : Prop} {use : Request → Request}
    (h : ∀ r, Moves grant r (use r)) (ids : List InteractionId)
    (hr : b.requests[k]? = some r) :
    ∃ r', (ids.foldl (fun b id => b.release id use) b).requests[k]? = some r' ∧
      Moves grant r r' := by
  induction ids generalizing b r with
  | nil => exact ⟨r, hr, .refl grant r⟩
  | cons id ids ih =>
    obtain ⟨r₁, hr₁, h₁⟩ := release_moves id hr fun _ => h r
    obtain ⟨r₂, hr₂, h₂⟩ := ih hr₁
    exact ⟨r₂, hr₂, h₁.trans h₂⟩

/-- The action approves the interaction, and its claim is written. -/
def Approves (b : Broker) (k : Nat) (id : InteractionId) (a : Action) : Prop :=
  ∃ sessionId runId revision record store, a = .respond id sessionId runId revision true false ∧
    b.store.claimInteraction id sessionId runId revision true = .ok (record, store) ∧
    ∃ e, b.lookup id = some e ∧ e.request = k

theorem respondClaimed_moves (hb : Linked b) (hr : b.requests[k]? = some r)
    (sessionId : SessionId) (runId : RunId) (revision : Int) (approved fails : Bool) :
    ∃ r', (b.next (.respond id sessionId runId revision approved fails)).requests[k]? = some r' ∧
      Moves (Approves b k r.info.id (.respond id sessionId runId revision approved fails))
        r r' := by
  simp only [next, respondClaimed]
  split
  · exact ⟨r, hr, .refl _ r⟩
  rename_i waiter hlook
  split
  · exact ⟨r, hr, .refl _ r⟩
  rename_i record store hclaim
  refine release_moves (b := { b with store }) id hr ?_
  rintro ⟨e, he, hk⟩
  obtain ⟨hmem, rfl⟩ := lookup_eq_some he
  obtain ⟨r₀, hr₀, hi, -⟩ := hb.owner e hmem
  rw [hk, hr] at hr₀
  cases hr₀
  obtain ⟨hinfo, hpast, hgrants⟩ := moves_send approved r
  refine ⟨hinfo, hpast, fun hg => (hgrants hg).imp_right ?_⟩
  rintro rfl
  cases fails with
  | true => cases hclaim
  | false =>
    rw [hi]
    exact ⟨sessionId, runId, revision, record, store, rfl, hclaim, e, he, hk⟩

theorem next_moves (hb : Linked b) (hr : b.requests[k]? = some r) (a : Action) :
    ∃ r', (b.next a).requests[k]? = some r' ∧ Moves (Approves b k r.info.id a) r r' := by
  cases a with
  | request requestId sessionId prompt pid nonce =>
    refine ⟨r, ?_, .refl _ r⟩
    simp only [next, request]
    exact Slots.append_of_some hr _
  | register j =>
    simp only [next, register]
    split
    · exact closeAndSet_moves hr j (by simp) (by simp)
    · exact ⟨r, hr, .refl _ r⟩
  | sendFrame j ok =>
    simp only [next, sendFrame]
    split
    · exact setStage_moves hr j (by cases ok <;> simp) (by cases ok <;> simp)
    · exact ⟨r, hr, .refl _ r⟩
  | unregister j =>
    simp only [next, unregister]
    split
    · exact closeAndSet_moves hr j (by simp) (by simp)
    · exact closeAndSet_moves hr j (by simp) (by simp)
    · exact ⟨r, hr, .refl _ r⟩
  | poll j =>
    simp only [next, poll]
    split
    · rename_i hj
      refine setStage_moves hr j (by simp) ?_
      rintro rfl hst
      rw [hr] at hj
      cases hj
      simpa using hst
    · exact setStage_moves hr j (by simp) (by simp)
    · exact ⟨r, hr, .refl _ r⟩
  | drop j =>
    simp only [next, drop]
    split
    · split
      · exact setStage_moves hr j (by simp) (by simp)
      · exact ⟨r, hr, .refl _ r⟩
    · exact ⟨r, hr, .refl _ r⟩
  | respond id sessionId runId revision approved fails =>
    exact respondClaimed_moves hb hr sessionId runId revision approved fails
  | cancel sessionId requestId =>
    refine releaseAll_moves (fun r => ?_) _ hr
    obtain ⟨hi, hp, hg⟩ := moves_send false r
    exact ⟨hi, hp, fun h => (hg h).imp_right (by simp)⟩
  | storage op => exact ⟨r, hr, .refl _ r⟩

/-- What the requester is told is in the store. -/
def Backed (b : Broker) : Prop :=
  ∀ (k : Nat) (r : Request), b.requests[k]? = some r → Grants r → b.store.Claimed r.info.id true

@[simp] theorem store_releaseAll (ids : List InteractionId) (use : Request → Request) :
    (ids.foldl (fun b id => b.release id use) b).store = b.store := by
  induction ids generalizing b with
  | nil => rfl
  | cons id ids ih => rw [List.foldl_cons, ih, store_release]

theorem respondClaimed_store (id : InteractionId) (approved : Bool)
    (claim : RunStore → Except RuntimeError (InteractionRecord × RunStore)) :
    (b.respondClaimed id approved claim).2.store = b.store ∨ ∃ record,
      claim b.store = .ok (record, (b.respondClaimed id approved claim).2.store) := by
  unfold respondClaimed
  split
  · exact .inl rfl
  split
  · exact .inl rfl
  rename_i record store hclaim
  exact .inr ⟨record, by rw [hclaim, store_release]⟩

@[simp] theorem store_setStage (j : Nat) (stage : Stage) : (b.setStage j stage).store = b.store :=
  rfl

@[simp] theorem store_register (j : Nat) : (b.register j).store = b.store := by
  unfold register
  split <;> simp

@[simp] theorem store_sendFrame (j : Nat) (ok : Bool) : (b.sendFrame j ok).store = b.store := by
  unfold sendFrame
  split <;> simp

@[simp] theorem store_unregister (j : Nat) : (b.unregister j).store = b.store := by
  unfold unregister
  split <;> simp

@[simp] theorem store_poll (j : Nat) : (b.poll j).store = b.store := by
  unfold poll
  split <;> simp

@[simp] theorem store_drop (j : Nat) : (b.drop j).store = b.store := by
  unfold drop
  split
  · split <;> simp
  · rfl

/-- Answers in the store survive every step. -/
theorem next_store {q : StoredEvent → Prop} (hq : RunStore.Quiet q) (b : Broker) (a : Action)
    (ha : ∀ op, a = .storage op → ∀ id, op.approvalRun = some id →
      ∀ n data, q ⟨id, n, "approval_required", data⟩) :
    Journal.Grows q b.store.journal (b.next a).store.journal := by
  cases a with
  | register j => rw [next, store_register]; exact .refl
  | sendFrame j ok => rw [next, store_sendFrame]; exact .refl
  | unregister j => rw [next, store_unregister]; exact .refl
  | poll j => rw [next, store_poll]; exact .refl
  | drop j => rw [next, store_drop]; exact .refl
  | request requestId sessionId prompt pid nonce => exact .refl
  | cancel sessionId requestId => rw [next, cancelMatching, store_releaseAll]; exact .refl
  | storage op => exact RunStore.next_grows hq b.store op (ha op rfl)
  | respond id sessionId runId revision approved fails =>
    rcases respondClaimed_store (b := b) id approved
      (claim id sessionId runId revision approved fails) with h | ⟨record, h⟩
    · rw [next, h]
      exact .refl
    · cases fails with
      | true => cases h
      | false => exact RunStore.claimInteraction_grows h .refl (hq.routine runId)

theorem Approves.claimed (h : Approves b k id a) : (b.next a).store.Claimed id true := by
  obtain ⟨sessionId, runId, revision, record, store, rfl, hclaim, e, he, -⟩ := h
  have hstore : (b.next (.respond id sessionId runId revision true false)).store = store := by
    have hc : claim id sessionId runId revision true false b.store = .ok (record, store) := hclaim
    simp only [next, respondClaimed, he, hc, store_release]
  rw [hstore]
  exact RunStore.claimInteraction_claimed hclaim

/-- A request that a step adds is not granted. -/
theorem next_new (hr : (b.next a).requests[k]? = some r') (hn : b.requests[k]? = none) :
    ¬ Grants r' := by
  rcases next_infos b a with ⟨-, h⟩ | ⟨requestId, sessionId, prompt, pid, nonce, rfl⟩
  · have hk := List.getElem?_eq_none_iff.mp hn
    have hk' := Slots.lt_of_some hr
    have hlen := congrArg List.length h
    simp only [List.length_map] at hlen
    omega
  · rcases Slots.of_concat hr with hr | ⟨-, rfl⟩
    · cases hn.symm.trans hr
    · rintro (h | h) <;> cases h

theorem Backed.next (h : Backed b) (hb : Linked b) (a : Action) : Backed (b.next a) := by
  intro k r' hr' hg
  cases hr : b.requests[k]? with
  | none => exact absurd hg (next_new hr' hr)
  | some r =>
    obtain ⟨r₁, hr₁, hi, -, hgr⟩ := next_moves hb hr a
    rw [hr'] at hr₁
    cases hr₁
    rw [hi]
    rcases hgr hg with hg | ha
    · exact (h k r hr hg).grows (next_store RunStore.quiet_true b a fun _ _ _ _ _ _ => trivial)
    · exact ha.claimed

theorem backed_after (store : RunStore) (run : List Action) :
    Backed (after Broker.next (init store) run) := by
  refine (after_induct (G := fun _ _ => True) (I := fun b => Linked b ∧ Backed b) ?_
    ⟨linked_init store, fun _ _ h => by simp [init] at h⟩ (along_true _ _)).2
  exact fun b a h _ => ⟨h.1.next a, h.2.next h.1 a⟩

/-- A request keeps its identity. -/
theorem info_after (hb : Linked b) (hr : b.requests[k]? = some r) (run : List Action) :
    ∃ r', (after Broker.next b run).requests[k]? = some r' ∧ r'.info = r.info := by
  refine (after_induct (G := fun _ _ => True)
    (I := fun b => Linked b ∧ ∃ r', b.requests[k]? = some r' ∧ r'.info = r.info) ?_
    ⟨hb, r, hr, rfl⟩ (along_true _ _)).2
  rintro b a ⟨hb, r₁, hr₁, h₁⟩ -
  obtain ⟨r₂, hr₂, h₂⟩ := next_moves hb hr₁ a
  exact ⟨hb.next a, r₂, hr₂, h₂.info.trans h₁⟩

def Ungranted (k : Nat) (b : Broker) : Prop := ∀ r, b.requests[k]? = some r → ¬ Grants r

/-- Somewhere in the run the granted request was approved. -/
theorem approved_of_grants {store : RunStore} {run : List Action}
    (hr : (after Broker.next (init store) run).requests[k]? = some r) (hg : Grants r) :
    ∃ pre a post, run = pre ++ a :: post ∧
      Approves (after Broker.next (init store) pre) k r.info.id a := by
  have hinit : Ungranted k (init store) := by simp [Ungranted, init]
  have hfirst : Ungranted k (after Broker.next (init store) run) ∨
      ∃ pre a post, run = pre ++ a :: post ∧ Ungranted k (after Broker.next (init store) pre) ∧
        ¬ Ungranted k (after Broker.next (init store) (pre ++ [a])) :=
    holds_or_first_failure hinit
  rcases hfirst with h | ⟨pre, a, post, rfl, hbefore, hafter⟩
  · exact absurd hg (h r hr)
  simp only [Ungranted, not_forall, not_not] at hafter
  obtain ⟨r', hr', hg'⟩ := hafter
  rw [after_append, after_cons, after_nil] at hr'
  cases hk : (after Broker.next (init store) pre).requests[k]? with
  | none => exact absurd hg' (next_new hr' hk)
  | some r₀ =>
    have hlinked := linked_after store pre
    obtain ⟨r₁, hr₁, hmove⟩ := next_moves hlinked hk a
    rw [hr'] at hr₁
    cases hr₁
    obtain ⟨r₂, hr₂, hinfo⟩ := info_after (hlinked.next a) hr' post
    rw [after_append, after_cons, hr₂] at hr
    cases hr
    refine ⟨pre, a, post, rfl, ?_⟩
    rw [hinfo, hmove.info]
    exact (hmove.grants hg').resolve_left (hbefore r₀ hk)

end Granted

/-! ## An entry is resolved at most once -/

section Once

variable {b : Broker} {k : Nat} {e : PendingApproval} {id : InteractionId} {a : Action}

/-- The requests whose senders an answer or a cancellation uses. -/
def resolutions (b : Broker) : Action → List Nat
  | .respond id sessionId runId revision approved fails =>
    match b.lookup id, claim id sessionId runId revision approved fails b.store with
    | some e, .ok _ => [e.request]
    | _, _ => []
  | .cancel sessionId requestId => (b.matching sessionId requestId).map (·.request)
  | _ => []

/-- The request is past its registration and has no entry. -/
def Settled (k : Nat) (b : Broker) : Prop :=
  (∃ r, b.requests[k]? = some r ∧ r.stage ≠ .created) ∧ ∀ e ∈ b.pending, e.request ≠ k

theorem mem_releaseAll {ids : List InteractionId} {use : Request → Request}
    (h : e ∈ (ids.foldl (fun b id => b.release id use) b).pending) :
    e ∈ b.pending ∧ e.info.id ∉ ids := by
  induction ids generalizing b with
  | nil => exact ⟨h, List.not_mem_nil⟩
  | cons id ids ih =>
    obtain ⟨he, hids⟩ := ih h
    obtain ⟨he, hid⟩ := mem_release he
    exact ⟨he, by simp [hid, hids]⟩

/-- An entry enters the map with the registration of its request. -/
theorem next_pending (he : e ∈ (b.next a).pending) :
    e ∈ b.pending ∨ ∃ r, b.requests[e.request]? = some r ∧ r.info = e.info ∧
      r.stage = .created := by
  cases a with
  | request requestId sessionId prompt pid nonce => exact .inl he
  | register j =>
    simp only [next, register] at he
    split at he
    · rename_i hj
      rcases List.mem_append.mp he with he | he
      · exact .inl (mem_release he).1
      · simp only [List.mem_singleton] at he
        subst he
        exact .inr ⟨_, hj, rfl, rfl⟩
    · exact .inl he
  | sendFrame j ok => simp only [next, sendFrame] at he; split at he <;> exact .inl he
  | unregister j =>
    simp only [next, unregister] at he
    split at he
    · exact .inl (mem_release he).1
    · exact .inl (mem_release he).1
    · exact .inl he
  | poll j => simp only [next, poll] at he; split at he <;> exact .inl he
  | drop j =>
    simp only [next, drop] at he
    split at he
    · split at he <;> exact .inl he
    · exact .inl he
  | respond id sessionId runId revision approved fails =>
    simp only [next, respondClaimed] at he
    split at he
    · exact .inl he
    · split at he
      · exact .inl he
      · exact .inl (mem_release (b := { b with store := _ }) he).1
  | cancel sessionId requestId => exact .inl (mem_releaseAll he).1
  | storage op => exact .inl he

theorem Settled.next (h : Settled k b) (hb : Linked b) (a : Action) : Settled k (b.next a) := by
  obtain ⟨⟨r, hr, hst⟩, hno⟩ := h
  obtain ⟨r', hr', hmove⟩ := next_moves hb hr a
  refine ⟨⟨r', hr', hmove.past hst⟩, fun e he => ?_⟩
  rcases next_pending he with he | ⟨r₁, hr₁, -, hst₁⟩
  · exact hno e he
  · rintro rfl
    rw [hr] at hr₁
    cases hr₁
    exact hst hst₁

/-- The entry whose sender a step uses, and that it is gone afterwards. -/
theorem mem_resolutions (h : k ∈ b.resolutions a) :
    ∃ e ∈ b.pending, e.request = k ∧
      ∀ e' ∈ (b.next a).pending, e' ∈ b.pending ∧ e'.info.id ≠ e.info.id := by
  cases a with
  | respond id sessionId runId revision approved fails =>
    simp only [resolutions] at h
    split at h
    · rename_i e p hlook hclaim
      simp only [List.mem_singleton] at h
      obtain ⟨he, rfl⟩ := lookup_eq_some hlook
      refine ⟨e, he, h.symm, fun e' he' => ?_⟩
      simp only [next, respondClaimed, hlook, hclaim] at he'
      exact mem_release (b := { b with store := p.2 }) he'
    · cases h
  | cancel sessionId requestId =>
    obtain ⟨e, he, rfl⟩ := List.mem_map.mp h
    refine ⟨e, (List.mem_filter.mp he).1, rfl, fun e' he' => ?_⟩
    obtain ⟨he', hids⟩ := mem_releaseAll he'
    exact ⟨he', fun hid => hids (hid ▸ List.mem_map_of_mem he)⟩
  | request => cases h
  | register => cases h
  | sendFrame => cases h
  | unregister => cases h
  | poll => cases h
  | drop => cases h
  | storage => cases h

theorem settled_of_resolution (hb : Linked b) (h : k ∈ b.resolutions a) :
    Settled k (b.next a) := by
  obtain ⟨e, he, rfl, hgone⟩ := mem_resolutions h
  obtain ⟨r, hr, -, -, hst⟩ := hb.owner e he
  obtain ⟨r', hr', hmove⟩ := next_moves hb hr a
  refine ⟨⟨r', hr', hmove.past hst⟩, fun e' he' hk => ?_⟩
  obtain ⟨he', hid⟩ := hgone e' he'
  exact hid (by rw [hb.eq_of_request he' he hk])

theorem Settled.not_mem_resolutions (h : Settled k b) : k ∉ b.resolutions a := by
  intro hk
  obtain ⟨e, he, he', -⟩ := mem_resolutions hk
  exact h.2 e he he'

/-- A step uses the sender of a request once. -/
theorem nodup_resolutions (hb : Linked b) (a : Action) : (b.resolutions a).Nodup := by
  cases a with
  | respond id sessionId runId revision approved fails =>
    simp only [resolutions]
    split
    · exact List.nodup_singleton _
    · exact List.nodup_nil
  | cancel sessionId requestId =>
    refine List.Nodup.map_on ?_ ((List.Nodup.of_map _ hb.nodup).filter _)
    intro e he e' he' h
    exact hb.eq_of_request (List.mem_filter.mp he).1 (List.mem_filter.mp he').1 h
  | request => exact List.nodup_nil
  | register => exact List.nodup_nil
  | sendFrame => exact List.nodup_nil
  | unregister => exact List.nodup_nil
  | poll => exact List.nodup_nil
  | drop => exact List.nodup_nil
  | storage => exact List.nodup_nil

/-- Steps of the run that answer request `k`. -/
def resolvedCount (store : RunStore) (run : List Action) (k : Nat) : Nat :=
  countAlong Broker.next (fun b a => k ∈ b.resolutions a) (init store) run

theorem resolvedCount_le_one (store : RunStore) (run : List Action) (k : Nat) :
    resolvedCount store run k ≤ 1 := by
  refine countAlong_le_one (I := Linked) (D := Settled k) (fun b a hb => hb.next a) ?_
    (fun b a hb h => h.next hb a) ?_ (linked_init store) run
  · intro b a hb h
    exact settled_of_resolution hb (of_decide_eq_true h)
  · intro b a _ h
    exact decide_eq_false h.not_mem_resolutions

end Once

/-! ## A refused claim changes nothing -/

section Refused

variable {b : Broker} {id : InteractionId}
  {claim : RunStore → Except RuntimeError (InteractionRecord × RunStore)}

/-- The interaction has an entry, and its waiting request would be told the next answer whose
claim succeeds. -/
def Answerable (b : Broker) (id : InteractionId) : Prop :=
  ∃ e r, b.lookup id = some e ∧ b.requests[e.request]? = some r ∧ r.info.id = id ∧
    ∀ approved claim record store, claim b.store = .ok (record, store) → r.stage = .waiting →
      (b.respondClaimed id approved claim).1 = .ok record ∧
      ∃ r', ((b.respondClaimed id approved claim).2.poll e.request).requests[e.request]? =
        some r' ∧ r'.stage = .returned (.ok approved)

theorem respondClaimed_ok (approved : Bool) {e : PendingApproval} {r : Request} {record : InteractionRecord}
    {store : RunStore} (he : b.lookup id = some e) (hr : b.requests[e.request]? = some r)
    (hclaim : claim b.store = .ok (record, store)) (hw : r.stage = .waiting) :
    (b.respondClaimed id approved claim).1 = .ok record ∧
      (b.respondClaimed id approved claim).2.requests[e.request]? =
        some { r with channel := .sent approved } := by
  have hrec : r.stage.receiving = true := by rw [hw]; rfl
  have hlook : { b with store }.lookup id = some e := he
  constructor
  · simp [respondClaimed, he, hclaim, hr, hrec]
  · simp only [respondClaimed, he, hclaim, release, hlook]
    rw [requests_edit, if_pos rfl]
    dsimp only
    rw [hr, Option.map_some, Request.send, if_pos hrec]

theorem poll_sent {approved : Bool} {k : Nat} {r : Request} (hr : b.requests[k]? = some r) (hw : r.stage = .waiting)
    (hc : r.channel = .sent approved) :
    (b.poll k).requests[k]? = some { r with stage := .returned (.ok approved) } := by
  obtain ⟨info, sessionId, stage, channel⟩ := r
  dsimp only at hw hc
  subst hw hc
  have e : b.poll k = b.setStage k (.returned (.ok approved)) := by
    unfold poll
    rw [hr]
  rw [e, setStage, requests_edit, if_pos rfl, hr]
  rfl

theorem Linked.answerable (hb : Linked b) {e : PendingApproval} (he : b.lookup id = some e) :
    Answerable b id := by
  obtain ⟨hmem, hid⟩ := lookup_eq_some he
  obtain ⟨r, hr, hi, -⟩ := hb.owner e hmem
  refine ⟨e, r, he, hr, by rw [hi, hid], ?_⟩
  intro approved claim record store hclaim hw
  obtain ⟨hok, hsent⟩ := respondClaimed_ok approved he hr hclaim hw
  refine ⟨hok, ?_⟩
  exact ⟨_, poll_sent hsent hw rfl, rfl⟩

theorem respondClaimed_refused {approved : Bool} {error : RuntimeError}
    (h : (b.respondClaimed id approved claim).1 = .error (.claim error)) :
    (b.respondClaimed id approved claim).2 = b ∧ ∃ e, b.lookup id = some e := by
  unfold respondClaimed at h ⊢
  cases he : b.lookup id with
  | none => simp [he] at h
  | some e =>
    simp only [he] at h ⊢
    split at h
    · exact ⟨rfl, e, rfl⟩
    · dsimp only at h
      split at h <;> cases h

end Refused

/-! ## Approval gating -/

/-- What a run of the broker keeps. -/
structure Gated (store : RunStore) (run : List Action) : Prop where
  /-- A request that returned `Ok(true)` was approved: a step of the run claimed the approving
  answer to its interaction, and that answer is in the store. -/
  granted : ∀ (k : Nat) (r : Request), (after next (init store) run).requests[k]? = some r →
    r.stage = .returned (.ok true) →
    (after next (init store) run).store.Claimed r.info.id true ∧
    ∃ pre a post, run = pre ++ a :: post ∧
      Approves (after next (init store) pre) k r.info.id a
  /-- No request is answered twice, within a step or along the run. -/
  once : ∀ k, resolvedCount store run k ≤ 1 ∧ ∀ pre a post, run = pre ++ a :: post →
    ((after next (init store) pre).resolutions a).Nodup
  /-- A claim that fails leaves everything as it was, and the request can still be answered. -/
  refused : ∀ pre post id sessionId runId revision approved fails error,
    run = pre ++ .respond id sessionId runId revision approved fails :: post →
    ((after next (init store) pre).respondClaimed id approved
      (claim id sessionId runId revision approved fails)).1 = .error (.claim error) →
    after next (init store) (pre ++ [.respond id sessionId runId revision approved fails]) =
      after next (init store) pre ∧ Answerable (after next (init store) pre) id

/-- Every run of the broker, from any store, is gated. -/
theorem gated_after (store : RunStore) (run : List Action) : Gated store run where
  granted := by
    intro k r hr hst
    exact ⟨backed_after store run k r hr (.inr hst), approved_of_grants hr (.inr hst)⟩
  once := by
    intro k
    refine ⟨resolvedCount_le_one store run k, ?_⟩
    rintro pre a post -
    exact nodup_resolutions (linked_after store pre) a
  refused := by
    rintro pre post id sessionId runId revision approved fails error - h
    obtain ⟨hsame, e, he⟩ := respondClaimed_refused h
    refine ⟨?_, (linked_after store pre).answerable he⟩
    rw [after_append, after_cons, after_nil]
    exact hsame

end Broker

end AgentDaemon.Daemon
