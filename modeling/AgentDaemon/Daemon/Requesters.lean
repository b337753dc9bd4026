import AgentDaemon.Daemon.Resolve
import AgentDaemon.Storage.Questions

/-!
What the requesters keep. A request goes on by its own steps only, and its channel is used once
(`turns_next`). The requests of a run come one after the other, so the frames of its driver are
those of requests that have returned, and then perhaps of one more (`InOrder`); no two drivers share
a run or a request (`Separate`).
-/

namespace AgentDaemon.Daemon.Resolving

open Storage Transition Broker

/-! ## The requests -/

section Requests

variable {b b' : Broker} {k : Nat} {o : Option Nat} {id : InteractionId} {r r' : Request}

/-- What a request keeps from step to step. -/
structure Later (r r' : Request) : Prop where
  info : r'.info = r.info
  past : pastSending r.stage = true → pastSending r'.stage = true
  done : done r.stage = true → r'.stage = r.stage
  sent : ∀ approved, r.channel = .sent approved → r'.channel = .sent approved

theorem Later.refl (r : Request) : Later r r := ⟨rfl, id, fun _ => rfl, fun _ => id⟩

theorem Later.trans {r₁ r₂ r₃ : Request} (h : Later r₁ r₂) (h' : Later r₂ r₃) : Later r₁ r₃ where
  info := h'.info.trans h.info
  past hp := h'.past (h.past hp)
  done hd := (h'.done (by rw [h.done hd]; exact hd)).trans (h.done hd)
  sent a ha := h'.sent a (h.sent a ha)

/-- The requests go on, and no other than `o` gets to another stage. -/
def Turns (o : Option Nat) (b b' : Broker) : Prop := ∀ (j : Nat) (r : Request),
  b.requests[j]? = some r →
    ∃ r', b'.requests[j]? = some r' ∧ Later r r' ∧ (some j ≠ o → r'.stage = r.stage)

theorem Turns.of_requests (h : b'.requests = b.requests) : Turns o b b' :=
  fun _ r hr => ⟨r, h ▸ hr, .refl r, fun _ => rfl⟩

theorem Turns.trans {b₁ b₂ b₃ : Broker} (h : Turns o b₁ b₂) (h' : Turns o b₂ b₃) :
    Turns o b₁ b₃ := by
  intro j r hr
  obtain ⟨r', hr', hl, hst⟩ := h j r hr
  obtain ⟨r'', hr'', hl', hst'⟩ := h' j r' hr'
  exact ⟨r'', hr'', hl.trans hl', fun hj => (hst' hj).trans (hst hj)⟩

theorem Turns.mono (h : Turns none b b') : Turns o b b' := by
  intro j r hr
  obtain ⟨r', hr', hl, hst⟩ := h j r hr
  exact ⟨r', hr', hl, fun _ => hst nofun⟩

theorem turns_setStage {stage : Stage}
    (h : ∀ r, b.requests[k]? = some r →
      done r.stage = false ∧ (pastSending r.stage = true → pastSending stage = true)) :
    Turns (some k) b (b.setStage k stage) := by
  intro j r hr
  rw [Broker.setStage, requests_edit, hr]
  split
  · rename_i hj
    subst hj
    obtain ⟨hdone, hpast⟩ := h r hr
    refine ⟨_, rfl, ⟨rfl, hpast, fun hd => ?_, fun _ => id⟩, fun hne => absurd rfl hne⟩
    rw [hdone] at hd
    cases hd
  · exact ⟨r, rfl, .refl r, fun _ => rfl⟩

/-- The sender of an entry was not used before. -/
theorem turns_release (hb : Linked b) {use : Request → Request} (hu : Uses use) :
    Turns none b (b.release id use) := by
  intro j r hr
  unfold Broker.release
  split
  · exact ⟨r, hr, .refl r, fun _ => rfl⟩
  · rename_i e hlook
    rw [requests_edit]
    dsimp only
    rw [hr]
    split
    · rename_i hj
      subst hj
      obtain ⟨r', hr', -, hchannel, -⟩ := hb.owner e (lookup_eq_some hlook).1
      cases hr.symm.trans hr'
      refine ⟨_, rfl, ⟨hu.info r, fun hp => ?_, fun _ => hu.stage r, fun a ha => ?_⟩,
        fun _ => hu.stage r⟩
      · rw [hu.stage]
        exact hp
      · cases hchannel.symm.trans ha
    · exact ⟨r, rfl, .refl r, fun _ => rfl⟩

theorem turns_releaseAll (hb : Linked b) (ids : List InteractionId) {use : Request → Request}
    (hu : Uses use) : Turns none b (ids.foldl (fun b id => b.release id use) b) := by
  induction ids generalizing b with
  | nil => exact .of_requests rfl
  | cons id ids ih => exact (turns_release hb hu).trans (ih (hb.release id hu))

/-- The request that an action lets go on. -/
def turning : Action → Option Nat
  | .register k | .sendFrame k _ | .unregister k | .poll k | .drop k => some k
  | _ => none

theorem turns_next (hb : Linked b) (a : Action) : Turns (turning a) b (b.next a) := by
  have hstage : ∀ {b : Broker} {k : Nat} {r : Request} {stage : Stage},
      b.requests[k]? = some r → done r.stage = false →
      (pastSending r.stage = true → pastSending stage = true) →
      Turns (some k) b (b.setStage k stage) := by
    intro b k r stage hr hdone hpast
    refine turns_setStage fun r' hr' => ?_
    cases hr.symm.trans hr'
    exact ⟨hdone, hpast⟩
  have hclose : ∀ {k : Nat} {r : Request} {stage : Stage}, b.requests[k]? = some r →
      done r.stage = false → (pastSending r.stage = true → pastSending stage = true) →
      Turns (some k) b ((b.release r.info.id Request.close).setStage k stage) := by
    intro k r stage hr hdone hpast
    have hrelease : Turns none b (b.release r.info.id Request.close) := turns_release hb uses_close
    obtain ⟨r', hr', -, hst⟩ := hrelease k r hr
    refine hrelease.mono.trans (hstage hr' ?_ ?_) <;> rw [hst (by simp)]
    · exact hdone
    · exact hpast
  cases a with
  | request requestId sessionId prompt pid nonce =>
    intro j r hr
    refine ⟨r, ?_, .refl r, fun _ => rfl⟩
    rw [Broker.next, Broker.request]
    exact Slots.append_of_some hr _
  | register k =>
    rw [Broker.next, Broker.register]
    split
    · rename_i info sessionId channel hr
      exact (hclose hr rfl (by simp [pastSending])).trans (.of_requests rfl)
    · exact .of_requests rfl
  | sendFrame k ok =>
    rw [Broker.next, Broker.sendFrame]
    split
    · rename_i hr
      exact hstage hr rfl (by simp [pastSending])
    · exact .of_requests rfl
  | unregister k =>
    rw [Broker.next, Broker.unregister]
    split
    · rename_i hr
      exact hclose hr rfl fun _ => rfl
    · rename_i hr
      exact hclose hr rfl fun _ => rfl
    · exact .of_requests rfl
  | poll k =>
    rw [Broker.next, Broker.poll]
    split
    · rename_i hr
      exact hstage hr rfl fun _ => rfl
    · rename_i hr
      exact hstage hr rfl fun _ => rfl
    · exact .of_requests rfl
  | drop k =>
    rw [Broker.next, Broker.drop]
    split
    · rename_i r hr
      split
      · rename_i hreceiving
        refine hstage hr ?_ fun _ => rfl
        revert hreceiving
        cases r.stage <;> simp [done, Stage.receiving]
      · exact .of_requests rfl
    · exact .of_requests rfl
  | respond id sessionId runId revision approved fails =>
    rw [Broker.next, Broker.respondClaimed]
    split
    · exact .of_requests rfl
    · split
      · exact .of_requests rfl
      · rename_i record store _
        have hrelease : Turns none { b with store }
          ({ b with store }.release id (Request.send approved)) :=
          turns_release (hb.withStore store) (uses_send approved)
        exact fun j r hr => hrelease j r hr
  | cancel sessionId requestId => exact turns_releaseAll hb _ (uses_send false)
  | storage op => exact .of_requests rfl

/-- The entries are those of requests that have not returned. -/
structure Healthy (b : Broker) : Prop where
  linked : Linked b
  numbered : Numbered b
  open_ : ∀ e ∈ b.pending, ∀ r, b.requests[e.request]? = some r → done r.stage = false

theorem Healthy.withStore (hb : Healthy b) (store : RunStore) : Healthy { b with store } :=
  ⟨hb.linked.withStore store, ⟨hb.numbered.nextId, hb.numbered.ids⟩, hb.open_⟩

theorem Healthy.release (hb : Healthy b) (id : InteractionId) {use : Request → Request}
    (hu : Uses use) : Healthy (b.release id use) where
  linked := hb.linked.release id hu
  numbered := by
    have hinfos := infos_release b id hu
    refine ⟨?_, by rw [hinfos]; exact hb.numbered.ids⟩
    have hlen := congrArg List.length hinfos
    simp only [List.length_map] at hlen
    rw [nextId_release, hlen, hb.numbered.nextId]
  open_ := by
    intro e he r' hr'
    obtain ⟨he, -⟩ := mem_release he
    obtain ⟨r, hr, -⟩ := hb.linked.owner e he
    have hrelease : Turns none b (b.release id use) := turns_release hb.linked hu
    obtain ⟨r'', hr'', -, hst⟩ := hrelease _ _ hr
    cases hr'.symm.trans hr''
    rw [hst nofun]
    exact hb.open_ e he r hr

theorem getElem?_setStage {stage : Stage} (hr : (b.setStage k stage).requests[k]? = some r) :
    r.stage = stage := by
  rw [Broker.setStage, requests_edit, if_pos rfl] at hr
  obtain ⟨r₀, -, rfl⟩ := Option.map_eq_some_iff.mp hr
  rfl

/-- A request that goes on and still has its entry has not returned. -/
theorem open_turning (hb : Healthy b) {a : Action} {e : PendingApproval}
    (ha : turning a = some e.request) (he : e ∈ (b.next a).pending)
    (hr : (b.next a).requests[e.request]? = some r) : done r.stage = false := by
  have hsame := hb.open_ e
  revert he hr
  cases a with
  | register k =>
    cases ha
    rw [Broker.next, Broker.register]
    split
    · intro _ hr
      rw [getElem?_setStage hr]
      rfl
    · exact fun he hr => hsame he r hr
  | sendFrame k ok =>
    cases ha
    rw [Broker.next, Broker.sendFrame]
    split
    · intro _ hr
      rw [getElem?_setStage hr]
      cases ok <;> rfl
    · exact fun he hr => hsame he r hr
  | unregister k =>
    cases ha
    -- the entry of the request is removed
    have hgone : ∀ {r₀ : Request} {stage : Stage}, b.requests[e.request]? = some r₀ →
        e ∉ ((b.release r₀.info.id Request.close).setStage e.request stage).pending := by
      intro r₀ stage hr₀ he
      obtain ⟨he, hne⟩ := mem_release he
      obtain ⟨r₁, hr₁, hinfo, -⟩ := hb.linked.owner e he
      cases hr₀.symm.trans hr₁
      exact hne (congrArg _ hinfo).symm
    rw [Broker.next, Broker.unregister]
    split
    · rename_i hr₀
      exact fun he => absurd he (hgone hr₀)
    · rename_i hr₀
      exact fun he => absurd he (hgone hr₀)
    · exact fun he hr => hsame he r hr
  | poll k =>
    cases ha
    rw [Broker.next, Broker.poll]
    split
    · rename_i hr₀
      intro he
      obtain ⟨r₁, hr₁, -, hchannel, -⟩ := hb.linked.owner e he
      cases hr₀.symm.trans hr₁
      cases hchannel
    · intro _ hr
      rw [getElem?_setStage hr]
      rfl
    · exact fun he hr => hsame he r hr
  | drop k =>
    cases ha
    rw [Broker.next, Broker.drop]
    split
    · split
      · intro _ hr
        rw [getElem?_setStage hr]
        rfl
      · exact fun he hr => hsame he r hr
    · exact fun he hr => hsame he r hr
  | _ => cases ha

theorem Healthy.next (hb : Healthy b) (a : Action) : Healthy (b.next a) where
  linked := hb.linked.next a
  numbered := hb.numbered.next a
  open_ := by
    intro e he r' hr'
    by_cases ha : turning a = some e.request
    · exact open_turning hb ha he hr'
    · have hstage : ∀ r, b.requests[e.request]? = some r → r'.stage = r.stage := by
        intro r hr
        obtain ⟨r'', hr'', -, hst⟩ := turns_next hb.linked a _ _ hr
        cases hr'.symm.trans hr''
        exact hst fun h => ha h.symm
      rcases next_pending he with he | ⟨r, hr, -, hst⟩
      · obtain ⟨r, hr, -⟩ := hb.linked.owner e he
        rw [hstage r hr]
        exact hb.open_ e he r hr
      · rw [hstage r hr, hst]
        rfl

theorem healthy_init (store : RunStore) : Healthy (.init store) :=
  ⟨linked_init store, numbered_init store, fun _ h => by cases h⟩

end Requests

/-! ## The drivers -/

section Drivers

variable {b b' : Broker} {c : Driver} {o : Option Nat} {d d' : ResolveState} {i : Nat}

def IsDone (b : Broker) (k : Nat) : Prop := ∃ r, b.requests[k]? = some r ∧ done r.stage = true

def IsPast (b : Broker) (k : Nat) : Prop :=
  ∃ r, b.requests[k]? = some r ∧ pastSending r.stage = true

theorem IsDone.turns {k : Nat} (h : IsDone b k) (ht : Turns o b b') : IsDone b' k := by
  obtain ⟨r, hr, hd⟩ := h
  obtain ⟨r', hr', hl, -⟩ := ht k r hr
  exact ⟨r', hr', by rw [hl.done hd]; exact hd⟩

theorem IsPast.turns {k : Nat} (h : IsPast b k) (ht : Turns o b b') : IsPast b' k := by
  obtain ⟨r, hr, hp⟩ := h
  obtain ⟨r', hr', hl, -⟩ := ht k r hr
  exact ⟨r', hr', hl.past hp⟩

/-- The frames of a run are those of requests that have returned, and then perhaps of one more,
which is the open one unless the turn has ended. -/
structure InOrder (b : Broker) (c : Driver) : Prop where
  frames : ∃ l, (∀ k ∈ l, IsDone b k) ∧ (c.frames = l ∨ ∃ k, c.frames = l ++ [k] ∧
    (c.engine = .ended ∨ c.engine = .asking k ∧ IsPast b k))
  open_ : ∀ k, c.engine = .asking k → ∃ r, b.requests[k]? = some r ∧ r.stage.receiving = true
  bound : c.received ≤ c.frames.length

theorem InOrder.turns (h : InOrder b c) (ht : Turns o b b')
    (ho : ∀ k, c.engine = .asking k → some k ≠ o) : InOrder b' c where
  frames := by
    obtain ⟨l, hl, hframes⟩ := h.frames
    refine ⟨l, fun k hk => (hl k hk).turns ht, ?_⟩
    rcases hframes with e | ⟨k, e, hended | ⟨hasking, hpast⟩⟩
    · exact .inl e
    · exact .inr ⟨k, e, .inl hended⟩
    · exact .inr ⟨k, e, .inr ⟨hasking, hpast.turns ht⟩⟩
  open_ := by
    intro k hk
    obtain ⟨r, hr, hreceiving⟩ := h.open_ k hk
    obtain ⟨r', hr', -, hst⟩ := ht k r hr
    exact ⟨r', hr', by rw [hst (ho k hk)]; exact hreceiving⟩
  bound := h.bound

theorem InOrder.ended (h : InOrder b c) {received : Nat} (hbound : received ≤ c.frames.length) :
    InOrder b { c with engine := .ended, received } where
  frames := by
    obtain ⟨l, hl, hframes⟩ := h.frames
    refine ⟨l, hl, ?_⟩
    rcases hframes with e | ⟨k, e, -⟩
    · exact .inl e
    · exact .inr ⟨k, e, .inl rfl⟩
  open_ := nofun
  bound := hbound

/-- The drivers have different runs and different requests. -/
structure Separate (d : ResolveState) : Prop where
  order : ∀ (i : Nat) c, d.drivers[i]? = some c → InOrder d.broker c
  dequeued : ∀ (i : Nat) c, d.drivers[i]? = some c → d.store.Dequeued c.runId
  runs : ∀ (i j : Nat) c c', d.drivers[i]? = some c → d.drivers[j]? = some c' →
    c.runId = c'.runId → i = j
  asking : ∀ (i j : Nat) c c' k, d.drivers[i]? = some c → d.drivers[j]? = some c' →
    c.engine = .asking k → c'.engine = .asking k → i = j

/-- One driver goes on. -/
theorem Separate.edit (h : Separate d) (hi : d.drivers[i]? = some c) {f : Driver → Driver}
    (hd' : d'.drivers = d.drivers.modify i f) (ht : Turns o d.broker d'.broker)
    (hdequeued : ∀ id, d.store.Dequeued id → d'.store.Dequeued id)
    (hrun : (f c).runId = c.runId) (horder : InOrder d'.broker (f c))
    (ho : ∀ k, o = some k → c.engine = .asking k)
    (hasks : ∀ k, (f c).engine = .asking k →
      c.engine = .asking k ∨ d.broker.requests[k]? = none) : Separate d' := by
  have hdrivers : ∀ (j : Nat) c', d'.drivers[j]? = some c' →
      (j = i ∧ c' = f c) ∨ (j ≠ i ∧ d.drivers[j]? = some c') := by
    intro j c' hj
    rw [hd'] at hj
    obtain ⟨c₀, hc₀, rfl⟩ := Slots.of_modify hj
    by_cases e : j = i
    · subst e
      cases hc₀.symm.trans hi
      exact .inl ⟨rfl, if_pos rfl⟩
    · exact .inr ⟨e, by rw [if_neg e]; exact hc₀⟩
  -- the request of the driver is none of another driver
  have hother : ∀ (j : Nat) c' k, j ≠ i → d.drivers[j]? = some c' → c'.engine = .asking k →
      (f c).engine ≠ .asking k := by
    intro j c' k hne hj hk hf
    rcases hasks k hf with hc | hnone
    · exact hne (h.asking j i c' c k hj hi hk hc)
    · obtain ⟨r, hr, -⟩ := (h.order j c' hj).open_ k hk
      cases hnone.symm.trans hr
  refine ⟨?_, ?_, ?_, ?_⟩
  · intro j c' hj
    rcases hdrivers j c' hj with ⟨rfl, rfl⟩ | ⟨hne, hj⟩
    · exact horder
    · refine (h.order j c' hj).turns ht fun k hk e => hne ?_
      exact h.asking j i c' c k hj hi hk (ho k e.symm)
  · intro j c' hj
    rcases hdrivers j c' hj with ⟨rfl, rfl⟩ | ⟨-, hj⟩
    · rw [hrun]
      exact hdequeued _ (h.dequeued _ c hi)
    · exact hdequeued _ (h.dequeued j c' hj)
  · intro j k c₁ c₂ hj hk e
    rcases hdrivers j c₁ hj with ⟨rfl, rfl⟩ | ⟨-, hj'⟩ <;>
      rcases hdrivers k c₂ hk with ⟨rfl, rfl⟩ | ⟨-, hk'⟩
    · rfl
    · exact h.runs _ k c c₂ hi hk' (hrun.symm.trans e)
    · exact h.runs j _ c₁ c hj' hi (e.trans hrun)
    · exact h.runs j k c₁ c₂ hj' hk' e
  · intro j k c₁ c₂ n hj hk h₁ h₂
    rcases hdrivers j c₁ hj with ⟨rfl, rfl⟩ | ⟨hne, hj'⟩ <;>
      rcases hdrivers k c₂ hk with ⟨rfl, rfl⟩ | ⟨hne', hk'⟩
    · rfl
    · exact absurd h₁ (hother k c₂ n hne' hk' h₂)
    · exact absurd h₂ (hother j c₁ n hne hj' h₁)
    · exact h.asking j k c₁ c₂ n hj' hk' h₁ h₂

/-- A driver is started. -/
theorem Separate.start (h : Separate d) (hd' : d'.drivers = d.drivers ++ [c])
    (ht : Turns none d.broker d'.broker)
    (hdequeued : ∀ id, d.store.Dequeued id → d'.store.Dequeued id)
    (hqueued : ¬ d.store.Dequeued c.runId) (hrun : d'.store.Dequeued c.runId)
    (horder : InOrder d'.broker c) (hengine : c.engine = .working) : Separate d' := by
  have hdrivers : ∀ (j : Nat) c', d'.drivers[j]? = some c' →
      (j = d.drivers.length ∧ c' = c) ∨ d.drivers[j]? = some c' := by
    intro j c' hj
    rw [hd'] at hj
    rcases Slots.of_concat hj with hj | hnew
    · exact .inr hj
    · exact .inl hnew
  have hnew : ∀ (j : Nat) c', d.drivers[j]? = some c' → c'.runId ≠ c.runId :=
    fun j c' hj e => hqueued (e ▸ h.dequeued j c' hj)
  refine ⟨?_, ?_, ?_, ?_⟩
  · intro j c' hj
    rcases hdrivers j c' hj with ⟨-, rfl⟩ | hj
    · exact horder
    · exact (h.order j c' hj).turns ht fun _ _ => nofun
  · intro j c' hj
    rcases hdrivers j c' hj with ⟨-, rfl⟩ | hj
    · exact hrun
    · exact hdequeued _ (h.dequeued j c' hj)
  · intro j k c₁ c₂ hj hk e
    rcases hdrivers j c₁ hj with ⟨rfl, rfl⟩ | hj' <;>
      rcases hdrivers k c₂ hk with ⟨rfl, rfl⟩ | hk'
    · rfl
    · exact absurd e.symm (hnew k c₂ hk')
    · exact absurd e (hnew j c₁ hj')
    · exact h.runs j k c₁ c₂ hj' hk' e
  · intro j k c₁ c₂ n hj hk h₁ h₂
    rcases hdrivers j c₁ hj with ⟨rfl, rfl⟩ | hj' <;>
      rcases hdrivers k c₂ hk with ⟨rfl, rfl⟩ | hk'
    · rfl
    · cases hengine.symm.trans h₁
    · cases hengine.symm.trans h₂
    · exact h.asking j k c₁ c₂ n hj' hk' h₁ h₂

/-- No driver goes on. -/
theorem Separate.same (h : Separate d) (hdrivers : d'.drivers = d.drivers)
    (ht : Turns none d.broker d'.broker)
    (hdequeued : ∀ id, d.store.Dequeued id → d'.store.Dequeued id) : Separate d' where
  order i c hi := (h.order i c (hdrivers ▸ hi)).turns ht fun _ _ => nofun
  dequeued i c hi := hdequeued _ (h.dequeued i c (hdrivers ▸ hi))
  runs i j c c' hi hj := h.runs i j c c' (hdrivers ▸ hi) (hdrivers ▸ hj)
  asking i j c c' k hi hj := h.asking i j c c' k (hdrivers ▸ hi) (hdrivers ▸ hj)

/-- What a driver keeps: an engine that has ended asks for nothing more. -/
structure Driver.Later (c c' : Driver) : Prop where
  runId : c'.runId = c.runId
  frames : c.frames <+: c'.frames
  received : c.received ≤ c'.received
  ended : c.engine = .ended → c'.engine = .ended ∧ c'.frames = c.frames

theorem Driver.Later.refl (c : Driver) : c.Later c :=
  ⟨rfl, List.prefix_refl _, Nat.le_refl _, fun h => ⟨h, rfl⟩⟩

/-- What a step does to the drivers and their requests. -/
inductive Move (d d' : ResolveState) : Prop
  | same (hd' : d'.drivers = d.drivers) (ht : Turns none d.broker d'.broker)
  | edit {i : Nat} {c : Driver} {f : Driver → Driver} {o : Option Nat}
      (hi : d.drivers[i]? = some c) (hd' : d'.drivers = d.drivers.modify i f)
      (ht : Turns o d.broker d'.broker) (hlater : c.Later (f c)) (horder : InOrder d'.broker (f c))
      (ho : ∀ k, o = some k → c.engine = .asking k)
      (hasks : ∀ k, (f c).engine = .asking k →
        c.engine = .asking k ∨ d.broker.requests[k]? = none)
  | start {c : Driver} (hd' : d'.drivers = d.drivers ++ [c]) (ht : Turns none d.broker d'.broker)
      (hqueued : ¬ d.store.Dequeued c.runId) (hrun : d'.store.Dequeued c.runId)
      (horder : InOrder d'.broker c) (hengine : c.engine = .working)

theorem Separate.move (h : Separate d) (hm : Move d d')
    (hdequeued : ∀ id, d.store.Dequeued id → d'.store.Dequeued id) : Separate d' := by
  cases hm with
  | same hd' ht => exact h.same hd' ht hdequeued
  | edit hi hd' ht hlater horder ho hasks =>
    exact h.edit hi hd' ht hdequeued hlater.runId horder ho hasks
  | start hd' ht hqueued hrun horder hengine =>
    exact h.start hd' ht hdequeued hqueued hrun horder hengine

theorem Move.turns (hm : Move d d') : ∃ o, Turns o d.broker d'.broker := by
  cases hm with
  | same _ ht => exact ⟨_, ht⟩
  | edit _ _ ht => exact ⟨_, ht⟩
  | start _ ht => exact ⟨_, ht⟩

theorem Move.driver (hm : Move d d') (hi : d.drivers[i]? = some c) :
    ∃ c', d'.drivers[i]? = some c' ∧ c.Later c' := by
  cases hm with
  | same hd' => exact ⟨c, hd' ▸ hi, .refl c⟩
  | edit hj hd' ht hlater =>
    rename_i j c₀ f o
    rw [hd', Slots.modify_of_some hi]
    refine ⟨_, rfl, ?_⟩
    split
    · rename_i e
      subst e
      cases hi.symm.trans hj
      exact hlater
    · exact .refl c
  | start hd' =>
    refine ⟨c, ?_, .refl c⟩
    rw [hd', Slots.append_of_some hi]

/-- A driver was there before, or its run was queued. -/
theorem Move.fresh (hm : Move d d') {c' : Driver} (hi : d'.drivers[i]? = some c') :
    (∃ c, d.drivers[i]? = some c) ∨ ¬ d.store.Dequeued c'.runId := by
  by_cases hlt : i < d.drivers.length
  · exact .inl ⟨_, List.getElem?_eq_getElem hlt⟩
  · have hi' := Slots.lt_of_some hi
    cases hm with
    | same hd' =>
      rw [hd'] at hi'
      exact absurd hi' hlt
    | edit _ hd' =>
      rw [hd', List.length_modify] at hi'
      exact absurd hi' hlt
    | start hd' _ hqueued =>
      rw [hd', List.getElem?_append_right (by omega)] at hi
      rw [List.mem_singleton.mp (List.mem_of_getElem? hi)]
      exact .inr hqueued

end Drivers

end AgentDaemon.Daemon.Resolving
