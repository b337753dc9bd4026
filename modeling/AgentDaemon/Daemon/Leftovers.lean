import Mathlib.Data.List.Induction
import AgentDaemon.Daemon.Exits
import AgentDaemon.Daemon.Strays

/-!
What a driver leaves in the approval broker. A turn that is dropped while it asks for an approval
does not take its entry out of the pending map. `cancel_one` and the shutdown do so afterwards, a
publication that fails does not. `cleared_iff` says in which runs no entry outlives its driver.
-/

namespace AgentDaemon.Daemon.Leftovers

open Storage Transition Broker
open Resolving (done Healthy turning turns_next getElem?_setStage requestStep)

/-! ## Who waits for an approval -/

section Steps

variable {d : ServerState} {k i : Nat} {c : Driver} {a : Step}

/-- The answers and the cancellations, as steps of the broker. -/
def Step.outside : Step → Option Action
  | .cancelRequest sessionId requestId => some (.cancel sessionId requestId)
  | .respond id sessionId runId revision approved fails =>
    some (.respond id sessionId runId revision approved fails)
  | _ => none

/-- The turn is dropped, and its request has an entry in the map. -/
def Drops (d : ServerState) (k : Nat) (a : Step) : Prop :=
  ∃ (i : Nat) (c : Driver), d.drivers[i]? = some c ∧ c.turn = .asking k ∧
    (a = .interrupt i ∧ c.cancelled = true ∨ a = .abort i) ∧ Entered d.broker k

/-- An answer or a cancellation takes the entry of the request out of the map. -/
def Withdraws (d : ServerState) (k : Nat) (a : Step) : Prop :=
  ∃ b, a.outside = some b ∧ k ∈ d.broker.resolutions b

/-- A request that waits is the one that the turn of its driver is at. -/
structure Sound (d : ServerState) : Prop where
  healthy : Healthy d.broker
  length : d.owners.length = d.broker.requests.length
  waits : ∀ (k i : Nat) (r : Request), d.owners[k]? = some i → d.broker.requests[k]? = some r →
    ∃ c, d.drivers[i]? = some c ∧ (r.stage.receiving = true ↔ c.turn = .asking k)
  asking : ∀ (i : Nat) (c : Driver) (k : Nat), d.drivers[i]? = some c → c.turn = .asking k →
    d.owners[k]? = some i ∧ c.exited = false

theorem sound_init (store : RunStore) : Sound (.init store) where
  healthy := Resolving.healthy_init store
  length := rfl
  waits := by simp [ServerState.init]
  asking := by simp [ServerState.init]

/-- The turn of a driver may change, unless it is at a request or gets to one. -/
theorem Sound.edit (h : Sound d) (i : Nat) {f : Driver → Driver}
    (hturn : ∀ c, d.drivers[i]? = some c → ∀ k, (f c).turn = .asking k ↔ c.turn = .asking k)
    (hexited : ∀ c k, d.drivers[i]? = some c → c.turn = .asking k → (f c).exited = c.exited) :
    Sound (d.editDriver i f) where
  healthy := h.healthy
  length := h.length
  waits := by
    intro k j r hk hr
    obtain ⟨c, hc, hiff⟩ := h.waits k j r hk hr
    refine ⟨_, Slots.modify_of_some hc f, ?_⟩
    split
    · rename_i hj
      subst hj
      exact hiff.trans (hturn c hc k).symm
    · exact hiff
  asking := by
    intro j c' k hj hk
    obtain ⟨c, hc, rfl⟩ := Slots.of_modify hj
    by_cases e : j = i
    · subst e
      rw [if_pos rfl] at hk ⊢
      have hasking := (hturn c hc k).mp hk
      obtain ⟨howner, hnot⟩ := h.asking j c k hc hasking
      exact ⟨howner, (hexited c k hc hasking).trans hnot⟩
    · rw [if_neg e] at hk ⊢
      exact h.asking j c k hc hk

theorem Sound.withStore (h : Sound d) (store : RunStore) : Sound (d.withStore store) :=
  ⟨h.healthy.withStore store, h.length, h.waits, h.asking⟩

theorem length_next (b : Broker) {a : Action}
    (ha : ∀ requestId sessionId prompt pid nonce, a ≠ .request requestId sessionId prompt pid nonce) :
    (b.next a).requests.length = b.requests.length := by
  rcases next_infos b a with ⟨-, hinfos⟩ | ⟨requestId, sessionId, prompt, pid, nonce, h⟩
  · have hlen := congrArg List.length hinfos
    simpa only [List.length_map] using hlen
  · exact absurd h (ha requestId sessionId prompt pid nonce)

/-- Every request has its owner, and stays at its place. -/
theorem Sound.request (h : Sound d) (hk : d.owners[k]? = some i) :
    ∃ r, d.broker.requests[k]? = some r := by
  have hlt := Slots.lt_of_some hk
  rw [h.length] at hlt
  exact ⟨_, List.getElem?_eq_getElem hlt⟩

/-- No request goes on. -/
theorem Sound.outside (h : Sound d) {b : Action} (hb : turning b = none)
    (hnew : ∀ requestId sessionId prompt pid nonce, b ≠ .request requestId sessionId prompt pid nonce) :
    Sound { d with broker := d.broker.next b } where
  healthy := h.healthy.next b
  length := h.length.trans (length_next d.broker hnew).symm
  waits := by
    intro k i r' hk hr'
    obtain ⟨r, hr⟩ := h.request hk
    obtain ⟨c, hc, hiff⟩ := h.waits k i r hk hr
    obtain ⟨r₁, hr₁, -, hst⟩ := turns_next h.healthy.linked b k r hr
    cases hr'.symm.trans hr₁
    refine ⟨c, hc, ?_⟩
    rw [hst (by rw [hb]; nofun)]
    exact hiff
  asking := h.asking

/-- The request of one turn goes on. -/
theorem Sound.goOn (h : Sound d) {b : Action} {f : Driver → Driver} (hb : turning b = some k)
    (hc : d.drivers[i]? = some c) (hasking : c.turn = .asking k)
    (hturn : ∀ r', (d.broker.next b).requests[k]? = some r' →
      (r'.stage.receiving = true ↔ (f c).turn = .asking k))
    (honly : ∀ j, (f c).turn = .asking j → j = k ∧ (f c).exited = c.exited) :
    Sound ({ d with broker := d.broker.next b }.editDriver i f) where
  healthy := h.healthy.next b
  length := by
    refine h.length.trans (length_next d.broker fun _ _ _ _ _ e => ?_).symm
    rw [e] at hb
    cases hb
  waits := by
    intro j i' r' hj hr'
    by_cases hjk : j = k
    · subst hjk
      cases hj.symm.trans (h.asking i c j hc hasking).1
      exact ⟨_, Slots.modify_self hc f, hturn r' hr'⟩
    · obtain ⟨r, hr⟩ := h.request hj
      obtain ⟨c', hc', hiff⟩ := h.waits j i' r hj hr
      obtain ⟨r₁, hr₁, -, hst⟩ := turns_next h.healthy.linked b j r hr
      cases hr'.symm.trans hr₁
      rw [hst (by rw [hb]; exact fun e => hjk (Option.some.inj e))]
      refine ⟨_, Slots.modify_of_some hc' f, ?_⟩
      split
      · rename_i hi
        subst hi
        cases hc.symm.trans hc'
        rw [hiff, hasking]
        constructor
        · intro e
          cases e
          exact absurd rfl hjk
        · exact fun e => absurd (honly j e).1 hjk
      · exact hiff
  asking := by
    intro i' c' j hi' hj
    obtain ⟨c₀, hc₀, rfl⟩ := Slots.of_modify hi'
    by_cases e : i' = i
    · subst e
      cases hc.symm.trans hc₀
      rw [if_pos rfl] at hj ⊢
      obtain ⟨rfl, hsame⟩ := honly j hj
      obtain ⟨howner, hnot⟩ := h.asking i' c j hc hasking
      exact ⟨howner, hsame.trans hnot⟩
    · rw [if_neg e] at hj ⊢
      exact h.asking i' c₀ j hc₀ hj

theorem Sound.ask (h : Sound d) (i : Nat) (prompt : String) (pid nonce : Nat) :
    Sound (d.ask i prompt pid nonce) := by
  unfold ServerState.ask
  split
  swap
  · exact h
  rename_i key runId frames received cancelled hc
  refine ⟨h.healthy.next (.request key.requestId (some key.sessionId) prompt pid nonce), ?_, ?_, ?_⟩
  · simp [ServerState.editDriver, Broker.request, h.length]
  · intro j i' r' hj hr'
    rcases Slots.of_concat hj with hj | ⟨hlast, rfl⟩
    · obtain ⟨r, hr⟩ := h.request hj
      obtain ⟨c', hc', hiff⟩ := h.waits j i' r hj hr
      have hlt := Slots.lt_of_some hr
      cases hr'.symm.trans (Slots.append_of_some hr _)
      refine ⟨_, Slots.modify_of_some hc' _, ?_⟩
      split
      · rename_i hi
        subst hi
        cases hc.symm.trans hc'
        rw [hiff]
        constructor
        · intro e
          cases e
        · intro e
          cases e
          omega
      · exact hiff
    · refine ⟨_, Slots.modify_self hc _, ?_⟩
      rw [h.length] at hlast
      rcases Slots.of_concat hr' with hr' | ⟨-, rfl⟩
      · have hlt := Slots.lt_of_some hr'
        omega
      · simp [Stage.receiving, hlast]
  · intro i' c' j hi' hj
    obtain ⟨c₀, hc₀, rfl⟩ := Slots.of_modify hi'
    by_cases e : i' = i
    · subst e
      cases hc.symm.trans hc₀
      rw [if_pos rfl] at hj ⊢
      cases hj
      refine ⟨?_, rfl⟩
      change (d.owners ++ [i'])[d.broker.requests.length]? = some i'
      rw [← h.length, List.getElem?_concat_length]
    · rw [if_neg e] at hj ⊢
      obtain ⟨howner, hnot⟩ := h.asking i' c₀ j hc₀ hj
      exact ⟨Slots.append_of_some howner _, hnot⟩

theorem turning_of_requestStep {stage : Stage} {b : Action} (h : requestStep k stage = some b) :
    turning b = some k ∧ stage.receiving = true ∧ ∀ j, b ≠ .drop j := by
  cases stage <;> simp only [requestStep, Option.some.injEq, reduceCtorEq] at h <;> subst h <;>
    exact ⟨rfl, rfl, nofun⟩

theorem not_receiving_of_done {stage : Stage} (h : done stage = true) : stage.receiving = false := by
  cases stage <;> first | rfl | cases h

theorem Sound.advance (h : Sound d) (i : Nat) : Sound (d.advance i) := by
  unfold ServerState.advance
  split
  swap
  · exact h
  rename_i key runId k frames received cancelled exited hc
  split
  · exact h
  · rename_i r hr
    split
    · exact h
    · rename_i b hb
      obtain ⟨hturning, hreceiving, hdrop⟩ := turning_of_requestStep hb
      apply h.goOn hturning hc rfl
      · intro r' hr'
        rw [hr']
        rcases receiving_of_next h.healthy.linked hr hr' hdrop hreceiving with hon | hdone
        · have hnot : done r'.stage = false := by
            by_contra hd
            cases hon.symm.trans (not_receiving_of_done (by simpa using hd))
          simp [hon, hnot]
        · simp [hdone, not_receiving_of_done hdone]
      · intro j hj
        dsimp only at hj ⊢
        split at hj
        · cases hj
        · cases hj
          exact ⟨rfl, rfl⟩

theorem stage_drop {b : Broker} {r' : Request} (hr' : (b.next (.drop k)).requests[k]? = some r') :
    r'.stage.receiving = false := by
  rw [Broker.next, Broker.drop] at hr'
  split at hr'
  · rename_i r hr
    split at hr'
    · rw [getElem?_setStage hr']
      rfl
    · rename_i hnot
      cases hr.symm.trans hr'
      simpa using hnot
  · rename_i hnone
    cases hnone.symm.trans hr'

theorem drivers_dropTurn (d : ServerState) (i : Nat) :
    (d.dropTurn i).drivers = d.drivers.modify i ({ · with turn := .ended }) := by
  unfold ServerState.dropTurn
  dsimp only
  split <;> rfl

theorem Sound.dropTurn (h : Sound d) (i : Nat) : Sound (d.dropTurn i) := by
  unfold ServerState.dropTurn
  dsimp only
  split
  · rename_i key runId k frames received cancelled exited hc
    apply h.goOn (b := .drop k) (f := ({ · with turn := .ended })) rfl hc rfl
    · intro r' hr'
      rw [stage_drop hr']
      exact iff_of_false nofun nofun
    · nofun
  · rename_i hnone
    refine h.edit i (fun c hc k => ?_) fun c k hc hk => ?_
    · refine iff_of_false nofun fun hk => ?_
      exact hnone _ _ _ _ _ _ _ (by rw [hc, ← hk])
    · rfl

theorem Sound.publishUpdate (h : Sound d) (key : ActiveKey) (kind : EventKind) (data : Json)
    (fails : Bool) : Sound (d.publishUpdate key kind data fails) := by
  unfold ServerState.publishUpdate
  split
  · exact h
  · split
    · exact h
    · split
      · exact h
      · split
        · exact h.withStore _
        · exact h.edit _ (fun _ _ _ => Iff.rfl) fun _ _ _ _ => rfl

theorem Sound.next (h : Sound d) (a : Step) : Sound (d.next a) := by
  cases a with
  | register key runId =>
    simp only [ServerState.next, ServerState.register]
    split
    · exact h
    · refine ⟨h.healthy, h.length, fun k i r hk hr => ?_, fun i c k hi hk => ?_⟩
      · obtain ⟨c, hc, hiff⟩ := h.waits k i r hk hr
        exact ⟨c, Slots.append_of_some hc _, hiff⟩
      · rcases Slots.of_concat hi with hi | ⟨-, rfl⟩
        · exact h.asking i c k hi hk
        · cases hk
  | start i clock =>
    simp only [ServerState.next, ServerState.start]
    split
    swap
    · exact h
    rename_i hc
    split
    · exact h
    · exact h.withStore _
    · refine (h.withStore _).edit i (fun c hc' k => ?_) fun c k hc' hk => rfl
      cases hc.symm.trans hc'
      exact iff_of_false nofun nofun
  | ask i prompt pid nonce => exact h.ask i prompt pid nonce
  | advance i => exact h.advance i
  | receive i fails =>
    simp only [ServerState.next, ServerState.receive]
    split
    · exact h
    · split
      · exact h
      · apply Sound.publishUpdate
        exact h.edit i (fun _ _ _ => Iff.rfl) fun _ _ _ _ => rfl
  | publish i kind data fails =>
    simp only [ServerState.next]
    split
    · exact h
    · exact h.publishUpdate _ _ _ _
  | complete i =>
    refine h.edit i (fun c _ k => ?_) fun c k _ hk => ?_
    · split
      · rename_i hworking
        rw [hworking]
        exact iff_of_false nofun nofun
      · rfl
    · rw [if_neg (by rw [hk]; nofun)]
  | interrupt i =>
    simp only [ServerState.next]
    split
    · exact h.dropTurn i
    · exact h
  | exit i =>
    simp only [ServerState.next]
    split
    · exact h
    · rename_i c hc
      split
      · rename_i hmay
        have hedit : Sound (d.editDriver i ({ · with exited := true })) := by
          refine h.edit i (fun _ _ _ => Iff.rfl) fun c' k hc' hk => ?_
          cases hc.symm.trans hc'
          simp [ServerState.mayExit, hk] at hmay
        exact ⟨hedit.healthy, hedit.length, hedit.waits, hedit.asking⟩
      · exact h
  | abort i =>
    refine (h.dropTurn i).edit i (fun _ _ _ => Iff.rfl) fun c k hc hk => ?_
    rw [drivers_dropTurn] at hc
    obtain ⟨c₀, -, rfl⟩ := Slots.of_modify hc
    rw [if_pos rfl] at hk
    cases hk
  | signal i => exact h.edit i (fun _ _ _ => Iff.rfl) fun _ _ _ _ => rfl
  | cancelRequest sessionId requestId => exact h.outside rfl nofun
  | respond id sessionId runId revision approved fails => exact h.outside rfl nofun
  | clearActive => exact ⟨h.healthy, h.length, h.waits, h.asking⟩
  | call op => exact h.withStore _

/-- What a step does to the broker. -/
inductive Effect (d : ServerState) (a : Step) : Broker → Prop where
  /-- The task of a request is dropped. -/
  | dropped {i k : Nat} {c : Driver} (hc : d.drivers[i]? = some c) (hk : c.turn = .asking k)
      (ha : a = .interrupt i ∧ c.cancelled = true ∨ a = .abort i) : Effect d a (d.broker.next (.drop k))
  | outside {b : Action} (hb : a.outside = some b) : Effect d a (d.broker.next b)
  /-- A request is made or goes on. -/
  | inside {b : Action} (hout : a.outside = none) (hdrops : ∀ k, ¬ Drops d k a)
      (hdrop : ∀ j, b ≠ .drop j) (hres : d.broker.resolutions b = []) : Effect d a (d.broker.next b)
  | stored (hout : a.outside = none) (hdrops : ∀ k, ¬ Drops d k a) (store : RunStore) :
      Effect d a { d.broker with store }

/-- Only a turn that is dropped drops a request. -/
theorem not_drops (hinterrupt : ∀ i, a ≠ .interrupt i) (habort : ∀ i, a ≠ .abort i) (k : Nat) :
    ¬ Drops d k a := by
  rintro ⟨i, c, -, -, ⟨e, -⟩ | e, -⟩
  · exact hinterrupt i e
  · exact habort i e

theorem not_withdraws (hout : a.outside = none) : ¬ Withdraws d k a := by
  rintro ⟨b, hb, -⟩
  cases hout.symm.trans hb

theorem resolutions_requestStep {stage : Stage} {b : Action} (h : requestStep k stage = some b) :
    d.broker.resolutions b = [] := by
  cases stage <;> simp only [requestStep, Option.some.injEq, reduceCtorEq] at h <;> subst h <;> rfl

theorem effect_publishUpdate {key : ActiveKey} {kind : EventKind} {data : Json} {fails : Bool} :
    ∃ store, (d.publishUpdate key kind data fails).broker = { d.broker with store } := by
  unfold ServerState.publishUpdate
  split
  · exact ⟨d.store, rfl⟩
  · split
    · exact ⟨d.store, rfl⟩
    · split
      · exact ⟨d.store, rfl⟩
      · split
        · exact ⟨_, rfl⟩
        · exact ⟨d.store, rfl⟩

theorem effect_dropTurn (hdrop : ∀ c, d.drivers[i]? = some c → ∀ k, c.turn = .asking k →
      a = .interrupt i ∧ c.cancelled = true ∨ a = .abort i)
    (hout : a.outside = none) (honly : ∀ j, a = .interrupt j ∨ a = .abort j → j = i) :
    Effect d a (d.dropTurn i).broker := by
  unfold ServerState.dropTurn
  dsimp only
  split
  · rename_i key runId k frames received cancelled exited hc
    exact .dropped hc rfl (hdrop _ hc k rfl)
  · rename_i hnone
    refine .stored hout (fun k => ?_) d.store
    rintro ⟨j, c, hc, hk, ha, -⟩
    obtain rfl := honly j (ha.imp And.left id)
    exact hnone _ _ _ _ _ _ _ (by rw [hc, ← hk])

theorem effect_next (d : ServerState) (a : Step) : Effect d a (d.next a).broker := by
  -- the steps that leave the broker as it is, but for the store
  have hkeep : a.outside = none → (∀ i, a ≠ .interrupt i) → (∀ i, a ≠ .abort i) →
      (∃ store, (d.next a).broker = { d.broker with store }) → Effect d a (d.next a).broker := by
    rintro hout hinterrupt habort ⟨store, e⟩
    rw [e]
    exact .stored hout (not_drops hinterrupt habort) store
  cases a with
  | register key runId =>
    refine hkeep rfl nofun nofun ⟨d.store, ?_⟩
    simp only [ServerState.next, ServerState.register]
    split <;> rfl
  | start i clock =>
    refine hkeep rfl nofun nofun ?_
    simp only [ServerState.next, ServerState.start]
    split
    · split
      · exact ⟨d.store, rfl⟩
      · exact ⟨_, rfl⟩
      · exact ⟨_, rfl⟩
    · exact ⟨d.store, rfl⟩
  | ask i prompt pid nonce =>
    have hquiet : ∀ k, ¬ Drops d k (.ask i prompt pid nonce) := not_drops nofun nofun
    simp only [ServerState.next, ServerState.ask]
    split
    · rename_i key runId frames received cancelled hc
      have hmade : Effect d (.ask i prompt pid nonce)
          (d.broker.next (.request key.requestId (some key.sessionId) prompt pid nonce)) :=
        .inside rfl hquiet nofun rfl
      exact hmade
    · exact .stored rfl hquiet d.store
  | advance i =>
    have hquiet : ∀ k, ¬ Drops d k (.advance i) := not_drops nofun nofun
    have hsame : Effect d (.advance i) d.broker := .stored rfl hquiet d.store
    simp only [ServerState.next, ServerState.advance]
    split
    · split
      · exact hsame
      · split
        · exact hsame
        · rename_i b hb
          exact .inside rfl hquiet (turning_of_requestStep hb).2.2 (resolutions_requestStep hb)
    · exact hsame
  | receive i fails =>
    refine hkeep rfl nofun nofun ?_
    simp only [ServerState.next, ServerState.receive]
    split
    · exact ⟨d.store, rfl⟩
    · split
      · exact ⟨d.store, rfl⟩
      · exact effect_publishUpdate (d := d.editDriver i fun c => { c with received := c.received + 1 })
  | publish i kind data fails =>
    refine hkeep rfl nofun nofun ?_
    simp only [ServerState.next]
    split
    · exact ⟨d.store, rfl⟩
    · exact effect_publishUpdate
  | complete i => exact hkeep rfl nofun nofun ⟨d.store, rfl⟩
  | interrupt i =>
    simp only [ServerState.next]
    split
    · rename_i hseen
      refine effect_dropTurn (fun c hc k hk => .inl ⟨rfl, ?_⟩) rfl fun j hj => ?_
      · rw [hc, Option.any_some, Bool.and_eq_true] at hseen
        exact hseen.1
      · rcases hj with hj | hj <;> cases hj
        rfl
    · rename_i hnot
      refine .stored rfl (fun k => ?_) d.store
      rintro ⟨j, c, hc, hk, ⟨e, hcancelled⟩ | e, -⟩
      · cases e
        rw [hc, Option.any_some, hcancelled, hk] at hnot
        exact hnot rfl
      · cases e
  | exit i =>
    refine hkeep rfl nofun nofun ⟨d.store, ?_⟩
    simp only [ServerState.next]
    split
    · rfl
    · split <;> rfl
  | abort i =>
    refine effect_dropTurn (fun c _ k _ => .inr rfl) rfl fun j hj => ?_
    rcases hj with hj | hj <;> cases hj
    rfl
  | signal i => exact hkeep rfl nofun nofun ⟨d.store, rfl⟩
  | cancelRequest sessionId requestId => exact .outside (b := .cancel sessionId requestId) rfl
  | respond id sessionId runId revision approved fails =>
    exact .outside (b := .respond id sessionId runId revision approved fails) rfl
  | clearActive => exact hkeep rfl nofun nofun ⟨d.store, rfl⟩
  | call op => exact hkeep rfl nofun nofun ⟨_, rfl⟩

/-- **One step.** A request whose turn is dropped leaves its entry behind; only an answer or a
cancellation takes it out afterwards. -/
theorem stray_step (h : Sound d) (a : Step) : Stray (d.next a).broker k ↔
    Drops d k a ∨ Stray d.broker k ∧ ¬ Withdraws d k a := by
  have heffect := effect_next d a
  generalize (d.next a).broker = b' at heffect
  cases heffect with
  | @dropped i j c hc hk ha =>
    have hout : a.outside = none := by
      rcases ha with ⟨rfl, -⟩ | rfl <;> rfl
    have hdrops : Drops d k a ↔ k = j ∧ Entered d.broker k := by
      constructor
      · rintro ⟨i', c', hc', hk', ha', hin⟩
        have hi : i' = i := by
          rcases ha with ⟨rfl, -⟩ | rfl <;> rcases ha' with ⟨e, -⟩ | e <;> cases e <;> rfl
        subst hi
        cases hc.symm.trans hc'
        rw [hk] at hk'
        cases hk'
        exact ⟨rfl, hin⟩
      · rintro ⟨rfl, hin⟩
        exact ⟨i, c, hc, hk, ha, hin⟩
    have hwithdraws : ¬ Withdraws d k a := not_withdraws hout
    rw [stray_drop h.healthy.linked, hdrops, and_iff_left hwithdraws, or_comm]
  | @outside b hb =>
    have hdrop : ∀ j, b ≠ .drop j := by
      rintro j rfl
      cases a <;> cases hb
    have hdrops : ¬ Drops d k a := by
      rintro ⟨i, c, -, -, ⟨rfl, -⟩ | rfl, -⟩ <;> cases hb
    have hwithdraws : Withdraws d k a ↔ k ∈ d.broker.resolutions b := by
      refine ⟨?_, fun hres => ⟨b, hb, hres⟩⟩
      rintro ⟨b', hb', hres⟩
      cases hb.symm.trans hb'
      exact hres
    rw [stray_next h.healthy hdrop, or_iff_right hdrops, hwithdraws]
  | @inside b hout hdrops hdrop hres =>
    have hwithdraws : ¬ Withdraws d k a := not_withdraws hout
    rw [stray_next h.healthy hdrop, or_iff_right (hdrops k), hres]
    exact and_congr_right fun _ => iff_of_true List.not_mem_nil hwithdraws
  | stored hout hdrops store =>
    have hwithdraws : ¬ Withdraws d k a := not_withdraws hout
    rw [or_iff_right (hdrops k), and_iff_left hwithdraws]
    rfl

end Steps

/-! ## Whole runs -/

section Runs

variable {d d₀ : ServerState} {k : Nat} {a : Step} {run : List Step}

/-- The driver of the request has exited. -/
def Deserted (d : ServerState) (k : Nat) : Prop :=
  ∃ (i : Nat) (c : Driver), d.owners[k]? = some i ∧ d.drivers[i]? = some c ∧ c.exited = true

/-- The driver of the request has not exited. -/
def Served (d : ServerState) (k : Nat) : Prop :=
  ∃ (i : Nat) (c : Driver), d.owners[k]? = some i ∧ d.drivers[i]? = some c ∧ c.exited = false

/-- No entry outlives its driver, and a session waits only for a driver that is there. -/
structure Clear (d : ServerState) : Prop where
  gone : ∀ k, Deserted d k → ¬ Entered d.broker k
  listed : ∀ (active : List ActiveKey) (stored : List SessionInfo) (runtimes : List SessionId)
    (current : SessionId),
    ∀ info ∈ sessionInfos active (pendingSessions d.broker) stored runtimes current,
      info.status = .waiting →
        ∃ e ∈ d.broker.pending, e.sessionId = some info.id ∧ Served d e.request

/-- The turn was dropped at the request, and since then the entry was neither answered nor cancelled. -/
def Lost (d₀ : ServerState) (run : List Step) (k : Nat) : Prop :=
  ∃ pre a post, run = pre ++ a :: post ∧ Drops (after ServerState.next d₀ pre) k a ∧
    Along ServerState.next (fun d b => ¬ Withdraws d k b) (after ServerState.next d₀ (pre ++ [a])) post

/-- Where the turn of a driver was dropped at a request with an entry in the map, the driver exits only
after an answer or a cancellation that came after the drop. -/
def Swept (d₀ : ServerState) (run : List Step) : Prop :=
  ∀ pre, pre <+: run → ∀ k, Deserted (after ServerState.next d₀ pre) k → ¬ Lost d₀ pre k

theorem lost_concat : Lost d₀ (run ++ [a]) k ↔
    Drops (after ServerState.next d₀ run) k a ∨
      Lost d₀ run k ∧ ¬ Withdraws (after ServerState.next d₀ run) k a := by
  constructor
  · rintro ⟨pre, b, post, e, hdrops, hpost⟩
    rcases List.eq_nil_or_concat post with rfl | ⟨post, c, rfl⟩
    · obtain ⟨rfl, hab⟩ := List.append_inj' e rfl
      cases hab
      exact .inl hdrops
    · have hsplit : run ++ [a] = (pre ++ b :: post) ++ [c] := by rw [e]; simp
      obtain ⟨rfl, hac⟩ := List.append_inj' hsplit rfl
      cases hac
      rw [List.concat_eq_append, along_append] at hpost
      refine .inr ⟨⟨pre, b, post, rfl, hdrops, hpost.1⟩, ?_⟩
      have hlast := hpost.2.1
      rwa [← after_append, List.append_assoc] at hlast
  · rintro (hdrops | ⟨⟨pre, b, post, rfl, hdrops, hpost⟩, hkept⟩)
    · exact ⟨run, a, [], rfl, hdrops, trivial⟩
    · refine ⟨pre, b, post ++ [a], by simp, hdrops, along_append.mpr ⟨hpost, ?_, trivial⟩⟩
      rwa [← after_append, List.append_assoc]

theorem Sound.after (h : Sound d) (run : List Step) : Sound (after ServerState.next d run) :=
  after_induct (I := Sound) (fun _ a h _ => h.next a) h (along_true _ _)

/-- The entries without a task are those of the requests that are lost. -/
theorem stray_iff_lost (store : RunStore) (run : List Step) (k : Nat) :
    Stray (after ServerState.next (.init store) run).broker k ↔ Lost (.init store) run k := by
  induction run using List.reverseRecOn with
  | nil =>
    refine iff_of_false ?_ ?_
    · rintro ⟨⟨e, he, -⟩, -⟩
      cases he
    · rintro ⟨pre, a, post, e, -⟩
      simp at e
  | append_singleton run a ih =>
    have hstep := stray_step (k := k) ((sound_init store).after run) a
    rw [after_append, lost_concat, ← ih]
    exact hstep

/-- An exited driver has no request that waits. -/
theorem Sound.entered_iff (h : Sound d) (hk : Deserted d k) : Entered d.broker k ↔ Stray d.broker k := by
  refine ⟨fun hin => ⟨hin, ?_⟩, And.left⟩
  obtain ⟨i, c, howner, hc, hexited⟩ := hk
  obtain ⟨r, hr⟩ := h.request howner
  obtain ⟨c', hc', hiff⟩ := h.waits k i r howner hr
  cases hc.symm.trans hc'
  refine ⟨r, hr, ?_⟩
  by_contra hreceiving
  have hnot := (h.asking i c k hc (hiff.mp (by simpa using hreceiving))).2
  cases hexited.symm.trans hnot

theorem status_of_mem {active : List ActiveKey} {pending : List SessionId} {stored : List SessionInfo}
    {runtimes : List SessionId} {current : SessionId} {info : SessionInfo}
    (h : info ∈ sessionInfos active pending stored runtimes current) :
    info.status = sessionStatus active pending info.id := by
  have hadd : ∀ (sessions : List SessionInfo) (id : SessionId),
      (∀ info ∈ sessions, info.status = sessionStatus active pending info.id) →
      ∀ info ∈ addSession active pending current sessions id,
        info.status = sessionStatus active pending info.id := by
    intro sessions id hsessions info hinfo
    unfold addSession at hinfo
    split at hinfo
    · exact hsessions info hinfo
    · rcases List.mem_append.mp hinfo with hinfo | hinfo
      · exact hsessions info hinfo
      · obtain rfl := List.mem_singleton.mp hinfo
        rfl
  have hall : ∀ (runtimes : List SessionId) (sessions : List SessionInfo),
      (∀ info ∈ sessions, info.status = sessionStatus active pending info.id) →
      ∀ info ∈ runtimes.foldl (addSession active pending current) sessions,
        info.status = sessionStatus active pending info.id := by
    intro runtimes
    induction runtimes with
    | nil => exact fun _ hsessions => hsessions
    | cons id runtimes ih => exact fun sessions hsessions => ih _ (hadd sessions id hsessions)
  refine hadd _ current (hall runtimes _ ?_) info (List.mem_mergeSort.mp h)
  intro info hinfo
  obtain ⟨session, -, rfl⟩ := List.mem_map.mp hinfo
  rfl

/-- A session is listed as waiting for one of its entries. -/
theorem entry_of_waiting {active : List ActiveKey} {b : Broker} {stored : List SessionInfo}
    {runtimes : List SessionId} {current : SessionId} {info : SessionInfo}
    (h : info ∈ sessionInfos active (pendingSessions b) stored runtimes current)
    (hwaiting : info.status = .waiting) : ∃ e ∈ b.pending, e.sessionId = some info.id := by
  rw [status_of_mem h, sessionStatus] at hwaiting
  split at hwaiting
  · rename_i hmem
    exact List.mem_filterMap.mp hmem
  · split at hwaiting <;> cases hwaiting

theorem Sound.served (h : Sound d) {e : PendingApproval} (he : e ∈ d.broker.pending)
    (hgone : ∀ k, Deserted d k → ¬ Entered d.broker k) : Served d e.request := by
  obtain ⟨r, hr, -⟩ := h.healthy.linked.owner e he
  have hlt := Slots.lt_of_some hr
  rw [← h.length] at hlt
  have howner : d.owners[e.request]? = some d.owners[e.request] := List.getElem?_eq_getElem hlt
  obtain ⟨c, hc, -⟩ := h.waits e.request _ r howner hr
  refine ⟨_, c, howner, hc, ?_⟩
  by_contra hexited
  exact hgone _ ⟨_, c, howner, hc, by simpa using hexited⟩ ⟨e, he, rfl⟩

/-- **What drivers leave behind.** All along a run no pending approval outlives its driver, and no
session is listed as waiting for one that does, exactly if every driver exits only after the
requests that its turn was dropped at were answered or cancelled. -/
theorem cleared_iff (store : RunStore) (run : List Step) :
    (∀ pre, pre <+: run → Clear (after ServerState.next (.init store) pre)) ↔
      Swept (.init store) run := by
  refine forall₂_congr fun pre _ => ?_
  have h : Sound (after ServerState.next (.init store) pre) := (sound_init store).after pre
  constructor
  · intro hclear k hk hlost
    have hstray := (stray_iff_lost store pre k).mpr hlost
    exact hclear.gone k hk hstray.1
  · intro hswept
    have hgone : ∀ k, Deserted (after ServerState.next (.init store) pre) k →
        ¬ Entered (after ServerState.next (.init store) pre).broker k := by
      intro k hk hin
      exact hswept k hk ((stray_iff_lost store pre k).mp ((h.entered_iff hk).mp hin))
    refine ⟨hgone, fun active stored runtimes current info hinfo hwaiting => ?_⟩
    obtain ⟨e, he, hsession⟩ := entry_of_waiting hinfo hwaiting
    exact ⟨e, he, hsession, h.served he hgone⟩

/-- A store with a run that is about to start. -/
def queuedOne : RunStore := storeAfter [.admitWithRoute ⟨"s"⟩ (.number 1) "hi" .queue none 0]

/-- The frame of an approval cannot be stored. -/
def failedWrite : List Step :=
  [.register ⟨⟨"s"⟩, .number 1⟩ ⟨"run-1"⟩, .start 0 (fun _ => 0), .ask 0 "rm" 7 9, .advance 0, .advance 0,
    .receive 0 true, .interrupt 0, .exit 0]

theorem not_clear_failedWrite :
    ¬ Clear (after ServerState.next (.init queuedOne) failedWrite) := by
  intro h
  have hdrivers : (after ServerState.next (.init queuedOne) failedWrite).drivers.map
      Driver.exited = [true] := by
    decide +kernel
  have howners : (after ServerState.next (.init queuedOne) failedWrite).owners = [0] := by
    decide +kernel
  have hpending : (after ServerState.next (.init queuedOne) failedWrite).broker.pending.map
      PendingApproval.request = [0] := by
    decide +kernel
  have hdeserted : Deserted (after ServerState.next (.init queuedOne) failedWrite) 0 := by
    have hfirst := congrArg (·[0]?) hdrivers
    rw [List.getElem?_map] at hfirst
    obtain ⟨c, hc, hexited⟩ := Option.map_eq_some_iff.mp hfirst
    exact ⟨0, c, by rw [howners]; rfl, hc, hexited⟩
  refine h.gone 0 hdeserted (List.mem_map.mp ?_)
  rw [hpending]
  exact List.mem_singleton_self 0

end Runs

end AgentDaemon.Daemon.Leftovers
