import AgentDaemon.Lib.Slots
import AgentDaemon.Storage.Repeats

/-!
The numbers of the clients. A `DaemonClient` counts its requests from 1, while the store knows a
request of a session by its number for good, so that two clients of one session give their calls
the same numbers. Calls are told apart exactly as long as no call is delivered to a session that
has a run under its number (`distinct_iff`).
-/

namespace AgentDaemon.Daemon.Clients

open Provider Storage Transition Fallible

/-- What `admit_with_route` says to a `chat.send`. -/
inductive Outcome where
  | admitted (run : RunRecord)
  | existing (run : RunRecord)
  | refused (e : RuntimeError)
  deriving DecidableEq, Repr

/-- A `chat.send` made through `DaemonClient::request`. `session` is the session that it names or,
where it names none, the one that the daemon takes. -/
structure Call where
  number : UInt64
  session : SessionId
  message : String
  mode : AdmissionMode
  /-- Absent until the call is delivered, and for good if it is lost. -/
  outcome : Option Outcome
  deriving DecidableEq, Repr

/-- `nextIds` has the `next_id` of every connection that was ever made. -/
structure ClientState where
  store : RunStore
  nextIds : List UInt64
  calls : List Call

inductive Action where
  /-- `connect_unix`: by a new client, or by one that starts again. -/
  | connect
  /-- `request` of connection `i` with a method other than `chat.send`. -/
  | request (i : Nat)
  | chatSend (i : Nat) (session : SessionId) (message : String) (mode : AdmissionMode)
  /-- The daemon admits a call. -/
  | deliver (k : Nat) (route : Option RouteSnapshot) (now : Int)
  /-- Another call of the store, also a restart. That the daemon sends a queued run to itself again
  under its own number changes nothing in the store. -/
  | call (op : Op)

/-- The operation admits a numbered request. -/
def numbered : Op → Bool
  | .admitWithRoute _ (.number _) _ _ _ _ => true
  | _ => false

def Call.requestId (c : Call) : RequestId := .number c.number.toNat

/-- The run that the call is answered with. -/
def Call.run? (c : Call) : Option RunId :=
  match c.outcome with
  | some (.admitted run) | some (.existing run) => some run.runId
  | _ => none

/-- Send a call to the store. -/
def Call.send (c : Call) (s : RunStore) (route : Option RouteSnapshot) (now : Int) :
    Outcome × RunStore :=
  match s.admitWithRoute c.session c.requestId c.message c.mode route now with
  | .error e => (.refused e, s)
  | .ok (.new run, s') => (.admitted run, s')
  | .ok (.existing run, s') => (.existing run, s')

namespace ClientState

def init : ClientState := ⟨.empty, [], []⟩

def next (d : ClientState) : Action → ClientState
  | .connect => { d with nextIds := d.nextIds ++ [1] }
  | .request i => { d with nextIds := d.nextIds.modify i (· + 1) }
  | .chatSend i session message mode =>
    match d.nextIds[i]? with
    | none => d
    | some number =>
      { d with
        nextIds := d.nextIds.modify i (· + 1)
        calls := d.calls ++ [⟨number, session, message, mode, none⟩] }
  | .deliver k route now =>
    match d.calls[k]? with
    | none => d
    | some c =>
      if c.outcome.isSome then d
      else
        let (outcome, store) := c.send d.store route now
        { d with store, calls := d.calls.modify k ({ · with outcome := some outcome }) }
  | .call op => if numbered op then d else { d with store := d.store.next op }

end ClientState

def clientsAfter (actions : List Action) : ClientState := after ClientState.next .init actions

/-- The refusal of a request id that is known with another input. -/
def conflict : RuntimeError := .protocol "相同 request id 的输入内容不同"

/-- Two calls on one session are no conflict and are not answered with one run. -/
def Apart (c c' : Call) : Prop :=
  c.session = c'.session → c.outcome ≠ some (.refused conflict) ∧
    c'.outcome ≠ some (.refused conflict) ∧ (c.run? = none ∨ c.run? ≠ c'.run?)

/-- Different calls are told apart. -/
def Distinct (d : ClientState) : Prop := ∀ (i j : Nat) (c c' : Call), i ≠ j →
  d.calls[i]? = some c → d.calls[j]? = some c' → Apart c c'

/-- A call that is delivered is the first with its number that its session sees. -/
def Fresh (d : ClientState) : Action → Prop
  | .deliver k _ _ => ∀ c, d.calls[k]? = some c → c.outcome = none →
    ∀ r ∈ d.store.runs.rows, ¬ (r.sessionId = c.session ∧ r.requestId = c.requestId)
  | _ => True

/-! ## The runs and their calls -/

/-- Every numbered run has the call that it was admitted for, and every conflict has the other call
of its session. -/
structure Sound (d : ClientState) : Prop where
  reached : ∃ ops, d.store = storeAfter ops
  origin : ∀ h ∈ d.store.archive.heads, ∀ n, h.requestId = .number n →
    ∃ (k : Nat) (c : Call) (run : RunRecord), d.calls[k]? = some c ∧
      c.outcome = some (.admitted run) ∧ run.runId = h.id ∧ c.session = h.sessionId
  known : ∀ (k : Nat) (c : Call) id, d.calls[k]? = some c → c.run? = some id →
    id ∈ d.store.archive.heads.map Head.id
  rival : ∀ (k : Nat) (c : Call), d.calls[k]? = some c → c.outcome = some (.refused conflict) →
    ∃ (k' : Nat) (c' : Call), k' ≠ k ∧ d.calls[k']? = some c' ∧ c'.session = c.session

/-- A call keeps its session and, once it has one, its outcome. -/
def Kept (c c' : Call) : Prop := c'.session = c.session ∧ (c.outcome = none ∨ c' = c)

theorem Kept.apart {c₁ c₂ d₁ d₂ : Call} (h₁ : Kept c₁ d₁) (h₂ : Kept c₂ d₂) (h : Apart d₁ d₂) :
    Apart c₁ c₂ := by
  intro hs
  obtain ⟨hd₁, hd₂, hrun⟩ := h (h₁.1.trans (hs.trans h₂.1.symm))
  refine ⟨?_, ?_, ?_⟩
  · rcases h₁.2 with e | rfl
    · rw [e]
      exact nofun
    · exact hd₁
  · rcases h₂.2 with e | rfl
    · rw [e]
      exact nofun
    · exact hd₂
  · rcases h₁.2 with e | rfl
    · exact .inl (by rw [Call.run?, e])
    · rcases h₂.2 with e | rfl
      · have hnone : c₂.run? = none := by rw [Call.run?, e]
        rw [hnone]
        exact Decidable.or_iff_not_imp_left.mpr id
      · exact hrun

theorem Kept.refl (c : Call) : Kept c c := ⟨rfl, .inr rfl⟩

theorem kept_next (d : ClientState) (a : Action) {k : Nat} {c : Call} (h : d.calls[k]? = some c) :
    ∃ c', (d.next a).calls[k]? = some c' ∧ Kept c c' := by
  cases a with
  | connect => exact ⟨c, h, .refl c⟩
  | request i => exact ⟨c, h, .refl c⟩
  | call op =>
    rw [ClientState.next]
    split <;> exact ⟨c, h, .refl c⟩
  | chatSend i session message mode =>
    rw [ClientState.next]
    split
    · exact ⟨c, h, .refl c⟩
    · exact ⟨c, Slots.append_of_some h _, .refl c⟩
  | deliver j route now =>
    rw [ClientState.next]
    split
    · exact ⟨c, h, .refl c⟩
    · rename_i c₀ hc₀
      split
      · exact ⟨c, h, .refl c⟩
      · rename_i hnone
        dsimp only
        refine ⟨_, Slots.modify_of_some h _, ?_⟩
        by_cases e : k = j
        · subst e
          cases h.symm.trans hc₀
          rw [if_pos rfl]
          exact ⟨rfl, .inl (by simpa using hnone)⟩
        · rw [if_neg e]
          exact .refl c

/-- What is not told apart once is not told apart later. -/
theorem distinct_of_next {d : ClientState} {a : Action} (h : Distinct (d.next a)) : Distinct d := by
  intro i j c c' hij hc hc'
  obtain ⟨e, he, hkept⟩ := kept_next d a hc
  obtain ⟨e', he', hkept'⟩ := kept_next d a hc'
  exact hkept.apart hkept' (h i j e e' hij he he')

/-! ## Deliveries -/

/-- A call that is new to its session is refused for another reason, or gets a new run. -/
theorem send_fresh {s : RunStore} {c : Call}
    (hnew : ∀ r ∈ s.runs.rows, ¬ (r.sessionId = c.session ∧ r.requestId = c.requestId))
    (route : Option RouteSnapshot) (now : Int) :
    (∃ e, c.send s route now = (.refused e, s) ∧ e ≠ conflict) ∨
    ∃ run s', c.send s route now = (.admitted run, s') ∧ s.runs.find? run.runId = none ∧
      s'.archive = s.archive.file (.run ⟨run.runId, c.session, c.requestId, c.message⟩) := by
  unfold Call.send
  rcases admitWithRoute_unknown hnew c.message c.mode route now with ⟨e, h, hne⟩ |
    ⟨run, s', h, hfresh, he⟩
  · rw [h]
    exact .inl ⟨e, rfl, hne⟩
  · rw [h]
    exact .inr ⟨run, s', rfl, hfresh, he⟩

/-- A call that its session knows is a conflict, or is answered with the run of the other call. -/
theorem send_known {s : RunStore} (hs : s.journal.Sound) {c : Call} {r : Run}
    (hr : r ∈ s.runs.rows) (hsession : r.sessionId = c.session)
    (hrequest : r.requestId = c.requestId) (route : Option RouteSnapshot) (now : Int) :
    c.send s route now = (.refused conflict, s) ∨
      c.send s route now = (.existing r.record, s) := by
  have h := admitWithRoute_known hs hr c.message c.mode route now
  rw [hsession, hrequest] at h
  unfold Call.send
  rw [h]
  by_cases e : r.input = c.message
  · rw [if_neg (fun hne => hne e)]
    exact .inr rfl
  · rw [if_pos e]
    exact .inl rfl

/-- The state after a delivery. -/
theorem next_deliver {d : ClientState} {k : Nat} {c : Call} (hc : d.calls[k]? = some c)
    (hout : c.outcome = none) {outcome : Outcome} {s' : RunStore} (route : Option RouteSnapshot)
    (now : Int) (h : c.send d.store route now = (outcome, s')) :
    d.next (.deliver k route now) =
      { d with store := s', calls := d.calls.modify k ({ · with outcome := some outcome }) } := by
  rw [ClientState.next, hc]
  dsimp only
  rw [hout, h]
  rfl

theorem send_next (c : Call) (s : RunStore) (route : Option RouteSnapshot) (now : Int) :
    (c.send s route now).2 =
      s.next (.admitWithRoute c.session c.requestId c.message c.mode route now) := by
  unfold Call.send
  split
  · rename_i e h
    refine (RunStore.next_of_error (e := e) ?_).symm
    rw [RunStore.exec, h]
    rfl
  · rename_i run s' h
    refine (RunStore.next_of_ok (r := .admission (.new run)) ?_).symm
    rw [RunStore.exec, h]
    rfl
  · rename_i run s' h
    refine (RunStore.next_of_ok (r := .admission (.existing run)) ?_).symm
    rw [RunStore.exec, h]
    rfl

/-- What a delivery does to the runs. -/
structure Delivered (s s' : RunStore) (c : Call) (outcome : Outcome) : Prop where
  old : ∀ h ∈ s.archive.heads, h ∈ s'.archive.heads
  new : ∀ h ∈ s'.archive.heads, h ∈ s.archive.heads ∨
    ∃ run, outcome = .admitted run ∧ run.runId = h.id ∧ c.session = h.sessionId
  answered : ∀ id, Call.run? { c with outcome := some outcome } = some id →
    id ∈ s'.archive.heads.map Head.id
  rival : outcome = .refused conflict →
    ∃ h ∈ s.archive.heads, h.sessionId = c.session ∧ h.requestId = c.requestId

theorem send_delivered {s : RunStore} (hs : s.journal.Sound) (c : Call)
    (route : Option RouteSnapshot) (now : Int) :
    Delivered s (c.send s route now).2 c (c.send s route now).1 := by
  by_cases hknown : ∃ r ∈ s.runs.rows, r.sessionId = c.session ∧ r.requestId = c.requestId
  · obtain ⟨r, hr, hsession, hrequest⟩ := hknown
    rcases send_known hs hr hsession hrequest route now with h | h <;> rw [h]
    · exact ⟨fun _ => id, fun _ => .inl, nofun, fun _ =>
        ⟨r.head, List.mem_map_of_mem hr, hsession, hrequest⟩⟩
    · refine ⟨fun _ => id, fun _ => .inl, ?_, nofun⟩
      rintro id ⟨⟩
      exact mem_heads.mpr ⟨r, Table.find?_of_mem hr⟩
  · have hnew : ∀ r ∈ s.runs.rows, ¬ (r.sessionId = c.session ∧ r.requestId = c.requestId) :=
      fun r hr h => hknown ⟨r, hr, h⟩
    rcases send_fresh hnew route now with ⟨e, h, hne⟩ | ⟨run, s', h, -, he⟩
    · rw [h]
      exact ⟨fun _ => id, fun _ => .inl, nofun, fun e' => absurd (Outcome.refused.inj e') hne⟩
    · rw [h]
      refine ⟨?_, ?_, ?_, nofun⟩ <;> dsimp only <;> rw [he, Archive.file]
      · exact fun x hx => List.mem_append_left _ hx
      · intro x hx
        rcases List.mem_append.mp hx with hx | hx
        · exact .inl hx
        · rw [List.mem_singleton.mp hx]
          exact .inr ⟨run, rfl, rfl, rfl⟩
      · rintro id ⟨⟩
        rw [List.map_append]
        exact List.mem_append_right _ (List.mem_singleton.mpr rfl)

/-- Only a numbered request makes a numbered run. -/
theorem numbered_of_new {s : RunStore} {op : Op} {h : Head}
    (hm : h ∈ (s.next op).archive.heads) (hold : h ∉ s.archive.heads) {n : Nat}
    (hn : h.requestId = .number n) : numbered op = true := by
  cases hx : s.exec op with
  | error e =>
    rw [RunStore.next_of_error hx] at hm
    exact absurd hm hold
  | ok p =>
    obtain ⟨reply, s'⟩ := p
    obtain ⟨e, hf, he⟩ := exec_archive hx
    rw [RunStore.next_of_ok hx, he] at hm
    cases e with
    | run head =>
      rcases List.mem_append.mp hm with hm | hm
      · exact absurd hm hold
      · obtain ⟨sid, rid, input, mode, route, now, rfl, hrid, -⟩ := files_run hf
        rw [← List.mem_singleton.mp hm, hn] at hrid
        rw [← hrid]
        rfl
    | child head terms =>
      rcases List.mem_append.mp hm with hm | hm
      · exact absurd hm hold
      · obtain ⟨request, clock, parent, rec, -, -, -, -, rfl, -⟩ := files_child hf
        rw [List.mem_singleton.mp hm] at hn
        cases hn
    | nothing => exact absurd hm hold
    | calls keys => exact absurd hm hold
    | asked i => exact absurd hm hold
    | answered i approved => exact absurd hm hold
    | ended run => exact absurd hm hold
    | closed run => exact absurd hm hold
    | recovered runs lost => exact absurd hm hold

/-- A call that has an outcome stays as it is. -/
theorem calls_next (d : ClientState) (a : Action) {k : Nat} {c : Call}
    (h : d.calls[k]? = some c) (hout : c.outcome ≠ none) : (d.next a).calls[k]? = some c := by
  obtain ⟨c', hc', -, hnone | rfl⟩ := kept_next d a h
  · exact absurd hnone hout
  · exact hc'

/-- Where the store stays, and a call comes without an outcome. -/
theorem Sound.enter {d d' : ClientState} (hd : Sound d) (hstore : d'.store = d.store)
    (hold : ∀ (k : Nat) (c : Call), d.calls[k]? = some c → d'.calls[k]? = some c)
    (hnew : ∀ (k : Nat) (c : Call), d'.calls[k]? = some c → d.calls[k]? = some c ∨ c.outcome = none) :
    Sound d' where
  reached := hstore ▸ hd.reached
  origin := by
    rw [hstore]
    intro h hm n hn
    obtain ⟨k, c, run, hk, hrest⟩ := hd.origin h hm n hn
    exact ⟨k, c, run, hold k c hk, hrest⟩
  known := by
    rw [hstore]
    intro k c id hc hrun
    rcases hnew k c hc with h | h
    · exact hd.known k c id h hrun
    · rw [Call.run?, h] at hrun
      cases hrun
  rival := by
    intro k c hc hout
    rcases hnew k c hc with h | h
    · obtain ⟨k', c', hne, hc', hsession⟩ := hd.rival k c h hout
      exact ⟨k', c', hne, hold k' c' hc', hsession⟩
    · cases h.symm.trans hout

theorem Sound.next {d : ClientState} (hd : Sound d) (a : Action) : Sound (d.next a) := by
  have hone : ∀ op, ∃ ops, d.store.next op = storeAfter ops := by
    intro op
    obtain ⟨ops, hops⟩ := hd.reached
    refine ⟨ops ++ [op], ?_⟩
    rw [storeAfter_append, ← hops]
    rfl
  cases a with
  | connect => exact ⟨hd.reached, hd.origin, hd.known, hd.rival⟩
  | request i => exact ⟨hd.reached, hd.origin, hd.known, hd.rival⟩
  | chatSend i session message mode =>
    rw [ClientState.next]
    split
    · exact hd
    · refine hd.enter rfl (fun k c hc => ?_) (fun k c hc => ?_)
      · exact Slots.append_of_some hc _
      · rcases Slots.of_concat hc with hc | ⟨-, rfl⟩
        · exact .inl hc
        · exact .inr rfl
  | call op =>
    rw [ClientState.next]
    split
    · exact hd
    · rename_i hop
      refine ⟨hone op, ?_, ?_, hd.rival⟩
      · intro h hm n hn
        by_cases hold : h ∈ d.store.archive.heads
        · exact hd.origin h hold n hn
        · exact absurd (numbered_of_new hm hold hn) hop
      · intro k c id hc hrun
        exact ((heads_next d.store op).map Head.id).subset (hd.known k c id hc hrun)
  | deliver j route now =>
    cases hj : d.calls[j]? with
    | none =>
      rw [ClientState.next, hj]
      exact hd
    | some c =>
      cases hout : c.outcome with
      | some outcome =>
        rw [ClientState.next, hj]
        simp only [hout, Option.isSome_some, if_true]
        exact hd
      | none =>
        obtain ⟨ops, hops⟩ := hd.reached
        have hs := send_delivered (hops ▸ journal_sound ops) c route now
        have hkeep : ∀ (k : Nat) (c' : Call), d.calls[k]? = some c' → c'.outcome ≠ none →
            (d.next (.deliver j route now)).calls[k]? = some c' :=
          fun k c' h => calls_next d _ h
        have hsession : ∀ (k : Nat) (c' : Call), d.calls[k]? = some c' →
            ∃ c'', (d.next (.deliver j route now)).calls[k]? = some c'' ∧
              c''.session = c'.session := by
          intro k c' h
          obtain ⟨c'', hc'', hkept, -⟩ := kept_next d (.deliver j route now) h
          exact ⟨c'', hc'', hkept⟩
        have hnext := next_deliver hj hout route now rfl
        rw [hnext] at hkeep hsession ⊢
        refine ⟨send_next c d.store route now ▸ hone _, ?_, ?_, ?_⟩
        · intro h hm n hn
          rcases hs.new h hm with hold | ⟨run, houtcome, hid, hsession⟩
          · obtain ⟨k, c', run, hk, hc', hrest⟩ := hd.origin h hold n hn
            exact ⟨k, c', run, hkeep k c' hk (by rw [hc']; exact nofun), hc', hrest⟩
          · refine ⟨j, { c with outcome := some (c.send d.store route now).1 }, run, ?_, ?_, hid,
              hsession⟩
            · dsimp only
              exact Slots.modify_self hj _
            · dsimp only
              rw [houtcome]
        · intro k c' id hc' hrun
          dsimp only at hc' ⊢
          obtain ⟨c₀, hc₀, e⟩ := Slots.of_modify hc'
          by_cases hk : k = j
          · subst hk
            cases hj.symm.trans hc₀
            rw [if_pos rfl] at e
            subst e
            exact hs.answered id hrun
          · rw [if_neg hk] at e
            subst e
            obtain ⟨x, hx, rfl⟩ := List.mem_map.mp (hd.known k c' id hc₀ hrun)
            exact List.mem_map_of_mem (hs.old x hx)
        · intro k c' hc' hconflict
          have hc'' := hc'
          dsimp only at hc''
          obtain ⟨c₀, hc₀, e⟩ := Slots.of_modify hc''
          by_cases hk : k = j
          · subst hk
            cases hj.symm.trans hc₀
            rw [if_pos rfl] at e
            subst e
            obtain ⟨h, hm, hhead, hnumber⟩ := hs.rival (Option.some.inj hconflict)
            obtain ⟨k', c', run, hk', hc', -, hcalls⟩ := hd.origin h hm _ hnumber
            refine ⟨k', c', ?_, hkeep k' c' hk' (by rw [hc']; exact nofun), hcalls.trans hhead⟩
            rintro rfl
            cases hk'.symm.trans hj
            cases hc'.symm.trans hout
          · rw [if_neg hk] at e
            subst e
            obtain ⟨k', c', hne, hk', hcalls⟩ := hd.rival k c' hc₀ hconflict
            obtain ⟨c'', hc'', e⟩ := hsession k' c' hk'
            exact ⟨k', c'', hne, hc'', e.trans hcalls⟩

/-! ## Every run -/

theorem Apart.symm {c c' : Call} (h : Apart c c') : Apart c' c := by
  intro hs
  obtain ⟨hc, hc', hrun⟩ := h hs.symm
  refine ⟨hc', hc, ?_⟩
  rcases hrun with e | hne
  · rw [e]
    cases c'.run? with
    | none => exact .inl rfl
    | some id => exact .inr nofun
  · exact .inr hne.symm

/-- A call with its first outcome is apart from a call that is as before. -/
theorem distinct_deliver {d : ClientState} (hd : Distinct d) {k : Nat} {c : Call}
    {outcome : Outcome} {s' : RunStore}
    (hnew : ∀ (j : Nat) (c' : Call), j ≠ k → d.calls[j]? = some c' →
      Apart { c with outcome := some outcome } c') (hc : d.calls[k]? = some c) :
    Distinct { d with
      store := s'
      calls := d.calls.modify k ({ · with outcome := some outcome }) } := by
  intro i j x y hij hx hy
  dsimp only at hx hy
  obtain ⟨x₀, hx₀, rfl⟩ := Slots.of_modify hx
  obtain ⟨y₀, hy₀, rfl⟩ := Slots.of_modify hy
  by_cases hi : i = k
  · subst hi
    cases hc.symm.trans hx₀
    rw [if_pos rfl, if_neg (Ne.symm hij)]
    exact hnew j y₀ (Ne.symm hij) hy₀
  · rw [if_neg hi]
    by_cases hj : j = k
    · subst hj
      cases hc.symm.trans hy₀
      rw [if_pos rfl]
      exact (hnew i x₀ hij hx₀).symm
    · rw [if_neg hj]
      exact hd i j x₀ y₀ hij hx₀ hy₀

/-- Where calls are told apart, none is a conflict. -/
theorem Sound.no_conflict {d : ClientState} (hd : Sound d) (h : Distinct d) {k : Nat} {c : Call}
    (hc : d.calls[k]? = some c) : c.outcome ≠ some (.refused conflict) := by
  intro hout
  obtain ⟨k', c', hne, hc', hsession⟩ := hd.rival k c hc hout
  exact (h k' k c' c hne hc' hc hsession).2.1 hout

theorem Apart.of_none {c c' : Call} (h : c.outcome = none)
    (h' : c'.outcome ≠ some (.refused conflict)) : Apart c c' :=
  fun _ => ⟨by rw [h]; exact nofun, h', .inl (by rw [Call.run?, h])⟩

theorem Apart.no_conflict {c c' : Call} (h : Apart c c') (hs : c.session = c'.session) :
    c.outcome ≠ some (.refused conflict) := (h hs).1

theorem Apart.run_ne {c c' : Call} (h : Apart c c') (hs : c.session = c'.session) {id : RunId}
    (hrun : c.run? = some id) : c'.run? ≠ some id := by
  intro hrun'
  rcases (h hs).2.2 with hnone | hne
  · cases hrun.symm.trans hnone
  · exact hne (hrun.trans hrun'.symm)

/-- A call that is sent has no outcome. -/
theorem distinct_send {d : ClientState} (hd : Sound d) (h : Distinct d) (i : Nat)
    (session : SessionId) (message : String) (mode : AdmissionMode) :
    Distinct (d.next (.chatSend i session message mode)) := by
  rw [ClientState.next]
  split
  · exact h
  · rename_i number _
    have hcalls : ∀ (k : Nat) (c : Call),
        (d.calls ++ [⟨number, session, message, mode, none⟩])[k]? = some c →
        d.calls[k]? = some c ∨ c.outcome = none := by
      intro k c hc
      rcases Slots.of_concat hc with hc | ⟨-, rfl⟩
      · exact .inl hc
      · exact .inr rfl
    have hclean : ∀ (k : Nat) (c : Call),
        (d.calls ++ [⟨number, session, message, mode, none⟩])[k]? = some c →
        c.outcome ≠ some (.refused conflict) := by
      intro k c hc
      rcases hcalls k c hc with hold | hnone
      · exact hd.no_conflict h hold
      · rw [hnone]
        exact nofun
    intro i j x y hij hx hy
    rcases hcalls i x hx with hx₀ | hnone
    · rcases hcalls j y hy with hy₀ | hnone
      · exact h i j x y hij hx₀ hy₀
      · exact (Apart.of_none hnone (hclean i x hx)).symm
    · exact .of_none hnone (hclean j y hy)

/-- A delivery that is new to its session keeps the calls apart. -/
theorem distinct_fresh {d : ClientState} (hd : Sound d) (h : Distinct d) {k : Nat} {c : Call}
    (hc : d.calls[k]? = some c) (hout : c.outcome = none) (route : Option RouteSnapshot) (now : Int)
    (hnew : ∀ r ∈ d.store.runs.rows, ¬ (r.sessionId = c.session ∧ r.requestId = c.requestId)) :
    Distinct (d.next (.deliver k route now)) := by
  rcases send_fresh hnew route now with ⟨e, hsend, hne⟩ | ⟨run, s', hsend, hfresh, -⟩ <;>
    rw [next_deliver hc hout route now hsend] <;>
    refine distinct_deliver h (fun j c' _ hc' _ => ⟨?_, hd.no_conflict h hc', ?_⟩) hc
  · exact fun e' => hne (Outcome.refused.inj (Option.some.inj e'))
  · exact .inl rfl
  · exact nofun
  · -- the run of another call is there already
    refine .inr fun e => ?_
    obtain ⟨r, hr⟩ := mem_heads.mp (hd.known j c' run.runId hc' e.symm)
    cases hfresh.symm.trans hr

/-- A delivery that its session knows ties its call to the call of the run. -/
theorem not_distinct_known {d : ClientState} (hd : Sound d) {k : Nat} {c : Call}
    (hc : d.calls[k]? = some c) (hout : c.outcome = none) (route : Option RouteSnapshot) (now : Int)
    {r : Run} (hr : r ∈ d.store.runs.rows) (hsession : r.sessionId = c.session)
    (hrequest : r.requestId = c.requestId) : ¬ Distinct (d.next (.deliver k route now)) := by
  obtain ⟨k', c', run, hk', hadmitted, hrun, hcalls⟩ :=
    hd.origin r.head (List.mem_map_of_mem hr) _ hrequest
  have hne : k ≠ k' := by
    rintro rfl
    cases hk'.symm.trans hc
    cases hadmitted.symm.trans hout
  have hother := calls_next d (.deliver k route now) hk' (by rw [hadmitted]; exact nofun)
  have hsame : c.session = c'.session := hsession.symm.trans hcalls.symm
  obtain ⟨ops, hops⟩ := hd.reached
  intro h
  have hself : ∀ outcome s', c.send d.store route now = (outcome, s') →
      (d.next (.deliver k route now)).calls[k]? = some { c with outcome := some outcome } := by
    intro outcome s' hsend
    rw [next_deliver hc hout route now hsend]
    dsimp only
    exact Slots.modify_self hc _
  rcases send_known (hops ▸ journal_sound ops) hr hsession hrequest route now with hsend | hsend
  · exact (h k k' _ c' hne (hself _ _ hsend) hother).no_conflict hsame rfl
  · refine (h k k' _ c' hne (hself _ _ hsend) hother).run_ne hsame rfl ?_
    rw [Call.run?, hadmitted]
    exact congrArg some hrun

theorem sound_init : Sound .init where
  reached := ⟨[], rfl⟩
  origin := fun _ hm => by cases hm
  known := fun k _ _ hc => by cases k <;> cases hc
  rival := fun k _ hc => by cases k <;> cases hc

theorem distinct_of_fresh {d : ClientState} (hd : Sound d) (h : Distinct d) {a : Action}
    (hfresh : Fresh d a) : Distinct (d.next a) := by
  cases a with
  | connect => exact h
  | request i => exact h
  | chatSend i session message mode => exact distinct_send hd h i session message mode
  | call op =>
    rw [ClientState.next]
    split <;> exact h
  | deliver k route now =>
    cases hk : d.calls[k]? with
    | none =>
      rw [ClientState.next, hk]
      exact h
    | some c =>
      cases hout : c.outcome with
      | some outcome =>
        rw [ClientState.next, hk]
        simp only [hout, Option.isSome_some, if_true]
        exact h
      | none => exact distinct_fresh hd h hk hout route now (hfresh c hk hout)

theorem fresh_of_distinct {d : ClientState} (hd : Sound d) {a : Action}
    (h : Distinct (d.next a)) : Fresh d a := by
  cases a with
  | deliver k route now =>
    intro c hc hout r hr hknown
    exact not_distinct_known hd hc hout route now hr hknown.1 hknown.2 h
  | _ => trivial

/-- **The calls of all clients are told apart exactly if every call that is delivered is the first
of its number in its session.** -/
theorem distinct_iff (actions : List Action) :
    Distinct (clientsAfter actions) ↔ Along ClientState.next Fresh .init actions := by
  have hsound : Sound (clientsAfter actions) := by
    refine after_induct (G := fun _ _ => True) (fun d a h _ => h.next a) sound_init
      (along_true _ _)
  have hrule := after_iff_along (I := fun d => Sound d ∧ Distinct d)
    (B := fun d => Sound d ∧ ¬ Distinct d) (G := Fresh)
    (fun d a h hfresh => ⟨h.1.next a, distinct_of_fresh h.1 h.2 hfresh⟩)
    (fun d a h hfresh => ⟨h.1.next a, fun h' => hfresh (fresh_of_distinct h.1 h')⟩)
    (fun d a h => ⟨h.1.next a, fun h' => h.2 (distinct_of_next h')⟩)
    (fun d h h' => h.2 h'.2) (s := .init)
    ⟨sound_init, fun i j c c' _ hc => by cases hc⟩ actions
  exact ⟨fun h => hrule.mp ⟨hsound, h⟩, fun h => (hrule.mpr h).2⟩

/-- Two clients send their first calls to one session. -/
def twoClients : List Action :=
  [.connect, .connect, .chatSend 0 ⟨"s"⟩ "a" .queue, .chatSend 1 ⟨"s"⟩ "b" .queue,
    .deliver 0 none 0, .deliver 1 none 0]

/-- The call of the second client is a conflict, though the first one sent another call. -/
theorem not_distinct_twoClients : ¬ ∀ actions, Distinct (clientsAfter actions) := by
  intro h
  have hfirst : ((clientsAfter twoClients).calls[0]?).map Call.session = some ⟨"s"⟩ := by
    decide +kernel
  have hsecond : ((clientsAfter twoClients).calls[1]?).map (fun c => (c.session, c.outcome)) =
      some (⟨"s"⟩, some (.refused conflict)) := by decide +kernel
  obtain ⟨c, hc, hs⟩ := Option.map_eq_some_iff.mp hfirst
  obtain ⟨c', hc', e⟩ := Option.map_eq_some_iff.mp hsecond
  obtain ⟨hs', hout⟩ := Prod.mk.inj e
  exact (h twoClients 1 0 c' c (by decide) hc' hc).no_conflict (hs'.trans hs.symm) hout

end AgentDaemon.Daemon.Clients
