import AgentDaemon.Engine.Edits
import AgentDaemon.Lib.Blocks
import AgentDaemon.Lib.Slots
import AgentDaemon.Session.Names

/-!
The runtimes of the sessions. Whoever asks for a session looks it up, opens and loads its file
without a lock when it is not there, and keeps the runtime that was entered first. There is one
runtime for a session, its history is that of the session file, and the file has the messages of a
turn side by side (`sessions_shared`). What a turn does to the two are the edits of
`Engine.runTurn_edited`.
-/

namespace AgentDaemon.Daemon.Sessions

open OsPath Session Engine Transition Slots Blocks

/-- A name that `validate_session_id` accepts. -/
abbrev SessionName (base : List Part) : Type := {id : List Char // validateSessionId base id = true}

/-- A line of a session file. `turn` is the call that has written it, and none before the start;
`acked` says that its append has returned. -/
structure Line (M : Type) where
  turn : Option Nat
  message : M
  acked : Bool
  deriving DecidableEq, Repr

/-- `locked` is the call that has the lock on the history. -/
structure SessionRuntime (base : List Part) (M : Type) where
  id : SessionName base
  history : List M
  locked : Option Nat := none

/-- Where a call of `session_runtime` is, or the turn that follows it. `created` is a `session_new`
that has yet to make its session the legacy one. -/
inductive Stage (base : List Part) where
  | asked
  | missing
  | opened (id : SessionName base)
  | loaded (r : Nat)
  | returned (r : Nat)
  | turning (r : Nat)
  | ended (r : Nat)
  | created (r : Nat)
  | refused

structure Call (base : List Part) where
  requested : Option (List Char)
  stage : Stage base

/-- The files by their paths, the rows of the sessions table, the runtimes in the order in which
they were built, the default one first, and the calls in the order of their start. -/
structure DaemonState (base : List Part) (M : Type) where
  default : SessionName base
  files : List Part → Option (List (Line M))
  rows : List Char → Bool
  runtimes : List (SessionRuntime base M)
  sessions : List Char → Option Nat
  legacySessionId : List Char
  calls : List (Call base)

/-- `fails` is an error of the file, the store or the engine. -/
inductive Move (M : Type) where
  | proceed
  | fails
  | lock
  | edit (e : Edit M)
  | unlock

inductive Action (M : Type) where
  | request (requested : Option (List Char))
  | move (i : Nat) (m : Move M)
  | create (id : List Char)
  | row (id : List Char)

variable {base : List Part} {M : Type}

namespace DaemonState

variable (s : DaemonState base M)

def lines (id : SessionName base) : List (Line M) := (s.files (sessionPath base id.1)).getD []

/-- What `load` makes of the file. -/
def messages (id : SessionName base) : List M := (s.lines id).map Line.message

def setCall (i : Nat) (call : Call base) : DaemonState base M :=
  { s with calls := s.calls.set i call }

def addCall (call : Call base) : DaemonState base M := { s with calls := s.calls ++ [call] }

def build (id : SessionName base) (history : List M) : DaemonState base M :=
  { s with runtimes := s.runtimes ++ [{ id, history }] }

def register (id : List Char) (r : Nat) : DaemonState base M :=
  { s with sessions := Function.update s.sessions id (some r) }

def relock (r : Nat) (locked : Option Nat) : DaemonState base M :=
  { s with runtimes := s.runtimes.modify r fun runtime => { runtime with locked } }

/-- `or_insert_with`, and the runtime that it returns. -/
def orInsertWith (id : List Char) (r : Nat) : DaemonState base M × Nat :=
  match s.sessions id with
  | some r' => (s, r')
  | none => (s.register id r, r)

/-- The line of the edit, if it has one. -/
def linesOf (i : Nat) : Edit M → List (Line M)
  | .record message => [⟨some i, message, true⟩]
  | .strand message => [⟨some i, message, false⟩]
  | .compress _ _ => []

def edit (i r : Nat) (runtime : SessionRuntime base M) (e : Edit M) : DaemonState base M :=
  { s with
    files :=
      if (linesOf i e).isEmpty then s.files
      else Function.update s.files (sessionPath base runtime.id.1)
        (some (s.lines runtime.id ++ linesOf i e))
    runtimes := s.runtimes.modify r fun runtime =>
      { runtime with history := (e.apply (runtime.history, s.messages runtime.id)).1 } }

def advance (i : Nat) (call : Call base) : Move M → DaemonState base M
  | .proceed =>
    match call.stage, call.requested with
    | .asked, none => s.setCall i ⟨some s.legacySessionId, .asked⟩
    | .asked, some id =>
      if id = s.default.1 then s.setCall i { call with stage := .returned 0 }
      else match s.sessions id with
        | some r => s.setCall i { call with stage := .returned r }
        | none => s.setCall i { call with stage := .missing }
    | .missing, some id =>
      if h : validateSessionId base id = true then
        if (s.files (sessionPath base id)).isSome || id = s.default.1 || s.rows id then
          s.setCall i { call with stage := .opened ⟨id, h⟩ }
        else s.setCall i { call with stage := .refused }
      else s.setCall i { call with stage := .refused }
    | .opened id, _ =>
      (s.build id (s.messages id)).setCall i { call with stage := .loaded s.runtimes.length }
    | .loaded r, some id =>
      (s.orInsertWith id r).1.setCall i { call with stage := .returned (s.orInsertWith id r).2 }
    | .created r, some id =>
      { s.setCall i { call with stage := .ended r } with legacySessionId := id }
    | _, _ => s
  | .fails =>
    match call.stage with
    | .missing | .opened _ | .loaded _ => s.setCall i { call with stage := .refused }
    | _ => s
  | .lock =>
    match call.stage with
    | .returned r =>
      if s.runtimes[r]?.any (·.locked = none) then
        (s.relock r (some i)).setCall i { call with stage := .turning r }
      else s
    | _ => s
  | .edit e =>
    match call.stage with
    | .turning r =>
      match s.runtimes[r]? with
      | some runtime => if e.Fits runtime.history then s.edit i r runtime e else s
      | none => s
    | _ => s
  | .unlock =>
    match call.stage with
    | .turning r => (s.setCall i { call with stage := .ended r }).relock r none
    | _ => s

/-- The time, the process and the counter in the name make it a new one. -/
def Fresh (id : List Char) : Prop :=
  id ≠ s.default.1 ∧ s.files (sessionPath base id) = none ∧ s.sessions id = none

instance (id : List Char) : Decidable (s.Fresh id) := inferInstanceAs (Decidable (_ ∧ _ ∧ _))

def next : Action M → DaemonState base M
  | .request requested => s.addCall ⟨requested, .asked⟩
  | .move i m =>
    match s.calls[i]? with
    | some call => s.advance i call m
    | none => s
  | .create id =>
    if h : validateSessionId base id = true then
      if s.Fresh id then
        ((s.build ⟨id, h⟩ []).register id s.runtimes.length).addCall
          ⟨some id, .created s.runtimes.length⟩
      else s
    else s
  | .row id => { s with rows := Function.update s.rows id true }

/-! ## One runtime for a session -/

def turns (id : SessionName base) : List (Option Nat) := (s.lines id).map Line.turn

/-- The messages whose appends have returned. -/
def acked (id : SessionName base) : List M := ((s.lines id).filter Line.acked).map Line.message

/-- Runtime `r` is the one of the session. -/
def Registered (r : Nat) (id : SessionName base) : Prop :=
  (∃ runtime, s.runtimes[r]? = some runtime ∧ runtime.id = id) ∧
    (r = 0 ∨ s.sessions id.1 = some r)

end DaemonState

/-- The messages, or a summary in the place of the oldest of them. -/
def Agrees (history messages : List M) : Prop :=
  history = messages ∨
    ∃ summary k, 0 < k ∧ k ≤ messages.length ∧ history = summary :: messages.drop k

theorem Agrees.concat {history messages : List M} (h : Agrees history messages) (message : M) :
    Agrees (history ++ [message]) (messages ++ [message]) := by
  rcases h with rfl | ⟨summary, k, hpos, hk, rfl⟩
  · exact .inl rfl
  · refine .inr ⟨summary, k, hpos, ?_, ?_⟩
    · rw [List.length_append]
      omega
    · rw [List.drop_append_of_le_length hk]
      rfl

/-- A second summary takes the place of the first one too. -/
theorem Agrees.compress {history messages : List M} (h : Agrees history messages) (summary : M)
    {split : Nat} (hpos : 0 < split) (hle : split ≤ history.length) :
    Agrees (summary :: history.drop split) messages := by
  rcases h with rfl | ⟨old, k, hk, hkle, rfl⟩
  · exact .inr ⟨summary, split, hpos, hle, rfl⟩
  · obtain ⟨n, rfl⟩ : ∃ n, split = n + 1 := ⟨split - 1, by omega⟩
    rw [List.length_cons, List.length_drop] at hle
    refine .inr ⟨summary, k + n, by omega, by omega, ?_⟩
    rw [List.drop_succ_cons, List.drop_drop]

theorem Agrees.edit {history messages file : List M} (h : Agrees history messages) (i : Nat)
    {e : Edit M} (he : e.Fits history) :
    Agrees (e.apply (history, file)).1
      (messages ++ ((DaemonState.linesOf i e).filter Line.acked).map Line.message) := by
  cases e with
  | record message => exact h.concat message
  | strand message => simpa [DaemonState.linesOf, Edit.apply] using h
  | compress summary split =>
    simpa [DaemonState.linesOf, Edit.apply] using h.compress summary he.1 he.2

/-- The runtime that a call has got. -/
def Stage.runtime : Stage base → Option Nat
  | .returned r | .turning r | .ended r | .created r => some r
  | _ => none

/-- The runtime whose turn the call has begun. -/
def Stage.writes : Stage base → Option Nat
  | .turning r | .ended r => some r
  | _ => none

namespace DaemonState

/-- What a call may rely on. -/
def CallInv (s : DaemonState base M) (i : Nat) (call : Call base) : Prop :=
  match call.stage with
  | .asked | .refused => True
  | .missing => ∃ id, call.requested = some id ∧ id ≠ s.default.1
  | .opened id => call.requested = some id.1 ∧ id ≠ s.default
  | .loaded r => ∃ runtime, s.runtimes[r]? = some runtime ∧ call.requested = some runtime.id.1 ∧
      runtime.id ≠ s.default ∧
      (s.sessions runtime.id.1 = none → runtime.history = s.acked runtime.id)
  | .returned r | .ended r | .created r =>
    ∃ id : SessionName base, call.requested = some id.1 ∧ s.Registered r id
  | .turning r => ∃ runtime, s.runtimes[r]? = some runtime ∧ call.requested = some runtime.id.1 ∧
      s.Registered r runtime.id ∧ runtime.locked = some i ∧
      Continues (s.turns runtime.id) (some i)

structure Inv (s : DaemonState base M) : Prop where
  first : ∃ runtime, s.runtimes[0]? = some runtime ∧ runtime.id = s.default
  keyed : ∀ (id : List Char) (r : Nat), s.sessions id = some r →
    id ≠ s.default.1 ∧ ∃ runtime, s.runtimes[r]? = some runtime ∧ runtime.id.1 = id
  agrees : ∀ r runtime, s.runtimes[r]? = some runtime → s.Registered r runtime.id →
    Agrees runtime.history (s.acked runtime.id)
  untouched : ∀ id, id ≠ s.default → s.sessions id.1 = none →
    ∀ line ∈ s.lines id, line.turn = none ∧ line.acked = true
  written : ∀ id, ∀ line ∈ s.lines id, ∀ i, line.turn = some i →
    ∃ r call, s.Registered r id ∧ s.calls[i]? = some call ∧ call.requested = some id.1 ∧
      call.stage.writes = some r
  contiguous : ∀ id, Contiguous (s.turns id)
  calls : ∀ i call, s.calls[i]? = some call → s.CallInv i call

variable {s s' : DaemonState base M} {i r r' : Nat} {call call' : Call base}
  {id id' : SessionName base} {runtime : SessionRuntime base M}

theorem Registered.unique (h : s.Inv) (hr : s.Registered r id) (hr' : s.Registered r' id) :
    r = r' := by
  have hdefault : ∀ k, s.Registered 0 id → s.sessions id.1 = some k → False := by
    intro k hzero hk
    obtain ⟨first, hfirst, hid⟩ := h.first
    obtain ⟨⟨runtime, hruntime, hrid⟩, -⟩ := hzero
    cases hfirst.symm.trans hruntime
    exact (h.keyed _ _ hk).1 (by rw [← hrid, hid])
  rcases hr.2 with rfl | hk
  · rcases hr'.2 with rfl | hk'
    · rfl
    · exact (hdefault _ hr hk').elim
  · rcases hr'.2 with rfl | hk'
    · exact (hdefault _ hr' hk).elim
    · exact Option.some.inj (hk.symm.trans hk')

theorem Inv.registered_zero (h : s.Inv) : s.Registered 0 s.default := ⟨h.first, .inl rfl⟩

/-- A runtime that is in the table is that of the session. -/
theorem Inv.registered (h : s.Inv) {key : List Char} (hk : s.sessions key = some r) :
    ∃ id : SessionName base, id.1 = key ∧ s.Registered r id := by
  obtain ⟨-, runtime, hr, hid⟩ := h.keyed key r hk
  exact ⟨runtime.id, hid, ⟨runtime, hr, rfl⟩, .inr (hid ▸ hk)⟩

/-- A runtime that is not in the table is not that of a session. -/
theorem Inv.not_registered (h : s.Inv) (hne : id ≠ s.default) (hnone : s.sessions id.1 = none) :
    ¬ s.Registered r id := by
  rintro ⟨⟨runtime, hr, hid⟩, rfl | hk⟩
  · obtain ⟨first, hfirst, hdefault⟩ := h.first
    cases hfirst.symm.trans hr
    exact hne (hid.symm.trans hdefault)
  · rw [hnone] at hk
    cases hk

/-! ### Files -/

theorem sessionPath_injective (h : sessionPath base id.1 = sessionPath base id'.1) : id = id' := by
  have hname := (validateSessionId_iff.mp id.2).1
  have hname' := (validateSessionId_iff.mp id'.2).1
  rw [sessionPath_eq base hname, sessionPath_eq base hname'] at h
  have hlast := List.append_cancel_left h
  injection hlast with hpart
  injection hpart with hutf8
  exact Subtype.ext (utf8_injective hutf8)

theorem lines_edit (e : Edit M) (id : SessionName base) :
    (s.edit i r runtime e).lines id =
      if id = runtime.id then s.lines id ++ linesOf i e else s.lines id := by
  unfold lines edit
  dsimp only
  split
  · rename_i hempty
    rw [List.isEmpty_iff.mp hempty, List.append_nil, ite_self]
  · by_cases hid : id = runtime.id
    · subst hid
      rw [Function.update_self, if_pos rfl]
      rfl
    · rw [Function.update_of_ne fun hpath => hid (sessionPath_injective hpath), if_neg hid]

/-! ### What a step leaves as it is -/

/-- What every step leaves to the calls: sessions stay where they are, and what is not of a session
yet is not written. -/
structure Frame (s s' : DaemonState base M) : Prop where
  default : s'.default = s.default
  sessions : ∀ (key : List Char) (r : Nat), s.sessions key = some r → s'.sessions key = some r
  runtimes : ∀ (r : Nat) (runtime : SessionRuntime base M), s.runtimes[r]? = some runtime →
    ∃ runtime' : SessionRuntime base M, s'.runtimes[r]? = some runtime' ∧ runtime'.id = runtime.id ∧
      (runtime.id ≠ s.default → s.sessions runtime.id.1 = none → runtime'.history = runtime.history)
  lines : ∀ id : SessionName base, id ≠ s.default → s.sessions id.1 = none →
    s'.lines id = s.lines id

theorem Registered.frame (h : s.Registered r id) (hf : Frame s s') : s'.Registered r id := by
  obtain ⟨⟨runtime, hr, hid⟩, htable⟩ := h
  obtain ⟨runtime', hr', hid', -⟩ := hf.runtimes r runtime hr
  exact ⟨⟨runtime', hr', hid'.trans hid⟩, htable.imp_right (hf.sessions _ _)⟩

theorem CallInv.frame (h : s.CallInv i call) (hf : Frame s s')
    (hturn : ∀ r runtime, call.stage = .turning r → s.runtimes[r]? = some runtime →
      runtime.locked = some i → ∃ runtime', s'.runtimes[r]? = some runtime' ∧
        runtime'.id = runtime.id ∧ runtime'.locked = some i ∧
        s'.lines runtime.id = s.lines runtime.id) : s'.CallInv i call := by
  obtain ⟨requested, stage⟩ := call
  have hacked : ∀ id, id ≠ s.default → s'.sessions id.1 = none →
      s.sessions id.1 = none ∧ s'.acked id = s.acked id := by
    intro id hne hnone
    have hold : s.sessions id.1 = none := by
      cases hs : s.sessions id.1 with
      | none => rfl
      | some r =>
        rw [hf.sessions _ _ hs] at hnone
        cases hnone
    refine ⟨hold, ?_⟩
    unfold acked
    rw [hf.lines id hne hold]
  cases stage with
  | asked => trivial
  | refused => trivial
  | missing =>
    obtain ⟨id, hid, hne⟩ := h
    exact ⟨id, hid, by rwa [hf.default]⟩
  | opened id => exact ⟨h.1, by rw [hf.default]; exact h.2⟩
  | loaded r =>
    obtain ⟨runtime, hr, hreq, hne, hhistory⟩ := h
    obtain ⟨runtime', hr', hid, hkept⟩ := hf.runtimes r runtime hr
    refine ⟨runtime', hr', by rw [hid]; exact hreq, by rwa [hid, hf.default], fun hnone => ?_⟩
    rw [hid] at hnone ⊢
    obtain ⟨hold, heq⟩ := hacked _ hne hnone
    rw [hkept hne hold, hhistory hold, heq]
  | returned r =>
    obtain ⟨id, hreq, hr⟩ := h
    exact ⟨id, hreq, hr.frame hf⟩
  | ended r =>
    obtain ⟨id, hreq, hr⟩ := h
    exact ⟨id, hreq, hr.frame hf⟩
  | created r =>
    obtain ⟨id, hreq, hr⟩ := h
    exact ⟨id, hreq, hr.frame hf⟩
  | turning r =>
    obtain ⟨runtime, hr, hreq, hreg, hlocked, hlast⟩ := h
    obtain ⟨runtime', hr', hid, hlocked', hlines⟩ := hturn r runtime rfl hr hlocked
    refine ⟨runtime', hr', by rw [hid]; exact hreq, ?_, hlocked', ?_⟩
    · rw [hid]
      exact hreg.frame hf
    · rw [hid]
      unfold turns
      rw [hlines]
      exact hlast

/-! ### The parts of a step -/

theorem Inv.setCall (h : s.Inv) (hi : s.calls[i]? = some call)
    (hw : ∀ r, call.stage.writes = some r →
      call'.stage.writes = some r ∧ call'.requested = call.requested)
    (hc : s.CallInv i call') : (s.setCall i call').Inv where
  first := h.first
  keyed := h.keyed
  agrees := h.agrees
  untouched := h.untouched
  contiguous := h.contiguous
  written id line hline k hk := by
    obtain ⟨r, c, hreg, hcalls, hreq, hwrites⟩ := h.written id line hline k hk
    by_cases hki : k = i
    · subst hki
      cases hi.symm.trans hcalls
      refine ⟨r, call', hreg, ?_, (hw r hwrites).2.trans hreq, (hw r hwrites).1⟩
      exact List.getElem?_set_self (lt_of_some hi)
    · refine ⟨r, c, hreg, ?_, hreq, hwrites⟩
      exact (List.getElem?_set_ne (Ne.symm hki)).trans hcalls
  calls k c hk := by
    by_cases hki : k = i
    · subst hki
      cases (List.getElem?_set_self (lt_of_some hi)).symm.trans hk
      exact hc
    · exact h.calls k c ((List.getElem?_set_ne (Ne.symm hki)).symm.trans hk)

theorem Inv.addCall (h : s.Inv) (hc : s.CallInv s.calls.length call) : (s.addCall call).Inv where
  first := h.first
  keyed := h.keyed
  agrees := h.agrees
  untouched := h.untouched
  contiguous := h.contiguous
  written id line hline k hk := by
    obtain ⟨r, c, hreg, hcalls, hrest⟩ := h.written id line hline k hk
    exact ⟨r, c, hreg, append_of_some hcalls _, hrest⟩
  calls k c hk := by
    rcases of_concat hk with hold | ⟨rfl, rfl⟩
    · exact h.calls k c hold
    · exact hc

theorem Inv.build (h : s.Inv) (id : SessionName base) (history : List M) :
    (s.build id history).Inv := by
  have hf : Frame s (s.build id history) :=
    ⟨rfl, fun _ _ hk => hk, fun r runtime hr => ⟨runtime, append_of_some hr _, rfl, fun _ _ => rfl⟩,
      fun _ _ _ => rfl⟩
  obtain ⟨first, hfirst, hdefault⟩ := h.first
  refine ⟨⟨first, append_of_some hfirst _, hdefault⟩, fun key r hk => ?_, ?_, h.untouched, ?_,
    h.contiguous, ?_⟩
  · obtain ⟨hne, runtime, hr, hid⟩ := h.keyed key r hk
    exact ⟨hne, runtime, append_of_some hr _, hid⟩
  · rintro r runtime hr ⟨-, htable⟩
    rcases of_concat hr with hold | ⟨rfl, rfl⟩
    · exact h.agrees r runtime hold ⟨⟨runtime, hold, rfl⟩, htable⟩
    · -- the table does not know the new runtime
      rcases htable with hzero | hk
      · have := lt_of_some hfirst
        omega
      · obtain ⟨-, runtime, hr, -⟩ := h.keyed _ _ hk
        exact absurd (lt_of_some hr) (Nat.lt_irrefl _)
  · intro id line hline i hi
    obtain ⟨r, c, hreg, hrest⟩ := h.written id line hline i hi
    exact ⟨r, c, hreg.frame hf, hrest⟩
  · intro i c hi
    exact (h.calls i c hi).frame hf fun r runtime _ hr hlocked =>
      ⟨runtime, append_of_some hr _, rfl, hlocked, rfl⟩

theorem Inv.register (h : s.Inv) (hr : s.runtimes[r]? = some runtime)
    (hne : runtime.id ≠ s.default) (hnone : s.sessions runtime.id.1 = none)
    (hhistory : runtime.history = s.acked runtime.id) : (s.register runtime.id.1 r).Inv := by
  have hsessions : ∀ key, (s.register runtime.id.1 r).sessions key =
      if key = runtime.id.1 then some r else s.sessions key := by
    intro key
    exact Function.update_apply ..
  have hf : Frame s (s.register runtime.id.1 r) := by
    refine ⟨rfl, fun key k hk => ?_, fun r runtime hr => ⟨runtime, hr, rfl, fun _ _ => rfl⟩,
      fun _ _ _ => rfl⟩
    rw [hsessions, if_neg, hk]
    rintro rfl
    rw [hnone] at hk
    cases hk
  refine ⟨h.first, fun key k hk => ?_, ?_, fun id hid hid' => ?_, ?_, h.contiguous, ?_⟩
  · rw [hsessions] at hk
    split at hk
    · rename_i hkey
      cases hk
      refine ⟨?_, runtime, hr, hkey.symm⟩
      rw [hkey]
      exact fun he => hne (Subtype.ext he)
    · exact h.keyed key k hk
  · rintro k runtime' hk ⟨-, htable⟩
    rcases htable with rfl | htable
    · exact h.agrees 0 runtime' hk ⟨⟨runtime', hk, rfl⟩, .inl rfl⟩
    · rw [hsessions] at htable
      split at htable
      · cases htable
        cases hr.symm.trans hk
        exact .inl hhistory
      · exact h.agrees k runtime' hk ⟨⟨runtime', hk, rfl⟩, .inr htable⟩
  · rw [hsessions] at hid'
    split at hid'
    · cases hid'
    · exact h.untouched id hid hid'
  · intro id line hline i hi
    obtain ⟨k, c, hreg, hrest⟩ := h.written id line hline i hi
    exact ⟨k, c, hreg.frame hf, hrest⟩
  · intro i c hi
    exact (h.calls i c hi).frame hf fun r runtime _ hr hlocked => ⟨runtime, hr, rfl, hlocked, rfl⟩

theorem Inv.relock (h : s.Inv) (locked : Option Nat)
    (hfree : ∀ (i : Nat) (call : Call base), s.calls[i]? = some call → call.stage ≠ .turning r) :
    (s.relock r locked).Inv := by
  have hof : ∀ (k : Nat) (runtime' : SessionRuntime base M),
      (s.relock r locked).runtimes[k]? = some runtime' →
      ∃ runtime, s.runtimes[k]? = some runtime ∧ runtime'.id = runtime.id ∧
        runtime'.history = runtime.history := by
    intro k runtime' hk
    obtain ⟨runtime, hr, rfl⟩ := of_modify hk
    exact ⟨runtime, hr, by split <;> rfl, by split <;> rfl⟩
  have hto : ∀ (k : Nat) (runtime : SessionRuntime base M), s.runtimes[k]? = some runtime →
      ∃ runtime', (s.relock r locked).runtimes[k]? = some runtime' ∧ runtime'.id = runtime.id ∧
        runtime'.history = runtime.history := by
    intro k runtime hk
    exact ⟨_, modify_of_some hk _, by split <;> rfl, by split <;> rfl⟩
  have hf : Frame s (s.relock r locked) :=
    ⟨rfl, fun _ _ hk => hk, fun k runtime hk => by
      obtain ⟨runtime', hk', hid, hhistory⟩ := hto k runtime hk
      exact ⟨runtime', hk', hid, fun _ _ => hhistory⟩, fun _ _ _ => rfl⟩
  refine ⟨?_, fun key k hk => ?_, ?_, h.untouched, ?_, h.contiguous, ?_⟩
  · obtain ⟨first, hfirst, hdefault⟩ := h.first
    obtain ⟨runtime', hk', hid, -⟩ := hto _ _ hfirst
    exact ⟨runtime', hk', hid.trans hdefault⟩
  · obtain ⟨hne, runtime, hr, hid⟩ := h.keyed key k hk
    obtain ⟨runtime', hk', hid', -⟩ := hto _ _ hr
    exact ⟨hne, runtime', hk', hid' ▸ hid⟩
  · rintro k runtime' hk ⟨-, htable⟩
    obtain ⟨runtime, hr, hid, hhistory⟩ := hof k runtime' hk
    rw [hid] at htable
    rw [hid, hhistory]
    exact h.agrees k runtime hr ⟨⟨runtime, hr, rfl⟩, htable⟩
  · intro id line hline i hi
    obtain ⟨k, c, hreg, hrest⟩ := h.written id line hline i hi
    exact ⟨k, c, hreg.frame hf, hrest⟩
  · intro i c hi
    refine (h.calls i c hi).frame hf fun k runtime hstage hk hlocked => ?_
    refine ⟨runtime, ?_, rfl, hlocked, rfl⟩
    have hkr : k ≠ r := by
      rintro rfl
      exact hfree i c hi hstage
    exact (modify_other hkr _).trans hk

/-- Two calls do not have a turn with one runtime. -/
theorem Inv.turning_unique (h : s.Inv) {a b : Call base} {j : Nat} (hi : s.calls[i]? = some a)
    (hj : s.calls[j]? = some b) (ha : a.stage = .turning r) (hb : b.stage = .turning r) :
    i = j := by
  have hia := h.calls i a hi
  have hjb := h.calls j b hj
  unfold CallInv at hia hjb
  rw [ha] at hia
  rw [hb] at hjb
  obtain ⟨runtime, hr, -, -, hlocked, -⟩ := hia
  obtain ⟨runtime', hr', -, -, hlocked', -⟩ := hjb
  cases hr.symm.trans hr'
  exact Option.some.inj (hlocked.symm.trans hlocked')

/-! ### An edit of a turn -/

theorem turns_linesOf (i : Nat) (e : Edit M) :
    (linesOf i e).map Line.turn = [] ∨ (linesOf i e).map Line.turn = [some i] := by
  cases e with
  | record message => exact .inr rfl
  | strand message => exact .inr rfl
  | compress summary split => exact .inl rfl

theorem Inv.edit (h : s.Inv) (hi : s.calls[i]? = some call) (hstage : call.stage = .turning r)
    (hr : s.runtimes[r]? = some runtime) {e : Edit M} (he : e.Fits runtime.history) :
    (s.edit i r runtime e).Inv := by
  have hcall := h.calls i call hi
  unfold CallInv at hcall
  rw [hstage] at hcall
  obtain ⟨_, hr', hreq, hreg, hlocked, hlast⟩ := hcall
  cases hr.symm.trans hr'
  have hlines : ∀ id, (s.edit i r runtime e).lines id =
      if id = runtime.id then s.lines id ++ linesOf i e else s.lines id := lines_edit e
  have hturns : ∀ id, (s.edit i r runtime e).turns id =
      if id = runtime.id then s.turns id ++ (linesOf i e).map Line.turn else s.turns id := by
    intro id
    unfold turns
    rw [hlines]
    split
    · exact List.map_append
    · rfl
  have hto : ∀ (k : Nat) (held : SessionRuntime base M), s.runtimes[k]? = some held →
      ∃ held', (s.edit i r runtime e).runtimes[k]? = some held' ∧ held'.id = held.id ∧
        held'.locked = held.locked ∧ (k ≠ r → held'.history = held.history) := by
    intro k held hk
    refine ⟨_, modify_of_some hk _, by split <;> rfl, by split <;> rfl, fun hne => ?_⟩
    rw [if_neg hne]
  have hapart : ∀ id, id ≠ s.default → s.sessions id.1 = none → id ≠ runtime.id := by
    rintro _ hne hnone rfl
    exact h.not_registered hne hnone hreg
  have hf : Frame s (s.edit i r runtime e) := by
    refine ⟨rfl, fun _ _ hk => hk, fun k held hk => ?_, fun id hne hnone => ?_⟩
    · obtain ⟨held', hk', hid, -, hhistory⟩ := hto k held hk
      refine ⟨held', hk', hid, fun hne hnone => hhistory ?_⟩
      rintro rfl
      cases hr.symm.trans hk
      exact hapart _ hne hnone rfl
    · rw [hlines, if_neg (hapart id hne hnone)]
  refine ⟨?_, fun key k hk => ?_, ?_, fun id hne hnone => ?_, ?_, fun id => ?_, ?_⟩
  · obtain ⟨first, hfirst, hdefault⟩ := h.first
    obtain ⟨held', hk', hid, -⟩ := hto _ _ hfirst
    exact ⟨held', hk', hid.trans hdefault⟩
  · obtain ⟨hne, held, hk, hid⟩ := h.keyed key k hk
    obtain ⟨held', hk', hid', -⟩ := hto _ _ hk
    exact ⟨hne, held', hk', hid' ▸ hid⟩
  · rintro k held' hk ⟨-, htable⟩
    obtain ⟨held, hold, rfl⟩ := of_modify hk
    unfold acked
    rw [hlines]
    split at htable
    · rename_i hkr
      subst hkr
      cases hr.symm.trans hold
      rw [if_pos rfl, if_pos rfl, List.filter_append, List.map_append]
      exact (h.agrees _ _ hr hreg).edit i he
    · rename_i hkr
      have hheld : s.Registered k held.id := ⟨⟨held, hold, rfl⟩, htable⟩
      rw [if_neg hkr, if_neg]
      · exact h.agrees k held hold hheld
      · intro hid
        rw [hid] at hheld
        exact hkr (hheld.unique h hreg)
  · rw [hlines, if_neg (hapart id hne hnone)]
    exact h.untouched id hne hnone
  · intro id line hline k hk
    rw [hlines] at hline
    by_cases hold : line ∈ s.lines id
    · obtain ⟨k', c, hreg', hrest⟩ := h.written id line hold k hk
      exact ⟨k', c, hreg'.frame hf, hrest⟩
    · -- the line is the one that the turn writes
      split at hline
      · rename_i hid
        subst hid
        have hnew := (List.mem_append.mp hline).resolve_left hold
        have hturn := List.mem_map_of_mem (f := Line.turn) hnew
        rcases turns_linesOf i e with heq | heq
        · rw [heq] at hturn
          cases hturn
        · rw [heq, List.mem_singleton, hk] at hturn
          obtain rfl := Option.some.inj hturn
          exact ⟨r, call, hreg.frame hf, hi, hreq, by rw [hstage]; rfl⟩
      · exact absurd hline hold
  · rw [hturns]
    split
    · rename_i hid
      subst hid
      rcases turns_linesOf i e with heq | heq
      · rw [heq, List.append_nil]
        exact h.contiguous _
      · rw [heq]
        exact (h.contiguous _).concat hlast
    · exact h.contiguous id
  · intro k c hk
    by_cases hki : k = i
    · subst hki
      cases hi.symm.trans hk
      unfold CallInv
      rw [hstage]
      obtain ⟨held', hk', hid, hlocked', -⟩ := hto _ _ hr
      refine ⟨held', hk', by rw [hid]; exact hreq, by rw [hid]; exact hreg.frame hf,
        hlocked'.trans hlocked, ?_⟩
      rw [hid, hturns, if_pos rfl]
      rcases turns_linesOf k e with heq | heq
      · rw [heq, List.append_nil]
        exact hlast
      · rw [heq]
        exact continues_concat _ _
    · have hck := h.calls k c hk
      refine hck.frame hf fun r' held hturning hheld hlocked' => ?_
      obtain ⟨held', hk', hid, hsame, -⟩ := hto _ _ hheld
      refine ⟨held', hk', hid, hsame.trans hlocked', ?_⟩
      rw [hlines, if_neg]
      intro hid'
      unfold CallInv at hck
      rw [hturning] at hck
      obtain ⟨_, hheld', -, hreg', -⟩ := hck
      cases hheld.symm.trans hheld'
      rw [hid'] at hreg'
      obtain rfl := hreg'.unique h hreg
      exact hki (h.turning_unique hk hi hturning hstage)

/-! ### Steps and runs -/

/-- A call that has not written goes on. -/
theorem Inv.proceed (h : s.Inv) (hi : s.calls[i]? = some call) (hw : call.stage.writes = none)
    (hc : s.CallInv i call') : (s.setCall i call').Inv :=
  h.setCall hi (fun r hr => by rw [hw] at hr; cases hr) hc

/-- A turn that has not begun has written nothing. -/
theorem Inv.not_mem_turns (h : s.Inv) (hi : s.calls[i]? = some call)
    (hw : call.stage.writes = none) (id : SessionName base) : some i ∉ s.turns id := by
  intro hmem
  obtain ⟨line, hline, hturn⟩ := List.mem_map.mp hmem
  obtain ⟨r, c, -, hc, -, hwrites⟩ := h.written id line hline i hturn
  cases hi.symm.trans hc
  rw [hw] at hwrites
  cases hwrites

theorem Inv.orInsertWith (h : s.Inv) (hr : s.runtimes[r]? = some runtime)
    (hne : runtime.id ≠ s.default)
    (hhistory : s.sessions runtime.id.1 = none → runtime.history = s.acked runtime.id) :
    (s.orInsertWith runtime.id.1 r).1.Inv ∧
      (s.orInsertWith runtime.id.1 r).1.calls = s.calls ∧
      (s.orInsertWith runtime.id.1 r).1.Registered (s.orInsertWith runtime.id.1 r).2
        runtime.id := by
  unfold DaemonState.orInsertWith
  cases hs : s.sessions runtime.id.1 with
  | some r' =>
    refine ⟨h, rfl, ?_⟩
    obtain ⟨id, hid, hreg⟩ := h.registered hs
    rwa [← Subtype.ext hid]
  | none =>
    refine ⟨h.register hr hne hs (hhistory hs), rfl, ⟨runtime, hr, rfl⟩, .inr ?_⟩
    exact Function.update_self ..

theorem Inv.advance (h : s.Inv) (hi : s.calls[i]? = some call) (m : Move M) :
    (s.advance i call m).Inv := by
  have hcall := h.calls i call hi
  obtain ⟨requested, stage⟩ := call
  cases m with
  | proceed =>
    cases stage with
    | asked =>
      cases requested with
      | none => exact h.proceed hi rfl trivial
      | some id =>
        simp only [DaemonState.advance]
        split
        · rename_i hid
          exact h.proceed hi rfl ⟨s.default, congrArg some hid, h.registered_zero⟩
        · rename_i hid
          split
          · rename_i r hr
            obtain ⟨name, hname, hreg⟩ := h.registered hr
            exact h.proceed hi rfl ⟨name, congrArg some hname.symm, hreg⟩
          · exact h.proceed hi rfl ⟨id, rfl, hid⟩
    | missing =>
      obtain ⟨id, rfl, hne⟩ := hcall
      simp only [DaemonState.advance]
      split
      · split
        · exact h.proceed hi rfl ⟨rfl, fun he => hne (congrArg Subtype.val he)⟩
        · exact h.proceed hi rfl trivial
      · exact h.proceed hi rfl trivial
    | opened id =>
      obtain ⟨hreq, hne⟩ := hcall
      have hi' : (s.build id (s.messages id)).calls[i]? = some ⟨requested, .opened id⟩ := hi
      refine (h.build id _).proceed hi' rfl ?_
      refine ⟨_, List.getElem?_concat_length, hreq, hne, fun hnone => ?_⟩
      have hacked : ∀ line ∈ s.lines id, line.acked = true := fun line hline =>
        (h.untouched id hne hnone line hline).2
      exact congrArg (List.map Line.message) (List.filter_eq_self.mpr hacked).symm
    | loaded r =>
      obtain ⟨runtime, hr, rfl, hne, hhistory⟩ := hcall
      obtain ⟨hinv, hcalls, hreg⟩ := h.orInsertWith hr hne hhistory
      exact hinv.proceed (hcalls ▸ hi) rfl ⟨runtime.id, rfl, hreg⟩
    | created r =>
      obtain ⟨id, rfl, hreg⟩ := hcall
      have hset : (s.setCall i ⟨some id.1, .ended r⟩).Inv := h.proceed hi rfl ⟨id, rfl, hreg⟩
      exact ⟨hset.first, hset.keyed, hset.agrees, hset.untouched, hset.written, hset.contiguous,
        hset.calls⟩
    | returned r => exact h
    | turning r => exact h
    | ended r => exact h
    | refused => exact h
  | fails =>
    cases stage with
    | missing => exact h.proceed hi rfl trivial
    | opened id => exact h.proceed hi rfl trivial
    | loaded r => exact h.proceed hi rfl trivial
    | asked => exact h
    | returned r => exact h
    | turning r => exact h
    | ended r => exact h
    | created r => exact h
    | refused => exact h
  | lock =>
    cases stage with
    | returned r =>
      simp only [DaemonState.advance]
      split
      · rename_i hfree
        obtain ⟨id, hreq, ⟨runtime, hr, rfl⟩, htable⟩ := hcall
        have hunlocked : runtime.locked = none := by simpa [hr] using hfree
        have hinv : (s.relock r (some i)).Inv := by
          refine h.relock (some i) fun k c hk hturning => ?_
          have hck := h.calls k c hk
          unfold CallInv at hck
          rw [hturning] at hck
          obtain ⟨_, hr', -, -, hlocked, -⟩ := hck
          cases hr.symm.trans hr'
          rw [hunlocked] at hlocked
          cases hlocked
        have hi' : (s.relock r (some i)).calls[i]? = some ⟨requested, .returned r⟩ := hi
        refine hinv.proceed hi' rfl ?_
        refine ⟨{ runtime with locked := some i }, modify_self hr _, hreq, ?_, rfl,
          .inl (h.not_mem_turns hi rfl _)⟩
        exact ⟨⟨_, modify_self hr _, rfl⟩, htable⟩
      · exact h
    | asked => exact h
    | missing => exact h
    | opened id => exact h
    | loaded r => exact h
    | turning r => exact h
    | ended r => exact h
    | created r => exact h
    | refused => exact h
  | edit e =>
    cases stage with
    | turning r =>
      simp only [DaemonState.advance]
      split
      · rename_i runtime hr
        split
        · rename_i he
          exact h.edit hi rfl hr he
        · exact h
      · exact h
    | asked => exact h
    | missing => exact h
    | opened id => exact h
    | loaded r => exact h
    | returned r => exact h
    | ended r => exact h
    | created r => exact h
    | refused => exact h
  | unlock =>
    cases stage with
    | turning r =>
      have hunique := fun k c (hk : s.calls[k]? = some c) (hc : c.stage = .turning r) =>
        h.turning_unique hk hi hc rfl
      obtain ⟨runtime, hr, hreq, hreg, -⟩ := hcall
      have hset : (s.setCall i ⟨requested, .ended r⟩).Inv :=
        h.setCall hi (fun _ hw => ⟨hw, rfl⟩) ⟨runtime.id, hreq, hreg⟩
      refine hset.relock none fun k c hk hturning => ?_
      by_cases hki : k = i
      · subst hki
        cases (List.getElem?_set_self (lt_of_some hi)).symm.trans hk
        cases hturning
      · exact hki (hunique k c ((List.getElem?_set_ne (Ne.symm hki)).symm.trans hk) hturning)
    | asked => exact h
    | missing => exact h
    | opened id => exact h
    | loaded r => exact h
    | returned r => exact h
    | ended r => exact h
    | created r => exact h
    | refused => exact h

theorem Inv.next (h : s.Inv) (a : Action M) : (s.next a).Inv := by
  cases a with
  | request requested => exact h.addCall trivial
  | move i m =>
    simp only [DaemonState.next]
    split
    · rename_i hi
      exact h.advance hi m
    · exact h
  | create id =>
    simp only [DaemonState.next]
    split
    · rename_i hvalid
      split
      · rename_i hfresh
        obtain ⟨hne, hfile, hnone⟩ := hfresh
        have hr : (s.build ⟨id, hvalid⟩ []).runtimes[s.runtimes.length]? =
            some { id := ⟨id, hvalid⟩, history := [] } := List.getElem?_concat_length
        have hempty : (s.build ⟨id, hvalid⟩ []).acked ⟨id, hvalid⟩ = [] := by
          unfold acked lines
          rw [show (s.build ⟨id, hvalid⟩ []).files = s.files from rfl, hfile]
          rfl
        have hinv := (h.build ⟨id, hvalid⟩ []).register hr
          (fun he => hne (congrArg Subtype.val he)) hnone hempty.symm
        exact hinv.addCall ⟨⟨id, hvalid⟩, rfl, ⟨_, hr, rfl⟩, .inr (Function.update_self ..)⟩
      · exact h
    · exact h
  | row id => exact ⟨h.first, h.keyed, h.agrees, h.untouched, h.written, h.contiguous, h.calls⟩

end DaemonState

/-! ## Runs -/

/-- The daemon at its start, with the history of the default session loaded. -/
def start (default : SessionName base) (rows : List Char → Bool)
    (files : List Part → Option (List M)) : DaemonState base M where
  default
  rows
  files path := (files path).map fun messages => messages.map fun message => ⟨none, message, true⟩
  runtimes := [{ id := default, history := (files (sessionPath base default.1)).getD [] }]
  sessions _ := none
  legacySessionId := default.1
  calls := []

theorem lines_start (default : SessionName base) (rows : List Char → Bool)
    (files : List Part → Option (List M)) (id : SessionName base) :
    (start default rows files).lines id =
      ((files (sessionPath base id.1)).getD []).map fun message => ⟨none, message, true⟩ := by
  unfold DaemonState.lines start
  dsimp only
  cases files (sessionPath base id.1) <;> rfl

theorem inv_start (default : SessionName base) (rows : List Char → Bool)
    (files : List Part → Option (List M)) : (start default rows files).Inv := by
  have hlines := lines_start default rows files
  have hold : ∀ id, ∀ line ∈ (start default rows files).lines id,
      line.turn = none ∧ line.acked = true := by
    intro id line hline
    rw [hlines] at hline
    obtain ⟨message, -, rfl⟩ := List.mem_map.mp hline
    exact ⟨rfl, rfl⟩
  refine ⟨⟨_, rfl, rfl⟩, (fun _ _ hk => by cases hk), fun r runtime hr _ => ?_,
    fun id _ _ => hold id, fun id line hline i hi => ?_, fun id => ?_, fun i c hi => (by cases hi)⟩
  · obtain ⟨rfl, rfl⟩ : r = 0 ∧ runtime = _ := by
      rcases of_concat (l := []) hr with hnone | ⟨hzero, heq⟩
      · cases hnone
      · exact ⟨hzero, heq⟩
    refine .inl ?_
    unfold DaemonState.acked
    rw [hlines, List.filter_eq_self.mpr, List.map_map]
    · exact (List.map_id _).symm
    · rintro line hline
      obtain ⟨message, -, rfl⟩ := List.mem_map.mp hline
      rfl
  · rw [(hold id line hline).1] at hi
    cases hi
  · unfold DaemonState.turns
    rw [hlines, List.map_map]
    show Contiguous (List.map (fun _ => none) _)
    rw [List.map_const']
    exact contiguous_replicate _ _

theorem inv_after (default : SessionName base) (rows : List Char → Bool)
    (files : List Part → Option (List M)) (actions : List (Action M)) :
    (after DaemonState.next (start default rows files) actions).Inv :=
  after_induct (G := fun _ _ => True) (fun _ a h _ => h.next a) (inv_start default rows files)
    (along_true _ _)

/-- The runtime that a call has got is that of the session it has asked for. -/
theorem DaemonState.Inv.of_runtime {s : DaemonState base M} (h : s.Inv) {i r : Nat}
    {call : Call base} (hi : s.calls[i]? = some call) (hr : call.stage.runtime = some r) :
    ∃ runtime, s.runtimes[r]? = some runtime ∧ call.requested = some runtime.id.1 ∧
      s.Registered r runtime.id := by
  have hcall := h.calls i call hi
  obtain ⟨requested, stage⟩ := call
  have hof : ∀ id : SessionName base, requested = some id.1 → s.Registered r id →
      ∃ runtime, s.runtimes[r]? = some runtime ∧ requested = some runtime.id.1 ∧
        s.Registered r runtime.id := by
    intro id hreq hreg
    obtain ⟨runtime, hr, rfl⟩ := hreg.1
    exact ⟨runtime, hr, hreq, hreg⟩
  cases stage with
  | returned r' =>
    cases hr
    obtain ⟨id, hreq, hreg⟩ := hcall
    exact hof id hreq hreg
  | ended r' =>
    cases hr
    obtain ⟨id, hreq, hreg⟩ := hcall
    exact hof id hreq hreg
  | created r' =>
    cases hr
    obtain ⟨id, hreq, hreg⟩ := hcall
    exact hof id hreq hreg
  | turning r' =>
    cases hr
    obtain ⟨runtime, hr, hreq, hreg, -⟩ := hcall
    exact ⟨runtime, hr, hreq, hreg⟩
  | asked => cases hr
  | missing => cases hr
  | opened id => cases hr
  | loaded r' => cases hr
  | refused => cases hr

end AgentDaemon.Daemon.Sessions
