import AgentDaemon.Daemon.Broker
import AgentDaemon.Lib.Text
import AgentDaemon.Lib.Transition

/-!
The approvals of the terminal entry: a queue that is filled from the snapshot of a session and from the
events of its requests, and answered from the front by a key. Of the state only what the queue depends
on is here, and how a key edits the input is a parameter. `clean_iff` says in which runs no approval is
queued twice or again after it was decided.
-/

namespace AgentDaemon.Entry.Tui

open Daemon Transition

/-! ## Keys -/

inductive KeyCode where
  | char (c : Char)
  | f (n : Nat)
  | esc | pageUp | pageDown | home | endKey | up | down | left | right
  | tab | backTab | backspace | delete | enter
  /-- Any other key. -/
  | other (code : Nat)
  deriving DecidableEq, Repr

structure KeyModifiers where
  shift : Bool := false
  control : Bool := false
  alt : Bool := false
  super : Bool := false
  hyper : Bool := false
  metaKey : Bool := false
  deriving DecidableEq, Repr

structure KeyEvent where
  code : KeyCode
  modifiers : KeyModifiers
  deriving DecidableEq, Repr

inductive TuiAction where
  | escape | toggleHelp | pageUp | pageDown | toggleToolDetails | clearInput | clearQueue | cancelTurn
  | previous | next | complete | cursorWordLeft | cursorWordRight | cursorLeft | cursorRight
  | scrollTop | scrollBottom | scrollLineUp | scrollLineDown | cursorLineStart | cursorLineEnd
  | deleteWordLeft | backspace | delete | insertNewline | submit
  deriving DecidableEq, Repr

def plain : KeyModifiers := {}

def ctrl : KeyModifiers := { control := true }

def alt : KeyModifiers := { alt := true }

def shift : KeyModifiers := { shift := true }

/-- `Shortcut::matches`: the shift of a character is in the character. -/
def matchesShortcut (shortcut : KeyCode × KeyModifiers) (event : KeyEvent) : Bool :=
  let modifiers :=
    match shortcut.1 with
    | .char _ => { event.modifiers with shift := false }
    | _ => event.modifiers
  shortcut.1 = event.code && decide (shortcut.2 = modifiers)

def definitions : List (TuiAction × List (KeyCode × KeyModifiers)) :=
  [(.escape, [(.esc, plain)]),
    (.toggleHelp, [(.f 1, plain), (.char '/', ctrl)]),
    (.pageUp, [(.pageUp, plain)]),
    (.pageDown, [(.pageDown, plain)]),
    (.toggleToolDetails, [(.char 't', ctrl)]),
    (.clearInput, [(.char 'u', ctrl)]),
    (.clearQueue, [(.char 'k', ctrl)]),
    (.cancelTurn, [(.char 'c', ctrl)]),
    (.scrollTop, [(.home, ctrl)]),
    (.scrollBottom, [(.endKey, ctrl)]),
    (.scrollLineUp, [(.up, ctrl)]),
    (.scrollLineDown, [(.down, ctrl)]),
    (.cursorWordLeft, [(.left, ctrl), (.left, alt)]),
    (.cursorWordRight, [(.right, ctrl), (.right, alt)]),
    (.cursorLeft, [(.left, plain)]),
    (.cursorRight, [(.right, plain)]),
    (.previous, [(.up, plain)]),
    (.next, [(.down, plain)]),
    (.complete, [(.tab, plain), (.backTab, plain), (.backTab, shift)]),
    (.cursorLineStart, [(.home, plain), (.char 'a', ctrl)]),
    (.cursorLineEnd, [(.endKey, plain), (.char 'e', ctrl)]),
    (.deleteWordLeft, [(.backspace, ctrl), (.backspace, alt), (.char 'w', ctrl)]),
    (.backspace, [(.backspace, plain)]),
    (.delete, [(.delete, plain), (.char 'd', ctrl)]),
    (.insertNewline, [(.enter, alt), (.char 'j', ctrl)]),
    (.submit, [(.enter, plain)])]

def resolve (event : KeyEvent) : Option TuiAction :=
  (definitions.find? fun definition => definition.2.any (matchesShortcut · event)).map Prod.fst

def approvalDecision (event : KeyEvent) : Option Bool :=
  if event.modifiers.control || event.modifiers.alt || event.modifiers.super then none
  else match event.code with
    | .char 'y' | .char 'Y' => some true
    | .char 'n' | .char 'N' | .enter => some false
    | _ => none

/-! ## State -/

/-- `decided` are the approvals that the daemon has answered a decision of. -/
structure TuiState where
  pendingApprovals : List PendingApprovalInfo
  approvalScroll : Nat := 0
  showHelp : Bool := false
  input : String := ""
  shouldQuit : Bool := false
  decided : List InteractionId := []

/-- What comes back for the request that a key makes, if it makes one. -/
inductive Answer where
  /-- `accepted`, also where another client has given the same answer before. -/
  | accepted
  /-- An error: another client has resolved the approval in another way. -/
  | alreadyResolved
  /-- Any other error, or none at all. -/
  | failed
  /-- The session has changed. -/
  | snapshot (pendingApprovals : List PendingApprovalInfo)
  | exit
  | other

inductive Frame where
  /-- An event `approval_required`, and its approval as far as it can be read. -/
  | approvalRequired (approval : Option PendingApprovalInfo)
  | otherEvent
  | response

inductive Event where
  | key (event : KeyEvent) (answer : Answer)
  | frame (turnId : RequestId) (frame : Frame)

def fromSnapshot (pendingApprovals : List PendingApprovalInfo) : TuiState := { pendingApprovals }

namespace TuiState

variable (edit : KeyEvent → String → String) (s : TuiState)

def ids : List InteractionId := s.pendingApprovals.map PendingApprovalInfo.id

def replaceSnapshot (pendingApprovals : List PendingApprovalInfo) : TuiState :=
  { s with pendingApprovals, approvalScroll := 0, showHelp := false }

/-- `respond_to_approval` for the front: an error leaves it where it is. -/
def decide (approval : PendingApprovalInfo) (rest : List PendingApprovalInfo) (answer : Answer) :
    TuiState :=
  match answer with
  | .accepted => { s with pendingApprovals := rest, decided := s.decided ++ [approval.id] }
  | .alreadyResolved => { s with decided := s.decided ++ [approval.id] }
  | _ => s

/-- `submit_input`; the input is restored after an error. -/
def submit (event : KeyEvent) (answer : Answer) : TuiState :=
  match answer with
  | .snapshot pendingApprovals => { s.replaceSnapshot pendingApprovals with input := "" }
  | .exit => { s with input := "", shouldQuit := true }
  | .accepted | .other => { s with input := edit event s.input }
  | .alreadyResolved | .failed => s

/-- A key that no window has taken. -/
def handleFree (event : KeyEvent) (action : Option TuiAction) (answer : Answer) : TuiState :=
  match s.pendingApprovals with
  | approval :: rest =>
    match approvalDecision event with
    | some _ => s.decide approval rest answer
    | none => s
  | [] =>
    if action = some .submit ∧ blank s.input = false then s.submit edit event answer
    else { s with input := edit event s.input }

def handleKey (event : KeyEvent) (answer : Answer) : TuiState :=
  match resolve event with
  | some .escape =>
    if s.showHelp then { s with showHelp := false }
    else if (s.input.toList.dropWhile isWhiteSpace).head? = some '/' then { s with input := "" }
    else { s with shouldQuit := true }
  | some .toggleHelp => { s with showHelp := !s.showHelp }
  | action =>
    if s.showHelp then s
    else match action with
      | some .pageUp =>
        if s.pendingApprovals.isEmpty then s else { s with approvalScroll := s.approvalScroll - 4 }
      | some .pageDown =>
        if s.pendingApprovals.isEmpty then s else { s with approvalScroll := s.approvalScroll + 4 }
      | some .clearInput => { s with input := "" }
      | some .toggleToolDetails | some .clearQueue | some .cancelTurn => s
      | action => s.handleFree edit event action answer

/-- An approval that cannot be read ends the event loop. -/
def handleFrame (turnId : RequestId) : Frame → TuiState
  | .approvalRequired (some approval) =>
    { s with approvalScroll := 0, pendingApprovals := s.pendingApprovals ++ [approval] }
  | .approvalRequired none => { s with approvalScroll := 0, shouldQuit := true }
  | .otherEvent => s
  | .response =>
    { s with
      pendingApprovals := s.pendingApprovals.filter fun approval => approval.requestId ≠ turnId }

end TuiState

/-- One pass of the event loop. -/
def next (edit : KeyEvent → String → String) (s : TuiState) (e : Event) : TuiState :=
  if s.shouldQuit then s
  else match e with
    | .key event answer => s.handleKey edit event answer
    | .frame turnId frame => s.handleFrame turnId frame

/-! ## What is promised -/

/-- No approval is queued twice, and none that was decided is queued. -/
structure Clean (s : TuiState) : Prop where
  once : s.ids.Nodup
  decided : ∀ id ∈ s.decided, id ∉ s.ids

/-- The key is not taken by a window or by an action that comes before the approvals. -/
def free (s : TuiState) (event : KeyEvent) : Bool :=
  match resolve event with
  | some .escape | some .toggleHelp | some .pageUp | some .pageDown | some .clearInput
  | some .toggleToolDetails | some .clearQueue | some .cancelTurn => false
  | _ => !s.showHelp

/-- The key decides the approval at the front. -/
def decides (s : TuiState) (event : KeyEvent) : Bool :=
  free s event && !s.pendingApprovals.isEmpty && (approvalDecision event).isSome

/-- The key submits the input. -/
def submits (s : TuiState) (event : KeyEvent) : Bool :=
  free s event && s.pendingApprovals.isEmpty && resolve event = some .submit && !blank s.input

/-- An approval that an event adds is neither queued nor decided, a new snapshot lists each approval once
and none that was decided, and no decision comes after another client's. -/
def Guarded (s : TuiState) : Event → Prop
  | .frame _ (.approvalRequired (some approval)) =>
    s.shouldQuit = false → approval.id ∉ s.ids ∧ approval.id ∉ s.decided
  | .key event .alreadyResolved => s.shouldQuit = false → decides s event = false
  | .key event (.snapshot pendingApprovals) =>
    s.shouldQuit = false → submits s event = true →
      (pendingApprovals.map PendingApprovalInfo.id).Nodup ∧
        ∀ id ∈ s.decided, id ∉ pendingApprovals.map PendingApprovalInfo.id
  | _ => True

instance (s : TuiState) : (e : Event) → Decidable (Guarded s e)
  | .frame _ (.approvalRequired (some _)) => inferInstanceAs (Decidable (_ → _ ∧ _))
  | .frame _ (.approvalRequired none) => isTrue trivial
  | .frame _ .otherEvent => isTrue trivial
  | .frame _ .response => isTrue trivial
  | .key _ .alreadyResolved => inferInstanceAs (Decidable (_ → _))
  | .key _ (.snapshot _) => inferInstanceAs (Decidable (_ → _ → _ ∧ _))
  | .key _ .accepted => isTrue trivial
  | .key _ .failed => isTrue trivial
  | .key _ .exit => isTrue trivial
  | .key _ .other => isTrue trivial

/-! ## Steps -/

section Steps

variable {edit : KeyEvent → String → String} {s : TuiState}

/-- The part of the state that the approvals are in. -/
structure SameQueue (s s' : TuiState) : Prop where
  pendingApprovals : s'.pendingApprovals = s.pendingApprovals
  decided : s'.decided = s.decided

theorem handleKey_free {event : KeyEvent} (h : free s event = true) (answer : Answer) :
    s.handleKey edit event answer = s.handleFree edit event (resolve event) answer := by
  unfold free at h
  unfold TuiState.handleKey
  cases hresolve : resolve event with
  | none =>
    rw [hresolve] at h
    simp_all
  | some action =>
    rw [hresolve] at h
    cases action <;> simp_all

theorem handleKey_taken {event : KeyEvent} (h : free s event = false) (answer : Answer) :
    SameQueue s (s.handleKey edit event answer) := by
  unfold free at h
  unfold TuiState.handleKey
  cases hresolve : resolve event with
  | none =>
    rw [hresolve] at h
    have hhelp : s.showHelp = true := by simpa using h
    dsimp only
    rw [if_pos hhelp]
    exact ⟨rfl, rfl⟩
  | some action =>
    rw [hresolve] at h
    cases action with
    | escape =>
      dsimp only
      split
      · exact ⟨rfl, rfl⟩
      · split <;> exact ⟨rfl, rfl⟩
    | toggleHelp => exact ⟨rfl, rfl⟩
    | pageUp | pageDown =>
      dsimp only
      split
      · exact ⟨rfl, rfl⟩
      · split <;> exact ⟨rfl, rfl⟩
    | clearInput | toggleToolDetails | clearQueue | cancelTurn =>
      dsimp only
      split <;> exact ⟨rfl, rfl⟩
    | _ =>
      have hhelp : s.showHelp = true := by simpa using h
      dsimp only
      rw [if_pos hhelp]
      exact ⟨rfl, rfl⟩

/-- A key edits the input unless an approval is at the front. -/
theorem input_handleKey {event : KeyEvent} (hfree : free s event = true)
    (hsubmit : resolve event ≠ some .submit) (answer : Answer) :
    (s.handleKey edit event answer).input =
      if s.pendingApprovals.isEmpty then edit event s.input else s.input := by
  rw [handleKey_free hfree, TuiState.handleFree]
  cases s.pendingApprovals with
  | nil => rw [if_neg fun h => hsubmit h.1, List.isEmpty_nil, if_pos rfl]
  | cons approval rest =>
    dsimp only
    cases approvalDecision event with
    | none => rfl
    | some approved => cases answer <;> rfl

/-- What a key does to the queue: it decides the front, submits the input, or nothing. -/
theorem handleKey_cases (event : KeyEvent) (answer : Answer) :
    (decides s event = true ∧ ∃ approval rest, s.pendingApprovals = approval :: rest ∧
        s.handleKey edit event answer = s.decide approval rest answer) ∨
      (submits s event = true ∧ s.handleKey edit event answer = s.submit edit event answer) ∨
        (decides s event = false ∧ submits s event = false ∧
          SameQueue s (s.handleKey edit event answer)) := by
  cases hfree : free s event with
  | false =>
    refine .inr (.inr ⟨?_, ?_, handleKey_taken hfree answer⟩)
    · rw [decides, hfree]
      rfl
    · rw [submits, hfree]
      rfl
  | true =>
    rw [handleKey_free hfree, TuiState.handleFree]
    cases hpending : s.pendingApprovals with
    | nil =>
      have hdecides : decides s event = false := by simp [decides, hpending]
      dsimp only
      split
      · rename_i hsubmit
        refine .inr (.inl ⟨?_, rfl⟩)
        simp [submits, hfree, hpending, hsubmit]
      · rename_i hsubmit
        refine .inr (.inr ⟨hdecides, ?_, ⟨hpending.symm, rfl⟩⟩)
        cases hs : submits s event with
        | false => rfl
        | true =>
          refine absurd ?_ hsubmit
          simpa [submits, hfree, hpending] using hs
    | cons approval rest =>
      have hsubmits : submits s event = false := by simp [submits, hpending]
      dsimp only
      cases hdecision : approvalDecision event with
      | some approved =>
        refine .inl ⟨?_, approval, rest, rfl, rfl⟩
        simp [decides, hfree, hpending, hdecision]
      | none =>
        refine .inr (.inr ⟨?_, hsubmits, ⟨rfl, rfl⟩⟩)
        simp [decides, hdecision]

theorem SameQueue.clean_congr {s' : TuiState} (h : SameQueue s s') : Clean s' ↔ Clean s := by
  have hids : s'.ids = s.ids := congrArg (List.map PendingApprovalInfo.id) h.pendingApprovals
  constructor
  · intro hclean
    exact ⟨hids ▸ hclean.once, fun id hid => hids ▸ hclean.decided id (h.decided ▸ hid)⟩
  · intro hclean
    exact ⟨hids ▸ hclean.once, fun id hid => hids ▸ hclean.decided id (h.decided ▸ hid)⟩

/-- What is at the front of a clean queue, and keeps the keys from the input, was not decided. -/
theorem Clean.front (h : Clean s) {approval : PendingApprovalInfo}
    (hfront : s.pendingApprovals.head? = some approval) : approval.id ∉ s.decided := by
  intro hid
  exact h.decided approval.id hid (List.mem_map_of_mem (List.mem_of_head? hfront))

/-- A decision keeps the queue clean exactly if no other client's came before. -/
theorem clean_decide_iff (h : Clean s) {approval : PendingApprovalInfo}
    {rest : List PendingApprovalInfo} (hpending : s.pendingApprovals = approval :: rest)
    (answer : Answer) : Clean (s.decide approval rest answer) ↔ answer ≠ .alreadyResolved := by
  have hids : s.ids = approval.id :: rest.map PendingApprovalInfo.id := by
    rw [TuiState.ids, hpending, List.map_cons]
  cases answer with
  | accepted =>
    refine iff_of_true ?_ nofun
    have honce := h.once
    rw [hids, List.nodup_cons] at honce
    refine ⟨honce.2, fun id hid => ?_⟩
    rcases List.mem_append.mp hid with hid | hid
    · have hnot := h.decided id hid
      rw [hids, List.mem_cons, not_or] at hnot
      exact hnot.2
    · rw [List.mem_singleton.mp hid]
      exact honce.1
  | alreadyResolved =>
    refine iff_of_false (fun hclean => ?_) fun hne => hne rfl
    refine hclean.decided approval.id (List.mem_append_right _ (List.mem_singleton_self _)) ?_
    show approval.id ∈ s.ids
    rw [hids]
    exact List.mem_cons_self
  | failed | snapshot _ | exit | other => exact iff_of_true h nofun

theorem clean_submit_iff (h : Clean s) (event : KeyEvent) (answer : Answer) :
    Clean (s.submit edit event answer) ↔ ∀ pendingApprovals, answer = .snapshot pendingApprovals →
      (pendingApprovals.map PendingApprovalInfo.id).Nodup ∧
        ∀ id ∈ s.decided, id ∉ pendingApprovals.map PendingApprovalInfo.id := by
  cases answer with
  | snapshot pendingApprovals =>
    constructor
    · rintro hclean _ ⟨⟩
      exact ⟨hclean.once, hclean.decided⟩
    · intro hsnapshot
      exact ⟨(hsnapshot pendingApprovals rfl).1, (hsnapshot pendingApprovals rfl).2⟩
  | _ => exact iff_of_true ⟨h.once, h.decided⟩ nofun

theorem clean_push_iff (h : Clean s) (turnId : RequestId) (approval : PendingApprovalInfo) :
    Clean (s.handleFrame turnId (.approvalRequired (some approval))) ↔
      approval.id ∉ s.ids ∧ approval.id ∉ s.decided := by
  have hids : (s.handleFrame turnId (.approvalRequired (some approval))).ids =
      s.ids ++ [approval.id] := List.map_append
  constructor
  · intro hclean
    have honce := hclean.once
    rw [hids, List.nodup_append] at honce
    refine ⟨fun hm => ?_, fun hm => ?_⟩
    · exact honce.2.2 approval.id hm approval.id (List.mem_singleton_self _) rfl
    · refine hclean.decided approval.id hm ?_
      rw [hids]
      exact List.mem_append_right _ (List.mem_singleton_self _)
  · rintro ⟨hids', hdecided⟩
    refine ⟨?_, fun id hid hm => ?_⟩
    · rw [hids, List.nodup_append]
      refine ⟨h.once, List.nodup_singleton _, fun id hid id' hid' he => ?_⟩
      rw [he, List.mem_singleton.mp hid'] at hid
      exact hids' hid
    · rw [hids] at hm
      rcases List.mem_append.mp hm with hm | hm
      · exact h.decided id hid hm
      · rw [List.mem_singleton.mp hm] at hid
        exact hdecided hid

theorem clean_response (h : Clean s) (turnId : RequestId) :
    Clean (s.handleFrame turnId .response) := by
  have hsub : (s.handleFrame turnId .response).ids.Sublist s.ids := List.filter_sublist.map _
  exact ⟨h.once.sublist hsub, fun id hid hm => h.decided id hid (hsub.subset hm)⟩

/-- The guard of a key, while the loop goes on. -/
theorem guarded_key_iff (hquit : s.shouldQuit = false) (event : KeyEvent) (answer : Answer) :
    Guarded s (.key event answer) ↔ (answer = .alreadyResolved → decides s event = false) ∧
      ∀ pendingApprovals, answer = .snapshot pendingApprovals → submits s event = true →
        (pendingApprovals.map PendingApprovalInfo.id).Nodup ∧
          ∀ id ∈ s.decided, id ∉ pendingApprovals.map PendingApprovalInfo.id := by
  cases answer with
  | alreadyResolved =>
    exact ⟨fun h => ⟨fun _ => h hquit, nofun⟩, fun h _ => h.1 rfl⟩
  | snapshot pendingApprovals =>
    constructor
    · intro h
      refine ⟨nofun, ?_⟩
      rintro _ ⟨⟩ hsubmits
      exact h hquit hsubmits
    · intro h _ hsubmits
      exact h.2 pendingApprovals rfl hsubmits
  | _ => exact iff_of_true trivial ⟨nofun, nofun⟩

theorem clean_handleKey_iff (h : Clean s) (hquit : s.shouldQuit = false) (event : KeyEvent)
    (answer : Answer) : Clean (s.handleKey edit event answer) ↔ Guarded s (.key event answer) := by
  rw [guarded_key_iff hquit]
  obtain ⟨hdecides, approval, rest, hpending, hkey⟩ | ⟨hsubmits, hkey⟩ | ⟨hdecides, hsubmits, hkey⟩ :=
    @handleKey_cases edit s event answer
  · have hsubmits : submits s event = false := by simp [submits, hpending]
    rw [hkey, clean_decide_iff h hpending, hdecides, hsubmits]
    simp
  · have hdecides : decides s event = false := by
      simp only [submits, Bool.and_eq_true] at hsubmits
      simp [decides, hsubmits.1.1.2]
    rw [hkey, clean_submit_iff h, hdecides, hsubmits]
    simp
  · rw [hkey.clean_congr, hdecides, hsubmits]
    simp [h]

/-- A step keeps the queue clean exactly if it is guarded. -/
theorem clean_next_iff (h : Clean s) (e : Event) : Clean (next edit s e) ↔ Guarded s e := by
  unfold next
  cases hquit : s.shouldQuit with
  | true =>
    rw [if_pos rfl]
    refine iff_of_true h ?_
    cases e with
    | key event answer =>
      cases answer with
      | alreadyResolved | snapshot _ =>
        intro hgo
        cases hquit.symm.trans hgo
      | _ => trivial
    | frame turnId frame =>
      cases frame with
      | approvalRequired approval =>
        cases approval with
        | some approval =>
          intro hgo
          cases hquit.symm.trans hgo
        | none => trivial
      | _ => trivial
  | false =>
    rw [if_neg Bool.false_ne_true]
    cases e with
    | key event answer => exact clean_handleKey_iff h hquit event answer
    | frame turnId frame =>
      cases frame with
      | approvalRequired approval =>
        cases approval with
        | some approval =>
          exact (clean_push_iff h turnId approval).trans ⟨fun hg _ => hg, fun hg => hg hquit⟩
        | none => exact iff_of_true ⟨h.once, h.decided⟩ trivial
      | otherEvent => exact iff_of_true h trivial
      | response => exact iff_of_true (clean_response h turnId) trivial

end Steps

/-- **The approval queue.** The queue is clean all along a run exactly if the snapshot lists each approval
once and every step is guarded. -/
theorem clean_iff (edit : KeyEvent → String → String) (pendingApprovals : List PendingApprovalInfo)
    (l : List Event) :
    (∀ pre, pre <+: l → Clean (after (next edit) (fromSnapshot pendingApprovals) pre)) ↔
      (pendingApprovals.map PendingApprovalInfo.id).Nodup ∧
        Along (next edit) Guarded (fromSnapshot pendingApprovals) l := by
  have hstart : Clean (fromSnapshot pendingApprovals) ↔
      (pendingApprovals.map PendingApprovalInfo.id).Nodup :=
    ⟨fun h => h.once, fun h => ⟨h, fun _ hid => nomatch hid⟩⟩
  have hrun : Clean (fromSnapshot pendingApprovals) → ((∀ pre, pre <+: l →
      Clean (after (next edit) (fromSnapshot pendingApprovals) pre)) ↔
        Along (next edit) Guarded (fromSnapshot pendingApprovals) l) := fun h =>
    forall_prefix_iff_along (G := Guarded) (I := fun _ => True) (P := Clean) (fun _ _ _ => trivial)
      (fun _ e _ hclean => (clean_next_iff hclean e).mpr)
      (fun _ e _ hclean hguard hclean' => hguard ((clean_next_iff hclean e).mp hclean')) trivial h l
  constructor
  · intro h
    have hclean := h [] (List.nil_prefix)
    exact ⟨hstart.mp hclean, (hrun hclean).mp h⟩
  · rintro ⟨hnodup, hl⟩
    exact (hrun (hstart.mpr hnodup)).mpr hl

/-- The event of an approval that the snapshot has listed, as a subscription replays it. -/
theorem not_clean_replayed : ¬ ∀ (edit : KeyEvent → String → String)
    (pendingApprovals : List PendingApprovalInfo) (l : List Event),
    (pendingApprovals.map PendingApprovalInfo.id).Nodup →
      Clean (after (next edit) (fromSnapshot pendingApprovals) l) := by
  intro h
  have hclean := h (fun _ input => input) [⟨⟨"approval-1"⟩, .number 1, "rm"⟩]
    [.frame (.number 1) (.approvalRequired (some ⟨⟨"approval-1"⟩, .number 1, "rm"⟩))] (by decide)
  exact absurd hclean.once (by decide)

end AgentDaemon.Entry.Tui
