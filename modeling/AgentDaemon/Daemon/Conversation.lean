import AgentDaemon.Daemon.Actions
import AgentDaemon.Engine.Replies
import AgentDaemon.Session.Log

/-!
The run store and the session files together. The turn of a chat appends to the file of its session
and returns, the chat then commits the outcome to the store, and the process may end between any
two steps or in the middle of an append. A run that the store shows as completed, and that was not
resolved by hand, has its reply in the file of its session, behind its input (`replied_after`).
-/

namespace AgentDaemon.Daemon

open Provider Storage Engine Transition

variable {Value : Type}

/-- What the daemon uses of `serde_json` and `anyhow`. -/
structure Formats (Value : Type) where
  json : Serde Value
  printer : Printer Value
  messages : Codec (Message Value)
  /-- `{error:#}`. -/
  error : EngineError → String

/-- How `handle_chat_send` reads what its turn returns. -/
def engineResult (formats : Formats Value) : Except EngineError String → EngineResult
  | .ok text => .content text
  | .error (.runtime .cancelled) => .cancelled
  | .error error => .error (formats.error error)

/-- The turn of a chat. `state.session` is what it has appended to the session file. -/
structure ChatTurn (Value : Type) where
  engine : Engine.LoopEngine Value
  state : TurnState Value

/-- What a `handle_chat_send` has besides its `Chat`: its session, its message, and the turn it has
begun. -/
structure Talk (Value : Type) where
  sessionId : SessionId
  message : String
  turn : Option (ChatTurn Value) := none

/-- The turn has not returned, and holds the history and the turn lock of the session. -/
def Talk.talking (talk : Talk Value) : Bool := talk.turn.any fun turn => turn.state.result.isNone

/-- `histories` are those of the sessions that the process has opened; there is a talk for each
chat. -/
structure Conversation (Value : Type) where
  daemon : DaemonState
  files : SessionId → Option (List UInt8)
  histories : SessionId → Option (List (Message Value))
  talks : List (Talk Value)

/-- A file at the end of a process or of an append that fails: as it was, or with some bytes of
what was to be written. -/
def tear (file : Option (List UInt8)) : Option (List UInt8) → Option (List UInt8)
  | none => file
  | some torn => Session.crash file torn

namespace Conversation

inductive Event (Value : Type) where
  | openSession (sessionId : SessionId)
  | daemon (a : DaemonAction)
  /-- Chat `i` gets the locks of its session and begins its turn. `torn` is what an append that
  fails leaves of its line. -/
  | beginTurn (i : Nat) (engine : Engine.LoopEngine Value) (input : TurnInput)
      (torn : Option (List UInt8))
  | turnRound (i : Nat) (input : RoundInput Value) (torn : Option (List UInt8))
  /-- The process ends, in the middle of some appends, and another one starts. -/
  | restart (clock : Clock) (torn : SessionId → Option (List UInt8))

/-- The run that is resolved by hand. -/
def Event.resolves : Event Value → Option RunId
  | .daemon (.client op) => op.reconciles
  | _ => none

section Steps

variable (formats : Formats Value) (k : Conversation Value)

/-- A turn of the session has not returned. -/
def locked (sessionId : SessionId) : Bool :=
  k.talks.any fun talk => talk.sessionId = sessionId && talk.talking

/-- `session_runtime`: the history is loaded once. -/
def openSession (sessionId : SessionId) : Conversation Value :=
  match k.histories sessionId, Session.load formats.messages (k.files sessionId) with
  | none, .ok history => { k with histories := Function.update k.histories sessionId (some history) }
  | _, _ => k

/-- The file after the appends that bring a turn to the state `s`. -/
def fileAt (file : Option (List UInt8)) (appended : List (Message Value)) (s : TurnState Value)
    (torn : Option (List UInt8)) : Option (List UInt8) :=
  let file := (s.session.drop appended.length).foldl (Session.append formats.messages) file
  match s.result with
  | some (.error _) => tear file torn
  | _ => file

/-- The turn of talk `i` comes to the state `s`. -/
def proceed (i : Nat) (talk : Talk Value) (turn : ChatTurn Value) (s : TurnState Value)
    (torn : Option (List UInt8)) : Conversation Value :=
  { k with
    files := Function.update k.files talk.sessionId
      (fileAt formats (k.files talk.sessionId) turn.state.session s torn)
    histories := Function.update k.histories talk.sessionId (some s.history)
    talks := k.talks.set i { talk with turn := some { turn with state := s } } }

/-- The engine of a session has its file, and tells the store of its tools. -/
def beginTurn (i : Nat) (engine : Engine.LoopEngine Value) (input : TurnInput)
    (torn : Option (List UInt8)) : Conversation Value :=
  match k.daemon.chats[i]?, k.talks[i]? with
  | some chat, some talk =>
    if chat.stage = .running ∧ talk.turn.isNone = true ∧ k.locked talk.sessionId = false then
      let engine := { engine with session := true, audit := some chat.runId }
      let history := (k.histories talk.sessionId).getD []
      k.proceed formats i talk ⟨engine, { history, session := [] }⟩
        (Engine.beginTurn engine { input with input := talk.message } history []) torn
    else k
  | _, _ => k

def turnRound (i : Nat) (input : RoundInput Value) (torn : Option (List UInt8)) :
    Conversation Value :=
  match k.talks[i]? with
  | some talk =>
    match talk.turn with
    | some turn =>
      if turn.state.result.isSome then k
      else k.proceed formats i talk turn
        (Engine.turnRound formats.json formats.printer turn.engine turn.state input) torn
    | none => k
  | none => k

/-- What the turn of chat `i` has returned. -/
def result? (i : Nat) : Option EngineResult := do
  let talk ← k.talks[i]?
  let turn ← talk.turn
  engineResult formats <$> turn.state.result

/-- An action of the daemon. A session is opened before a message to it is admitted, and a chat
waits for its turn. -/
def act (a : DaemonAction) : Conversation Value :=
  match a with
  | .chat key message _ _ _ =>
    if (k.histories key.sessionId).isNone then k
    else
      let daemon := k.daemon.next a
      let admitted := daemon.chats.length ≠ k.daemon.chats.length
      { k with
        daemon
        talks := if admitted then k.talks ++ [⟨key.sessionId, message, none⟩] else k.talks }
  | .advance i env =>
    if (k.daemon.chats[i]?).any fun chat => chat.stage = .running then
      match k.result? formats i with
      | none => k
      | some result => { k with daemon := k.daemon.next (.advance i { env with result }) }
    else { k with daemon := k.daemon.next a }
  | _ => { k with daemon := k.daemon.next a }

/-- The appends that have returned and the store are kept. -/
def restart (clock : Clock) (torn : SessionId → Option (List UInt8)) : Conversation Value where
  daemon := ⟨k.daemon.store.next (.recover clock), [], [], [], [], none⟩
  files := fun sessionId => tear (k.files sessionId) (torn sessionId)
  histories := fun _ => none
  talks := []

def next : Event Value → Conversation Value
  | .openSession sessionId => k.openSession formats sessionId
  | .daemon a => k.act formats a
  | .beginTurn i engine input torn => k.beginTurn formats i engine input torn
  | .turnRound i input torn => k.turnRound formats i input torn
  | .restart clock torn => k.restart clock torn

end Steps

/-- A first process, in a workspace that may have session files. -/
def start (files : SessionId → Option (List UInt8)) : Conversation Value :=
  ⟨⟨.empty, [], [], [], [], none⟩, files, fun _ => none, []⟩

def afterEvents (formats : Formats Value) (files : SessionId → Option (List UInt8))
    (events : List (Event Value)) : Conversation Value :=
  after (next formats) (start files) events

/-- What the file of a session holds. -/
def bytes (k : Conversation Value) (sessionId : SessionId) : List UInt8 :=
  (k.files sessionId).getD []

end Conversation

/-! ## What a file holds -/

section Files

variable {codec : Codec (Message Value)} {formats : Formats Value} {bytes bytes' : List UInt8}
  {message content : String}

/-- The message of the user is in the file, and what follows it ends with a line. -/
def Asked (codec : Codec (Message Value)) (bytes : List UInt8) (message : String) : Prop :=
  ∃ front middle, bytes = front ++ codec.record (.text .user message) ++ middle ∧
    middle.getLast?.all (· = 10) = true

/-- The message of the user is in the file, and behind it on a line of its own the answer of the
assistant. -/
def Replied (codec : Codec (Message Value)) (bytes : List UInt8) (message content : String) :
    Prop :=
  ∃ front middle thinking back, bytes = front ++ codec.record (.text .user message) ++ middle ++
      codec.record (.assistantWithThinking content thinking) ++ back ∧
    middle.getLast?.all (· = 10) = true

/-- What is in the file stays there. -/
theorem Replied.mono (h : Replied codec bytes message content) (hgrown : bytes <+: bytes') :
    Replied codec bytes' message content := by
  obtain ⟨front, middle, thinking, back, rfl, hmiddle⟩ := h
  obtain ⟨more, rfl⟩ := hgrown
  exact ⟨front, middle, thinking, back ++ more, List.append_assoc .., hmiddle⟩

theorem asked_record (codec : Codec (Message Value)) (bytes : List UInt8) (message : String) :
    Asked codec (bytes ++ codec.log [.text .user message]) message := by
  refine ⟨bytes, [], ?_, rfl⟩
  rw [Codec.log, List.flatMap_singleton, List.append_nil]

theorem Asked.log (h : Asked codec bytes message) (messages : List (Message Value)) :
    Asked codec (bytes ++ codec.log messages) message := by
  obtain ⟨front, middle, rfl, hmiddle⟩ := h
  refine ⟨front, middle ++ codec.log messages, List.append_assoc .., ?_⟩
  by_cases hne : messages = []
  · rw [hne, show codec.log [] = [] from rfl, List.append_nil]
    exact hmiddle
  · rw [Session.getLast?_log _ hne]
    rfl

theorem Asked.reply (h : Asked codec bytes message) (content : String) (thinking : Option String) :
    Replied codec (bytes ++ codec.log [.assistantWithThinking content thinking]) message content := by
  obtain ⟨front, middle, rfl, hmiddle⟩ := h
  refine ⟨front, middle, thinking, [], ?_, hmiddle⟩
  rw [Codec.log, List.flatMap_singleton, List.append_nil]

theorem getD_tear (file torn : Option (List UInt8)) :
    (tear file torn).getD [] = file.getD [] ++ torn.getD [] := by
  cases torn with
  | none => exact (List.append_nil _).symm
  | some torn => rfl

theorem getD_append (file : Option (List UInt8)) (messages : List (Message Value)) :
    (messages.foldl (Session.append codec) file).getD [] = file.getD [] ++ codec.log messages := by
  cases file with
  | none => exact Session.getD_foldl_append messages
  | some bytes => rw [Session.foldl_append, Option.getD_some, Option.getD_some]

/-- The appends of a step, and behind them what is left of one that has failed. -/
theorem getD_fileAt (formats : Formats Value) (file : Option (List UInt8))
    (appended : List (Message Value)) (s : TurnState Value) (torn : Option (List UInt8)) :
    ∃ rest, (Conversation.fileAt formats file appended s torn).getD [] =
        file.getD [] ++ formats.messages.log (s.session.drop appended.length) ++ rest ∧
      ((∀ error, s.result ≠ some (.error error)) → rest = []) := by
  unfold Conversation.fileAt
  dsimp only
  split
  · rename_i error hresult
    refine ⟨torn.getD [], ?_, fun hno => absurd hresult (hno error)⟩
    rw [getD_tear, getD_append]
  · refine ⟨[], ?_, fun _ => rfl⟩
    rw [List.append_nil, getD_append]

end Files

/-! ## The talks -/

/-- What the file of its session holds of a talk. -/
structure Talk.Sound (codec : Codec (Message Value)) (bytes : List UInt8) (talk : Talk Value) :
    Prop where
  session : ∀ turn, talk.turn = some turn → turn.engine.session = true
  asked : ∀ turn, talk.turn = some turn → turn.state.result = none →
    Asked codec bytes talk.message
  replied : ∀ turn, talk.turn = some turn → ∀ text, turn.state.result = some (.ok text) →
    Replied codec bytes talk.message text

section Talks

variable {codec : Codec (Message Value)} {formats : Formats Value} {bytes bytes' : List UInt8}
  {talk : Talk Value} {turn : ChatTurn Value}

theorem Talk.talking_eq_true (h : talk.turn = some turn) (hr : turn.state.result = none) :
    talk.talking = true := by
  rw [Talk.talking, h, Option.any_some, hr]
  rfl

/-- A talk whose turn is not under way keeps what the file holds of it. -/
theorem Talk.Sound.mono (h : talk.Sound codec bytes) (hquiet : talk.talking = false)
    (hgrown : bytes <+: bytes') : talk.Sound codec bytes' where
  session := h.session
  asked turn hturn hr := by
    rw [Talk.talking_eq_true hturn hr] at hquiet
    cases hquiet
  replied turn hturn text hr := (h.replied turn hturn text hr).mono hgrown

theorem sound_new (bytes : List UInt8) (sessionId : SessionId) (message : String) :
    Talk.Sound codec bytes ⟨sessionId, message, none⟩ where
  session := by rintro turn ⟨⟩
  asked := by rintro turn ⟨⟩
  replied := by rintro turn ⟨⟩

/-- A turn that begins has its message in the file, or ends at once. -/
theorem sound_beginTurn {engine : Engine.LoopEngine Value} (he : engine.session = true)
    (input : TurnInput) (history : List (Message Value)) (torn : Option (List UInt8))
    (file : Option (List UInt8)) (sessionId : SessionId) :
    Talk.Sound formats.messages ((Conversation.fileAt formats file []
        (Engine.beginTurn engine input history []) torn).getD [])
      ⟨sessionId, input.input, some ⟨engine, Engine.beginTurn engine input history []⟩⟩ where
  session := by
    rintro turn ⟨⟩
    exact he
  asked := by
    rintro turn ⟨⟩ hr
    obtain ⟨rest, hfile, hrest⟩ := getD_fileAt formats file []
      (Engine.beginTurn engine input history []) torn
    rcases beginTurn_tells he input history with ⟨hsession, -⟩ | ⟨error, herror⟩
    · have hno : ∀ error, (Engine.beginTurn engine input history []).result ≠
          some (.error error) := by
        intro error h
        cases hr.symm.trans h
      rw [hfile, hrest hno, List.append_nil, hsession]
      exact asked_record formats.messages (file.getD []) input.input
    · cases hr.symm.trans herror
  replied := by
    rintro turn ⟨⟩ text hr
    rcases beginTurn_tells he input history with ⟨-, hnone⟩ | ⟨error, herror⟩
    · cases hr.symm.trans hnone
    · cases hr.symm.trans herror

/-- A round keeps what the file holds of its turn. -/
theorem Talk.Sound.round {file : Option (List UInt8)}
    (h : talk.Sound formats.messages (file.getD [])) (hturn : talk.turn = some turn)
    (hr : turn.state.result = none) {s : TurnState Value} (hs : s.Tells turn.state.session)
    (torn : Option (List UInt8)) :
    Talk.Sound formats.messages
      ((Conversation.fileAt formats file turn.state.session s torn).getD [])
      { talk with turn := some { turn with state := s } } := by
  have hasked := h.asked turn hturn hr
  obtain ⟨rest, hfile, hrest⟩ := getD_fileAt formats file turn.state.session s torn
  refine ⟨?_, ?_, ?_⟩
  · rintro _ ⟨⟩
    exact h.session turn hturn
  · rintro _ ⟨⟩ hnone
    have hno : ∀ error, s.result ≠ some (.error error) := by
      intro error he
      cases hnone.symm.trans he
    rw [hfile, hrest hno, List.append_nil]
    exact hasked.log _
  · rintro _ ⟨⟩ text htext
    rcases hs with ⟨-, hsilent⟩ | ⟨text', thinking, hsession, hresult⟩
    · exact absurd htext (hsilent text)
    · cases htext.symm.trans hresult
      have hno : ∀ error, s.result ≠ some (.error error) := by
        intro error he
        cases hresult.symm.trans he
      rw [hfile, hrest hno, List.append_nil, hsession, List.drop_left]
      exact hasked.reply text thinking

end Talks

/-! ## The invariant -/

/-- What the store and the files have in common about the run `id`. -/
structure Confirming (formats : Formats Value) (id : RunId) (k : Conversation Value) : Prop where
  registry : Registry k.daemon
  paired : k.talks.length = k.daemon.chats.length
  /-- A chat has the message that its run was made for. -/
  matched : ∀ (i : Nat) chat talk, k.daemon.chats[i]? = some chat → k.talks[i]? = some talk →
    k.daemon.store.head? chat.runId =
      some ⟨chat.runId, talk.sessionId, chat.key.requestId, talk.message⟩
  sound : ∀ talk ∈ k.talks, talk.Sound formats.messages (k.bytes talk.sessionId)
  /-- The locks of a session belong to one chat. -/
  alone : ∀ (i j : Nat) talk talk', k.talks[i]? = some talk → k.talks[j]? = some talk' →
    talk.sessionId = talk'.sessionId → talk.talking = true → talk'.talking = true → i = j
  committing : ∀ (i : Nat) chat talk content error, k.daemon.chats[i]? = some chat →
    k.talks[i]? = some talk → chat.stage = .committing .completed content error →
      ∃ text, content = some text ∧
        Replied formats.messages (k.bytes talk.sessionId) talk.message text
  completed : ∀ v x content, k.daemon.store.verdict? id = some v → v.status = .completed →
    v.content = some content → k.daemon.store.head? id = some x →
      Replied formats.messages (k.bytes x.sessionId) x.input content

section Invariant

variable {formats : Formats Value} {id : RunId} {k k' : Conversation Value}

/-- Without a chat, only the store counts. -/
theorem confirming_idle {store : RunStore} {files : SessionId → Option (List UInt8)}
    {histories : SessionId → Option (List (Message Value))} (hstored : ∃ ops, store = storeAfter ops)
    (hcompleted : ∀ v x content, store.verdict? id = some v → v.status = .completed →
      v.content = some content → store.head? id = some x →
        Replied formats.messages ((files x.sessionId).getD []) x.input content) :
    Confirming formats id ⟨⟨store, [], [], [], [], none⟩, files, histories, []⟩ where
  registry :=
    { stored := hstored
      known := by simp
      concluded := by simp
      nodup := List.nodup_nil
      entry := by simp
      held := by simp }
  paired := rfl
  matched := by simp
  sound := by simp
  alone := by simp
  committing := by simp
  completed := hcompleted

theorem confirming_start (files : SessionId → Option (List UInt8)) :
    Confirming formats id (.start files) := by
  refine confirming_idle ⟨[], rfl⟩ ?_
  intro v x content hv
  cases hv

theorem Confirming.exists_talk (h : Confirming formats id k) {i : Nat} {chat : Chat}
    (hi : k.daemon.chats[i]? = some chat) : ∃ talk, k.talks[i]? = some talk := by
  have hlt : i < k.talks.length := by
    rw [h.paired]
    exact Slots.lt_of_some hi
  exact ⟨_, List.getElem?_eq_getElem hlt⟩

/-- A run that was completed before a call of the store keeps its reply. -/
theorem Confirming.confirmed (h : Confirming formats id k) (op : Op)
    (files : SessionId → Option (List UInt8))
    (hgrown : ∀ sessionId, k.bytes sessionId <+: (files sessionId).getD []) {v : Verdict} {x : Head}
    {content : String} (hv : k.daemon.store.verdict? id = some v) (hst : v.status = .completed)
    (hc : v.content = some content) (hx : (k.daemon.store.next op).head? id = some x) :
    Replied formats.messages ((files x.sessionId).getD []) x.input content := by
  obtain ⟨x', hx'⟩ := RunStore.exists_head? hv
  cases (RunStore.head?_next hx' op).symm.trans hx
  exact (h.completed v x content hv hst hc hx').mono (hgrown _)

theorem Confirming.restart (h : Confirming formats id k) (clock : Clock)
    (torn : SessionId → Option (List UInt8)) : Confirming formats id (k.restart clock torn) := by
  obtain ⟨ops, hstored⟩ := h.registry.stored
  refine confirming_idle ⟨ops ++ [.recover clock], ?_⟩ ?_
  · rw [hstored, storeAfter_append]
    rfl
  · intro v x content hv hst hc hx
    have hold := completed_of_other (show (Op.recover clock).completes = none from rfl) hv hst
    refine h.confirmed (.recover clock) (k.restart clock torn).files ?_ hold hst hc hx
    intro sessionId
    rw [Conversation.restart, getD_tear]
    exact List.prefix_append _ _

theorem Confirming.openSession (h : Confirming formats id k) (sessionId : SessionId) :
    Confirming formats id (k.openSession formats sessionId) := by
  unfold Conversation.openSession
  split
  · exact ⟨h.registry, h.paired, h.matched, h.sound, h.alone, h.committing, h.completed⟩
  · exact h

/-! ## Turns -/

theorem bytes_proceed_self (i : Nat) (talk : Talk Value) (turn : ChatTurn Value)
    (s : TurnState Value) (torn : Option (List UInt8)) :
    (k.proceed formats i talk turn s torn).bytes talk.sessionId =
      (Conversation.fileAt formats (k.files talk.sessionId) turn.state.session s torn).getD [] := by
  simp [Conversation.proceed, Conversation.bytes]

theorem bytes_proceed_ne {i : Nat} {talk : Talk Value} {turn : ChatTurn Value}
    {s : TurnState Value} {torn : Option (List UInt8)} {sessionId : SessionId}
    (hne : sessionId ≠ talk.sessionId) :
    (k.proceed formats i talk turn s torn).bytes sessionId = k.bytes sessionId := by
  simp [Conversation.proceed, Conversation.bytes, hne]

/-- The files only grow. -/
theorem bytes_proceed (i : Nat) (talk : Talk Value) (turn : ChatTurn Value)
    (s : TurnState Value) (torn : Option (List UInt8)) (sessionId : SessionId) :
    k.bytes sessionId <+: (k.proceed formats i talk turn s torn).bytes sessionId := by
  by_cases hne : sessionId = talk.sessionId
  · subst hne
    obtain ⟨rest, hfile, -⟩ := getD_fileAt formats (k.files talk.sessionId) turn.state.session s torn
    rw [bytes_proceed_self, hfile, List.append_assoc]
    exact List.prefix_append _ _
  · rw [bytes_proceed_ne hne]

/-- A turn comes to a new state, and no other turn of the session is under way. -/
theorem Confirming.proceed (h : Confirming formats id k) {i : Nat} {talk : Talk Value}
    (hi : k.talks[i]? = some talk) {turn : ChatTurn Value} {s : TurnState Value}
    {torn : Option (List UInt8)}
    (hfree : ∀ j talk', k.talks[j]? = some talk' → talk'.sessionId = talk.sessionId →
      talk'.talking = true → j = i)
    (hsound : Talk.Sound formats.messages
      ((Conversation.fileAt formats (k.files talk.sessionId) turn.state.session s torn).getD [])
      { talk with turn := some { turn with state := s } }) :
    Confirming formats id (k.proceed formats i talk turn s torn) := by
  have hlt : i < k.talks.length := Slots.lt_of_some hi
  have hgrown : ∀ sessionId, k.bytes sessionId <+:
      (k.proceed formats i talk turn s torn).bytes sessionId := bytes_proceed i talk turn s torn
  -- the talks are as they were, but for the turn of the one that goes on
  have htalk : ∀ (j : Nat) talk', (k.proceed formats i talk turn s torn).talks[j]? = some talk' →
      (j = i ∧ talk' = { talk with turn := some { turn with state := s } }) ∨
        (j ≠ i ∧ k.talks[j]? = some talk') := by
    intro j talk' hj
    simp only [Conversation.proceed, List.getElem?_set] at hj
    by_cases e : i = j
    · rw [if_pos e, if_pos hlt] at hj
      exact .inl ⟨e.symm, (Option.some.inj hj).symm⟩
    · rw [if_neg e] at hj
      exact .inr ⟨Ne.symm e, hj⟩
  refine ⟨h.registry, ?_, ?_, ?_, ?_, ?_, ?_⟩
  · simp only [Conversation.proceed, List.length_set]
    exact h.paired
  · intro j chat talk' hchat hj
    rcases htalk j talk' hj with ⟨rfl, rfl⟩ | ⟨-, hj'⟩
    · exact h.matched j chat talk hchat hi
    · exact h.matched j chat talk' hchat hj'
  · intro talk' hm
    obtain ⟨j, hj⟩ := List.mem_iff_getElem?.mp hm
    rcases htalk j talk' hj with ⟨rfl, rfl⟩ | ⟨hne, hj'⟩
    · rw [bytes_proceed_self]
      exact hsound
    · have hold := h.sound talk' (List.mem_of_getElem? hj')
      by_cases hs : talk'.sessionId = talk.sessionId
      · refine hold.mono ?_ (hgrown _)
        by_contra htalking
        exact hne (hfree j talk' hj' hs (by simpa using htalking))
      · rw [bytes_proceed_ne hs]
        exact hold
  · intro j j' talk₁ talk₂ h₁ h₂ hs ht₁ ht₂
    rcases htalk j talk₁ h₁ with ⟨rfl, rfl⟩ | ⟨-, h₁'⟩
    · rcases htalk j' talk₂ h₂ with ⟨rfl, -⟩ | ⟨-, h₂'⟩
      · rfl
      · exact (hfree j' talk₂ h₂' hs.symm ht₂).symm
    · rcases htalk j' talk₂ h₂ with ⟨rfl, rfl⟩ | ⟨-, h₂'⟩
      · exact hfree j talk₁ h₁' hs ht₁
      · exact h.alone j j' talk₁ talk₂ h₁' h₂' hs ht₁ ht₂
  · intro j chat talk' content error hchat hj hst
    rcases htalk j talk' hj with ⟨rfl, rfl⟩ | ⟨-, hj'⟩
    · obtain ⟨text, hc, hreplied⟩ := h.committing j chat talk content error hchat hi hst
      exact ⟨text, hc, hreplied.mono (hgrown _)⟩
    · obtain ⟨text, hc, hreplied⟩ := h.committing j chat talk' content error hchat hj' hst
      exact ⟨text, hc, hreplied.mono (hgrown _)⟩
  · intro v x content hv hst hc hx
    exact (h.completed v x content hv hst hc hx).mono (hgrown _)

theorem not_talking_of_unlocked {sessionId : SessionId} (h : k.locked sessionId = false) {i : Nat}
    {talk : Talk Value} (hi : k.talks[i]? = some talk) (hs : talk.sessionId = sessionId) :
    talk.talking = false := by
  simp only [Conversation.locked, List.any_eq_false, Bool.and_eq_true, decide_eq_true_eq,
    not_and] at h
  simpa using h talk (List.mem_of_getElem? hi) hs

theorem Confirming.beginTurn (h : Confirming formats id k) (i : Nat)
    (engine : Engine.LoopEngine Value) (input : TurnInput) (torn : Option (List UInt8)) :
    Confirming formats id (k.beginTurn formats i engine input torn) := by
  unfold Conversation.beginTurn
  split
  · rename_i chat talk _ hi
    split
    · rename_i hfree
      refine h.proceed hi ?_ ?_
      · intro j talk' hj hs htalking
        rw [not_talking_of_unlocked hfree.2.2 hj hs] at htalking
        cases htalking
      · exact sound_beginTurn rfl { input with input := talk.message } _ torn _ talk.sessionId
    · exact h
  · exact h

theorem Confirming.turnRound (h : Confirming formats id k) (i : Nat) (input : RoundInput Value)
    (torn : Option (List UInt8)) : Confirming formats id (k.turnRound formats i input torn) := by
  unfold Conversation.turnRound
  split
  · rename_i talk hi
    split
    · rename_i turn hturn
      split
      · exact h
      · rename_i hr
        have hnone : turn.state.result = none := by
          simpa [Option.isSome_iff_ne_none] using hr
        have hsound := h.sound talk (List.mem_of_getElem? hi)
        refine h.proceed hi ?_ ?_
        · intro j talk' hj hs htalking
          exact h.alone j i talk' talk hj hi hs htalking (Talk.talking_eq_true hturn hnone)
        · exact hsound.round hturn hnone (turnRound_tells formats.json formats.printer
            (hsound.session turn hturn) hnone input) torn
    · exact h
  · exact h

/-! ## Actions of the daemon -/

/-- A chat completes its run with the reply it has concluded its turn with. -/
theorem Confirming.completed_next (h : Confirming formats id k) {a : DaemonAction}
    (hhand : ∀ op, a = .client op → op.reconciles ≠ some id) {v : Verdict} {x : Head}
    {content : String} (hv : (k.daemon.next a).store.verdict? id = some v)
    (hst : v.status = .completed) (hc : v.content = some content)
    (hx : (k.daemon.next a).store.head? id = some x) :
    Replied formats.messages (k.bytes x.sessionId) x.input content := by
  have hkept : ∀ op : Op, k.daemon.store.verdict? id = some v →
      (k.daemon.store.next op).head? id = some x →
        Replied formats.messages (k.bytes x.sessionId) x.input content :=
    fun op hold hx => h.confirmed op k.files (fun _ => List.prefix_refl _) hold hst hc hx
  rcases store_next k.daemon a with (e | ⟨op, hop, e⟩) | ⟨i, c, hcommits⟩ | ⟨op, rfl, hclient, e⟩
  · rw [e] at hv hx
    exact h.completed v x content hv hst hc hx
  · rw [e] at hv hx
    exact hkept op (completed_of_other hop hv hst) hx
  · obtain ⟨status, content', error, now, hstage, hi, e⟩ := hcommits
    rw [e] at hv hx
    rcases completed_of_next hv hst with hold | hop | ⟨content'', error', now', hop, hcontent⟩
    · exact hkept _ hold hx
    · cases hop
    · cases hop
      obtain ⟨talk, htalk⟩ := h.exists_talk hi
      obtain ⟨text, rfl, hreplied⟩ := h.committing i c talk _ _ hi htalk hstage
      cases hc.symm.trans hcontent
      cases (RunStore.head?_next (h.matched i c talk hi htalk) _).symm.trans hx
      exact hreplied
  · rw [e] at hv hx
    rcases completed_of_next hv hst with hold | hop | ⟨content', error, now, rfl, -⟩
    · exact hkept op hold hx
    · exact absurd hop (hhand op rfl)
    · cases hclient

/-- A chat is completed with the text that its turn returned. -/
theorem content_of_conclusion {c : Chat} {result : EngineResult} {content : Option String}
    {error : Option (Int × String)} (h : conclusion c result = .committing .completed content error) :
    ∃ text, result = .content text ∧ content = some text := by
  unfold conclusion at h
  split at h
  · rename_i text hresponse
    cases h
    unfold response at hresponse
    split at hresponse
    · cases hresponse
    · split at hresponse
      · cases hresponse
      · cases hresponse
        exact ⟨text, rfl, rfl⟩
    · cases hresponse
    · split at hresponse <;> cases hresponse
  · split at h <;> cases h

/-- An action that admits no chat. -/
theorem Confirming.kept (h : Confirming formats id k) {a : DaemonAction}
    (hhand : ∀ op, a = .client op → op.reconciles ≠ some id)
    (hchats : KeepsChats a k.daemon (k.daemon.next a))
    (hreplied : ∀ i env chat talk text, a = .advance i env → k.daemon.chats[i]? = some chat →
      chat.stage = .running → k.talks[i]? = some talk → env.result = .content text →
        Replied formats.messages (k.bytes talk.sessionId) talk.message text) :
    Confirming formats id { k with daemon := k.daemon.next a } := by
  have he := next_effect h.registry a
  have hlength := hchats.length_eq
  obtain ⟨g, hg, hkeeps⟩ := hchats
  refine ⟨h.registry.step he, h.paired.trans hlength.symm, ?_, h.sound, h.alone, ?_, ?_⟩
  · intro i chat' talk hi htalk
    obtain ⟨chat, hchat, rfl⟩ := hg.of_some hi
    obtain ⟨hkey, hrun, -⟩ := hkeeps i chat hchat
    have hmatched := h.matched i chat talk hchat htalk
    rw [hkey, hrun]
    rcases he.store with e | ⟨op, -, e⟩
    · rw [e]
      exact hmatched
    · rw [e]
      exact RunStore.head?_next hmatched op
  · intro i chat' talk content error hi htalk hst
    obtain ⟨chat, hchat, rfl⟩ := hg.of_some hi
    obtain ⟨-, -, hstage⟩ := hkeeps i chat hchat
    rcases hstage with e | ⟨env, ha, hno | ⟨hrunning, hconclusion⟩⟩
    · exact h.committing i chat talk content error hchat htalk (e.symm.trans hst)
    · exact absurd hst (hno _ _ _)
    · obtain ⟨text, hresult, rfl⟩ := content_of_conclusion (hconclusion.symm.trans hst)
      exact ⟨text, rfl, hreplied i env chat talk text ha hchat hrunning htalk hresult⟩
  · intro v x content hv hst hc hx
    exact h.completed_next hhand hv hst hc hx

/-- A chat that is admitted has said nothing yet. -/
theorem Confirming.admitted (h : Confirming formats id k) {key : ActiveKey} {message : String}
    {mode : AdmissionMode} {route : Option RouteSnapshot} {now : Int} {c : Chat}
    (hchats : (k.daemon.next (.chat key message mode route now)).chats = k.daemon.chats ++ [c])
    (hkey : c.key = key) (hst : c.stage.driving = false)
    (hhead : (k.daemon.next (.chat key message mode route now)).store.head? c.runId =
      some ⟨c.runId, key.sessionId, key.requestId, message⟩) :
    Confirming formats id { k with
      daemon := k.daemon.next (.chat key message mode route now)
      talks := k.talks ++ [⟨key.sessionId, message, none⟩] } := by
  have he := next_effect h.registry (.chat key message mode route now)
  have hchat : ∀ {i : Nat} {chat : Chat},
      (k.daemon.next (.chat key message mode route now)).chats[i]? = some chat →
        k.daemon.chats[i]? = some chat ∨ i = k.daemon.chats.length ∧ chat = c := by
    intro i chat hi
    rw [hchats] at hi
    exact Slots.of_concat hi
  have htalk : ∀ {i : Nat} {talk : Talk Value},
      (k.talks ++ [⟨key.sessionId, message, none⟩])[i]? = some talk →
        k.talks[i]? = some talk ∨ i = k.daemon.chats.length ∧ talk = ⟨key.sessionId, message, none⟩ := by
    intro i talk hi
    rw [← h.paired]
    exact Slots.of_concat hi
  have hbound : ∀ {i : Nat} {chat : Chat}, k.daemon.chats[i]? = some chat →
      i ≠ k.daemon.chats.length := by
    intro i chat hi
    exact Nat.ne_of_lt (Slots.lt_of_some hi)
  have hbound' : ∀ {i : Nat} {talk : Talk Value}, k.talks[i]? = some talk →
      i ≠ k.daemon.chats.length := by
    intro i talk hi
    rw [← h.paired]
    exact Nat.ne_of_lt (Slots.lt_of_some hi)
  refine ⟨h.registry.step he, ?_, ?_, ?_, ?_, ?_, ?_⟩
  · simp only [hchats, List.length_append, h.paired]
    rfl
  · intro i chat talk hi hj
    rcases hchat hi with hi | ⟨rfl, rfl⟩
    · rcases htalk hj with hj | ⟨rfl, -⟩
      · have hmatched := h.matched i chat talk hi hj
        rcases he.store with e | ⟨op, -, e⟩
        · rw [e]
          exact hmatched
        · rw [e]
          exact RunStore.head?_next hmatched op
      · exact absurd rfl (hbound hi)
    · rcases htalk hj with hj | ⟨-, rfl⟩
      · exact absurd rfl (hbound' hj)
      · rw [hkey]
        exact hhead
  · intro talk hm
    rcases List.mem_append.mp hm with hm | hm
    · exact h.sound talk hm
    · cases List.mem_singleton.mp hm
      exact sound_new _ key.sessionId message
  · intro i j talk talk' hi hj hs ht ht'
    rcases htalk hi with hi | ⟨-, rfl⟩
    · rcases htalk hj with hj | ⟨-, rfl⟩
      · exact h.alone i j talk talk' hi hj hs ht ht'
      · cases ht'
    · cases ht
  · intro i chat talk content error hi hj hstage
    rcases hchat hi with hi | ⟨rfl, rfl⟩
    · rcases htalk hj with hj | ⟨rfl, -⟩
      · exact h.committing i chat talk content error hi hj hstage
      · exact absurd rfl (hbound hi)
    · rw [hstage] at hst
      cases hst
  · intro v x content hv hst hc hx
    refine h.completed_next ?_ hv hst hc hx
    rintro op ⟨⟩

/-- What a turn returns as its text is its result. -/
theorem ok_of_result? {i : Nat} {text : String} (h : k.result? formats i = some (.content text)) :
    ∃ talk turn, k.talks[i]? = some talk ∧ talk.turn = some turn ∧
      turn.state.result = some (.ok text) := by
  simp only [Conversation.result?, Option.bind_eq_bind, Option.bind_eq_some_iff,
    Option.map_eq_map, Option.map_eq_some_iff] at h
  obtain ⟨talk, htalk, turn, hturn, result, hresult, he⟩ := h
  refine ⟨talk, turn, htalk, hturn, ?_⟩
  unfold engineResult at he
  split at he
  · cases he
    exact hresult
  · cases he
  · cases he

theorem Confirming.act (h : Confirming formats id k) (a : DaemonAction)
    (hhand : ∀ op, a = .client op → op.reconciles ≠ some id) :
    Confirming formats id (k.act formats a) := by
  have hquiet : (∀ i env, a ≠ .advance i env) → (∀ key message mode route now,
      a ≠ .chat key message mode route now) →
        Confirming formats id { k with daemon := k.daemon.next a } := by
    intro hadvance hchat
    rcases chats_next k.daemon a with hkeeps | ⟨key, message, mode, route, now, _, e, -⟩
    · exact h.kept hhand hkeeps fun i env _ _ _ e => absurd e (hadvance i env)
    · exact absurd e (hchat key message mode route now)
  cases a with
  | chat key message mode route now =>
    simp only [Conversation.act]
    split
    · exact h
    · rcases chats_next k.daemon (.chat key message mode route now) with hkeeps |
        ⟨key', message', mode', route', now', c, e, hchats, hkey, hst, hhead⟩
      · have hkept := h.kept hhand hkeeps fun _ _ _ _ _ e => nomatch e
        rw [if_neg (fun hne => hne hkeeps.length_eq)]
        exact hkept
      · cases e
        have hne : (k.daemon.next (.chat key message mode route now)).chats.length ≠
            k.daemon.chats.length := by
          simp [hchats]
        rw [if_pos hne]
        exact h.admitted hchats hkey hst hhead
  | advance i env =>
    have hkeeps : ∀ env, KeepsChats (.advance i env) k.daemon (k.daemon.next (.advance i env)) := by
      intro env
      rcases chats_next k.daemon (.advance i env) with hkeeps | ⟨_, _, _, _, _, _, e, -⟩
      · exact hkeeps
      · cases e
    simp only [Conversation.act]
    split
    · split
      · exact h
      · rename_i result hresult
        refine h.kept (fun _ e => nomatch e) (hkeeps _) ?_
        rintro _ _ chat talk text ⟨⟩ - - htalk htext
        rw [show result = .content text from htext] at hresult
        obtain ⟨talk', turn, htalk', hturn, hr⟩ := ok_of_result? hresult
        cases htalk.symm.trans htalk'
        exact (h.sound talk (List.mem_of_getElem? htalk)).replied turn hturn text hr
    · rename_i hidle
      refine h.kept (fun _ e => nomatch e) (hkeeps _) ?_
      rintro _ _ chat talk text ⟨⟩ hchat hrunning
      simp [hchat, hrunning] at hidle
  | _ => exact hquiet (fun _ _ => nofun) (fun _ _ _ _ _ => nofun)

/-- Whatever happens next, unless the run is resolved by hand. -/
theorem Confirming.next (h : Confirming formats id k) (e : Conversation.Event Value)
    (hhand : e.resolves ≠ some id) : Confirming formats id (k.next formats e) := by
  cases e with
  | openSession sessionId => exact h.openSession sessionId
  | daemon a =>
    refine h.act a ?_
    rintro op rfl
    exact hhand
  | beginTurn i engine input torn => exact h.beginTurn i engine input torn
  | turnRound i input torn => exact h.turnRound i input torn
  | restart clock torn => exact h.restart clock torn

theorem confirming_after (formats : Formats Value) (files : SessionId → Option (List UInt8))
    {events : List (Conversation.Event Value)} (hhand : ∀ e ∈ events, e.resolves ≠ some id) :
    Confirming formats id (Conversation.afterEvents formats files events) := by
  refine after_induct (G := fun _ e => e.resolves ≠ some id) (fun _ e h hhand => h.next e hhand)
    (confirming_start files) ?_
  rw [along_iff]
  rintro pre e post rfl
  exact hhand e (List.mem_append_right _ List.mem_cons_self)

/-- **Every confirmed reply was said.** Whatever the providers, the tools, the cancellations, the
failures of the store and of the appends, and the ends of the process were: a run that the store
shows as completed with a content, and that no one has resolved by hand, has the message of the
user in the file of its session, and behind it an assistant message with this content. -/
theorem replied_after (formats : Formats Value) (files : SessionId → Option (List UInt8))
    (events : List (Conversation.Event Value)) (r : Run) (content : String)
    (hhand : ∀ e ∈ events, e.resolves ≠ some r.id)
    (hr : r ∈ (Conversation.afterEvents formats files events).daemon.store.runs.rows)
    (hst : r.status = .completed) (hc : r.content = some content) :
    Replied formats.messages
      ((Conversation.afterEvents formats files events).bytes r.sessionId) r.input content := by
  have h := confirming_after formats files hhand
  have hfind := Table.find?_of_mem hr
  refine h.completed r.verdict r.head content ?_ hst hc ?_
  · rw [verdict?_eq, RunStore.control_run?, hfind]
    rfl
  · rw [RunStore.head?, hfind, Option.map_some]

end Invariant

/-! ## A question and its reply -/

/-- `serde_json`, as far as it goes with one question and its reply. -/
def plainFormats : Formats Json := ⟨emptyJson, emptyPrinter, Session.twoMessages, fun _ => ""⟩

def replyRound : RoundInput Json where
  requests := [{ stream := ⟨[(1, .textDelta "ok")], .finished, []⟩ }]

/-- A question, its turn, the commit, and the end of the process. -/
def questionAnswered : List (Conversation.Event Json) :=
  [.openSession ⟨"s"⟩, .daemon (.chat ⟨⟨"s"⟩, .number 1⟩ "问题" .queue none 0)] ++
  List.replicate 8 (.daemon (.advance 0 {})) ++
  [.beginTurn 0 sessionEngine ⟨"", false, false, .done⟩ none, .turnRound 0 replyRound none,
    .daemon (.advance 0 {}), .daemon (.advance 0 {}), .restart (fun _ => 0) fun _ => none]

def answeredRun : Run := ⟨1, ⟨"s"⟩, .number 1, .completed, "问题", 4, some "ok", none, none, 0⟩

theorem confirmed_questionAnswered :
    answeredRun ∈ (Conversation.afterEvents plainFormats (fun _ => none)
      questionAnswered).daemon.store.runs.rows ∧
    Replied plainFormats.messages
      ((Conversation.afterEvents plainFormats (fun _ => none) questionAnswered).bytes ⟨"s"⟩)
      "问题" "ok" :=
  ⟨by decide +kernel, replied_after plainFormats (fun _ => none) questionAnswered answeredRun "ok"
    (by decide) (by decide +kernel) rfl rfl⟩

end AgentDaemon.Daemon
