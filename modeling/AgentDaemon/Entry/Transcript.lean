import AgentDaemon.Ids
import AgentDaemon.Lib.Text
import AgentDaemon.Lib.Transition
import AgentDaemon.Provider.Message
import Mathlib.Data.List.Infix
import Mathlib.Data.List.Nodup

/-!
The messages on the screen of the terminal entry, with the numbers they are known by and the cache of
their lines. Of the state only what the numbers and the cache depend on is here, and how a message is
laid out is a parameter. `distinguished_iff` says in which runs no number is given twice and the cache
has no lines of another message.
-/

namespace AgentDaemon.Entry

open Provider Transition

/-! ## Messages -/

inductive ToolStatus where
  | running | ok | failed
  deriving DecidableEq, Repr

structure UiToolCall where
  turnId : RequestId
  callId : Option String
  name : String
  heading : String
  round : Nat
  status : ToolStatus
  output : List String
  expanded : Option Bool
  durationMs : Option Nat
  deriving DecidableEq, Repr

inductive UiMessageKind where
  | text (content : String)
  | tool (tool : UiToolCall)
  deriving DecidableEq, Repr

structure UiMessage where
  id : Nat
  role : Role
  kind : UiMessageKind
  contentVersion : Nat
  turnId : Option RequestId
  deriving DecidableEq, Repr

inductive TuiThemeMode where
  | terminal | dark | light
  deriving DecidableEq, Repr

structure RenderCacheKey where
  messageId : Nat
  contentVersion : Nat
  width : Nat
  showTools : Bool
  themeMode : TuiThemeMode
  deriving DecidableEq, Repr

/-- `u64::saturating_add(1)`. -/
def saturatingSucc (n : Nat) : Nat := if n < 2 ^ 64 - 1 then n + 1 else n

def toolHeading (name : String) : String :=
  if name = "read_file" then "读取文件"
  else if name = "write_file" then "写入文件"
  else if name = "edit_file" then "编辑文件"
  else if name = "exec" then "运行命令"
  else "执行 " ++ name

variable {Value : Type}

def messageToUi (message : Message Value) (id : Nat) : Option UiMessage :=
  message.content.map fun content => ⟨id, message.role, .text content, 0, none⟩

/-- The messages of a snapshot; those without content have a number as well. -/
def uiMessages (messages : List (Message Value)) : List UiMessage :=
  (messages.zipIdx 1).filterMap fun (message, id) => messageToUi message id

/-- `iter_mut().rev().find(p)`, and the change of what it finds. -/
def modifyLast {α : Type} (p : α → Bool) (f : α → α) : List α → List α
  | [] => []
  | a :: l => if l.any p then a :: modifyLast p f l else if p a then f a :: l else a :: l

/-! ## State -/

/-- How the view lays out a message, at a moment. -/
structure View (Lines : Type) where
  /-- `wrap_lines(message_lines(message, show_tools, theme), width)`. -/
  lines : (now : Nat) → UiMessage → (showTools : Bool) → TuiThemeMode → (width : Nat) → Lines

variable {Lines : Type}

structure Transcript (Lines : Type) where
  messages : List UiMessage
  nextMessageId : Nat
  showTools : Bool := false
  themeMode : TuiThemeMode
  renderCache : List (RenderCacheKey × Lines) := []

namespace Transcript

def fromSnapshot (themeMode : TuiThemeMode) (messages : List (Message Value)) : Transcript Lines where
  messages := uiMessages messages
  nextMessageId := messages.length + 1
  themeMode := themeMode

variable (s : Transcript Lines)

def replaceSnapshot (messages : List (Message Value)) : Transcript Lines :=
  let messages := uiMessages messages
  { s with messages, nextMessageId := messages.length + 1, renderCache := [] }

/-- A message with the next number. -/
def push (role : Role) (kind : UiMessageKind) (turnId : Option RequestId) : Transcript Lines :=
  { s with
    messages := s.messages ++ [⟨s.nextMessageId, role, kind, 0, turnId⟩]
    nextMessageId := saturatingSucc s.nextMessageId }

def pushTextForTurn (role : Role) (content : String) (turnId : Option RequestId) :
    Transcript Lines := s.push role (.text content) turnId

def pushText (role : Role) (content : String) : Transcript Lines := s.pushTextForTurn role content none

def pushUser (content : String) : Transcript Lines := s.pushText .user content

def ofTurn (turnId : RequestId) (message : UiMessage) : Bool :=
  message.role = .assistant && message.turnId = some turnId

def appendDelta (delta : String) (message : UiMessage) : UiMessage :=
  match message.kind with
  | .text content =>
    { message with
      kind := .text (content ++ delta), contentVersion := saturatingSucc message.contentVersion }
  | .tool _ => message

def isText (message : UiMessage) : Bool :=
  match message.kind with
  | .text _ => true
  | .tool _ => false

/-- The message that a delta goes to. -/
def streamed (turnId : RequestId) : Bool := (s.messages.reverse.find? (ofTurn turnId)).any isText

def appendAssistant (turnId : RequestId) (delta : String) : Transcript Lines :=
  if s.streamed turnId then
    { s with messages := modifyLast (ofTurn turnId) (appendDelta delta) s.messages }
  else s.pushTextForTurn .assistant delta (some turnId)

def startTool (turnId : RequestId) (callId : Option String) (name : String) (round : Nat) :
    Transcript Lines :=
  s.push .tool (.tool ⟨turnId, callId, name, toolHeading name, round, .running, [], none, none⟩) none

/-- The tool that a result belongs to. -/
def awaits (turnId : RequestId) (callId : Option String) (name : String) (message : UiMessage) : Bool :=
  match message.kind with
  | .tool tool => tool.turnId = turnId && tool.status = .running &&
      (callId.any (fun id => tool.callId = some id) || callId.isNone && tool.name = name)
  | .text _ => false

def finish (output : String) (success : Bool) (durationMs : Nat) (message : UiMessage) : UiMessage :=
  match message.kind with
  | .tool tool =>
    { message with
      kind := .tool { tool with
        output := (AgentDaemon.lines output.toList).map String.ofList
        status := if success then .ok else .failed
        durationMs := some durationMs }
      contentVersion := saturatingSucc message.contentVersion }
  | .text _ => message

/-- A result without a tool starts one, and is looked at again. -/
def finishTool (turnId : RequestId) (callId : Option String) (name output : String) (success : Bool)
    (durationMs : Nat) : Transcript Lines :=
  let s := if s.messages.any (awaits turnId callId name) then s else s.startTool turnId callId name 0
  { s with
    messages := modifyLast (awaits turnId callId name) (finish output success durationMs) s.messages }

def toggleToolDetails : Transcript Lines := { s with showTools := !s.showTools }

variable (view : View Lines)

def cacheKey (width : Nat) (message : UiMessage) : RenderCacheKey :=
  ⟨message.id, message.contentVersion, width, s.showTools, s.themeMode⟩

def cachedMessageLines (now width : Nat) (message : UiMessage) : Lines × Transcript Lines :=
  let key := s.cacheKey width message
  match s.renderCache.find? fun entry => entry.1 = key with
  | some entry => (entry.2, s)
  | none =>
    let lines := view.lines now message s.showTools s.themeMode width
    let cache := if s.renderCache.length ≥ 512 then [] else s.renderCache
    (lines, { s with renderCache := (key, lines) :: cache })

/-- The lines of the messages one after the other; tools that are folded up are not cached. -/
def drawMessages (now width : Nat) : List UiMessage → Transcript Lines → List Lines × Transcript Lines
  | [], s => ([], s)
  | message :: rest, s =>
    if s.showTools || isText message then
      let (lines, s) := s.cachedMessageLines view now width message
      let (more, s) := drawMessages now width rest s
      (lines :: more, s)
    else drawMessages now width rest s

def draw (now width : Nat) : List Lines × Transcript Lines := drawMessages view now width s.messages s

inductive Op (Value : Type) where
  | replaceSnapshot (messages : List (Message Value))
  | pushUser (content : String)
  | pushText (role : Role) (content : String)
  | pushTextForTurn (role : Role) (content : String) (turnId : Option RequestId)
  | appendAssistant (turnId : RequestId) (delta : String)
  | startTool (turnId : RequestId) (callId : Option String) (name : String) (round : Nat)
  | finishTool (turnId : RequestId) (callId : Option String) (name output : String) (success : Bool)
      (durationMs : Nat)
  | toggleToolDetails
  | draw (now width : Nat)

def next (s : Transcript Lines) : Op Value → Transcript Lines
  | .replaceSnapshot messages => s.replaceSnapshot messages
  | .pushUser content => s.pushUser content
  | .pushText role content => s.pushText role content
  | .pushTextForTurn role content turnId => s.pushTextForTurn role content turnId
  | .appendAssistant turnId delta => s.appendAssistant turnId delta
  | .startTool turnId callId name round => s.startTool turnId callId name round
  | .finishTool turnId callId name output success durationMs =>
    s.finishTool turnId callId name output success durationMs
  | .toggleToolDetails => s.toggleToolDetails
  | .draw now width => (s.draw view now width).2

/-! ## Numbers -/

def ids : List Nat := s.messages.map UiMessage.id

/-- The step adds a message. -/
def adds : Op Value → Bool
  | .pushUser _ | .pushText _ _ | .pushTextForTurn _ _ _ | .startTool _ _ _ _ => true
  | .appendAssistant turnId _ => !s.streamed turnId
  | .finishTool turnId callId name _ _ _ => !s.messages.any (awaits turnId callId name)
  | .replaceSnapshot _ | .toggleToolDetails | .draw _ _ => false

variable {s}

theorem map_modifyLast {α β : Type} {p : α → Bool} {f : α → α} {g : α → β}
    (h : ∀ a, g (f a) = g a) (l : List α) : (modifyLast p f l).map g = l.map g := by
  induction l with
  | nil => rfl
  | cons a l ih =>
    rw [modifyLast]
    split
    · rw [List.map_cons, ih, List.map_cons]
    · split
      · rw [List.map_cons, h, List.map_cons]
      · rfl

theorem exists_modifyLast {α : Type} {p : α → Bool} {f : α → α} {a : α} {l : List α} (h : a ∈ l) :
    ∃ b ∈ modifyLast p f l, b = a ∨ b = f a := by
  induction l with
  | nil => cases h
  | cons c l ih =>
    rw [modifyLast]
    split
    · rcases List.mem_cons.mp h with rfl | h
      · exact ⟨a, List.mem_cons_self, .inl rfl⟩
      · obtain ⟨b, hb, hba⟩ := ih h
        exact ⟨b, List.mem_cons_of_mem c hb, hba⟩
    · split
      · rcases List.mem_cons.mp h with rfl | h
        · exact ⟨f a, List.mem_cons_self, .inr rfl⟩
        · exact ⟨a, List.mem_cons_of_mem _ h, .inl rfl⟩
      · exact ⟨a, h, .inl rfl⟩

theorem id_appendDelta (delta : String) (m : UiMessage) : (appendDelta delta m).id = m.id := by
  unfold appendDelta
  split <;> rfl

theorem id_finish (output : String) (success : Bool) (durationMs : Nat) (m : UiMessage) :
    (finish output success durationMs m).id = m.id := by
  unfold finish
  split <;> rfl

/-- The tool that is started for a result is the one that the result belongs to. -/
theorem awaits_startTool (s : Transcript Lines) (turnId : RequestId) (callId : Option String)
    (name : String) :
    (s.startTool turnId callId name 0).messages.any (awaits turnId callId name) = true := by
  rw [List.any_eq_true]
  refine ⟨_, List.mem_append_right _ (List.mem_singleton_self _), ?_⟩
  cases callId <;> simp [awaits]

theorem cachedMessageLines_snd (now width : Nat) (m : UiMessage) :
    ∃ cache, (s.cachedMessageLines view now width m).2 = { s with renderCache := cache } := by
  unfold cachedMessageLines
  dsimp only
  split
  · exact ⟨s.renderCache, rfl⟩
  · exact ⟨_, rfl⟩

theorem drawMessages_snd (now width : Nat) (l : List UiMessage) (s : Transcript Lines) :
    ∃ cache, (drawMessages view now width l s).2 = { s with renderCache := cache } := by
  induction l generalizing s with
  | nil => exact ⟨s.renderCache, rfl⟩
  | cons m l ih =>
    rw [drawMessages]
    split
    · obtain ⟨cache, hcache⟩ := cachedMessageLines_snd view (s := s) now width m
      obtain ⟨cache', hcache'⟩ := ih (s.cachedMessageLines view now width m).2
      refine ⟨cache', ?_⟩
      dsimp only
      rw [hcache', hcache]
    · exact ih s

/-- The numbers after a step: that of the message it adds is the next one. -/
theorem next_numbers (s : Transcript Lines) (op : Op Value)
    (hop : ∀ messages, op ≠ .replaceSnapshot messages) :
    (s.next view op).ids = s.ids ++ (if s.adds op then [s.nextMessageId] else []) ∧
      (s.next view op).nextMessageId =
        if s.adds op then saturatingSucc s.nextMessageId else s.nextMessageId := by
  cases op with
  | replaceSnapshot messages => exact absurd rfl (hop messages)
  | pushUser content => exact ⟨List.map_append, rfl⟩
  | pushText role content => exact ⟨List.map_append, rfl⟩
  | pushTextForTurn role content turnId => exact ⟨List.map_append, rfl⟩
  | startTool turnId callId name round => exact ⟨List.map_append, rfl⟩
  | toggleToolDetails => exact ⟨(List.append_nil _).symm, rfl⟩
  | draw now width =>
    obtain ⟨cache, hcache⟩ := drawMessages_snd view now width s.messages s
    rw [next, draw, hcache]
    exact ⟨(List.append_nil _).symm, rfl⟩
  | appendAssistant turnId delta =>
    rw [next, appendAssistant, adds]
    cases s.streamed turnId with
    | true =>
      refine ⟨?_, rfl⟩
      rw [ids, if_pos rfl, map_modifyLast (id_appendDelta delta)]
      exact (List.append_nil _).symm
    | false => exact ⟨List.map_append, rfl⟩
  | finishTool turnId callId name output success durationMs =>
    rw [next, finishTool, adds]
    dsimp only
    rw [ids, map_modifyLast (id_finish output success durationMs)]
    cases s.messages.any (awaits turnId callId name) with
    | true => exact ⟨(List.append_nil _).symm, rfl⟩
    | false => exact ⟨List.map_append, rfl⟩

/-! ## The cache -/

/-- An earlier version of a message: one with the number of its version is the message itself, as long as
the versions can be counted. -/
structure Older (m₀ m : UiMessage) : Prop where
  id : m₀.id = m.id
  le : m₀.contentVersion ≤ m.contentVersion
  same : m₀.contentVersion = m.contentVersion → m.contentVersion < 2 ^ 64 - 1 → m₀ = m

theorem Older.refl (m : UiMessage) : Older m m := ⟨rfl, Nat.le_refl _, fun _ _ => rfl⟩

theorem Older.trans {m₀ m m' : UiMessage} (h : Older m₀ m) (h' : Older m m') : Older m₀ m' where
  id := h.id.trans h'.id
  le := Nat.le_trans h.le h'.le
  same := by
    intro hsame hlt
    have hle := h.le
    have hle' := h'.le
    rw [h.same (by omega) (by omega), h'.same (by omega) hlt]

/-- A change that counts the version. -/
theorem older_of_succ {m m' : UiMessage} (hid : m'.id = m.id)
    (hversion : m'.contentVersion = saturatingSucc m.contentVersion) : Older m m' where
  id := hid.symm
  le := by
    rw [hversion, saturatingSucc]
    split <;> omega
  same := by
    intro hsame hlt
    rw [← hsame] at hlt
    rw [hversion, saturatingSucc, if_pos hlt] at hsame
    omega

theorem older_appendDelta (delta : String) (m : UiMessage) : Older m (appendDelta delta m) := by
  unfold appendDelta
  split
  · exact older_of_succ rfl rfl
  · exact .refl m

theorem older_finish (output : String) (success : Bool) (durationMs : Nat) (m : UiMessage) :
    Older m (finish output success durationMs m) := by
  unfold finish
  split
  · exact older_of_succ rfl rfl
  · exact .refl m

/-- Every message is kept, in an equal or a later version. -/
def Keeps (l l' : List UiMessage) : Prop := ∀ m ∈ l, ∃ m' ∈ l', Older m m'

theorem Keeps.refl (l : List UiMessage) : Keeps l l := fun m hm => ⟨m, hm, .refl m⟩

theorem Keeps.trans {l l' l'' : List UiMessage} (h : Keeps l l') (h' : Keeps l' l'') : Keeps l l'' := by
  intro m hm
  obtain ⟨m', hm', hold⟩ := h m hm
  obtain ⟨m'', hm'', hold'⟩ := h' m' hm'
  exact ⟨m'', hm'', hold.trans hold'⟩

theorem keeps_append (l more : List UiMessage) : Keeps l (l ++ more) := fun m hm =>
  ⟨m, List.mem_append_left more hm, .refl m⟩

theorem keeps_modifyLast {p : UiMessage → Bool} {f : UiMessage → UiMessage} (h : ∀ m, Older m (f m))
    (l : List UiMessage) : Keeps l (modifyLast p f l) := by
  intro m hm
  obtain ⟨m', hm', rfl | rfl⟩ := exists_modifyLast (p := p) (f := f) hm
  · exact ⟨m', hm', .refl m'⟩
  · exact ⟨f m, hm', h m⟩

/-- The lines in an entry were made from some version of a message, under the key of that version. -/
def MadeFrom (l : List UiMessage) (entry : RenderCacheKey × Lines) : Prop :=
  ∃ now, ∃ m₀, ∃ m ∈ l, Older m₀ m ∧ entry.1.messageId = m₀.id ∧
    entry.1.contentVersion = m₀.contentVersion ∧
    entry.2 = view.lines now m₀ entry.1.showTools entry.1.themeMode entry.1.width

def Faithful (s : Transcript Lines) : Prop := ∀ entry ∈ s.renderCache, MadeFrom view s.messages entry

variable {view}

theorem Faithful.keeps {s s' : Transcript Lines} (h : Faithful view s)
    (hcache : s'.renderCache = s.renderCache) (hkeeps : Keeps s.messages s'.messages) :
    Faithful view s' := by
  intro entry hentry
  rw [hcache] at hentry
  obtain ⟨now, m₀, m, hm, hold, hrest⟩ := h entry hentry
  obtain ⟨m', hm', hold'⟩ := hkeeps m hm
  exact ⟨now, m₀, m', hm', hold.trans hold', hrest⟩

theorem Faithful.cached {s : Transcript Lines} (h : Faithful view s) (now width : Nat) {m : UiMessage}
    (hm : m ∈ s.messages) : Faithful view (s.cachedMessageLines view now width m).2 := by
  unfold cachedMessageLines
  dsimp only
  split
  · exact h
  · intro entry hentry
    rcases List.mem_cons.mp hentry with rfl | hentry
    · exact ⟨now, m, m, hm, .refl m, rfl, rfl, rfl⟩
    · split at hentry
      · cases hentry
      · exact h entry hentry

theorem Faithful.draw {s : Transcript Lines} (h : Faithful view s) (now width : Nat)
    {l : List UiMessage} (hl : ∀ m ∈ l, m ∈ s.messages) :
    Faithful view (drawMessages view now width l s).2 := by
  induction l generalizing s with
  | nil => exact h
  | cons m l ih =>
    rw [drawMessages]
    have hm := hl m List.mem_cons_self
    have hrest := fun m' hm' => hl m' (List.mem_cons_of_mem m hm')
    split
    · obtain ⟨cache, hcache⟩ := cachedMessageLines_snd view (s := s) now width m
      refine ih (h.cached now width hm) ?_
      rw [hcache]
      exact hrest
    · exact ih h hrest

theorem Faithful.next {s : Transcript Lines} (h : Faithful view s) (op : Op Value) :
    Faithful view (s.next view op) := by
  cases op with
  | replaceSnapshot messages =>
    intro entry hentry
    cases hentry
  | pushUser content => exact h.keeps rfl (keeps_append _ _)
  | pushText role content => exact h.keeps rfl (keeps_append _ _)
  | pushTextForTurn role content turnId => exact h.keeps rfl (keeps_append _ _)
  | startTool turnId callId name round => exact h.keeps rfl (keeps_append _ _)
  | toggleToolDetails => exact h.keeps rfl (.refl _)
  | draw now width => exact h.draw now width fun _ hm => hm
  | appendAssistant turnId delta =>
    rw [Transcript.next, appendAssistant]
    split
    · exact h.keeps rfl (keeps_modifyLast (older_appendDelta delta) _)
    · exact h.keeps rfl (keeps_append _ _)
  | finishTool turnId callId name output success durationMs =>
    rw [Transcript.next, finishTool]
    have hfinished := fun l : List UiMessage => keeps_modifyLast (p := awaits turnId callId name)
      (older_finish output success durationMs) l
    split
    · exact h.keeps rfl (hfinished _)
    · exact h.keeps rfl ((keeps_append _ _).trans (hfinished _))

variable (view)

/-- What the cache has for a message was made from that message. -/
def OwnLines (s : Transcript Lines) : Prop :=
  ∀ m ∈ s.messages, ∀ width, ∀ entry ∈ s.renderCache, entry.1 = s.cacheKey width m →
    ∃ now m₀, Older m₀ m ∧ m₀.contentVersion = m.contentVersion ∧
      entry.2 = view.lines now m₀ s.showTools s.themeMode width

variable {view}

theorem Faithful.ownLines {s : Transcript Lines} (h : Faithful view s) (hids : s.ids.Nodup) :
    OwnLines view s := by
  intro m hm width entry hentry hkey
  obtain ⟨now, m₀, m', hm', hold, hid, hversion, hlines⟩ := h entry hentry
  rw [hkey] at hid hversion hlines
  have hm'm : m' = m := List.inj_on_of_nodup_map hids hm' hm (hold.id.symm.trans hid.symm)
  subst hm'm
  exact ⟨now, m₀, hold, hversion.symm, hlines⟩

/-! ## Snapshots and what is added to them -/

/-- A message of a snapshot is known by its place, if it has content. -/
theorem mem_ids_uiMessages {messages : List (Message Value)} {id : Nat} :
    id ∈ (uiMessages messages).map UiMessage.id ↔
      ∃ i m, messages[i]? = some m ∧ m.content.isSome ∧ id = i + 1 := by
  simp only [uiMessages, List.mem_map, List.mem_filterMap]
  constructor
  · rintro ⟨ui, ⟨⟨m, k⟩, hm, hui⟩, rfl⟩
    obtain ⟨hk, hget⟩ := List.mk_mem_zipIdx_iff_le_and_getElem?_sub.mp hm
    obtain ⟨content, hcontent, rfl⟩ := Option.map_eq_some_iff.mp hui
    refine ⟨k - 1, m, hget, by rw [hcontent]; rfl, ?_⟩
    show k = k - 1 + 1
    omega
  · rintro ⟨i, m, hget, hcontent, rfl⟩
    obtain ⟨content, hcontent⟩ := Option.isSome_iff_exists.mp hcontent
    refine ⟨⟨i + 1, m.role, .text content, 0, none⟩, ⟨(m, i + 1), ?_, ?_⟩, rfl⟩
    · exact List.mk_mem_zipIdx_iff_le_and_getElem?_sub.mpr ⟨by omega, hget⟩
    · simp [messageToUi, hcontent]

theorem ids_uiMessages_sublist (messages : List (Message Value)) (k : Nat) :
    (((messages.zipIdx k).filterMap fun (message, id) => messageToUi message id).map
      UiMessage.id).Sublist (List.range' k messages.length) := by
  induction messages generalizing k with
  | nil => exact List.Sublist.refl []
  | cons m messages ih =>
    rw [List.zipIdx_cons, List.length_cons, List.range'_succ, List.filterMap_cons]
    cases hcontent : m.content with
    | none =>
      have hui : messageToUi m k = none := by simp [messageToUi, hcontent]
      dsimp only
      rw [hui]
      exact (ih (k + 1)).cons k
    | some content =>
      have hui : messageToUi m k = some ⟨k, m.role, .text content, 0, none⟩ := by
        simp [messageToUi, hcontent]
      dsimp only
      rw [hui]
      exact (ih (k + 1)).cons_cons k

theorem nodup_ids_uiMessages (messages : List (Message Value)) :
    ((uiMessages messages).map UiMessage.id).Nodup :=
  (ids_uiMessages_sublist messages 1).nodup List.nodup_range'

/-- A transcript with the snapshot that it was replaced by, and the number of messages it has been given:
those of its last snapshot, with or without content, and those that were added since. -/
structure Tracked (Lines Value : Type) where
  state : Transcript Lines
  replacedBy : Option (List (Message Value)) := none
  given : Nat

namespace Tracked

def start (themeMode : TuiThemeMode) (messages : List (Message Value)) : Tracked Lines Value where
  state := fromSnapshot themeMode messages
  given := messages.length

def next (view : View Lines) (t : Tracked Lines Value) (op : Op Value) : Tracked Lines Value where
  state := t.state.next view op
  replacedBy :=
    match op with
    | .replaceSnapshot messages => some messages
    | _ => t.replacedBy
  given :=
    match op with
    | .replaceSnapshot messages => messages.length
    | op => if t.state.adds op then t.given + 1 else t.given

/-- The number that the next message gets is free: the message of the snapshot that comes after as many
messages as there are now has no content. -/
def Free (t : Tracked Lines Value) (op : Op Value) : Prop :=
  t.state.adds op = true → ∀ messages, t.replacedBy = some messages →
    ∀ m, messages[t.state.messages.length]? = some m → m.content = none

/-- The messages that are counted for the next number. -/
def base (t : Tracked Lines Value) : Nat :=
  match t.replacedBy with
  | none => t.given
  | some _ => t.state.messages.length

/-- The number of a message of the snapshot that the transcript was replaced by. -/
def Taken (t : Tracked Lines Value) (id : Nat) : Prop :=
  ∃ messages, t.replacedBy = some messages ∧ id ∈ (uiMessages messages).map UiMessage.id

structure Numbered (t : Tracked Lines Value) : Prop where
  next : t.given + 1 < 2 ^ 64 → t.state.nextMessageId = t.base + 1
  used : ∀ id ∈ t.state.ids, id ≤ t.base ∨ t.Taken id
  kept : ∀ id, t.Taken id → id ∈ t.state.ids
  counted : t.base ≤ t.given

variable {t : Tracked Lines Value}

theorem free_iff (op : Op Value) :
    t.Free op ↔ (t.state.adds op = true → ¬ t.Taken (t.base + 1)) := by
  unfold Free Taken base
  cases t.replacedBy with
  | none => simp
  | some messages =>
    refine imp_congr_right fun _ => ?_
    simp only [Option.some.injEq, forall_eq', exists_eq_left', mem_ids_uiMessages]
    constructor
    · rintro h ⟨i, m, hget, hcontent, he⟩
      cases he
      rw [h m hget] at hcontent
      cases hcontent
    · intro h m hget
      by_contra hcontent
      exact h ⟨_, m, hget, Option.isSome_iff_ne_none.mpr hcontent, rfl⟩

theorem numbered_start (themeMode : TuiThemeMode) (messages : List (Message Value)) :
    (start themeMode messages : Tracked Lines Value).Numbered where
  next := fun _ => rfl
  used := by
    intro id hid
    obtain ⟨i, m, hget, -, rfl⟩ := mem_ids_uiMessages.mp hid
    exact .inl (List.getElem?_eq_some_iff.mp hget).1
  kept := by
    rintro id ⟨messages', h, -⟩
    cases h
  counted := Nat.le_refl _

theorem length_uiMessages_le (messages : List (Message Value)) :
    (uiMessages messages).length ≤ messages.length := by
  have h := (ids_uiMessages_sublist messages 1).length_le
  rwa [List.length_map, List.length_range'] at h

variable {view : View Lines} {op : Op Value}

theorem numbered_replaced (t : Tracked Lines Value) (messages : List (Message Value)) :
    (t.next view (.replaceSnapshot messages)).Numbered where
  next := fun _ => rfl
  used := fun id hid => .inr ⟨messages, rfl, hid⟩
  kept := by
    rintro id ⟨messages', ⟨⟩, hid⟩
    exact hid
  counted := length_uiMessages_le messages

/-- What a step that is no replacement counts. -/
structure Counts (view : View Lines) (t : Tracked Lines Value) (op : Op Value) : Prop where
  replacedBy : (t.next view op).replacedBy = t.replacedBy
  given : (t.next view op).given = t.given + if t.state.adds op then 1 else 0
  base : (t.next view op).base = t.base + if t.state.adds op then 1 else 0

theorem counts_of_ne (view : View Lines) (t : Tracked Lines Value)
    (hop : ∀ messages, op ≠ .replaceSnapshot messages) : t.Counts view op := by
  have hreplaced : (t.next view op).replacedBy = t.replacedBy := by
    cases op with
    | replaceSnapshot messages => exact absurd rfl (hop messages)
    | _ => rfl
  have hgiven : (t.next view op).given = t.given + if t.state.adds op then 1 else 0 := by
    have hcount : (t.next view op).given = if t.state.adds op then t.given + 1 else t.given := by
      cases op with
      | replaceSnapshot messages => exact absurd rfl (hop messages)
      | _ => rfl
    rw [hcount]
    split <;> rfl
  refine ⟨hreplaced, hgiven, ?_⟩
  unfold base
  rw [hreplaced]
  cases t.replacedBy with
  | none => exact hgiven
  | some messages =>
    have hids := congrArg List.length (next_numbers view t.state op hop).1
    simp only [ids, List.length_map, List.length_append] at hids
    refine Eq.trans hids ?_
    split <;> rfl

theorem Numbered.next_step (h : t.Numbered) (op : Op Value)
    (hgiven : (t.next view op).given < 2 ^ 64) : (t.next view op).Numbered := by
  by_cases hop : ∃ messages, op = .replaceSnapshot messages
  · obtain ⟨messages, rfl⟩ := hop
    exact numbered_replaced t messages
  · obtain ⟨hids, hnext⟩ := next_numbers view t.state op (not_exists.mp hop)
    obtain ⟨hreplaced, hcount, hbase⟩ := counts_of_ne view t (not_exists.mp hop)
    have htaken : ∀ id, (t.next view op).Taken id ↔ t.Taken id := by
      intro id
      rw [Taken, hreplaced]
      rfl
    have hstate : (t.next view op).state = t.state.next view op := rfl
    have hle := h.counted
    cases hadds : t.state.adds op with
    | false =>
      simp only [hadds, Bool.false_eq_true, if_false, Nat.add_zero, List.append_nil] at *
      refine ⟨?_, ?_, ?_, ?_⟩
      · rw [hstate, hnext, hbase, hcount]
        exact h.next
      · rw [hstate, hids, hbase]
        exact fun id hid => (h.used id hid).imp_right (htaken id).mpr
      · rw [hstate, hids]
        exact fun id hid => h.kept id ((htaken id).mp hid)
      · omega
    | true =>
      simp only [hadds, if_true] at *
      have hnumber := h.next (by omega)
      refine ⟨?_, ?_, ?_, ?_⟩
      · intro hlt
        rw [hstate, hnext, hbase, hnumber, saturatingSucc, if_pos (by omega)]
      · rw [hstate, hids, hbase]
        intro id hid
        rcases List.mem_append.mp hid with hid | hid
        · rcases h.used id hid with hused | hused
          · exact .inl (by omega)
          · exact .inr ((htaken id).mpr hused)
        · rw [List.mem_singleton, hnumber] at hid
          exact .inl (by omega)
      · rw [hstate, hids]
        exact fun id hid => List.mem_append_left _ (h.kept id ((htaken id).mp hid))
      · omega

theorem nodup_next_iff (h : t.Numbered) (op : Op Value) (hgiven : (t.next view op).given < 2 ^ 64)
    (hnodup : t.state.ids.Nodup) : (t.next view op).state.ids.Nodup ↔ t.Free op := by
  by_cases hop : ∃ messages, op = .replaceSnapshot messages
  · obtain ⟨messages, rfl⟩ := hop
    refine iff_of_true (nodup_ids_uiMessages messages) fun hadds => ?_
    cases hadds
  · have hids := (next_numbers view t.state op (not_exists.mp hop)).1
    have hcount := (counts_of_ne view t (not_exists.mp hop)).given
    have hstate : (t.next view op).state = t.state.next view op := rfl
    rw [free_iff, hstate, hids]
    cases hadds : t.state.adds op with
    | false =>
      rw [if_neg Bool.false_ne_true, List.append_nil]
      exact iff_of_true hnodup fun h => absurd h Bool.false_ne_true
    | true =>
      rw [hadds, if_pos rfl] at hcount
      have hnumber := h.next (by omega)
      rw [if_pos rfl, hnumber, List.nodup_append_comm, List.singleton_append, List.nodup_cons]
      simp only [hnodup, and_true, true_imp_iff]
      refine not_congr ⟨fun hmem => ?_, h.kept _⟩
      exact (h.used _ hmem).resolve_left (by omega)

/-- Where the messages can be counted after a step that is no replacement, they can before it. -/
theorem given_lt_of_next (hop : ∀ messages, op ≠ .replaceSnapshot messages)
    (hgiven : (t.next view op).given < 2 ^ 64) : t.given < 2 ^ 64 := by
  have hcount := (counts_of_ne view t hop).given
  omega

theorem state_after (t : Tracked Lines Value) (ops : List (Op Value)) :
    (after (next view) t ops).state = after (Transcript.next view) t.state ops := by
  induction ops generalizing t with
  | nil => rfl
  | cons op ops ih => exact ih (t.next view op)

/-- No number is given twice, as long as the numbers can be counted, exactly if every step that adds a
message finds a free one. -/
theorem nodup_iff_along (view : View Lines) (themeMode : TuiThemeMode)
    (messages : List (Message Value)) (ops : List (Op Value)) :
    (∀ pre, pre <+: ops → (after (next view) (start themeMode messages) pre).given < 2 ^ 64 →
        (after (next view) (start themeMode messages) pre).state.ids.Nodup) ↔
      Along (next view) (fun t op => (t.next view op).given < 2 ^ 64 → t.Free op)
        (start themeMode messages) ops := by
  refine forall_prefix_iff_along
    (I := fun t : Tracked Lines Value => t.given < 2 ^ 64 → t.Numbered)
    (P := fun t : Tracked Lines Value => t.given < 2 ^ 64 → t.state.ids.Nodup) ?_ ?_ ?_ ?_ ?_ ops
  · intro t op hnumbered hlt
    by_cases hop : ∃ messages, op = .replaceSnapshot messages
    · obtain ⟨messages', rfl⟩ := hop
      exact numbered_replaced t messages'
    · exact (hnumbered (given_lt_of_next (not_exists.mp hop) hlt)).next_step op hlt
  · intro t op hnumbered hnodup hfree hlt
    by_cases hop : ∃ messages, op = .replaceSnapshot messages
    · obtain ⟨messages', rfl⟩ := hop
      exact nodup_ids_uiMessages messages'
    · have hgiven := given_lt_of_next (not_exists.mp hop) hlt
      exact (nodup_next_iff (hnumbered hgiven) op hlt (hnodup hgiven)).mpr (hfree hlt)
  · intro t op hnumbered hnodup hfree hkept
    obtain ⟨hlt, htaken⟩ := Classical.not_imp.mp hfree
    by_cases hop : ∃ messages, op = .replaceSnapshot messages
    · obtain ⟨messages', rfl⟩ := hop
      exact htaken fun hadds => by cases hadds
    · have hgiven := given_lt_of_next (not_exists.mp hop) hlt
      exact htaken ((nodup_next_iff (hnumbered hgiven) op hlt (hnodup hgiven)).mp (hkept hlt))
  · exact fun _ => numbered_start themeMode messages
  · exact fun _ => nodup_ids_uiMessages messages

end Tracked

/-! ## Runs -/

/-- No number is given to two messages, and the cache has no lines of another message. -/
structure Distinguished (view : View Lines) (s : Transcript Lines) : Prop where
  ids : s.ids.Nodup
  lines : OwnLines view s

theorem faithful_after (view : View Lines) (themeMode : TuiThemeMode)
    (messages : List (Message Value)) (ops : List (Op Value)) :
    Faithful view (after (next view) (fromSnapshot themeMode messages) ops) := by
  refine after_induct (G := fun _ _ => True) (fun _ op h _ => h.next op) ?_ (along_true _ ops)
  intro entry hentry
  cases hentry

/-- **Numbers.** As long as the messages can be counted, they are told apart in every state of a run
exactly if no step adds a message under a number that the last replacement has used. -/
theorem distinguished_iff (view : View Lines) (themeMode : TuiThemeMode)
    (messages : List (Message Value)) (ops : List (Op Value))
    (hgiven : ∀ pre, pre <+: ops →
      (after (Tracked.next view) (.start themeMode messages) pre).given < 2 ^ 64) :
    (∀ pre, pre <+: ops →
        Distinguished view (after (next view) (fromSnapshot themeMode messages) pre)) ↔
      Along (Tracked.next view) Tracked.Free (.start themeMode messages) ops := by
  have hrule := Tracked.nodup_iff_along view themeMode messages ops
  have hstate : ∀ pre, (after (Tracked.next view) (.start themeMode messages) pre).state =
      after (next view) (fromSnapshot themeMode messages) pre := fun pre =>
    Tracked.state_after (Tracked.start themeMode messages) pre
  constructor
  · intro h
    refine along_iff.mpr fun pre op post hops => ?_
    have hall := hrule.mp fun pre hpre _ => by
      rw [hstate]
      exact (h pre hpre).ids
    refine along_iff.mp hall pre op post hops ?_
    have hlt := hgiven (pre ++ [op]) ⟨post, by rw [hops]; simp⟩
    rwa [after_append] at hlt
  · intro h pre hpre
    have hids := hrule.mpr (along_mono h fun _ _ _ hfree _ => hfree) pre hpre (hgiven pre hpre)
    rw [hstate] at hids
    exact ⟨hids, (faithful_after view themeMode messages pre).ownLines hids⟩

/-- The lines of a message are its text. -/
def plainView : View String := ⟨fun _ message _ _ _ =>
  match message.kind with
  | .text content => content
  | .tool tool => tool.name⟩

/-- A session whose first message only has tool calls. -/
def calledSession : List (Message Unit) :=
  [.assistantToolCalls [⟨"c", "read_file", ()⟩], .text .assistant "b"]

/-- A message is sent in the session. -/
def sentOps : List (Op Unit) := [.draw 0 80, .pushUser "c", .draw 1 80]

/-- The session is resumed before that. -/
def resumedOps : List (Op Unit) := .replaceSnapshot calledSession :: sentOps

theorem given_sentOps : ∀ pre, pre <+: sentOps →
    (after (Tracked.next plainView) (.start .dark calledSession) pre).given < 2 ^ 64 := by
  intro pre hpre
  have hall : ∀ pre ∈ sentOps.inits,
      (after (Tracked.next plainView) (.start .dark calledSession) pre).given < 2 ^ 64 := by
    decide +kernel
  exact hall pre ((List.mem_inits pre sentOps).mpr hpre)

/-- Where the session is the first, its messages have been counted. -/
theorem distinguished_sentOps : Distinguished plainView
    (after (next plainView) (fromSnapshot .dark calledSession) sentOps) := by
  refine (distinguished_iff plainView .dark calledSession sentOps given_sentOps).mpr ?_ sentOps
    (List.prefix_refl sentOps)
  refine ⟨?_, ?_, ?_, trivial⟩
  all_goals
    rintro - messages hreplaced
    cases hreplaced

/-- The message that is sent gets the number of the one before it. -/
theorem not_distinguished_resumedOps :
    ¬ ∀ (view : View String) (messages : List (Message Unit)) (ops : List (Op Unit)),
      (∀ pre, pre <+: ops →
        (after (Tracked.next view) (.start .dark messages) pre).given < 2 ^ 64) →
      Distinguished view (after (next view) (fromSnapshot .dark messages) ops) := by
  intro h
  have hgiven : ∀ pre ∈ resumedOps.inits,
      (after (Tracked.next plainView) (.start .dark ([] : List (Message Unit))) pre).given <
        2 ^ 64 := by
    decide +kernel
  have hids := (h plainView [] resumedOps fun pre hpre =>
    hgiven pre ((List.mem_inits pre resumedOps).mpr hpre)).ids
  exact absurd hids (by decide +kernel)

/-- And it is shown with the lines of that. -/
example : ((after (next plainView) (fromSnapshot .dark ([] : List (Message Unit)))
    resumedOps).draw plainView 2 80).1 = ["b", "b"] := by decide +kernel

end Transcript

end AgentDaemon.Entry
