import AgentDaemon.Provider.Identity
import AgentDaemon.Provider.Message
import Mathlib.Data.List.Chain

/-!
What the adapters make of a conversation. Anthropic takes two roles that alternate, so that
messages of one role that follow each other are merged (`requestMessages_spec`), and the system
messages apart.
-/

namespace AgentDaemon.Provider

/-- A field of an object, where it has a value. -/
def optionalField (key : String) (value : Option Json) : List (String × Json) :=
  (value.map fun value => (key, value)).toList

namespace Openai

def roleName : Role → String
  | .system => "system"
  | .user => "user"
  | .assistant => "assistant"
  | .tool => "tool"

variable (print : Json → String)

def messageContent (message : Message Json) : Option Json :=
  if message.imageUrls.isEmpty then message.content.map .str
  else some (.arr ((message.content.map fun content =>
      Json.obj [("text", .str content), ("type", .str "text")]).toList ++
    message.imageUrls.map fun url =>
      .obj [("image_url", .obj [("url", .str url)]), ("type", .str "image_url")]))

def requestCall (call : ToolCall Json) : Json :=
  .obj [("function", .obj [("arguments", .str (print call.arguments)), ("name", .str call.name)]),
    ("id", .str ((outboundWireId call.id).getD call.id)), ("type", .str "function")]

/-- `print` is `Value::to_string`. -/
def requestMessage (message : Message Json) : Json :=
  .obj (optionalField "content" (messageContent message) ++
    optionalField "name" (message.name.map .str) ++ [("role", .str (roleName message.role))] ++
    optionalField "tool_call_id" (message.toolCallId.map fun toolCallId =>
      .str ((outboundWireId toolCallId).getD toolCallId)) ++
    optionalField "tool_calls" (if message.toolCalls.isEmpty then none
      else some (.arr (message.toolCalls.map (requestCall print)))))

def requestMessages (messages : List (Message Json)) : List Json :=
  messages.map (requestMessage print)

end Openai

namespace Anthropic

/-- An entry of `messages`. -/
structure Entry where
  role : String
  content : List Json

def Entry.toJson (entry : Entry) : Json :=
  .obj [("content", .arr entry.content), ("role", .str entry.role)]

def positionWireId (value : String) : String :=
  match ExecutionIdentity.decode value with
  | some identity =>
    match identity.source with
    | .position position => "toolu_pos_" ++ toString position
    | .wireId id => id
  | none => value

/-- Media type and data of a data URL. -/
def parseDataUrl (value : String) : Option (String × String) := do
  let rest ← value.toList.dropPrefix? "data:".toList
  let (mediaType, data) ← splitOnce ";base64,".toList rest
  return (String.ofList mediaType, String.ofList data)

def textBlock (content : String) : Json := .obj [("text", .str content), ("type", .str "text")]

def imageBlock (image : String) : Json :=
  .obj [("source", match parseDataUrl image with
      | some (mediaType, data) => .obj [("data", .str data), ("media_type", .str mediaType),
        ("type", .str "base64")]
      | none => .obj [("type", .str "url"), ("url", .str image)]),
    ("type", .str "image")]

def userBlocks (message : Message Json) : List Json :=
  (message.content.map textBlock).toList ++ message.imageUrls.map imageBlock

def toolUseBlock (call : ToolCall Json) : Json :=
  .obj [("id", .str ((outboundWireId call.id).getD (positionWireId call.id))),
    ("input", call.arguments), ("name", .str call.name), ("type", .str "tool_use")]

def assistantBlocks (message : Message Json) : List Json :=
  (message.content.map textBlock).toList ++ message.toolCalls.map toolUseBlock

def toolResultBlocks (message : Message Json) : List Json :=
  [.obj [("content", .str (message.content.getD "")),
    ("tool_use_id", .str ((message.toolCallId.bind outboundWireId).getD
      (positionWireId (message.toolCallId.getD "tool")))),
    ("type", .str "tool_result")]]

/-- The role and the blocks of a message that is no system message. -/
def blocksOf (message : Message Json) : Option Entry :=
  match message.role with
  | .user => some ⟨"user", userBlocks message⟩
  | .assistant => some ⟨"assistant", assistantBlocks message⟩
  | .tool => some ⟨"user", toolResultBlocks message⟩
  | .system => none

/-- Blocks go into the last entry, where it has their role. -/
def pushEntry (output : List Entry) (entry : Entry) : List Entry :=
  match output.getLast? with
  | some last =>
    if last.role = entry.role then
      output.dropLast ++ [{ last with content := last.content ++ entry.content }]
    else output ++ [entry]
  | none => [entry]

/-- The contents of the system messages, and the entries for the others. -/
def collectMessages : List (Message Json) → List String → List Entry → List String × List Entry
  | [], system, output => (system, output)
  | message :: messages, system, output =>
    match blocksOf message with
    | none => collectMessages messages (system ++ message.content.toList) output
    | some entry => collectMessages messages system (pushEntry output entry)

def requestMessages (messages : List (Message Json)) : String × List Entry :=
  let (system, output) := collectMessages messages [] []
  ("\n\n".intercalate system, output)

/-! ## Merging -/

/-- Neighbours have different roles. -/
def Alternating (output : List Entry) : Prop := output.IsChain fun a b => a.role ≠ b.role

/-- The blocks of some entries, each with the role it is under. -/
def placed (output : List Entry) : List (String × Json) :=
  output.flatMap fun entry => entry.content.map fun block => (entry.role, block)

theorem map_snd_placed (output : List Entry) :
    (placed output).map Prod.snd = output.flatMap (·.content) := by
  induction output with
  | nil => rfl
  | cons entry output ih =>
    simp only [placed, List.flatMap_cons, List.map_append] at ih ⊢
    rw [ih]
    simp [Function.comp_def]

theorem placed_append (l m : List Entry) : placed (l ++ m) = placed l ++ placed m :=
  List.flatMap_append

theorem placed_pushEntry (output : List Entry) (entry : Entry) :
    placed (pushEntry output entry) = placed output ++ placed [entry] := by
  unfold pushEntry
  cases hlast : output.getLast? with
  | none =>
    rw [List.getLast?_eq_none_iff.mp hlast]
    rfl
  | some last =>
    dsimp only
    split
    · rename_i hrole
      obtain ⟨init, rfl⟩ := List.getLast?_eq_some_iff.mp hlast
      rw [List.dropLast_concat]
      simp [placed, hrole]
    · exact placed_append output [entry]

theorem alternating_pushEntry {output : List Entry} (h : Alternating output) (entry : Entry) :
    Alternating (pushEntry output entry) := by
  unfold pushEntry
  cases hlast : output.getLast? with
  | none => exact List.isChain_singleton entry
  | some last =>
    dsimp only
    obtain ⟨init, rfl⟩ := List.getLast?_eq_some_iff.mp hlast
    obtain ⟨hinit, -, hnext⟩ := List.isChain_append.mp h
    split
    · rw [List.dropLast_concat]
      refine List.isChain_append.mpr ⟨hinit, List.isChain_singleton _, ?_⟩
      -- The entry keeps its role when blocks are added to it.
      intro before hbefore after hafter
      cases Option.mem_some_iff.mp hafter
      exact hnext before hbefore last rfl
    · rename_i hrole
      refine List.isChain_append.mpr ⟨h, List.isChain_singleton _, ?_⟩
      intro before hbefore after hafter
      cases Option.mem_some_iff.mp hafter
      rw [List.getLast?_concat] at hbefore
      cases Option.mem_some_iff.mp hbefore
      exact hrole

theorem collectMessages_spec (messages : List (Message Json)) (system : List String)
    (output : List Entry) (h : Alternating output) :
    (collectMessages messages system output).1 =
        system ++ (messages.filter (·.role = .system)).filterMap (·.content) ∧
      placed (collectMessages messages system output).2 =
        placed output ++ placed (messages.filterMap blocksOf) ∧
      Alternating (collectMessages messages system output).2 := by
  induction messages generalizing system output with
  | nil => simp [collectMessages, placed, h]
  | cons message messages ih =>
    rw [collectMessages]
    cases hblocks : blocksOf message with
    | none =>
      have hrole : message.role = .system := by
        unfold blocksOf at hblocks
        split at hblocks
        · cases hblocks
        · cases hblocks
        · cases hblocks
        · assumption
      obtain ⟨hsystem, hplaced, halternating⟩ := ih (system ++ message.content.toList) output h
      refine ⟨?_, ?_, halternating⟩
      · dsimp only
        rw [hsystem, List.filter_cons_of_pos (by simp [hrole]), List.append_assoc]
        cases hcontent : message.content <;> simp [hcontent]
      · rw [List.filterMap_cons_none hblocks]
        exact hplaced
    | some entry =>
      have hrole : message.role ≠ .system := by
        intro hrole
        simp [blocksOf, hrole] at hblocks
      obtain ⟨hsystem, hplaced, halternating⟩ :=
        ih system (pushEntry output entry) (alternating_pushEntry h entry)
      refine ⟨?_, ?_, halternating⟩
      · dsimp only
        rw [hsystem, List.filter_cons_of_neg (by simp [hrole])]
      · dsimp only
        rw [hplaced, placed_pushEntry, List.filterMap_cons_some hblocks, List.append_assoc,
          ← placed_append]
        rfl

/-- The blocks that a message is converted to. -/
def conversion (message : Message Json) : List Json :=
  match message.role with
  | .user => userBlocks message
  | .assistant => assistantBlocks message
  | .tool => toolResultBlocks message
  | .system => []

theorem flatMap_blocksOf (messages : List (Message Json)) :
    (messages.filterMap blocksOf).flatMap (·.content) =
      (messages.filter (·.role ≠ .system)).flatMap conversion := by
  induction messages with
  | nil => rfl
  | cons message messages ih =>
    cases hrole : message.role <;> simp [blocksOf, conversion, hrole, ih]

theorem flatMap_content (messages : List (Message Json)) :
    (requestMessages messages).2.flatMap (·.content) =
      (messages.filter (·.role ≠ .system)).flatMap conversion := by
  obtain ⟨-, hplaced, -⟩ := collectMessages_spec messages [] [] .nil
  rw [← flatMap_blocksOf, ← map_snd_placed, ← map_snd_placed]
  exact congrArg _ hplaced

/-- **Conversion.** The roles of the entries alternate, their blocks are those of the messages in
their order, and the system messages are joined. -/
theorem requestMessages_spec (messages : List (Message Json)) :
    Alternating (requestMessages messages).2 ∧
      (requestMessages messages).2.flatMap (·.content) =
        (messages.filter (·.role ≠ .system)).flatMap conversion ∧
      placed (requestMessages messages).2 = placed (messages.filterMap blocksOf) ∧
      (requestMessages messages).1 =
        "\n\n".intercalate ((messages.filter (·.role = .system)).filterMap (·.content)) := by
  obtain ⟨hsystem, hplaced, halternating⟩ := collectMessages_spec messages [] [] .nil
  refine ⟨halternating, flatMap_content messages, hplaced, ?_⟩
  show "\n\n".intercalate (collectMessages messages [] []).1 = _
  rw [hsystem, List.nil_append]

/-- A result and the question after it are one entry. -/
example : (requestMessages [.assistantToolCalls [⟨"a", "read", .null⟩], .text .system "rules",
      .toolResult ⟨"a", "read", .null⟩ "text", .text .user "next"]).2.map
    (fun entry => (entry.role, entry.content.length)) = [("assistant", 1), ("user", 2)] := by
  decide +kernel

end Anthropic

end AgentDaemon.Provider
