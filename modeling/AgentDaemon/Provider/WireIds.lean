import AgentDaemon.Provider.Requests

/-!
The ids of tool calls and results in the requests of OpenAI and Anthropic. In the history they are
encoded identities, and the provider is to see the id that the call had on the wire.
-/

namespace AgentDaemon.Provider

/-- Calls are made by assistant messages, and every tool message is the result of one. -/
def Message.Formed (message : Message Json) : Prop :=
  match message.role with
  | .assistant => message.toolCallId = none
  | .tool => message.toolCalls = [] ∧ message.toolCallId.isSome = true
  | .system | .user => message.toolCalls = [] ∧ message.toolCallId = none

def Message.internalIds (message : Message Json) : List String :=
  message.toolCalls.map (·.id) ++ message.toolCallId.toList

/-! ## The ids in a request -/

/-- The ids in a message for OpenAI. -/
def Openai.messageIds (value : Json) : List Json :=
  (((value.get? "tool_calls").bind Json.asArray?).getD []).map (·.index "id") ++
    (value.get? "tool_call_id").toList

/-- The ids in a block for Anthropic: of a call, or of the call that it is the result of. -/
def Anthropic.blockIds (block : Json) : List Json :=
  (block.get? "id").toList ++ (block.get? "tool_use_id").toList

def Openai.sentIds (print : Json → String) (messages : List (Message Json)) : List Json :=
  (Openai.requestMessages print messages).flatMap messageIds

def Anthropic.sentIds (messages : List (Message Json)) : List Json :=
  ((Anthropic.requestMessages messages).2.flatMap (·.content)).flatMap blockIds

theorem lookup_optionalField {key field : String} (value : Option Json)
    (fields : List (String × Json)) : (optionalField field value ++ fields).lookup key =
      if key = field then value.or (fields.lookup key) else fields.lookup key := by
  cases value with
  | none => simp [optionalField]
  | some value =>
    by_cases h : key = field
    · simp [optionalField, h]
    · have hne : (key == field) = false := by simpa using h
      simp [optionalField, List.lookup_cons, h, hne]

theorem lookup_optionalField_last {key field : String} (value : Option Json) :
    (optionalField field value).lookup key = if key = field then value else none := by
  have h := @lookup_optionalField key field value []
  rw [List.append_nil] at h
  rw [h]
  cases value <;> rfl

theorem Openai.get?_toolCalls (print : Json → String) (message : Message Json) :
    (Openai.requestMessage print message).get? "tool_calls" = if message.toolCalls.isEmpty then none
      else some (.arr (message.toolCalls.map (Openai.requestCall print))) := by
  unfold Openai.requestMessage Json.get?
  simp only [List.append_assoc, lookup_optionalField, lookup_optionalField_last, List.cons_append,
    List.nil_append, List.lookup_cons]
  simp

theorem Openai.get?_toolCallId (print : Json → String) (message : Message Json) :
    (Openai.requestMessage print message).get? "tool_call_id" =
      message.toolCallId.map fun id => .str ((outboundWireId id).getD id) := by
  unfold Openai.requestMessage Json.get?
  simp only [List.append_assoc, lookup_optionalField, lookup_optionalField_last, List.cons_append,
    List.nil_append, List.lookup_cons]
  simp

/-- What an id of the history is sent as. -/
def sentId (id : String) : Json := .str ((outboundWireId id).getD id)

theorem Openai.sentIds_eq (print : Json → String) (messages : List (Message Json)) :
    Openai.sentIds print messages = (messages.flatMap Message.internalIds).map sentId := by
  have hmessage : ∀ message, Openai.messageIds (Openai.requestMessage print message) =
      message.internalIds.map sentId := by
    intro message
    rw [Openai.messageIds, Openai.get?_toolCalls, Openai.get?_toolCallId, Message.internalIds,
      List.map_append, List.map_map]
    congr 1
    · cases message.toolCalls with
      | nil => rfl
      | cons call calls =>
        simp [Json.asArray?, Openai.requestCall, Json.index, Json.get?, List.lookup_cons, sentId,
          Function.comp_def]
    · cases message.toolCallId <;> rfl
  induction messages with
  | nil => rfl
  | cons message messages ih =>
    rw [List.flatMap_cons, List.map_append, ← ih, ← hmessage]
    rfl

/-- An id that is not empty is sent in the same way to both. -/
theorem Anthropic.getD_outboundWireId {id : String} (h : id ≠ "") (other : String) :
    (outboundWireId id).getD other = (outboundWireId id).getD id := by
  unfold outboundWireId
  rw [if_neg (by simpa using h)]
  cases (ExecutionIdentity.decode id).bind ExecutionIdentity.wireId <;> rfl

theorem Anthropic.blockIds_toolUse {call : ToolCall Json} (h : call.id ≠ "") :
    Anthropic.blockIds (Anthropic.toolUseBlock call) = [sentId call.id] := by
  rw [sentId, ← Anthropic.getD_outboundWireId h (Anthropic.positionWireId call.id)]
  simp [Anthropic.blockIds, Anthropic.toolUseBlock, Json.get?, List.lookup_cons]

theorem Anthropic.blockIds_text (content : Option String) :
    (content.map Anthropic.textBlock).toList.flatMap Anthropic.blockIds = [] := by
  cases content <;> simp [Anthropic.blockIds, Anthropic.textBlock, Json.get?, List.lookup_cons]

theorem Anthropic.blockIds_conversion {message : Message Json} (hformed : message.Formed)
    (hids : ∀ id ∈ message.internalIds, id ≠ "") (hrole : message.role ≠ .system) :
    (Anthropic.conversion message).flatMap Anthropic.blockIds = message.internalIds.map sentId := by
  unfold Message.Formed at hformed
  unfold Anthropic.conversion
  cases hr : message.role with
  | system => exact absurd hr hrole
  | user =>
    rw [hr] at hformed
    rw [Anthropic.userBlocks, List.flatMap_append, Anthropic.blockIds_text, Message.internalIds,
      hformed.1, hformed.2, List.flatMap_map]
    simp [Anthropic.blockIds, Anthropic.imageBlock, Json.get?, List.lookup_cons]
  | assistant =>
    have hcalls : ∀ call ∈ message.toolCalls, Anthropic.blockIds (Anthropic.toolUseBlock call) =
        [sentId call.id] := by
      intro call hcall
      refine Anthropic.blockIds_toolUse (hids call.id ?_)
      exact List.mem_append_left _ (List.mem_map_of_mem hcall)
    rw [hr] at hformed
    rw [Anthropic.assistantBlocks, List.flatMap_append, Anthropic.blockIds_text, Message.internalIds,
      hformed, List.flatMap_map, List.flatMap_congr hcalls]
    simp [← List.map_eq_flatMap, Function.comp_def]
  | tool =>
    rw [hr] at hformed
    obtain ⟨id, hid⟩ := Option.isSome_iff_exists.mp hformed.2
    have hne : id ≠ "" := hids id (by simp [Message.internalIds, hid])
    have hsent := Anthropic.getD_outboundWireId hne (Anthropic.positionWireId id)
    simp [Anthropic.toolResultBlocks, Anthropic.blockIds, Json.get?, List.lookup_cons, hid, hsent,
      Message.internalIds, hformed.1, sentId]

theorem Anthropic.sentIds_eq {messages : List (Message Json)}
    (hformed : ∀ message ∈ messages, message.Formed)
    (hids : ∀ id ∈ messages.flatMap Message.internalIds, id ≠ "") :
    Anthropic.sentIds messages = (messages.flatMap Message.internalIds).map sentId := by
  rw [Anthropic.sentIds, Anthropic.flatMap_content]
  induction messages with
  | nil => rfl
  | cons message messages ih =>
    have hrest := ih (fun m hm => hformed m (List.mem_cons_of_mem _ hm)) fun id hid =>
      hids id (by rw [List.flatMap_cons]; exact List.mem_append_right _ hid)
    have hmessage := hformed message List.mem_cons_self
    rw [List.flatMap_cons, List.map_append, ← hrest]
    by_cases hrole : message.role = .system
    · have hnone : message.internalIds = [] := by
        unfold Message.Formed at hmessage
        rw [hrole] at hmessage
        simp [Message.internalIds, hmessage]
      rw [List.filter_cons_of_neg (by simp [hrole]), hnone]
      rfl
    · rw [List.filter_cons_of_pos (by simp [hrole]), List.flatMap_cons, List.flatMap_append,
        Anthropic.blockIds_conversion hmessage _ hrole]
      exact fun id hid => hids id (by rw [List.flatMap_cons]; exact List.mem_append_left _ hid)

/-! ## Identities -/

/-- The name of an identity on the wire, made up where the call had none. -/
def ExecutionIdentity.wireName (identity : ExecutionIdentity) : String :=
  match identity.source with
  | .wireId id => id
  | .position position => "toolu_pos_" ++ toString position

/-- What is sent for the identities of the calls and results of a history, in their order. -/
structure WireLaw (identities : List ExecutionIdentity) (sent : List Json) : Prop where
  /-- No identity is sent as it is. -/
  hidden : ∀ identity : ExecutionIdentity, .str identity.encode ∉ sent
  mapped : sent = identities.map fun identity => .str identity.wireName
  /-- A result has the id of its call. -/
  answers : ∀ i j : Nat, identities[i]? = identities[j]? → sent[i]? = sent[j]?

theorem encode_ne_empty (identity : ExecutionIdentity) : identity.encode ≠ "" := by
  intro h
  have hlist := congrArg String.toList h
  unfold ExecutionIdentity.encode at hlist
  split at hlist <;> simp at hlist

theorem sentId_wire (domain : ApiType) (id : String) :
    sentId (ExecutionIdentity.wire domain id).encode = .str id := by
  rw [sentId, outboundWireId, ExecutionIdentity.decode_wire]
  rfl

theorem sentId_position (domain : ApiType) (n : Nat) :
    sentId (ExecutionIdentity.position domain n).encode =
      .str (ExecutionIdentity.position domain n).encode := by
  have hne : (ExecutionIdentity.position domain n).encode.isEmpty = false := by
    simpa using encode_ne_empty (.position domain n)
  rw [sentId, outboundWireId, ExecutionIdentity.wireId_decode_position, hne]
  rfl

/-- Every call had an id on the wire, and none that looks like an encoded identity. -/
def Nameable (identities : List ExecutionIdentity) : Prop :=
  ∀ identity ∈ identities, ∃ domain id, identity = .wire domain id ∧
    ∀ other : ExecutionIdentity, id ≠ other.encode

theorem wireLaw_map_iff (identities : List ExecutionIdentity) :
    WireLaw identities ((identities.map ExecutionIdentity.encode).map sentId) ↔
      Nameable identities := by
  rw [List.map_map]
  constructor
  · rintro ⟨hhidden, -, -⟩ ⟨domain, source⟩ hmem
    have hsent := List.mem_map_of_mem (f := sentId ∘ ExecutionIdentity.encode) hmem
    rw [Function.comp_apply] at hsent
    cases source with
    | position n =>
      have hsame : sentId (ExecutionIdentity.mk domain (.position n)).encode = _ :=
        sentId_position domain n
      rw [hsame] at hsent
      exact absurd hsent (hhidden _)
    | wireId id =>
      have hsame : sentId (ExecutionIdentity.mk domain (.wireId id)).encode = _ :=
        sentId_wire domain id
      rw [hsame] at hsent
      refine ⟨domain, id, rfl, ?_⟩
      rintro other rfl
      exact hhidden other hsent
  · intro h
    have hmapped : identities.map (sentId ∘ ExecutionIdentity.encode) =
        identities.map fun identity => .str identity.wireName := by
      refine List.map_congr_left fun identity hmem => ?_
      obtain ⟨domain, id, rfl, -⟩ := h identity hmem
      exact sentId_wire domain id
    refine ⟨fun other hmem => ?_, hmapped, fun i j hij => ?_⟩
    · obtain ⟨identity, hidentity, hsent⟩ := List.mem_map.mp hmem
      obtain ⟨domain, id, rfl, hne⟩ := h identity hidentity
      rw [Function.comp_apply, sentId_wire] at hsent
      exact hne other (Json.str.inj hsent)
    · rw [List.getElem?_map, List.getElem?_map, hij]

/-- A call with an id and its result. -/
def calledWith (id : String) : List (Message Json) :=
  [.assistantToolCalls [⟨id, "read", .obj []⟩], .toolResult ⟨id, "read", .obj []⟩ "text"]

theorem formed_calledWith (id : String) : ∀ message ∈ calledWith id, message.Formed := by
  simp [calledWith, Message.Formed, Message.assistantToolCalls, Message.toolResult]

end AgentDaemon.Provider
