import AgentDaemon.Lib.Text
import AgentDaemon.Provider.Events

/-!
Execution identities as they come back from a session: `decode` reads what `encode` writes, and
`outbound_wire_id` is what an id of the history is sent as.
-/

namespace AgentDaemon.Provider

/-- `ApiType::from_str`. -/
def ApiType.fromStr? (value : List Char) : Option ApiType :=
  let name := (trimMatches isWhiteSpace value).map Char.toLower
  if name = "openai-chat".toList then some .openaiChat
  else if name = "anthropic-messages".toList then some .anthropicMessages
  else if name = "ollama".toList then some .ollama
  else none

theorem ApiType.fromStr?_asStr (domain : ApiType) :
    ApiType.fromStr? domain.asStr.toList = some domain := by
  cases domain <;> decide +kernel

namespace ExecutionIdentity

def wireId (identity : ExecutionIdentity) : Option String :=
  match identity.source with
  | .wireId id => some id
  | .position _ => none

def decode (value : String) : Option ExecutionIdentity :=
  match splitN [':'] 4 value.toList with
  | [tag, domain, sourceKind, source] =>
    if tag = "tc1".toList then do
      let domain ← ApiType.fromStr? domain
      if sourceKind = "id".toList then do
        let bytes ← Base64.decode source
        let id ← String.fromUTF8? bytes.toByteArray
        return wire domain id
      else if sourceKind = "pos".toList then (parseU64 source).map (position domain)
      else none
    else none
  | _ => none

theorem not_mem_asStr (domain : ApiType) : ':' ∉ domain.asStr.toList := by
  cases domain <;> decide +kernel

/-- The parts of an encoded identity. -/
theorem splitN_parts (domain : ApiType) {kind : List Char} (hkind : ':' ∉ kind)
    (source : List Char) :
    splitN [':'] 4 ("tc1:".toList ++ domain.asStr.toList ++ ':' :: (kind ++ ':' :: source)) =
      ["tc1".toList, domain.asStr.toList, kind, source] := by
  have hlist : "tc1:".toList ++ domain.asStr.toList ++ ':' :: (kind ++ ':' :: source) =
      "tc1".toList ++ ':' :: (domain.asStr.toList ++ ':' :: (kind ++ ':' :: source)) := by simp
  rw [hlist, splitN_char (by decide), splitN_char (not_mem_asStr domain), splitN_char hkind, splitN]

theorem fromUTF8?_data (id : String) :
    String.fromUTF8? id.toByteArray.data.toList.toByteArray = some id := by
  have hbytes : id.toByteArray.data.toList.toByteArray = id.toByteArray := by
    apply ByteArray.ext
    simp
  rw [hbytes, String.fromUTF8?, dif_pos id.isValidUTF8]
  rfl

/-- The id on the wire is read back. -/
theorem decode_wire (domain : ApiType) (id : String) :
    decode (wire domain id).encode = some (wire domain id) := by
  have hlist : (wire domain id).encode.toList = "tc1:".toList ++ domain.asStr.toList ++
      ':' :: ("id".toList ++ ':' :: Base64.encode id.toByteArray.data.toList) := by
    simp [encode, wire]
  rw [decode, hlist, splitN_parts domain (by decide)]
  simp [ApiType.fromStr?_asStr, Base64.decode_encode, fromUTF8?_data]

theorem toList_encode_position (domain : ApiType) (n : Nat) :
    (position domain n).encode.toList = "tc1:".toList ++ domain.asStr.toList ++
      ':' :: ("pos".toList ++ ':' :: (toString n).toList) := by
  simp [encode, position]

/-- A position is no id on the wire. -/
theorem wireId_decode_position (domain : ApiType) (n : Nat) :
    (decode (position domain n).encode).bind wireId = none := by
  rw [decode, toList_encode_position, splitN_parts domain (by decide)]
  simp [ApiType.fromStr?_asStr, wireId, position]

/-- The position is a `u64`. -/
def Fits (identity : ExecutionIdentity) : Prop :=
  match identity.source with
  | .wireId _ => True
  | .position n => n < 2 ^ 64

theorem decode_position (domain : ApiType) {n : Nat} (h : n < 2 ^ 64) :
    decode (position domain n).encode = some (position domain n) := by
  rw [decode, toList_encode_position, splitN_parts domain (by decide)]
  simp [ApiType.fromStr?_asStr, parseU64_toDigits h]

/-- An identity is read back. -/
theorem decode_encode {identity : ExecutionIdentity} (h : identity.Fits) :
    decode identity.encode = some identity := by
  obtain ⟨domain, source⟩ := identity
  cases source with
  | wireId id => exact decode_wire domain id
  | position n => exact decode_position domain h

end ExecutionIdentity

/-- An empty id is sent as none. -/
def outboundWireId (internalId : String) : Option String :=
  ((ExecutionIdentity.decode internalId).bind ExecutionIdentity.wireId).or
    (if internalId.isEmpty then none else some internalId)

end AgentDaemon.Provider
