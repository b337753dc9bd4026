import AgentDaemon.Daemon.Feed
import AgentDaemon.Lib.ByteLines
import AgentDaemon.Lib.Document
import AgentDaemon.Lib.Utf8
import Mathlib.Algebra.Ring.Int.Defs
import Mathlib.Algebra.Ring.Nat

/-!
The frames of the daemon protocol, one on each line. `SerdeJson` is what the protocol uses of the
crate, `SerdeJson.Lawful` what is documented of it for one document. A frame is read back as it was
sent unless its text has exactly the maximal length, or holds a `null` for an optional field, or is
something that `serde_json` does not read back (`roundTrips_iff`).
-/

namespace AgentDaemon.Daemon.Protocol

open Document ByteLines

def jsonrpcVersion : String := "2.0"

def maxFrameBytes : Nat := 4 * 1024 * 1024

variable {F : Type}

/-! ## Requests and frames -/

/-- The number of an id is an `u64`. -/
def IdFits : RequestId → Prop
  | .number n => n < 2 ^ 64
  | .string _ => True

instance : (id : RequestId) → Decidable (IdFits id)
  | .number n => inferInstanceAs (Decidable (n < 2 ^ 64))
  | .string _ => isTrue trivial

structure JsonRpcRequest (F : Type) where
  jsonrpc : String
  id : RequestId
  method : String
  params : Document F
  idFits : IdFits id

structure RpcError (F : Type) where
  code : Int64
  message : String
  data : Option (Document F)

structure JsonRpcResponse (F : Type) where
  jsonrpc : String
  id : RequestId
  result : Option (Document F)
  error : Option (RpcError F)
  idFits : IdFits id

structure EventFrame (F : Type) where
  jsonrpc : String
  requestId : RequestId
  event : EventKind
  data : Document F
  runId : Option RunId
  seq : Option UInt64
  idFits : IdFits requestId

inductive ServerFrame (F : Type) where
  | event (frame : EventFrame F)
  | response (frame : JsonRpcResponse F)

def ServerFrame.jsonrpc : ServerFrame F → String
  | event frame => frame.jsonrpc
  | response frame => frame.jsonrpc

/-- `server_frame_request_id`. -/
def serverFrameRequestId : ServerFrame F → RequestId
  | .event frame => frame.requestId
  | .response frame => frame.id

def JsonRpcResponse.failure (id : RequestId) (h : IdFits id) (code : Int64) (message : String) :
    JsonRpcResponse F where
  jsonrpc := jsonrpcVersion
  id := id
  result := none
  error := some ⟨code, message, none⟩
  idFits := h

/-! ## `Serialize` -/

def idDocument : RequestId → Document F
  | .number n => .int n
  | .string s => .str s

/-- A field that is left out if there is nothing in it. -/
def skipNone (name : String) (value : Option (Document F)) : List (String × Document F) :=
  (value.map fun d => (name, d)).toList

namespace JsonRpcRequest

def document (r : JsonRpcRequest F) : Document F :=
  .obj [("jsonrpc", .str r.jsonrpc), ("id", idDocument r.id), ("method", .str r.method),
    ("params", r.params)]

end JsonRpcRequest

def RpcError.document (e : RpcError F) : Document F :=
  .obj ([("code", .int e.code.toInt), ("message", .str e.message)] ++ skipNone "data" e.data)

def JsonRpcResponse.fields (r : JsonRpcResponse F) : List (String × Document F) :=
  [("jsonrpc", .str r.jsonrpc), ("id", idDocument r.id)] ++ skipNone "result" r.result ++
    skipNone "error" (r.error.map RpcError.document)

def EventFrame.fields (e : EventFrame F) : List (String × Document F) :=
  [("jsonrpc", .str e.jsonrpc), ("request_id", idDocument e.requestId),
    ("event", .str e.event.name), ("data", e.data)] ++
    skipNone "run_id" (e.runId.map fun run => .str run.val) ++
    skipNone "seq" (e.seq.map fun seq => .int seq.toNat)

def ServerFrame.document : ServerFrame F → Document F
  | event frame => .obj (("frame", .str "event") :: frame.fields)
  | response frame => .obj (("frame", .str "response") :: frame.fields)

/-! ## `Deserialize` -/

def idOf? : Document F → Option RequestId
  | .int n => if 0 ≤ n ∧ n < 2 ^ 64 then some (.number n.toNat) else none
  | .str s => some (.string s)
  | _ => none

def JsonRpcRequest.ofDocument (d : Document F) : Option (JsonRpcRequest F) := do
  let fields ← d.fieldsOf ["jsonrpc", "id", "method", "params"] 3
  let jsonrpc ← (← requiredField fields "jsonrpc").asStr?
  let id ← idOf? (← requiredField fields "id")
  let method ← (← requiredField fields "method").asStr?
  let params ← field fields "params"
  if h : IdFits id then some ⟨jsonrpc, id, method, params.getD .null, h⟩ else none

def RpcError.ofDocument (d : Document F) : Option (RpcError F) := do
  let fields ← d.fieldsOf ["code", "message", "data"] 3
  let code ← (← requiredField fields "code").asInt?
  let message ← (← requiredField fields "message").asStr?
  let data ← optionField fields "data"
  if -2 ^ 63 ≤ code ∧ code < 2 ^ 63 then some ⟨.ofInt code, message, data⟩ else none

def JsonRpcResponse.ofDocument (d : Document F) : Option (JsonRpcResponse F) := do
  let fields ← d.fieldsOf ["jsonrpc", "id", "result", "error"] 4
  let jsonrpc ← (← requiredField fields "jsonrpc").asStr?
  let id ← idOf? (← requiredField fields "id")
  let result ← optionField fields "result"
  let error ← (← optionField fields "error").mapM RpcError.ofDocument
  if h : IdFits id then some ⟨jsonrpc, id, result, error, h⟩ else none

def seqOf? (d : Document F) : Option UInt64 := do
  let n ← d.asInt?
  if 0 ≤ n ∧ n < 2 ^ 64 then some (.ofNat n.toNat) else none

def EventFrame.ofDocument (d : Document F) : Option (EventFrame F) := do
  let fields ← d.fieldsOf ["jsonrpc", "request_id", "event", "data", "run_id", "seq"] 4
  let jsonrpc ← (← requiredField fields "jsonrpc").asStr?
  let requestId ← idOf? (← requiredField fields "request_id")
  let event ← EventKind.ofName? (← (← requiredField fields "event").asStr?)
  let data ← requiredField fields "data"
  let runId ← (← optionField fields "run_id").mapM asStr?
  let seq ← (← optionField fields "seq").mapM seqOf?
  if h : IdFits requestId then
    some ⟨jsonrpc, requestId, event, data, runId.map RunId.mk, seq, h⟩
  else none

/-- The variant is named by the field `frame`, or by the first item of an array. -/
def ServerFrame.ofDocument (d : Document F) : Option (ServerFrame F) := do
  let (tag, rest) ← match d with
    | .obj fields => do
      some (← requiredField fields "frame", .obj (fields.filter fun f => f.1 ≠ "frame"))
    | .arr (tag :: items) => some (tag, .arr items)
    | _ => none
  match ← tag.asStr? with
  | "event" => (EventFrame.ofDocument rest).map .event
  | "response" => (JsonRpcResponse.ofDocument rest).map .response
  | _ => none

/-! ## The functions on frames -/

/-- `serde_json`, for documents with the fractional numbers `F`. -/
structure SerdeJson (F : Type) where
  toVec : Document F → List UInt8
  /-- The document of a text, or the message of the error. -/
  fromSlice : List UInt8 → Except String (Document F)
  /-- The message for a document that is no value of the type. -/
  mismatch : Document F → String
  /-- What a fractional number is after it was printed and read. -/
  reread : F → F

/-- What is documented of the crate, for one document: control characters are escaped, white space
may follow a document, and at most 127 arrays and objects may be open at a time. -/
structure SerdeJson.Lawful (codec : SerdeJson F) (d : Document F) : Prop where
  oneLine : lineFeed ∉ codec.toVec d
  reads : d.depth ≤ 127 →
    codec.fromSlice (codec.toVec d ++ [lineFeed]) = .ok (d.mapFloat codec.reread)
  tooDeep : 127 < d.depth → ∃ message,
    codec.fromSlice (codec.toVec d ++ [lineFeed]) = .error message

inductive ProtocolError where
  | frameTooLarge (actual limit : Nat)
  | invalidJson (message : String)
  | unsupportedVersion (version : String)
  deriving DecidableEq, Repr

def ProtocolError.message : ProtocolError → String
  | frameTooLarge actual limit =>
    "协议帧大小 " ++ toString actual ++ " 字节，超过 " ++ toString limit ++ " 字节限制"
  | invalidJson message => "JSON-RPC 帧不是合法 JSON: " ++ message
  | unsupportedVersion version => "不支持的 JSON-RPC 版本: " ++ version

section Functions

variable (codec : SerdeJson F)

def encodeFrame (frame : Document F) : Except ProtocolError (List UInt8) :=
  let bytes := codec.toVec frame
  if bytes.length > maxFrameBytes then .error (.frameTooLarge bytes.length maxFrameBytes)
  else .ok (bytes ++ [lineFeed])

/-- What `decode_request` and `decode_server_frame` do. -/
def decodeFrame {α : Type} (ofDocument : Document F → Option α) (version : α → String)
    (bytes : List UInt8) : Except ProtocolError α :=
  if bytes.length > maxFrameBytes then .error (.frameTooLarge bytes.length maxFrameBytes)
  else match codec.fromSlice bytes with
    | .error message => .error (.invalidJson message)
    | .ok d =>
      match ofDocument d with
      | none => .error (.invalidJson (codec.mismatch d))
      | some frame =>
        if version frame ≠ jsonrpcVersion then .error (.unsupportedVersion (version frame))
        else .ok frame

def decodeRequest (bytes : List UInt8) : Except ProtocolError (JsonRpcRequest F) :=
  decodeFrame codec JsonRpcRequest.ofDocument JsonRpcRequest.jsonrpc bytes

def decodeServerFrame (bytes : List UInt8) : Except ProtocolError (ServerFrame F) :=
  decodeFrame codec ServerFrame.ofDocument ServerFrame.jsonrpc bytes

/-- `read_until(b'\n')`: the line, and what comes after it. -/
def readUntil : List UInt8 → List UInt8 × List UInt8
  | [] => ([], [])
  | b :: bytes =>
    if b = lineFeed then ([b], bytes)
    else (b :: (readUntil bytes).1, (readUntil bytes).2)

/-- What `serve_unix_connection` makes of a line: a request, or the answer to it. -/
def readRequest (line : List UInt8) : Except (JsonRpcResponse F) (JsonRpcRequest F) :=
  if line.length > maxFrameBytes + 1 then
    .error (.failure (.string "protocol") trivial (-32002)
      ("协议帧超过 " ++ toString maxFrameBytes ++ " 字节限制"))
  else match decodeRequest codec line with
    | .ok request => .ok request
    | .error error => .error (.failure (.string "protocol") trivial (-32700) error.message)

end Functions

/-! ## Round trips -/

/-- What goes over the connection, in one direction or the other. -/
inductive Frame (F : Type) where
  | request (r : JsonRpcRequest F)
  | server (frame : ServerFrame F)

namespace Frame

def document : Frame F → Document F
  | request r => r.document
  | server frame => frame.document

def jsonrpc : Frame F → String
  | request r => r.jsonrpc
  | server frame => frame.jsonrpc

/-- The other side makes this frame of the line. -/
def Reads (codec : SerdeJson F) (line : List UInt8) : Frame F → Prop
  | request r => readRequest codec line = .ok r
  | server frame => decodeServerFrame codec line = .ok frame

/-- The frame is what `serde` makes of the document. -/
def IsRead (d : Document F) : Frame F → Prop
  | request r => JsonRpcRequest.ofDocument d = some r
  | server frame => ServerFrame.ofDocument d = some frame

/-- A field that is left out when empty holds `null`. -/
def HoldsNull : Frame F → Prop
  | request _ => False
  | server (.event _) => False
  | server (.response r) => r.result = some .null ∨ ∃ e, r.error = some e ∧ e.data = some .null

end Frame

/-- If the frame can be sent, the reader on the other side takes its bytes for one line, and reads
this very frame. -/
def RoundTrips (codec : SerdeJson F) (frame : Frame F) : Prop :=
  ∀ bytes, encodeFrame codec frame.document = .ok bytes →
    ∀ rest, readUntil (bytes ++ rest) = (bytes, rest) ∧ frame.Reads codec bytes

/-! ### Documents -/

def JsonRpcRequest.mapFloat (f : F → F) (r : JsonRpcRequest F) : JsonRpcRequest F :=
  { r with params := r.params.mapFloat f }

theorem idOf?_idDocument {id : RequestId} (h : IdFits id) :
    idOf? (idDocument id : Document F) = some id := by
  cases id with
  | string s => rfl
  | number n =>
    have hn : (n : Int) < 2 ^ 64 := by
      have : n < 2 ^ 64 := h
      omega
    rw [idDocument, idOf?, if_pos ⟨Int.natCast_nonneg n, hn⟩, Int.toNat_natCast]

/-- A field that is left out or has another name does not change what is found. -/
theorem field_append_skipNone_ne {n name : String} (h : n ≠ name)
    (fields : List (String × Document F)) (d : Option (Document F)) :
    field (fields ++ skipNone n d) name = field fields name := by
  have hskipped : (skipNone n d).filter (fun f => f.1 = name) = [] := by
    cases d <;> simp [skipNone, h]
  rw [field, field, List.filter_append, hskipped, List.append_nil]

theorem field_append_skipNone_self {name : String} {fields : List (String × Document F)}
    (h : ∀ f ∈ fields, f.1 ≠ name) (d : Option (Document F)) :
    field (fields ++ skipNone name d) name = some d := by
  have hfields : fields.filter (fun f => f.1 = name) = [] := by
    rw [List.filter_eq_nil_iff]
    intro f hf
    simp [h f hf]
  rw [field, List.filter_append, hfields, List.nil_append]
  cases d <;> simp [skipNone]

theorem skipNone_ne {n name : String} (h : n ≠ name) (d : Option (Document F)) :
    ∀ f ∈ skipNone n d, f.1 ≠ name := by
  cases d <;> simp [skipNone, h]

theorem JsonRpcRequest.ofDocument_document (r : JsonRpcRequest F) :
    ofDocument r.document = some r := by
  unfold document
  generalize hfields : [("jsonrpc", .str r.jsonrpc), ("id", idDocument r.id),
    ("method", .str r.method), ("params", r.params)] = fields
  have hjsonrpc : requiredField fields "jsonrpc" = some (.str r.jsonrpc) := by
    rw [← hfields]
    rfl
  have hid : requiredField fields "id" = some (idDocument r.id) := by
    rw [← hfields]
    rfl
  have hmethod : requiredField fields "method" = some (.str r.method) := by
    rw [← hfields]
    rfl
  have hparams : field fields "params" = some (some r.params) := by
    rw [← hfields]
    rfl
  simp only [ofDocument, fieldsOf, hjsonrpc, hid, hmethod, hparams, asStr?,
    idOf?_idDocument r.idFits, Option.bind_eq_bind, Option.bind_some, Option.getD_some,
    dif_pos r.idFits]

/-- `serde` reads `null` for an optional field as none. -/
def dropNull : Option (Document F) → Option (Document F)
  | some .null => none
  | d => d

def RpcError.dropNull (e : RpcError F) : RpcError F := { e with data := Protocol.dropNull e.data }

def JsonRpcResponse.dropNull (r : JsonRpcResponse F) : JsonRpcResponse F :=
  { r with
    result := Protocol.dropNull r.result
    error := r.error.map RpcError.dropNull }

def ServerFrame.dropNull : ServerFrame F → ServerFrame F
  | event frame => event frame
  | response frame => response frame.dropNull

theorem optionField_eq (fields : List (String × Document F)) (name : String)
    (d : Option (Document F)) (h : field fields name = some d) :
    optionField fields name = some (dropNull d) := by
  rw [optionField, h]
  cases d with
  | none => rfl
  | some d => cases d <;> rfl

theorem RpcError.ofDocument_document (e : RpcError F) : ofDocument e.document = some e.dropNull := by
  obtain ⟨code, message, data⟩ := e
  have hcode : -2 ^ 63 ≤ code.toInt ∧ code.toInt < 2 ^ 63 :=
    ⟨Int64.le_toInt code, Int64.toInt_lt code⟩
  unfold document
  generalize hfields : [("code", .int code.toInt), ("message", .str message)] ++
    skipNone "data" data = fields
  have hcode' : requiredField fields "code" = some (.int code.toInt) := by
    rw [← hfields, requiredField, field_append_skipNone_ne (by decide)]
    rfl
  have hmessage : requiredField fields "message" = some (.str message) := by
    rw [← hfields, requiredField, field_append_skipNone_ne (by decide)]
    rfl
  have hdata : optionField fields "data" = some (Protocol.dropNull data) := by
    rw [← hfields]
    exact optionField_eq _ _ _ (field_append_skipNone_self (by simp) data)
  simp only [ofDocument, fieldsOf, hcode', hmessage, hdata, asInt?, asStr?, Option.bind_eq_bind,
    Option.bind_some, if_pos hcode, Int64.ofInt_toInt]
  rfl

theorem JsonRpcResponse.ofDocument_fields (r : JsonRpcResponse F) :
    ofDocument (.obj r.fields) = some r.dropNull := by
  obtain ⟨jsonrpc, id, result, error, h⟩ := r
  generalize hfields : fields ⟨jsonrpc, id, result, error, h⟩ = fields
  have hjsonrpc : requiredField fields "jsonrpc" = some (.str jsonrpc) := by
    rw [← hfields, requiredField, JsonRpcResponse.fields, field_append_skipNone_ne (by decide),
      field_append_skipNone_ne (by decide)]
    rfl
  have hid : requiredField fields "id" = some (idDocument id) := by
    rw [← hfields, requiredField, JsonRpcResponse.fields, field_append_skipNone_ne (by decide),
      field_append_skipNone_ne (by decide)]
    rfl
  have hresult : optionField fields "result" = some (Protocol.dropNull result) := by
    refine optionField_eq _ _ _ ?_
    rw [← hfields, JsonRpcResponse.fields, field_append_skipNone_ne (by decide)]
    exact field_append_skipNone_self (by simp) result
  have herror : optionField fields "error" = some (error.map RpcError.document) := by
    have hfield : field fields "error" = some (error.map RpcError.document) := by
      rw [← hfields, JsonRpcResponse.fields]
      refine field_append_skipNone_self ?_ _
      rw [List.forall_mem_append]
      exact ⟨by simp, skipNone_ne (by decide) result⟩
    rw [optionField_eq _ _ _ hfield]
    cases error <;> rfl
  have herror' : (error.map RpcError.document).mapM RpcError.ofDocument =
      some (error.map RpcError.dropNull) := by
    cases error with
    | none => rfl
    | some e => simp [RpcError.ofDocument_document]
  simp only [ofDocument, fieldsOf, hjsonrpc, hid, hresult, herror, herror', asStr?,
    idOf?_idDocument h, Option.bind_eq_bind, Option.bind_some, dif_pos h]
  rfl

theorem mapM_asStr? (runId : Option RunId) :
    (runId.map fun run => (.str run.val : Document F)).mapM asStr? =
      some (runId.map RunId.val) := by
  cases runId <;> rfl

theorem seqOf?_int {n : Int} (h : 0 ≤ n ∧ n < 2 ^ 64) :
    seqOf? (.int n : Document F) = some (.ofNat n.toNat) := by
  simp only [seqOf?, asInt?, Option.bind_eq_bind, Option.bind_some]
  rw [if_pos h]

theorem mapM_seqOf? (seq : Option UInt64) :
    (seq.map fun seq => (.int seq.toNat : Document F)).mapM seqOf? = some seq := by
  cases seq with
  | none => rfl
  | some n =>
    have hn : 0 ≤ (n.toNat : Int) ∧ (n.toNat : Int) < 2 ^ 64 := by
      have := n.toNat_lt
      omega
    rw [Option.map_some, Option.mapM_some, seqOf?_int hn, Int.toNat_natCast, UInt64.ofNat_toNat]
    rfl

theorem EventFrame.ofDocument_fields (e : EventFrame F) : ofDocument (.obj e.fields) = some e := by
  obtain ⟨jsonrpc, requestId, event, data, runId, seq, h⟩ := e
  generalize hfields : fields ⟨jsonrpc, requestId, event, data, runId, seq, h⟩ = fields
  have hfixed : ∀ name, "run_id" ≠ name → "seq" ≠ name → requiredField fields name =
      requiredField [("jsonrpc", .str jsonrpc), ("request_id", idDocument requestId),
        ("event", .str event.name), ("data", data)] name := by
    intro name hrun hseq
    rw [← hfields, requiredField, EventFrame.fields, field_append_skipNone_ne hseq,
      field_append_skipNone_ne hrun]
    rfl
  have hjsonrpc : requiredField fields "jsonrpc" = some (.str jsonrpc) :=
    hfixed "jsonrpc" (by decide) (by decide)
  have hid : requiredField fields "request_id" = some (idDocument requestId) :=
    hfixed "request_id" (by decide) (by decide)
  have hevent : requiredField fields "event" = some (.str event.name) :=
    hfixed "event" (by decide) (by decide)
  have hdata : requiredField fields "data" = some data := hfixed "data" (by decide) (by decide)
  have hrun : optionField fields "run_id" = some (runId.map fun run => .str run.val) := by
    have hfield : field fields "run_id" = some (runId.map fun run => .str run.val) := by
      rw [← hfields, EventFrame.fields, field_append_skipNone_ne (by decide)]
      exact field_append_skipNone_self (by simp) _
    rw [optionField_eq _ _ _ hfield]
    cases runId <;> rfl
  have hseq : optionField fields "seq" = some (seq.map fun seq => .int seq.toNat) := by
    have hfield : field fields "seq" = some (seq.map fun seq => .int seq.toNat) := by
      rw [← hfields, EventFrame.fields]
      refine field_append_skipNone_self ?_ _
      rw [List.forall_mem_append]
      exact ⟨by simp, skipNone_ne (by decide) _⟩
    rw [optionField_eq _ _ _ hfield]
    cases seq <;> rfl
  have hname : EventKind.ofName? event.name = some event := by
    cases event <;> decide
  have hrun' := mapM_asStr? (F := F) runId
  have hseq' := mapM_seqOf? (F := F) seq
  have hruns : (runId.map RunId.val).map RunId.mk = runId := by cases runId <;> rfl
  unfold ofDocument
  -- the steps of `serde`, in the order of the fields
  refine Option.bind_eq_some_iff.mpr ⟨fields, rfl, ?_⟩
  refine Option.bind_eq_some_iff.mpr ⟨_, hjsonrpc, ?_⟩
  refine Option.bind_eq_some_iff.mpr ⟨jsonrpc, rfl, ?_⟩
  refine Option.bind_eq_some_iff.mpr ⟨_, hid, ?_⟩
  refine Option.bind_eq_some_iff.mpr ⟨requestId, idOf?_idDocument h, ?_⟩
  refine Option.bind_eq_some_iff.mpr ⟨_, hevent, ?_⟩
  refine Option.bind_eq_some_iff.mpr ⟨_, rfl, ?_⟩
  refine Option.bind_eq_some_iff.mpr ⟨event, hname, ?_⟩
  refine Option.bind_eq_some_iff.mpr ⟨data, hdata, ?_⟩
  refine Option.bind_eq_some_iff.mpr ⟨_, hrun, ?_⟩
  refine Option.bind_eq_some_iff.mpr ⟨_, hrun', ?_⟩
  refine Option.bind_eq_some_iff.mpr ⟨_, hseq, ?_⟩
  refine Option.bind_eq_some_iff.mpr ⟨seq, hseq', ?_⟩
  rw [dif_pos h, hruns]

/-- A variant by its tag; the other fields of a frame are not named like the tag. -/
theorem ServerFrame.ofDocument_tagged {tag : String} {fields : List (String × Document F)}
    (h : ∀ f ∈ fields, f.1 ≠ "frame") :
    ofDocument (.obj (("frame", .str tag) :: fields)) =
      match tag with
      | "event" => (EventFrame.ofDocument (.obj fields)).map .event
      | "response" => (JsonRpcResponse.ofDocument (.obj fields)).map .response
      | _ => none := by
  have hnone : fields.filter (fun f => f.1 = "frame") = [] := by
    rw [List.filter_eq_nil_iff]
    intro f hf
    simp [h f hf]
  have hall : fields.filter (fun f => f.1 ≠ "frame") = fields := by
    rw [List.filter_eq_self]
    intro f hf
    simp [h f hf]
  have htag : requiredField (("frame", .str tag) :: fields) "frame" = some (.str tag) := by
    simp [requiredField, field, hnone]
  have hrest : (("frame", .str tag) :: fields).filter (fun f => f.1 ≠ "frame") = fields := by
    rw [List.filter_cons_of_neg (by simp), hall]
  simp only [ofDocument, htag, hrest, asStr?, Option.bind_eq_bind, Option.bind_some]

theorem EventFrame.fields_ne_frame (e : EventFrame F) : ∀ f ∈ e.fields, f.1 ≠ "frame" := by
  obtain ⟨jsonrpc, requestId, event, data, runId, seq, h⟩ := e
  cases runId <;> cases seq <;> simp [EventFrame.fields, skipNone]

theorem JsonRpcResponse.fields_ne_frame (r : JsonRpcResponse F) : ∀ f ∈ r.fields, f.1 ≠ "frame" := by
  obtain ⟨jsonrpc, id, result, error, h⟩ := r
  cases result <;> cases error <;> simp [JsonRpcResponse.fields, skipNone]

theorem ServerFrame.ofDocument_document (e : ServerFrame F) :
    ofDocument e.document = some e.dropNull := by
  cases e with
  | event e =>
    rw [document, ofDocument_tagged e.fields_ne_frame]
    simp only [EventFrame.ofDocument_fields, Option.map_some, dropNull]
  | response r =>
    rw [document, ofDocument_tagged r.fields_ne_frame]
    simp only [JsonRpcResponse.ofDocument_fields, Option.map_some, dropNull]

/-! ### Fractional numbers -/

theorem mapFields_skipNone (f : F → F) (name : String) (d : Option (Document F)) :
    mapFields f (skipNone name d) = skipNone name (d.map (Document.mapFloat f)) := by
  cases d <;> rfl

theorem mapFloat_idDocument (f : F → F) (id : RequestId) :
    (idDocument id : Document F).mapFloat f = idDocument id := by
  cases id <;> rfl

def RpcError.mapFloat (f : F → F) (e : RpcError F) : RpcError F :=
  { e with data := e.data.map (Document.mapFloat f) }

def JsonRpcResponse.mapFloat (f : F → F) (r : JsonRpcResponse F) : JsonRpcResponse F :=
  { r with
    result := r.result.map (Document.mapFloat f)
    error := r.error.map (RpcError.mapFloat f) }

def EventFrame.mapFloat (f : F → F) (e : EventFrame F) : EventFrame F :=
  { e with data := e.data.mapFloat f }

def ServerFrame.mapFloat (f : F → F) : ServerFrame F → ServerFrame F
  | event e => event (e.mapFloat f)
  | response r => response (r.mapFloat f)

theorem JsonRpcRequest.mapFloat_document (f : F → F) (r : JsonRpcRequest F) :
    r.document.mapFloat f = (r.mapFloat f).document := by
  simp [document, mapFloat, Document.mapFloat, mapFields, mapFloat_idDocument]

theorem RpcError.mapFloat_document (f : F → F) (e : RpcError F) :
    e.document.mapFloat f = (e.mapFloat f).document := by
  simp [document, mapFloat, Document.mapFloat, mapFields, mapFields_skipNone]

theorem EventFrame.mapFields_fields (f : F → F) (e : EventFrame F) :
    mapFields f e.fields = (e.mapFloat f).fields := by
  obtain ⟨jsonrpc, requestId, event, data, runId, seq, h⟩ := e
  cases runId <;> cases seq <;>
    simp [fields, mapFloat, Document.mapFloat, mapFields, skipNone, mapFloat_idDocument]

theorem JsonRpcResponse.mapFields_fields (f : F → F) (r : JsonRpcResponse F) :
    mapFields f r.fields = (r.mapFloat f).fields := by
  obtain ⟨jsonrpc, id, result, error, h⟩ := r
  cases result <;> cases error <;>
    simp [fields, mapFloat, Document.mapFloat, mapFields, skipNone, mapFloat_idDocument,
      RpcError.mapFloat_document]

theorem ServerFrame.mapFloat_document (f : F → F) (e : ServerFrame F) :
    e.document.mapFloat f = (e.mapFloat f).document := by
  cases e with
  | event e => simp [document, mapFloat, Document.mapFloat, mapFields, EventFrame.mapFields_fields]
  | response r =>
    simp [document, mapFloat, Document.mapFloat, mapFields, JsonRpcResponse.mapFields_fields]

/-! ### Frames -/

namespace Frame

def mapFloat (f : F → F) : Frame F → Frame F
  | request r => request (r.mapFloat f)
  | server e => server (e.mapFloat f)

def dropNull : Frame F → Frame F
  | request r => request r
  | server e => server e.dropNull

theorem mapFloat_document (f : F → F) (frame : Frame F) :
    frame.document.mapFloat f = (frame.mapFloat f).document := by
  cases frame with
  | request r => exact r.mapFloat_document f
  | server e => exact e.mapFloat_document f

theorem dropNull_eq_self {d : Option (Document F)} :
    Protocol.dropNull d = d ↔ d ≠ some .null := by
  cases d with
  | none => simp [Protocol.dropNull]
  | some d => cases d <;> simp [Protocol.dropNull]

theorem dropNull_ne_null (d : Option (Document F)) : Protocol.dropNull d ≠ some .null := by
  cases d with
  | none => simp [Protocol.dropNull]
  | some d => cases d <;> simp [Protocol.dropNull]

theorem dropNull_eq_self_iff (frame : Frame F) : frame.dropNull = frame ↔ ¬ frame.HoldsNull := by
  cases frame with
  | request r => exact iff_of_true rfl id
  | server e =>
    cases e with
    | event e => exact iff_of_true rfl id
    | response r =>
      obtain ⟨jsonrpc, id, result, error, h⟩ := r
      cases error with
      | none =>
        simp [dropNull, ServerFrame.dropNull, JsonRpcResponse.dropNull, HoldsNull, dropNull_eq_self]
      | some e =>
        obtain ⟨code, message, data⟩ := e
        simp [dropNull, ServerFrame.dropNull, JsonRpcResponse.dropNull, RpcError.dropNull, HoldsNull,
          dropNull_eq_self]

theorem not_holdsNull_dropNull (frame : Frame F) : ¬ frame.dropNull.HoldsNull := by
  cases frame with
  | request r => exact id
  | server e =>
    cases e with
    | event e => exact id
    | response r =>
      rintro (h | ⟨e, he, h⟩)
      · exact dropNull_ne_null _ h
      · obtain ⟨e', -, rfl⟩ := Option.map_eq_some_iff.mp he
        exact dropNull_ne_null _ h

theorem holdsNull_of_mapFloat {f : F → F} {frame : Frame F} (h : (frame.mapFloat f).HoldsNull) :
    frame.HoldsNull := by
  have hmap : ∀ d : Option (Document F), d.map (Document.mapFloat f) = some .null →
      d = some .null := by
    intro d hd
    obtain ⟨d', rfl, hnull⟩ := Option.map_eq_some_iff.mp hd
    cases d' <;> simp_all [Document.mapFloat]
  cases frame with
  | request r => exact h
  | server e =>
    cases e with
    | event e => exact h
    | response r =>
      rcases h with h | ⟨e, he, h⟩
      · exact .inl (hmap _ h)
      · obtain ⟨e', he', rfl⟩ := Option.map_eq_some_iff.mp he
        exact .inr ⟨e', he', hmap _ h⟩

theorem isRead_document {frame frame' : Frame F} (h : ∃ f, frame' = frame.mapFloat f) :
    frame.IsRead frame'.document ↔ frame'.dropNull = frame := by
  obtain ⟨f, rfl⟩ := h
  cases frame with
  | request r =>
    simp only [IsRead, document, mapFloat, dropNull, JsonRpcRequest.ofDocument_document,
      Option.some.injEq, request.injEq]
  | server e =>
    simp only [IsRead, document, mapFloat, dropNull, ServerFrame.ofDocument_document,
      Option.some.injEq, server.injEq]

/-- What is read of a frame is the frame if its numbers are stable and it holds no `null`. -/
theorem read_eq_self_iff (f : F → F) (frame : Frame F) :
    (frame.mapFloat f).dropNull = frame ↔
      (∀ x ∈ frame.document.floats, f x = x) ∧ ¬ frame.HoldsNull := by
  constructor
  · intro h
    have hnull : ¬ frame.HoldsNull := h ▸ not_holdsNull_dropNull _
    have hsame : (frame.mapFloat f).dropNull = frame.mapFloat f :=
      (dropNull_eq_self_iff _).mpr fun h' => hnull (holdsNull_of_mapFloat h')
    refine ⟨?_, hnull⟩
    rw [← mapFloat_eq_self, mapFloat_document, ← hsame, h]
  · rintro ⟨hfloats, hnull⟩
    rw [← mapFloat_eq_self, mapFloat_document] at hfloats
    have hself := (dropNull_eq_self_iff frame).mpr hnull
    cases frame with
    | request r =>
      have hread := congrArg JsonRpcRequest.ofDocument hfloats
      simp only [document, mapFloat, JsonRpcRequest.ofDocument_document] at hread
      exact congrArg request (Option.some.inj hread)
    | server e =>
      have hread := congrArg ServerFrame.ofDocument hfloats
      simp only [document, mapFloat, ServerFrame.ofDocument_document] at hread
      exact (congrArg server (Option.some.inj hread)).trans hself

end Frame

/-! ### Lines -/

theorem readUntil_line {text : List UInt8} (h : lineFeed ∉ text) (rest : List UInt8) :
    readUntil (text ++ [lineFeed] ++ rest) = (text ++ [lineFeed], rest) := by
  induction text with
  | nil => simp [readUntil]
  | cons b text ih =>
    rw [List.mem_cons, not_or] at h
    have htail := ih h.2
    rw [List.cons_append, List.cons_append, readUntil, if_neg (Ne.symm h.1), htail]

section Reading

variable {codec : SerdeJson F} {line : List UInt8}

theorem decodeFrame_eq_ok {α : Type} {ofDocument : Document F → Option α} {version : α → String}
    {frame : α} : decodeFrame codec ofDocument version line = .ok frame ↔
      line.length ≤ maxFrameBytes ∧ ∃ d, codec.fromSlice line = .ok d ∧
        ofDocument d = some frame ∧ version frame = jsonrpcVersion := by
  unfold decodeFrame
  split
  · rename_i hlong
    exact iff_of_false nofun fun h => absurd h.1 (Nat.not_le.mpr hlong)
  · rename_i hlength
    cases hd : codec.fromSlice line with
    | error message => simp
    | ok d =>
      cases hframe : ofDocument d with
      | none => simp [hframe]
      | some x =>
        by_cases hversion : version x = jsonrpcVersion
        · simp only [hversion, ne_eq, not_true, if_false, Except.ok.injEq, exists_eq_left', hframe,
            Option.some.injEq]
          constructor
          · rintro rfl
            exact ⟨Nat.not_lt.mp hlength, rfl, hversion⟩
          · exact fun h => h.2.1
        · simp only [hversion, ne_eq, not_false_eq_true, if_true, Except.ok.injEq,
            exists_eq_left', hframe, Option.some.injEq]
          refine iff_of_false nofun ?_
          rintro ⟨-, rfl, h⟩
          exact hversion h

/-- The reader of the server refuses no line that `decode_request` takes. -/
theorem readRequest_eq_ok {r : JsonRpcRequest F} :
    readRequest codec line = .ok r ↔ decodeRequest codec line = .ok r := by
  unfold readRequest
  split
  · rename_i hlong
    refine iff_of_false nofun fun h => ?_
    have := (decodeFrame_eq_ok.mp h).1
    omega
  · cases decodeRequest codec line with
    | error e => exact iff_of_false nofun nofun
    | ok r' => simp

/-- What the reader makes of a line. -/
theorem reads_iff {frame : Frame F} (hversion : frame.jsonrpc = jsonrpcVersion) :
    frame.Reads codec line ↔ line.length ≤ maxFrameBytes ∧ ∃ d, codec.fromSlice line = .ok d ∧
      frame.IsRead d := by
  cases frame with
  | request r =>
    refine readRequest_eq_ok.trans (decodeFrame_eq_ok.trans ?_)
    exact and_congr_right fun _ => exists_congr fun d =>
      and_congr_right fun _ => and_iff_left hversion
  | server e =>
    refine decodeFrame_eq_ok.trans ?_
    exact and_congr_right fun _ => exists_congr fun d =>
      and_congr_right fun _ => and_iff_left hversion

end Reading

/-- A text that fits the limit is one byte longer than that with its line feed. -/
theorem not_roundTrips_of_length {codec : SerdeJson F} {frame : Frame F}
    (hversion : frame.jsonrpc = jsonrpcVersion)
    (h : (codec.toVec frame.document).length = maxFrameBytes) : ¬ RoundTrips codec frame := by
  intro htrip
  have hsent : encodeFrame codec frame.document =
      .ok (codec.toVec frame.document ++ [lineFeed]) :=
    if_neg (Nat.not_lt.mpr (Nat.le_of_eq h))
  have hreads := ((reads_iff hversion).mp (htrip _ hsent []).2).1
  rw [List.length_append, List.length_singleton] at hreads
  omega

/-- **Round trips.** A frame comes back as it was sent exactly if its text is shorter than the
limit, or too long to be sent at all, and is something that `serde_json` reads back. -/
theorem roundTrips_iff (codec : SerdeJson F) (frame : Frame F)
    (hversion : frame.jsonrpc = jsonrpcVersion) (hcodec : codec.Lawful frame.document) :
    RoundTrips codec frame ↔
      maxFrameBytes < (codec.toVec frame.document).length ∨
      (codec.toVec frame.document).length < maxFrameBytes ∧ frame.document.depth ≤ 127 ∧
        (∀ x ∈ frame.document.floats, codec.reread x = x) ∧ ¬ frame.HoldsNull := by
  have hline := readUntil_line hcodec.oneLine
  rcases Nat.lt_trichotomy (codec.toVec frame.document).length maxFrameBytes with hlt | heq | hgt
  · have hsent : encodeFrame codec frame.document =
        .ok (codec.toVec frame.document ++ [lineFeed]) :=
      if_neg (Nat.not_lt.mpr (Nat.le_of_lt hlt))
    have hlength : (codec.toVec frame.document ++ [lineFeed]).length ≤ maxFrameBytes := by
      rw [List.length_append, List.length_singleton]
      omega
    have htrip : RoundTrips codec frame ↔
        frame.Reads codec (codec.toVec frame.document ++ [lineFeed]) := by
      constructor
      · exact fun h => (h _ hsent []).2
      · intro h bytes hbytes rest
        cases hsent.symm.trans hbytes
        exact ⟨hline rest, h⟩
    have hshort : ¬ maxFrameBytes < (codec.toVec frame.document).length := Nat.not_lt.mpr (Nat.le_of_lt hlt)
    rw [htrip, reads_iff hversion, and_iff_right hlength, or_iff_right hshort, and_iff_right hlt]
    by_cases hdepth : frame.document.depth ≤ 127
    · rw [hcodec.reads hdepth, Frame.mapFloat_document, and_iff_right hdepth]
      simp only [Except.ok.injEq, exists_eq_left']
      exact (Frame.isRead_document ⟨_, rfl⟩).trans (Frame.read_eq_self_iff _ _)
    · obtain ⟨message, h⟩ := hcodec.tooDeep (Nat.not_le.mp hdepth)
      rw [h]
      exact iff_of_false (by simp) fun h => hdepth h.1
  · exact iff_of_false (not_roundTrips_of_length hversion heq) (by omega)
  · refine iff_of_true ?_ (.inl hgt)
    intro bytes h
    rw [encodeFrame, if_pos hgt] at h
    cases h

/-! ### A request at the limit -/

/-- A call without parameters. -/
theorem idFits_one : IdFits (.number 1) := by decide

def plainRequest (method : String) : JsonRpcRequest Empty :=
  ⟨jsonrpcVersion, .number 1, method, .null, by decide⟩

def plainFront : List Char := "\x7b\"jsonrpc\":\"2.0\",\"id\":1,\"method\":\"".toList

def plainBack : List Char := "\",\"params\":null\x7d".toList

def plainText (method : List Char) : List Char := plainFront ++ method ++ plainBack

/-- `serde_json` on calls without parameters whose method needs no escapes. -/
def plainCodec : SerdeJson Empty where
  toVec d := ((JsonRpcRequest.ofDocument d).map fun r => utf8 (plainText r.method.toList)).getD []
  fromSlice bytes := if bytes = utf8 (plainText "ping".toList) ++ [lineFeed] then
      .ok (plainRequest "ping").document
    else .error "expected value at line 1 column 1"
  mismatch _ := "missing field"
  reread := id

theorem toVec_plainRequest (method : String) : plainCodec.toVec (plainRequest method).document =
    utf8 (plainText method.toList) := by
  simp only [plainCodec, JsonRpcRequest.ofDocument_document, Option.map_some, Option.getD_some]
  rfl

theorem roundTrips_ping : RoundTrips plainCodec (.request (plainRequest "ping")) := by
  have hcodec : plainCodec.Lawful (plainRequest "ping").document := by
    have htext := toVec_plainRequest "ping"
    have hself := (mapFloat_eq_self plainCodec.reread (plainRequest "ping").document).mpr nofun
    refine ⟨by rw [htext]; decide +kernel, fun _ => ?_, fun h => absurd h (by decide)⟩
    rw [htext, hself]
    dsimp only [plainCodec]
    rw [if_pos rfl]
  exact (roundTrips_iff plainCodec (.request (plainRequest "ping")) rfl hcodec).mpr
    (.inr ⟨by decide +kernel, by decide, nofun, id⟩)

theorem length_utf8_replicate (n : Nat) : (utf8 (List.replicate n 'x')).length = n := by
  induction n with
  | zero => rfl
  | succ n ih =>
    rw [List.replicate_succ, utf8_cons, List.length_append, ih]
    have hone : (String.utf8EncodeChar 'x').length = 1 := by decide
    omega

theorem length_plainText (method : List Char) :
    (utf8 (plainText method)).length = (utf8 method).length + 50 := by
  have hfront : (utf8 plainFront).length = 34 := by decide +kernel
  have hback : (utf8 plainBack).length = 16 := by decide +kernel
  rw [plainText, utf8_append, utf8_append, List.length_append, List.length_append, hfront, hback]
  omega

theorem length_plainRequest (n : Nat) : (plainCodec.toVec
    (plainRequest (String.ofList (List.replicate n 'x'))).document).length = n + 50 := by
  rw [toVec_plainRequest, String.toList_ofList, length_plainText, length_utf8_replicate]

/-- The text of the call is as long as a frame may be. -/
theorem not_roundTrips_longRequest : ¬ RoundTrips plainCodec (.request (plainRequest
    (String.ofList (List.replicate (4 * 1024 * 1024 - 50) 'x')))) :=
  not_roundTrips_of_length rfl (length_plainRequest _)

end AgentDaemon.Daemon.Protocol
