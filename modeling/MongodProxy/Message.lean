import MongodProxy.Operation.OpMsg
import MongodProxy.Operation.OpQuery
import MongodProxy.Operation.OpReply

/-!
# Messages (operation/mod.rs, message.rs, encoder.rs)

A message is a pair of ids and one operation body; the opcode and the length of
the frame are derived from the body when it is written.
-/

namespace MongodProxy
open LittleEndian

/-! ### Operations (operation/mod.rs) -/

inductive Operation where
  | query (q : OperationQuery)
  | message (m : OperationMessage)
  | reply (r : OperationReply)

inductive OperationParseError (β : Type) where
  | failedToParseMessage (e : OperationMessageParseError β)
  | failedToParseQuery (e : OperationQueryParseError β)
  | failedToParseReply (e : OperationReplyParseError β)

inductive OperationWriteError (β : Type) where
  | failedToWriteOperationMessage (e : OperationMessageWriteError β)
  | failedToWriteOperationQuery (e : OperationQueryWriteError β)
  | failedToWriteOperationReply (e : OperationReplyWriteError β)

variable {β : Type} (bson : BsonCodec β)

namespace Operation

def commandName : Operation → Option String
  | .message m => m.commandName
  | .query q => q.query.keys.head?
  | .reply _ => none

def opCode : Operation → OPCode
  | .message _ => .msg
  | .query _ => .query
  | .reply _ => .reply

def fromBytes (opCode : OPCode) (bytes : Bytes) : Outcome (OperationParseError β) Operation :=
  match opCode with
  | .msg => do
    pure (.message (← Outcome.mapErr .failedToParseMessage (OperationMessage.fromBytes bson bytes)))
  | .query => do
    pure (.query (← Outcome.mapErr .failedToParseQuery (OperationQuery.fromBytes bson bytes)))
  | .reply => do
    pure (.reply (← Outcome.mapErr .failedToParseReply (OperationReply.fromBytes bson bytes)))

def writeBytes (op : Operation) (requestId : RequestId) (responseTo : Option ResponseTo) :
    Put (OperationWriteError β) Unit :=
  match op with
  | .message m => (m.writeBytes bson requestId responseTo).mapErr .failedToWriteOperationMessage
  | .query q => (q.writeBytes bson requestId responseTo).mapErr .failedToWriteOperationQuery
  | .reply r => (r.writeBytes bson requestId responseTo).mapErr .failedToWriteOperationReply

/-- The frame `write_bytes` appends. -/
def frame (op : Operation) (requestId : RequestId) (responseTo : Option ResponseTo) :
    Except (OperationWriteError β) Bytes :=
  match op with
  | .message m => (m.frame bson requestId responseTo).mapError .failedToWriteOperationMessage
  | .query q => (q.frame bson requestId responseTo).mapError .failedToWriteOperationQuery
  | .reply r => (r.frame bson requestId responseTo).mapError .failedToWriteOperationReply

theorem writeBytes_appends (op : Operation) (requestId : RequestId)
    (responseTo : Option ResponseTo) :
    (op.writeBytes bson requestId responseTo).Appends (op.frame bson requestId responseTo) := by
  cases op with
  | query q => exact (q.writeBytes_appends bson requestId responseTo).mapErr _
  | message m => exact (m.writeBytes_appends bson requestId responseTo).mapErr _
  | reply r => exact (r.writeBytes_appends bson requestId responseTo).mapErr _

theorem fromBytes_eq_message {opCode : OPCode} {bytes : Bytes} {m : OperationMessage}
    (h : Operation.fromBytes bson opCode bytes = .ok (.message m)) :
    opCode = .msg ∧ OperationMessage.fromBytes bson bytes = .ok m := by
  cases opCode with
  | msg =>
    simp only [fromBytes, Outcome.bind_eq_ok, Outcome.mapErr_eq_ok] at h
    obtain ⟨m', hm, heq⟩ := h
    cases heq
    exact ⟨rfl, hm⟩
  | query =>
    simp only [fromBytes, Outcome.bind_eq_ok] at h
    obtain ⟨q, hq, heq⟩ := h
    cases heq
  | reply =>
    simp only [fromBytes, Outcome.bind_eq_ok] at h
    obtain ⟨r, hr, heq⟩ := h
    cases heq

end Operation

/-! ### Messages (message.rs) -/

@[ext]
structure Message where
  requestId : RequestId
  responseTo : Option ResponseTo
  operation : Operation

inductive MessageAndHeaderParseError (β : Type) where
  | notEnoughBytes (actual expected : ℕ)
  | failedToParseOperation (e : OperationParseError β)

inductive MessageParseError (β : Type) where
  | failedToParseHeader (e : MessageHeaderParseError)
  | failedToParseMessageBody (e : MessageAndHeaderParseError β)

inductive MessageWriteError (β : Type) where
  | failedToWriteOperation (e : OperationWriteError β)

namespace Message

/-- `bytes` still starts with the header; what follows the frame is not cut off. -/
def fromHeadersAndBytes (header : MessageHeader) (bytes : Bytes) :
    Outcome (MessageAndHeaderParseError β) Message := do
  let actualBytes := bytes.length
  let expectedBytes := header.messageLength.asUsize
  if actualBytes < expectedBytes then
    Outcome.err (.notEnoughBytes actualBytes expectedBytes)
  else
    let bytes ← Outcome.sliceFrom bytes MessageHeader.size
    let operation ← Outcome.mapErr .failedToParseOperation
      (Operation.fromBytes bson header.opCode bytes)
    pure { requestId := header.requestId, responseTo := header.responseTo, operation }

def fromBytes (bytes : Bytes) : Outcome (MessageParseError β) Message := do
  let header ← Outcome.mapErr .failedToParseHeader (MessageHeader.fromBytes bytes)
  Outcome.mapErr .failedToParseMessageBody (fromHeadersAndBytes bson header bytes)

def writeBytes (m : Message) : Put (MessageWriteError β) Unit :=
  (m.operation.writeBytes bson m.requestId m.responseTo).mapErr .failedToWriteOperation

/-- The frame `write_bytes` appends. -/
def frame (m : Message) : Except (MessageWriteError β) Bytes :=
  (m.operation.frame bson m.requestId m.responseTo).mapError .failedToWriteOperation

theorem writeBytes_appends (m : Message) : (m.writeBytes bson).Appends (m.frame bson) :=
  (m.operation.writeBytes_appends bson m.requestId m.responseTo).mapErr _

/-- Once the frame is complete only the body decides. -/
theorem fromHeadersAndBytes_of_le (header : MessageHeader) (bytes : Bytes)
    (h : header.messageLength.asUsize ≤ bytes.length) :
    fromHeadersAndBytes bson header bytes
      = (Outcome.mapErr .failedToParseOperation
          (Operation.fromBytes bson header.opCode (bytes.drop MessageHeader.size)) >>= fun op =>
        pure { requestId := header.requestId, responseTo := header.responseTo, operation := op }) := by
  have hge := header.messageLength.asUsize_ge
  have hslice : MessageHeader.size ≤ bytes.length := by
    simp only [MessageHeader.size]
    omega
  simp only [fromHeadersAndBytes, if_neg (Nat.not_lt.mpr h), Outcome.sliceFrom_eq _ _ hslice,
    Outcome.ok_bind]

end Message

/-! ### The encoder (encoder.rs) -/

inductive WireEncoderError (β : Type) where
  | ioError
  | messageWriteError (e : MessageWriteError β)

/-- `WireEncoder::encode`. -/
def WireEncoder.encode (m : Message) : Put (WireEncoderError β) Unit :=
  (m.writeBytes bson).mapErr .messageWriteError

end MongodProxy
