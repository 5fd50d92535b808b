import MongodProxy.Bson
import MongodProxy.Header
import MongodProxy.Lib.Bitflags
import MongodProxy.Lib.Put

/-!
# OP_REPLY (operation/op_reply.rs)

The legacy reply body: a flag word, the cursor fields and a counted batch of
documents. The count is not kept; the writer derives it from the batch.
-/

namespace MongodProxy
open LittleEndian

/-! ### Data -/

structure OperationReplyFlags where
  bits : UInt32
  deriving DecidableEq, Repr

namespace OperationReplyFlags

def cursorNotFound : OperationReplyFlags := ⟨0x01⟩

def queryFailure : OperationReplyFlags := ⟨0x02⟩

def shardConfigStale : OperationReplyFlags := ⟨0x04⟩

def awaitCapable : OperationReplyFlags := ⟨0x08⟩

def all : OperationReplyFlags :=
  ⟨cursorNotFound.bits ||| queryFailure.bits ||| shardConfigStale.bits ||| awaitCapable.bits⟩

def fromBits (raw : UInt32) : Option OperationReplyFlags := (Bitflags.fromBits all.bits raw).map .mk

def Named (f : OperationReplyFlags) : Prop := Bitflags.Named all.bits f.bits

instance (f : OperationReplyFlags) : Decidable f.Named :=
  inferInstanceAs (Decidable (Bitflags.Named _ _))

theorem fromBits_bits {f : OperationReplyFlags} (h : f.Named) : fromBits f.bits = some f := by
  simp only [fromBits, Bitflags.fromBits_of_named h, Option.map_some]

theorem fromBits_eq_some {raw : UInt32} {f : OperationReplyFlags} (h : fromBits raw = some f) :
    f.bits = raw ∧ f.Named := by
  obtain ⟨x, hx, rfl⟩ := Option.map_eq_some_iff.mp h
  exact Bitflags.fromBits_eq_some hx

end OperationReplyFlags

structure OperationReply where
  flags : OperationReplyFlags
  cursorId : Int64
  startingFrom : Int32
  documents : List Document

inductive OperationReplyParseError (β : Type) where
  | notEnoughBytes (actual min : ℕ)
  | unknownFlagBits (bits : UInt32)
  | failedToParseDocument (n : ℕ) (source : β)

inductive OperationReplyWriteError (β : Type) where
  | serializeDocumentError (e : β)
  | tooManyDocuments (n : ℕ)
  | messageTooLarge (size : ℕ)

namespace OperationReply

variable {β : Type} (bson : BsonCodec β)

/-! ### Parsing -/

def minLen : ℕ := 4 + 8 + 4 + 4

def document (n : ℕ) : Items.Reader UInt8 (OperationReplyParseError β) Document := fun reader =>
  Outcome.ofResult (.failedToParseDocument n) (bson.fromReader reader)

/-- `number_returned.max(0) as usize`. -/
def numDocs (numberReturned : Int32) : ℕ := numberReturned.toInt.toNat

def fromBytes (bytes : Bytes) : Outcome (OperationReplyParseError β) OperationReply := do
  let actualLen := bytes.length
  if actualLen < minLen then
    Outcome.err (.notEnoughBytes actualLen minLen)
  else
    let rawFlags := toU32 (← Outcome.arrayAt bytes 0 4)
    let flags ← Outcome.okOr (.unknownFlagBits (rawFlags &&& ~~~OperationReplyFlags.all.bits))
      (OperationReplyFlags.fromBits rawFlags)
    let cursorId := toI64 (← Outcome.arrayAt bytes 4 8)
    let startingFrom := toI32 (← Outcome.arrayAt bytes 12 4)
    let numberReturned := toI32 (← Outcome.arrayAt bytes 16 4)
    let reader ← Outcome.sliceFrom bytes minLen
    let documents ← Items.times (document bson) 0 (numDocs numberReturned) reader
    pure { flags, cursorId, startingFrom, documents }

/-- What follows the length check of `from_bytes`, without the index checks. -/
def replyOf (bytes : Bytes) : Outcome (OperationReplyParseError β) OperationReply := do
  let rawFlags := toU32 (bytes.take 4)
  let flags ← Outcome.okOr (.unknownFlagBits (rawFlags &&& ~~~OperationReplyFlags.all.bits))
    (OperationReplyFlags.fromBits rawFlags)
  let documents ← Items.times (document bson) 0 (numDocs (toI32 ((bytes.drop 16).take 4)))
    (bytes.drop minLen)
  pure ⟨flags, toI64 ((bytes.drop 4).take 8), toI32 ((bytes.drop 12).take 4), documents⟩

theorem fromBytes_of_lt (bytes : Bytes) (h : bytes.length < minLen) :
    fromBytes bson bytes = Outcome.err (.notEnoughBytes bytes.length minLen) := by
  simp only [fromBytes, if_pos h]

theorem fromBytes_of_le (bytes : Bytes) (h : minLen ≤ bytes.length) :
    fromBytes bson bytes = replyOf bson bytes := by
  have hlt : ¬ bytes.length < minLen := by omega
  have hslice := Outcome.sliceFrom_eq (ε := OperationReplyParseError β) bytes minLen h
  simp only [minLen] at h
  simp only [fromBytes, replyOf, if_neg hlt, Outcome.arrayAt_eq bytes 0 4 (by omega),
    Outcome.arrayAt_eq bytes 4 8 (by omega), Outcome.arrayAt_eq bytes 12 4 (by omega),
    Outcome.arrayAt_eq bytes 16 4 (by omega), hslice, Outcome.ok_bind, List.drop_zero]

/-! ### Writing -/

/-- `documents.len().try_into()`. -/
def numberReturned (m : OperationReply) : Except (OperationReplyWriteError β) Int32 :=
  match i32OfNat m.documents.length with
  | some n => .ok n
  | none => .error (.tooManyDocuments m.documents.length)

def writeBytes (m : OperationReply) (requestId : RequestId) (responseTo : Option ResponseTo) :
    Put (OperationReplyWriteError β) Unit := do
  let numberReturned ← Put.lift m.numberReturned
  let documentsBytes ← Put.lift ((writeDocuments bson m.documents).mapError
    .serializeDocumentError)
  let messageLength := MessageHeader.size + minLen + documentsBytes.length
  let messageLength ← Put.lift (messageLengthOf .messageTooLarge messageLength)
  let header : MessageHeader := { messageLength, opCode := .reply, requestId, responseTo }
  Put.put header.writeBytes
  Put.put (ofU32 m.flags.bits)
  Put.put (ofI64 m.cursorId)
  Put.put (ofI32 m.startingFrom)
  Put.put (ofI32 numberReturned)
  Put.put documentsBytes

/-- The body `write_bytes` appends after the header. -/
def bodyBytes (m : OperationReply) (numberReturned : Int32) (documentsBytes : Bytes) : Bytes :=
  ofU32 m.flags.bits ++ (ofI64 m.cursorId ++ (ofI32 m.startingFrom ++ (ofI32 numberReturned ++
    documentsBytes)))

def frame (m : OperationReply) (requestId : RequestId) (responseTo : Option ResponseTo) :
    Except (OperationReplyWriteError β) Bytes := do
  let numberReturned ← m.numberReturned
  let documentsBytes ← (writeDocuments bson m.documents).mapError .serializeDocumentError
  let body := m.bodyBytes numberReturned documentsBytes
  let messageLength ← messageLengthOf .messageTooLarge (MessageHeader.size + body.length)
  pure ((MessageHeader.mk messageLength requestId responseTo .reply).writeBytes ++ body)

theorem writeBytes_appends (m : OperationReply) (requestId : RequestId)
    (responseTo : Option ResponseTo) :
    (m.writeBytes bson requestId responseTo).Appends (m.frame bson requestId responseTo) := by
  apply Put.Appends.lift_bind
  intro numberReturned
  apply Put.Appends.lift_bind
  intro documentsBytes
  have hlen : MessageHeader.size + minLen + documentsBytes.length
      = MessageHeader.size + (m.bodyBytes numberReturned documentsBytes).length := by
    simp only [minLen, bodyBytes, List.length_append, ofU32_length, ofI32_length, ofI64_length]
    omega
  simp only [hlen]
  apply Put.Appends.lift_bind
  intro messageLength dst
  simp only [Put.exec_bind, Put.exec_put, Except.pure, pure, bodyBytes, List.append_assoc]

/-- The body of an accepted reply is its fields in the order they are written, with the count the
sender gave; the documents are read from `reader`. -/
theorem fromBytes_eq_ok {body : Bytes} {m : OperationReply} (h : fromBytes bson body = .ok m) :
    body = m.bodyBytes (toI32 ((body.drop 16).take 4)) (body.drop minLen) ∧ m.flags.Named ∧
      Items.times (document bson) 0 (numDocs (toI32 ((body.drop 16).take 4))) (body.drop minLen)
        = .ok m.documents := by
  have hmin : minLen ≤ body.length := by
    by_contra hlt
    rw [fromBytes_of_lt bson body (Nat.not_le.mp hlt)] at h
    exact Outcome.err_ne_ok _ _ h
  rw [fromBytes_of_le bson body hmin] at h
  simp only [minLen] at hmin
  simp only [replyOf, Outcome.bind_eq_ok, Outcome.okOr_eq_ok] at h
  obtain ⟨flags, hflags, documents, hdocs, hm⟩ := h
  cases hm
  obtain ⟨hbits, hnamed⟩ := OperationReplyFlags.fromBits_eq_some hflags
  refine ⟨?_, hnamed, hdocs⟩
  have hfield : ∀ i n, i + n ≤ body.length → ((body.drop i).take n).length = n := by
    intro i n hi
    rw [List.length_take, List.length_drop]
    omega
  have h0 := hfield 0 4 (by omega)
  rw [List.drop_zero] at h0
  simp only [bodyBytes, hbits, ofU32_toU32 _ h0, ofI64_toI64 _ (hfield 4 8 (by omega)),
    ofI32_toI32 _ (hfield 12 4 (by omega)), ofI32_toI32 _ (hfield 16 4 (by omega))]
  have hnext : ∀ i n, (body.drop i).take n ++ body.drop (i + n) = body.drop i := by
    intro i n
    rw [← List.drop_drop, List.take_append_drop]
  have h16 : (body.drop 16).take 4 ++ body.drop minLen = body.drop 16 := hnext 16 4
  rw [h16, hnext 12 4, hnext 4 8, List.take_append_drop]

end OperationReply

end MongodProxy
