import MongodProxy.Decoder
import MongodProxy.TrailingBytes.Legacy
import MongodProxy.TrailingBytes.OpMsg

/-!
# Bytes after the frame

`Message::from_bytes` hands everything after the header to the body parser, bytes
beyond `message_length` included, while the decoder hands over the frame alone. That
makes no difference, whatever follows the frame, exactly for the frames whose body is
settled.
-/

namespace MongodProxy
open LittleEndian

variable {β : Type} {bson : BsonCodec β}

def Operation.SettledBody (bson : BsonCodec β) : OPCode → Bytes → Prop
  | .msg => OpMsgGrammar.SettledBody bson
  | .query => OperationQuery.SettledBody bson
  | .reply => OperationReply.SettledBody bson

theorem Operation.fromBytes_settled_iff (hb : bson.Delimited) (opCode : OPCode) (body : Bytes) :
    (∀ t, Operation.fromBytes bson opCode (body ++ t) = Operation.fromBytes bson opCode body)
      ↔ Operation.SettledBody bson opCode body := by
  cases opCode with
  | msg =>
    rw [Operation.SettledBody, ← OpMsgGrammar.fromBytes_settled_iff hb]
    refine forall_congr' fun t => ⟨?_, fun h => by simp only [Operation.fromBytes, h]⟩
    intro h
    have hinner := Outcome.eq_of_bind_pure (fun _ _ => Operation.message.inj) _ _ h
    exact (Outcome.mapErr_inj (fun _ _ => OperationParseError.failedToParseMessage.inj) _ _).mp hinner
  | query =>
    rw [Operation.SettledBody, ← OperationQuery.fromBytes_settled_iff hb]
    refine forall_congr' fun t => ⟨?_, fun h => by simp only [Operation.fromBytes, h]⟩
    intro h
    have hinner := Outcome.eq_of_bind_pure (fun _ _ => Operation.query.inj) _ _ h
    exact (Outcome.mapErr_inj (fun _ _ => OperationParseError.failedToParseQuery.inj) _ _).mp hinner
  | reply =>
    rw [Operation.SettledBody, ← OperationReply.fromBytes_settled_iff hb]
    refine forall_congr' fun t => ⟨?_, fun h => by simp only [Operation.fromBytes, h]⟩
    intro h
    have hinner := Outcome.eq_of_bind_pure (fun _ _ => Operation.reply.inj) _ _ h
    exact (Outcome.mapErr_inj (fun _ _ => OperationParseError.failedToParseReply.inj) _ _).mp hinner

/- A result of `Message::from_bytes` as the decoder reports it. -/
def decoderError : MessageParseError β → WireDecoderError β
  | .failedToParseHeader e => headerError e
  | .failedToParseMessageBody e => .messageParse e

def asDecoded (r : Outcome (MessageParseError β) Message) :
    Except (Outcome.Fail (WireDecoderError β)) (Option Message) :=
  (Outcome.mapErr decoderError r).map some

theorem Message.fromBytes_frame (bson : BsonCodec β) {f : Bytes} {header : MessageHeader}
    (hh : MessageHeader.fromBytes f = .ok header)
    (hlen : f.length = header.messageLength.asUsize) (t : Bytes) :
    Message.fromBytes bson (f ++ t) = Outcome.mapErr .failedToParseMessageBody
      (Outcome.mapErr .failedToParseOperation (Operation.fromBytes bson header.opCode
          (f.drop MessageHeader.size ++ t)) >>= fun op =>
        pure { requestId := header.requestId, responseTo := header.responseTo, operation := op }) := by
  have hsize := MessageHeader.size_le_of_fromBytes _ _ hh
  have hle : header.messageLength.asUsize ≤ (f ++ t).length := by
    rw [List.length_append]
    omega
  have hht : MessageHeader.fromBytes (f ++ t) = .ok header := by
    rw [MessageHeader.fromBytes_append f t hsize, hh]
  simp only [Message.fromBytes, hht, Outcome.mapErr_ok, Outcome.ok_bind]
  rw [Message.fromHeadersAndBytes_of_le bson header _ hle, List.drop_append_of_le_length hsize]

theorem WireDecoder.decode_frame (bson : BsonCodec β) {f : Bytes} {header : MessageHeader}
    (hh : MessageHeader.fromBytes f = .ok header)
    (hlen : f.length = header.messageLength.asUsize) (t : Bytes) :
    (WireDecoder.decode bson .default (f ++ t)).1 = asDecoded (Message.fromBytes bson f) := by
  have hsize := MessageHeader.size_le_of_fromBytes _ _ hh
  have hht : MessageHeader.fromBytes (f ++ t) = .ok header := by
    rw [MessageHeader.fromBytes_append f t hsize, hh]
  have hnot : ¬(f ++ t).length < header.messageLength.asUsize := by
    rw [List.length_append]
    omega
  have hfits : WireDecoder.default.Fits (f ++ t) := fun _ h => by cases h
  rw [WireDecoder.decode_ok bson hfits hht, if_neg hnot, ← hlen, List.take_left]
  simp only [asDecoded, Message.fromBytes, hh, Outcome.mapErr_ok, Outcome.ok_bind]
  rcases Message.fromHeadersAndBytes bson header f with (e | - | -) | m
  · rfl
  · rfl
  · rfl
  · rfl

/-- For a complete frame: whatever follows it, `Message::from_bytes` answers as it does on the
frame alone, and as a fresh decoder does, exactly when the body is settled. -/
theorem Message.trailing_ignored_iff (hb : bson.Delimited) (f : Bytes) (header : MessageHeader)
    (hh : MessageHeader.fromBytes f = .ok header)
    (hlen : f.length = header.messageLength.asUsize) :
    (∀ t, Message.fromBytes bson (f ++ t) = Message.fromBytes bson f ∧
        (WireDecoder.decode bson .default (f ++ t)).1 = asDecoded (Message.fromBytes bson (f ++ t)))
      ↔ Operation.SettledBody bson header.opCode (f.drop MessageHeader.size) := by
  have hdecode := fun t => WireDecoder.decode_frame bson hh hlen t
  have hframe := fun t => Message.fromBytes_frame bson hh hlen t
  have hnil := hframe []
  rw [List.append_nil, List.append_nil] at hnil
  rw [← Operation.fromBytes_settled_iff hb]
  constructor
  · intro h t
    have ht := (h t).1
    rw [hframe t, hnil] at ht
    have hbody := (Outcome.mapErr_inj
      (fun _ _ => MessageParseError.failedToParseMessageBody.inj) _ _).mp ht
    have hinner := Outcome.eq_of_bind_pure (fun _ _ hm => congrArg Message.operation hm) _ _ hbody
    exact (Outcome.mapErr_inj
      (fun _ _ => MessageAndHeaderParseError.failedToParseOperation.inj) _ _).mp hinner
  · intro h t
    have heq : Message.fromBytes bson (f ++ t) = Message.fromBytes bson f := by
      rw [hframe t, hnil, h t]
    exact ⟨heq, by rw [heq, hdecode t]⟩

/- An OP_REPLY without documents: nothing after it is looked at. -/
def emptyReplyFrame : Bytes :=
  [36, 0, 0, 0, 9, 0, 0, 0, 7, 0, 0, 0, 1, 0, 0, 0,
    8, 0, 0, 0, 0, 0, 0, 0, 0, 0, 0, 0, 0, 0, 0, 0, 0, 0, 0, 0]

def emptyReplyHeader : MessageHeader := ⟨⟨36, by decide⟩, ⟨9⟩, some ⟨7, ResponseTo.seven_ne_zero⟩, .reply⟩

theorem emptyReplyFrame_trailing :
    Message.fromBytes BsonCodec.emptyOnly (emptyReplyFrame ++ [1])
      = Message.fromBytes BsonCodec.emptyOnly emptyReplyFrame := by
  have hsettled : Operation.SettledBody BsonCodec.emptyOnly emptyReplyHeader.opCode
      (emptyReplyFrame.drop MessageHeader.size) :=
    ⟨by decide, .inr (by simp only [Items.Settled, show OperationReply.numDocs
      (toI32 (((emptyReplyFrame.drop MessageHeader.size).drop 16).take 4)) = 0 by decide])⟩
  exact ((Message.trailing_ignored_iff BsonCodec.emptyOnly_delimited emptyReplyFrame
    emptyReplyHeader rfl rfl).mpr hsettled [1]).1

/- An OP_MSG with one empty document, and one more byte after it. -/
def bodyFrame : Bytes :=
  [26, 0, 0, 0, 9, 0, 0, 0, 7, 0, 0, 0, 0xDD, 7, 0, 0, 0, 0, 0, 0, 0, 5, 0, 0, 0, 0]

def bodyMessage : Message := ⟨⟨9⟩, some ⟨7, ResponseTo.seven_ne_zero⟩, .message ⟨.empty, [.body .new], none⟩⟩

theorem bodyFrame_trailing :
    Message.fromBytes BsonCodec.emptyOnly bodyFrame = .ok bodyMessage ∧
      (WireDecoder.decode BsonCodec.emptyOnly .default (bodyFrame ++ [0])).1
        = .ok (some bodyMessage) ∧
      Message.fromBytes BsonCodec.emptyOnly (bodyFrame ++ [0]) = Outcome.err
        (.failedToParseMessageBody (.failedToParseOperation
          (.failedToParseMessage (.invalidBson ())))) :=
  ⟨rfl, rfl, rfl⟩

end MongodProxy
