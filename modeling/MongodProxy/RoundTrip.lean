import MongodProxy.Message
import MongodProxy.Operation.OpMsgGrammar

/-!
# Reading back a written message

For each of the three body layouts the parser finds every variable-length part
at the offset the writer put it, so a message that can be written is the message
that is read back. The one difference is the CHECKSUM_PRESENT bit, which the
writer derives from the checksum.
-/

namespace MongodProxy
open LittleEndian

variable {β : Type} {bson : BsonCodec β}

theorem Message.fromBytes_writeBytes_header (header : MessageHeader) (body : Bytes)
    (hlen : header.messageLength.asUsize = MessageHeader.size + body.length) :
    Message.fromBytes bson (header.writeBytes ++ body)
      = Outcome.mapErr .failedToParseMessageBody
          (Outcome.mapErr .failedToParseOperation (Operation.fromBytes bson header.opCode body)
            >>= fun op => pure ⟨header.requestId, header.responseTo, op⟩) := by
  have hle : header.messageLength.asUsize ≤ (header.writeBytes ++ body).length := by
    rw [hlen, List.length_append, MessageHeader.writeBytes_length]
  have hdrop : (header.writeBytes ++ body).drop MessageHeader.size = body :=
    List.drop_left' (MessageHeader.writeBytes_length header)
  simp only [fromBytes, MessageHeader.fromBytes_writeBytes, Outcome.mapErr_ok, Outcome.ok_bind,
    fromHeadersAndBytes_of_le bson header _ hle, hdrop]

/-! ### OP_MSG -/

namespace OperationMessage

theorem frame_eq_ok {m : OperationMessage} {requestId : RequestId} {responseTo : Option ResponseTo}
    {w : Bytes} (h : m.frame bson requestId responseTo = .ok w) :
    ∃ (len : MessageLength) (ss : Bytes), writeSections bson m.sections = .ok ss ∧
      len.asUsize = MessageHeader.size + (ofU32 (m.flags.set .checksumPresent m.checksum.isSome).bits
        ++ (ss ++ m.checksumBytes)).length ∧
      w = (MessageHeader.mk len requestId responseTo .msg).writeBytes ++
        (ofU32 (m.flags.set .checksumPresent m.checksum.isSome).bits ++ (ss ++ m.checksumBytes)) := by
  simp only [frame, Outcome.bind_eq_ok] at h
  obtain ⟨ss, hs, len, hl, hw⟩ := h
  exact ⟨len, ss, hs, messageLengthOf_eq_ok _ _ _ hl, (Except.ok.inj hw).symm⟩

theorem fromBytes_body (hb : bson.ReadsBack) (m : OperationMessage) (ss : Bytes)
    (hs : writeSections bson m.sections = .ok ss) (hflags : m.flags.Named)
    (hne : m.sections ≠ [] ∨ m.checksum.isSome) :
    fromBytes bson (ofU32 (m.flags.set .checksumPresent m.checksum.isSome).bits
      ++ (ss ++ m.checksumBytes))
      = .ok { m with flags := m.flags.set .checksumPresent m.checksum.isSome } := by
  generalize hf : m.flags.set .checksumPresent m.checksum.isSome = flags
  have hnamed : flags.Named := by
    rw [← hf]
    exact Bitflags.named_set hflags (by decide) _
  have hcontains : flags.contains .checksumPresent = m.checksum.isSome := by
    rw [← hf]
    exact Bitflags.contains_set _ _ _ (by decide)
  have hmin : minLen ≤ (ofU32 flags.bits ++ (ss ++ m.checksumBytes)).length := by
    simp only [List.length_append, ofU32_length, checksumBytes_length, minLen]
    rcases hne with hne | hne
    · have hpos := OpMsgGrammar.writeSections_ne_nil hb hne hs
      have := List.length_pos_iff.mpr hpos
      omega
    · rw [if_pos hne]
      omega
  rw [OpMsgGrammar.fromBytes_of_le bson _ hmin, List.take_left' (ofU32_length _),
    List.drop_left' (ofU32_length _), toU32_ofU32]
  have htrunc : OperationMessageFlags.fromBitsTruncate flags.bits = flags :=
    congrArg OperationMessageFlags.mk (Bitflags.truncate_of_named hnamed)
  have hknown : unknownRequired flags.bits = 0 := unknownRequired_of_named hnamed
  have hsections := OpMsgGrammar.sections_writeSections hb m.sections ss hs
  simp only [OpMsgGrammar.messageOf, hknown, ne_eq, not_true_eq_false, if_false, htrunc, hcontains]
  cases hc : m.checksum with
  | none =>
    simp only [Option.isSome_none, Bool.false_eq_true, if_false, checksumBytes, hc,
      List.append_nil, hsections, Outcome.ok_bind, Outcome.pure_eq_ok]
  | some c =>
    have hlast : (ss ++ ofU32 c).length - 4 = ss.length := by
      simp only [List.length_append, ofU32_length]
      omega
    have hlen : ¬ (ss ++ ofU32 c).length < 4 := by
      simp only [List.length_append, ofU32_length]
      omega
    simp only [Option.isSome_some, if_true, checksumBytes, hc, if_neg hlen, hlast, List.take_left,
      List.drop_left, toU32_ofU32, hsections, Outcome.ok_bind, Outcome.pure_eq_ok]

end OperationMessage

/-! ### OP_QUERY -/

namespace OperationQuery

theorem frame_eq_ok {m : OperationQuery} {requestId : RequestId} {responseTo : Option ResponseTo}
    {w : Bytes} (h : m.frame bson requestId responseTo = .ok w) :
    ∃ (len : MessageLength) (name q r : Bytes),
      CStr.withNul (Text.utf8 m.fullCollectionName) = .ok name ∧
      bson.serializeToVec m.query = .ok q ∧ selectorBytes bson m = .ok r ∧
      len.asUsize = MessageHeader.size + (m.bodyBytes name q r).length ∧
      w = (MessageHeader.mk len requestId responseTo .query).writeBytes ++ m.bodyBytes name q r := by
  simp only [frame, Outcome.bind_eq_ok, Outcome.mapError_eq_ok] at h
  obtain ⟨q, hq, r, hr, name, hn, len, hl, hw⟩ := h
  exact ⟨len, name, q, r, hn, hq, hr, messageLengthOf_eq_ok _ _ _ hl, (Except.ok.inj hw).symm⟩

/-- The projection is there exactly when bytes follow the query document. -/
theorem documentsOf_append (hb : bson.ReadsBack) (m : OperationQuery) (q r : Bytes)
    (hq : bson.serializeToVec m.query = .ok q) (hr : selectorBytes bson m = .ok r) :
    documentsOf bson (q ++ r) = .ok (m.query, m.returnFieldsSelector) := by
  rw [hb.serializeToVec_eq] at hq
  simp only [documentsOf, hb.fromReader_toWriter _ _ r hq, Outcome.ofResult_ok, Outcome.ok_bind,
    List.drop_left]
  cases hsel : m.returnFieldsSelector with
  | none =>
    simp only [selectorBytes, hsel] at hr
    rw [if_pos (Except.ok.inj hr).symm, Outcome.pure_eq_ok]
  | some doc =>
    simp only [selectorBytes, hsel, Outcome.mapError_eq_ok, hb.serializeToVec_eq] at hr
    have hread := hb.fromReader_toWriter doc r [] hr
    rw [List.append_nil] at hread
    have hne : r ≠ [] := by
      intro hnil
      have := hb.toWriter_length doc r hr
      rw [hnil] at this
      simp at this
    simp only [if_neg hne, hread, Outcome.ofResult_ok, Outcome.ok_bind, Outcome.pure_eq_ok]

theorem fromBytes_body (hb : bson.ReadsBack) (m : OperationQuery) (name q r : Bytes)
    (hn : CStr.withNul (Text.utf8 m.fullCollectionName) = .ok name)
    (hq : bson.serializeToVec m.query = .ok q) (hr : selectorBytes bson m = .ok r)
    (hflags : m.flags.Named) : fromBytes bson (m.bodyBytes name q r) = .ok m := by
  obtain ⟨hfree, rfl⟩ := CStr.withNul_eq_ok _ _ hn
  have hqlen : 5 ≤ q.length := by
    rw [hb.serializeToVec_eq] at hq
    exact hb.toWriter_length _ _ hq
  have hmin : minLen ≤ (m.bodyBytes (Text.utf8 m.fullCollectionName ++ [0]) q r).length := by
    simp only [bodyBytes, List.length_append, ofU32_length, ofI32_length, List.length_cons,
      List.length_nil, minLen]
    omega
  rw [fromBytes_of_le bson _ hmin, bodyBytes, List.take_left' (ofU32_length _),
    List.drop_left' (ofU32_length _), toU32_ofU32]
  have hassoc : (Text.utf8 m.fullCollectionName ++ [0]) ++ (ofI32 m.numberToSkip ++
      (ofI32 m.numberToReturn ++ (q ++ r))) = Text.utf8 m.fullCollectionName ++
      0 :: (ofI32 m.numberToSkip ++ (ofI32 m.numberToReturn ++ (q ++ r))) := by
    rw [List.append_assoc]
    rfl
  have hdrop : (Text.utf8 m.fullCollectionName ++
      0 :: (ofI32 m.numberToSkip ++ (ofI32 m.numberToReturn ++ (q ++ r)))).drop
        ((Text.utf8 m.fullCollectionName).length + 1)
      = ofI32 m.numberToSkip ++ (ofI32 m.numberToReturn ++ (q ++ r)) := by
    rw [← List.drop_drop, List.drop_left, List.drop_succ_cons, List.drop_zero]
  simp only [queryOf, OperationQueryFlags.fromBits_bits hflags, Outcome.okOr_some, Outcome.ok_bind,
    hassoc, CStr.untilNul_append _ _ hfree, Text.ofUtf8_utf8, hdrop, tailOf]
  have htail : ¬ (ofI32 m.numberToSkip ++ (ofI32 m.numberToReturn ++ (q ++ r))).length < tailMin := by
    simp only [List.length_append, ofI32_length, tailMin]
    omega
  have h8 : (ofI32 m.numberToSkip ++ (ofI32 m.numberToReturn ++ (q ++ r))).drop 8 = q ++ r := by
    rw [show 8 = 4 + 4 from rfl, ← List.drop_drop, List.drop_left' (ofI32_length _),
      List.drop_left' (ofI32_length _)]
  simp only [if_neg htail, h8, documentsOf_append hb m q r hq hr, Outcome.ok_bind,
    List.take_left' (ofI32_length _), List.drop_left' (ofI32_length _), toI32_ofI32,
    Outcome.pure_eq_ok]

end OperationQuery

/-! ### OP_REPLY -/

namespace OperationReply

theorem frame_eq_ok {m : OperationReply} {requestId : RequestId} {responseTo : Option ResponseTo}
    {w : Bytes} (h : m.frame bson requestId responseTo = .ok w) :
    ∃ (len : MessageLength) (n : Int32) (docs : Bytes), n.toInt = m.documents.length ∧
      writeDocuments bson m.documents = .ok docs ∧
      len.asUsize = MessageHeader.size + (m.bodyBytes n docs).length ∧
      w = (MessageHeader.mk len requestId responseTo .reply).writeBytes ++ m.bodyBytes n docs := by
  simp only [frame, Outcome.bind_eq_ok, Outcome.mapError_eq_ok] at h
  obtain ⟨n, hn, docs, hd, len, hl, hw⟩ := h
  have hcount : n.toInt = m.documents.length := by
    unfold numberReturned at hn
    rcases hi : i32OfNat m.documents.length with - | k
    · rw [hi] at hn
      cases hn
    · rw [hi] at hn
      rw [← Except.ok.inj hn]
      exact i32OfNat_eq_some _ _ hi
  exact ⟨len, n, docs, hcount, hd, messageLengthOf_eq_ok _ _ _ hl, (Except.ok.inj hw).symm⟩

theorem fromBytes_body (hb : bson.ReadsBack) (m : OperationReply) (n : Int32) (docs : Bytes)
    (hn : n.toInt = m.documents.length) (hd : writeDocuments bson m.documents = .ok docs)
    (hflags : m.flags.Named) : fromBytes bson (m.bodyBytes n docs) = .ok m := by
  have hmin : minLen ≤ (m.bodyBytes n docs).length := by
    simp only [bodyBytes, List.length_append, ofU32_length, ofI32_length, ofI64_length, minLen]
    omega
  have h4 : (m.bodyBytes n docs).drop 4 = ofI64 m.cursorId ++ (ofI32 m.startingFrom ++ (ofI32 n ++
      docs)) := List.drop_left' (ofU32_length _)
  have h12 : (m.bodyBytes n docs).drop 12 = ofI32 m.startingFrom ++ (ofI32 n ++ docs) := by
    rw [show 12 = 4 + 8 from rfl, ← List.drop_drop, h4, List.drop_left' (ofI64_length _)]
  have h16 : (m.bodyBytes n docs).drop 16 = ofI32 n ++ docs := by
    rw [show 16 = 12 + 4 from rfl, ← List.drop_drop, h12, List.drop_left' (ofI32_length _)]
  have h20 : (m.bodyBytes n docs).drop minLen = docs := by
    rw [show minLen = 16 + 4 from rfl, ← List.drop_drop, h16, List.drop_left' (ofI32_length _)]
  have h0 : (m.bodyBytes n docs).take 4 = ofU32 m.flags.bits := List.take_left' (ofU32_length _)
  have hcount : numDocs n = m.documents.length := by
    unfold numDocs
    omega
  obtain ⟨ws, rfl, hall⟩ := (Items.writeAll_eq_ok_iff _ _ _).mp hd
  have hread : Items.times (document bson) 0 m.documents.length ws.flatten = .ok m.documents := by
    have henc : List.Forall₂ (fun d p => ∀ i, Items.Encodes (document bson i) d p)
        m.documents ws := by
      apply hall.imp
      intro d p hp i
      have hlen := hb.toWriter_length d p hp
      refine ⟨fun hnil => by simp [hnil] at hlen, fun rest => ?_⟩
      simp only [document, hb.fromReader_toWriter d p rest hp, Outcome.ofResult_ok]
    have := Items.times_flatten (document bson) m.documents ws [] henc 0
    rwa [List.append_nil] at this
  rw [fromBytes_of_le bson _ hmin]
  simp only [replyOf, h0, h4, h12, h16, h20, toU32_ofU32, OperationReplyFlags.fromBits_bits hflags,
    Outcome.okOr_some, Outcome.ok_bind, List.take_left' (ofI32_length _), toI32_ofI32, hcount,
    hread, List.take_left' (ofI64_length _), toI64_ofI64, Outcome.pure_eq_ok]

end OperationReply

/-! ### All three -/

/-- Only named flag bits are set. -/
def Operation.FlagsNamed : Operation → Prop
  | .message m => m.flags.Named
  | .query q => q.flags.Named
  | .reply r => r.flags.Named

/-- Something follows the flag word of an OP_MSG. -/
def Operation.HasContent : Operation → Prop
  | .message m => m.sections ≠ [] ∨ m.checksum.isSome
  | _ => True

/-- The operation with the CHECKSUM_PRESENT bit the writer derives. -/
def Operation.withDerivedFlags : Operation → Operation
  | .message m => .message { m with flags := m.flags.set .checksumPresent m.checksum.isSome }
  | op => op

/-- A written message is read back, with the checksum bit derived from the checksum. -/
theorem Message.fromBytes_of_writeBytes (hb : bson.ReadsBack) (m : Message)
    (hflags : m.operation.FlagsNamed) (hcontent : m.operation.HasContent) (frame : Bytes)
    (hw : (m.writeBytes bson).exec [] = (.ok (), frame)) :
    Message.fromBytes bson frame = .ok { m with operation := m.operation.withDerivedFlags } := by
  have hframe : m.frame bson = .ok frame := by
    rw [m.writeBytes_appends bson []] at hw
    cases hf : m.frame bson with
    | error e => rw [hf] at hw; cases (Prod.mk.inj hw).1
    | ok f =>
      rw [hf] at hw
      rw [← (Prod.mk.inj hw).2, List.nil_append]
  unfold Message.frame at hframe
  rw [Outcome.mapError_eq_ok] at hframe
  obtain ⟨requestId, responseTo, operation⟩ := m
  cases operation with
  | message m =>
    simp only [Operation.frame, Outcome.mapError_eq_ok] at hframe
    obtain ⟨len, ss, hs, hlen, rfl⟩ := OperationMessage.frame_eq_ok hframe
    refine (Message.fromBytes_writeBytes_header ⟨len, requestId, responseTo, .msg⟩ _ hlen).trans ?_
    simp only [Operation.fromBytes, OperationMessage.fromBytes_body hb m ss hs hflags hcontent,
      Outcome.mapErr_ok, Outcome.ok_bind, Outcome.pure_eq_ok, Operation.withDerivedFlags]
  | query q =>
    simp only [Operation.frame, Outcome.mapError_eq_ok] at hframe
    obtain ⟨len, name, qb, rb, hn, hq, hr, hlen, rfl⟩ := OperationQuery.frame_eq_ok hframe
    refine (Message.fromBytes_writeBytes_header ⟨len, requestId, responseTo, .query⟩ _ hlen).trans ?_
    simp only [Operation.fromBytes, OperationQuery.fromBytes_body hb q name qb rb hn hq hr hflags,
      Outcome.mapErr_ok, Outcome.ok_bind, Outcome.pure_eq_ok, Operation.withDerivedFlags]
  | reply r =>
    simp only [Operation.frame, Outcome.mapError_eq_ok] at hframe
    obtain ⟨len, n, docs, hn, hd, hlen, rfl⟩ := OperationReply.frame_eq_ok hframe
    refine (Message.fromBytes_writeBytes_header ⟨len, requestId, responseTo, .reply⟩ _ hlen).trans ?_
    simp only [Operation.fromBytes, OperationReply.fromBytes_body hb r n docs hn hd hflags,
      Outcome.mapErr_ok, Outcome.ok_bind, Outcome.pure_eq_ok, Operation.withDerivedFlags]

/-- Two sections, one of them a sequence, with a checksum and a flag that says otherwise. -/
def sampleMessage : Message where
  requestId := ⟨7⟩
  responseTo := some ⟨3, by decide⟩
  operation := .message {
    flags := .moreToCome
    sections := [.body .new, .documentSequence "docs" [.new, .new]]
    checksum := some 0xDEADBEEF }

def sampleFrame : Bytes :=
  [0x32, 0, 0, 0, 7, 0, 0, 0, 3, 0, 0, 0, 0xDD, 7, 0, 0, 3, 0, 0, 0,
    0, 5, 0, 0, 0, 0,
    1, 19, 0, 0, 0, 0x64, 0x6F, 0x63, 0x73, 0, 5, 0, 0, 0, 0, 5, 0, 0, 0, 0,
    0xEF, 0xBE, 0xAD, 0xDE]

theorem sampleMessage_readBack :
    Message.fromBytes BsonCodec.emptyOnly sampleFrame
      = .ok { sampleMessage with operation := sampleMessage.operation.withDerivedFlags } := by
  have hflags : sampleMessage.operation.FlagsNamed :=
    (by decide : OperationMessageFlags.moreToCome.Named)
  have hwritten : (sampleMessage.writeBytes BsonCodec.emptyOnly).exec [] = (.ok (), sampleFrame) :=
    rfl
  exact Message.fromBytes_of_writeBytes BsonCodec.emptyOnly_readsBack sampleMessage hflags
    (Or.inr rfl) sampleFrame hwritten

end MongodProxy
