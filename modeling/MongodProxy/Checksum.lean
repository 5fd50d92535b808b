import MongodProxy.Lib.Crc
import MongodProxy.Serve.RewriteHello
import MongodProxy.Transparency

/-!
# Checksums through the proxy

The checksum of an OP_MSG frame is passed through as a number: it is neither checked
nor computed again. It stays correct when forwarding leaves the bytes it covers as
they were, and forwarding changes them by clearing flag bits without a name, by
removing topology fields, and by writing documents that are not canonical.
-/

namespace MongodProxy
open LittleEndian

/-- The last four bytes are the CRC-32C of the bytes before them. -/
def ValidChecksum (frame : Bytes) : Prop :=
  frame.drop (frame.length - 4) = ofU32 (Crc.crc32c (frame.take (frame.length - 4)))

instance (frame : Bytes) : Decidable (ValidChecksum frame) :=
  inferInstanceAs (Decidable (_ = _))

/- CHECKSUM_PRESENT is set in the flag word of the frame. -/
def carriesChecksum (frame : Bytes) : Bool :=
  (OperationMessageFlags.fromBitsTruncate (flagBits frame)).contains .checksumPresent

theorem length_sub_four (pre : Bytes) (c : UInt32) : (pre ++ ofU32 c).length - 4 = pre.length := by
  rw [List.length_append, ofU32_length]
  omega

theorem validChecksum_append (pre : Bytes) (c : UInt32) :
    ValidChecksum (pre ++ ofU32 c) ↔ c = Crc.crc32c pre := by
  unfold ValidChecksum
  rw [length_sub_four, List.drop_left, List.take_left]
  constructor
  · intro h
    rw [← toU32_ofU32 c, h, toU32_ofU32]
  · intro h
    rw [h]

section
variable {β : Type} {bson : BsonCodec β}

/- A frame that was accepted with a checksum ends with it. -/
theorem accepted_parts {frame : Bytes} {m : Message} {om : OperationMessage}
    (hdec : WireDecoder.decode bson .default frame = (.ok (some m), .default, []))
    (hmsg : m.operation = .message om) (hflag : carriesChecksum frame = true) :
    ∃ ss c, om.checksum = some c ∧
      frame = frame.take 16 ++ (ofU32 (flagBits frame) ++ (ss ++ ofU32 c)) ∧
      frame.drop 20 = ss ++ ofU32 c := by
  obtain ⟨header, -, -, -, hparsed, -⟩ := WireDecoder.decode_default_message bson hdec hmsg
  have hmin := OpMsgGrammar.length_of_fromBytes hparsed
  rw [OpMsgGrammar.fromBytes_of_le bson _ hmin] at hparsed
  obtain ⟨hflags, -, hsum, hrest⟩ := OpMsgGrammar.messageOf_eq_ok hparsed
  have hdrop : (frame.drop 16).drop 4 = frame.drop 20 := List.drop_drop ..
  have hsome : om.checksum.isSome = true := by
    rw [hsum, hflags]
    exact hflag
  obtain ⟨c, hc⟩ := Option.isSome_iff_exists.mp hsome
  have hbytes : om.checksumBytes = ofU32 c := by
    simp only [OperationMessage.checksumBytes, hc]
  rw [hbytes, hdrop] at hrest
  refine ⟨_, c, hc, ?_, hrest.symm⟩
  have hword : ofU32 (flagBits frame) = (frame.drop 16).take 4 := by
    apply ofU32_toU32
    rw [OperationMessage.minLen] at hmin
    rw [List.length_take]
    omega
  rw [hrest, hword, ← hdrop, List.take_append_drop, List.take_append_drop]

/- Whatever the sections are, the checksum is written as it was read. -/
theorem frame_checksum {om : OperationMessage} {c : UInt32} {requestId : RequestId}
    {responseTo : Option ResponseTo} {out : Bytes} (hc : om.checksum = some c)
    (h : om.frame bson requestId responseTo = .ok out) :
    carriesChecksum out = true ∧ out.drop (out.length - 4) = ofU32 c := by
  unfold OperationMessage.frame at h
  obtain ⟨ss, -, h⟩ := (Outcome.bind_eq_ok _ _ _).mp h
  obtain ⟨len, -, h⟩ := (Outcome.bind_eq_ok _ _ _).mp h
  have hbytes : om.checksumBytes = ofU32 c := by
    simp only [OperationMessage.checksumBytes, hc]
  rw [hbytes, hc] at h
  cases h
  constructor
  · have hbits : flagBits ((MessageHeader.mk len requestId responseTo .msg).writeBytes ++
        (ofU32 (om.flags.set .checksumPresent true).bits ++ (ss ++ ofU32 c)))
        = (om.flags.set .checksumPresent true).bits := by
      have hsize := MessageHeader.writeBytes_length ⟨len, requestId, responseTo, .msg⟩
      rw [MessageHeader.size] at hsize
      unfold flagBits
      rw [List.drop_left' hsize, List.take_left' (ofU32_length _),
        toU32_ofU32]
    unfold carriesChecksum
    simp only [Option.isSome_some]
    rw [hbits]
    exact Bitflags.contains_truncate (by decide) (Bitflags.contains_set _ _ true (by decide))
  · rw [← List.append_assoc, ← List.append_assoc, length_sub_four, List.drop_left]

/- Where there is nothing to strip the rewrite changes nothing. -/
theorem stripTopologyFields_of_clean {doc : Document}
    (h : ∀ field ∈ topologyDiscoveryFields, field ∉ doc.keys) : stripTopologyFields doc = doc := by
  apply Document.ext
  rw [stripTopologyFields, entries_foldl_remove]
  apply List.filter_eq_self.mpr
  intro e he
  apply decide_eq_true
  intro hmem
  exact h e.1 hmem (List.mem_map.mpr ⟨e, he, rfl⟩)

theorem stripTopologyFromMessage_of_clean {m : Message} {om : OperationMessage}
    (hmsg : m.operation = .message om)
    (h : ∀ doc, .body doc ∈ om.sections → ∀ field ∈ topologyDiscoveryFields, field ∉ doc.keys) :
    stripTopologyFromMessage m = m := by
  have hsections : om.sections.map stripTopologyFromSection = om.sections := by
    apply List.map_congr_left (g := id) ?_ |>.trans (List.map_id _)
    intro s hs
    cases s with
    | body doc =>
      simp only [stripTopologyFromSection, stripTopologyFields_of_clean (h doc hs), id]
    | documentSequence identifier documents => rfl
  obtain ⟨requestId, responseTo, operation⟩ := m
  cases hmsg
  simp only [stripTopologyFromMessage, stripTopologyFromOperation, hsections]

/-- With nothing but the flag word rewritten, the checksum stays right exactly when the flag
word does. -/
theorem validChecksum_withFlagBits {frame ss : Bytes} {c raw : UInt32}
    (hframe : frame = frame.take 16 ++ (ofU32 (flagBits frame) ++ (ss ++ ofU32 c)))
    (hrest : frame.drop 20 = ss ++ ofU32 c) (hvalid : ValidChecksum frame) :
    ValidChecksum (withFlagBits frame raw) ↔ raw = flagBits frame := by
  have hregroup : ∀ bits, frame.take 16 ++ (ofU32 bits ++ (ss ++ ofU32 c))
      = frame.take 16 ++ (ofU32 bits ++ ss) ++ ofU32 c := by
    intro bits
    simp only [List.append_assoc]
  have hsum : c = Crc.crc32c (frame.take 16 ++ (ofU32 (flagBits frame) ++ ss)) := by
    rw [← validChecksum_append, ← hregroup, ← hframe]
    exact hvalid
  unfold withFlagBits
  rw [hrest, hregroup, validChecksum_append]
  constructor
  · intro h
    have hword := Crc.crc32c_word_inj _ _ (by rw [ofU32_length, ofU32_length])
      (Nat.le_of_eq (ofU32_length _)) (hsum.symm.trans h)
    rw [← toU32_ofU32 raw, ← hword, toU32_ofU32]
  · intro h
    rw [h]
    exact hsum

theorem encode_eq_ok_iff (m : Message) (out : Bytes) :
    (WireEncoder.encode bson m).exec [] = (.ok (), out) ↔ m.frame bson = .ok out := by
  have happends := (m.writeBytes_appends bson).mapErr WireEncoderError.messageWriteError []
  rw [WireEncoder.encode, happends]
  cases m.frame bson with
  | error e => simp [Except.mapError]
  | ok f => simp [Except.mapError]

theorem frame_message_eq_ok {requestId : RequestId} {responseTo : Option ResponseTo}
    {om : OperationMessage} {out : Bytes}
    (h : Message.frame bson ⟨requestId, responseTo, .message om⟩ = .ok out) :
    om.frame bson requestId responseTo = .ok out := by
  simp only [Message.frame, Operation.frame] at h
  exact (Outcome.mapError_eq_ok _ _ _).mp ((Outcome.mapError_eq_ok _ _ _).mp h)

/-- A frame with a right checksum, forwarded as a request or handed on as a reply: the checksum
is passed through. If the documents are canonical and nothing is stripped, it is right
afterwards exactly when no flag bit without a name was set. -/
theorem checksum_passed_through {ε : Type} (frame : Bytes) (m : Message) (om : OperationMessage)
    (hdec : WireDecoder.decode bson .default frame = (.ok (some m), .default, []))
    (hmsg : m.operation = .message om) (hflag : carriesChecksum frame = true)
    (hvalid : ValidChecksum frame) (enabled : Bool) (req out : Message)
    (hout : out = m ∨ rewriteItem (enabled && isHelloRequest req)
      (some (.ok m) : Option (Except ε Message)) = some (.ok out)) :
    (∀ sent, (WireEncoder.encode bson out).exec [] = (.ok (), sent) →
      carriesChecksum sent = true ∧
        sent.drop (sent.length - 4) = frame.drop (frame.length - 4)) ∧
    ((∀ r ∈ OpMsgGrammar.documentReads bson (sectionsBytes frame), bson.Canonical r) →
      (out = m ∨ ∀ doc, .body doc ∈ om.sections →
        ∀ field ∈ topologyDiscoveryFields, field ∉ doc.keys) →
      ∃ sent, (WireEncoder.encode bson out).exec [] = (.ok (), sent) ∧
        (ValidChecksum sent ↔ (⟨flagBits frame⟩ : OperationMessageFlags).Named)) := by
  obtain ⟨ss, c, hc, hframe, hrest⟩ := accepted_parts hdec hmsg hflag
  have hstripped : out = m ∨ out = stripTopologyFromMessage m := by
    rcases hout with rfl | hitem
    · exact .inl rfl
    · simp only [rewriteItem, Option.some.injEq, Except.ok.injEq] at hitem
      split_ifs at hitem
      · exact .inr hitem.symm
      · exact .inl hitem.symm
  constructor
  · intro sent hsent
    have hlast : frame.drop (frame.length - 4) = ofU32 c := by
      rw [hframe, ← List.append_assoc, ← List.append_assoc, length_sub_four, List.drop_left]
    rw [hlast]
    rw [encode_eq_ok_iff] at hsent
    obtain ⟨requestId, responseTo, operation⟩ := m
    cases hmsg
    rcases hstripped with rfl | rfl
    · exact frame_checksum hc (frame_message_eq_ok hsent)
    · have hkept : ({ om with sections := om.sections.map stripTopologyFromSection }
          : OperationMessage).checksum = some c := hc
      exact frame_checksum hkept (frame_message_eq_ok hsent)
  · intro hcanon hclean
    have hsame : out = m := by
      rcases hstripped with rfl | rfl
      · rfl
      · rcases hclean with h | h
        · exact h
        · exact stripTopologyFromMessage_of_clean hmsg h
    subst hsame
    refine ⟨_, (encode_eq_ok_iff out _).mpr
      (Message.frame_forward bson frame out om hdec hmsg hcanon), ?_⟩
    rw [validChecksum_withFlagBits hframe hrest hvalid]
    constructor
    · intro h
      have hnamed := Bitflags.named_truncate OperationMessageFlags.all.bits (flagBits frame)
      rw [Bitflags.truncate] at hnamed
      change Bitflags.Named _ (flagBits frame &&& 0x00010003) at hnamed
      rw [h] at hnamed
      exact hnamed
    · exact Bitflags.truncate_of_named

end

/-! ### Two frames whose checksum does not survive, and one whose does -/

/- `{}` and `{me: null}`. -/
def meDocument : Document := ⟨[("me", .null)], by decide⟩

def meBson : BsonCodec Unit where
  fromReader
    | 5 :: 0 :: 0 :: 0 :: 0 :: _ => .ok (.new, 5)
    | 9 :: 0 :: 0 :: 0 :: 0x0A :: 0x6D :: 0x65 :: 0 :: 0 :: _ => .ok (meDocument, 9)
    | _ => .error ()
  toWriter d := match d.entries with
    | [] => .ok [5, 0, 0, 0, 0]
    | [(key, .null)] => if key = "me" then .ok [9, 0, 0, 0, 0x0A, 0x6D, 0x65, 0, 0] else .error ()
    | _ => .error ()
  serializeToVec d := match d.entries with
    | [] => .ok [5, 0, 0, 0, 0]
    | [(key, .null)] => if key = "me" then .ok [9, 0, 0, 0, 0x0A, 0x6D, 0x65, 0, 0] else .error ()
    | _ => .error ()

/- A reply with CHECKSUM_PRESENT and the unnamed flag bit 17. -/
def unnamedBitFrame : Bytes :=
  [30, 0, 0, 0, 8, 0, 0, 0, 7, 0, 0, 0, 0xDD, 7, 0, 0, 1, 0, 2, 0, 0, 5, 0, 0, 0, 0,
    183, 41, 25, 127]

/- A reply to `hello` with CHECKSUM_PRESENT and the document `{me: null}`. -/
def helloReplyFrame : Bytes :=
  [34, 0, 0, 0, 8, 0, 0, 0, 7, 0, 0, 0, 0xDD, 7, 0, 0, 1, 0, 0, 0,
    0, 9, 0, 0, 0, 0x0A, 0x6D, 0x65, 0, 0, 230, 30, 241, 70]

/- The same without the unnamed bit. -/
def plainFrame : Bytes :=
  [30, 0, 0, 0, 8, 0, 0, 0, 7, 0, 0, 0, 0xDD, 7, 0, 0, 1, 0, 0, 0, 0, 5, 0, 0, 0, 0,
    249, 211, 97, 237]

def helloRequest : Message :=
  ⟨⟨7⟩, none, .message ⟨.empty, [.body ⟨[("hello", .int32 1)], by decide⟩], none⟩⟩

def replyWith (doc : Document) (checksum : UInt32) : Message :=
  ⟨⟨8⟩, some ⟨7, ResponseTo.seven_ne_zero⟩, .message ⟨.checksumPresent, [.body doc], some checksum⟩⟩

/- The frames the proxy sends for the first two. -/
def unnamedBitSent : Bytes := withFlagBits unnamedBitFrame 1

def helloReplySent : Bytes :=
  [30, 0, 0, 0, 8, 0, 0, 0, 7, 0, 0, 0, 0xDD, 7, 0, 0, 1, 0, 0, 0, 0, 5, 0, 0, 0, 0,
    230, 30, 241, 70]

theorem checksum_not_kept :
    (WireDecoder.decode meBson .default unnamedBitFrame
        = (.ok (some (replyWith .new 0x7F1929B7)), .default, []) ∧
      ValidChecksum unnamedBitFrame ∧
      (WireEncoder.encode meBson (replyWith .new 0x7F1929B7)).exec [] = (.ok (), unnamedBitSent) ∧
      carriesChecksum unnamedBitSent = true ∧ ¬ValidChecksum unnamedBitSent) ∧
    (WireDecoder.decode meBson .default helloReplyFrame
        = (.ok (some (replyWith meDocument 0x46F11EE6)), .default, []) ∧
      ValidChecksum helloReplyFrame ∧
      (rewriteItem (true && isHelloRequest helloRequest)
          (some (.ok (replyWith meDocument 0x46F11EE6))) : Option (Except Unit Message))
        = some (.ok (replyWith .new 0x46F11EE6)) ∧
      (WireEncoder.encode meBson (replyWith .new 0x46F11EE6)).exec [] = (.ok (), helloReplySent) ∧
      carriesChecksum helloReplySent = true ∧ ¬ValidChecksum helloReplySent) := by
  refine ⟨⟨rfl, by decide +kernel, rfl, rfl, by decide +kernel⟩,
    rfl, by decide +kernel, ?_, rfl, rfl, by decide +kernel⟩
  have hhello : isHelloRequest helloRequest = true := by decide
  rw [hhello]
  rfl

theorem plainFrame_kept :
    ∃ sent, (WireEncoder.encode BsonCodec.emptyOnly (replyWith .new 0xED61D3F9)).exec []
        = (.ok (), sent) ∧ ValidChecksum sent := by
  have hdec : WireDecoder.decode BsonCodec.emptyOnly .default plainFrame
      = (.ok (some (replyWith .new 0xED61D3F9)), .default, []) := rfl
  obtain ⟨-, hkept⟩ := checksum_passed_through (ε := Unit) plainFrame _ _ hdec rfl (by decide)
    (by decide +kernel) true helloRequest (replyWith .new 0xED61D3F9) (.inl rfl)
  obtain ⟨sent, hsent, hiff⟩ := hkept (fun r _ => BsonCodec.emptyOnly_canonical r) (.inl rfl)
  exact ⟨sent, hsent, hiff.mpr (by decide)⟩

end MongodProxy
