import MongodProxy.Decoder
import MongodProxy.Operation.OpMsgGrammar

/-!
# Forwarding an OP_MSG frame

A frame that the decoder accepts as OP_MSG and whose documents are canonical is
written back byte for byte, except that the flag bits without a name are clear.
The sizes of the sections and of the frame are recomputed on the way, so this
says that the parser accounts for every byte of the body.
-/

namespace MongodProxy
open LittleEndian

variable {β : Type} (bson : BsonCodec β)

namespace OpMsgGrammar

/- The inputs at which the parser of a kind-1 payload calls `Document::from_reader`. -/
def sequenceReads (payload : Bytes) : List Bytes :=
  match CStr.untilNul payload with
  | none => []
  | some ident => Items.reads (document bson) (payload.drop (ident.length + 1))

/- The same for the section at the front of the input. -/
def sectionReads : Bytes → List Bytes
  | [] => []
  | kind :: rest =>
    if kind = 0 then [rest]
    else if kind = 1 then
      sequenceReads bson ((rest.take (declaredSize rest).toInt.toNat).drop 4)
    else []

/-- Every input at which `parse_sections` calls `Document::from_reader`. -/
def documentReads (bs : Bytes) : List Bytes :=
  (Items.reads (sectionItem bson) bs).flatMap (sectionReads bson)

variable {bson}

theorem writeSection_sequenceItem {rest : Bytes} {s : OpMsgSection} {n : ℕ}
    (h : sequenceItem bson rest = .ok (s, n))
    (hcanon : ∀ r ∈ sequenceReads bson ((rest.take (declaredSize rest).toInt.toNat).drop 4),
      bson.Canonical r) : writeSection bson s = .ok (1 :: rest.take n) := by
  obtain ⟨h5, hn, hfit, hseq⟩ := sequenceItem_eq_ok h
  rw [← hn] at hcanon
  obtain ⟨ident, text, documents, hnul, htext, hdocs, rfl⟩ := sequence_eq_ok hseq
  obtain ⟨hfree, docs, hpayload⟩ := CStr.untilNul_eq_some _ _ hnul
  have hdrop : ((rest.take n).drop 4).drop (ident.length + 1) = docs := by
    rw [hpayload, ← List.drop_drop, List.drop_left, List.drop_succ_cons, List.drop_zero]
  have hwritten : writeDocuments bson documents = .ok docs := by
    rw [hdrop] at hdocs
    apply Items.manyWithin_rebuild (document bson) bson.toWriter docs.length docs documents hdocs
    intro r hr d k hd
    have hmem : r ∈ sequenceReads bson ((rest.take n).drop 4) := by
      simp only [sequenceReads, hnul, hdrop]
      exact hr
    exact hcanon r hmem d k ((Outcome.ofResult_eq_ok _ _ _).mp hd)
  have hlen4 : (rest.take 4).length = 4 := by
    rw [List.length_take]
    omega
  have htake : rest.take n = rest.take 4 ++ (ident ++ 0 :: docs) := by
    rw [← hpayload]
    have hsplit := List.take_append_drop 4 (rest.take n)
    rw [List.take_take, show min 4 n = 4 by omega] at hsplit
    exact hsplit.symm
  have htotal : 4 + (ident ++ [0]).length + docs.length = n := by
    have := congrArg List.length htake
    simp only [List.length_append, List.length_take, List.length_cons, List.length_nil] at this ⊢
    omega
  have hi32 : i32OfNat n = some (declaredSize rest) := by
    rw [hn]
    exact i32OfNat_toNat _ (by omega)
  simp only [writeSection, Text.utf8_of_ofUtf8 _ _ htext, CStr.withNul_of_not_mem _ hfree,
    Except.mapError, hwritten, bind, Except.bind, htotal, hi32, pure, Except.pure]
  rw [declaredSize, ofI32_toI32 _ hlen4, htake, List.append_assoc]
  rfl

/-- A section is written back to the bytes it was read from. -/
theorem writeSection_sectionItem {r : Bytes} {s : OpMsgSection} {n : ℕ}
    (h : sectionItem bson r = .ok (s, n))
    (hcanon : ∀ r' ∈ sectionReads bson r, bson.Canonical r') :
    writeSection bson s = .ok (r.take n) := by
  cases r with
  | nil => cases h
  | cons kind rest =>
    simp only [sectionItem] at h
    simp only [sectionReads] at hcanon
    by_cases h0 : kind = 0
    · simp only [if_pos h0, Outcome.bind_eq_ok] at h hcanon
      obtain ⟨⟨doc, k⟩, hdoc, hs⟩ := h
      cases hs
      have hw := hcanon rest (List.mem_singleton_self rest) doc k
        ((Outcome.ofResult_eq_ok _ _ _).mp hdoc)
      simp only [writeSection, hw, Except.mapError, bind, Except.bind, pure, Except.pure,
        List.take_succ_cons, h0]
    · by_cases h1 : kind = 1
      · simp only [if_neg h0, if_pos h1, Outcome.bind_eq_ok] at h hcanon
        obtain ⟨⟨s', k⟩, hseq, hs⟩ := h
        cases hs
        rw [writeSection_sequenceItem hseq hcanon, List.take_succ_cons, h1]
      · simp only [if_neg h0, if_neg h1] at h
        exact absurd h (Outcome.err_ne_ok _ _)

theorem writeSections_sections {bs : Bytes} {ss : List OpMsgSection}
    (h : sections bson bs = .ok ss) (hcanon : ∀ r ∈ documentReads bson bs, bson.Canonical r) :
    writeSections bson ss = .ok bs := by
  apply Items.manyWithin_rebuild (sectionItem bson) (writeSection bson) bs.length bs ss h
  intro r hr s n hs
  apply writeSection_sectionItem hs
  intro r' hr'
  exact hcanon r' (List.mem_flatMap.mpr ⟨r, hr, hr'⟩)

/- The section bytes of a body, given its flag word: a checksum is not part of them. -/
def sectionsPart (rawFlags : UInt32) (afterFlags : Bytes) : Bytes :=
  if (OperationMessageFlags.fromBitsTruncate rawFlags).contains .checksumPresent then
    afterFlags.take (afterFlags.length - 4)
  else afterFlags

theorem messageOf_eq_ok {rawFlags : UInt32} {afterFlags : Bytes} {m : OperationMessage}
    (h : messageOf bson rawFlags afterFlags = .ok m) :
    m.flags = .fromBitsTruncate rawFlags ∧
      sections bson (sectionsPart rawFlags afterFlags) = .ok m.sections ∧
      m.checksum.isSome = m.flags.contains .checksumPresent ∧
      sectionsPart rawFlags afterFlags ++ m.checksumBytes = afterFlags := by
  unfold messageOf at h
  unfold sectionsPart
  split_ifs at h with hu hc h4
  · exact absurd h (Outcome.err_ne_ok _ _)
  · exact absurd h (Outcome.err_ne_ok _ _)
  · simp only [Outcome.bind_eq_ok] at h
    obtain ⟨ss, hss, hm⟩ := h
    cases hm
    have hlen : (afterFlags.drop (afterFlags.length - 4)).length = 4 := by
      rw [List.length_drop]
      omega
    refine ⟨rfl, ?_, hc.symm, ?_⟩
    · rw [if_pos hc]
      exact hss
    · simp only [if_pos hc, OperationMessage.checksumBytes, ofU32_toU32 _ hlen,
        List.take_append_drop]
  · simp only [Outcome.bind_eq_ok] at h
    obtain ⟨ss, hss, hm⟩ := h
    cases hm
    refine ⟨rfl, ?_, ?_, ?_⟩
    · rw [if_neg hc]
      exact hss
    · simpa using hc
    · simp only [if_neg hc, OperationMessage.checksumBytes, List.append_nil]

theorem length_of_fromBytes {body : Bytes} {m : OperationMessage}
    (h : OperationMessage.fromBytes bson body = .ok m) : OperationMessage.minLen ≤ body.length := by
  by_contra hlt
  rw [fromBytes_of_lt bson body (Nat.not_le.mp hlt)] at h
  exact Outcome.err_ne_ok _ _ h

/-- The body of an accepted OP_MSG, written again. -/
theorem writeSections_fromBytes {body : Bytes} {m : OperationMessage}
    (h : OperationMessage.fromBytes bson body = .ok m)
    (hcanon : ∀ r ∈ documentReads bson (sectionsPart (toU32 (body.take 4)) (body.drop 4)),
      bson.Canonical r) :
    ∃ ss, writeSections bson m.sections = .ok ss ∧ ss ++ m.checksumBytes = body.drop 4 ∧
      m.flags.set .checksumPresent m.checksum.isSome
        = .fromBitsTruncate (toU32 (body.take 4)) := by
  rw [fromBytes_of_le bson body (length_of_fromBytes h)] at h
  obtain ⟨hflags, hss, hsum, hrest⟩ := messageOf_eq_ok h
  refine ⟨_, writeSections_sections hss hcanon, hrest, ?_⟩
  rw [hsum, ← hflags]
  exact congrArg OperationMessageFlags.mk (Bitflags.set_one_contains m.flags.bits)

end OpMsgGrammar

/-! ### Whole frames -/

/-- A decoder that answers a message for exactly these bytes has read its header from them. -/
theorem WireDecoder.decode_default_eq_ok {frame : Bytes} {m : Message}
    (h : decode bson default frame = (.ok (some m), default, [])) :
    ∃ header, MessageHeader.fromBytes frame = .ok header ∧
      frame.length = header.messageLength.asUsize ∧
      Message.fromHeadersAndBytes bson header frame = .ok m := by
  have himp := decode_implements bson
  have hfit := himp.fresh_inv frame
  cases hc : wireCut bson frame with
  | wait =>
    obtain ⟨d', hd, -⟩ := himp.wait default frame hfit hc
    rw [h] at hd
    cases hd
  | reject e =>
    obtain ⟨d', hd⟩ := himp.reject default frame e hfit hc
    rw [h] at hd
    cases hd
  | frame n r =>
    have hd := himp.frame default frame n r hfit hc
    rw [h] at hd
    obtain ⟨header, hh, rfl, hle, rfl⟩ := wireCut_frame bson hc
    have hdrop : frame.drop header.messageLength.asUsize = [] := congrArg (·.2.2) hd.symm
    have hlen : frame.length = header.messageLength.asUsize := by
      have := List.drop_eq_nil_iff.mp hdrop
      omega
    refine ⟨header, hh, hlen, ?_⟩
    have hok := congrArg Prod.fst hd
    rw [List.take_of_length_le (Nat.le_of_eq hlen)] at hok
    cases hm : Message.fromHeadersAndBytes bson header frame with
    | error e =>
      rw [hm] at hok
      cases hok
    | ok m' =>
      rw [hm] at hok
      cases hok
      rfl

/- What is known of a frame that was accepted. -/
theorem WireDecoder.decode_default_operation {frame : Bytes} {m : Message}
    (hdec : WireDecoder.decode bson .default frame = (.ok (some m), .default, [])) :
    ∃ header, MessageHeader.fromBytes frame = .ok header ∧
      frame.length = header.messageLength.asUsize ∧
      Operation.fromBytes bson header.opCode (frame.drop 16) = .ok m.operation ∧
      m = ⟨header.requestId, header.responseTo, m.operation⟩ := by
  obtain ⟨header, hh, hlen, hm⟩ := WireDecoder.decode_default_eq_ok bson hdec
  rw [Message.fromHeadersAndBytes_of_le bson header frame (Nat.le_of_eq hlen.symm)] at hm
  simp only [Outcome.bind_eq_ok, Outcome.mapErr_eq_ok] at hm
  obtain ⟨op, hop, hm⟩ := hm
  cases hm
  exact ⟨header, hh, hlen, hop, rfl⟩

/- The flag word of an OP_MSG frame. -/
def flagBits (frame : Bytes) : UInt32 := toU32 ((frame.drop 16).take 4)

/- The section bytes of an OP_MSG frame. -/
def sectionsBytes (frame : Bytes) : Bytes :=
  OpMsgGrammar.sectionsPart (flagBits frame) (frame.drop 20)

/- The frame with another flag word. -/
def withFlagBits (frame : Bytes) (bits : UInt32) : Bytes :=
  frame.take 16 ++ (ofU32 bits ++ frame.drop 20)

/- What is known of a frame that was accepted as OP_MSG. -/
theorem WireDecoder.decode_default_message {frame : Bytes} {m : Message} {om : OperationMessage}
    (hdec : WireDecoder.decode bson .default frame = (.ok (some m), .default, []))
    (hmsg : m.operation = .message om) :
    ∃ header, MessageHeader.fromBytes frame = .ok header ∧
      frame.length = header.messageLength.asUsize ∧ header.opCode = .msg ∧
      OperationMessage.fromBytes bson (frame.drop 16) = .ok om ∧
      m = ⟨header.requestId, header.responseTo, .message om⟩ := by
  obtain ⟨header, hh, hlen, hop, hm⟩ := WireDecoder.decode_default_operation bson hdec
  rw [hmsg] at hop hm
  obtain ⟨hcode, hparsed⟩ := Operation.fromBytes_eq_message bson hop
  exact ⟨header, hh, hlen, hcode, hparsed, hm⟩

/- What an accepted OP_MSG frame with canonical documents is written back to. -/
theorem Message.frame_forward (frame : Bytes) (m : Message) (om : OperationMessage)
    (hdec : WireDecoder.decode bson .default frame = (.ok (some m), .default, []))
    (hmsg : m.operation = .message om)
    (hcanon : ∀ r ∈ OpMsgGrammar.documentReads bson (sectionsBytes frame), bson.Canonical r) :
    m.frame bson = .ok (withFlagBits frame (flagBits frame &&& 0x00010003)) := by
  obtain ⟨header, hh, hlen, hcode, hparsed, rfl⟩ :=
    WireDecoder.decode_default_message bson hdec hmsg
  have hdrop4 : (frame.drop 16).drop 4 = frame.drop 20 := List.drop_drop ..
  obtain ⟨ss, hss, hrest, hflags⟩ := OpMsgGrammar.writeSections_fromBytes hparsed (by
    rw [hdrop4]
    exact hcanon)
  rw [hdrop4] at hrest
  have hmin := OpMsgGrammar.length_of_fromBytes hparsed
  rw [List.length_drop, OperationMessage.minLen] at hmin
  have htotal : MessageHeader.size + (ofU32 (OperationMessageFlags.fromBitsTruncate
      (toU32 ((frame.drop 16).take 4))).bits ++ frame.drop 20).length
      = header.messageLength.asUsize := by
    simp only [List.length_append, ofU32_length, List.length_drop, MessageHeader.size]
    omega
  have hheader : (MessageHeader.mk header.messageLength header.requestId header.responseTo
      .msg).writeBytes = frame.take 16 := by
    rw [← hcode]
    exact MessageHeader.writeBytes_of_fromBytes frame header hh
  simp only [Message.frame, Operation.frame, OperationMessage.frame, hss, hrest, hflags, htotal,
    messageLengthOf_asUsize, bind, Except.bind, pure, Except.pure, Except.mapError, hheader]
  rfl

/-- Forwarding an accepted OP_MSG frame clears the unnamed flag bits and nothing else. -/
theorem Message.writeBytes_forward (frame : Bytes) (m : Message) (om : OperationMessage)
    (hdec : WireDecoder.decode bson .default frame = (.ok (some m), .default, []))
    (hmsg : m.operation = .message om)
    (hcanon : ∀ r ∈ OpMsgGrammar.documentReads bson (sectionsBytes frame), bson.Canonical r)
    (dst : Bytes) :
    (m.writeBytes bson).exec dst
      = (.ok (), dst ++ withFlagBits frame (flagBits frame &&& 0x00010003)) := by
  rw [Message.writeBytes_appends bson _ dst, Message.frame_forward bson frame m om hdec hmsg hcanon]

/- Two sections and a checksum, with a flag word of all three named bits and an unnamed one. -/
def forwardedFrame : Bytes :=
  [0x32, 0, 0, 0, 7, 0, 0, 0, 3, 0, 0, 0, 0xDD, 7, 0, 0, 3, 0, 5, 0,
    1, 19, 0, 0, 0, 0x64, 0x6F, 0x63, 0x73, 0, 5, 0, 0, 0, 0, 5, 0, 0, 0, 0,
    0, 5, 0, 0, 0, 0,
    0xEF, 0xBE, 0xAD, 0xDE]

def forwardedOperation : OperationMessage where
  flags := ⟨0x00010003⟩
  sections := [.documentSequence "docs" [.new, .new], .body .new]
  checksum := some 0xDEADBEEF

theorem forwardedFrame_written :
    (Message.writeBytes BsonCodec.emptyOnly
        ⟨⟨7⟩, some ⟨3, by decide⟩, .message forwardedOperation⟩).exec []
      = (.ok (), withFlagBits forwardedFrame 0x00010003) := by
  have hdec : WireDecoder.decode BsonCodec.emptyOnly .default forwardedFrame
      = (.ok (some ⟨⟨7⟩, some ⟨3, by decide⟩, .message forwardedOperation⟩), .default, []) := rfl
  exact Message.writeBytes_forward BsonCodec.emptyOnly forwardedFrame _ forwardedOperation hdec rfl
    (fun r _ => BsonCodec.emptyOnly_canonical r) []

end MongodProxy
