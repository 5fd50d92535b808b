import MongodProxy.Encoding
import MongodProxy.Transparency
import MongodProxy.TrailingBytes.Legacy

/-!
# Every accepted frame can be forwarded

What the three parsers answer can be written: names end at the NUL they were cut at,
sizes and counts come from fields of the same width, and nothing takes more room than
the bytes it was read from. The frame that is written decodes to the same message.
-/

namespace MongodProxy
open LittleEndian

variable {β : Type} {bson : BsonCodec β}

/-- A document that was read can be written, in at most the bytes it was read from. -/
def BsonCodec.Reserialises (bson : BsonCodec β) : Prop :=
  ∀ bs d n, bson.fromReader bs = .ok (d, n) → ∃ w, bson.toWriter d = .ok w ∧ w.length ≤ n

theorem BsonCodec.Reserialises.writtenLength_le (hr : bson.Reserialises) {bs : Bytes}
    {d : Document} {n : ℕ} (h : bson.fromReader bs = .ok (d, n)) :
    (∃ w, bson.toWriter d = .ok w) ∧ writtenLength bson.toWriter d ≤ n := by
  obtain ⟨w, hw, hle⟩ := hr bs d n h
  rw [writtenLength_eq hw]
  exact ⟨⟨w, hw⟩, hle⟩

/-! ### OP_MSG -/

namespace OpMsgGrammar

theorem writable_sequenceItem (hb : bson.Delimited) (hr : bson.Reserialises) {rest : Bytes}
    {s : OpMsgSection} {n : ℕ} (h : sequenceItem bson rest = .ok (s, n)) :
    (∃ w, writeSection bson s = .ok w) ∧ s.writtenSize bson ≤ n + 1 := by
  obtain ⟨h5, hn, hfit, hseq⟩ := sequenceItem_eq_ok h
  obtain ⟨ident, identifier, documents, hnul, htext, hdocs, rfl⟩ := sequence_eq_ok hseq
  obtain ⟨hfree, -⟩ := CStr.untilNul_eq_some _ _ hnul
  have hident := CStr.length_lt_of_untilNul _ _ hnul
  have hutf := Text.utf8_of_ofUtf8 _ _ htext
  obtain ⟨hwritable, hsum⟩ := Items.manyWithin_sizes (document bson) (document_delimited hb)
    (fun d => ∃ w, bson.toWriter d = .ok w) (writtenLength bson.toWriter)
    (fun r d k hd => hr.writtenLength_le ((Outcome.ofResult_eq_ok _ _ _).mp hd)) _ _ _ hdocs
  simp only [List.length_drop, List.length_take] at hident hsum
  have hsize : 4 + ((Text.utf8 identifier).length + 1)
      + (documents.map (writtenLength bson.toWriter)).sum ≤ n := by
    rw [hutf]
    omega
  have hmax : (declaredSize rest).toInt ≤ 2147483647 := Int32.toInt_le _
  refine ⟨(writeSection_isOk _).mpr ⟨hwritable, ?_, ?_⟩, ?_⟩
  · intro name hname
    cases hname
    rw [hutf]
    exact hfree
  · intro size hsome
    cases hsome
    omega
  · simp only [OpMsgSection.writtenSize]
    omega

theorem writable_sectionItem (hb : bson.Delimited) (hr : bson.Reserialises) {r : Bytes}
    {s : OpMsgSection} {n : ℕ} (h : sectionItem bson r = .ok (s, n)) :
    (∃ w, writeSection bson s = .ok w) ∧ s.writtenSize bson ≤ n := by
  cases r with
  | nil => cases h
  | cons kind rest =>
    simp only [sectionItem] at h
    split_ifs at h with h0 h1
    · obtain ⟨⟨doc, k⟩, hdoc, hs⟩ := (Outcome.bind_eq_ok _ _ _).mp h
      cases hs
      obtain ⟨⟨w, hw⟩, hle⟩ := hr.writtenLength_le ((Outcome.ofResult_eq_ok _ _ _).mp hdoc)
      refine ⟨(writeSection_isOk _).mpr ⟨?_, fun _ h => absurd h (Option.not_mem_none _),
        fun _ h => absurd h (Option.not_mem_none _)⟩, ?_⟩
      · exact List.forall_mem_singleton.mpr ⟨w, hw⟩
      · simp only [OpMsgSection.writtenSize]
        omega
    · obtain ⟨⟨s', k⟩, hseq, hs⟩ := (Outcome.bind_eq_ok _ _ _).mp h
      cases hs
      exact writable_sequenceItem hb hr hseq
    · cases h

theorem writable_sections (hb : bson.Delimited) (hr : bson.Reserialises) {bs : Bytes}
    {ss : List OpMsgSection} (h : sections bson bs = .ok ss) :
    (∃ w, writeSections bson ss = .ok w) ∧ (ss.map (OpMsgSection.writtenSize bson)).sum ≤ bs.length := by
  obtain ⟨hall, hsum⟩ := Items.manyWithin_sizes (sectionItem bson) (sectionItem_delimited hb)
    (fun s => ∃ w, writeSection bson s = .ok w) (OpMsgSection.writtenSize bson)
    (fun _ _ _ hs => writable_sectionItem hb hr hs) _ _ _ h
  exact ⟨(Items.writeAll_isOk _ _).mpr hall, hsum⟩

end OpMsgGrammar

/-! ### What a parser answers -/

/-- The operation is the one that would be read back. -/
structure Operation.ReadsAsItself (op : Operation) : Prop where
  flags : op.FlagsNamed
  content : op.HasContent
  derived : op.withDerivedFlags = op

theorem OperationMessage.readsAsItself_of_fromBytes {body : Bytes} {m : OperationMessage}
    (h : OperationMessage.fromBytes bson body = .ok m) : (Operation.message m).ReadsAsItself := by
  have hmin := OpMsgGrammar.length_of_fromBytes h
  rw [OpMsgGrammar.fromBytes_of_le bson body hmin] at h
  obtain ⟨hflags, hss, hsum, hrest⟩ := OpMsgGrammar.messageOf_eq_ok h
  have hlen := congrArg List.length hrest
  rw [List.length_append, checksumBytes_length, List.length_drop] at hlen
  simp only [minLen] at hmin
  refine ⟨?_, ?_, ?_⟩
  · show OperationMessageFlags.Named m.flags
    rw [hflags]
    exact Bitflags.named_truncate _ _
  · show m.sections ≠ [] ∨ m.checksum.isSome
    by_cases hc : m.checksum.isSome = true
    · exact Or.inr hc
    · -- without a checksum the byte after the flags starts a section
      left
      intro hnil
      rw [if_neg hc] at hlen
      have hne : OpMsgGrammar.sectionsPart (toU32 (body.take 4)) (body.drop 4) ≠ [] := by
        intro hempty
        rw [hempty, List.length_nil] at hlen
        omega
      obtain ⟨x, n, ys, -, -, hxs⟩ := Items.many_eq_ok_of_ne_nil _
        (OpMsgGrammar.sectionItem_progress bson) _ _ hne hss
      rw [hnil] at hxs
      cases hxs
  · have hset : m.flags.set .checksumPresent m.checksum.isSome = m.flags := by
      rw [hsum]
      exact congrArg OperationMessageFlags.mk (Bitflags.set_one_contains m.flags.bits)
    simp only [Operation.withDerivedFlags, hset]

theorem Operation.readsAsItself_of_fromBytes {body : Bytes} {code : OPCode} {op : Operation}
    (h : Operation.fromBytes bson code body = .ok op) : op.ReadsAsItself := by
  cases code with
  | msg =>
    simp only [fromBytes, Outcome.bind_eq_ok, Outcome.mapErr_eq_ok] at h
    obtain ⟨m, hm, hop⟩ := h
    cases hop
    exact m.readsAsItself_of_fromBytes hm
  | query =>
    simp only [fromBytes, Outcome.bind_eq_ok, Outcome.mapErr_eq_ok] at h
    obtain ⟨m, hm, hop⟩ := h
    cases hop
    obtain ⟨-, -, -, hnamed, -⟩ := OperationQuery.fromBytes_eq_ok bson hm
    exact ⟨hnamed, trivial, rfl⟩
  | reply =>
    simp only [fromBytes, Outcome.bind_eq_ok, Outcome.mapErr_eq_ok] at h
    obtain ⟨m, hm, hop⟩ := h
    cases hop
    obtain ⟨-, hnamed, -⟩ := OperationReply.fromBytes_eq_ok bson hm
    exact ⟨hnamed, trivial, rfl⟩

/-- The operation can be written in no more room than the `n` bytes of body it came from, and it is
the operation that would be read back. -/
structure Operation.Forwardable (bson : BsonCodec β) (n : ℕ) (op : Operation) : Prop where
  writable : op.Writable bson
  length_le : op.frameLength bson ≤ MessageHeader.size + n
  flags : op.FlagsNamed
  content : op.HasContent
  derived : op.withDerivedFlags = op

section
variable {body : Bytes} (hb : bson.Delimited) (hr : bson.Reserialises)
  (hsize : MessageHeader.size + body.length ≤ 48 * 1024 * 1024)
include hb hr hsize

theorem OperationMessage.forwardable_of_fromBytes {m : OperationMessage}
    (h : OperationMessage.fromBytes bson body = .ok m) :
    (Operation.message m).Forwardable bson body.length := by
  obtain ⟨hflags, hcontent, hderived⟩ := m.readsAsItself_of_fromBytes h
  have hmin := OpMsgGrammar.length_of_fromBytes h
  rw [OpMsgGrammar.fromBytes_of_le bson body hmin] at h
  obtain ⟨-, hss, -, hrest⟩ := OpMsgGrammar.messageOf_eq_ok h
  obtain ⟨hwritten, hsections⟩ := OpMsgGrammar.writable_sections hb hr hss
  obtain ⟨hdocs, hnames, hsizes⟩ := (writeSections_isOk m.sections).mp hwritten
  have hlen := congrArg List.length hrest
  rw [List.length_append, checksumBytes_length, List.length_drop] at hlen
  simp only [minLen] at hmin
  have htotal : (Operation.message m).frameLength bson ≤ MessageHeader.size + body.length := by
    simp only [Operation.frameLength]
    omega
  exact ⟨⟨hdocs, hnames, hsizes, Nat.zero_le _, by omega⟩, htotal, hflags, hcontent, hderived⟩

theorem OperationQuery.forwardable_of_fromBytes (heq : ∀ d, bson.serializeToVec d = bson.toWriter d)
    {m : OperationQuery} (h : OperationQuery.fromBytes bson body = .ok m) :
    (Operation.query m).Forwardable bson body.length := by
  obtain ⟨reader, hbody, hfree, hnamed, hdocs⟩ := fromBytes_eq_ok bson h
  have hser : bson.serializeToVec = bson.toWriter := funext heq
  obtain ⟨hwritable, hsum⟩ :
      (∀ d ∈ m.query :: m.returnFieldsSelector.toList, ∃ w, bson.toWriter d = .ok w) ∧
        ((m.query :: m.returnFieldsSelector.toList).map (writtenLength bson.toWriter)).sum
          ≤ reader.length := by
    simp only [documentsOf, Outcome.bind_eq_ok, Outcome.ofResult_eq_ok] at hdocs
    obtain ⟨⟨query, n⟩, hquery, hrest⟩ := hdocs
    obtain ⟨hw, hle⟩ := hr.writtenLength_le hquery
    have hn := hb.consumed_le _ _ _ hquery
    simp only at hrest
    split_ifs at hrest
    · obtain ⟨hq, hs⟩ := Prod.mk.inj (Except.ok.inj hrest)
      rw [← hq, ← hs]
      refine ⟨by simpa using hw, ?_⟩
      simp only [Option.toList_none, List.map_cons, List.map_nil, List.sum_cons, List.sum_nil]
      omega
    · simp only [Outcome.bind_eq_ok, Outcome.ofResult_eq_ok] at hrest
      obtain ⟨⟨selector, k⟩, hselector, hrest⟩ := hrest
      obtain ⟨hw', hle'⟩ := hr.writtenLength_le hselector
      have hk := hb.consumed_le _ _ _ hselector
      rw [List.length_drop] at hk
      obtain ⟨hq, hs⟩ := Prod.mk.inj (Except.ok.inj hrest)
      rw [← hq, ← hs]
      refine ⟨by simpa using ⟨hw, hw'⟩, ?_⟩
      simp only [Option.toList_some, List.map_cons, List.map_nil, List.sum_cons, List.sum_nil]
      omega
  have hlen := congrArg List.length hbody
  simp only [bodyBytes, List.length_append, ofU32_length, ofI32_length, List.length_singleton,
    List.length_nil] at hlen
  have htotal : (Operation.query m).frameLength bson ≤ MessageHeader.size + body.length := by
    simp only [Operation.frameLength, hser]
    omega
  refine ⟨⟨?_, ?_, List.forall_mem_nil _, Nat.zero_le _, by omega⟩, htotal, hnamed, trivial, rfl⟩
  · simp only [Operation.documents, Operation.serialise, hser]
    exact hwritable
  · exact List.forall_mem_singleton.mpr hfree

theorem OperationReply.forwardable_of_fromBytes {m : OperationReply}
    (h : OperationReply.fromBytes bson body = .ok m) :
    (Operation.reply m).Forwardable bson body.length := by
  obtain ⟨hbody, hnamed, hdocs⟩ := fromBytes_eq_ok bson h
  obtain ⟨hcount, hwritable, hsum⟩ := Items.times_sizes (document bson) (document_delimited hb)
    (fun d => ∃ w, bson.toWriter d = .ok w) (writtenLength bson.toWriter)
    (fun i r d k hd => hr.writtenLength_le ((Outcome.ofResult_eq_ok _ _ _).mp hd)) _ _ _ _ hdocs
  have hlen := congrArg List.length hbody
  simp only [bodyBytes, List.length_append, ofU32_length, ofI32_length, ofI64_length] at hlen
  have htotal : (Operation.reply m).frameLength bson ≤ MessageHeader.size + body.length := by
    show MessageHeader.size + (20 + _) ≤ _
    omega
  have hmax : (toI32 ((body.drop 16).take 4)).toInt ≤ 2147483647 := Int32.toInt_le _
  refine ⟨⟨hwritable, List.forall_mem_nil _, List.forall_mem_nil _, ?_, by omega⟩, htotal, hnamed,
    trivial, rfl⟩
  simp only [Operation.replyCount, hcount, numDocs]
  omega

theorem Operation.forwardable_of_fromBytes (heq : ∀ d, bson.serializeToVec d = bson.toWriter d)
    {code : OPCode} {op : Operation} (h : Operation.fromBytes bson code body = .ok op) :
    op.Forwardable bson body.length ∧ op.opCode = code := by
  cases code with
  | msg =>
    simp only [fromBytes, Outcome.bind_eq_ok, Outcome.mapErr_eq_ok] at h
    obtain ⟨m, hm, hop⟩ := h
    cases hop
    exact ⟨m.forwardable_of_fromBytes hb hr hsize hm, rfl⟩
  | query =>
    simp only [fromBytes, Outcome.bind_eq_ok, Outcome.mapErr_eq_ok] at h
    obtain ⟨m, hm, hop⟩ := h
    cases hop
    exact ⟨m.forwardable_of_fromBytes hb hr hsize heq hm, rfl⟩
  | reply =>
    simp only [fromBytes, Outcome.bind_eq_ok, Outcome.mapErr_eq_ok] at h
    obtain ⟨m, hm, hop⟩ := h
    cases hop
    exact ⟨m.forwardable_of_fromBytes hb hr hsize hm, rfl⟩

end

/-! ### Frames -/

theorem WireDecoder.decode_of_fromBytes {frame : Bytes} {m : Message}
    (hm : Message.fromBytes bson frame = .ok m)
    (hlen : (toI32 (frame.take 4)).toInt = frame.length) :
    decode bson .default frame = (.ok (some m), .default, []) := by
  simp only [Message.fromBytes, Outcome.bind_eq_ok, Outcome.mapErr_eq_ok] at hm
  obtain ⟨header, hh, hparsed⟩ := hm
  have hfit : Fits default frame := (decode_implements bson).fresh_inv frame
  have hfield : header.messageLength.val = toI32 (frame.take 4) := by
    have hsplit := List.take_append_drop MessageHeader.size frame
    rw [← MessageHeader.writeBytes_of_fromBytes frame header hh] at hsplit
    rw [← hsplit, MessageHeader.lengthField_writeBytes, toI32_ofI32]
  have htotal : header.messageLength.asUsize = frame.length := by
    simp only [MessageLength.asUsize, hfield, hlen, Int.toNat_natCast]
  rw [decode_ok bson hfit hh, if_neg (Nat.not_lt.mpr (Nat.le_of_eq htotal)), htotal,
    List.take_length, List.drop_length, hparsed]
  rfl

/-- What was decoded can be written, in no more bytes, and decodes to itself. -/
theorem WireDecoder.forward_stable (hb : bson.ReadsBack) (hd : bson.Delimited)
    (hr : bson.Reserialises) (frame : Bytes) (m : Message)
    (hdec : WireDecoder.decode bson .default frame = (.ok (some m), .default, [])) (dst : Bytes) :
    ∃ frame', (m.writeBytes bson).exec dst = (.ok (), dst ++ frame') ∧
      frame'.length ≤ frame.length ∧
      WireDecoder.decode bson .default frame' = (.ok (some m), .default, []) := by
  obtain ⟨header, hh, hlen, hop, -⟩ := decode_default_operation bson hdec
  have hvalid := header.messageLength.valid
  simp only [inEnvelope] at hvalid
  simp only [MessageLength.asUsize] at hlen
  have hbody : MessageHeader.size + (frame.drop 16).length = frame.length := by
    rw [List.length_drop, MessageHeader.size]
    omega
  obtain ⟨hforward, -⟩ := Operation.forwardable_of_fromBytes hd hr (by rw [hbody]; omega)
    hb.serializeToVec_eq hop
  obtain ⟨frame', hframe⟩ := m.frame_isOk.mpr hforward.writable
  have hwrite : ∀ dst, (m.writeBytes bson).exec dst = (.ok (), dst ++ frame') := by
    intro dst
    rw [m.writeBytes_appends bson dst, hframe]
  obtain ⟨hfield, htotal, -⟩ := Message.frame_selfDelimiting hframe
  have hback := Message.fromBytes_of_writeBytes hb m hforward.flags hforward.content frame'
    (hwrite [])
  rw [hforward.derived] at hback
  refine ⟨frame', hwrite dst, ?_, decode_of_fromBytes hback hfield⟩
  have hle := hforward.length_le
  omega

theorem emptyOnly_reserialises : BsonCodec.emptyOnly.Reserialises := by
  intro bs d n h
  obtain ⟨rest, rfl, rfl, rfl⟩ := BsonCodec.emptyOnly_eq_ok bs d n h
  exact ⟨[5, 0, 0, 0, 0], rfl, Nat.le_refl 5⟩

/- A reply that counts one document and carries two: the second is not forwarded. -/
def countedReply : Bytes :=
  [0x2E, 0, 0, 0, 7, 0, 0, 0, 3, 0, 0, 0, 1, 0, 0, 0,
    0, 0, 0, 0, 0, 0, 0, 0, 0, 0, 0, 0, 0, 0, 0, 0, 1, 0, 0, 0,
    5, 0, 0, 0, 0, 5, 0, 0, 0, 0]

theorem countedReply_forward :
    ∃ frame', (Message.writeBytes BsonCodec.emptyOnly
        ⟨⟨7⟩, some ⟨3, by decide⟩, .reply ⟨⟨0⟩, 0, 0, [.new]⟩⟩).exec [] = (.ok (), [] ++ frame') ∧
      frame'.length ≤ countedReply.length ∧
      WireDecoder.decode BsonCodec.emptyOnly .default frame'
        = (.ok (some ⟨⟨7⟩, some ⟨3, by decide⟩, .reply ⟨⟨0⟩, 0, 0, [.new]⟩⟩), .default, []) :=
  WireDecoder.forward_stable BsonCodec.emptyOnly_readsBack BsonCodec.emptyOnly_delimited
    emptyOnly_reserialises countedReply _ rfl []

end MongodProxy
