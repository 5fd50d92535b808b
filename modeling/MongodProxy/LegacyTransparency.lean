import MongodProxy.Encoding
import MongodProxy.Sections
import MongodProxy.TrailingBytes.Legacy

/-!
# Forwarding OP_QUERY and OP_REPLY frames

The legacy parsers stop after a fixed or a counted number of documents. Bytes behind
them and a negative count are not part of what they answer, so they are not part of
what is forwarded either. Here it is said for which frames nothing is lost.
-/

namespace MongodProxy
open LittleEndian

variable {β : Type} {bson : BsonCodec β}

/-! ### Documents by their length prefixes -/

/- What is left of the input after `k` documents. -/
def afterDocuments : ℕ → Bytes → Bytes
  | 0, bs => bs
  | k + 1, bs => afterDocuments k (bs.drop (toI32 (bs.take 4)).toInt.toNat)

/- Where the first `k` documents start. -/
def documentStarts : ℕ → Bytes → List Bytes
  | 0, _ => []
  | k + 1, bs => bs :: documentStarts k (bs.drop (toI32 (bs.take 4)).toInt.toNat)

theorem OperationReply.writeDocuments_times (hp : bson.LengthPrefixed)
    (k i : ℕ) (bs : Bytes) (ds : List Document)
    (h : Items.times (document bson) i k bs = .ok ds)
    (hcanon : ∀ r ∈ documentStarts k bs, bson.Canonical r) :
    ds.length = k ∧ ∃ w, writeDocuments bson ds = .ok w ∧ w ++ afterDocuments k bs = bs := by
  induction k generalizing i bs ds with
  | zero =>
    cases h
    exact ⟨rfl, [], rfl, rfl⟩
  | succ k ih =>
    simp only [Items.times, Outcome.bind_eq_ok] at h
    obtain ⟨⟨d, n⟩, hread, ds', hds', hds⟩ := h
    cases hds
    have hread := (Outcome.ofResult_eq_ok _ _ _).mp hread
    have hn := hp bs d n hread
    simp only [documentStarts, List.forall_mem_cons, ← hn] at hcanon
    obtain ⟨hlen, w, hw, hrest⟩ := ih (i + 1) (bs.drop n) ds' hds' hcanon.2
    have hd := hcanon.1 d n hread
    refine ⟨by rw [List.length_cons, hlen], bs.take n ++ w, ?_, ?_⟩
    · simp only [writeDocuments] at hw
      simp only [writeDocuments, Items.writeAll, hd, hw, bind, Except.bind, pure, Except.pure]
    · rw [afterDocuments, ← hn, List.append_assoc, hrest, List.take_append_drop]

theorem OperationQuery.serialize_documentsOf (hp : bson.LengthPrefixed)
    (heq : ∀ d, bson.serializeToVec d = bson.toWriter d) {reader : Bytes} {m : OperationQuery}
    (h : documentsOf bson reader = .ok (m.query, m.returnFieldsSelector))
    (hcanon : ∀ r ∈ documentStarts 2 reader, bson.Canonical r) :
    ∃ q r, bson.serializeToVec m.query = .ok q ∧ selectorBytes bson m = .ok r ∧
      (q ++ r) ++ afterDocuments 2 reader = reader := by
  simp only [documentsOf, Outcome.bind_eq_ok, Outcome.ofResult_eq_ok] at h
  obtain ⟨⟨query, n⟩, hquery, hrest⟩ := h
  have hn := hp reader query n hquery
  simp only [documentStarts, List.forall_mem_cons, ← hn] at hcanon
  have hq := hcanon.1 query n hquery
  simp only [afterDocuments, ← hn]
  simp only at hrest
  split_ifs at hrest with hend
  · obtain ⟨hmq, hms⟩ := Prod.mk.inj (Except.ok.inj hrest)
    refine ⟨reader.take n, [], ?_, ?_, ?_⟩
    · rw [heq, ← hmq, hq]
    · rw [selectorBytes, ← hms]
    · rw [List.append_nil, hend, List.drop_nil, List.append_nil]
      have hsplit := List.take_append_drop n reader
      rwa [hend, List.append_nil] at hsplit
  · simp only [Outcome.bind_eq_ok, Outcome.ofResult_eq_ok] at hrest
    obtain ⟨⟨selector, k⟩, hselector, hrest⟩ := hrest
    obtain ⟨hmq, hms⟩ := Prod.mk.inj (Except.ok.inj hrest)
    have hk := hp _ selector k hselector
    have hs := hcanon.2.1 selector k hselector
    refine ⟨reader.take n, (reader.drop n).take k, ?_, ?_, ?_⟩
    · rw [heq, ← hmq, hq]
    · rw [selectorBytes, ← hms]
      simp only [heq, hs, Except.mapError]
    · rw [← hk, List.append_assoc, List.take_append_drop, List.take_append_drop]

/-! ### Bodies -/

theorem MessageHeader.frame_eq_iff {frame : Bytes} {header : MessageHeader}
    (hh : MessageHeader.fromBytes frame = .ok header)
    (hlen : frame.length = header.messageLength.asUsize) {len : MessageLength} {body : Bytes}
    (hl : len.asUsize = size + body.length) :
    (MessageHeader.mk len header.requestId header.responseTo header.opCode).writeBytes ++ body
      = frame ↔ body = frame.drop size := by
  have hsize := size_le_of_fromBytes frame header hh
  refine ⟨?_, ?_⟩
  · intro heq
    rw [← heq, List.drop_left' (writeBytes_length _)]
  · intro heq
    have hval : len = header.messageLength := by
      apply MessageLength.asUsize_inj
      rw [heq, List.length_drop] at hl
      omega
    rw [hval, heq]
    show header.writeBytes ++ _ = _
    rw [writeBytes_of_fromBytes frame header hh, List.take_append_drop]

/- The length of a body that is no longer than an accepted one can be announced. -/
theorem messageLengthOf_of_le {ε : Type} (tooLarge : ℕ → ε) {header : MessageHeader} {frame : Bytes}
    (hlen : frame.length = header.messageLength.asUsize) {n : ℕ}
    (hn : MessageHeader.size + n ≤ frame.length) :
    ∃ len, messageLengthOf tooLarge (MessageHeader.size + n) = .ok len := by
  have hvalid := header.messageLength.valid.2
  simp only [MessageLength.asUsize] at hlen
  refine (messageLengthOf_isOk tooLarge _).mpr ⟨Nat.le_add_right _ _, ?_⟩
  omega

/- A front part is the whole when nothing is behind it. -/
theorem eq_whole_iff {front rest whole : Bytes} (h : front ++ rest = whole) :
    front = whole ↔ rest = [] := by
  rw [← h]
  exact List.self_eq_append_right

/- Where the documents of an OP_QUERY frame start: after the name, its NUL and two counters. -/
def queryDocuments (frame : Bytes) : Bytes :=
  (frame.drop 20).drop (((CStr.untilNul (frame.drop 20)).getD []).length + 9)

/- The count in an OP_REPLY frame. -/
def numberReturnedField (frame : Bytes) : Int32 := toI32 ((frame.drop 32).take 4)

section
variable {frame : Bytes} {header : MessageHeader} (hp : bson.LengthPrefixed)
  (heq : ∀ d, bson.serializeToVec d = bson.toWriter d)
  (hh : MessageHeader.fromBytes frame = .ok header)
  (hlen : frame.length = header.messageLength.asUsize)
include hp hh hlen

include heq in
theorem OperationQuery.frame_iff (hcode : header.opCode = .query) {m : OperationQuery}
    (h : OperationQuery.fromBytes bson (frame.drop 16) = .ok m)
    (hcanon : ∀ r ∈ documentStarts 2 (queryDocuments frame), bson.Canonical r) :
    m.frame bson header.requestId header.responseTo = .ok frame ↔
      afterDocuments 2 (queryDocuments frame) = [] := by
  obtain ⟨reader, hbody, hfree, -, hdocs⟩ := fromBytes_eq_ok bson h
  have hstart : queryDocuments frame = reader := by
    have h20 : frame.drop 20 = (frame.drop 16).drop 4 := by rw [List.drop_drop]
    have hrest : frame.drop 20 = Text.utf8 m.fullCollectionName ++ 0 ::
        (ofI32 m.numberToSkip ++ (ofI32 m.numberToReturn ++ reader)) := by
      rw [h20, hbody, bodyBytes, List.drop_left' (ofU32_length _)]
      simp only [List.append_assoc, List.append_nil, List.singleton_append]
    rw [queryDocuments, hrest, CStr.untilNul_append _ _ hfree, Option.getD_some,
      show (Text.utf8 m.fullCollectionName).length + 9
        = (Text.utf8 m.fullCollectionName).length + (1 + (4 + 4)) from rfl,
      ← List.drop_drop, List.drop_left, ← List.drop_drop, List.drop_succ_cons, List.drop_zero,
      ← List.drop_drop, List.drop_left' (ofI32_length _), List.drop_left' (ofI32_length _)]
  rw [hstart] at hcanon ⊢
  obtain ⟨q, r, hq, hr, hsplit⟩ := serialize_documentsOf hp heq hdocs hcanon
  have hlength := congrArg List.length hbody
  have hread := congrArg List.length hsplit
  have hsize := MessageHeader.size_le_of_fromBytes frame header hh
  simp only [bodyBytes, List.length_append, List.length_drop, List.length_nil,
    MessageHeader.size] at hlength hread hsize
  have hn : MessageHeader.size
      + (m.bodyBytes (Text.utf8 m.fullCollectionName ++ [0]) q r).length ≤ frame.length := by
    simp only [bodyBytes, List.length_append, MessageHeader.size]
    omega
  obtain ⟨len, hl⟩ := messageLengthOf_of_le (OperationQueryWriteError.messageTooLarge (β := β))
    hlen hn
  have hframe : m.frame bson header.requestId header.responseTo
      = .ok ((MessageHeader.mk len header.requestId header.responseTo header.opCode).writeBytes
          ++ m.bodyBytes (Text.utf8 m.fullCollectionName ++ [0]) q r) := by
    simp only [OperationQuery.frame, hq, hr, CStr.withNul_of_not_mem _ hfree, Except.mapError, hl,
      bind, Except.bind, pure, Except.pure, hcode]
  rw [hframe, Except.ok.injEq,
    MessageHeader.frame_eq_iff hh hlen (messageLengthOf_eq_ok _ _ _ hl)]
  show _ = frame.drop 16 ↔ _
  rw [hbody]
  simp only [bodyBytes, List.append_cancel_left_eq, List.append_nil]
  exact eq_whole_iff hsplit

theorem OperationReply.frame_iff (hcode : header.opCode = .reply) {m : OperationReply}
    (h : OperationReply.fromBytes bson (frame.drop 16) = .ok m)
    (hcanon : ∀ r ∈ documentStarts (numDocs (numberReturnedField frame)) (frame.drop 36),
      bson.Canonical r) :
    m.frame bson header.requestId header.responseTo = .ok frame ↔
      0 ≤ (numberReturnedField frame).toInt ∧
        afterDocuments (numDocs (numberReturnedField frame)) (frame.drop 36) = [] := by
  obtain ⟨hbody, -, hdocs⟩ := fromBytes_eq_ok bson h
  have hcount : toI32 (((frame.drop 16).drop 16).take 4) = numberReturnedField frame := by
    rw [numberReturnedField, List.drop_drop]
  have hreader : (frame.drop 16).drop minLen = frame.drop 36 := by
    rw [List.drop_drop]
    rfl
  rw [hcount, hreader] at hbody hdocs
  obtain ⟨hds, w, hw, hsplit⟩ := writeDocuments_times hp _ _ _ _ hdocs hcanon
  generalize numberReturnedField frame = count at *
  generalize frame.drop 36 = reader at *
  have hmax : count.toInt ≤ 2147483647 := Int32.toInt_le count
  obtain ⟨n, hn⟩ := (i32OfNat_isSome (numDocs count)).mpr (by
    simp only [numDocs]
    omega)
  have hlength := congrArg List.length hbody
  have hread := congrArg List.length hsplit
  have hsize := MessageHeader.size_le_of_fromBytes frame header hh
  simp only [bodyBytes, List.length_append, List.length_drop, MessageHeader.size, ofI32_length]
    at hlength hread hsize
  have hfit : MessageHeader.size + (m.bodyBytes n w).length ≤ frame.length := by
    simp only [bodyBytes, List.length_append, MessageHeader.size, ofI32_length]
    omega
  obtain ⟨len, hl⟩ := messageLengthOf_of_le (OperationReplyWriteError.messageTooLarge (β := β))
    hlen hfit
  have hframe : m.frame bson header.requestId header.responseTo
      = .ok ((MessageHeader.mk len header.requestId header.responseTo header.opCode).writeBytes
          ++ m.bodyBytes n w) := by
    simp only [OperationReply.frame, numberReturned, hds, hn, hw, Except.mapError, hl, bind,
      Except.bind, pure, Except.pure, hcode]
  rw [hframe, Except.ok.injEq,
    MessageHeader.frame_eq_iff hh hlen (messageLengthOf_eq_ok _ _ _ hl)]
  show _ = frame.drop 16 ↔ _
  rw [hbody]
  simp only [bodyBytes, List.append_cancel_left_eq]
  have hval := i32OfNat_eq_some _ _ hn
  simp only [numDocs] at hval
  refine ⟨?_, ?_⟩
  · intro hwritten
    obtain ⟨hcounts, hdocs⟩ := List.append_inj hwritten (by rw [ofI32_length, ofI32_length])
    have hsame := congrArg toI32 hcounts
    rw [toI32_ofI32, toI32_ofI32] at hsame
    rw [hsame] at hval
    exact ⟨by omega, (eq_whole_iff hsplit).mp hdocs⟩
  · intro hwhole
    obtain ⟨hpos, hend⟩ := hwhole
    have hsame : n = count := Int32.toInt_inj.mp (by omega)
    rw [hsame, (eq_whole_iff hsplit).mpr hend]

end

/-! ### Frames -/

def opCodeField (frame : Bytes) : Bytes := (frame.drop 12).take 4

/- Where the documents of a legacy frame start. -/
def legacyDocuments (frame : Bytes) : List Bytes :=
  if opCodeField frame = OPCode.query.toLeBytes then documentStarts 2 (queryDocuments frame)
  else documentStarts (OperationReply.numDocs (numberReturnedField frame)) (frame.drop 36)

/-- An OP_QUERY ends with its projection, or with the query if it has none; an OP_REPLY ends with
the documents it counts, and the count is not negative. -/
def EndsWithDocuments (frame : Bytes) : Prop :=
  if opCodeField frame = OPCode.query.toLeBytes then afterDocuments 2 (queryDocuments frame) = []
  else 0 ≤ (numberReturnedField frame).toInt ∧
    afterDocuments (OperationReply.numDocs (numberReturnedField frame)) (frame.drop 36) = []

instance : DecidablePred EndsWithDocuments := fun frame =>
  inferInstanceAs (Decidable (if opCodeField frame = OPCode.query.toLeBytes then
    afterDocuments 2 (queryDocuments frame) = [] else _ ∧ _))

theorem Message.exec_eq_frame_iff (m : Message) (frame dst : Bytes) :
    (m.writeBytes bson).exec dst = (.ok (), dst ++ frame) ↔ m.frame bson = .ok frame := by
  rw [m.writeBytes_appends bson dst]
  cases m.frame bson with
  | ok w => simp
  | error e => simp

theorem MessageHeader.opCodeField_of_fromBytes {frame : Bytes} {header : MessageHeader}
    (hh : MessageHeader.fromBytes frame = .ok header) :
    opCodeField frame = header.opCode.toLeBytes := by
  have hsplit := List.take_append_drop size frame
  rw [← writeBytes_of_fromBytes frame header hh] at hsplit
  rw [opCodeField, ← hsplit, opCodeField_writeBytes]

/-- A legacy frame with canonical documents is forwarded byte for byte exactly if it ends with
them. -/
theorem Message.legacy_forward_iff (hp : bson.LengthPrefixed)
    (heq : ∀ d, bson.serializeToVec d = bson.toWriter d) (frame : Bytes) (m : Message)
    (hdec : WireDecoder.decode bson .default frame = (.ok (some m), .default, []))
    (hlegacy : opCodeField frame = OPCode.query.toLeBytes ∨
      opCodeField frame = OPCode.reply.toLeBytes)
    (hcanon : ∀ r ∈ legacyDocuments frame, bson.Canonical r) (dst : Bytes) :
    (m.writeBytes bson).exec dst = (.ok (), dst ++ frame) ↔ EndsWithDocuments frame := by
  obtain ⟨header, hh, hlen, hop, hm⟩ := WireDecoder.decode_default_operation bson hdec
  have hfield := MessageHeader.opCodeField_of_fromBytes hh
  rw [exec_eq_frame_iff]
  cases hcode : header.opCode with
  | msg =>
    rw [hfield, hcode] at hlegacy
    exact absurd hlegacy (by decide)
  | query =>
    rw [hcode] at hfield hop
    simp only [Operation.fromBytes, Outcome.bind_eq_ok, Outcome.mapErr_eq_ok] at hop
    obtain ⟨q, hq, hop⟩ := hop
    rw [← Except.ok.inj hop] at hm
    simp only [legacyDocuments, if_pos hfield] at hcanon
    rw [EndsWithDocuments, if_pos hfield, hm,
      ← OperationQuery.frame_iff hp heq hh hlen hcode hq hcanon]
    simp only [Message.frame, Operation.frame, Outcome.mapError_eq_ok]
  | reply =>
    rw [hcode] at hfield hop
    simp only [Operation.fromBytes, Outcome.bind_eq_ok, Outcome.mapErr_eq_ok] at hop
    obtain ⟨r, hr, hop⟩ := hop
    rw [← Except.ok.inj hop] at hm
    have hne : opCodeField frame ≠ OPCode.query.toLeBytes := by
      rw [hfield]
      decide
    simp only [legacyDocuments, if_neg hne] at hcanon
    rw [EndsWithDocuments, if_neg hne, hm,
      ← OperationReply.frame_iff hp hh hlen hcode hr hcanon]
    simp only [Message.frame, Operation.frame, Outcome.mapError_eq_ok]

/- A query with a projection, and nothing after it. -/
def wholeQuery : Bytes :=
  [0x28, 0, 0, 0, 7, 0, 0, 0, 0, 0, 0, 0, 0xD4, 7, 0, 0,
    0, 0, 0, 0, 0x61, 0, 0, 0, 0, 0, 1, 0, 0, 0,
    5, 0, 0, 0, 0, 5, 0, 0, 0, 0]

theorem wholeQuery_forward :
    (Message.writeBytes BsonCodec.emptyOnly
        ⟨⟨7⟩, none, .query ⟨⟨0⟩, "a", 0, 1, .new, some .new⟩⟩).exec [] = (.ok (), [] ++ wholeQuery) :=
  (Message.legacy_forward_iff emptyOnly_lengthPrefixed (fun _ => rfl) wholeQuery _ rfl
    (Or.inl (by decide)) (fun r _ => BsonCodec.emptyOnly_canonical r) []).mpr (by decide)

/-- The frame is accepted with canonical documents, and other bytes are written for it. -/
def ForwardedOtherwise (frame : Bytes) : Prop :=
  (∀ r ∈ legacyDocuments frame, BsonCodec.emptyOnly.Canonical r) ∧
    ∃ m written, WireDecoder.decode BsonCodec.emptyOnly .default frame = (.ok (some m), .default, []) ∧
      (Message.writeBytes BsonCodec.emptyOnly m).exec [] = (.ok (), written) ∧ written ≠ frame

/- A query with a byte after its projection, a reply with a byte after its one document, and a reply
that counts minus one. -/
theorem legacy_frames_lossy :
    ForwardedOtherwise
        [0x29, 0, 0, 0, 7, 0, 0, 0, 0, 0, 0, 0, 0xD4, 7, 0, 0, 0, 0, 0, 0, 0x61, 0,
          0, 0, 0, 0, 1, 0, 0, 0, 5, 0, 0, 0, 0, 5, 0, 0, 0, 0, 0xFF] ∧
      ForwardedOtherwise
        [0x2A, 0, 0, 0, 7, 0, 0, 0, 3, 0, 0, 0, 1, 0, 0, 0, 0, 0, 0, 0, 0, 0, 0, 0, 0, 0, 0, 0,
          0, 0, 0, 0, 1, 0, 0, 0, 5, 0, 0, 0, 0, 0xFF] ∧
      ForwardedOtherwise
        [0x24, 0, 0, 0, 7, 0, 0, 0, 3, 0, 0, 0, 1, 0, 0, 0, 0, 0, 0, 0, 0, 0, 0, 0, 0, 0, 0, 0,
          0, 0, 0, 0, 0xFF, 0xFF, 0xFF, 0xFF] := by
  have hcanon : ∀ frame, ∀ r ∈ legacyDocuments frame, BsonCodec.emptyOnly.Canonical r :=
    fun _ r _ => BsonCodec.emptyOnly_canonical r
  refine ⟨⟨hcanon _, _, _, rfl, rfl, ?_⟩, ⟨hcanon _, _, _, rfl, rfl, ?_⟩,
    ⟨hcanon _, _, _, rfl, rfl, ?_⟩⟩
  · decide
  · decide
  · decide

end MongodProxy
