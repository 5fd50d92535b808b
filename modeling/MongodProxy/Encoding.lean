import MongodProxy.RoundTrip

/-!
# Encoding is all or nothing

The three writers compute every part of a frame before they touch the output buffer, so a
message is appended as one frame of the length it announces, or not at all. What makes a
writer fail is said here in terms of the message alone.
-/

namespace MongodProxy
open LittleEndian

variable {β : Type} (bson : BsonCodec β)

/-! ### What a message needs to be written -/

/- The length of a document, if it can be serialised. -/
def writtenLength (serialise : Document → Except β Bytes) (doc : Document) : ℕ :=
  match serialise doc with
  | .ok w => w.length
  | .error _ => 0

namespace OpMsgSection

def documents : OpMsgSection → List Document
  | .body doc => [doc]
  | .documentSequence _ documents => documents

def identifier? : OpMsgSection → Option String
  | .body _ => none
  | .documentSequence identifier _ => some identifier

/- What the size field of a kind-1 section counts: itself, the identifier and the documents. -/
def sequenceSize? : OpMsgSection → Option ℕ
  | .body _ => none
  | .documentSequence identifier documents =>
    some (4 + ((Text.utf8 identifier).length + 1)
      + (documents.map (writtenLength bson.toWriter)).sum)

def writtenSize : OpMsgSection → ℕ
  | .body doc => 1 + writtenLength bson.toWriter doc
  | .documentSequence identifier documents =>
    1 + (4 + ((Text.utf8 identifier).length + 1)
      + (documents.map (writtenLength bson.toWriter)).sum)

end OpMsgSection

namespace Operation

def documents : Operation → List Document
  | .message m => m.sections.flatMap OpMsgSection.documents
  | .query q => q.query :: q.returnFieldsSelector.toList
  | .reply r => r.documents

/- How the documents of the body are serialised. -/
def serialise : Operation → Document → Except β Bytes
  | .message _ => bson.toWriter
  | .query _ => bson.serializeToVec
  | .reply _ => bson.toWriter

/- The strings that are written with a terminator. -/
def names : Operation → List String
  | .message m => m.sections.filterMap OpMsgSection.identifier?
  | .query q => [q.fullCollectionName]
  | .reply _ => []

def sequenceSizes : Operation → List ℕ
  | .message m => m.sections.filterMap (OpMsgSection.sequenceSize? bson)
  | .query _ => []
  | .reply _ => []

/- The number an OP_REPLY announces. -/
def replyCount : Operation → ℕ
  | .message _ => 0
  | .query _ => 0
  | .reply r => r.documents.length

def frameLength : Operation → ℕ
  | .message m => MessageHeader.size + (4 + (m.sections.map (OpMsgSection.writtenSize bson)).sum
      + if m.checksum.isSome then 4 else 0)
  | .query q => MessageHeader.size + (4 + ((Text.utf8 q.fullCollectionName).length + 1) + 4 + 4
      + ((q.query :: q.returnFieldsSelector.toList).map (writtenLength bson.serializeToVec)).sum)
  | .reply r => MessageHeader.size + (OperationReply.minLen
      + (r.documents.map (writtenLength bson.toWriter)).sum)

/- Nothing stands in the way of writing the body. -/
structure Writable (op : Operation) : Prop where
  documents : ∀ d ∈ op.documents, ∃ w, op.serialise bson d = .ok w
  names : ∀ name ∈ op.names, 0 ∉ Text.utf8 name
  sequences : ∀ size ∈ op.sequenceSizes bson, size ≤ 2147483647
  count : op.replyCount ≤ 2147483647
  total : op.frameLength bson ≤ 48 * 1024 * 1024

end Operation

variable {bson}

/-! ### Parts of a frame -/

theorem i32OfNat_isSome (n : ℕ) : (∃ x, i32OfNat n = some x) ↔ n ≤ 2147483647 := by
  unfold i32OfNat
  by_cases h : n ≤ 2147483647
  · simp [h]
  · simp [h]

theorem messageLengthOf_isOk {ε : Type} (tooLarge : ℕ → ε) (n : ℕ) :
    (∃ l, messageLengthOf tooLarge n = .ok l) ↔ 16 ≤ n ∧ n ≤ 48 * 1024 * 1024 := by
  constructor
  · rintro ⟨l, hl⟩
    have hlen := messageLengthOf_eq_ok tooLarge n l hl
    have hvalid := l.valid
    simp only [MessageLength.asUsize] at hlen
    simp only [inEnvelope] at hvalid
    omega
  · rintro ⟨hlow, hhigh⟩
    obtain ⟨x, hx⟩ := (i32OfNat_isSome n).mpr (by omega)
    have hval := i32OfNat_eq_some n x hx
    have hin : inEnvelope x := by
      simp only [inEnvelope]
      omega
    refine ⟨⟨x, hin⟩, ?_⟩
    simp only [messageLengthOf, hx, MessageLength.tryNew, dif_pos hin, Except.mapError]

theorem writtenLength_eq {serialise : Document → Except β Bytes} {d : Document} {w : Bytes}
    (h : serialise d = .ok w) : writtenLength serialise d = w.length := by
  simp only [writtenLength, h]

theorem withNul_isOk (s : String) : (∃ w, CStr.withNul (Text.utf8 s) = .ok w) ↔ 0 ∉ Text.utf8 s := by
  constructor
  · rintro ⟨w, hw⟩
    exact (CStr.withNul_eq_ok _ _ hw).1
  · intro h
    exact ⟨_, CStr.withNul_of_not_mem _ h⟩

theorem writeDocuments_length {ds : List Document} {w : Bytes}
    (h : writeDocuments bson ds = .ok w) :
    w.length = (ds.map (writtenLength bson.toWriter)).sum :=
  Items.writeAll_length _ _ (fun _ _ hd => writtenLength_eq hd) _ _ h

theorem writeSection_isOk (s : OpMsgSection) :
    (∃ w, writeSection bson s = .ok w) ↔
      (∀ d ∈ s.documents, ∃ w, bson.toWriter d = .ok w) ∧
        (∀ name ∈ s.identifier?, 0 ∉ Text.utf8 name) ∧
        ∀ size ∈ s.sequenceSize? bson, size ≤ 2147483647 := by
  cases s with
  | body doc =>
    simp only [writeSection, Outcome.bind_eq_ok, Outcome.mapError_eq_ok, OpMsgSection.documents,
      OpMsgSection.identifier?, OpMsgSection.sequenceSize?, List.forall_mem_singleton]
    constructor
    · rintro ⟨-, w, hw, -⟩
      exact ⟨⟨w, hw⟩, fun _ h => absurd h (Option.not_mem_none _),
        fun _ h => absurd h (Option.not_mem_none _)⟩
    · rintro ⟨⟨w, hw⟩, -⟩
      exact ⟨_, w, hw, rfl⟩
  | documentSequence identifier documents =>
    simp only [writeSection, Outcome.bind_eq_ok, Outcome.mapError_eq_ok, OpMsgSection.documents,
      OpMsgSection.identifier?, OpMsgSection.sequenceSize?, Option.mem_def, Option.some.injEq,
      forall_eq', ← withNul_isOk, ← Items.writeAll_isOk, ← i32OfNat_isSome]
    constructor
    · rintro ⟨w, name, hname, docs, hdocs, hsize⟩
      obtain ⟨-, rfl⟩ := CStr.withNul_eq_ok _ _ hname
      rw [writeDocuments_length hdocs, List.length_append] at hsize
      refine ⟨⟨docs, hdocs⟩, ⟨_, hname⟩, ?_⟩
      cases hi : i32OfNat (4 + ((Text.utf8 identifier).length + 1)
          + (documents.map (writtenLength bson.toWriter)).sum) with
      | none =>
        simp only [List.length_singleton, hi] at hsize
        cases hsize
      | some x => exact ⟨x, rfl⟩
    · rintro ⟨⟨docs, hdocs⟩, ⟨name, hname⟩, x, hx⟩
      obtain ⟨-, rfl⟩ := CStr.withNul_eq_ok _ _ hname
      refine ⟨1 :: (ofI32 x ++ ((Text.utf8 identifier ++ [0]) ++ docs)), _, hname, docs, hdocs, ?_⟩
      rw [writeDocuments_length hdocs, List.length_append, List.length_singleton, hx]
      rfl

theorem writeSection_length {s : OpMsgSection} {w : Bytes} (h : writeSection bson s = .ok w) :
    s.writtenSize bson = w.length := by
  cases s with
  | body doc =>
    simp only [writeSection, Outcome.bind_eq_ok, Outcome.mapError_eq_ok] at h
    obtain ⟨p, hp, hw⟩ := h
    cases hw
    rw [OpMsgSection.writtenSize, writtenLength_eq hp, List.length_cons, Nat.add_comm]
  | documentSequence identifier documents =>
    simp only [writeSection, Outcome.bind_eq_ok, Outcome.mapError_eq_ok] at h
    obtain ⟨name, hname, docs, hdocs, hw⟩ := h
    obtain ⟨-, rfl⟩ := CStr.withNul_eq_ok _ _ hname
    split at hw
    · cases hw
    · cases hw
      simp only [OpMsgSection.writtenSize, ← writeDocuments_length hdocs, List.length_cons,
        List.length_append, ofI32_length, List.length_nil]
      omega

theorem writeSections_isOk (ss : List OpMsgSection) :
    (∃ w, writeSections bson ss = .ok w) ↔
      (∀ d ∈ ss.flatMap OpMsgSection.documents, ∃ w, bson.toWriter d = .ok w) ∧
        (∀ name ∈ ss.filterMap OpMsgSection.identifier?, 0 ∉ Text.utf8 name) ∧
        ∀ size ∈ ss.filterMap (OpMsgSection.sequenceSize? bson), size ≤ 2147483647 := by
  simp only [writeSections, Items.writeAll_isOk, writeSection_isOk, List.mem_flatMap,
    List.mem_filterMap]
  constructor
  · intro h
    refine ⟨?_, ?_, ?_⟩
    · rintro d ⟨s, hs, hd⟩
      exact (h s hs).1 d hd
    · rintro name ⟨s, hs, hname⟩
      exact (h s hs).2.1 name hname
    · rintro size ⟨s, hs, hsize⟩
      exact (h s hs).2.2 size hsize
  · rintro ⟨hdocs, hnames, hsizes⟩ s hs
    exact ⟨fun d hd => hdocs d ⟨s, hs, hd⟩, fun name hname => hnames name ⟨s, hs, hname⟩,
      fun size hsize => hsizes size ⟨s, hs, hsize⟩⟩

/-! ### When a frame can be written -/

section
variable {requestId : RequestId} {responseTo : Option ResponseTo}

theorem OperationMessage.body_length {m : OperationMessage} {ss : Bytes}
    (hss : writeSections bson m.sections = .ok ss) :
    MessageHeader.size + (ofU32 (m.flags.set .checksumPresent m.checksum.isSome).bits ++
      (ss ++ m.checksumBytes)).length = (Operation.message m).frameLength bson := by
  have hlen := Items.writeAll_length _ (OpMsgSection.writtenSize bson)
    (fun _ _ hs => writeSection_length hs) _ _ hss
  simp only [Operation.frameLength, List.length_append, ofU32_length, checksumBytes_length, hlen]
  omega

theorem OperationMessage.frame_isOk (m : OperationMessage) :
    (∃ w, m.frame bson requestId responseTo = .ok w) ↔ (Operation.message m).Writable bson := by
  simp only [frame, Outcome.bind_eq_ok]
  constructor
  · rintro ⟨w, ss, hss, l, hl, -⟩
    obtain ⟨hdocs, hnames, hsizes⟩ := (writeSections_isOk m.sections).mp ⟨ss, hss⟩
    have htotal := ((messageLengthOf_isOk _ _).mp ⟨l, hl⟩).2
    rw [body_length hss] at htotal
    exact ⟨hdocs, hnames, hsizes, Nat.zero_le _, htotal⟩
  · rintro ⟨hdocs, hnames, hsizes, -, htotal⟩
    obtain ⟨ss, hss⟩ := (writeSections_isOk m.sections).mpr ⟨hdocs, hnames, hsizes⟩
    have hlow : 16 ≤ (Operation.message m).frameLength bson := Nat.le_add_right _ _
    obtain ⟨l, hl⟩ := (messageLengthOf_isOk OperationMessageWriteError.messageTooLarge _).mpr
      ⟨hlow, htotal⟩
    rw [← body_length hss] at hl
    exact ⟨_, ss, hss, l, hl, rfl⟩

theorem OperationReply.body_length {m : OperationReply} {docs : Bytes} (n : Int32)
    (hdocs : writeDocuments bson m.documents = .ok docs) :
    MessageHeader.size + (m.bodyBytes n docs).length = (Operation.reply m).frameLength bson := by
  simp only [Operation.frameLength, bodyBytes, List.length_append, ofU32_length, ofI32_length,
    ofI64_length, ← writeDocuments_length hdocs, minLen]
  omega

theorem OperationReply.frame_isOk (m : OperationReply) :
    (∃ w, m.frame bson requestId responseTo = .ok w) ↔ (Operation.reply m).Writable bson := by
  have hcount : (∃ n, (m.numberReturned : Except (OperationReplyWriteError β) Int32) = .ok n) ↔
      m.documents.length ≤ 2147483647 := by
    rw [← i32OfNat_isSome, numberReturned]
    cases i32OfNat m.documents.length <;> simp
  simp only [frame, Outcome.bind_eq_ok, Outcome.mapError_eq_ok]
  constructor
  · rintro ⟨w, n, hn, docs, hdocs, l, hl, -⟩
    have htotal := ((messageLengthOf_isOk _ _).mp ⟨l, hl⟩).2
    rw [body_length n hdocs] at htotal
    exact ⟨(Items.writeAll_isOk _ _).mp ⟨docs, hdocs⟩, List.forall_mem_nil _, List.forall_mem_nil _,
      hcount.mp ⟨n, hn⟩, htotal⟩
  · rintro ⟨hdocs, -, -, hn, htotal⟩
    obtain ⟨n, hn⟩ := hcount.mpr hn
    obtain ⟨docs, hdocs⟩ := (Items.writeAll_isOk bson.toWriter m.documents).mpr hdocs
    have hlow : 16 ≤ (Operation.reply m).frameLength bson := Nat.le_add_right _ _
    obtain ⟨l, hl⟩ := (messageLengthOf_isOk OperationReplyWriteError.messageTooLarge _).mpr
      ⟨hlow, htotal⟩
    rw [← body_length n hdocs] at hl
    exact ⟨_, n, hn, docs, hdocs, l, hl, rfl⟩

/- The projection is written with the query's serialiser. -/
theorem OperationQuery.selectorBytes_isOk (m : OperationQuery) :
    (∃ w, selectorBytes bson m = .ok w) ↔
      ∀ d ∈ m.returnFieldsSelector.toList, ∃ w, bson.serializeToVec d = .ok w := by
  cases h : m.returnFieldsSelector with
  | none => simp [selectorBytes, h]
  | some doc => simp [selectorBytes, h, Outcome.mapError_eq_ok]

theorem OperationQuery.selectorBytes_length {m : OperationQuery} {w : Bytes}
    (h : selectorBytes bson m = .ok w) :
    w.length = (m.returnFieldsSelector.toList.map (writtenLength bson.serializeToVec)).sum := by
  cases hs : m.returnFieldsSelector with
  | none =>
    simp only [selectorBytes, hs] at h
    cases h
    rfl
  | some doc =>
    simp only [selectorBytes, hs, Outcome.mapError_eq_ok] at h
    simp [writtenLength_eq h]

theorem OperationQuery.body_length {m : OperationQuery} {q r : Bytes}
    (hq : bson.serializeToVec m.query = .ok q) (hr : selectorBytes bson m = .ok r) :
    MessageHeader.size + (m.bodyBytes (Text.utf8 m.fullCollectionName ++ [0]) q r).length
      = (Operation.query m).frameLength bson := by
  simp only [Operation.frameLength, bodyBytes, List.length_append, ofU32_length, ofI32_length,
    List.length_singleton, List.map_cons, List.sum_cons, writtenLength_eq hq,
    ← selectorBytes_length hr]
  omega

theorem OperationQuery.frame_isOk (m : OperationQuery) :
    (∃ w, m.frame bson requestId responseTo = .ok w) ↔ (Operation.query m).Writable bson := by
  simp only [frame, Outcome.bind_eq_ok, Outcome.mapError_eq_ok]
  constructor
  · rintro ⟨w, q, hq, r, hr, name, hname, l, hl, -⟩
    obtain ⟨hfree, rfl⟩ := CStr.withNul_eq_ok _ _ hname
    have htotal := ((messageLengthOf_isOk _ _).mp ⟨l, hl⟩).2
    rw [body_length hq hr] at htotal
    refine ⟨?_, ?_, List.forall_mem_nil _, Nat.zero_le _, htotal⟩
    · exact List.forall_mem_cons.mpr ⟨⟨q, hq⟩, (selectorBytes_isOk m).mp ⟨r, hr⟩⟩
    · exact List.forall_mem_singleton.mpr hfree
  · rintro ⟨hdocs, hnames, -, -, htotal⟩
    obtain ⟨⟨q, hq⟩, hselector⟩ := List.forall_mem_cons.mp hdocs
    obtain ⟨r, hr⟩ := (selectorBytes_isOk m).mpr hselector
    have hname := CStr.withNul_of_not_mem _ (hnames _ (List.mem_singleton.mpr rfl))
    have hlow : 16 ≤ (Operation.query m).frameLength bson := Nat.le_add_right _ _
    obtain ⟨l, hl⟩ := (messageLengthOf_isOk OperationQueryWriteError.messageTooLarge _).mpr
      ⟨hlow, htotal⟩
    rw [← body_length hq hr] at hl
    exact ⟨_, q, hq, r, hr, _, hname, l, hl, rfl⟩

end

/-! ### The message as a whole -/

theorem Operation.not_writable_iff (op : Operation) :
    ¬ op.Writable bson ↔
      (∃ d ∈ op.documents, ∃ e, op.serialise bson d = .error e) ∨
        (∃ name ∈ op.names, 0 ∈ Text.utf8 name) ∨
        (∃ size ∈ op.sequenceSizes bson, 2147483647 < size) ∨
        2147483647 < op.replyCount ∨ 48 * 1024 * 1024 < op.frameLength bson := by
  have hfails : ∀ d, (¬ ∃ w, op.serialise bson d = .ok w) ↔ ∃ e, op.serialise bson d = .error e := by
    intro d
    cases op.serialise bson d <;> simp
  have hsplit : op.Writable bson ↔ (∀ d ∈ op.documents, ∃ w, op.serialise bson d = .ok w) ∧
      (∀ name ∈ op.names, 0 ∉ Text.utf8 name) ∧
      (∀ size ∈ op.sequenceSizes bson, size ≤ 2147483647) ∧
      op.replyCount ≤ 2147483647 ∧ op.frameLength bson ≤ 48 * 1024 * 1024 :=
    ⟨fun ⟨h1, h2, h3, h4, h5⟩ => ⟨h1, h2, h3, h4, h5⟩,
      fun ⟨h1, h2, h3, h4, h5⟩ => ⟨h1, h2, h3, h4, h5⟩⟩
  rw [hsplit]
  simp only [not_and_or, not_forall, exists_prop, hfails, not_not, not_le]

namespace Message

theorem frame_isOk (m : Message) :
    (∃ w, m.frame bson = .ok w) ↔ m.operation.Writable bson := by
  simp only [frame, Outcome.mapError_eq_ok]
  cases h : m.operation with
  | message op =>
    simp only [Operation.frame, Outcome.mapError_eq_ok]
    exact op.frame_isOk
  | query op =>
    simp only [Operation.frame, Outcome.mapError_eq_ok]
    exact op.frame_isOk
  | reply op =>
    simp only [Operation.frame, Outcome.mapError_eq_ok]
    exact op.frame_isOk

/- A header for the body that follows it. -/
theorem frame_eq_ok {m : Message} {w : Bytes} (h : m.frame bson = .ok w) :
    ∃ (len : MessageLength) (body : Bytes), len.asUsize = MessageHeader.size + body.length ∧
      MessageHeader.size + body.length = m.operation.frameLength bson ∧
      w = (MessageHeader.mk len m.requestId m.responseTo m.operation.opCode).writeBytes ++ body := by
  rw [frame, Outcome.mapError_eq_ok] at h
  cases hop : m.operation with
  | message op =>
    simp only [hop, Operation.frame, Outcome.mapError_eq_ok] at h
    obtain ⟨len, ss, hss, hlen, rfl⟩ := OperationMessage.frame_eq_ok h
    exact ⟨len, _, hlen, OperationMessage.body_length hss, rfl⟩
  | query op =>
    simp only [hop, Operation.frame, Outcome.mapError_eq_ok] at h
    obtain ⟨len, name, q, r, hname, hq, hr, hlen, rfl⟩ := OperationQuery.frame_eq_ok h
    obtain ⟨-, rfl⟩ := CStr.withNul_eq_ok _ _ hname
    exact ⟨len, _, hlen, OperationQuery.body_length hq hr, rfl⟩
  | reply op =>
    simp only [hop, Operation.frame, Outcome.mapError_eq_ok] at h
    obtain ⟨len, n, docs, -, hdocs, hlen, rfl⟩ := OperationReply.frame_eq_ok h
    exact ⟨len, _, hlen, OperationReply.body_length n hdocs, rfl⟩

/-- The four bytes at the front announce the length of the frame, and the opcode is the one of
the body. -/
theorem frame_selfDelimiting {m : Message} {w : Bytes} (h : m.frame bson = .ok w) :
    (toI32 (w.take 4)).toInt = w.length ∧ w.length = m.operation.frameLength bson ∧
      16 ≤ w.length ∧ w.length ≤ 48 * 1024 * 1024 ∧
      (w.drop 12).take 4 = m.operation.opCode.toLeBytes := by
  obtain ⟨len, body, hlen, htotal, rfl⟩ := frame_eq_ok h
  have hvalid := len.valid
  simp only [inEnvelope] at hvalid
  simp only [MessageLength.asUsize] at hlen
  rw [MessageHeader.lengthField_writeBytes, MessageHeader.opCodeField_writeBytes, toI32_ofI32,
    List.length_append, MessageHeader.writeBytes_length]
  refine ⟨?_, htotal, ?_, ?_, rfl⟩
  · show len.val.toInt = _
    omega
  · omega
  · omega

theorem writeBytes_all_or_nothing (m : Message) (dst : Bytes) :
    (match (m.writeBytes bson).exec dst with
      | (.error _, out) => out = dst
      | (.ok (), out) => ∃ frame, out = dst ++ frame ∧
          (toI32 (frame.take 4)).toInt = frame.length ∧
          frame.length = m.operation.frameLength bson ∧
          16 ≤ frame.length ∧ frame.length ≤ 48 * 1024 * 1024 ∧
          (frame.drop 12).take 4 = m.operation.opCode.toLeBytes) ∧
    ((∃ e out, (m.writeBytes bson).exec dst = (.error e, out)) ↔
      (∃ d ∈ m.operation.documents, ∃ e, m.operation.serialise bson d = .error e) ∨
        (∃ name ∈ m.operation.names, 0 ∈ Text.utf8 name) ∨
        (∃ size ∈ m.operation.sequenceSizes bson, 2147483647 < size) ∨
        2147483647 < m.operation.replyCount ∨
        48 * 1024 * 1024 < m.operation.frameLength bson) := by
  rw [m.writeBytes_appends bson dst, ← Operation.not_writable_iff, ← m.frame_isOk]
  cases h : m.frame bson with
  | error e =>
    refine ⟨rfl, ?_⟩
    simp
  | ok frame =>
    refine ⟨⟨frame, rfl, frame_selfDelimiting h⟩, ?_⟩
    simp

end Message

end MongodProxy
