import MongodProxy.Decoder
import MongodProxy.Lib.Checked
import MongodProxy.Operation.OpMsgGrammar

/-!
# Safety of the decoder

The parsers again with their machine arithmetic: every offset is computed in a word of `bits` bits
and panics when it overflows, every index, slice and split panics when it is out of range, and a
length is only made of a number that is not negative. None of that happens, on any input, and the
decoder is the one the rest of the development is about.
-/

namespace MongodProxy
open LittleEndian

/-- What is relied on of `Document::from_reader` here: it stays inside its input, and a document
takes at least its length prefix and its terminator. -/
structure BsonCodec.Advances {β : Type} (bson : BsonCodec β) : Prop where
  consumed_le : ∀ bs d n, bson.fromReader bs = .ok (d, n) → n ≤ bs.length
  consumed_ge : ∀ bs d n, bson.fromReader bs = .ok (d, n) → 5 ≤ n

theorem BsonCodec.Delimited.advances {β : Type} {bson : BsonCodec β} (h : bson.Delimited) :
    bson.Advances := ⟨h.consumed_le, h.consumed_ge⟩

namespace Checked

variable {β : Type} (bits : ℕ) (bson : BsonCodec β)

/-! ### OP_MSG -/

/- One round of the document loop, with the cursor at `pos`. -/
def documentRound (docs : Bytes) (pos : ℕ) :
    Outcome (OperationMessageParseError β) (Document × ℕ) := do
  let (doc, n) ← Outcome.ofResult .invalidBson (bson.fromReader (docs.drop pos))
  pure (doc, pos + n)

/- The kind-1 branch of `parse_sections`. -/
def documentSequenceAt (bytes : Bytes) (sectionStart : ℕ) :
    Outcome (OperationMessageParseError β) (OpMsgSection × ℕ) := do
  let sizeEnd ← Outcome.wordAdd bits sectionStart 4
  let sizeBytes ← Outcome.okOr (.invalidDocumentSequenceSize 0)
    (Outcome.getRange bytes sectionStart sizeEnd)
  let size := toI32 (← Outcome.arrayAt sizeBytes 0 4)
  if size.toInt < 5 then
    Outcome.err (.invalidDocumentSequenceSize size)
  else
    let sizeUsize ← Outcome.wordOfInt size.toInt
    let payloadEnd ← Outcome.okOr (.invalidDocumentSequenceSize size)
      ((Outcome.checkedAdd bits sectionStart sizeUsize).filter fun e => e ≤ bytes.length)
    let identStart ← Outcome.wordAdd bits sectionStart 4
    let identifierBytes ← Outcome.okOr (.invalidDocumentSequenceSize size)
      (Outcome.getRange bytes identStart payloadEnd)
    let identifierCstr ← Outcome.okOr .documentSequenceIdentifierMissingNul
      (CStr.untilNul identifierBytes)
    let identifier ← Outcome.okOr (.documentSequenceIdentifierNotUtf8 identifierCstr)
      (Text.ofUtf8 identifierCstr)
    let identNul ← Outcome.wordAdd bits identStart identifierCstr.length
    let identEnd ← Outcome.wordAdd bits identNul 1
    let docsBytes ← Outcome.okOr (.invalidDocumentSequenceSize size)
      (Outcome.getRange bytes identEnd payloadEnd)
    let documents ← readDocuments bson docsBytes.length docsBytes 0
    pure (.documentSequence identifier documents, payloadEnd)

/- One round of the section loop, with the cursor at `pos`: the section and the cursor after it.
The cursor itself is a `u64`. -/
def sectionRound (bytes : Bytes) (pos : ℕ) :
    Outcome (OperationMessageParseError β) (OpMsgSection × ℕ) := do
  let minLen ← Outcome.wordAdd bits pos 1
  let kind ← Outcome.okOr (.notEnoughBytes bytes.length minLen) bytes[pos]?
  let sectionStart ← Outcome.wordAdd 64 pos 1
  if kind = 0 then do
    let (doc, next) ← documentRound bson bytes sectionStart
    pure (.body doc, next)
  else if kind = 1 then
    documentSequenceAt bits bson bytes sectionStart
  else
    Outcome.err (.invalidKind kind)

def parseSectionsFrom : ℕ → Bytes → ℕ →
    Outcome (OperationMessageParseError β) (List OpMsgSection)
  | 0, bytes, pos => if pos < bytes.length then .error .hang else .ok []
  | fuel + 1, bytes, pos =>
    if pos < bytes.length then do
      let (s, next) ← sectionRound bits bson bytes pos
      let rest ← parseSectionsFrom fuel bytes next
      pure (s :: rest)
    else .ok []

/- The trailing checksum taken off, if the flags announce one. -/
def splitChecksum (flags : OperationMessageFlags) (afterFlags : Bytes) :
    Outcome (OperationMessageParseError β) (Bytes × Option UInt32) :=
  if flags.contains .checksumPresent then
    if afterFlags.length < 4 then
      Outcome.err .missingChecksum
    else do
      let bodyLen ← Outcome.wordSub afterFlags.length 4
      let (body, checksumBytes) ← Outcome.splitAt afterFlags bodyLen
      let checksum := toU32 (← Outcome.arrayAt checksumBytes 0 4)
      pure (body, some checksum)
  else .ok (afterFlags, none)

def messageFromBytes (bytes : Bytes) :
    Outcome (OperationMessageParseError β) OperationMessage :=
  if bytes.length < OperationMessage.minLen then
    Outcome.err (.notEnoughBytes bytes.length OperationMessage.minLen)
  else do
    let rawFlags := toU32 (← Outcome.arrayAt bytes 0 4)
    if unknownRequired rawFlags ≠ 0 then
      Outcome.err (.unknownRequiredBits (unknownRequired rawFlags))
    else
      let flags := OperationMessageFlags.fromBitsTruncate rawFlags
      let afterFlags ← Outcome.sliceFrom bytes 4
      let (sectionsBytes, checksum) ← splitChecksum flags afterFlags
      let sections ← parseSectionsFrom bits bson sectionsBytes.length sectionsBytes 0
      pure { flags, sections, checksum }

/-! ### OP_QUERY -/

/- The two documents at the end of the body. -/
def queryDocuments (reader : Bytes) :
    Outcome (OperationQueryParseError β) (Document × Option Document) := do
  let (query, n) ← Outcome.ofResult .failedToParseQuery (bson.fromReader reader)
  let rest := reader.drop n
  if rest.length ≠ 0 then do
    let (selector, _) ← Outcome.ofResult .failedToParseReturnFieldsSelector (bson.fromReader rest)
    pure (query, some selector)
  else pure (query, none)

def queryFromBytes (bytes : Bytes) : Outcome (OperationQueryParseError β) OperationQuery :=
  if bytes.length < OperationQuery.minLen then
    Outcome.err (.notEnoughBytes bytes.length OperationQuery.minLen)
  else do
    let rawFlags := toU32 (← Outcome.arrayAt bytes 0 4)
    let flags ← Outcome.okOr (.unknownFlagBits (rawFlags &&& ~~~OperationQueryFlags.all.bits))
      (OperationQueryFlags.fromBits rawFlags)
    let afterFlags ← Outcome.sliceFrom bytes 4
    let fullCollectionNameCstr ← Outcome.okOr .invalidCollectionName (CStr.untilNul afterFlags)
    let fullCollectionName ← Outcome.okOr (.invalidUtf8CollectionName fullCollectionNameCstr)
      (Text.ofUtf8 fullCollectionNameCstr)
    let nameEnd ← Outcome.wordAdd bits fullCollectionNameCstr.length 1
    let tail ← Outcome.sliceFrom afterFlags nameEnd
    if tail.length < OperationQuery.tailMin then
      Outcome.err (.notEnoughBytes bytes.length
        (bytes.length - tail.length + OperationQuery.tailMin))
    else do
      let numberToSkip := toI32 (← Outcome.arrayAt tail 0 4)
      let numberToReturn := toI32 (← Outcome.arrayAt tail 4 4)
      let reader ← Outcome.sliceFrom tail 8
      let (query, returnFieldsSelector) ← queryDocuments bson reader
      pure { flags, fullCollectionName, numberToSkip, numberToReturn, query, returnFieldsSelector }

/-! ### OP_REPLY -/

/- `number_returned.max(0) as usize`. -/
def numDocs (numberReturned : Int32) : Outcome (OperationReplyParseError β) ℕ :=
  Outcome.wordOfInt (max numberReturned.toInt 0)

def replyFromBytes (bytes : Bytes) : Outcome (OperationReplyParseError β) OperationReply :=
  if bytes.length < OperationReply.minLen then
    Outcome.err (.notEnoughBytes bytes.length OperationReply.minLen)
  else do
    let rawFlags := toU32 (← Outcome.arrayAt bytes 0 4)
    let flags ← Outcome.okOr (.unknownFlagBits (rawFlags &&& ~~~OperationReplyFlags.all.bits))
      (OperationReplyFlags.fromBits rawFlags)
    let cursorId := toI64 (← Outcome.arrayAt bytes 4 8)
    let startingFrom := toI32 (← Outcome.arrayAt bytes 12 4)
    let numberReturned := toI32 (← Outcome.arrayAt bytes 16 4)
    let reader ← Outcome.sliceFrom bytes OperationReply.minLen
    let count ← numDocs numberReturned
    let documents ← Items.times (OperationReply.document bson) 0 count reader
    pure { flags, cursorId, startingFrom, documents }

/-! ### Frames -/

def operationFromBytes (opCode : OPCode) (bytes : Bytes) :
    Outcome (OperationParseError β) Operation :=
  match opCode with
  | .msg => do
    pure (.message (← Outcome.mapErr .failedToParseMessage (messageFromBytes bits bson bytes)))
  | .query => do
    pure (.query (← Outcome.mapErr .failedToParseQuery (queryFromBytes bits bson bytes)))
  | .reply => do
    pure (.reply (← Outcome.mapErr .failedToParseReply (replyFromBytes bson bytes)))

/- `Message::from_headers_and_bytes`. -/
def fromHeadersAndBytes (header : MessageHeader) (bytes : Bytes) :
    Outcome (MessageAndHeaderParseError β) Message :=
  if bytes.length < header.messageLength.asUsize then
    Outcome.err (.notEnoughBytes bytes.length header.messageLength.asUsize)
  else do
    let body ← Outcome.sliceFrom bytes MessageHeader.size
    let operation ← Outcome.mapErr .failedToParseOperation
      (operationFromBytes bits bson header.opCode body)
    pure { requestId := header.requestId, responseTo := header.responseTo, operation }

/- `WireDecoder::decode`, with `split_to` as the split it is. -/
def decode : Framing.Decode WireDecoder UInt8 Message (Outcome.Fail (WireDecoderError β)) :=
  fun d buf =>
  match d.peekHeader buf with
  | .error e => (.error e, d, buf)
  | .ok d =>
    match d.nextHeader with
    | none => (.ok none, d, buf)
    | some header =>
      if buf.length < header.messageLength.asUsize then
        (.ok none, d, buf)
      else
        match Outcome.splitAt buf header.messageLength.asUsize with
        | .error e => (.error e, ⟨none⟩, buf)
        | .ok (messageBytes, rest) =>
          let message := Outcome.mapErr .messageParse
            (fromHeadersAndBytes bits bson header messageBytes)
          (message.map some, ⟨none⟩, rest)

/-! ### The loops go forward -/

section Safe

variable {bits} {bson}

theorem documentRound_safe (hb : bson.Advances) (docs : Bytes) (pos : ℕ) :
    (documentRound bson docs pos).Safe fun p => pos < p.2 ∧ p.2 ≤ docs.length := by
  have hread : (Outcome.ofResult OperationMessageParseError.invalidBson
      (bson.fromReader (docs.drop pos))).Safe fun p => 5 ≤ p.2 ∧ p.2 ≤ docs.length - pos := by
    apply Outcome.safe_ofResult
    intro p hp
    have hle := hb.consumed_le _ p.1 p.2 hp
    rw [List.length_drop] at hle
    exact ⟨hb.consumed_ge _ p.1 p.2 hp, hle⟩
  refine hread.bind ?_
  rintro ⟨doc, n⟩ - ⟨hge, hle⟩
  exact Outcome.safe_ok ⟨by simp only; omega, by simp only at hge hle ⊢; omega⟩

/- The document loop by its rounds. -/
theorem readDocuments_succ (fuel : ℕ) (docs : Bytes) (pos : ℕ) :
    readDocuments bson (fuel + 1) docs pos =
      if pos < docs.length then
        documentRound bson docs pos >>= fun p =>
          readDocuments bson fuel docs p.2 >>= fun documents => pure (p.1 :: documents)
      else .ok [] := by
  rw [readDocuments, documentRound]
  split_ifs
  · cases bson.fromReader (docs.drop pos) with
    | error e => rfl
    | ok p => rfl
  · rfl

theorem readDocuments_safe (hb : bson.Advances) (fuel : ℕ) (docs : Bytes) (pos : ℕ)
    (hfuel : docs.length - pos ≤ fuel) :
    (readDocuments bson fuel docs pos).Safe fun _ => True := by
  induction fuel generalizing pos with
  | zero =>
    have hend : ¬ pos < docs.length := by omega
    rw [readDocuments, if_neg hend]
    trivial
  | succ fuel ih =>
    rw [readDocuments_succ]
    split_ifs with hpos
    · apply (documentRound_safe hb docs pos).bind
      rintro ⟨doc, next⟩ - ⟨hlt, hle⟩
      simp only at hlt hle ⊢
      apply (ih next (by omega)).bind
      intro documents _ _
      trivial
    · trivial

theorem getRange_eq_some {α : Type} {xs ys : List α} {i j : ℕ}
    (h : Outcome.getRange xs i j = some ys) : ys.length = j - i ∧ i ≤ j ∧ j ≤ xs.length := by
  rw [Outcome.getRange] at h
  split_ifs at h with hij
  cases h
  rw [List.length_take, List.length_drop]
  omega

/- Offsets inside a frame are far below the end of the narrowest word. -/
theorem lt_word (hbits : 32 ≤ bits) {n : ℕ} (h : n < 2 ^ 32) : n < 2 ^ bits :=
  lt_of_lt_of_le h (Nat.pow_le_pow_right (by decide) hbits)

theorem documentSequenceAt_safe (hb : bson.Advances) (hbits : 32 ≤ bits) {bytes : Bytes}
    (hlen : bytes.length ≤ 48 * 1024 * 1024) {sectionStart : ℕ}
    (hstart : sectionStart ≤ bytes.length) :
    (documentSequenceAt bits bson bytes sectionStart).Safe fun p =>
      sectionStart < p.2 ∧ p.2 ≤ bytes.length := by
  have hadd : ∀ {ε : Type} (a b : ℕ), a ≤ bytes.length + 4 → b ≤ bytes.length + 4 →
      (Outcome.wordAdd bits a b : Outcome ε ℕ).Safe fun c => c = a + b := by
    intro ε a b ha hb'
    exact Outcome.safe_wordAdd (lt_word hbits (by omega))
  rw [documentSequenceAt]
  apply (hadd sectionStart 4 (by omega) (by omega)).bind
  rintro sizeEnd - rfl
  apply Outcome.safe_okOr_bind
  intro sizeBytes hsizeBytes
  obtain ⟨hsizeLen, -, hsizeEnd⟩ := getRange_eq_some hsizeBytes
  apply (Outcome.safe_arrayAt (i := 0) (n := 4) (by omega)).bind
  intro sizeField _ _
  generalize toI32 sizeField = size
  dsimp only
  split_ifs with hsmall
  · exact Outcome.safe_err _ _
  apply (Outcome.safe_wordOfInt (by omega)).bind
  rintro sizeUsize - rfl
  apply Outcome.safe_okOr_bind
  intro payloadEnd hpayload
  obtain ⟨hsum, hle⟩ := Option.filter_eq_some_iff.mp hpayload
  obtain rfl := Outcome.checkedAdd_eq_some hsum
  have hfits : sectionStart + size.toInt.toNat ≤ bytes.length := of_decide_eq_true hle
  apply (hadd sectionStart 4 (by omega) (by omega)).bind
  rintro identStart - rfl
  apply Outcome.safe_okOr_bind
  intro identifierBytes hidentBytes
  obtain ⟨hidentLen, -, -⟩ := getRange_eq_some hidentBytes
  apply Outcome.safe_okOr_bind
  intro identifierCstr hident
  have hcstr := CStr.length_lt_of_untilNul _ _ hident
  apply Outcome.safe_okOr_bind
  intro identifier _
  apply (hadd (sectionStart + 4) identifierCstr.length (by omega) (by omega)).bind
  rintro identNul - rfl
  apply (Outcome.safe_wordAdd (lt_word hbits (by omega))).bind
  rintro identEnd - rfl
  apply Outcome.safe_okOr_bind
  intro docsBytes _
  apply (readDocuments_safe hb docsBytes.length docsBytes 0 (by omega)).bind
  intro documents _ _
  exact Outcome.safe_ok ⟨by simp only; omega, hfits⟩

/-- A round of the section loop moves the cursor on, or stops it with an error. -/
theorem sectionRound_safe (hb : bson.Advances) (hbits : 32 ≤ bits) {bytes : Bytes}
    (hlen : bytes.length ≤ 48 * 1024 * 1024) {pos : ℕ} (hpos : pos < bytes.length) :
    (sectionRound bits bson bytes pos).Safe fun p => pos < p.2 ∧ p.2 ≤ bytes.length := by
  rw [sectionRound]
  apply (Outcome.safe_wordAdd (lt_word hbits (by omega))).bind
  intro minLen _ _
  apply Outcome.safe_okOr_bind
  intro kind _
  apply (Outcome.safe_wordAdd (lt_word (by decide) (by omega))).bind
  rintro sectionStart - rfl
  split_ifs
  · apply (documentRound_safe hb bytes (pos + 1)).bind
    rintro ⟨doc, next⟩ - ⟨hlt, hle⟩
    exact Outcome.safe_ok ⟨by simp only at hlt ⊢; omega, hle⟩
  · refine (documentSequenceAt_safe hb hbits hlen (by omega)).mono ?_
    rintro ⟨s, next⟩ ⟨hlt, hle⟩
    exact ⟨by simp only at hlt ⊢; omega, hle⟩
  · exact Outcome.safe_err _ _

theorem parseSectionsFrom_safe (hb : bson.Advances) (hbits : 32 ≤ bits) {bytes : Bytes}
    (hlen : bytes.length ≤ 48 * 1024 * 1024) (fuel pos : ℕ) (hfuel : bytes.length - pos ≤ fuel) :
    (parseSectionsFrom bits bson fuel bytes pos).Safe fun _ => True := by
  induction fuel generalizing pos with
  | zero =>
    have hend : ¬ pos < bytes.length := by omega
    rw [parseSectionsFrom, if_neg hend]
    trivial
  | succ fuel ih =>
    rw [parseSectionsFrom]
    split_ifs with hpos
    · apply (sectionRound_safe hb hbits hlen hpos).bind
      rintro ⟨s, next⟩ - ⟨hlt, hle⟩
      simp only at hlt hle ⊢
      apply (ih next (by omega)).bind
      intro rest _ _
      trivial
    · trivial

/-! ### The bodies -/

theorem splitChecksum_safe (flags : OperationMessageFlags) (afterFlags : Bytes) :
    (splitChecksum flags afterFlags : Outcome (OperationMessageParseError β) _).Safe fun p =>
      p.1.length ≤ afterFlags.length := by
  rw [splitChecksum]
  split_ifs with hflag hshort
  · exact Outcome.safe_err _ _
  · apply (Outcome.safe_wordSub (by omega)).bind
    rintro bodyLen - rfl
    apply (Outcome.safe_splitAt (Nat.sub_le _ _)).bind
    rintro ⟨body, checksumBytes⟩ - hsplit
    obtain ⟨rfl, rfl⟩ := Prod.mk.inj hsplit
    dsimp only
    apply (Outcome.safe_arrayAt (by rw [List.length_drop]; omega)).bind
    intro checksum _ _
    refine Outcome.safe_ok ?_
    dsimp only
    rw [List.length_take]
    omega
  · exact Outcome.safe_ok (Nat.le_refl _)

theorem messageFromBytes_safe (hb : bson.Advances) (hbits : 32 ≤ bits) {bytes : Bytes}
    (hlen : bytes.length ≤ 48 * 1024 * 1024) :
    (messageFromBytes bits bson bytes).Safe fun _ => True := by
  rw [messageFromBytes]
  split_ifs with hmin
  · exact Outcome.safe_err _ _
  rw [OperationMessage.minLen] at hmin
  apply (Outcome.safe_arrayAt (by omega)).bind
  intro flagBytes _ _
  dsimp only
  split_ifs
  · exact Outcome.safe_err _ _
  apply (Outcome.safe_sliceFrom (by omega)).bind
  rintro afterFlags - rfl
  apply (splitChecksum_safe _ _).bind
  rintro ⟨sectionsBytes, checksum⟩ - hshort
  dsimp only at hshort ⊢
  rw [List.length_drop] at hshort
  apply (parseSectionsFrom_safe hb hbits (by omega) _ 0 (by omega)).bind
  intro sections _ _
  trivial

theorem queryDocuments_safe (bson : BsonCodec β) (reader : Bytes) :
    (queryDocuments bson reader).Safe fun _ => True := by
  rw [queryDocuments]
  apply Outcome.safe_ofResult_bind
  rintro ⟨query, n⟩ -
  dsimp only
  split_ifs
  · apply Outcome.safe_ofResult_bind
    intro _ _
    trivial
  · trivial

theorem queryFromBytes_safe (hbits : 32 ≤ bits) (bson : BsonCodec β) {bytes : Bytes}
    (hlen : bytes.length ≤ 48 * 1024 * 1024) :
    (queryFromBytes bits bson bytes).Safe fun _ => True := by
  rw [queryFromBytes]
  split_ifs with hmin
  · exact Outcome.safe_err _ _
  rw [OperationQuery.minLen] at hmin
  apply (Outcome.safe_arrayAt (by omega)).bind
  intro flagBytes _ _
  apply Outcome.safe_okOr_bind
  intro flags _
  apply (Outcome.safe_sliceFrom (by omega)).bind
  rintro afterFlags - rfl
  apply Outcome.safe_okOr_bind
  intro name hnul
  have hname := CStr.length_lt_of_untilNul _ _ hnul
  rw [List.length_drop] at hname
  apply Outcome.safe_okOr_bind
  intro fullCollectionName _
  apply (Outcome.safe_wordAdd (lt_word hbits (by omega))).bind
  rintro nameEnd - rfl
  apply (Outcome.safe_sliceFrom (by rw [List.length_drop]; omega)).bind
  intro tail _ _
  split_ifs with htail
  · exact Outcome.safe_err _ _
  rw [OperationQuery.tailMin] at htail
  apply (Outcome.safe_arrayAt (by omega)).bind
  intro skipBytes _ _
  apply (Outcome.safe_arrayAt (by omega)).bind
  intro returnBytes _ _
  apply (Outcome.safe_sliceFrom (by omega)).bind
  intro reader _ _
  apply (queryDocuments_safe bson reader).bind
  intro _ _ _
  trivial

/-- A round of the reply's loop moves the cursor on, or stops it with an error. -/
theorem replyDocument_safe (hb : bson.Advances) (n : ℕ) (reader : Bytes) :
    (OperationReply.document bson n reader).Safe fun p => 0 < p.2 ∧ p.2 ≤ reader.length := by
  apply Outcome.safe_ofResult
  intro p hp
  have hge := hb.consumed_ge _ p.1 p.2 hp
  exact ⟨by omega, hb.consumed_le _ p.1 p.2 hp⟩

theorem replyDocuments_safe (hb : bson.Advances) (i count : ℕ) (reader : Bytes) :
    (Items.times (OperationReply.document bson) i count reader).Safe fun _ => True := by
  induction count generalizing i reader with
  | zero => trivial
  | succ count ih =>
    rw [Items.times]
    apply (replyDocument_safe hb i reader).bind
    rintro ⟨doc, n⟩ - -
    apply (ih (i + 1) (reader.drop n)).bind
    intro _ _ _
    trivial

theorem replyFromBytes_safe (hb : bson.Advances) (bytes : Bytes) :
    (replyFromBytes bson bytes).Safe fun _ => True := by
  rw [replyFromBytes]
  split_ifs with hmin
  · exact Outcome.safe_err _ _
  have hfields : 20 ≤ bytes.length := by
    rw [OperationReply.minLen] at hmin
    omega
  apply (Outcome.safe_arrayAt (by omega)).bind
  intro flagBytes _ _
  apply Outcome.safe_okOr_bind
  intro flags _
  apply (Outcome.safe_arrayAt (by omega)).bind
  intro cursorBytes _ _
  apply (Outcome.safe_arrayAt (by omega)).bind
  intro startBytes _ _
  apply (Outcome.safe_arrayAt (by omega)).bind
  intro countBytes _ _
  apply (Outcome.safe_sliceFrom (Nat.not_lt.mp hmin)).bind
  intro reader _ _
  apply (Outcome.safe_wordOfInt (le_max_right _ _)).bind
  intro count _ _
  apply (replyDocuments_safe hb 0 count reader).bind
  intro documents _ _
  trivial

/-! ### The frame -/

theorem operationFromBytes_safe (hb : bson.Advances) (hbits : 32 ≤ bits) (opCode : OPCode)
    {bytes : Bytes} (hlen : bytes.length ≤ 48 * 1024 * 1024) :
    (operationFromBytes bits bson opCode bytes).Safe fun _ => True := by
  cases opCode with
  | msg =>
    apply ((messageFromBytes_safe hb hbits hlen).mapErr _).bind
    intro m _ _
    trivial
  | query =>
    apply ((queryFromBytes_safe hbits bson hlen).mapErr _).bind
    intro q _ _
    trivial
  | reply =>
    apply ((replyFromBytes_safe hb bytes).mapErr _).bind
    intro r _ _
    trivial

theorem fromHeadersAndBytes_safe (hb : bson.Advances) (hbits : 32 ≤ bits) (header : MessageHeader)
    {bytes : Bytes} (hlen : bytes.length ≤ 48 * 1024 * 1024) :
    (fromHeadersAndBytes bits bson header bytes).Safe fun _ => True := by
  rw [fromHeadersAndBytes]
  split_ifs with hshort
  · exact Outcome.safe_err _ _
  have hge := header.messageLength.asUsize_ge
  apply (Outcome.safe_sliceFrom (i := MessageHeader.size) (by
    rw [MessageHeader.size]
    omega)).bind
  intro body _ hbody
  have hle : body.length ≤ 48 * 1024 * 1024 := by
    rw [hbody, List.length_drop]
    omega
  apply ((operationFromBytes_safe hb hbits header.opCode hle).mapErr _).bind
  intro operation _ _
  trivial

/- A frame is no longer than the longest message. -/
theorem length_frame_le (header : MessageHeader) (buf : Bytes) :
    (buf.take header.messageLength.asUsize).length ≤ 48 * 1024 * 1024 := by
  have hmax := header.messageLength.asUsize_le
  rw [List.length_take]
  omega

theorem header_safe (buf : Bytes) : (MessageHeader.fromBytes buf).Safe fun _ => True := by
  by_cases hsize : buf.length < MessageHeader.size
  · rw [MessageHeader.fromBytes_of_lt buf hsize]
    exact Outcome.safe_err _ _
  · rw [MessageHeader.fromBytes_of_le buf (Nat.not_lt.mp hsize), MessageHeader.ofFields]
    apply Outcome.safe_ofResult_bind
    intro messageLength _
    apply Outcome.safe_ofResult_bind
    intro opCode _
    trivial

theorem peekHeader_safe (d : WireDecoder) (buf : Bytes) :
    (d.peekHeader buf : Outcome (WireDecoderError β) _).Safe fun _ => True := by
  rw [WireDecoder.peekHeader]
  cases d.nextHeader with
  | some header => trivial
  | none =>
    have hheader := header_safe buf
    cases hread : MessageHeader.fromBytes buf with
    | ok header => trivial
    | error e =>
      rw [hread] at hheader
      rcases e with (len | e | e) | - | -
      · trivial
      · trivial
      · trivial
      · exact hheader
      · exact hheader

/-- The decoder neither panics nor hangs. -/
theorem decode_safe (hb : bson.Advances) (hbits : 32 ≤ bits) (d : WireDecoder) (buf : Bytes) :
    Outcome.Safe (decode bits bson d buf).1 fun _ => True := by
  have hpeek := peekHeader_safe (β := β) d buf
  cases hd : (d.peekHeader buf : Outcome (WireDecoderError β) _) with
  | error e =>
    rw [hd] at hpeek
    simp only [decode, hd]
    rcases e with e | - | -
    · trivial
    · exact hpeek
    · exact hpeek
  | ok d' =>
    cases hnext : d'.nextHeader with
    | none =>
      simp only [decode, hd, hnext]
      trivial
    | some header =>
      simp only [decode, hd, hnext]
      split_ifs with hshort
      · trivial
      · have hle : header.messageLength.asUsize ≤ buf.length := Nat.not_lt.mp hshort
        have hframe := length_frame_le header buf
        rw [Outcome.splitAt_eq buf _ hle]
        exact ((fromHeadersAndBytes_safe hb hbits header hframe).mapErr _).bind
          fun _ _ _ => Outcome.safe_ok trivial

/-! ### The decoder is the one of the development -/

theorem documentSequenceAt_covers (hbits : 32 ≤ bits) (bson : BsonCodec β) (bytes : Bytes)
    {sectionStart : ℕ} (hstart : sectionStart ≤ 48 * 1024 * 1024) :
    (documentSequenceAt bits bson bytes sectionStart).Covers
      (MongodProxy.documentSequenceAt bson bytes sectionStart) := by
  rw [documentSequenceAt, MongodProxy.documentSequenceAt]
  apply Outcome.Covers.wordAdd
  apply Outcome.Covers.bind_same
  intro sizeBytes _
  apply Outcome.Covers.bind_same
  intro sizeField _
  dsimp only
  have hsize := (toI32 sizeField).toInt_lt
  generalize toI32 sizeField = size at hsize ⊢
  split_ifs
  · exact .refl _
  apply Outcome.Covers.wordOfInt
  rw [Outcome.checkedAdd_of_lt (lt_word hbits (by omega))]
  apply Outcome.Covers.bind_same
  intro payloadEnd _
  apply Outcome.Covers.wordAdd
  apply Outcome.Covers.bind_same
  intro identifierBytes _
  apply Outcome.Covers.bind_same
  intro identifierCstr _
  apply Outcome.Covers.bind_same
  intro identifier _
  apply Outcome.Covers.wordAdd
  apply Outcome.Covers.wordAdd
  exact .refl _

theorem parseSectionsFrom_covers (hbits : 32 ≤ bits) (bson : BsonCodec β) {bytes : Bytes}
    (hlen : bytes.length ≤ 48 * 1024 * 1024) (fuel pos : ℕ) :
    (parseSectionsFrom bits bson fuel bytes pos).Covers
      (MongodProxy.parseSectionsFrom bson fuel bytes pos) := by
  induction fuel generalizing pos with
  | zero => exact .refl _
  | succ fuel ih =>
    rw [parseSectionsFrom, MongodProxy.parseSectionsFrom]
    split_ifs with hpos
    · rw [sectionRound]
      simp only [bind_assoc]
      apply Outcome.Covers.wordAdd
      apply Outcome.Covers.bind_same
      intro kind _
      apply Outcome.Covers.wordAdd
      split_ifs
      · simp only [documentRound, bind_assoc]
        apply Outcome.Covers.bind_same
        rintro ⟨doc, n⟩ _
        exact (ih (pos + 1 + n)).bind fun rest _ => .refl _
      · apply (documentSequenceAt_covers hbits bson bytes (by omega)).bind
        rintro ⟨s, next⟩ _
        exact (ih next).bind fun rest _ => .refl _
      · exact .refl _
    · exact .refl _

theorem messageFromBytes_covers (hbits : 32 ≤ bits) (bson : BsonCodec β) {bytes : Bytes}
    (hlen : bytes.length ≤ 48 * 1024 * 1024) :
    (messageFromBytes bits bson bytes).Covers (OperationMessage.fromBytes bson bytes) := by
  rw [messageFromBytes, OperationMessage.fromBytes]
  dsimp only
  split_ifs with hmin
  · exact .refl _
  apply Outcome.Covers.bind_same
  intro flagBytes _
  by_cases hunknown : unknownRequired (toU32 flagBytes) ≠ 0
  · rw [if_pos hunknown, if_pos hunknown]
    exact .refl _
  rw [if_neg hunknown, if_neg hunknown]
  apply Outcome.Covers.bind_same
  intro afterFlags hafter
  have hmin' : 4 ≤ bytes.length := by
    rw [OperationMessage.minLen] at hmin
    omega
  have hdrop : afterFlags = bytes.drop 4 := (Outcome.safe_sliceFrom hmin').of_eq_ok hafter
  have hsections : ∀ sectionsBytes : Bytes, sectionsBytes.length ≤ afterFlags.length →
      (parseSectionsFrom bits bson sectionsBytes.length sectionsBytes 0).Covers
        (parseSections bson sectionsBytes) := by
    intro sectionsBytes hle
    rw [hdrop, List.length_drop] at hle
    exact parseSectionsFrom_covers hbits bson (by omega) sectionsBytes.length 0
  rw [splitChecksum]
  split_ifs with hflag
  · exact .refl _
  · simp only [bind_assoc]
    apply Outcome.Covers.wordSub
    apply Outcome.Covers.bind_same
    rintro ⟨body, checksumBytes⟩ hsplit
    have hbody : body = afterFlags.take (afterFlags.length - 4) :=
      (Prod.mk.inj ((Outcome.safe_splitAt (Nat.sub_le _ _)).of_eq_ok hsplit)).1
    apply Outcome.Covers.bind_same
    intro checksum _
    apply (hsections body (by rw [hbody]; exact List.length_take_le' _ _)).bind
    intro sections _
    exact .refl _
  · apply (hsections afterFlags (Nat.le_refl _)).bind
    intro sections _
    exact .refl _

theorem queryFromBytes_covers (bits : ℕ) (bson : BsonCodec β) (bytes : Bytes) :
    (queryFromBytes bits bson bytes).Covers (OperationQuery.fromBytes bson bytes) := by
  rw [queryFromBytes, OperationQuery.fromBytes]
  dsimp only
  split_ifs with hmin
  · exact .refl _
  apply Outcome.Covers.bind_same
  intro flagBytes _
  apply Outcome.Covers.bind_same
  intro flags _
  apply Outcome.Covers.bind_same
  intro afterFlags _
  apply Outcome.Covers.bind_same
  intro name _
  apply Outcome.Covers.bind_same
  intro fullCollectionName _
  apply Outcome.Covers.wordAdd
  apply Outcome.Covers.bind_same
  intro tail _
  split_ifs
  · exact .refl _
  apply Outcome.Covers.bind_same
  intro skipBytes _
  apply Outcome.Covers.bind_same
  intro returnBytes _
  apply Outcome.Covers.bind_same
  intro reader _
  rw [queryDocuments]
  simp only [bind_assoc]
  apply Outcome.Covers.bind_same
  rintro ⟨query, n⟩ _
  dsimp only
  split_ifs
  · simp only [bind_assoc]
    exact .refl _
  · exact .refl _

theorem replyFromBytes_covers (bson : BsonCodec β) (bytes : Bytes) :
    (replyFromBytes bson bytes).Covers (OperationReply.fromBytes bson bytes) := by
  rw [replyFromBytes, OperationReply.fromBytes]
  dsimp only
  split_ifs with hmin
  · exact .refl _
  apply Outcome.Covers.bind_same
  intro flagBytes _
  apply Outcome.Covers.bind_same
  intro flags _
  apply Outcome.Covers.bind_same
  intro cursorBytes _
  apply Outcome.Covers.bind_same
  intro startBytes _
  apply Outcome.Covers.bind_same
  intro countBytes _
  apply Outcome.Covers.bind_same
  intro reader _
  apply Outcome.Covers.wordOfInt
  have hcount : (max (toI32 countBytes).toInt 0).toNat =
      OperationReply.numDocs (toI32 countBytes) := by
    rw [OperationReply.numDocs]
    omega
  rw [hcount]
  exact .refl _

theorem operationFromBytes_covers (hbits : 32 ≤ bits) (bson : BsonCodec β) (opCode : OPCode)
    {bytes : Bytes} (hlen : bytes.length ≤ 48 * 1024 * 1024) :
    (operationFromBytes bits bson opCode bytes).Covers (Operation.fromBytes bson opCode bytes) := by
  cases opCode with
  | msg =>
    exact ((messageFromBytes_covers hbits bson hlen).mapErr _).bind fun _ _ => .refl _
  | query => exact ((queryFromBytes_covers bits bson bytes).mapErr _).bind fun _ _ => .refl _
  | reply => exact ((replyFromBytes_covers bson bytes).mapErr _).bind fun _ _ => .refl _

theorem fromHeadersAndBytes_covers (hbits : 32 ≤ bits) (bson : BsonCodec β)
    (header : MessageHeader) {bytes : Bytes} (hlen : bytes.length ≤ 48 * 1024 * 1024) :
    (fromHeadersAndBytes bits bson header bytes).Covers
      (Message.fromHeadersAndBytes bson header bytes) := by
  rw [fromHeadersAndBytes, Message.fromHeadersAndBytes]
  split_ifs with hshort
  · exact .refl _
  have hge := header.messageLength.asUsize_ge
  have hsize : MessageHeader.size ≤ bytes.length := by
    rw [MessageHeader.size]
    omega
  apply Outcome.Covers.bind_same
  intro body hbody
  have hle : body.length ≤ 48 * 1024 * 1024 := by
    rw [(Outcome.safe_sliceFrom hsize).of_eq_ok hbody, List.length_drop]
    omega
  exact ((operationFromBytes_covers hbits bson header.opCode hle).mapErr _).bind fun _ _ => .refl _

/-- With all its checks the decoder computes what it does without them. -/
theorem decode_eq (hb : bson.Advances) (hbits : 32 ≤ bits) (d : WireDecoder) (buf : Bytes) :
    decode bits bson d buf = WireDecoder.decode bson d buf := by
  cases hd : (d.peekHeader buf : Outcome (WireDecoderError β) _) with
  | error e => simp only [decode, WireDecoder.decode, hd]
  | ok d' =>
    cases hnext : d'.nextHeader with
    | none => simp only [decode, WireDecoder.decode, hd, hnext]
    | some header =>
      simp only [decode, WireDecoder.decode, hd, hnext]
      split_ifs with hshort
      · rfl
      · have hframe := length_frame_le header buf
        have hmessage : fromHeadersAndBytes bits bson header
            (buf.take header.messageLength.asUsize) =
              Message.fromHeadersAndBytes bson header (buf.take header.messageLength.asUsize) :=
          (fromHeadersAndBytes_covers hbits bson header hframe).eq
            (fromHeadersAndBytes_safe hb hbits header hframe)
        rw [Outcome.splitAt_eq buf _ (Nat.not_lt.mp hshort)]
        simp only [hmessage]

end Safe

/-- No bytes from a peer make the decoder panic or run on: every offset fits its word, every index,
slice and split is in range, the loops move their cursors on or stop with an error, and however
many documents a reply announces no more rounds succeed than there are bytes. -/
theorem decode_never_panics_or_hangs (hb : bson.Advances) (hbits : 32 ≤ bits) (d : WireDecoder)
    (buf : Bytes) :
    (decode bits bson d buf).1 ≠ .error .panic ∧ (decode bits bson d buf).1 ≠ .error .hang ∧
      decode bits bson d buf = WireDecoder.decode bson d buf ∧
      (∀ docs pos, (documentRound bson docs pos).Safe fun p => pos < p.2 ∧ p.2 ≤ docs.length) ∧
      (∀ bytes pos, bytes.length ≤ 48 * 1024 * 1024 → pos < bytes.length →
        (sectionRound bits bson bytes pos).Safe fun p => pos < p.2 ∧ p.2 ≤ bytes.length) ∧
      (∀ n reader, (OperationReply.document bson n reader).Safe fun p =>
        0 < p.2 ∧ p.2 ≤ reader.length) ∧
      ∀ (numberReturned : Int32) (reader : Bytes),
        (Items.timesCounted (OperationReply.document bson) 0
            (OperationReply.numDocs numberReturned) reader).1 =
          Items.times (OperationReply.document bson) 0 (OperationReply.numDocs numberReturned)
            reader ∧
        (Items.timesCounted (OperationReply.document bson) 0
          (OperationReply.numDocs numberReturned) reader).2 ≤ reader.length := by
  have hsafe := decode_safe hb hbits d buf
  refine ⟨?_, ?_, decode_eq hb hbits d buf, documentRound_safe hb, ?_, replyDocument_safe hb, ?_⟩
  · intro hpanic
    rw [hpanic] at hsafe
    exact hsafe
  · intro hhang
    rw [hhang] at hsafe
    exact hsafe
  · intro bytes pos hlen hpos
    exact sectionRound_safe hb hbits hlen hpos
  · intro numberReturned reader
    refine ⟨Items.timesCounted_fst _ _ _ _, ?_⟩
    apply Items.timesCounted_snd_le
    intro i bs doc n hread
    exact (replyDocument_safe hb i bs).of_eq_ok hread

/- A reply that announces `i32::MAX` documents and has one. -/
def boastfulReply : Bytes :=
  [41, 0, 0, 0, 1, 0, 0, 0, 0, 0, 0, 0, 1, 0, 0, 0] ++ [0, 0, 0, 0] ++
    [0, 0, 0, 0, 0, 0, 0, 0] ++ [0, 0, 0, 0] ++ [0xFF, 0xFF, 0xFF, 0x7F] ++ [5, 0, 0, 0, 0]

theorem decode_boastfulReply_ends :
    BsonCodec.emptyOnly.Advances ∧ 32 ≤ 64 ∧
      (decode 64 BsonCodec.emptyOnly .default boastfulReply).1 ≠ .error .panic ∧
      (decode 64 BsonCodec.emptyOnly .default boastfulReply).1 ≠ .error .hang ∧
      (Items.timesCounted (OperationReply.document BsonCodec.emptyOnly) 0
        (OperationReply.numDocs 0x7FFFFFFF) [5, 0, 0, 0, 0]).2 ≤ 5 :=
  have hends := decode_never_panics_or_hangs 64 BsonCodec.emptyOnly
    BsonCodec.emptyOnly_delimited.advances (by decide) .default boastfulReply
  ⟨BsonCodec.emptyOnly_delimited.advances, by decide, hends.1, hends.2.1,
    (hends.2.2.2.2.2.2 0x7FFFFFFF [5, 0, 0, 0, 0]).2⟩

end Checked

end MongodProxy
