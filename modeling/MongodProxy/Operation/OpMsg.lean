import MongodProxy.Bson
import MongodProxy.Header
import MongodProxy.Lib.Bitflags
import MongodProxy.Lib.Put

/-!
# OP_MSG (operation/op_msg.rs)

The body of a modern message: a flag word, a sequence of sections (kind 0 is a
single document, kind 1 a named, size-prefixed sequence of documents) and an
optional trailing checksum. `fromBytes` and `parseSections` follow the source's
cursors; `OpMsgGrammar.sections` is the same parser over the bytes that are
left, which is the form the proofs use.
-/

namespace MongodProxy
open LittleEndian

/-! ### Data -/

structure OperationMessageFlags where
  bits : UInt32
  deriving DecidableEq, Repr

namespace OperationMessageFlags

def checksumPresent : OperationMessageFlags := ⟨0x00000001⟩

def moreToCome : OperationMessageFlags := ⟨0x00000002⟩

def exhaustAllowed : OperationMessageFlags := ⟨0x00010000⟩

def empty : OperationMessageFlags := ⟨0⟩

def all : OperationMessageFlags :=
  ⟨checksumPresent.bits ||| moreToCome.bits ||| exhaustAllowed.bits⟩

def contains (f g : OperationMessageFlags) : Bool := Bitflags.contains f.bits g.bits

def set (f g : OperationMessageFlags) (on : Bool) : OperationMessageFlags :=
  ⟨Bitflags.set f.bits g.bits on⟩

def fromBitsTruncate (raw : UInt32) : OperationMessageFlags := ⟨Bitflags.truncate all.bits raw⟩

def Named (f : OperationMessageFlags) : Prop := Bitflags.Named all.bits f.bits

instance (f : OperationMessageFlags) : Decidable f.Named :=
  inferInstanceAs (Decidable (Bitflags.Named _ _))

end OperationMessageFlags

def requiredBitsMask : UInt32 := 0x0000FFFF

/-- The required bits of a flag word that no named flag explains. -/
def unknownRequired (rawFlags : UInt32) : UInt32 :=
  (rawFlags &&& requiredBitsMask) &&& ~~~OperationMessageFlags.all.bits

theorem unknownRequired_of_named {flags : OperationMessageFlags} (h : flags.Named) :
    unknownRequired flags.bits = 0 := by
  apply Bitflags.ext_bit
  intro i hi
  have hle := h.bit_le i hi
  simp only [unknownRequired, Bitflags.bit_and, Bitflags.bit_not _ i hi, Bitflags.bit_zero]
  cases hx : Bitflags.bit flags.bits i with
  | false => rfl
  | true => simp [hle hx]

inductive OpMsgSection where
  | body (doc : Document)
  | documentSequence (identifier : String) (documents : List Document)

/-- `OpMsgSection::as_body` and `into_body`. -/
def OpMsgSection.asBody : OpMsgSection → Option Document
  | .body doc => some doc
  | .documentSequence _ _ => none

@[ext]
structure OperationMessage where
  flags : OperationMessageFlags
  sections : List OpMsgSection
  checksum : Option UInt32

inductive OperationMessageParseError (β : Type) where
  | notEnoughBytes (actual min : ℕ)
  | unknownRequiredBits (bits : UInt32)
  | invalidKind (kind : UInt8)
  | missingChecksum
  | invalidDocumentSequenceSize (size : Int32)
  | documentSequenceIdentifierMissingNul
  /-- `Utf8Error` is a function of the offending bytes, which stand for it. -/
  | documentSequenceIdentifierNotUtf8 (bytes : Bytes)
  | invalidBson (e : β)

inductive OperationMessageWriteError (β : Type) where
  | serializeError (e : β)
  | identifierContainsNullByte (e : CStr.NulError)
  | sectionTooLarge (size : ℕ)
  | messageTooLarge (size : ℕ)

variable {β : Type} (bson : BsonCodec β)

/-! ### Parsing -/

/-- The document loop of a kind-1 section: from `pos` to the end of `docs`.
`fuel` bounds the number of rounds. -/
def readDocuments : ℕ → Bytes → ℕ → Outcome (OperationMessageParseError β) (List Document)
  | 0, docs, pos => if pos < docs.length then .error .hang else .ok []
  | fuel + 1, docs, pos =>
    if pos < docs.length then do
      let (doc, n) ← Outcome.ofResult .invalidBson (bson.fromReader (docs.drop pos))
      let documents ← readDocuments fuel docs (pos + n)
      pure (doc :: documents)
    else .ok []

/-- The kind-1 branch of `parse_sections`, with the cursor after the kind byte:
the section and the cursor after it. -/
def documentSequenceAt (bytes : Bytes) (sectionStart : ℕ) :
    Outcome (OperationMessageParseError β) (OpMsgSection × ℕ) := do
  let sizeBytes ← Outcome.okOr (.invalidDocumentSequenceSize 0)
    (Outcome.getRange bytes sectionStart (sectionStart + 4))
  let size := toI32 (← Outcome.arrayAt sizeBytes 0 4)
  if size.toInt < 5 then
    Outcome.err (.invalidDocumentSequenceSize size)
  else
    -- `checked_add` cannot overflow: a slice is shorter than 2^63 and the size than 2^31
    let payloadEnd ← Outcome.okOr (.invalidDocumentSequenceSize size)
      ((some (sectionStart + size.toInt.toNat)).filter fun e => e ≤ bytes.length)
    let identStart := sectionStart + 4
    let identifierBytes ← Outcome.okOr (.invalidDocumentSequenceSize size)
      (Outcome.getRange bytes identStart payloadEnd)
    let identifierCstr ← Outcome.okOr .documentSequenceIdentifierMissingNul
      (CStr.untilNul identifierBytes)
    let identifier ← Outcome.okOr (.documentSequenceIdentifierNotUtf8 identifierCstr)
      (Text.ofUtf8 identifierCstr)
    let identEnd := identStart + identifierCstr.length + 1
    -- the documents are read from a sub-slice that ends with the section
    let docsBytes ← Outcome.okOr (.invalidDocumentSequenceSize size)
      (Outcome.getRange bytes identEnd payloadEnd)
    let documents ← readDocuments bson docsBytes.length docsBytes 0
    pure (.documentSequence identifier documents, payloadEnd)

/-- The section loop of `parse_sections`, with the cursor at `pos`. -/
def parseSectionsFrom : ℕ → Bytes → ℕ →
    Outcome (OperationMessageParseError β) (List OpMsgSection)
  | 0, bytes, pos => if pos < bytes.length then .error .hang else .ok []
  | fuel + 1, bytes, pos =>
    if pos < bytes.length then do
      let kind ← Outcome.okOr (.notEnoughBytes bytes.length (pos + 1)) bytes[pos]?
      if kind = 0 then
        let (doc, n) ← Outcome.ofResult .invalidBson (bson.fromReader (bytes.drop (pos + 1)))
        let rest ← parseSectionsFrom fuel bytes (pos + 1 + n)
        pure (.body doc :: rest)
      else if kind = 1 then
        let (s, payloadEnd) ← documentSequenceAt bson bytes (pos + 1)
        let rest ← parseSectionsFrom fuel bytes payloadEnd
        pure (s :: rest)
      else
        Outcome.err (.invalidKind kind)
    else .ok []

/-- `parse_sections`. A round consumes at least the kind byte. -/
def parseSections (bytes : Bytes) : Outcome (OperationMessageParseError β) (List OpMsgSection) :=
  parseSectionsFrom bson bytes.length bytes 0

namespace OperationMessage

/-- `OperationMessage::min_len`: flag word and first kind byte. -/
def minLen : ℕ := 5

/-- `OperationMessage::command_name`: the first key of the first body section. -/
def commandName (m : OperationMessage) : Option String :=
  (m.sections.findSome? OpMsgSection.asBody).bind fun d => d.keys.head?

/-- `OperationMessage::from_bytes`; `bytes` is the body, without the header. -/
def fromBytes (bytes : Bytes) : Outcome (OperationMessageParseError β) OperationMessage := do
  let actualLen := bytes.length
  if actualLen < minLen then
    Outcome.err (.notEnoughBytes actualLen minLen)
  else
    let rawFlags := toU32 (← Outcome.arrayAt bytes 0 4)
    if unknownRequired rawFlags ≠ 0 then
      Outcome.err (.unknownRequiredBits (unknownRequired rawFlags))
    else
      let flags := OperationMessageFlags.fromBitsTruncate rawFlags
      let afterFlags ← Outcome.sliceFrom bytes 4
      let (sectionsBytes, checksum) ←
        if flags.contains .checksumPresent then do
          if afterFlags.length < 4 then
            Outcome.err .missingChecksum
          else
            let bodyLen := afterFlags.length - 4
            let (body, checksumBytes) ← Outcome.splitAt afterFlags bodyLen
            let checksum := toU32 (← Outcome.arrayAt checksumBytes 0 4)
            pure (body, some checksum)
        else pure (afterFlags, none)
      let sections ← parseSections bson sectionsBytes
      pure { flags, sections, checksum }

end OperationMessage

/-! ### Writing -/

/-- `write_section`: the bytes appended to the scratch buffer. -/
def writeSection : OpMsgSection → Except (OperationMessageWriteError β) Bytes
  | .body doc => do
    let w ← (bson.toWriter doc).mapError .serializeError
    pure (0 :: w)
  | .documentSequence identifier documents => do
    let identifierBytes ← (CStr.withNul (Text.utf8 identifier)).mapError
      .identifierContainsNullByte
    let docsBytes ← (writeDocuments bson documents).mapError .serializeError
    let sectionSize := 4 + identifierBytes.length + docsBytes.length
    match i32OfNat sectionSize with
    | none => .error (.sectionTooLarge sectionSize)
    | some size => pure (1 :: (ofI32 size ++ (identifierBytes ++ docsBytes)))

def writeSections : List OpMsgSection → Except (OperationMessageWriteError β) Bytes :=
  Items.writeAll (writeSection bson)

namespace OperationMessage

/-- The trailing checksum, if there is one. -/
def checksumBytes (m : OperationMessage) : Bytes :=
  match m.checksum with
  | some checksum => ofU32 checksum
  | none => []

def writeBytes (m : OperationMessage) (requestId : RequestId) (responseTo : Option ResponseTo) :
    Put (OperationMessageWriteError β) Unit := do
  let sectionsBytes ← Put.lift (writeSections bson m.sections)
  let flags := m.flags.set .checksumPresent m.checksum.isSome
  let checksumLen := if m.checksum.isSome then 4 else 0
  let messageLength := MessageHeader.size + 4 + sectionsBytes.length + checksumLen
  let messageLength ← Put.lift (messageLengthOf .messageTooLarge messageLength)
  let header : MessageHeader := { messageLength, opCode := .msg, requestId, responseTo }
  Put.put header.writeBytes
  Put.put (ofU32 flags.bits)
  Put.put sectionsBytes
  Put.put m.checksumBytes

def frame (m : OperationMessage) (requestId : RequestId) (responseTo : Option ResponseTo) :
    Except (OperationMessageWriteError β) Bytes := do
  let sectionsBytes ← writeSections bson m.sections
  let body := ofU32 (m.flags.set .checksumPresent m.checksum.isSome).bits ++
    (sectionsBytes ++ m.checksumBytes)
  let messageLength ← messageLengthOf .messageTooLarge (MessageHeader.size + body.length)
  pure ((MessageHeader.mk messageLength requestId responseTo .msg).writeBytes ++ body)

theorem checksumBytes_length (m : OperationMessage) :
    m.checksumBytes.length = if m.checksum.isSome then 4 else 0 := by
  cases h : m.checksum with
  | none => simp [checksumBytes, h]
  | some c => simp [checksumBytes, h]

theorem writeBytes_appends (m : OperationMessage) (requestId : RequestId)
    (responseTo : Option ResponseTo) :
    (m.writeBytes bson requestId responseTo).Appends (m.frame bson requestId responseTo) := by
  apply Put.Appends.lift_bind
  intro sectionsBytes
  have hlen : MessageHeader.size + 4 + sectionsBytes.length
      + (if m.checksum.isSome then 4 else 0)
      = MessageHeader.size + (ofU32 (m.flags.set .checksumPresent m.checksum.isSome).bits ++
        (sectionsBytes ++ m.checksumBytes)).length := by
    simp only [List.length_append, ofU32_length, checksumBytes_length]
    omega
  simp only [hlen]
  apply Put.Appends.lift_bind
  intro messageLength dst
  simp only [Put.exec_bind, Put.exec_put, Except.pure, pure, List.append_assoc]

end OperationMessage

end MongodProxy
