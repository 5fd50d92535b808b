import MongodProxy.Lib.Outcome
import MongodProxy.Lib.LittleEndian

/-!
# The message header (ids.rs, op_code.rs, header.rs)

The 16 bytes in front of every frame, little-endian throughout:
`message_length`, `request_id`, `response_to`, `op_code`. The length is a type
of its own that holds only values of the wire envelope, and `response_to` is
absent exactly when the field on the wire is zero.
-/

namespace MongodProxy
open LittleEndian

/-! ### Identifiers (ids.rs) -/

structure RequestId where
  val : Int32
  deriving DecidableEq, Repr

/-- `ResponseTo`: a `NonZeroI32`. -/
structure ResponseTo where
  val : Int32
  nonzero : val ≠ 0
  deriving DecidableEq, Repr

/- The id that the concrete frames of the development answer to. -/
theorem ResponseTo.seven_ne_zero : (7 : Int32) ≠ 0 := by decide

/-- `NonZeroI32::new` followed by `ResponseTo::new`. -/
def ResponseTo.new (n : Int32) : Option ResponseTo :=
  if h : n ≠ 0 then some ⟨n, h⟩ else none

/-- The field on the wire: zero stands for no id. -/
def ResponseTo.field (r : Option ResponseTo) : Int32 :=
  match r with
  | some r => r.val
  | none => 0

@[simp] theorem ResponseTo.new_field (r : Option ResponseTo) : ResponseTo.new (field r) = r := by
  cases r with
  | none => simp [field, new]
  | some r => simp [field, new, r.nonzero]

@[simp] theorem ResponseTo.field_new (n : Int32) : field (ResponseTo.new n) = n := by
  by_cases h : n = 0
  · simp [field, new, h]
  · simp [field, new, h]

/-- The predicate of `MessageLength`: `16..=48 * 1024 * 1024`. -/
def inEnvelope (n : Int32) : Prop := 16 ≤ n.toInt ∧ n.toInt ≤ 48 * 1024 * 1024

instance (n : Int32) : Decidable (inEnvelope n) := inferInstanceAs (Decidable (_ ∧ _))

/-- `MessageLength`: the total length of a frame, header included. -/
structure MessageLength where
  val : Int32
  valid : inEnvelope val
  deriving DecidableEq, Repr

inductive MessageLengthError where
  | predicateViolated
  deriving DecidableEq, Repr

def MessageLength.tryNew (n : Int32) : Except MessageLengthError MessageLength :=
  if h : inEnvelope n then .ok ⟨n, h⟩ else .error .predicateViolated

/-- `MessageLength::as_usize`; the conversion cannot fail on a valid length. -/
def MessageLength.asUsize (l : MessageLength) : ℕ := l.val.toInt.toNat

theorem MessageLength.asUsize_ge (l : MessageLength) : 16 ≤ l.asUsize := by
  have h := l.valid.1
  simp only [asUsize]
  omega

theorem MessageLength.asUsize_le (l : MessageLength) : l.asUsize ≤ 48 * 1024 * 1024 := by
  have h := l.valid.2
  simp only [asUsize]
  omega

theorem MessageLength.asUsize_inj {l l' : MessageLength} (h : l.asUsize = l'.asUsize) : l = l' := by
  have hl := l.valid.1
  have hl' := l'.valid.1
  simp only [asUsize] at h
  have hval : l.val = l'.val := Int32.toInt_inj.mp (by omega)
  cases l
  cases l'
  simpa using hval

theorem MessageLength.tryNew_val (l : MessageLength) : tryNew l.val = .ok l := by
  simp only [tryNew, dif_pos l.valid]

theorem MessageLength.tryNew_eq_ok (n : Int32) (l : MessageLength) (h : tryNew n = .ok l) :
    l.val = n := by
  simp only [tryNew] at h
  split at h
  · rw [← Except.ok.inj h]
  · cases h

/-- The length field the three writers compute: `i32::try_from` and then
`MessageLength::try_new`, both failures reported as `tooLarge`. -/
def messageLengthOf {ε : Type} (tooLarge : ℕ → ε) (n : ℕ) : Except ε MessageLength :=
  match i32OfNat n with
  | none => .error (tooLarge n)
  | some len => (MessageLength.tryNew len).mapError fun _ => tooLarge n

theorem messageLengthOf_eq_ok {ε : Type} (tooLarge : ℕ → ε) (n : ℕ) (l : MessageLength)
    (h : messageLengthOf tooLarge n = .ok l) : l.asUsize = n := by
  unfold messageLengthOf at h
  cases hn : i32OfNat n with
  | none => rw [hn] at h; cases h
  | some len =>
    rw [hn] at h
    cases hl : MessageLength.tryNew len with
    | error e => simp only [hl] at h; cases h
    | ok l' =>
      simp only [hl] at h
      rw [← Except.ok.inj h, MessageLength.asUsize, MessageLength.tryNew_eq_ok _ _ hl,
        i32OfNat_eq_some _ _ hn]
      exact Int.toNat_natCast n

theorem messageLengthOf_asUsize {ε : Type} (tooLarge : ℕ → ε) (l : MessageLength) :
    messageLengthOf tooLarge l.asUsize = .ok l := by
  have hge := l.valid.1
  simp only [messageLengthOf, MessageLength.asUsize, i32OfNat_toNat l.val (by omega),
    MessageLength.tryNew_val, Except.mapError]

/-! ### Opcodes (op_code.rs) -/

inductive OPCode where
  | msg
  | query
  | reply
  deriving DecidableEq, Repr

inductive OPCodeParseError where
  | unsupportedOpCode (code : Int32)
  deriving DecidableEq, Repr

def OPCode.toLeBytes : OPCode → Bytes
  | .reply => ofI32 1
  | .query => ofI32 2004
  | .msg => ofI32 2013

def OPCode.fromLeBytes (bytes : Bytes) : Except OPCodeParseError OPCode :=
  if bytes = OPCode.msg.toLeBytes then .ok .msg
  else if bytes = OPCode.query.toLeBytes then .ok .query
  else if bytes = OPCode.reply.toLeBytes then .ok .reply
  else .error (.unsupportedOpCode (toI32 bytes))

@[simp] theorem OPCode.toLeBytes_length (c : OPCode) : c.toLeBytes.length = 4 := by
  cases c <;> rfl

theorem OPCode.fromLeBytes_toLeBytes (c : OPCode) : fromLeBytes c.toLeBytes = .ok c := by
  cases c <;> rfl

theorem OPCode.fromLeBytes_eq_ok (bytes : Bytes) (c : OPCode) (h : fromLeBytes bytes = .ok c) :
    c.toLeBytes = bytes := by
  simp only [fromLeBytes] at h
  split_ifs at h with hm hq hr
  · rw [← Except.ok.inj h, hm]
  · rw [← Except.ok.inj h, hq]
  · rw [← Except.ok.inj h, hr]

/-! ### Header (header.rs) -/

structure MessageHeader where
  messageLength : MessageLength
  requestId : RequestId
  responseTo : Option ResponseTo
  opCode : OPCode
  deriving DecidableEq, Repr

inductive MessageHeaderParseError where
  | tooFewBytes (len : ℕ)
  | invalidOPCode (e : OPCodeParseError)
  | invalidMessageLength (e : MessageLengthError)
  deriving DecidableEq, Repr

namespace MessageHeader

def size : ℕ := 16

/-- `MessageHeader::from_bytes`; what follows the first 16 bytes is ignored. -/
def fromBytes (bytes : Bytes) : Outcome MessageHeaderParseError MessageHeader := do
  let len := bytes.length
  if len < size then
    Outcome.err (.tooFewBytes len)
  else
    let rawLength := toI32 (← Outcome.arrayAt bytes 0 4)
    let messageLength ← Outcome.ofResult .invalidMessageLength (MessageLength.tryNew rawLength)
    let requestId : RequestId := ⟨toI32 (← Outcome.arrayAt bytes 4 4)⟩
    let responseTo := ResponseTo.new (toI32 (← Outcome.arrayAt bytes 8 4))
    let opCode ← Outcome.ofResult .invalidOPCode
      (OPCode.fromLeBytes (← Outcome.arrayAt bytes 12 4))
    pure { messageLength, requestId, responseTo, opCode }

/-- `MessageHeader::write_bytes`: the 16 bytes appended to the buffer. -/
def writeBytes (h : MessageHeader) : Bytes :=
  ofI32 h.messageLength.val ++ (ofI32 h.requestId.val ++
    (ofI32 (ResponseTo.field h.responseTo) ++ h.opCode.toLeBytes))

@[simp] theorem writeBytes_length (h : MessageHeader) : h.writeBytes.length = size := by
  simp [writeBytes, size]

/-- What the parser does once 16 bytes are there, without the index checks. -/
def ofFields (b : Bytes) : Outcome MessageHeaderParseError MessageHeader := do
  let messageLength ← Outcome.ofResult .invalidMessageLength
    (MessageLength.tryNew (toI32 (b.take 4)))
  let opCode ← Outcome.ofResult .invalidOPCode (OPCode.fromLeBytes ((b.drop 12).take 4))
  pure {
    messageLength
    requestId := ⟨toI32 ((b.drop 4).take 4)⟩
    responseTo := ResponseTo.new (toI32 ((b.drop 8).take 4))
    opCode }

theorem ofFields_ne_tooFewBytes (b : Bytes) (n : ℕ) :
    ofFields b ≠ Outcome.err (.tooFewBytes n) := by
  unfold ofFields
  cases MessageLength.tryNew (toI32 (b.take 4)) with
  | error e => simp
  | ok l =>
    cases OPCode.fromLeBytes ((b.drop 12).take 4) with
    | error e => simp
    | ok c => simp [Outcome.err]

theorem fromBytes_of_le (bytes : Bytes) (h : size ≤ bytes.length) :
    fromBytes bytes = ofFields bytes := by
  have hlt : ¬ bytes.length < size := by omega
  simp only [size] at h
  simp only [fromBytes, ofFields, if_neg hlt, Outcome.arrayAt_eq bytes 0 4 (by omega),
    Outcome.arrayAt_eq bytes 4 4 (by omega), Outcome.arrayAt_eq bytes 8 4 (by omega),
    Outcome.arrayAt_eq bytes 12 4 (by omega), Outcome.ok_bind, List.drop_zero]

theorem fromBytes_of_lt (bytes : Bytes) (h : bytes.length < size) :
    fromBytes bytes = Outcome.err (.tooFewBytes bytes.length) := by
  simp only [fromBytes, if_pos h]

theorem size_le_of_fromBytes (bytes : Bytes) (h : MessageHeader) (hp : fromBytes bytes = .ok h) :
    size ≤ bytes.length := by
  by_contra hlt
  rw [fromBytes_of_lt bytes (by omega)] at hp
  exact Outcome.err_ne_ok _ _ hp

theorem fromBytes_append (bytes more : Bytes) (h : size ≤ bytes.length) :
    fromBytes (bytes ++ more) = fromBytes bytes := by
  rw [fromBytes_of_le bytes h, fromBytes_of_le _ (by simp only [List.length_append]; omega)]
  simp only [size] at h
  have hfield : ∀ i, i + 4 ≤ 16 → ((bytes ++ more).drop i).take 4 = (bytes.drop i).take 4 :=
    fun i hi => Outcome.field_append bytes more i 4 (by omega)
  have h0 := hfield 0 (by omega)
  simp only [List.drop_zero] at h0
  simp only [ofFields, h0, hfield 4 (by omega), hfield 8 (by omega), hfield 12 (by omega)]

theorem lengthField_writeBytes (h : MessageHeader) (body : Bytes) :
    (h.writeBytes ++ body).take 4 = ofI32 h.messageLength.val := by
  simp only [writeBytes, List.append_assoc]
  exact List.take_left' (ofI32_length _)

theorem opCodeField_writeBytes (h : MessageHeader) (body : Bytes) :
    ((h.writeBytes ++ body).drop 12).take 4 = h.opCode.toLeBytes := by
  simp only [writeBytes, List.append_assoc]
  rw [show 12 = 4 + (4 + 4) from rfl, ← List.drop_drop, List.drop_left' (ofI32_length _),
    ← List.drop_drop, List.drop_left' (ofI32_length _), List.drop_left' (ofI32_length _),
    List.take_left' (OPCode.toLeBytes_length _)]

theorem fromBytes_writeBytes (h : MessageHeader) (body : Bytes) :
    fromBytes (h.writeBytes ++ body) = .ok h := by
  have hlen : size ≤ (h.writeBytes ++ body).length := by
    simp only [List.length_append, writeBytes_length]
    omega
  have h2 : ((h.writeBytes ++ body).drop 4).take 4 = ofI32 h.requestId.val := by
    simp only [writeBytes, List.append_assoc]
    rw [List.drop_left' (ofI32_length _), List.take_left' (ofI32_length _)]
  have h3 : ((h.writeBytes ++ body).drop 8).take 4 = ofI32 (ResponseTo.field h.responseTo) := by
    simp only [writeBytes, List.append_assoc]
    rw [show 8 = 4 + 4 from rfl, ← List.drop_drop, List.drop_left' (ofI32_length _),
      List.drop_left' (ofI32_length _), List.take_left' (ofI32_length _)]
  rw [fromBytes_of_le _ hlen]
  simp only [ofFields, lengthField_writeBytes, h2, h3, opCodeField_writeBytes, toI32_ofI32,
    MessageLength.tryNew_val, OPCode.fromLeBytes_toLeBytes, ResponseTo.new_field,
    Outcome.ofResult_ok, Outcome.ok_bind, Outcome.pure_eq_ok]

/-- The header of an accepted frame is the one its first 16 bytes encode. -/
theorem writeBytes_of_fromBytes (bytes : Bytes) (h : MessageHeader)
    (hp : fromBytes bytes = .ok h) : h.writeBytes = bytes.take size := by
  have hlen := size_le_of_fromBytes bytes h hp
  rw [fromBytes_of_le bytes hlen] at hp
  simp only [size] at hlen
  simp only [ofFields, Outcome.bind_eq_ok, Outcome.ofResult_eq_ok, Outcome.pure_eq_ok] at hp
  obtain ⟨len, hl, op, ho, hh⟩ := hp
  have hlenBytes : ∀ i, i + 4 ≤ 16 → ((bytes.drop i).take 4).length = 4 := by
    intro i hi
    simp only [List.length_take, List.length_drop]
    omega
  have h0 := hlenBytes 0 (by omega)
  rw [List.drop_zero] at h0
  rw [← Except.ok.inj hh]
  simp only [writeBytes, MessageLength.tryNew_eq_ok _ _ hl, ResponseTo.field_new,
    OPCode.fromLeBytes_eq_ok _ _ ho]
  rw [ofI32_toI32 _ h0, ofI32_toI32 _ (hlenBytes 4 (by omega)),
    ofI32_toI32 _ (hlenBytes 8 (by omega))]
  have hsplit : ∀ i n m, (bytes.drop i).take (n + m)
      = (bytes.drop i).take n ++ (bytes.drop (i + n)).take m := by
    intro i n m
    rw [List.take_add, List.drop_drop]
  have hall : bytes.take 16 = bytes.take 4 ++ ((bytes.drop 4).take 4 ++
      ((bytes.drop 8).take 4 ++ (bytes.drop 12).take 4)) := by
    have e1 := hsplit 0 4 12
    have e2 := hsplit 4 4 8
    have e3 := hsplit 8 4 4
    simp only [List.drop_zero, Nat.zero_add, Nat.reduceAdd] at e1 e2 e3
    rw [e1, e2, e3]
  exact hall.symm

end MessageHeader

end MongodProxy
