import Mathlib.Tactic.Common
import MongodProxy.Bson
import MongodProxy.Header
import MongodProxy.Lib.Bitflags
import MongodProxy.Lib.Put

/-!
# OP_QUERY (operation/op_query.rs)

The legacy query body: a flag word without optional bits, a NUL-terminated
namespace, two counters, the query document and, when bytes are left after it,
a projection document.
-/

namespace MongodProxy
open LittleEndian

/-! ### Data -/

structure OperationQueryFlags where
  bits : UInt32
  deriving DecidableEq, Repr

namespace OperationQueryFlags

def tailableCursor : OperationQueryFlags := ⟨0x02⟩

def slaveOk : OperationQueryFlags := ⟨0x04⟩

def oplogReplay : OperationQueryFlags := ⟨0x08⟩

def noCursorTimeout : OperationQueryFlags := ⟨0x10⟩

def awaitData : OperationQueryFlags := ⟨0x20⟩

def exhaust : OperationQueryFlags := ⟨0x40⟩

/-- `PARTIAL`. -/
def partialResults : OperationQueryFlags := ⟨0x80⟩

def all : OperationQueryFlags :=
  ⟨tailableCursor.bits ||| slaveOk.bits ||| oplogReplay.bits ||| noCursorTimeout.bits
    ||| awaitData.bits ||| exhaust.bits ||| partialResults.bits⟩

def fromBits (raw : UInt32) : Option OperationQueryFlags := (Bitflags.fromBits all.bits raw).map .mk

def Named (f : OperationQueryFlags) : Prop := Bitflags.Named all.bits f.bits

instance (f : OperationQueryFlags) : Decidable f.Named :=
  inferInstanceAs (Decidable (Bitflags.Named _ _))

theorem fromBits_bits {f : OperationQueryFlags} (h : f.Named) : fromBits f.bits = some f := by
  simp only [fromBits, Bitflags.fromBits_of_named h, Option.map_some]

theorem fromBits_eq_some {raw : UInt32} {f : OperationQueryFlags} (h : fromBits raw = some f) :
    f.bits = raw ∧ f.Named := by
  obtain ⟨x, hx, rfl⟩ := Option.map_eq_some_iff.mp h
  exact Bitflags.fromBits_eq_some hx

end OperationQueryFlags

structure OperationQuery where
  flags : OperationQueryFlags
  fullCollectionName : String
  numberToSkip : Int32
  numberToReturn : Int32
  query : Document
  returnFieldsSelector : Option Document

inductive OperationQueryParseError (β : Type) where
  | notEnoughBytes (actual min : ℕ)
  | unknownFlagBits (bits : UInt32)
  | invalidCollectionName
  /-- `Utf8Error` is a function of the offending bytes, which stand for it. -/
  | invalidUtf8CollectionName (bytes : Bytes)
  | failedToParseQuery (e : β)
  | failedToParseReturnFieldsSelector (e : β)

inductive OperationQueryWriteError (β : Type) where
  | serializeQueryError (e : β)
  | serializeReturnFieldSelectorError (e : β)
  | collectionNameContainsNullByte (e : CStr.NulError)
  | messageTooLarge (size : ℕ)

namespace OperationQuery

variable {β : Type} (bson : BsonCodec β)

/-! ### Parsing -/

def minLen : ℕ := 4 + 1 + 4 + 4 + 5

/-- `TAIL_MIN`: two counters and the smallest document. -/
def tailMin : ℕ := 4 + 4 + 5

/-- `OperationQuery::from_bytes`; `bytes` is the body, without the header. -/
def fromBytes (bytes : Bytes) : Outcome (OperationQueryParseError β) OperationQuery := do
  let actualLen := bytes.length
  if actualLen < minLen then
    Outcome.err (.notEnoughBytes actualLen minLen)
  else
    let rawFlags := toU32 (← Outcome.arrayAt bytes 0 4)
    let flags ← Outcome.okOr (.unknownFlagBits (rawFlags &&& ~~~OperationQueryFlags.all.bits))
      (OperationQueryFlags.fromBits rawFlags)
    let bytes ← Outcome.sliceFrom bytes 4
    let fullCollectionNameCstr ← Outcome.okOr .invalidCollectionName (CStr.untilNul bytes)
    let fullCollectionName ← Outcome.okOr (.invalidUtf8CollectionName fullCollectionNameCstr)
      (Text.ofUtf8 fullCollectionNameCstr)
    let bytes ← Outcome.sliceFrom bytes (fullCollectionNameCstr.length + 1)
    if bytes.length < tailMin then
      Outcome.err (.notEnoughBytes actualLen (actualLen - bytes.length + tailMin))
    else
      let numberToSkip := toI32 (← Outcome.arrayAt bytes 0 4)
      let numberToReturn := toI32 (← Outcome.arrayAt bytes 4 4)
      let reader ← Outcome.sliceFrom bytes 8
      let (query, n) ← Outcome.ofResult .failedToParseQuery (bson.fromReader reader)
      let reader := reader.drop n
      let returnFieldsSelector ←
        if reader.length ≠ 0 then do
          let (selector, _) ← Outcome.ofResult .failedToParseReturnFieldsSelector
            (bson.fromReader reader)
          pure (some selector)
        else pure none
      pure { flags, fullCollectionName, numberToSkip, numberToReturn, query, returnFieldsSelector }

/-- What is left of the body after the two counters: the query document and the
projection, if bytes remain for one. -/
def documentsOf (reader : Bytes) :
    Outcome (OperationQueryParseError β) (Document × Option Document) := do
  let (query, n) ← Outcome.ofResult .failedToParseQuery (bson.fromReader reader)
  if reader.drop n = [] then
    pure (query, none)
  else do
    let (selector, _) ← Outcome.ofResult .failedToParseReturnFieldsSelector
      (bson.fromReader (reader.drop n))
    pure (query, some selector)

/-- What follows the namespace. -/
def tailOf (flags : OperationQueryFlags) (fullCollectionName : String) (actualLen : ℕ)
    (tail : Bytes) : Outcome (OperationQueryParseError β) OperationQuery :=
  if tail.length < tailMin then
    Outcome.err (.notEnoughBytes actualLen (actualLen - tail.length + tailMin))
  else do
    let (query, returnFieldsSelector) ← documentsOf bson (tail.drop 8)
    pure {
      flags, fullCollectionName, query, returnFieldsSelector
      numberToSkip := toI32 (tail.take 4)
      numberToReturn := toI32 ((tail.drop 4).take 4) }

/-- What follows the length check of `from_bytes`, without the index checks. -/
def queryOf (rawFlags : UInt32) (afterFlags : Bytes) :
    Outcome (OperationQueryParseError β) OperationQuery := do
  let flags ← Outcome.okOr (.unknownFlagBits (rawFlags &&& ~~~OperationQueryFlags.all.bits))
    (OperationQueryFlags.fromBits rawFlags)
  let name ← Outcome.okOr .invalidCollectionName (CStr.untilNul afterFlags)
  let fullCollectionName ← Outcome.okOr (.invalidUtf8CollectionName name) (Text.ofUtf8 name)
  tailOf bson flags fullCollectionName (4 + afterFlags.length) (afterFlags.drop (name.length + 1))

theorem fromBytes_of_lt (bytes : Bytes) (h : bytes.length < minLen) :
    fromBytes bson bytes = Outcome.err (.notEnoughBytes bytes.length minLen) := by
  simp only [fromBytes, if_pos h]

theorem fromBytes_of_le (bytes : Bytes) (h : minLen ≤ bytes.length) :
    fromBytes bson bytes = queryOf bson (toU32 (bytes.take 4)) (bytes.drop 4) := by
  have hlt : ¬ bytes.length < minLen := by omega
  simp only [minLen] at h
  have hlen : bytes.length = 4 + (bytes.drop 4).length := by
    rw [List.length_drop]
    omega
  simp only [fromBytes, if_neg hlt, Outcome.arrayAt_eq bytes 0 4 (by omega), Outcome.ok_bind,
    List.drop_zero, queryOf, Outcome.sliceFrom_eq bytes 4 (by omega)]
  rw [hlen]
  generalize toU32 (bytes.take 4) = rawFlags
  generalize bytes.drop 4 = afterFlags
  cases OperationQueryFlags.fromBits rawFlags with
  | none => rfl
  | some flags =>
    cases hnul : CStr.untilNul afterFlags with
    | none => rfl
    | some name =>
      have hname := CStr.length_lt_of_untilNul _ _ hnul
      simp only [Outcome.okOr_some, Outcome.ok_bind]
      cases Text.ofUtf8 name with
      | none => rfl
      | some fullCollectionName =>
        simp only [Outcome.okOr_some, Outcome.ok_bind,
          Outcome.sliceFrom_eq afterFlags (name.length + 1) (by omega), tailOf]
        generalize afterFlags.drop (name.length + 1) = tail
        by_cases ht : tail.length < tailMin
        · simp only [if_pos ht]
        · simp only [if_neg ht]
          simp only [tailMin] at ht
          simp only [Outcome.arrayAt_eq tail 0 4 (by omega), Outcome.arrayAt_eq tail 4 4 (by omega),
            Outcome.sliceFrom_eq tail 8 (by omega), Outcome.ok_bind, List.drop_zero, documentsOf]
          cases bson.fromReader (tail.drop 8) with
          | error e => rfl
          | ok p =>
            obtain ⟨query, n⟩ := p
            simp only [Outcome.ofResult_ok, Outcome.ok_bind]
            by_cases hr : (tail.drop 8).drop n = []
            · simp only [hr, List.length_nil, ne_eq, not_true_eq_false, if_false, if_true,
                Outcome.pure_eq_ok, Outcome.ok_bind]
            · have hpos : ((tail.drop 8).drop n).length ≠ 0 := fun h0 =>
                hr (List.eq_nil_of_length_eq_zero h0)
              simp only [if_pos hpos, if_neg hr]
              cases bson.fromReader ((tail.drop 8).drop n) <;> rfl

/-! ### Writing -/

/-- The bytes of the optional projection. -/
def selectorBytes (m : OperationQuery) : Except (OperationQueryWriteError β) Bytes :=
  match m.returnFieldsSelector with
  | some doc => (bson.serializeToVec doc).mapError .serializeReturnFieldSelectorError
  | none => .ok []

def writeBytes (m : OperationQuery) (requestId : RequestId) (responseTo : Option ResponseTo) :
    Put (OperationQueryWriteError β) Unit := do
  let queryBytes ← Put.lift ((bson.serializeToVec m.query).mapError .serializeQueryError)
  let returnFieldsSelectorBytes ← Put.lift (selectorBytes bson m)
  let fullCollectionNameBytes ← Put.lift ((CStr.withNul (Text.utf8 m.fullCollectionName)).mapError
    .collectionNameContainsNullByte)
  let messageLength := MessageHeader.size + 4 + fullCollectionNameBytes.length + 4 + 4
    + queryBytes.length + returnFieldsSelectorBytes.length
  let messageLength ← Put.lift (messageLengthOf .messageTooLarge messageLength)
  let header : MessageHeader := { messageLength, opCode := .query, requestId, responseTo }
  Put.put header.writeBytes
  Put.put (ofU32 m.flags.bits)
  Put.put fullCollectionNameBytes
  Put.put (ofI32 m.numberToSkip)
  Put.put (ofI32 m.numberToReturn)
  Put.put queryBytes
  Put.put returnFieldsSelectorBytes

/-- The body `write_bytes` appends after the header. -/
def bodyBytes (m : OperationQuery) (name queryBytes returnFieldsSelectorBytes : Bytes) : Bytes :=
  ofU32 m.flags.bits ++ (name ++ (ofI32 m.numberToSkip ++ (ofI32 m.numberToReturn ++
    (queryBytes ++ returnFieldsSelectorBytes))))

def frame (m : OperationQuery) (requestId : RequestId) (responseTo : Option ResponseTo) :
    Except (OperationQueryWriteError β) Bytes := do
  let queryBytes ← (bson.serializeToVec m.query).mapError .serializeQueryError
  let returnFieldsSelectorBytes ← selectorBytes bson m
  let name ← (CStr.withNul (Text.utf8 m.fullCollectionName)).mapError
    .collectionNameContainsNullByte
  let body := m.bodyBytes name queryBytes returnFieldsSelectorBytes
  let messageLength ← messageLengthOf .messageTooLarge (MessageHeader.size + body.length)
  pure ((MessageHeader.mk messageLength requestId responseTo .query).writeBytes ++ body)

theorem writeBytes_appends (m : OperationQuery) (requestId : RequestId)
    (responseTo : Option ResponseTo) :
    (m.writeBytes bson requestId responseTo).Appends (m.frame bson requestId responseTo) := by
  apply Put.Appends.lift_bind
  intro queryBytes
  apply Put.Appends.lift_bind
  intro returnFieldsSelectorBytes
  apply Put.Appends.lift_bind
  intro name
  have hlen : MessageHeader.size + 4 + name.length + 4 + 4 + queryBytes.length
      + returnFieldsSelectorBytes.length
      = MessageHeader.size + (m.bodyBytes name queryBytes returnFieldsSelectorBytes).length := by
    simp only [bodyBytes, List.length_append, ofU32_length, ofI32_length]
    omega
  simp only [hlen]
  apply Put.Appends.lift_bind
  intro messageLength dst
  simp only [Put.exec_bind, Put.exec_put, Except.pure, pure, bodyBytes, List.append_assoc]

/-- The body of an accepted query is its fields in the order they are written; the documents are
read from `reader`. -/
theorem fromBytes_eq_ok {body : Bytes} {m : OperationQuery} (h : fromBytes bson body = .ok m) :
    ∃ reader, body = m.bodyBytes (Text.utf8 m.fullCollectionName ++ [0]) reader [] ∧
      0 ∉ Text.utf8 m.fullCollectionName ∧ m.flags.Named ∧
      documentsOf bson reader = .ok (m.query, m.returnFieldsSelector) := by
  have hmin : minLen ≤ body.length := by
    by_contra hlt
    rw [fromBytes_of_lt bson body (Nat.not_le.mp hlt)] at h
    exact Outcome.err_ne_ok _ _ h
  rw [fromBytes_of_le bson body hmin] at h
  simp only [minLen] at hmin
  simp only [queryOf, Outcome.bind_eq_ok, Outcome.okOr_eq_ok, tailOf] at h
  obtain ⟨flags, hflags, name, hname, text, htext, h⟩ := h
  split_ifs at h with htail
  · exact absurd h (Outcome.err_ne_ok _ _)
  simp only [Outcome.bind_eq_ok] at h
  obtain ⟨⟨query, selector⟩, hdocs, hm⟩ := h
  cases hm
  obtain ⟨hbits, hnamed⟩ := OperationQueryFlags.fromBits_eq_some hflags
  obtain ⟨hfree, tail, hsplit⟩ := CStr.untilNul_eq_some _ _ hname
  have htailOf : (body.drop 4).drop (name.length + 1) = tail := by
    rw [hsplit, ← List.drop_drop, List.drop_left, List.drop_succ_cons, List.drop_zero]
  rw [htailOf] at htail hdocs ⊢
  simp only [tailMin] at htail
  have hflagBytes : (body.take 4).length = 4 := by
    rw [List.length_take]
    omega
  have hskip : (tail.take 4).length = 4 := by
    rw [List.length_take]
    omega
  have hreturn : ((tail.drop 4).take 4).length = 4 := by
    rw [List.length_take, List.length_drop]
    omega
  have hutf := Text.utf8_of_ofUtf8 _ _ htext
  refine ⟨tail.drop 8, ?_, ?_, hnamed, hdocs⟩
  · simp only [bodyBytes, hbits, hutf, ofU32_toU32 _ hflagBytes, ofI32_toI32 _ hskip,
      ofI32_toI32 _ hreturn, List.append_nil, List.append_assoc, List.singleton_append]
    have h8 : tail.drop 8 = (tail.drop 4).drop 4 := by rw [List.drop_drop]
    rw [h8, List.take_append_drop, List.take_append_drop, ← hsplit, List.take_append_drop]
  · rw [hutf]
    exact hfree

end OperationQuery

end MongodProxy
