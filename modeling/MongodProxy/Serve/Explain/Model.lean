import MongodProxy.Message

/-!
# The explain model (serve/explain: model, error, wire, parse)

Names, plan trees and errors of the explain inspector, and the conversion of a raw
reply into an event. Deserialisation of a reply document is serde's and the preview
of a document is its Debug rendering; both are parameters (`ReplyCodec`), as are the
types of plan details nothing here looks into (`PlanVocabulary`).
-/

namespace MongodProxy.Explain
open MongodProxy

/-! ### Names (model/newtypes.rs, model/namespace.rs, model/open_vocab.rs) -/

/-- `char::is_whitespace`: the Unicode property White_Space. -/
def isWhitespace (c : Char) : Bool :=
  let n := c.toNat
  (0x09 ≤ n && n ≤ 0x0D) || n = 0x20 || n = 0x85 || n = 0xA0 || n = 0x1680
    || (0x2000 ≤ n && n ≤ 0x200A) || n = 0x2028 || n = 0x2029 || n = 0x202F || n = 0x205F
    || n = 0x3000

/-- `str::trim`. -/
def trim (s : List Char) : List Char :=
  ((s.dropWhile isWhitespace).reverse.dropWhile isWhitespace).reverse

/- A name that is trimmed and not empty: `Database` and `Collection`. -/
structure TrimmedName where
  val : List Char
  nonempty : val ≠ []
  deriving DecidableEq, Repr

def TrimmedName.tryNew (s : List Char) : Option TrimmedName :=
  if h : trim s ≠ [] then some ⟨trim s, h⟩ else none

abbrev Database := TrimmedName

abbrev Collection := TrimmedName

structure Namespace where
  database : Database
  collection : Collection
  deriving DecidableEq, Repr

inductive NamespaceParseErrorKind where
  | noDot
  | badDatabase
  | badCollection
  deriving DecidableEq, Repr

structure NamespaceParseError where
  raw : List Char
  kind : NamespaceParseErrorKind
  deriving DecidableEq, Repr

def Namespace.parse (raw : List Char) : Except NamespaceParseError Namespace :=
  match raw.span (· ≠ '.') with
  | (_, []) => .error ⟨raw, .noDot⟩
  | (db, _ :: coll) =>
    match TrimmedName.tryNew db with
    | none => .error ⟨raw, .badDatabase⟩
    | some database =>
      match TrimmedName.tryNew coll with
      | none => .error ⟨raw, .badCollection⟩
      | some collection => .ok ⟨database, collection⟩

/- The commands the inspector recognises. -/
inductive Command where
  | find
  | aggregate
  | count
  | distinct
  | update
  | delete
  | findAndModify
  deriving DecidableEq, Repr

/-- `Command::from_command_name`. -/
def Command.fromCommandName (s : String) : Option Command :=
  if s = "find" then some .find
  else if s = "aggregate" then some .aggregate
  else if s = "count" then some .count
  else if s = "distinct" then some .distinct
  else if s = "update" then some .update
  else if s = "delete" then some .delete
  else if s = "findAndModify" || s = "findandmodify" then some .findAndModify
  else none

inductive Direction where
  | forward
  | backward
  | other (name : String)
  deriving DecidableEq, Repr

/-! ### Request ids (ids.rs) -/

/-- `ExplainRequestId`: strictly negative. -/
structure ExplainRequestId where
  val : Int32
  negative : val < 0
  deriving DecidableEq, Repr

def ExplainRequestId.tryNew (n : Int32) : Option ExplainRequestId :=
  if h : n < 0 then some ⟨n, h⟩ else none

def ExplainRequestId.toRequestId (r : ExplainRequestId) : RequestId := ⟨r.val⟩

/-! ### Errors (error.rs, model/event.rs) -/

/- The BSON element types that are no `ok` field. -/
inductive ElementType where
  | regularExpression
  | javaScriptCode
  | javaScriptCodeWithScope
  | timestamp
  | binary
  | objectId
  | dateTime
  | symbol
  | decimal128
  | undefined
  | maxKey
  | minKey
  | dbPointer
  deriving DecidableEq, Repr

inductive MalformedOkShape where
  | missing
  | null
  | stringValue
  | bool
  | array
  | document
  | nonFinite
  | other (t : ElementType)
  deriving DecidableEq, Repr

inductive UnsupportedShape where
  | multiOpWriteBatch
  deriving DecidableEq, Repr

structure NegativeDurationError where
  field : String
  value : Int64
  deriving DecidableEq, Repr

inductive ExplainParseError (β : Type) where
  | missingBody
  | malformedOk (shape : MalformedOkShape)
  | deserialise (rawPreview : String) (source : β)
  | malformedServerError (rawPreview : String) (source : β)
  | bothChildrenShapesPresent (depth : ℕ)
  | badNamespace (e : NamespaceParseError)
  | negativeDuration (e : NegativeDurationError)

/-- `ExplainServerError::Rejected`, with the fields of `RawServerError`. -/
structure ExplainServerError where
  message : String
  code : Option Int32
  codeName : Option String
  labels : List String
  deriving DecidableEq, Repr

inductive ExplainError (β ε : Type) where
  | innerService (e : ε)
  | parse (e : ExplainParseError β)
  | server (e : ExplainServerError)
  | requestIdExhausted
  | unsupportedShape (reason : UnsupportedShape)

/-! ### Plan trees (wire.rs, model/event.rs, parse.rs) -/

structure PlanVocabulary where
  Stage : Type
  KeyPattern : Type
  IndexBounds : Type
  Filter : Type

/- A count of documents or keys. -/
structure Count where
  val : Int64
  nonneg : 0 ≤ val
  deriving DecidableEq, Repr

/- The fields of a plan node that the conversion copies. -/
structure PlanFacts (V : PlanVocabulary) where
  stage : V.Stage
  nReturned : Count
  docsExamined : Option Count
  keysExamined : Option Count
  indexName : Option String
  keyPattern : Option V.KeyPattern
  indexBounds : Option V.IndexBounds
  filter : Option V.Filter

inductive RawPlanNode (V : PlanVocabulary) where
  | mk (facts : PlanFacts V) (executionTimeMillisEstimate : Option Int64)
    (direction : Option String) (inputStage : Option (RawPlanNode V))
    (inputStages : Option (List (RawPlanNode V)))

/- Times are in milliseconds. -/
inductive PlanNode (V : PlanVocabulary) where
  | mk (facts : PlanFacts V) (executionTime : Option ℕ) (direction : Option Direction)
    (children : List (PlanNode V))

structure RawExecutionStats (V : PlanVocabulary) where
  executionTimeMillis : Int64
  nReturned : Count
  totalDocsExamined : Count
  totalKeysExamined : Count
  executionStages : RawPlanNode V

structure RawExplainReply (V : PlanVocabulary) where
  queryPlannerNamespace : List Char
  executionStats : RawExecutionStats V

structure ExplainTotals where
  nReturned : Count
  docsExamined : Count
  keysExamined : Count
  executionTime : ℕ

structure ExplainEvent (V : PlanVocabulary) where
  command : Command
  «namespace» : Namespace
  total : ExplainTotals
  plan : PlanNode V
  clientRequestId : RequestId
  explainRequestId : Option ExplainRequestId

/- What is not in the repository: serde's deserialisation of the two reply shapes, the bounded
Debug preview of a document, and Unicode lower-casing. -/
structure ReplyCodec (β : Type) (V : PlanVocabulary) where
  explainReply : Document → Except β (RawExplainReply V)
  serverError : Document → Except β ExplainServerError
  preview : Document → String
  lowercase : String → String

variable {β : Type} {V : PlanVocabulary} (codec : ReplyCodec β V)

/-- `Direction::from_wire_string`. -/
def directionOf (s : String) : Direction :=
  if s = "forward" then .forward
  else if s = "backward" then .backward
  else .other (codec.lowercase s)

def i64MsToDuration (field : String) (ms : Int64) : Except NegativeDurationError ℕ :=
  if ms < 0 then .error ⟨field, ms⟩ else .ok ms.toInt.toNat

/-- `to_plan_node`, with the errors of `?` converted. -/
def toPlanNode : RawPlanNode V → ℕ → Except (ExplainParseError β) (PlanNode V)
  | .mk facts estimate direction inputStage inputStages, depth => do
    let executionTime ← match estimate with
      | none => pure none
      | some ms => do
        let d ← (i64MsToDuration "executionTimeMillisEstimate" ms).mapError .negativeDuration
        pure (some d)
    let children ← match inputStage, inputStages with
      | some _, some _ => .error (.bothChildrenShapesPresent depth)
      | some s, none => do
        let child ← toPlanNode s (depth + 1)
        pure [child]
      | none, some v => v.attach.mapM fun n => toPlanNode n.1 (depth + 1)
      | none, none => pure []
    pure (.mk facts executionTime (direction.map (directionOf codec)) children)
termination_by r => sizeOf r
decreasing_by
  · simp only [RawPlanNode.mk.sizeOf_spec, Option.some.sizeOf_spec]
    omega
  · have hlt := List.sizeOf_lt_of_mem n.2
    simp only [RawPlanNode.mk.sizeOf_spec, Option.some.sizeOf_spec]
    omega

/-! ### Reply bodies (parse.rs) -/

inductive OkOutcome where
  | success
  | rejected
  | malformed (shape : MalformedOkShape)
  deriving DecidableEq, Repr

/- On the bit pattern of a double. -/
def isFinite (bits : UInt64) : Bool := (bits >>> 52) &&& 0x7FF != 0x7FF

def isZero (bits : UInt64) : Bool := bits &&& 0x7FFFFFFFFFFFFFFF == 0

/-- `MalformedOkShape::from_non_numeric_bson`. -/
def MalformedOkShape.fromNonNumericBson : Bson → MalformedOkShape
  | .null => .null
  | .string _ => .stringValue
  | .boolean _ => .bool
  | .array _ => .array
  | .document _ => .document
  | .int32 _ => .nonFinite
  | .int64 _ => .nonFinite
  | .double _ => .nonFinite
  | .regularExpression _ _ => .other .regularExpression
  | .javaScriptCode _ => .other .javaScriptCode
  | .javaScriptCodeWithScope _ _ => .other .javaScriptCodeWithScope
  | .timestamp _ _ => .other .timestamp
  | .binary _ _ => .other .binary
  | .objectId _ => .other .objectId
  | .dateTime _ => .other .dateTime
  | .symbol _ => .other .symbol
  | .decimal128 _ => .other .decimal128
  | .undefined => .other .undefined
  | .maxKey => .other .maxKey
  | .minKey => .other .minKey
  | .dbPointer _ _ => .other .dbPointer

def probeOk (doc : Document) : OkOutcome :=
  match doc.get "ok" with
  | none => .malformed .missing
  | some (.int32 n) => if n ≠ 0 then .success else .rejected
  | some (.int64 n) => if n ≠ 0 then .success else .rejected
  | some (.double bits) =>
    if !isFinite bits then .malformed .nonFinite
    else if !isZero bits then .success else .rejected
  | some other => .malformed (.fromNonNumericBson other)

def parseReplyDoc (doc : Document) :
    Except (ExplainParseError β) (Except ExplainServerError (RawExplainReply V)) :=
  match probeOk doc with
  | .malformed shape => .error (.malformedOk shape)
  | .rejected =>
    match codec.serverError doc with
    | .ok raw => .ok (.error raw)
    | .error source => .error (.malformedServerError (codec.preview doc) source)
  | .success =>
    match codec.explainReply doc with
    | .ok reply => .ok (.ok reply)
    | .error source => .error (.deserialise (codec.preview doc) source)

end MongodProxy.Explain
