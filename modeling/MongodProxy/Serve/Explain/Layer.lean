import MongodProxy.Serve.Explain.Model
import MongodProxy.Lib.Service

/-!
# The explain layer (serve/explain: classify, build, layer)

`ExplainService` forwards a request, collects all its replies, and then, when the
request is one it can explain, issues the same command wrapped in `explain` on the
same upstream and tells its sink what came of it. The client's replies are replayed
from the buffer afterwards.
-/

namespace MongodProxy.Explain
open MongodProxy

/-! ### Classification (classify.rs) -/

structure ClassifiedRequest where
  command : Command
  database : Database
  body : Document
  docSequences : List OpMsgSection

def classify (req : Message) : Option ClassifiedRequest :=
  match req.operation with
  | .message opMsg =>
    if opMsg.flags.contains .moreToCome then none
    else do
      let rawName ← opMsg.commandName
      let command ← Command.fromCommandName rawName
      let body ← opMsg.sections.findSome? OpMsgSection.asBody
      let dbStr ← body.getStr "$db"
      let database ← TrimmedName.tryNew dbStr.toList
      some ⟨command, database, body, opMsg.sections⟩
  | _ => none

/-! ### The explain message (build.rs) -/

inductive BuildExplainOutcome where
  | built (msg : Message)
  | unsupportedShape (reason : UnsupportedShape)

def explainVerbosity : String := "executionStats"

/- The name of the kind-1 sequence that carries the operations of a write command. -/
def sequenceIdent : Command → Option String
  | .update => some "updates"
  | .delete => some "deletes"
  | _ => none

/- The first section named `ident` decides. -/
def firstSequence (ident : String) (sections : List OpMsgSection) : Option (List Document) :=
  sections.findSome? fun
    | .documentSequence identifier documents => if identifier = ident then some documents else none
    | .body _ => none

def isMultiOpWriteBatch (command : Command) (sections : List OpMsgSection) : Bool :=
  match sequenceIdent command with
  | none => false
  | some ident =>
    match firstSequence ident sections with
    | none => false
    | some documents => 1 < documents.length

/- Here the first section that is named `ident` and holds one document decides. -/
def foldSingleOpDocSequence (command : Command) (sections : List OpMsgSection) (inner : Document) :
    Document :=
  match sequenceIdent command with
  | none => inner
  | some ident =>
    let only := sections.findSome? fun
      | .documentSequence identifier [doc] => if identifier = ident then some doc else none
      | _ => none
    match only with
    | none => inner
    | some doc => inner.insert ident (.array [.document doc.entries])

def shouldStripFromInner (key : String) : Bool :=
  key ∈ ["$db", "lsid", "txnNumber", "autocommit", "$clusterTime", "$readPreference",
    "$readConcern", "readConcern", "startTransaction", "stmtId"]

/- The command as it stands inside `explain`. -/
def innerCommand (plan : ClassifiedRequest) : Document :=
  let inner := plan.body.entries.foldl
    (fun inner e => if shouldStripFromInner e.1 then inner else inner.insert e.1 e.2) .new
  foldSingleOpDocSequence plan.command plan.docSequences inner

def buildExplain (plan : ClassifiedRequest) (requestId : ExplainRequestId) : BuildExplainOutcome :=
  if isMultiOpWriteBatch plan.command plan.docSequences then
    .unsupportedShape .multiOpWriteBatch
  else
    let envelope := ((Document.new.insert "explain" (.document (innerCommand plan).entries)).insert
      "verbosity" (.string explainVerbosity)).insert "$db" (.string (String.ofList plan.database.val))
    .built {
      requestId := requestId.toRequestId
      responseTo := none
      operation := .message { flags := .empty, sections := [.body envelope], checksum := none } }

/-! ### Ids and results (layer.rs) -/

/-- `alloc_request_id`: the id, and the counter afterwards. -/
def allocRequestId (cur : Int32) : Option ExplainRequestId × Int32 :=
  if cur ≥ 0 ∨ cur = Int32.minValue then (none, cur)
  else (ExplainRequestId.tryNew (cur - 1), cur - 1)

variable {β ε : Type} {V : PlanVocabulary} (codec : ReplyCodec β V)

def extractBody (replies : List Message) : Except (ExplainParseError β) Document :=
  match replies with
  | [] => .error .missingBody
  | first :: _ =>
    match first.operation with
    | .message opMsg =>
      match opMsg.sections.findSome? OpMsgSection.asBody with
      | some body => .ok body
      | none => .error .missingBody
    | _ => .error .missingBody

def rawIntoEvent (command : Command) (raw : RawExplainReply V) (clientRequestId : RequestId)
    (explainRequestId : Option ExplainRequestId) :
    Except (ExplainParseError β) (ExplainEvent V) := do
  let ns ← (Namespace.parse raw.queryPlannerNamespace).mapError .badNamespace
  let executionTime ← (i64MsToDuration "executionTimeMillis"
    raw.executionStats.executionTimeMillis).mapError .negativeDuration
  let plan ← toPlanNode codec raw.executionStats.executionStages 0
  pure {
    command := command
    «namespace» := ns
    total := {
      nReturned := raw.executionStats.nReturned
      docsExamined := raw.executionStats.totalDocsExamined
      keysExamined := raw.executionStats.totalKeysExamined
      executionTime := executionTime }
    plan := plan
    clientRequestId := clientRequestId
    explainRequestId := explainRequestId }

/- `run_explain` after its exchange with the inner service. -/
def explainResult (command : Command) (clientRequestId : RequestId)
    (explainRequestId : Option ExplainRequestId) (answer : Except ε (List Message)) :
    Except (ExplainError β ε) (ExplainEvent V) := do
  let replies ← answer.mapError .innerService
  let body ← (extractBody replies).mapError .parse
  let reply ← (parseReplyDoc codec body).mapError .parse
  match reply with
  | .error serverErr => .error (.server serverErr)
  | .ok raw =>
    (rawIntoEvent codec command raw clientRequestId explainRequestId).mapError .parse

/-! ### The service (layer.rs) -/

/- Events of the inner service, and what the sink receives. -/
inductive ExplainAct (β ε κ : Type) (V : PlanVocabulary) where
  | inner (e : κ)
  | record (event : ExplainEvent V)
  | recordError (err : ExplainError β ε)

/-- `emit_or_log`, without the tracing. -/
def emitOrLog {κ : Type} : Except (ExplainError β ε) (ExplainEvent V) → ExplainAct β ε κ V
  | .ok event => .record event
  | .error err => .recordError err

structure Prepared (β ε : Type) where
  command : Command
  explainRequestId : Option ExplainRequestId
  buildOutcome : Except (ExplainError β ε) Message

/- Phase 1 of `handle_request`, with the counter afterwards. -/
def prepare (counter : Int32) (req : Message) : Option (Prepared β ε) × Int32 :=
  match classify req with
  | none => (none, counter)
  | some plan =>
    match allocRequestId counter with
    | (none, counter') => (some ⟨plan.command, none, .error .requestIdExhausted⟩, counter')
    | (some rid, counter') =>
      match buildExplain plan rid with
      | .built msg => (some ⟨plan.command, some rid, .ok msg⟩, counter')
      | .unsupportedShape r =>
        (some ⟨plan.command, some rid, .error (.unsupportedShape r)⟩, counter')

/- The connection's state below the layer, and the layer's own counter. -/
structure ExplainState (σ : Type) where
  inner : σ
  nextRequestId : Int32

/- The future of `handle_request`, by its awaits. -/
inductive ExplainFuture (φ τ β ε : Type) where
  | start (req : Message)
  | forwarding (clientRequestId : RequestId) (prepared : Option (Prepared β ε))
    (d : Service.Drain φ τ Message)
  | explaining (replies : List Message) (command : Command) (clientRequestId : RequestId)
    (explainRequestId : Option ExplainRequestId) (d : Service.Drain φ τ Message)
  | finished

structure ReplayStream where
  inner : List Message

variable {ι σ φ τ κ : Type}

/- A finished future is not polled again. -/
def pollHandleRequest (inner : Service ι σ φ τ Message ε κ) (i : ι) (st : ExplainState σ) :
    ExplainFuture φ τ β ε →
      Polled (Except ε ReplayStream) (ExplainFuture φ τ β ε) (ExplainState σ) (ExplainAct β ε κ V)
  | .start req =>
    let (prepared, counter) := prepare st.nextRequestId req
    let c := inner.call st.inner req
    ⟨.pending, .forwarding req.requestId prepared (.calling c.1), ⟨c.2.1, counter⟩,
      c.2.2.map .inner⟩
  | .forwarding clientRequestId prepared d =>
    let p := inner.pollDrain i st.inner d
    let events := p.events.map .inner
    let counter := st.nextRequestId
    match p.answer with
    | .pending => ⟨.pending, .forwarding clientRequestId prepared p.self, ⟨p.state, counter⟩, events⟩
    | .ready (.error e) => ⟨.ready (.error e), .finished, ⟨p.state, counter⟩, events⟩
    | .ready (.ok replies) =>
      match prepared with
      | none => ⟨.ready (.ok ⟨replies⟩), .finished, ⟨p.state, counter⟩, events⟩
      | some ⟨command, explainRequestId, buildOutcome⟩ =>
        match buildOutcome with
        | .error err =>
          ⟨.ready (.ok ⟨replies⟩), .finished, ⟨p.state, counter⟩,
            events ++ [emitOrLog (.error err)]⟩
        | .ok msg =>
          let c := inner.call p.state msg
          ⟨.pending, .explaining replies command clientRequestId explainRequestId (.calling c.1),
            ⟨c.2.1, counter⟩, events ++ c.2.2.map .inner⟩
  | .explaining replies command clientRequestId explainRequestId d =>
    let p := inner.pollDrain i st.inner d
    let events := p.events.map .inner
    match p.answer with
    | .pending =>
      ⟨.pending, .explaining replies command clientRequestId explainRequestId p.self,
        ⟨p.state, st.nextRequestId⟩, events⟩
    | .ready answer =>
      ⟨.ready (.ok ⟨replies⟩), .finished, ⟨p.state, st.nextRequestId⟩,
        events ++ [emitOrLog (explainResult codec command clientRequestId explainRequestId answer)]⟩
  | .finished => ⟨.pending, .finished, st, []⟩

def ReplayStream.pollNext (st : ExplainState σ) (t : ReplayStream) :
    Polled (Option (Except ε Message)) ReplayStream (ExplainState σ) (ExplainAct β ε κ V) :=
  match t.inner with
  | [] => ⟨.ready none, ⟨[]⟩, st, []⟩
  | m :: ms => ⟨.ready (some (.ok m)), ⟨ms⟩, st, []⟩

/-- `ExplainService`; `call` only makes the future. -/
def explainService (inner : Service ι σ φ τ Message ε κ) :
    Service ι (ExplainState σ) (ExplainFuture φ τ β ε) ReplayStream Message ε
      (ExplainAct β ε κ V) where
  call st req := (.start req, st, [])
  pollCall := pollHandleRequest codec inner
  pollNext _ st t := ReplayStream.pollNext st t

/-- The layer seeds the counter at -1. -/
def ExplainState.new (s : σ) : ExplainState σ := ⟨s, -1⟩

end MongodProxy.Explain
