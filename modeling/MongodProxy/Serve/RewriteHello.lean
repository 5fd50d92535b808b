import MongodProxy.Lib.Service
import MongodProxy.Message

/-!
# The hello rewrite (serve/rewrite_hello.rs)

`RewriteHelloService` forwards every request as it is and, when the request was a
`hello` or `isMaster` and the layer is enabled, removes the topology fields from the
top level of every document of every reply.
-/

namespace MongodProxy

/-- `TOPOLOGY_DISCOVERY_FIELDS`. -/
def topologyDiscoveryFields : List String :=
  ["setName", "setVersion", "electionId", "hosts", "passives", "arbiters", "primary", "me",
    "secondary", "arbiterOnly", "passive", "hidden", "tags", "lastWrite", "topologyVersion",
    "isreplicaset"]

def stripTopologyFields (doc : Document) : Document :=
  topologyDiscoveryFields.foldl Document.remove doc

def stripTopologyFromSection : OpMsgSection → OpMsgSection
  | .body doc => .body (stripTopologyFields doc)
  | .documentSequence identifier documents => .documentSequence identifier documents

def stripTopologyFromOperation : Operation → Operation
  | .message m => .message { m with sections := m.sections.map stripTopologyFromSection }
  | .reply r => .reply { r with documents := r.documents.map stripTopologyFields }
  | .query q => .query q

def stripTopologyFromMessage (msg : Message) : Message :=
  { msg with operation := stripTopologyFromOperation msg.operation }

def isHelloRequest (msg : Message) : Bool :=
  match msg.operation.commandName with
  | some name => name = "hello" || name = "isMaster" || name = "ismaster"
  | none => false

/-! ### What the rewrite keeps and what it removes -/

theorem entries_foldl_remove (fields : List String) (doc : Document) :
    (fields.foldl Document.remove doc).entries = doc.entries.filter fun e => e.1 ∉ fields := by
  induction fields generalizing doc with
  | nil => simp
  | cons field fields ih =>
    rw [List.foldl_cons, ih, Document.entries_remove, List.filter_filter]
    apply List.filter_congr
    intro e _
    simp [Bool.and_comm]

/-- None of the fields is left, and what is left is the other entries in their order. -/
structure HidesTopology (before after : Document) : Prop where
  hidden : ∀ field ∈ topologyDiscoveryFields, field ∉ after.keys
  kept : after.entries = before.entries.filter fun e => e.1 ∉ topologyDiscoveryFields

theorem stripTopologyFields_hides (doc : Document) :
    HidesTopology doc (stripTopologyFields doc) := by
  have hkept := entries_foldl_remove topologyDiscoveryFields doc
  refine ⟨?_, hkept⟩
  intro field hfield hmem
  unfold Document.keys stripTopologyFields at hmem
  rw [hkept] at hmem
  obtain ⟨e, he, rfl⟩ := List.mem_map.mp hmem
  have hnot := (List.mem_filter.mp he).2
  exact of_decide_eq_true hnot hfield

theorem stripTopologyFields_idem (doc : Document) :
    stripTopologyFields (stripTopologyFields doc) = stripTopologyFields doc := by
  apply Document.ext
  simp only [stripTopologyFields, entries_foldl_remove, List.filter_filter, Bool.and_self]

inductive SectionHides : OpMsgSection → OpMsgSection → Prop where
  | body {doc doc' : Document} (h : HidesTopology doc doc') : SectionHides (.body doc) (.body doc')
  | documentSequence (identifier : String) (documents : List Document) :
    SectionHides (.documentSequence identifier documents) (.documentSequence identifier documents)

inductive OperationHides : Operation → Operation → Prop where
  | message {m m' : OperationMessage} (flags : m'.flags = m.flags)
    (checksum : m'.checksum = m.checksum)
    (sections : List.Forall₂ SectionHides m.sections m'.sections) :
    OperationHides (.message m) (.message m')
  | reply {r r' : OperationReply} (flags : r'.flags = r.flags) (cursorId : r'.cursorId = r.cursorId)
    (startingFrom : r'.startingFrom = r.startingFrom)
    (documents : List.Forall₂ HidesTopology r.documents r'.documents) :
    OperationHides (.reply r) (.reply r')
  | query (q : OperationQuery) : OperationHides (.query q) (.query q)

structure MessageHides (before after : Message) : Prop where
  requestId : after.requestId = before.requestId
  responseTo : after.responseTo = before.responseTo
  operation : OperationHides before.operation after.operation

theorem stripTopologyFromSection_hides (s : OpMsgSection) :
    SectionHides s (stripTopologyFromSection s) := by
  cases s with
  | body doc => exact .body (stripTopologyFields_hides doc)
  | documentSequence identifier documents => exact .documentSequence identifier documents

theorem stripTopologyFromMessage_hides (msg : Message) :
    MessageHides msg (stripTopologyFromMessage msg) := by
  obtain ⟨requestId, responseTo, operation⟩ := msg
  refine ⟨rfl, rfl, ?_⟩
  cases operation with
  | message m =>
    refine .message rfl rfl ?_
    exact List.forall₂_map_right_iff.mpr
      (List.forall₂_same.mpr fun s _ => stripTopologyFromSection_hides s)
  | reply r =>
    refine .reply rfl rfl rfl ?_
    exact List.forall₂_map_right_iff.mpr
      (List.forall₂_same.mpr fun d _ => stripTopologyFields_hides d)
  | query q => exact .query q

theorem stripTopologyFromMessage_idem (msg : Message) :
    stripTopologyFromMessage (stripTopologyFromMessage msg) = stripTopologyFromMessage msg := by
  obtain ⟨requestId, responseTo, operation⟩ := msg
  cases operation with
  | message m =>
    have hsection : ∀ s, stripTopologyFromSection (stripTopologyFromSection s)
        = stripTopologyFromSection s := by
      intro s
      cases s with
      | body doc => simp only [stripTopologyFromSection, stripTopologyFields_idem]
      | documentSequence identifier documents => rfl
    simp only [stripTopologyFromMessage, stripTopologyFromOperation, List.map_map,
      Function.comp_def, hsection]
  | reply r =>
    simp only [stripTopologyFromMessage, stripTopologyFromOperation, List.map_map,
      Function.comp_def, stripTopologyFields_idem]
  | query q => rfl

/-! ### The service -/

structure RewriteHelloFuture (φ : Type) where
  fut : φ
  rewrite : Bool

structure RewriteHelloStream (τ : Type) where
  inner : τ
  rewrite : Bool

/- What `poll_next` makes of one item. -/
def rewriteItem {ε : Type} (rewrite : Bool) : Option (Except ε Message) → Option (Except ε Message)
  | some (.ok msg) => some (.ok (if rewrite then stripTopologyFromMessage msg else msg))
  | some (.error e) => some (.error e)
  | none => none

def Poll.rewrite {ε : Type} (rewrite : Bool) :
    Poll (Option (Except ε Message)) → Poll (Option (Except ε Message))
  | .pending => .pending
  | .ready item => .ready (rewriteItem rewrite item)

variable {ι σ φ τ ε κ : Type}

/-- `RewriteHelloService`. -/
def rewriteHelloService (inner : Service ι σ φ τ Message ε κ) (enabled : Bool) :
    Service ι σ (RewriteHelloFuture φ) (RewriteHelloStream τ) Message ε κ where
  call s req :=
    let rewrite := enabled && isHelloRequest req
    let c := inner.call s req
    (⟨c.1, rewrite⟩, c.2)
  pollCall i s f :=
    let p := inner.pollCall i s f.fut
    let answer := match p.answer with
      | .pending => .pending
      | .ready (.error e) => .ready (.error e)
      | .ready (.ok stream) => .ready (.ok ⟨stream, f.rewrite⟩)
    ⟨answer, ⟨p.self, f.rewrite⟩, p.state, p.events⟩
  pollNext i s st :=
    let p := inner.pollNext i s st.inner
    ⟨Poll.rewrite st.rewrite p.answer, ⟨p.self, st.rewrite⟩, p.state, p.events⟩

/-! ### Whole exchanges -/

open Service

def rewriteSeen (rewrite : Bool) : Seen Message ε → Seen Message ε
  | .call answer => .call answer
  | .next answer => .next (Poll.rewrite rewrite answer)

theorem watchStream_rewriteHello (inner : Service ι σ φ τ Message ε κ) (enabled : Bool)
    (is : List ι) (s : σ) (st : RewriteHelloStream τ) :
    (rewriteHelloService inner enabled).watchStream is s st
      = (inner.watchStream is s st.inner).map fun p => (rewriteSeen st.rewrite p.1, p.2) := by
  induction is generalizing s st with
  | nil => rfl
  | cons i is ih =>
    simp only [watchStream, List.map_cons, ih]
    rfl

theorem watchCall_rewriteHello (inner : Service ι σ φ τ Message ε κ) (enabled : Bool)
    (is : List ι) (s : σ) (f : RewriteHelloFuture φ) :
    (rewriteHelloService inner enabled).watchCall is s f
      = (inner.watchCall is s f.fut).map fun p => (rewriteSeen f.rewrite p.1, p.2) := by
  induction is generalizing s f with
  | nil => rfl
  | cons i is ih =>
    unfold watchCall
    simp only [rewriteHelloService]
    cases (inner.pollCall i s f.fut).answer with
    | pending =>
      simp only [List.map_cons]
      exact congrArg _ (ih _ _)
    | ready r =>
      cases r with
      | error e => rfl
      | ok stream =>
        simp only [List.map_cons]
        exact congrArg _ (watchStream_rewriteHello inner enabled is _ ⟨stream, f.rewrite⟩)

/-- The replies of an exchange through the layer, poll by poll. -/
theorem watch_rewriteHello (inner : Service ι σ φ τ Message ε κ) (enabled : Bool) (is : List ι)
    (s : σ) (req : Message) :
    (rewriteHelloService inner enabled).watch is s req
      = (inner.watch is s req).map fun p =>
          (rewriteSeen (enabled && isHelloRequest req) p.1, p.2) :=
  watchCall_rewriteHello inner enabled is _ _

theorem rewriteSeen_false (x : Seen Message ε) : rewriteSeen false x = x := by
  rcases x with - | ⟨- | (- | (e | m))⟩ <;> rfl

theorem rewriteSeen_idem (rewrite : Bool) (x : Seen Message ε) :
    rewriteSeen rewrite (rewriteSeen rewrite x) = rewriteSeen rewrite x := by
  cases rewrite with
  | false => rw [rewriteSeen_false]
  | true =>
    rcases x with - | ⟨- | (- | (e | m))⟩
    · rfl
    · rfl
    · rfl
    · rfl
    · simp only [rewriteSeen, Poll.rewrite, rewriteItem, if_true, stripTopologyFromMessage_idem]

/- A reply against its rewritten form; every other answer against itself. -/
inductive SeenHides : Seen Message ε → Seen Message ε → Prop where
  | reply {m m' : Message} (h : MessageHides m m') :
    SeenHides (.next (.ready (some (.ok m)))) (.next (.ready (some (.ok m'))))
  | other (x : Seen Message ε) (h : ∀ m, x ≠ .next (.ready (some (.ok m)))) : SeenHides x x

theorem rewriteSeen_hides (x : Seen Message ε) : SeenHides x (rewriteSeen true x) := by
  rcases x with answer | ⟨- | (- | (e | m))⟩
  · exact .other _ (fun m h => by cases h)
  · exact .other _ (fun m h => by cases h)
  · exact .other _ (fun m h => by cases h)
  · exact .other _ (fun m h => by cases h)
  · exact .reply (stripTopologyFromMessage_hides m)

theorem isHelloRequest_iff (req : Message) :
    isHelloRequest req = true
      ↔ ∃ name ∈ ["hello", "isMaster", "ismaster"], req.operation.commandName = some name := by
  unfold isHelloRequest
  cases req.operation.commandName with
  | none => simp
  | some name => simp [or_assoc]

/-- The request goes in unchanged. Unless the layer is enabled and the command is `hello` or
`isMaster`, every answer comes out unchanged; otherwise every reply comes out without its
topology fields and with everything else, and every other answer as it is. A second layer
changes nothing. -/
theorem rewriteHelloService_hides_topology (inner : Service ι σ φ τ Message ε κ) (enabled : Bool)
    (is : List ι) (s : σ) (req : Message) :
    ((rewriteHelloService inner enabled).call s req).1.fut = (inner.call s req).1 ∧
    ((rewriteHelloService inner enabled).call s req).2 = (inner.call s req).2 ∧
    ((enabled = false ∨ ∀ name ∈ ["hello", "isMaster", "ismaster"],
        req.operation.commandName ≠ some name) →
      (rewriteHelloService inner enabled).watch is s req = inner.watch is s req) ∧
    (enabled = true → (∃ name ∈ ["hello", "isMaster", "ismaster"],
        req.operation.commandName = some name) →
      List.Forall₂ (fun a b => SeenHides a.1 b.1 ∧ b.2 = a.2) (inner.watch is s req)
        ((rewriteHelloService inner enabled).watch is s req)) ∧
    (rewriteHelloService (rewriteHelloService inner enabled) enabled).watch is s req
      = (rewriteHelloService inner enabled).watch is s req := by
  refine ⟨rfl, rfl, ?_, ?_, ?_⟩
  · intro hoff
    have hrewrite : (enabled && isHelloRequest req) = false := by
      rcases hoff with hoff | hoff
      · simp [hoff]
      · have hnot : isHelloRequest req = false := by
          by_contra hyes
          obtain ⟨name, hmem, heq⟩ := (isHelloRequest_iff req).mp (by simpa using hyes)
          exact hoff name hmem heq
        simp [hnot]
    rw [watch_rewriteHello, hrewrite]
    simp only [rewriteSeen_false, Prod.mk.eta, List.map_id']
  · intro hon hname
    have hrewrite : (enabled && isHelloRequest req) = true := by
      simp [hon, (isHelloRequest_iff req).mpr hname]
    rw [watch_rewriteHello, hrewrite]
    exact List.forall₂_map_right_iff.mpr
      (List.forall₂_same.mpr fun p _ => ⟨rewriteSeen_hides p.1, rfl⟩)
  · rw [watch_rewriteHello, watch_rewriteHello, List.map_map]
    simp only [Function.comp_def, rewriteSeen_idem]

end MongodProxy
