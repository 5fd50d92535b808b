import MongodProxy.Serve.Probe
import MongodProxy.Serve.ProxyClient
import MongodProxy.Serve.RewriteHello

/-!
# The hello probe (serve/probe.rs, `HelloProbe`)

A probe dials a host, sends one `hello` through a `ProxyClient` of its own, and looks in the
first reply for a boolean that says whether the host is the primary. It is a machine with
one phase for each await, over any service in place of the client; the answers of the
sockets are inputs. `select_primary` races one probe for each host, under a timeout.
-/

namespace MongodProxy

namespace Document

/-- `get_bool`, with any error as `none`. -/
def getBool (d : Document) (key : String) : Option Bool :=
  match d.get key with
  | some (.boolean b) => some b
  | _ => none

end Document

/- `γ` is why a connect failed, `ε` what the client fails with. -/
inductive ProbeError (γ ε : Type) where
  | connect (e : γ)
  | request (e : ε)
  | noReply
  | response (e : ε)
  | malformedReply

namespace HelloProbe
open Service

/-! ### The request and the reply -/

/- Constants of the build. -/
structure ClientMetadata where
  version : String
  os : String
  arch : String

def clientMetadata (build : ClientMetadata) : Document :=
  let driver := (Document.new.insert "name" (.string "mongod-proxy")).insert "version"
    (.string build.version)
  let os := (Document.new.insert "type" (.string build.os)).insert "architecture"
    (.string build.arch)
  ((Document.new.insert "driver" (.document driver.entries)).insert "os"
    (.document os.entries)).insert "platform" (.string "Rust")

def buildHelloRequest (build : ClientMetadata) : Message where
  requestId := ⟨1⟩
  responseTo := none
  operation := .message {
    flags := .empty
    sections := [.body (((Document.new.insert "hello" (.int32 1)).insert "$db" (.string "admin")).insert
      "client" (.document (clientMetadata build).entries))]
    checksum := none }

/- The body of a section decides if it has one of the two booleans, the modern one first. -/
def primaryOfSection : OpMsgSection → Option Bool
  | .body doc =>
    match doc.getBool "isWritablePrimary" with
    | some v => some v
    | none => doc.getBool "ismaster"
  | .documentSequence _ _ => none

def extractIsWritablePrimary (msg : Message) : Option Bool :=
  match msg.operation with
  | .message opMsg => opMsg.sections.findSome? primaryOfSection
  | _ => none

/- The request wants a reply. -/
theorem moreToCome_hello (build : ClientMetadata) :
    moreToCome (buildHelloRequest build).operation = false := by
  simp only [buildHelloRequest, moreToCome, OperationMessageFlags.contains]
  decide

/-! ### The machine -/

inductive Phase (γ ε φ τ : Type) where
  | connecting
  | calling (f : φ)
  | replying (t : τ)
  | settled (result : Except (ProbeError γ ε) Bool)

/- What `connect` answers, and the input for the client. -/
structure ProbeIo (γ ι : Type) where
  connect : Poll (Except γ Unit)
  client : ι

structure State (γ ε σ φ τ κ : Type) where
  phase : Phase γ ε φ τ
  client : σ
  log : List κ

variable {γ ε ι σ φ τ κ : Type} (S : Service ι σ φ τ Message ε κ) (build : ClientMetadata)

def start (s : σ) : State γ ε σ φ τ κ := ⟨.connecting, s, []⟩

/- The first reply decides; the stream is not polled again. -/
def judge (reply : Message) : Except (ProbeError γ ε) Bool :=
  match extractIsWritablePrimary reply with
  | some isPrimary => .ok isPrimary
  | none => .error .malformedReply

def step (p : State γ ε σ φ τ κ) (io : ProbeIo γ ι) : State γ ε σ φ τ κ :=
  match p.phase with
  | .connecting =>
    match io.connect with
    | .pending => p
    | .ready (.error e) => { p with phase := .settled (.error (.connect e)) }
    | .ready (.ok ()) =>
      let c := S.call p.client (buildHelloRequest build)
      ⟨.calling c.1, c.2.1, p.log ++ c.2.2⟩
  | .calling f =>
    let q := S.pollCall io.client p.client f
    let log := p.log ++ q.events
    match q.answer with
    | .pending => ⟨.calling q.self, q.state, log⟩
    | .ready (.error e) => ⟨.settled (.error (.request e)), q.state, log⟩
    | .ready (.ok t) => ⟨.replying t, q.state, log⟩
  | .replying t =>
    let q := S.pollNext io.client p.client t
    let log := p.log ++ q.events
    match q.answer with
    | .pending => ⟨.replying q.self, q.state, log⟩
    | .ready none => ⟨.settled (.error .noReply), q.state, log⟩
    | .ready (some (.error e)) => ⟨.settled (.error (.response e)), q.state, log⟩
    | .ready (some (.ok reply)) => ⟨.settled (judge reply), q.state, log⟩
  | .settled _ => p

def run (p : State γ ε σ φ τ κ) (ios : List (ProbeIo γ ι)) : State γ ε σ φ τ κ :=
  ios.foldl (step S build) p

/-- What the probe has come to. -/
def State.result (p : State γ ε σ φ τ κ) : Option (Except (ProbeError γ ε) Bool) :=
  match p.phase with
  | .settled result => some result
  | _ => none

theorem run_invariant (Inv : State γ ε σ φ τ κ → Prop)
    (hstep : ∀ p io, Inv p → Inv (step S build p io)) (p : State γ ε σ φ τ κ) (hp : Inv p)
    (ios : List (ProbeIo γ ι)) : Inv (run S build p ios) := by
  induction ios generalizing p with
  | nil => exact hp
  | cons io ios ih => exact ih (step S build p io) (hstep p io hp)

/-! ### Over the upstream client -/

section
variable {β : Type}

abbrev ClientState (γ β : Type) := State γ (ProxyClientRequestError β) ProxyClientInner
  ProxyClientRequestFuture ProxyResponseStream UpstreamEvent

/-- What a probe ends with, and the frames that went over its socket by then. -/
inductive Outcome : Except (ProbeError γ (ProxyClientRequestError β)) Bool → List UpstreamEvent →
    Prop where
  | connect (e : γ) : Outcome (.error (.connect e)) []
  | request (e : ProxyClientRequestError β) : Outcome (.error (.request e)) []
  | response (e : ProxyClientRequestError β) :
    Outcome (.error (.response e)) [.wrote (buildHelloRequest build)]
  | judged (reply : Message) :
    Outcome (judge reply) [.wrote (buildHelloRequest build), .read reply]

/- What is known in each phase. -/
def ProbeInv (p : ClientState γ β) : Prop :=
  match p.phase with
  | .connecting => p.log = []
  | .calling f => f.req = buildHelloRequest build ∧ f.fireAndForget = false ∧ p.log = []
  | .replying t => t = .streaming ∧ p.log = [.wrote (buildHelloRequest build)]
  | .settled result => Outcome build result p.log

theorem probeInv_calling {s : ProxyClientInner} {f : ProxyClientRequestFuture}
    {log : List UpstreamEvent} (h : ProbeInv build (⟨.calling f, s, log⟩ : ClientState γ β))
    (io : ProbeIo γ (UpstreamIo β)) :
    ProbeInv build (step ProxyClient.service build (⟨.calling f, s, log⟩ : ClientState γ β) io) := by
  obtain ⟨req, fire, stage⟩ := f
  obtain ⟨hreq, hfire, hlog⟩ := h
  simp only at hreq hfire hlog
  subst hreq hfire hlog
  cases stage with
  | locking =>
    by_cases hgrant : s.locked = false ∧ io.client.grant = true
    · simp only [step, ProxyClient.service, ProxyClient.pollCall, if_pos hgrant]
      exact ⟨rfl, rfl, rfl⟩
    · simp only [step, ProxyClient.service, ProxyClient.pollCall, if_neg hgrant]
      exact ⟨rfl, rfl, rfl⟩
  | sending =>
    rcases hio : io.client.send with - | (e | u)
    · simp only [step, ProxyClient.service, ProxyClient.pollCall, hio]
      exact ⟨rfl, rfl, rfl⟩
    · simp only [step, ProxyClient.service, ProxyClient.pollCall, hio]
      exact .request _
    · simp only [step, ProxyClient.service, ProxyClient.pollCall, hio, Bool.false_eq_true, if_false]
      exact ⟨rfl, rfl⟩

/- The stream of a request that wants a reply never ends before it. -/
theorem probeInv_replying {s : ProxyClientInner} {t : ProxyResponseStream}
    {log : List UpstreamEvent} (h : ProbeInv build (⟨.replying t, s, log⟩ : ClientState γ β))
    (io : ProbeIo γ (UpstreamIo β)) :
    ProbeInv build (step ProxyClient.service build (⟨.replying t, s, log⟩ : ClientState γ β) io) := by
  obtain ⟨ht, hlog⟩ := h
  simp only at hlog
  subst ht hlog
  rcases hio : io.client.read with - | (- | (e | reply))
  · simp only [step, ProxyClient.service, ProxyClient.pollNext, hio]
    exact ⟨rfl, rfl⟩
  · simp only [step, ProxyClient.service, ProxyClient.pollNext, hio]
    exact .response _
  · simp only [step, ProxyClient.service, ProxyClient.pollNext, hio]
    exact .response _
  · cases hm : moreToCome reply.operation with
    | true =>
      simp only [step, ProxyClient.service, ProxyClient.pollNext, hio, hm, if_true]
      exact .judged reply
    | false =>
      simp only [step, ProxyClient.service, ProxyClient.pollNext, hio, hm, Bool.false_eq_true,
        if_false]
      exact .judged reply

theorem probeInv_step {p : ClientState γ β} (h : ProbeInv build p) (io : ProbeIo γ (UpstreamIo β)) :
    ProbeInv build (step ProxyClient.service build p io) := by
  obtain ⟨phase, s, log⟩ := p
  cases phase with
  | connecting =>
    have hlog : log = [] := h
    subst hlog
    rcases hio : io.connect with - | (e | u)
    · simp only [step, hio]
      exact h
    · simp only [step, hio]
      exact .connect e
    · simp only [step, hio, ProxyClient.service, ProxyClient.call]
      exact ⟨rfl, moreToCome_hello build, rfl⟩
  | calling f => exact probeInv_calling build h io
  | replying t => exact probeInv_replying build h io
  | settled result => exact h

theorem probeInv_run (s : ProxyClientInner) (ios : List (ProbeIo γ (UpstreamIo β))) :
    ProbeInv build (run ProxyClient.service build (start s : ClientState γ β) ios) :=
  run_invariant ProxyClient.service build (ProbeInv build) (fun _ io h => probeInv_step build h io)
    (start s) rfl ios

end

/-! ### Behind a proxy that hides the topology -/

theorem find_foldl_remove {fields : List String} {key : String} (hkey : key ∉ fields)
    (doc : Document) : (fields.foldl Document.remove doc).get key = doc.get key := by
  unfold Document.get
  rw [entries_foldl_remove, List.find?_filter]
  congr 2
  funext e
  by_cases he : e.1 = key
  · simp [he, hkey]
  · simp [he]

theorem getBool_stripTopologyFields {key : String} (hkey : key ∉ topologyDiscoveryFields)
    (doc : Document) : (stripTopologyFields doc).getBool key = doc.getBool key := by
  unfold Document.getBool stripTopologyFields
  rw [find_foldl_remove hkey]

theorem primaryOfSection_strip (s : OpMsgSection) :
    primaryOfSection (stripTopologyFromSection s) = primaryOfSection s := by
  cases s with
  | body doc =>
    have hmodern :=
      getBool_stripTopologyFields (by decide : "isWritablePrimary" ∉ topologyDiscoveryFields) doc
    have hlegacy :=
      getBool_stripTopologyFields (by decide : "ismaster" ∉ topologyDiscoveryFields) doc
    simp only [stripTopologyFromSection, primaryOfSection, hmodern, hlegacy]
  | documentSequence identifier documents => rfl

/- The rewrite keeps the two fields that the probe looks for. -/
theorem extractIsWritablePrimary_strip (msg : Message) :
    extractIsWritablePrimary (stripTopologyFromMessage msg) = extractIsWritablePrimary msg := by
  obtain ⟨requestId, responseTo, operation⟩ := msg
  cases operation with
  | message m =>
    simp only [extractIsWritablePrimary, stripTopologyFromMessage, stripTopologyFromOperation,
      List.findSome?_map, Function.comp_def, primaryOfSection_strip]
  | reply r => rfl
  | query q => rfl

theorem moreToCome_strip (msg : Message) :
    moreToCome (stripTopologyFromMessage msg).operation = moreToCome msg.operation := by
  obtain ⟨requestId, responseTo, operation⟩ := msg
  cases operation <;> rfl

section
variable {β : Type}

/-- The input when the host answers through a proxy that removes the topology from replies. -/
def ProbeIo.behind (rewrite : Bool) (io : ProbeIo γ (UpstreamIo β)) : ProbeIo γ (UpstreamIo β) :=
  { io with client := { io.client with read := Poll.rewrite rewrite io.client.read } }

theorem judge_strip (msg : Message) :
    (judge (stripTopologyFromMessage msg) : Except (ProbeError γ ε) Bool) = judge msg := by
  unfold judge
  rw [extractIsWritablePrimary_strip]

/- The two runs differ in the replies of the log only. -/
def Alike (p q : ClientState γ β) : Prop := p.phase = q.phase ∧ p.client = q.client

theorem alike_replying {p q : ClientState γ β} {t : ProxyResponseStream}
    (hp : p.phase = .replying t) (h : Alike p q) (rewrite : Bool)
    (io : ProbeIo γ (UpstreamIo β)) :
    Alike (step ProxyClient.service build p (io.behind rewrite))
      (step ProxyClient.service build q io) := by
  have hq : q.phase = .replying t := h.1.symm.trans hp
  cases t with
  | done =>
    simp only [step, hp, hq, ProxyClient.service, ProxyClient.pollNext]
    exact ⟨rfl, h.2⟩
  | streaming =>
    rcases hio : io.client.read with - | (- | (e | reply))
    · simp only [step, hp, hq, ProxyClient.service, ProxyClient.pollNext, ProbeIo.behind, hio,
        Poll.rewrite]
      exact ⟨rfl, h.2⟩
    · simp only [step, hp, hq, ProxyClient.service, ProxyClient.pollNext, ProbeIo.behind, hio,
        Poll.rewrite, rewriteItem]
      exact ⟨rfl, rfl⟩
    · simp only [step, hp, hq, ProxyClient.service, ProxyClient.pollNext, ProbeIo.behind, hio,
        Poll.rewrite, rewriteItem]
      exact ⟨rfl, rfl⟩
    · have hmore : moreToCome (if rewrite = true then stripTopologyFromMessage reply else
          reply).operation = moreToCome reply.operation := by
        cases rewrite with
        | true => exact moreToCome_strip reply
        | false => rfl
      have hjudge : (judge (if rewrite = true then stripTopologyFromMessage reply else reply) :
          Except (ProbeError γ (ProxyClientRequestError β)) Bool) = judge reply := by
        cases rewrite with
        | true => exact judge_strip reply
        | false => rfl
      cases hm : moreToCome reply.operation with
      | true =>
        simp only [step, hp, hq, ProxyClient.service, ProxyClient.pollNext, ProbeIo.behind, hio,
          Poll.rewrite, rewriteItem, hmore, hm, if_true]
        exact ⟨congrArg Phase.settled hjudge, h.2⟩
      | false =>
        simp only [step, hp, hq, ProxyClient.service, ProxyClient.pollNext, ProbeIo.behind, hio,
          Poll.rewrite, rewriteItem, hmore, hm, Bool.false_eq_true, if_false]
        exact ⟨congrArg Phase.settled hjudge, rfl⟩

theorem alike_step {p q : ClientState γ β} (h : Alike p q) (rewrite : Bool)
    (io : ProbeIo γ (UpstreamIo β)) :
    Alike (step ProxyClient.service build p (io.behind rewrite))
      (step ProxyClient.service build q io) := by
  cases hp : p.phase with
  | connecting =>
    have hq : q.phase = .connecting := h.1.symm.trans hp
    rcases hio : io.connect with - | (e | u)
    · simp only [step, hp, hq, ProbeIo.behind, hio]
      exact h
    · simp only [step, hp, hq, ProbeIo.behind, hio]
      exact ⟨rfl, h.2⟩
    · simp only [step, hp, hq, ProbeIo.behind, hio, h.2]
      exact ⟨rfl, rfl⟩
  | calling f =>
    have hq : q.phase = .calling f := h.1.symm.trans hp
    -- the call does not read
    have hpoll : ProxyClient.service.pollCall (io.behind rewrite).client q.client f
        = ProxyClient.service.pollCall io.client q.client f := rfl
    simp only [step, hp, hq, h.2, hpoll]
    rcases (ProxyClient.service.pollCall io.client q.client f).answer with - | (e | t)
    · exact ⟨rfl, rfl⟩
    · exact ⟨rfl, rfl⟩
    · exact ⟨rfl, rfl⟩
  | replying t => exact alike_replying build hp h rewrite io
  | settled result =>
    have hq : q.phase = .settled result := h.1.symm.trans hp
    simp only [step, hp, hq]
    exact h

theorem alike_run (rewrite : Bool) {p q : ClientState γ β} (h : Alike p q)
    (ios : List (ProbeIo γ (UpstreamIo β))) :
    Alike (run ProxyClient.service build p (ios.map (ProbeIo.behind rewrite)))
      (run ProxyClient.service build q ios) := by
  induction ios generalizing p q with
  | nil => exact h
  | cons io ios ih => exact ih (alike_step build h rewrite io)

theorem result_behind (rewrite : Bool) (s : ProxyClientInner)
    (ios : List (ProbeIo γ (UpstreamIo β))) :
    (run ProxyClient.service build (start s : ClientState γ β)
        (ios.map (ProbeIo.behind rewrite))).result
      = (run ProxyClient.service build (start s : ClientState γ β) ios).result := by
  have halike : Alike (start s : ClientState γ β) (start s) := ⟨rfl, rfl⟩
  unfold State.result
  rw [(alike_run build rewrite halike ios).1]

/-! ### The race -/

/-- What `tokio::time::timeout` makes of a probe: its result if it has one by the deadline. -/
def State.raced (p : ClientState γ β) :
    ProbeResult (ProbeError γ (ProxyClientRequestError β)) :=
  match p.result with
  | some result => .ok result
  | none => .error .elapsed

/-- `select_primary` with a probe for each position; `ios i` is what the socket of position `i`
answers up to its deadline. -/
def selectByHello (hosts : List SrvHost) (clients : ℕ → ProxyClientInner)
    (ios : ℕ → List (ProbeIo γ (UpstreamIo β))) (order : List ℕ) :
    Option (Selection (ProbeError γ (ProxyClientRequestError β))) :=
  selectPrimary hosts
    (fun i => (run ProxyClient.service build (start (clients i)) (ios i)).raced) order

/-- Why a host is rejected, against what went over its socket. -/
inductive Rejected : List UpstreamEvent → ProbeOutcome (ProbeError γ (ProxyClientRequestError β)) →
    Prop where
  | notPrimary (reply : Message) (h : extractIsWritablePrimary reply = some false) :
    Rejected [.wrote (buildHelloRequest build), .read reply] .notPrimary
  | malformed (reply : Message) (h : extractIsWritablePrimary reply = none) :
    Rejected [.wrote (buildHelloRequest build), .read reply] (.failed .malformedReply)
  | connect (e : γ) : Rejected [] (.failed (.connect e))
  | request (e : ProxyClientRequestError β) : Rejected [] (.failed (.request e))
  | response (e : ProxyClientRequestError β) :
    Rejected [.wrote (buildHelloRequest build)] (.failed (.response e))
  | unsent : Rejected [] .timedOut
  | unanswered : Rejected [.wrote (buildHelloRequest build)] .timedOut

/-- The socket saw the request and then a reply that says the host is the primary. -/
def SaidPrimary (log : List UpstreamEvent) : Prop :=
  ∃ reply, log = [.wrote (buildHelloRequest build), .read reply] ∧
    extractIsWritablePrimary reply = some true

theorem rejected_of_ownOutcome (s : ProxyClientInner) (ios : List (ProbeIo γ (UpstreamIo β)))
    {outcome : ProbeOutcome (ProbeError γ (ProxyClientRequestError β))}
    (h : OwnOutcome (run ProxyClient.service build (start s : ClientState γ β) ios).raced outcome) :
    Rejected build (run ProxyClient.service build (start s : ClientState γ β) ios).log outcome := by
  have hinv := probeInv_run build s ios
  generalize run ProxyClient.service build (start s : ClientState γ β) ios = p at h hinv
  obtain ⟨phase, client, log⟩ := p
  cases phase with
  | connecting =>
    have hlog : log = [] := hinv
    subst hlog
    cases h
    exact .unsent
  | calling f =>
    obtain ⟨-, -, hlog⟩ := hinv
    simp only at hlog
    subst hlog
    cases h
    exact .unsent
  | replying t =>
    obtain ⟨-, hlog⟩ := hinv
    simp only at hlog
    subst hlog
    cases h
    exact .unanswered
  | settled result =>
    have hout : Outcome build result log := hinv
    have hraced : OwnOutcome (.ok result) outcome := h
    cases hout with
    | connect e =>
      cases hraced
      exact .connect e
    | request e =>
      cases hraced
      exact .request e
    | response e =>
      cases hraced
      exact .response e
    | judged reply =>
      cases hextract : extractIsWritablePrimary reply with
      | none =>
        simp only [judge, hextract] at hraced
        cases hraced
        exact .malformed reply hextract
      | some b =>
        simp only [judge, hextract] at hraced
        cases hraced
        exact .notPrimary reply hextract

theorem raced_true_iff (s : ProxyClientInner) (ios : List (ProbeIo γ (UpstreamIo β))) :
    (run ProxyClient.service build (start s : ClientState γ β) ios).raced = .ok (.ok true)
      ↔ SaidPrimary build (run ProxyClient.service build (start s : ClientState γ β) ios).log := by
  have hinv := probeInv_run build s ios
  generalize run ProxyClient.service build (start s : ClientState γ β) ios = p at hinv
  obtain ⟨phase, client, log⟩ := p
  cases phase with
  | connecting =>
    have hlog : log = [] := hinv
    subst hlog
    simp [State.raced, State.result, SaidPrimary]
  | calling f =>
    obtain ⟨-, -, hlog⟩ := hinv
    simp only at hlog
    subst hlog
    simp [State.raced, State.result, SaidPrimary]
  | replying t =>
    obtain ⟨-, hlog⟩ := hinv
    simp only at hlog
    subst hlog
    simp [State.raced, State.result, SaidPrimary]
  | settled result =>
    have hout : Outcome build result log := hinv
    cases hout with
    | connect e => simp [State.raced, State.result, SaidPrimary]
    | request e => simp [State.raced, State.result, SaidPrimary]
    | response e => simp [State.raced, State.result, SaidPrimary]
    | judged reply =>
      cases hextract : extractIsWritablePrimary reply with
      | none => simp [State.raced, State.result, SaidPrimary, judge, hextract]
      | some b => simp [State.raced, State.result, SaidPrimary, judge, hextract]

/-- The host selected is the first to have answered the `hello` with a reply that says it is the
primary; without one, every position is reported, in the order the probes completed, with a reason
that its own socket bears out. -/
theorem selection_by_hello (hosts : List SrvHost) (clients : ℕ → ProxyClientInner)
    (ios : ℕ → List (ProbeIo γ (UpstreamIo β))) (order : List ℕ)
    (hperm : order.Perm (List.range hosts.length)) :
    (∃ front i rest host, order = front ++ i :: rest ∧ hosts[i]? = some host ∧
      SaidPrimary build (run ProxyClient.service build (start (clients i) : ClientState γ β)
        (ios i)).log ∧
      (∀ j ∈ front, ¬ SaidPrimary build (run ProxyClient.service build
        (start (clients j) : ClientState γ β) (ios j)).log) ∧
      selectByHello build hosts clients ios order = some (.primary host)) ∨
    ∃ attempts, selectByHello build hosts clients ios order = some (.noPrimary attempts) ∧
      List.Forall₂ (fun i a => hosts[i]? = some a.1 ∧
        Rejected build (run ProxyClient.service build (start (clients i) : ClientState γ β)
          (ios i)).log a.2) order attempts := by
  have hloop := selectLoop_of_perm
    (fun i => (run ProxyClient.service build (start (clients i) : ClientState γ β) (ios i)).raced)
    (.start hosts) order hperm (fun i hi => List.mem_range.mp hi)
  rcases hloop with ⟨front, i, rest, host, hsplit, htrue, hfront, hhost, hsel⟩ |
    ⟨attempts, -, hattempts, hsel⟩
  · left
    refine ⟨front, i, rest, host, hsplit, hhost, (raced_true_iff build _ _).mp htrue, ?_, hsel⟩
    intro j hj hsaid
    exact hfront j hj ((raced_true_iff build _ _).mpr hsaid)
  · right
    refine ⟨attempts, hsel, hattempts.imp ?_⟩
    intro i a h
    exact ⟨h.1, rejected_of_ownOutcome build _ _ h.2⟩

/- The first host refuses the connection, the second one answers. -/
def refusedThenPrimary (i : ℕ) : List (ProbeIo Unit (UpstreamIo Unit)) :=
  if i = 0 then [⟨.ready (.error ()), ⟨false, .pending, .pending⟩⟩]
  else
    let reply : Message := ⟨⟨7⟩, none, .message ⟨.empty,
      [.body (Document.new.insert "isWritablePrimary" (.boolean true))], none⟩⟩
    [⟨.ready (.ok ()), ⟨false, .pending, .pending⟩⟩, ⟨.pending, ⟨true, .pending, .pending⟩⟩,
      ⟨.pending, ⟨false, .ready (.ok ()), .pending⟩⟩,
      ⟨.pending, ⟨false, .pending, .ready (some (.ok reply))⟩⟩]

theorem refusedThenPrimary_selects :
    ∃ front i rest host, [0, 1] = front ++ i :: rest ∧
      ([⟨['a'], 1⟩, ⟨['b'], 1⟩] : List SrvHost)[i]? = some host ∧
      SaidPrimary ⟨"0", "linux", "x86_64"⟩ (run ProxyClient.service ⟨"0", "linux", "x86_64"⟩
        (start ⟨false⟩ : ClientState Unit Unit) (refusedThenPrimary i)).log ∧
      selectByHello ⟨"0", "linux", "x86_64"⟩ [⟨['a'], 1⟩, ⟨['b'], 1⟩] (fun _ => ⟨false⟩)
        refusedThenPrimary [0, 1] = some (.primary host) := by
  have hsel : selectByHello ⟨"0", "linux", "x86_64"⟩ [⟨['a'], 1⟩, ⟨['b'], 1⟩] (fun _ => ⟨false⟩)
      refusedThenPrimary [0, 1] = some (.primary ⟨['b'], 1⟩) := rfl
  rcases selection_by_hello ⟨"0", "linux", "x86_64"⟩ [⟨['a'], 1⟩, ⟨['b'], 1⟩] (fun _ => ⟨false⟩)
      refusedThenPrimary [0, 1] (by decide) with
    ⟨front, i, rest, host, hsplit, hhost, hsaid, -, hprimary⟩ | ⟨attempts, hnone, -⟩
  · exact ⟨front, i, rest, host, hsplit, hhost, hsaid, hprimary⟩
  · cases hsel.symm.trans hnone

/-- Whichever of the hosts answer through a proxy that removes the topology from its replies, the
selection is the same: the host, or each host's reason. -/
theorem selection_through_rewrite (hosts : List SrvHost) (clients : ℕ → ProxyClientInner)
    (ios : ℕ → List (ProbeIo γ (UpstreamIo β))) (behind : ℕ → Bool) (order : List ℕ) :
    selectByHello build hosts clients (fun i => (ios i).map (ProbeIo.behind (behind i))) order
      = selectByHello build hosts clients ios order := by
  have hraced : ∀ i, (run ProxyClient.service build (start (clients i) : ClientState γ β)
        ((ios i).map (ProbeIo.behind (behind i)))).raced
      = (run ProxyClient.service build (start (clients i) : ClientState γ β) (ios i)).raced := by
    intro i
    unfold State.raced
    rw [result_behind]
  simp only [selectByHello, hraced]

end

end HelloProbe

end MongodProxy
