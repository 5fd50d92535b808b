import MongodProxy.Serve.Explain.Session
import MongodProxy.Serve.Stack

/-!
# What the explain layer puts on the upstream socket

The explain layer on top of what `Proxy` serves a client with. Of every turn it is said which
frames go over the upstream socket, in which order: the request, its replies up to the one
that ends them, and only then the layer's own message and the replies to that.
-/

namespace Service

variable {ι σ φ τ μ ε κ : Type}

/- The service's own events. -/
def ownOf (events : List (Traffic κ μ ε)) : List κ :=
  events.filterMap fun | .own e => some e | _ => none

theorem ownOf_append (es es' : List (Traffic κ μ ε)) : ownOf (es ++ es') = ownOf es ++ ownOf es' :=
  List.filterMap_append

theorem ownOf_map_own (es : List κ) : ownOf (es.map .own : List (Traffic κ μ ε)) = es := by
  induction es with
  | nil => rfl
  | cons e es ih => exact congrArg (e :: ·) ih

theorem ownOf_pollDrain (S : Service ι σ φ τ μ ε κ) (i : ι) (s : σ) (d : Drain φ τ μ) :
    ownOf (S.tapped.pollDrain i s d).events = (S.pollDrain i s d).events := by
  cases d with
  | calling f =>
    simp only [pollDrain, tapped]
    rcases (S.pollCall i s f).answer with - | (e | t)
    · simp only [callTraffic, ownOf_append, ownOf_map_own]
      exact List.append_nil _
    · simp only [callTraffic, ownOf_append, ownOf_map_own]
      exact List.append_nil _
    · simp only [callTraffic, ownOf_append, ownOf_map_own]
      exact List.append_nil _
  | draining t out =>
    simp only [pollDrain, tapped]
    rcases (S.pollNext i s t).answer with - | (- | (e | m))
    · simp only [nextTraffic, ownOf_append, ownOf_map_own]
      exact List.append_nil _
    · simp only [nextTraffic, ownOf_append, ownOf_map_own]
      exact List.append_nil _
    · simp only [nextTraffic, ownOf_append, ownOf_map_own]
      exact List.append_nil _
    · simp only [nextTraffic, ownOf_append, ownOf_map_own]
      exact List.append_nil _

/-- Watching a service changes nothing but the events. -/
theorem drainRun_tapped (S : Service ι σ φ τ μ ε κ) (is : List ι) (s : σ) (d : Drain φ τ μ) :
    (S.tapped.drainRun is s d).self = (S.drainRun is s d).self ∧
      ownOf (S.tapped.drainRun is s d).events = (S.drainRun is s d).events := by
  induction is generalizing s d with
  | nil => exact ⟨rfl, rfl⟩
  | cons i is ih =>
    obtain ⟨ha, hself, hstate⟩ := pollDrain_tapped S i s d
    have hown := ownOf_pollDrain S i s d
    cases hp : (S.pollDrain i s d).answer with
    | pending =>
      obtain ⟨ihself, ihown⟩ := ih (S.pollDrain i s d).state (S.pollDrain i s d).self
      rw [drainRun_of_pending S hp, drainRun_of_pending S.tapped (ha.trans hp), hself, hstate]
      refine ⟨ihself, ?_⟩
      simp only [Drained.after, ownOf_append, hown, ihown]
    | ready answer =>
      rw [drainRun_of_ready S hp, drainRun_of_ready S.tapped (ha.trans hp)]
      exact ⟨hself, hown⟩

theorem exchange_tapped (S : Service ι σ φ τ μ ε κ) (s : σ) (req : μ) (is : List ι) :
    (S.tapped.exchange s req is).self = (S.exchange s req is).self ∧
      ownOf (S.tapped.exchange s req is).events = (S.exchange s req is).events := by
  obtain ⟨hself, hown⟩ := drainRun_tapped S is (S.call s req).2.1 (.calling (S.call s req).1)
  refine ⟨hself, ?_⟩
  show ownOf ([.called req] ++ (S.call s req).2.2.map .own ++ _) = _
  rw [ownOf_append, ownOf_append, ownOf_map_own]
  exact congrArg ((S.call s req).2.2 ++ ·) hown

end Service

namespace MongodProxy.Explain
open MongodProxy Service

variable {β : Type}

/-! ### One exchange over the upstream socket -/

/-- What `Proxy` serves a client with. -/
abbrev proxyService (β : Type) (enabled : Bool) :=
  rewriteHelloService (ProxyClient.service (β := β)) enabled

abbrev ProxyDrain :=
  Drain (RewriteHelloFuture ProxyClientRequestFuture) (RewriteHelloStream ProxyResponseStream) Message

/-- The replies to a request are all there: none if it asked for none, else up to the first one
that announces no more. -/
def AllRead (req : Message) (reads : List Message) : Prop :=
  if moreToCome req.operation then reads = []
  else ∃ front last, reads = front ++ [last] ∧ (∀ m ∈ front, moreToCome m.operation = true) ∧
    moreToCome last.operation = false

/- What the client gets for a reply. -/
def rewritten (enabled : Bool) (req reply : Message) : Message :=
  (Stack.rewriteReply enabled (some req, reply)).2

/- The frames of an exchange: the request and the replies read so far. -/
def frames (req : Message) (reads : List Message) : List UpstreamEvent :=
  .wrote req :: reads.map .read

/-- How far an exchange has come on the socket: the request is not written yet, or it is and
these replies were read and passed on. An answer means that all of them were read. -/
def OnSocket (enabled : Bool) (req : Message) (es : List UpstreamEvent)
    (answer : Option (Except (ProxyClientRequestError β) (List Message)))
    (collected : List Message) : Prop :=
  (es = [] ∧ collected = [] ∧ ∀ replies, answer ≠ some (.ok replies)) ∨
    ∃ reads, es = frames req reads ∧ collected = reads.map (rewritten enabled req) ∧
      ∀ replies, answer = some (.ok replies) → replies = collected ∧ AllRead req reads

def StreamInv (req : Message) (reads : List Message) : ProxyResponseStream → Prop
  | .done => AllRead req reads
  | .streaming => moreToCome req.operation = false ∧ ∀ m ∈ reads, moreToCome m.operation = true

/- What is known while the exchange is going on. -/
def DrainInv (enabled : Bool) (req : Message) (es : List UpstreamEvent) :
    ProxyDrain → Prop
  | .calling f => f.rewrite = (enabled && isHelloRequest req) ∧ f.fut.req = req ∧
      f.fut.fireAndForget = moreToCome req.operation ∧ es = []
  | .draining t out => t.rewrite = (enabled && isHelloRequest req) ∧
      ∃ reads, es = frames req reads ∧ out = reads.map (rewritten enabled req) ∧
        StreamInv req reads t.inner

/- What a poll of it leaves. -/
def PollInv (enabled : Bool) (req : Message) (es : List UpstreamEvent)
    (p : Polled (Except (ProxyClientRequestError β) (List Message)) ProxyDrain ProxyClientInner
      UpstreamEvent) : Prop :=
  match p.answer with
  | .pending => DrainInv enabled req (es ++ p.events) p.self
  | .ready answer => OnSocket enabled req (es ++ p.events) (some answer) p.self.collected

theorem DrainInv.onSocket {enabled : Bool} {req : Message} {es : List UpstreamEvent}
    {d : ProxyDrain} (h : DrainInv enabled req es d) :
    OnSocket enabled req es (none : Option (Except (ProxyClientRequestError β) (List Message)))
      d.collected := by
  cases d with
  | calling f =>
    obtain ⟨-, -, -, hes⟩ := h
    exact .inl ⟨hes, rfl, by simp⟩
  | draining t out =>
    obtain ⟨-, reads, hes, hout, -⟩ := h
    exact .inr ⟨reads, hes, hout, by simp⟩

theorem frames_append (req m : Message) (reads : List Message) :
    frames req reads ++ [.read m] = frames req (reads ++ [m]) := by
  simp [frames]

theorem streamInv_append {req m : Message} {reads : List Message}
    (h : StreamInv req reads .streaming) :
    StreamInv req (reads ++ [m]) (if moreToCome m.operation then .streaming else .done) := by
  obtain ⟨hreq, hreads⟩ := h
  cases hm : moreToCome m.operation with
  | true =>
    refine ⟨hreq, ?_⟩
    intro x hx
    rcases List.mem_append.mp hx with hx | hx
    · exact hreads x hx
    · rw [List.mem_singleton.mp hx]
      exact hm
  | false =>
    show AllRead req (reads ++ [m])
    rw [AllRead, hreq]
    exact ⟨reads, m, rfl, hreads, hm⟩

/- The call's future is polled. -/
theorem pollDrain_calling (enabled : Bool) {req : Message} {es : List UpstreamEvent}
    {f : RewriteHelloFuture ProxyClientRequestFuture}
    (h : DrainInv enabled req es (.calling f)) (i : UpstreamIo β) (s : ProxyClientInner) :
    PollInv enabled req es ((proxyService β enabled).pollDrain i s (.calling f)) := by
  unfold PollInv
  obtain ⟨⟨m, fire, stage⟩, rewrite⟩ := f
  obtain ⟨hrewrite, hm, hfire, rfl⟩ := h
  simp only at hrewrite hm hfire
  subst hm
  cases stage with
  | locking =>
    by_cases hgrant : s.locked = false ∧ i.grant = true
    · simp only [pollDrain, rewriteHelloService, ProxyClient.service, ProxyClient.pollCall,
        if_pos hgrant]
      exact ⟨hrewrite, rfl, hfire, rfl⟩
    · simp only [pollDrain, rewriteHelloService, ProxyClient.service, ProxyClient.pollCall,
        if_neg hgrant]
      exact ⟨hrewrite, rfl, hfire, rfl⟩
  | sending =>
    rcases hio : i.send with - | (e | u)
    · simp only [pollDrain, rewriteHelloService, ProxyClient.service, ProxyClient.pollCall, hio]
      exact ⟨hrewrite, rfl, hfire, rfl⟩
    · simp only [pollDrain, rewriteHelloService, ProxyClient.service, ProxyClient.pollCall, hio]
      exact .inl ⟨rfl, rfl, by simp⟩
    · cases fire with
      | true =>
        simp only [pollDrain, rewriteHelloService, ProxyClient.service, ProxyClient.pollCall, hio,
          if_true]
        refine ⟨hrewrite, [], rfl, rfl, ?_⟩
        show AllRead m []
        rw [AllRead, ← hfire]
        rfl
      | false =>
        simp only [pollDrain, rewriteHelloService, ProxyClient.service, ProxyClient.pollCall, hio,
          Bool.false_eq_true, if_false]
        exact ⟨hrewrite, [], rfl, rfl, hfire.symm, by simp⟩

theorem rewritten_eq {enabled rewrite : Bool} {req m : Message}
    (h : rewrite = (enabled && isHelloRequest req)) :
    (if rewrite then stripTopologyFromMessage m else m) = rewritten enabled req m := by
  rw [h]
  rfl

/- The stream is polled. -/
theorem pollDrain_draining (enabled : Bool) {req : Message} {es : List UpstreamEvent}
    {t : RewriteHelloStream ProxyResponseStream} {out : List Message}
    (h : DrainInv enabled req es (.draining t out)) (i : UpstreamIo β) (s : ProxyClientInner) :
    PollInv enabled req es ((proxyService β enabled).pollDrain i s (.draining t out)) := by
  unfold PollInv
  obtain ⟨inner, rewrite⟩ := t
  obtain ⟨hrewrite, reads, rfl, rfl, hstream⟩ := h
  simp only at hrewrite
  cases inner with
  | done =>
    simp only [pollDrain, rewriteHelloService, ProxyClient.service, ProxyClient.pollNext,
      Poll.rewrite, rewriteItem, List.append_nil]
    refine .inr ⟨reads, rfl, rfl, ?_⟩
    intro replies hreplies
    cases hreplies
    exact ⟨rfl, hstream⟩
  | streaming =>
    rcases hio : i.read with - | (- | (e | m))
    · simp only [pollDrain, rewriteHelloService, ProxyClient.service, ProxyClient.pollNext, hio,
        Poll.rewrite, rewriteItem, List.append_nil]
      exact ⟨hrewrite, reads, rfl, rfl, hstream⟩
    · simp only [pollDrain, rewriteHelloService, ProxyClient.service, ProxyClient.pollNext, hio,
        Poll.rewrite, rewriteItem, List.append_nil]
      exact .inr ⟨reads, rfl, rfl, by simp⟩
    · simp only [pollDrain, rewriteHelloService, ProxyClient.service, ProxyClient.pollNext, hio,
        Poll.rewrite, rewriteItem, List.append_nil]
      exact .inr ⟨reads, rfl, rfl, by simp⟩
    · have hnext := streamInv_append (m := m) hstream
      cases hm : moreToCome m.operation with
      | true =>
        rw [hm] at hnext
        simp only [pollDrain, rewriteHelloService, ProxyClient.service, ProxyClient.pollNext, hio,
          hm, if_true, Poll.rewrite, rewriteItem]
        refine ⟨hrewrite, reads ++ [m], frames_append req m reads, ?_, hnext⟩
        rw [rewritten_eq hrewrite, List.map_append]
        rfl
      | false =>
        rw [hm] at hnext
        simp only [pollDrain, rewriteHelloService, ProxyClient.service, ProxyClient.pollNext, hio,
          hm, Bool.false_eq_true, if_false, Poll.rewrite, rewriteItem]
        refine ⟨hrewrite, reads ++ [m], frames_append req m reads, ?_, hnext⟩
        rw [rewritten_eq hrewrite, List.map_append]
        rfl

theorem drainRun_onSocket (enabled : Bool) {req : Message} {es : List UpstreamEvent}
    {d : ProxyDrain}
    (h : DrainInv enabled req es d) (is : List (UpstreamIo β)) (s : ProxyClientInner) :
    OnSocket enabled req
      (es ++ ((proxyService β enabled).drainRun is s d).events)
      ((proxyService β enabled).drainRun is s d).answer
      ((proxyService β enabled).drainRun is s d).self.collected := by
  induction is generalizing s es d with
  | nil =>
    show OnSocket enabled req (es ++ []) none d.collected
    rw [List.append_nil]
    exact h.onSocket
  | cons i is ih =>
    have hpoll : PollInv enabled req es ((proxyService β enabled).pollDrain i s d) := by
      cases d with
      | calling f => exact pollDrain_calling enabled h i s
      | draining t out => exact pollDrain_draining enabled h i s
    unfold PollInv at hpoll
    cases hp : ((proxyService β enabled).pollDrain i s d).answer with
    | pending =>
      rw [hp] at hpoll
      rw [drainRun_of_pending _ hp]
      simp only [Drained.after, ← List.append_assoc]
      exact ih hpoll _
    | ready answer =>
      rw [hp] at hpoll
      rw [drainRun_of_ready _ hp]
      exact hpoll

theorem exchange_onSocket (enabled : Bool) (s : ProxyClientInner) (req : Message)
    (is : List (UpstreamIo β)) :
    OnSocket enabled req
      ((proxyService β enabled).exchange s req is).events
      ((proxyService β enabled).exchange s req is).answer
      ((proxyService β enabled).exchange s req is).self.collected := by
  have hstart : DrainInv enabled req [] (.calling ((proxyService β enabled).call s req).1) :=
    ⟨rfl, rfl, rfl, rfl⟩
  exact drainRun_onSocket enabled hstart is _

/-! ### The frames of a turn -/

section
variable {V : PlanVocabulary} (codec : ReplyCodec β V)

abbrev ProxyTurn (β : Type) (V : PlanVocabulary) :=
  LayerTurn β (ProxyClientRequestError β) UpstreamEvent V

/- The frames that went over the upstream socket. -/
def upstreamOf (acts : List (ExplainAct β (ProxyClientRequestError β)
    (Traffic UpstreamEvent Message (ProxyClientRequestError β)) V)) : List UpstreamEvent :=
  acts.filterMap fun | .inner (.own e) => some e | _ => none

theorem upstreamOf_append (acts acts' : List (ExplainAct β (ProxyClientRequestError β)
    (Traffic UpstreamEvent Message (ProxyClientRequestError β)) V)) :
    upstreamOf (acts ++ acts') = upstreamOf acts ++ upstreamOf acts' := List.filterMap_append

theorem upstreamOf_inner (es : List (Traffic UpstreamEvent Message (ProxyClientRequestError β))) :
    upstreamOf (es.map .inner : List (ExplainAct β _ _ V)) = ownOf es := by
  simp only [upstreamOf, ownOf, List.filterMap_map]
  apply List.filterMap_congr
  intro e _
  cases e with
  | called m => rfl
  | own e => rfl
  | yielded m => rfl
  | ended r => rfl

/- The layer's own message and the replies read for it, if it got as far as being written. -/
def OwnFrames (counter : Int32) (req : Message) (later : List UpstreamEvent) : Prop :=
  later = [] ∨ ∃ msg reads, explainMessage counter req = some msg ∧ later = frames msg reads

/-- A whole turn on the socket. -/
def Wired (enabled : Bool) (counter : Int32) (t : ProxyTurn β V) : Prop :=
  ∃ reads later, upstreamOf t.events = frames t.request reads ++ later ∧
    AllRead t.request reads ∧ t.sent = reads.map (rewritten enabled t.request) ∧
    OwnFrames counter t.request later

/-- The beginning of a turn on the socket: the layer's own message is written only when all
replies are read, and the client is sent none of them before that. -/
def Wiring (enabled : Bool) (counter : Int32) (t : ProxyTurn β V) : Prop :=
  (upstreamOf t.events = [] ∧ t.sent = []) ∨
    ∃ reads later, upstreamOf t.events = frames t.request reads ++ later ∧
      t.sent <+: reads.map (rewritten enabled t.request) ∧
      (later ≠ [] ∨ t.sent ≠ [] → AllRead t.request reads) ∧
      OwnFrames counter t.request later

theorem tapped_onSocket (enabled : Bool) (s : ProxyClientInner) (req : Message)
    (is : List (UpstreamIo β)) :
    OnSocket enabled req
      (upstreamOf (((proxyService β enabled).tapped.exchange s req is).events.map .inner
        : List (ExplainAct β _ _ V)))
      ((proxyService β enabled).tapped.exchange s req is).answer
      ((proxyService β enabled).tapped.exchange s req is).self.collected := by
  obtain ⟨hself, hown⟩ := exchange_tapped (proxyService β enabled) s req is
  rw [upstreamOf_inner, hown, hself, exchange_tapped_answer]
  exact exchange_onSocket enabled s req is

theorem sideband_ownFrames (enabled : Bool) (counter : Int32) (req : Message)
    (x : Drained (UpstreamIo β) ProxyClientInner (RewriteHelloFuture ProxyClientRequestFuture)
      (RewriteHelloStream ProxyResponseStream) Message (ProxyClientRequestError β)
      (Traffic UpstreamEvent Message (ProxyClientRequestError β))) :
    OwnFrames counter req (upstreamOf (sideband codec (proxyService β enabled).tapped req.requestId
      (prepare counter req).1 x).1) := by
  have hemit : ∀ result : Except (ExplainError β _) (ExplainEvent V),
      upstreamOf [emitOrLog result] = [] := by
    intro result
    cases result with
    | error err => rfl
    | ok event => rfl
  rcases prepare_cases (β := β) (ε := ProxyClientRequestError β) counter req with
    ⟨-, hp, -⟩ | ⟨-, -, command, rid, err, hp⟩ | ⟨-, command, rid, msg, hmsg, hp⟩
  · rw [hp]
    exact .inl rfl
  · rw [hp]
    exact .inl (hemit (.error err))
  · have hframes : upstreamOf (((proxyService β enabled).tapped.exchange x.state msg x.rest).events.map
        .inner : List (ExplainAct β _ _ V)) = [] ∨
        ∃ reads, upstreamOf (((proxyService β enabled).tapped.exchange x.state msg
          x.rest).events.map .inner : List (ExplainAct β _ _ V)) = frames msg reads := by
      rcases tapped_onSocket (V := V) enabled x.state msg x.rest with
        ⟨hnil, -, -⟩ | ⟨reads, hframes, -, -⟩
      · exact .inl hnil
      · exact .inr ⟨reads, hframes⟩
    rw [hp]
    simp only [sideband]
    cases ((proxyService β enabled).tapped.exchange x.state msg x.rest).answer with
    | none =>
      rcases hframes with hnil | ⟨reads, hframes⟩
      · exact .inl hnil
      · exact .inr ⟨msg, reads, hmsg, hframes⟩
    | some answer =>
      simp only [upstreamOf_append, hemit, List.append_nil]
      rcases hframes with hnil | ⟨reads, hframes⟩
      · exact .inl hnil
      · exact .inr ⟨msg, reads, hmsg, hframes⟩

theorem wired_of_served (enabled : Bool) {s : ProxyClientInner} {counter : Int32}
    {st : ExplainState ProxyClientInner} {t : ProxyTurn β V}
    (h : t.Served (explainService codec (proxyService β enabled).tapped) ⟨s, counter⟩ st) :
    Wired enabled counter t := by
  obtain ⟨-, is, hanswer, hevents, -⟩ := sideband_of_served codec (proxyService β enabled) h
  have hown := sideband_ownFrames codec enabled counter t.request
    ((proxyService β enabled).tapped.exchange s t.request is)
  rcases tapped_onSocket (V := V) enabled s t.request is with
    ⟨-, -, hnone⟩ | ⟨reads, hframes, hcollected, hall⟩
  · exact absurd hanswer (hnone _)
  · obtain ⟨hsent, hread⟩ := hall _ hanswer
    refine ⟨reads, _, ?_, hread, hsent.trans hcollected, hown⟩
    rw [hevents, upstreamOf_append, hframes]

theorem wiring_of_begun (enabled : Bool) {s : ProxyClientInner} {counter : Int32}
    {t : ProxyTurn β V}
    (h : t.Begun (explainService codec (proxyService β enabled).tapped) ⟨s, counter⟩) :
    Wiring enabled counter t := by
  rcases sideband_of_begun codec (proxyService β enabled) h with ⟨hevents, hsent⟩ |
    ⟨is, hevents, hsent⟩ | ⟨is, replies, hanswer, hevents, hsent, -⟩
  · refine .inl ⟨?_, hsent⟩
    rw [hevents]
    rfl
  · rw [Wiring, hevents, hsent]
    rcases tapped_onSocket (V := V) enabled s t.request is with
      ⟨hnil, -, -⟩ | ⟨reads, hframes, -, -⟩
    · exact .inl ⟨hnil, rfl⟩
    · refine .inr ⟨reads, [], ?_, List.nil_prefix, ?_, .inl rfl⟩
      · rw [hframes, List.append_nil]
      · intro hsome
        rcases hsome with hsome | hsome
        · exact absurd rfl hsome
        · exact absurd rfl hsome
  · have hown := sideband_ownFrames codec enabled counter t.request
      ((proxyService β enabled).tapped.exchange s t.request is)
    rcases tapped_onSocket (V := V) enabled s t.request is with
      ⟨-, -, hnone⟩ | ⟨reads, hframes, hcollected, hall⟩
    · exact absurd hanswer (hnone _)
    · obtain ⟨hreplies, hread⟩ := hall _ hanswer
      refine .inr ⟨reads, _, ?_, ?_, fun _ => hread, hown⟩
      · rw [hevents, upstreamOf_append, hframes]
      · rw [← hcollected, ← hreplies]
        exact hsent

/-- The explain layer over what `Proxy` serves, at every point of every run. For each request but
the newest the upstream socket carried the request, all its replies, and then at most the
layer's message and replies to that; and the client was sent its own replies, rewritten as they
are without the layer. The newest has come part of that way. -/
theorem explained_upstream (enabled : Bool) (s : ProxyClientInner) (counter : Int32)
    (ios : List (ClientIo β (UpstreamIo β))) :
    (EachTurn (Wired enabled) counter
        (turns (layeredRun codec (proxyService β enabled) s counter ios).log) ∨
      ∃ t older, turns (layeredRun codec (proxyService β enabled) s counter ios).log = t :: older ∧
        EachTurn (Wired enabled) counter older ∧ Wiring enabled (counterAfter counter older) t) ∧
      ((layeredRun codec (proxyService β enabled) s counter ios).phase = .closed (.ok ()) →
        EachTurn (Wired enabled) counter
          (turns (layeredRun codec (proxyService β enabled) s counter ios).log)) :=
  layeredRun_turns codec (proxyService β enabled) (wired_of_served codec enabled)
    (wiring_of_begun codec enabled) s counter ios

end

end MongodProxy.Explain
