import MongodProxy.Serve.Layers
import MongodProxy.Serve.Relay
import MongodProxy.Serve.RewriteHello

/-!
# The default stack on a connection (serve/service.rs, `Service<SocketAddr> for Proxy`)

What `Proxy` serves a client with is a `RewriteHelloService` over a `ProxyClient`. A frame
that is read upstream or sent to the client belongs to the request that was decoded last;
`during` keeps the two together, so that what a run says about replies it says about
replies to given requests.
-/

namespace MongodProxy
open Service Layers

namespace Stack

variable {β κ : Type}

/-! ### Frames and the requests they answer -/

/- The request being answered. -/
def requestAfter (cur : Option Message) (log : List (LoopEvent κ)) : Option Message :=
  log.foldl (fun cur e => match e with | .decoded req => some req | _ => cur) cur

/-- The frames `pick` finds in the log, each with the request that was being answered. -/
def during (pick : LoopEvent κ → Option Message) :
    Option Message → List (LoopEvent κ) → List (Option Message × Message)
  | _, [] => []
  | _, .decoded req :: log => during pick (some req) log
  | cur, e :: log => (pick e).toList.map (cur, ·) ++ during pick cur log

def pickSent : LoopEvent κ → Option Message
  | .sent reply => some reply
  | _ => none

def pickRead : LoopEvent UpstreamEvent → Option Message
  | .service (.read reply) => some reply
  | _ => none

/-- The replies sent, with their requests. -/
def sentFor (log : List (LoopEvent κ)) : List (Option Message × Message) := during pickSent none log

/-- The replies read upstream, with their requests. -/
def readFor (log : Relay.Log) : List (Option Message × Message) := during pickRead none log

theorem during_append (pick : LoopEvent κ → Option Message) (cur : Option Message)
    (log log' : List (LoopEvent κ)) :
    during pick cur (log ++ log')
      = during pick cur log ++ during pick (requestAfter cur log) log' := by
  induction log generalizing cur with
  | nil => rfl
  | cons e log ih =>
    cases e with
    | decoded req => exact ih (some req)
    | service e =>
      show (pick _).toList.map _ ++ during pick cur (log ++ log') = _
      rw [ih, ← List.append_assoc]
      rfl
    | given reply =>
      show (pick _).toList.map _ ++ during pick cur (log ++ log') = _
      rw [ih, ← List.append_assoc]
      rfl
    | sent reply =>
      show (pick _).toList.map _ ++ during pick cur (log ++ log') = _
      rw [ih, ← List.append_assoc]
      rfl

/- One more event. -/
section
variable (log : Relay.Log) (m : Message)

@[simp] theorem sentFor_decoded : sentFor (log ++ [LoopEvent.decoded m]) = sentFor log := by
  rw [sentFor, during_append]
  exact List.append_nil _

@[simp] theorem readFor_decoded : readFor (log ++ [LoopEvent.decoded m]) = readFor log := by
  rw [readFor, during_append]
  exact List.append_nil _

@[simp] theorem sentFor_service (e : UpstreamEvent) :
    sentFor (log ++ [LoopEvent.service e]) = sentFor log := by
  rw [sentFor, during_append]
  exact List.append_nil _

@[simp] theorem readFor_wrote :
    readFor (log ++ [LoopEvent.service (.wrote m)]) = readFor log := by
  rw [readFor, during_append]
  exact List.append_nil _

@[simp] theorem readFor_read :
    readFor (log ++ [LoopEvent.service (.read m)]) = readFor log ++ [(requestAfter none log, m)] := by
  rw [readFor, during_append]
  rfl

@[simp] theorem sentFor_given : sentFor (log ++ [LoopEvent.given m]) = sentFor log := by
  rw [sentFor, during_append]
  exact List.append_nil _

@[simp] theorem readFor_given : readFor (log ++ [LoopEvent.given m]) = readFor log := by
  rw [readFor, during_append]
  exact List.append_nil _

@[simp] theorem sentFor_sent :
    sentFor (log ++ [LoopEvent.sent m]) = sentFor log ++ [(requestAfter none log, m)] := by
  rw [sentFor, during_append]
  rfl

@[simp] theorem readFor_sent : readFor (log ++ [LoopEvent.sent m]) = readFor log := by
  rw [readFor, during_append]
  exact List.append_nil _

end

@[simp] theorem requestAfter_append (cur : Option Message) (log log' : List (LoopEvent κ)) :
    requestAfter cur (log ++ log') = requestAfter (requestAfter cur log) log' := List.foldl_append

/-! ### What a step can do -/

/-- All that one step of a connection over a `ProxyClient` can do to its phase and its log. -/
inductive Move : LoopPhase β (ProxyClientRequestError β) ProxyClientRequestFuture ProxyResponseStream →
    Relay.Log → LoopPhase β (ProxyClientRequestError β) ProxyClientRequestFuture
    ProxyResponseStream → Relay.Log → Prop where
  | stay (phase) (log : Relay.Log) : Move phase log phase log
  | stop (phase) (log : Relay.Log) (result) : Move phase log (.closed result) log
  | decode (log : Relay.Log) (req : Message) :
    Move .reading log (.calling ⟨req, moreToCome req.operation, .locking⟩)
      (log ++ [LoopEvent.decoded req])
  | grant (log : Relay.Log) (f : ProxyClientRequestFuture) :
    Move (.calling f) log (.calling { f with stage := .sending }) log
  | write (log : Relay.Log) (f : ProxyClientRequestFuture) (t : ProxyResponseStream)
    (h : t = if f.fireAndForget then .done else .streaming) :
    Move (.calling f) log (.replying t) (log ++ [LoopEvent.service (.wrote f.req)])
  | finish (log : Relay.Log) : Move (.replying .done) log .reading log
  | read (log : Relay.Log) (t : ProxyResponseStream) (resp : Message)
    (h : t = if moreToCome resp.operation then .streaming else .done) :
    Move (.replying .streaming) log (.sending t resp)
      (log ++ [LoopEvent.service (.read resp)] ++ [LoopEvent.given resp])
  | send (log : Relay.Log) (t : ProxyResponseStream) (resp : Message) :
    Move (.sending t resp) log (.replying t) (log ++ [LoopEvent.sent resp])

theorem step_move_calling (s : ProxyClientInner) (log : Relay.Log) (f : ProxyClientRequestFuture)
    (io : ClientIo β (UpstreamIo β)) :
    Move (.calling f) log (Conn.step ProxyClient.service ⟨.calling f, s, log⟩ io).phase
      (Conn.step ProxyClient.service ⟨.calling f, s, log⟩ io).log := by
  obtain ⟨req, ff, stage⟩ := f
  cases stage with
  | locking =>
    by_cases hgrant : s.locked = false ∧ io.service.grant = true
    · simp only [Conn.step, ProxyClient.service, ProxyClient.pollCall, if_pos hgrant, List.map_nil,
        List.append_nil]
      exact .grant log ⟨req, ff, .locking⟩
    · simp only [Conn.step, ProxyClient.service, ProxyClient.pollCall, if_neg hgrant, List.map_nil,
        List.append_nil]
      exact .stay _ _
  | sending =>
    rcases hio : io.service.send with - | (e | u)
    · simp only [Conn.step, ProxyClient.service, ProxyClient.pollCall, hio, List.map_nil,
        List.append_nil]
      exact .stay _ _
    · simp only [Conn.step, ProxyClient.service, ProxyClient.pollCall, hio, List.map_nil,
        List.append_nil]
      exact .stop _ _ _
    · cases ff with
      | true =>
        simp only [Conn.step, ProxyClient.service, ProxyClient.pollCall, hio, if_true,
          List.map_cons, List.map_nil]
        exact .write log ⟨req, true, .sending⟩ .done rfl
      | false =>
        simp only [Conn.step, ProxyClient.service, ProxyClient.pollCall, hio, Bool.false_eq_true,
          if_false, List.map_cons, List.map_nil]
        exact .write log ⟨req, false, .sending⟩ .streaming rfl

theorem step_move_replying (s : ProxyClientInner) (log : Relay.Log) (t : ProxyResponseStream)
    (io : ClientIo β (UpstreamIo β)) :
    Move (.replying t) log (Conn.step ProxyClient.service ⟨.replying t, s, log⟩ io).phase
      (Conn.step ProxyClient.service ⟨.replying t, s, log⟩ io).log := by
  cases t with
  | done =>
    simp only [Conn.step, ProxyClient.service, ProxyClient.pollNext, List.map_nil, List.append_nil]
    exact .finish log
  | streaming =>
    rcases hio : io.service.read with - | (- | (e | resp))
    · simp only [Conn.step, ProxyClient.service, ProxyClient.pollNext, hio, List.map_nil,
        List.append_nil]
      exact .stay _ _
    · simp only [Conn.step, ProxyClient.service, ProxyClient.pollNext, hio, List.map_nil,
        List.append_nil]
      exact .stop _ _ _
    · simp only [Conn.step, ProxyClient.service, ProxyClient.pollNext, hio, List.map_nil,
        List.append_nil]
      exact .stop _ _ _
    · cases hm : moreToCome resp.operation with
      | true =>
        simp only [Conn.step, ProxyClient.service, ProxyClient.pollNext, hio, hm, if_true,
          List.map_cons, List.map_nil]
        exact .read log .streaming resp (by rw [hm]; rfl)
      | false =>
        simp only [Conn.step, ProxyClient.service, ProxyClient.pollNext, hio, hm,
          Bool.false_eq_true, if_false, List.map_cons, List.map_nil]
        exact .read log .done resp (by rw [hm]; rfl)

theorem step_move (c : RelayConn β) (io : ClientIo β (UpstreamIo β)) :
    Move c.phase c.log (Conn.step ProxyClient.service c io).phase
      (Conn.step ProxyClient.service c io).log := by
  obtain ⟨phase, s, log⟩ := c
  cases phase with
  | reading =>
    rcases hio : io.next with - | (- | (e | req))
    · simp only [Conn.step, hio]
      exact .stay _ _
    · simp only [Conn.step, hio]
      exact .stop _ _ _
    · simp only [Conn.step, hio]
      exact .stop _ _ _
    · simp only [Conn.step, hio, ProxyClient.service, ProxyClient.call, List.map_nil]
      exact .decode log req
  | calling f => exact step_move_calling s log f io
  | replying t => exact step_move_replying s log t io
  | sending t resp =>
    rcases hio : io.send with - | (e | u)
    · simp only [Conn.step, hio]
      exact .stay _ _
    · simp only [Conn.step, hio]
      exact .stop _ _ _
    · simp only [Conn.step, hio]
      exact .send log t resp
  | closed result => exact .stay _ _

/-! ### Over the upstream client alone -/

/- Nothing is in hand, or one reply that was read for the current request. -/
def Balanced : LoopPhase β (ProxyClientRequestError β) ProxyClientRequestFuture
    ProxyResponseStream → Relay.Log → Prop
  | .sending _ resp, log => readFor log = sentFor log ++ [(requestAfter none log, resp)]
  | .closed _, log => sentFor log <+: readFor log ∧ (readFor log).length ≤ (sentFor log).length + 1
  | _, log => sentFor log = readFor log

theorem Balanced.inHand {phase : LoopPhase β (ProxyClientRequestError β) ProxyClientRequestFuture
    ProxyResponseStream} {log : Relay.Log} (h : Balanced phase log) :
    sentFor log <+: readFor log ∧ (readFor log).length ≤ (sentFor log).length + 1 := by
  have heq : sentFor log = readFor log →
      sentFor log <+: readFor log ∧ (readFor log).length ≤ (sentFor log).length + 1 := by
    intro heq
    rw [heq]
    exact ⟨List.prefix_rfl, Nat.le_succ _⟩
  cases phase with
  | reading => exact heq h
  | calling f => exact heq h
  | replying t => exact heq h
  | sending t resp =>
    have hread : readFor log = sentFor log ++ [(requestAfter none log, resp)] := h
    rw [hread]
    exact ⟨List.prefix_append _ _, by simp⟩
  | closed result => exact h

/- What a request finds when it is written: it is the one decoded last, all before it are
written, and all their replies are sent. -/
def Written (log : Relay.Log) : Prop :=
  ∀ before req after, log = before ++ .service (.wrote req) :: after →
    Relay.decodedOf before = Relay.writtenOf before ++ [req] ∧ sentFor before = readFor before

theorem written_append {log : Relay.Log} (h : Written log) (e : LoopEvent UpstreamEvent)
    (he : ∀ req, e = .service (.wrote req) →
      Relay.decodedOf log = Relay.writtenOf log ++ [req] ∧ sentFor log = readFor log) :
    Written (log ++ [e]) := by
  intro before req after hsplit
  rcases List.eq_nil_or_concat after with rfl | ⟨after', last, rfl⟩
  · have hinj := List.append_inj' hsplit rfl
    rw [← hinj.1]
    exact he req (List.cons.inj hinj.2).1
  · have hsplit' : log ++ [e] = (before ++ .service (.wrote req) :: after') ++ [last] := by
      rw [hsplit]
      simp
    exact h before req after' (List.append_inj' hsplit' rfl).1

structure Inv (c : RelayConn β) : Prop where
  relay : Relay.Inv c
  balanced : Balanced c.phase c.log
  written : Written c.log

theorem inv_start (s : ProxyClientInner) : Inv (Conn.start s : RelayConn β) where
  relay := Relay.inv_start s
  balanced := rfl
  written := by
    intro before req after hsplit
    simp [Conn.start] at hsplit

theorem Inv.move {c c' : RelayConn β} (h : Inv c) (hrelay : Relay.Inv c')
    (hm : Move c.phase c.log c'.phase c'.log) : Inv c' := by
  obtain ⟨phase, s, log⟩ := c
  obtain ⟨phase', s', log'⟩ := c'
  have hb := h.balanced
  simp only at hm hb
  cases hm with
  | stay phase log => exact ⟨hrelay, hb, h.written⟩
  | stop phase log result => exact ⟨hrelay, hb.inHand, h.written⟩
  | decode log req =>
    refine ⟨hrelay, ?_, written_append h.written _ (fun m hm => by cases hm)⟩
    show sentFor _ = readFor _
    rw [sentFor_decoded, readFor_decoded]
    exact hb
  | grant log f => exact ⟨hrelay, hb, h.written⟩
  | write log f t ht =>
    obtain ⟨hdec, -, -, -⟩ := h.relay.phase
    refine ⟨hrelay, ?_, written_append h.written _ ?_⟩
    · show sentFor _ = readFor _
      rw [sentFor_service, readFor_wrote]
      exact hb
    · intro req hreq
      cases hreq
      exact ⟨hdec, hb⟩
  | finish log => exact ⟨hrelay, hb, h.written⟩
  | read log t resp ht =>
    refine ⟨hrelay, ?_, written_append (written_append h.written _ (fun m hm => by cases hm)) _
      (fun m hm => by cases hm)⟩
    show readFor _ = sentFor _ ++ [(requestAfter none _, resp)]
    have hb : sentFor log = readFor log := hb
    rw [readFor_given, readFor_read, sentFor_given, sentFor_service, hb]
    simp [requestAfter]
  | send log t resp =>
    refine ⟨hrelay, ?_, written_append h.written _ (fun m hm => by cases hm)⟩
    show sentFor _ = readFor _
    have hb : readFor log = sentFor log ++ [(requestAfter none log, resp)] := hb
    rw [sentFor_sent, readFor_sent, hb]

theorem Inv.step {c : RelayConn β} (h : Inv c) (io : ClientIo β (UpstreamIo β)) :
    Inv (Conn.step ProxyClient.service c io) :=
  h.move (h.relay.step io) (step_move c io)

theorem inv_run (s : ProxyClientInner) (ios : List (ClientIo β (UpstreamIo β))) :
    Inv (Conn.run ProxyClient.service (Conn.start s : RelayConn β) ios) :=
  Conn.run_invariant ProxyClient.service Inv (fun _ io h => h.step io) _ (inv_start s) ios

/-! ### Under the hello rewrite -/

section
variable {ι σ φ τ ε : Type} (inner : Service ι σ φ τ Message ε κ) (enabled : Bool)

/-- The hello rewrite as a layer: of a request it keeps whether its replies are rewritten. -/
def rewriteHelloOverlay : Overlay inner (rewriteHelloService inner enabled) Bool where
  mark req := enabled && isHelloRequest req
  fut rewrite f := ⟨f, rewrite⟩
  stream rewrite t := ⟨t, rewrite⟩
  reply rewrite msg := if rewrite then stripTopologyFromMessage msg else msg
  event := id
  onCall _ := []
  onReply _ _ := []
  call_eq := by
    intro s req
    simp [rewriteHelloService]
  pollCall_eq := by
    intro i s rewrite f
    simp only [rewriteHelloService, List.map_id]
    rcases (inner.pollCall i s f).answer with - | (e | t)
    · rfl
    · rfl
    · rfl
  pollNext_eq := by
    intro i s rewrite t
    have hquiet : (replied (inner.pollNext i s t).answer).flatMap (fun _ => ([] : List κ)) = [] := by
      simp
    rw [hquiet]
    simp only [rewriteHelloService, List.map_id, List.append_nil]
    rcases (inner.pollNext i s t).answer with - | (- | (e | m))
    · rfl
    · rfl
    · rfl
    · rfl

/-- What the client gets for a reply to a request. -/
def rewriteReply (p : Option Message × Message) : Option Message × Message :=
  (p.1, if enabled && p.1.any isHelloRequest then stripTopologyFromMessage p.2 else p.2)

/- The mark kept for the current request; before the first one there is nothing to rewrite. -/
def rewriting (cur : Option Message) : Bool := enabled && cur.any isHelloRequest

theorem during_sent_logFrom (cur : Option Message) (log : List (LoopEvent κ)) :
    during pickSent cur (logFrom (rewriteHelloOverlay inner enabled) (rewriting enabled cur) log)
      = (during pickSent cur log).map (rewriteReply enabled) := by
  induction log generalizing cur with
  | nil => rfl
  | cons e log ih =>
    cases e with
    | decoded req => exact ih (some req)
    | service e => exact ih cur
    | given reply => exact ih cur
    | sent reply =>
      show (cur, _) :: during pickSent cur _ = (cur, _) :: List.map _ (during pickSent cur log)
      rw [ih]
      rfl

/- Everything but the replies is left as it is, each event in its place. -/
theorem logFrom_split (g : Bool) (log before' after' : List (LoopEvent κ)) (e : κ)
    (h : logFrom (rewriteHelloOverlay inner enabled) g log = before' ++ .service e :: after') :
    ∃ before after, log = before ++ .service e :: after ∧
      before' = logFrom (rewriteHelloOverlay inner enabled) g before := by
  induction log generalizing g before' with
  | nil => simp [logFrom] at h
  | cons x log ih =>
    cases before' with
    | nil =>
      cases x with
      | service e' =>
        simp only [logFrom, List.nil_append, List.cons.injEq, LoopEvent.service.injEq] at h
        obtain ⟨rfl, -⟩ := h
        exact ⟨[], log, rfl, rfl⟩
      | decoded req => simp [logFrom] at h
      | given reply => simp [logFrom, rewriteHelloOverlay] at h
      | sent reply => simp [logFrom] at h
    | cons y before' =>
      cases x with
      | service e' =>
        simp only [logFrom, List.cons_append, List.cons.injEq] at h
        obtain ⟨before, after, rfl, rfl⟩ := ih g before' h.2
        exact ⟨.service e' :: before, after, rfl, by rw [logFrom, h.1]⟩
      | decoded req =>
        simp only [logFrom, rewriteHelloOverlay, List.map_nil, List.nil_append, List.cons_append,
          List.cons.injEq] at h
        obtain ⟨before, after, rfl, rfl⟩ := ih _ before' h.2
        refine ⟨.decoded req :: before, after, rfl, ?_⟩
        rw [← h.1]
        rfl
      | given reply =>
        simp only [logFrom, rewriteHelloOverlay, List.map_nil, List.nil_append, List.cons_append,
          List.cons.injEq] at h
        obtain ⟨before, after, rfl, rfl⟩ := ih g before' h.2
        refine ⟨.given reply :: before, after, rfl, ?_⟩
        rw [← h.1]
        rfl
      | sent reply =>
        simp only [logFrom, List.cons_append, List.cons.injEq] at h
        obtain ⟨before, after, rfl, rfl⟩ := ih g before' h.2
        exact ⟨.sent reply :: before, after, rfl, by rw [logFrom, h.1]⟩

/- Requests and what goes on upstream are the same with and without the layer. -/
theorem logFrom_upstream (inner : Service ι σ φ τ Message ε UpstreamEvent) (g : Bool)
    (cur : Option Message) (log : Relay.Log) :
    Relay.decodedOf (logFrom (rewriteHelloOverlay inner enabled) g log) = Relay.decodedOf log ∧
      Relay.writtenOf (logFrom (rewriteHelloOverlay inner enabled) g log) = Relay.writtenOf log ∧
      during pickRead cur (logFrom (rewriteHelloOverlay inner enabled) g log)
        = during pickRead cur log := by
  induction log generalizing g cur with
  | nil => exact ⟨rfl, rfl, rfl⟩
  | cons e log ih =>
    cases e with
    | decoded req =>
      obtain ⟨hd, hw, hr⟩ := ih (enabled && isHelloRequest req) (some req)
      exact ⟨congrArg (req :: ·) hd, hw, hr⟩
    | service e =>
      obtain ⟨hd, hw, hr⟩ := ih g cur
      cases e with
      | wrote req => exact ⟨hd, congrArg (req :: ·) hw, hr⟩
      | read reply => exact ⟨hd, hw, congrArg ((cur, reply) :: ·) hr⟩
    | given reply => exact ih g cur
    | sent reply => exact ih g cur

end

/-- The log of a client's connection to a `Proxy`; `enabled` is the switch of the rewrite. -/
def servedLog (enabled : Bool) (s : ProxyClientInner) (ios : List (ClientIo β (UpstreamIo β))) :
    Relay.Log :=
  (Conn.run (rewriteHelloService ProxyClient.service enabled) (Conn.start s) ios).log

/- The log of the same run over the bare client, rewritten. -/
def rewrittenLog (β : Type) (enabled : Bool) (log : Relay.Log) : Relay.Log :=
  logFrom (rewriteHelloOverlay (ProxyClient.service (β := β)) enabled) (rewriting enabled none) log

theorem servedLog_eq (enabled : Bool) (s : ProxyClientInner)
    (ios : List (ClientIo β (UpstreamIo β))) :
    servedLog enabled s ios
      = rewrittenLog β enabled (Conn.run ProxyClient.service (Conn.start s) ios).log := by
  rw [servedLog, run_start (rewriteHelloOverlay ProxyClient.service enabled) (rewriting enabled none)]
  rfl

theorem sentFor_rewrittenLog (enabled : Bool) (log : Relay.Log) :
    sentFor (rewrittenLog β enabled log) = (sentFor log).map (rewriteReply enabled) :=
  during_sent_logFrom ProxyClient.service enabled none log

theorem rewrittenLog_upstream (enabled : Bool) (log : Relay.Log) :
    Relay.decodedOf (rewrittenLog β enabled log) = Relay.decodedOf log ∧
      Relay.writtenOf (rewrittenLog β enabled log) = Relay.writtenOf log ∧
      readFor (rewrittenLog β enabled log) = readFor log :=
  logFrom_upstream enabled ProxyClient.service _ none log

/-- At every point of every run of a connection to a `Proxy`: requests are written in the order
decoded; what the client was sent is what was read upstream, in that order and at most one
reply behind, without the topology fields exactly where the request was a `hello` and the
rewrite is on; and a request is written only when everything before it is written, read
and sent. -/
theorem proxy_relays_rewritten (enabled : Bool) (s : ProxyClientInner)
    (ios : List (ClientIo β (UpstreamIo β))) :
    Relay.writtenOf (servedLog enabled s ios) <+: Relay.decodedOf (servedLog enabled s ios) ∧
      sentFor (servedLog enabled s ios)
        <+: (readFor (servedLog enabled s ios)).map (rewriteReply enabled) ∧
      (readFor (servedLog enabled s ios)).length
        ≤ (sentFor (servedLog enabled s ios)).length + 1 ∧
      ∀ before req after, servedLog enabled s ios = before ++ .service (.wrote req) :: after →
        Relay.decodedOf before = Relay.writtenOf before ++ [req] ∧
          sentFor before = (readFor before).map (rewriteReply enabled) := by
  have h := inv_run s ios
  rw [servedLog_eq]
  generalize Conn.run ProxyClient.service (Conn.start s : RelayConn β) ios = c at h
  obtain ⟨hfront, hlength⟩ := h.balanced.inHand
  obtain ⟨hdec, hwritten, hread⟩ := rewrittenLog_upstream (β := β) enabled c.log
  rw [hdec, hwritten, hread, sentFor_rewrittenLog, List.length_map]
  refine ⟨h.relay.phase.prefixes.1, hfront.map _, hlength, ?_⟩
  intro before' req after' hlog
  obtain ⟨before, after, heq, hbefore⟩ :=
    logFrom_split ProxyClient.service enabled _ _ _ _ _ hlog
  obtain ⟨hdec', hwritten', hread'⟩ := rewrittenLog_upstream (β := β) enabled before
  obtain ⟨hlast, hbal⟩ := h.written before req after heq
  have hrewritten : before' = rewrittenLog β enabled before := hbefore
  rw [hrewritten, hdec', hwritten', hread', sentFor_rewrittenLog, hbal]
  exact ⟨hlast, rfl⟩

end Stack

end MongodProxy
