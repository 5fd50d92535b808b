import MongodProxy.Serve.Connection
import MongodProxy.Serve.Explain.Sideband

/-!
# When the client loop is given the replies

Runs of `accept_client_inner` with and without the explain layer. From the log of a run
a tally is read off of what happened since the last request: the replies the inner
service yielded for it, how its stream ended, and the replies the loop was given.
Without the layer the loop is given each reply as it is yielded. With it the loop is
given nothing until the stream and the sideband are over, and nothing at all if the
stream ends in an error.
-/

namespace MongodProxy.Explain
open MongodProxy Service

/-! ### The tally of a request -/

/- `calls` are the messages passed to the inner service; the first is the request, a second the
layer's own. -/
structure Tally (ε : Type) where
  calls : ℕ
  yielded : List Message
  ended : Option (Except ε Unit)
  sidebandOver : Bool
  given : List Message

variable {β ε ι σ φ τ κ : Type} {V : PlanVocabulary} (codec : ReplyCodec β V)

def Tally.zero : Tally ε := ⟨0, [], none, false, []⟩

def Tally.note (t : Tally ε) : LoopEvent (Traffic κ Message ε) → Tally ε
  | .decoded _ => .zero
  | .given m => { t with given := t.given ++ [m] }
  | .sent _ => t
  | .service (.own _) => t
  | .service (.called _) => { t with calls := t.calls + 1 }
  | .service (.yielded m) =>
    if t.calls = 1 then { t with yielded := t.yielded ++ [m] } else t
  | .service (.ended r) =>
    if t.calls = 1 then { t with ended := some r } else { t with sidebandOver := true }

def tally (log : List (LoopEvent (Traffic κ Message ε))) : Tally ε := log.foldl Tally.note .zero

/- The log without what the layer tells its sink. -/
def belowLayer (log : List (LoopEvent (ExplainAct β ε (Traffic κ Message ε) V))) :
    List (LoopEvent (Traffic κ Message ε)) :=
  log.filterMap fun
    | .decoded req => some (.decoded req)
    | .given reply => some (.given reply)
    | .sent reply => some (.sent reply)
    | .service (.inner e) => some (.service e)
    | .service _ => none

/- The request's stream has ended with `None`, and so has the sideband if there is one. -/
def Tally.Over (t : Tally ε) : Prop :=
  t.ended = some (.ok ()) ∧ (t.calls = 2 → t.sidebandOver = true)

theorem tally_append (log es : List (LoopEvent (Traffic κ Message ε))) :
    tally (log ++ es) = es.foldl Tally.note (tally log) := List.foldl_append

theorem foldl_note_own (own : List κ) (t : Tally ε) :
    ((own.map Traffic.own).map (.service : Traffic κ Message ε → _)).foldl Tally.note t = t := by
  induction own with
  | nil => rfl
  | cons e own ih => exact ih

theorem foldl_note_own_append (own : List κ) (e : Traffic κ Message ε) (t : Tally ε) :
    ((own.map Traffic.own ++ [e]).map LoopEvent.service).foldl Tally.note t
      = t.note (.service e) := by
  rw [List.map_append, List.foldl_append, foldl_note_own]
  rfl

theorem tally_belowLayer_inner
    (log : List (LoopEvent (ExplainAct β ε (Traffic κ Message ε) V)))
    (es : List (Traffic κ Message ε)) :
    tally (belowLayer (log ++ (es.map .inner).map .service))
      = (es.map .service).foldl Tally.note (tally (belowLayer log)) := by
  have hes : belowLayer ((es.map .inner).map .service
      : List (LoopEvent (ExplainAct β ε (Traffic κ Message ε) V))) = es.map .service := by
    induction es with
    | nil => rfl
    | cons e es ih => exact congrArg _ ih
  rw [← tally_append, ← hes]
  exact congrArg tally List.filterMap_append

theorem tally_belowLayer_emit
    (log : List (LoopEvent (ExplainAct β ε (Traffic κ Message ε) V)))
    (result : Except (ExplainError β ε) (ExplainEvent V)) :
    tally (belowLayer (log ++ [.service (emitOrLog result)])) = tally (belowLayer log) := by
  have hemit : belowLayer [(.service (emitOrLog result)
      : LoopEvent (ExplainAct β ε (Traffic κ Message ε) V))] = [] := by
    cases result with
    | error err => rfl
    | ok event => rfl
  have happend : belowLayer (log ++ [.service (emitOrLog result)])
      = belowLayer log ++ belowLayer [.service (emitOrLog result)] := List.filterMap_append
  rw [happend, hemit, List.append_nil]

/-! ### Without the layer -/

/- The one call of the current request has been made. -/
def Called (t : Tally ε) : LoopPhase β ε φ τ → Prop
  | .reading => True
  | .closed _ => True
  | _ => t.calls = 1

structure PlainInv (c : Conn β ε σ φ τ (Traffic κ Message ε)) : Prop where
  given : (tally c.log).given = (tally c.log).yielded
  called : Called (tally c.log) c.phase

theorem called_of_calls {t : Tally ε} (h : t.calls = 1) (phase : LoopPhase β ε φ τ) :
    Called t phase := by
  cases phase with
  | reading => trivial
  | closed r => trivial
  | calling f => exact h
  | replying r => exact h
  | sending r resp => exact h

theorem plainInv_of_tally {phase : LoopPhase β ε φ τ} {state : σ}
    {log : List (LoopEvent (Traffic κ Message ε))} {t : Tally ε} (ht : tally log = t)
    (hgiven : t.given = t.yielded) (hcalls : t.calls = 1) : PlainInv ⟨phase, state, log⟩ := by
  subst ht
  exact ⟨hgiven, called_of_calls hcalls phase⟩

section
variable {phase : LoopPhase β ε φ τ} {state : σ} {log : List (LoopEvent (Traffic κ Message ε))}
  (hgiven : (tally log).given = (tally log).yielded) (hcalls : (tally log).calls = 1)
include hgiven hcalls

/- A poll that is not ready leaves the tally as it was. -/
theorem plainInv_own (own : List κ) :
    PlainInv ⟨phase, state, log ++ (own.map Traffic.own).map .service⟩ := by
  have ht : tally (log ++ (own.map Traffic.own).map (.service : Traffic κ Message ε → _))
      = tally log := by
    rw [tally_append, foldl_note_own]
  exact plainInv_of_tally ht hgiven hcalls

theorem plainInv_ended (own : List κ) (r : Except ε Unit) :
    PlainInv ⟨phase, state, log ++ (own.map Traffic.own ++ [Traffic.ended r]).map .service⟩ := by
  have ht : tally (log ++ (own.map Traffic.own ++ [Traffic.ended r]).map .service)
      = { tally log with ended := some r } := by
    rw [tally_append, foldl_note_own_append]
    simp only [Tally.note, hcalls, if_true]
  exact plainInv_of_tally ht hgiven hcalls

/- A reply is given to the loop in the step that yields it. -/
theorem plainInv_yielded (own : List κ) (m : Message) :
    PlainInv ⟨phase, state,
      log ++ (own.map Traffic.own ++ [Traffic.yielded m]).map LoopEvent.service ++
        [LoopEvent.given m]⟩ := by
  have ht : tally (log ++ (own.map Traffic.own ++ [Traffic.yielded m]).map LoopEvent.service ++
        [LoopEvent.given m])
      = { tally log with
          yielded := (tally log).yielded ++ [m], given := (tally log).given ++ [m] } := by
    rw [tally_append, tally_append, foldl_note_own_append]
    simp only [Tally.note, hcalls, if_true, List.foldl_cons, List.foldl_nil]
  exact plainInv_of_tally ht (congrArg (· ++ [m]) hgiven) hcalls

end

theorem PlainInv.step {S : Service ι σ φ τ Message ε κ}
    {c : Conn β ε σ φ τ (Traffic κ Message ε)} (h : PlainInv c) (io : ClientIo β ι) :
    PlainInv (Conn.step S.tapped c io) := by
  obtain ⟨phase, state, log⟩ := c
  obtain ⟨hgiven, hcalled⟩ := h
  dsimp only at hgiven hcalled
  cases phase with
  | reading =>
    rcases hio : io.next with - | (- | (e | req))
    · simp only [Conn.step, hio]
      exact ⟨hgiven, trivial⟩
    · simp only [Conn.step, hio]
      exact ⟨hgiven, trivial⟩
    · simp only [Conn.step, hio]
      exact ⟨hgiven, trivial⟩
    · simp only [Conn.step, hio, tapped, List.map_cons]
      have ht : tally (log ++ .decoded req :: .service (.called req)
          :: ((S.call state req).2.2.map Traffic.own).map LoopEvent.service)
          = (⟨1, [], none, false, []⟩ : Tally ε) := by
        rw [tally_append, List.foldl_cons, List.foldl_cons, foldl_note_own]
        rfl
      exact plainInv_of_tally ht rfl rfl
  | calling f =>
    simp only [Conn.step, tapped]
    rcases (S.pollCall io.service state f).answer with - | (e | t)
    · simp only [callTraffic, List.append_nil]
      exact plainInv_own hgiven hcalled _
    · exact plainInv_ended hgiven hcalled _ _
    · simp only [callTraffic, List.append_nil]
      exact plainInv_own hgiven hcalled _
  | replying t =>
    simp only [Conn.step, tapped]
    rcases (S.pollNext io.service state t).answer with - | (- | (e | m))
    · simp only [nextTraffic, List.append_nil]
      exact plainInv_own hgiven hcalled _
    · exact plainInv_ended hgiven hcalled _ _
    · exact plainInv_ended hgiven hcalled _ _
    · exact plainInv_yielded hgiven hcalled _ _
  | sending t resp =>
    rcases hio : io.send with - | (e | u)
    · simp only [Conn.step, hio]
      exact ⟨hgiven, hcalled⟩
    · simp only [Conn.step, hio]
      exact ⟨hgiven, trivial⟩
    · simp only [Conn.step, hio]
      exact plainInv_of_tally (tally_append log [.sent resp]) hgiven hcalled
  | closed r => exact ⟨hgiven, trivial⟩

/-- Without the layer the loop has been given all that was yielded, in every state. -/
theorem given_eq_yielded_plain (S : Service ι σ φ τ Message ε κ) (s : σ)
    (ios : List (ClientIo β ι)) :
    let t := tally (Conn.run S.tapped (Conn.start s : Conn β ε σ φ τ (Traffic κ Message ε)) ios).log
    t.given = t.yielded :=
  (Conn.run_invariant S.tapped PlainInv (fun _ io hc => hc.step io) (Conn.start s)
    ⟨rfl, trivial⟩ ios).given

/-! ### With the layer -/

/- The replies the loop holds but has not asked for yet; the stream answers every poll at once. -/
def inHand : LoopPhase β ε φ ReplayStream → List Message
  | .replying t => t.inner
  | .sending t _ => t.inner
  | _ => []

structure Delivered (t : Tally ε) : Prop where
  given : t.given = t.yielded
  complete : t.yielded = [] ∨ t.Over

/- What is known in each phase of the layered loop. -/
def LayerInv (t : Tally ε) : LoopPhase β ε (ExplainFuture φ τ β ε) ReplayStream → Prop
  | .reading => Delivered t
  | .calling (.start _) => t = .zero
  | .calling (.forwarding _ _ d) => t = ⟨1, d.collected, none, false, []⟩
  | .calling (.explaining replies _ _ _ _) => t = ⟨2, replies, some (.ok ()), false, []⟩
  | .calling .finished => False
  | .replying r => t.given ++ r.inner = t.yielded ∧ t.Over
  | .sending r _ => t.given ++ r.inner = t.yielded ∧ t.Over
  | .closed (.ok ()) => Delivered t
  | .closed (.error (.decodeFromClient _)) => Delivered t
  | .closed (.error (.upstreamRequest e)) => t.given = [] ∧ t.ended = some (.error e)
  | .closed (.error (.upstreamResponse _)) => False
  | .closed (.error (.encodeToClient _)) => True

/- A connection through the layer over an inner service whose traffic is watched. -/
abbrev LayeredConn (β ε σ φ τ κ : Type) (V : PlanVocabulary) :=
  Conn β ε (ExplainState σ) (ExplainFuture φ τ β ε) ReplayStream
    (ExplainAct β ε (Traffic κ Message ε) V)

/- The step of a future that has not been polled, or that waits for its first exchange. -/
theorem layerInv_step_forwarding (S : Service ι σ φ τ Message ε κ) (io : ClientIo β ι)
    {c : LayeredConn β ε σ φ τ κ V} {clientRequestId : RequestId}
    {prepared : Option (Prepared β ε)} {d : Drain φ τ Message}
    (hp : c.phase = .calling (.forwarding clientRequestId prepared d))
    (h : tally (belowLayer c.log) = ⟨1, d.collected, none, false, []⟩) :
    LayerInv (tally (belowLayer (Conn.step (explainService codec S.tapped) c io).log))
      (Conn.step (explainService codec S.tapped) c io).phase := by
  obtain ⟨phase, ⟨s, counter⟩, log⟩ := c
  cases hp
  dsimp only at h
  obtain ⟨own, ⟨ha, he, hs⟩ | ⟨m, ha, he, hs⟩ | ⟨e, ha, he⟩ | ⟨ha, he⟩⟩ :=
    pollDrain_tapped_cases S io.service s d
  · simp only [Conn.step, pollCall_forwarding_pending codec S.tapped ha, LayerInv]
    rw [tally_belowLayer_inner, he, foldl_note_own, h, hs]
  · simp only [Conn.step, pollCall_forwarding_pending codec S.tapped ha, LayerInv]
    rw [tally_belowLayer_inner, he, foldl_note_own_append, h, hs]
    rfl
  · simp only [Conn.step, pollCall_forwarding_error codec S.tapped ha, LayerInv]
    rw [tally_belowLayer_inner, he, foldl_note_own_append, h]
    exact ⟨rfl, rfl⟩
  · have hended : tally (belowLayer (log ++ ((S.tapped.pollDrain io.service s d).events.map
        ExplainAct.inner).map LoopEvent.service))
        = ⟨1, d.collected, some (.ok ()), false, []⟩ := by
      rw [tally_belowLayer_inner, he, foldl_note_own_append, h]
      rfl
    rcases prepared with - | ⟨command, rid, (err | msg)⟩
    · simp only [Conn.step, pollCall_forwarding_unclassified codec S.tapped ha, LayerInv]
      rw [hended]
      exact ⟨rfl, rfl, fun h => (by cases h)⟩
    · simp only [Conn.step, pollCall_forwarding_unbuilt codec S.tapped ha, LayerInv,
        List.map_append, List.map_cons, List.map_nil]
      rw [← List.append_assoc, tally_belowLayer_emit, hended]
      exact ⟨rfl, rfl, fun h => (by cases h)⟩
    · simp only [Conn.step, pollCall_forwarding_built codec S.tapped ha, LayerInv,
        List.map_append]
      rw [← List.append_assoc, tally_belowLayer_inner, hended]
      simp only [tapped, List.map_cons, List.foldl_cons]
      rw [foldl_note_own]
      rfl

theorem layerInv_step_explaining (S : Service ι σ φ τ Message ε κ) (io : ClientIo β ι)
    {c : LayeredConn β ε σ φ τ κ V} {replies : List Message} {command : Command}
    {clientRequestId : RequestId} {rid : Option ExplainRequestId} {d : Drain φ τ Message}
    (hp : c.phase = .calling (.explaining replies command clientRequestId rid d))
    (h : tally (belowLayer c.log) = ⟨2, replies, some (.ok ()), false, []⟩) :
    LayerInv (tally (belowLayer (Conn.step (explainService codec S.tapped) c io).log))
      (Conn.step (explainService codec S.tapped) c io).phase := by
  obtain ⟨phase, ⟨s, counter⟩, log⟩ := c
  cases hp
  dsimp only at h
  obtain ⟨own, ⟨ha, he, -⟩ | ⟨m, ha, he, -⟩ | ⟨e, ha, he⟩ | ⟨ha, he⟩⟩ :=
    pollDrain_tapped_cases S io.service s d
  · simp only [Conn.step, pollCall_explaining_pending codec S.tapped ha, LayerInv]
    rw [tally_belowLayer_inner, he, foldl_note_own, h]
  · simp only [Conn.step, pollCall_explaining_pending codec S.tapped ha, LayerInv]
    rw [tally_belowLayer_inner, he, foldl_note_own_append, h]
    rfl
  · simp only [Conn.step, pollCall_explaining_ready codec S.tapped ha, LayerInv, List.map_append,
      List.map_cons, List.map_nil]
    rw [← List.append_assoc, tally_belowLayer_emit, tally_belowLayer_inner, he,
      foldl_note_own_append, h]
    exact ⟨rfl, rfl, fun _ => rfl⟩
  · simp only [Conn.step, pollCall_explaining_ready codec S.tapped ha, LayerInv, List.map_append,
      List.map_cons, List.map_nil]
    rw [← List.append_assoc, tally_belowLayer_emit, tally_belowLayer_inner, he,
      foldl_note_own_append, h]
    exact ⟨rfl, rfl, fun _ => rfl⟩

theorem tally_belowLayer_append
    (log es : List (LoopEvent (ExplainAct β ε (Traffic κ Message ε) V))) :
    tally (belowLayer (log ++ es)) = (belowLayer es).foldl Tally.note (tally (belowLayer log)) := by
  have happend : belowLayer (log ++ es) = belowLayer log ++ belowLayer es :=
    List.filterMap_append
  rw [happend, tally_append]

theorem layerInv_step (S : Service ι σ φ τ Message ε κ) (c : LayeredConn β ε σ φ τ κ V)
    (io : ClientIo β ι) (h : LayerInv (tally (belowLayer c.log)) c.phase) :
    LayerInv (tally (belowLayer (Conn.step (explainService codec S.tapped) c io).log))
      (Conn.step (explainService codec S.tapped) c io).phase := by
  obtain ⟨phase, ⟨s, counter⟩, log⟩ := c
  dsimp only at h
  cases phase with
  | reading =>
    rcases hio : io.next with - | (- | (e | req))
    · simp only [Conn.step, hio]
      exact h
    · simp only [Conn.step, hio]
      exact h
    · simp only [Conn.step, hio]
      exact h
    · simp only [Conn.step, hio, explainService, List.map_nil, LayerInv]
      rw [tally_belowLayer_append]
      rfl
  | calling f =>
    cases f with
    | start req =>
      have hstart : tally (belowLayer log) = .zero := h
      simp only [Conn.step, explainService, pollHandleRequest, LayerInv]
      rw [tally_belowLayer_inner, hstart]
      simp only [tapped, List.map_cons, List.foldl_cons]
      rw [foldl_note_own]
      rfl
    | forwarding cid prepared d => exact layerInv_step_forwarding codec S io rfl h
    | explaining replies command cid rid d => exact layerInv_step_explaining codec S io rfl h
    | finished => exact h.elim
  | replying t =>
    obtain ⟨hgiven, hover⟩ := h
    obtain ⟨rest⟩ := t
    cases rest with
    | nil =>
      simp only [Conn.step, explainService, ReplayStream.pollNext, List.map_nil, List.append_nil]
        at hgiven ⊢
      exact ⟨hgiven, .inr hover⟩
    | cons m ms =>
      simp only [Conn.step, explainService, ReplayStream.pollNext, List.map_nil, List.append_nil,
        LayerInv]
      rw [tally_belowLayer_append]
      refine ⟨?_, hover⟩
      calc (tally (belowLayer log)).given ++ [m] ++ ms
          = (tally (belowLayer log)).given ++ m :: ms := List.append_assoc _ [m] ms
        _ = (tally (belowLayer log)).yielded := hgiven
  | sending t resp =>
    rcases hio : io.send with - | (e | u)
    · simp only [Conn.step, hio]
      exact h
    · simp only [Conn.step, hio, LayerInv]
    · simp only [Conn.step, hio, LayerInv]
      rw [tally_belowLayer_append]
      exact h
  | closed r => exact h

theorem Delivered.delivers_iff {t : Tally ε} (h : Delivered t) :
    t.given ++ [] = t.yielded ↔ t.yielded = [] ∨ t.Over := by
  rw [List.append_nil]
  exact iff_of_true h.given h.complete

/- While the request is not over, only an empty buffer withholds nothing. -/
theorem delivers_iff_of_open {t : Tally ε} (hgiven : t.given = []) (hopen : ¬t.Over) :
    t.given ++ [] = t.yielded ↔ t.yielded = [] ∨ t.Over := by
  rw [hgiven, List.append_nil, or_iff_left hopen]
  exact eq_comm

theorem LayerInv.delivers_iff {t : Tally ε}
    {phase : LoopPhase β ε (ExplainFuture φ τ β ε) ReplayStream} (h : LayerInv t phase)
    (hsocket : ∀ e, phase ≠ .closed (.error (.encodeToClient e))) :
    t.given ++ inHand phase = t.yielded ↔ t.yielded = [] ∨ t.Over := by
  cases phase with
  | reading => exact Delivered.delivers_iff h
  | calling f =>
    cases f with
    | start req =>
      have ht : t = .zero := h
      subst ht
      exact iff_of_true rfl (.inl rfl)
    | forwarding cid prepared d =>
      have ht : t = ⟨1, d.collected, none, false, []⟩ := h
      subst ht
      exact delivers_iff_of_open rfl (fun hover => by cases hover.1)
    | explaining replies command cid rid d =>
      have ht : t = ⟨2, replies, some (.ok ()), false, []⟩ := h
      subst ht
      exact delivers_iff_of_open rfl (fun hover => by cases hover.2 rfl)
    | finished => exact h.elim
  | replying r => exact iff_of_true h.1 (.inr h.2)
  | sending r resp => exact iff_of_true h.1 (.inr h.2)
  | closed r =>
    rcases r with (e | e | e | e) | u
    · exact Delivered.delivers_iff h
    · obtain ⟨hgiven, hended⟩ := h
      refine delivers_iff_of_open hgiven ?_
      intro hover
      cases hended.symm.trans hover.1
    · exact h.elim
    · exact absurd rfl (hsocket e)
    · exact Delivered.delivers_iff h

/-- As long as the client's socket works: the loop has been given what the inner service
yielded exactly when nothing was yielded, or when the inner stream has ended with `None` and the
sideband, if there is one, is over too. Without the layer it has been given all of it in every
state. -/
theorem explain_delivers_iff (S : Service ι σ φ τ Message ε κ) (s : σ) (counter : Int32)
    (ios : List (ClientIo β ι)) :
    let plain := tally (Conn.run S.tapped
      (Conn.start s : Conn β ε σ φ τ (Traffic κ Message ε)) ios).log
    let c := Conn.run (explainService codec S.tapped)
      (Conn.start ⟨s, counter⟩ : LayeredConn β ε σ φ τ κ V) ios
    let t := tally (belowLayer c.log)
    plain.given = plain.yielded ∧
    ((∀ e, c.phase ≠ .closed (.error (.encodeToClient e))) →
      (t.given ++ inHand c.phase = t.yielded ↔
        t.yielded = [] ∨ t.ended = some (.ok ()) ∧ (t.calls = 2 → t.sidebandOver = true))) := by
  refine ⟨given_eq_yielded_plain S s ios, ?_⟩
  have h := Conn.run_invariant (explainService codec S.tapped)
    (fun c : LayeredConn β ε σ φ τ κ V => LayerInv (tally (belowLayer c.log)) c.phase)
    (fun c io hc => layerInv_step codec S c io hc) (Conn.start ⟨s, counter⟩)
    ⟨rfl, .inl rfl⟩ ios
  exact fun hsocket => h.delivers_iff hsocket

/-! ### A stream that fails after its first reply -/

def bareVocabulary : PlanVocabulary := ⟨Unit, Unit, Unit, Unit⟩

/- No explain is issued below, so nothing is deserialised. -/
def bareCodec : ReplyCodec Unit bareVocabulary where
  explainReply _ := .error ()
  serverError _ := .error ()
  preview _ := ""
  lowercase s := s

def exhaustRequest : Message :=
  ⟨⟨7⟩, none, .message ⟨.exhaustAllowed, [.body .new], none⟩⟩

def exhaustReply : Message :=
  ⟨⟨8⟩, some ⟨7, ResponseTo.seven_ne_zero⟩, .message ⟨.moreToCome, [.body .new], none⟩⟩

/- The upstream answers one frame that announces another, and then closes. -/
def brokenExhaust : List (ClientIo Unit (UpstreamIo Unit)) :=
  let quiet : UpstreamIo Unit := ⟨true, .ready (.ok ()), .pending⟩
  let reply : UpstreamIo Unit := { quiet with read := .ready (some (.ok exhaustReply)) }
  let eof : UpstreamIo Unit := { quiet with read := .ready none }
  [⟨.ready (some (.ok exhaustRequest)), .pending, quiet⟩, ⟨.pending, .pending, quiet⟩,
    ⟨.pending, .pending, quiet⟩, ⟨.pending, .pending, quiet⟩, ⟨.pending, .pending, reply⟩,
    ⟨.pending, .ready (.ok ()), quiet⟩, ⟨.pending, .pending, eof⟩]

theorem brokenExhaust_withheld :
    let plain := Conn.run ProxyClient.service.tapped (Conn.start ⟨false⟩) brokenExhaust
    let c := Conn.run (explainService bareCodec ProxyClient.service.tapped)
      (Conn.start (.new ⟨false⟩) : LayeredConn Unit (ProxyClientRequestError Unit)
        ProxyClientInner ProxyClientRequestFuture ProxyResponseStream UpstreamEvent
        bareVocabulary) brokenExhaust
    (plain.phase = .closed (.error (.upstreamResponse .endOfStream)) ∧
      (tally plain.log).yielded = [exhaustReply] ∧ (tally plain.log).given = [exhaustReply]) ∧
    c.phase = .closed (.error (.upstreamRequest .endOfStream)) ∧
      (tally (belowLayer c.log)).yielded = [exhaustReply] ∧
      (tally (belowLayer c.log)).given ++ inHand c.phase = [] := by
  exact ⟨⟨rfl, rfl, rfl⟩, rfl, rfl, rfl⟩

end MongodProxy.Explain
