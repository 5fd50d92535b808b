import MongodProxy.Serve.Explain.Layer

/-!
# The explain sideband as the client sees it

An exchange through `ExplainService` is the exchange with the inner service, then
(at most) a second exchange of the layer's own, then the replay of the first one's
replies. `sideband` is what happens between the first exchange and the replay.
-/

namespace MongodProxy.Explain
open MongodProxy Service

variable {β ε ι σ φ τ κ : Type} {V : PlanVocabulary} (codec : ReplyCodec β V)

/-! ### Polls of the layer -/

section
variable (S : Service ι σ φ τ Message ε κ) {i : ι} {s : σ} {counter : Int32}
  {clientRequestId : RequestId} {prepared : Option (Prepared β ε)} {d : Drain φ τ Message}
  {replies : List Message} {command : Command} {rid : Option ExplainRequestId}

theorem pollCall_forwarding_pending (h : (S.pollDrain i s d).answer = .pending) :
    (explainService codec S).pollCall i ⟨s, counter⟩ (.forwarding clientRequestId prepared d)
      = ⟨.pending, .forwarding clientRequestId prepared (S.pollDrain i s d).self,
          ⟨(S.pollDrain i s d).state, counter⟩, (S.pollDrain i s d).events.map .inner⟩ := by
  simp only [explainService, pollHandleRequest, h]

theorem pollCall_forwarding_error {e : ε}
    (h : (S.pollDrain i s d).answer = .ready (.error e)) :
    (explainService codec S).pollCall i ⟨s, counter⟩ (.forwarding clientRequestId prepared d)
      = ⟨.ready (.error e), .finished, ⟨(S.pollDrain i s d).state, counter⟩,
          (S.pollDrain i s d).events.map .inner⟩ := by
  simp only [explainService, pollHandleRequest, h]

theorem pollCall_forwarding_unclassified
    (h : (S.pollDrain i s d).answer = .ready (.ok replies)) :
    (explainService codec S).pollCall i ⟨s, counter⟩ (.forwarding clientRequestId none d)
      = ⟨.ready (.ok ⟨replies⟩), .finished, ⟨(S.pollDrain i s d).state, counter⟩,
          (S.pollDrain i s d).events.map .inner⟩ := by
  simp only [explainService, pollHandleRequest, h]

theorem pollCall_forwarding_unbuilt {err : ExplainError β ε}
    (h : (S.pollDrain i s d).answer = .ready (.ok replies)) :
    (explainService codec S).pollCall i ⟨s, counter⟩
        (.forwarding clientRequestId (some ⟨command, rid, .error err⟩) d)
      = ⟨.ready (.ok ⟨replies⟩), .finished, ⟨(S.pollDrain i s d).state, counter⟩,
          (S.pollDrain i s d).events.map .inner ++ [emitOrLog (.error err)]⟩ := by
  simp only [explainService, pollHandleRequest, h]

theorem pollCall_forwarding_built {msg : Message}
    (h : (S.pollDrain i s d).answer = .ready (.ok replies)) :
    (explainService codec S).pollCall i ⟨s, counter⟩
        (.forwarding clientRequestId (some ⟨command, rid, .ok msg⟩) d)
      = ⟨.pending, .explaining replies command clientRequestId rid
            (.calling (S.call (S.pollDrain i s d).state msg).1),
          ⟨(S.call (S.pollDrain i s d).state msg).2.1, counter⟩,
          (S.pollDrain i s d).events.map .inner
            ++ (S.call (S.pollDrain i s d).state msg).2.2.map .inner⟩ := by
  simp only [explainService, pollHandleRequest, h]

theorem pollCall_explaining_pending (h : (S.pollDrain i s d).answer = .pending) :
    (explainService codec S).pollCall i ⟨s, counter⟩ (.explaining replies command clientRequestId rid d)
      = ⟨.pending, .explaining replies command clientRequestId rid (S.pollDrain i s d).self,
          ⟨(S.pollDrain i s d).state, counter⟩, (S.pollDrain i s d).events.map .inner⟩ := by
  simp only [explainService, pollHandleRequest, h]

theorem pollCall_explaining_ready {answer : Except ε (List Message)}
    (h : (S.pollDrain i s d).answer = .ready answer) :
    (explainService codec S).pollCall i ⟨s, counter⟩ (.explaining replies command clientRequestId rid d)
      = ⟨.ready (.ok ⟨replies⟩), .finished, ⟨(S.pollDrain i s d).state, counter⟩,
          (S.pollDrain i s d).events.map .inner
            ++ [emitOrLog (explainResult codec command clientRequestId rid answer)]⟩ := by
  simp only [explainService, pollHandleRequest, h]

end

/-! ### Runs of the layer -/

section
variable (S : Service ι σ φ τ Message ε κ)

/- The events between the first exchange and the replay, and the inputs left for the replay if
it gets that far. -/
def sideband (clientRequestId : RequestId) (prepared : Option (Prepared β ε))
    (x : Drained ι σ φ τ Message ε κ) : List (ExplainAct β ε κ V) × Option (List ι) :=
  match prepared with
  | none => ([], some x.rest)
  | some ⟨_, _, .error err⟩ => ([emitOrLog (.error err)], some x.rest)
  | some ⟨command, explainRequestId, .ok msg⟩ =>
    let y := S.exchange x.state msg x.rest
    match y.answer with
    | none => (y.events.map .inner, none)
    | some answer =>
      (y.events.map .inner ++
        [emitOrLog (explainResult codec command clientRequestId explainRequestId answer)],
        some y.rest)

def replayAnswer (replies : List Message) : Option (List ι) → Option (Except ε (List Message))
  | none => none
  | some rest => if replies.length < rest.length then some (.ok replies) else none

theorem replayAnswer_eq_some {replies : List Message} {rest : Option (List ι)}
    {answer : Except ε (List Message)} (h : replayAnswer replies rest = some answer) :
    answer = .ok replies := by
  cases rest with
  | none => cases h
  | some rest =>
    simp only [replayAnswer] at h
    split_ifs at h
    exact (Option.some.inj h).symm

/- The inner service's state after an exchange and its sideband, as far as they have come. -/
def leftBy (prepared : Option (Prepared β ε)) (x : Drained ι σ φ τ Message ε κ) : σ :=
  match x.answer, prepared with
  | some (.ok _), some ⟨_, _, .ok msg⟩ => (S.exchange x.state msg x.rest).state
  | _, _ => x.state

/- The replies that are in the buffer for the client: all of them once the sideband is over. -/
def released (replies : List Message) : Option (List ι) → List Message
  | none => []
  | some _ => replies

theorem events_after (before : List κ) (r : Drained ι σ φ τ Message ε κ) :
    (r.after before).events = before ++ r.events := rfl

/-- What a run of polls came to; `out` is the most that it can have collected. -/
structure Comes (r : Drained ι σ φ τ Message ε κ) (result : Option (Except ε (List Message)))
    (es : List κ) (s : σ) (out : List Message) : Prop where
  answer : r.answer = result
  events : r.events = es
  state : r.state = s
  collected : r.self.collected <+: out

theorem Comes.after {r : Drained ι σ φ τ Message ε κ} {result : Option (Except ε (List Message))}
    {es : List κ} {s : σ} {out : List Message} (h : Comes r result es s out) (before : List κ) :
    Comes (r.after before) result (before ++ es) s out :=
  ⟨h.answer, congrArg (before ++ ·) h.events, h.state, h.collected⟩

theorem drainRun_replay (is : List ι) (st : ExplainState σ) (replies out : List Message) :
    Comes ((explainService codec S).drainRun is st (.draining ⟨replies⟩ out))
      (if replies.length < is.length then some (.ok (out ++ replies)) else none) [] st
      (out ++ replies) := by
  induction is generalizing replies out with
  | nil => exact ⟨rfl, rfl, rfl, List.prefix_append _ _⟩
  | cons i is ih =>
    cases replies with
    | nil =>
      rw [drainRun_next_none (explainService codec S) rfl]
      exact ⟨by simp, rfl, rfl, List.prefix_append _ _⟩
    | cons m ms =>
      have h := ih ms (out ++ [m])
      rw [List.append_assoc] at h
      rw [drainRun_next_ok (explainService codec S) rfl, Drained.after_nil]
      refine ⟨?_, h.events, h.state, h.collected⟩
      rw [h.answer]
      simp

/- The replay behind the sideband. -/
theorem replayed (is : List ι) (st : ExplainState σ) (replies : List Message)
    (before : List (ExplainAct β ε κ V)) :
    Comes (((explainService codec S).drainRun is st (.draining ⟨replies⟩ [])).after before)
      (replayAnswer replies (some is)) before st replies := by
  have h := (drainRun_replay codec S is st replies []).after before
  rw [List.append_nil] at h
  exact h

/- The second exchange, and the replay after it. -/
theorem drainRun_explaining (is : List ι) (s : σ) (counter : Int32) (replies : List Message)
    (command : Command) (clientRequestId : RequestId) (rid : Option ExplainRequestId)
    (d : Drain φ τ Message) :
    let y := S.drainRun is s d
    let r := (explainService codec S).drainRun is ⟨s, counter⟩
      (.calling (.explaining replies command clientRequestId rid d))
    (y.answer = none → Comes r none (y.events.map .inner) ⟨y.state, counter⟩ []) ∧
      ∀ answer, y.answer = some answer →
        Comes r (replayAnswer replies (some y.rest)) (y.events.map .inner ++
          [emitOrLog (explainResult codec command clientRequestId rid answer)])
          ⟨y.state, counter⟩ replies := by
  induction is generalizing s d with
  | nil =>
    refine ⟨fun _ => ⟨rfl, rfl, rfl, List.prefix_rfl⟩, ?_⟩
    intro answer h
    cases h
  | cons i is ih =>
    rcases hp : (S.pollDrain i s d).answer with - | answer
    · obtain ⟨hnone, hsome⟩ := ih (S.pollDrain i s d).state (S.pollDrain i s d).self
      rw [drainRun_call_pending (explainService codec S)
        (pollCall_explaining_pending codec S hp), drainRun_of_pending S hp]
      simp only [events_after, List.map_append, List.append_assoc]
      exact ⟨fun h => (hnone h).after _, fun answer h => (hsome answer h).after _⟩
    · rw [drainRun_call_ok (explainService codec S)
        (pollCall_explaining_ready codec S hp), drainRun_of_ready S hp]
      refine ⟨fun h => (by cases h), ?_⟩
      intro answer' h
      cases h
      exact replayed codec S is _ replies _

/- The poll that completes the first exchange, and what follows it. -/
theorem drainRun_forwarded {i : ι} (is : List ι) (s : σ) (counter : Int32)
    (clientRequestId : RequestId) (prepared : Option (Prepared β ε)) (d : Drain φ τ Message)
    {replies : List Message} (hp : (S.pollDrain i s d).answer = .ready (.ok replies)) :
    let x := S.drainRun (i :: is) s d
    let later := sideband codec S clientRequestId prepared x
    Comes ((explainService codec S).drainRun (i :: is) ⟨s, counter⟩
        (.calling (.forwarding clientRequestId prepared d)))
      (replayAnswer replies later.2) (x.events.map .inner ++ later.1)
      ⟨leftBy S prepared x, counter⟩ (released replies later.2) := by
  dsimp only
  rw [drainRun_of_ready S hp]
  rcases prepared with - | ⟨command, rid, (err | msg)⟩
  · rw [drainRun_call_ok (explainService codec S)
      (pollCall_forwarding_unclassified codec S hp)]
    simp only [sideband, leftBy, released, List.append_nil]
    exact replayed codec S is _ replies _
  · rw [drainRun_call_ok (explainService codec S)
      (pollCall_forwarding_unbuilt codec S hp)]
    exact replayed codec S is _ replies _
  · rw [drainRun_call_pending (explainService codec S)
      (pollCall_forwarding_built codec S hp)]
    obtain ⟨hnone, hsome⟩ := drainRun_explaining codec S is
      (S.call (S.pollDrain i s d).state msg).2.1 counter replies command clientRequestId rid
      (.calling (S.call (S.pollDrain i s d).state msg).1)
    simp only [sideband, leftBy, exchange]
    cases hy : (S.drainRun is (S.call (S.pollDrain i s d).state msg).2.1
        (.calling (S.call (S.pollDrain i s d).state msg).1)).answer with
    | none =>
      have h := (hnone hy).after ((S.pollDrain i s d).events.map .inner
        ++ (S.call (S.pollDrain i s d).state msg).2.2.map .inner)
      simpa only [Drained.after, hy, released, replayAnswer, List.map_append,
        List.append_assoc] using h
    | some answer =>
      have h := (hsome answer hy).after ((S.pollDrain i s d).events.map .inner
        ++ (S.call (S.pollDrain i s d).state msg).2.2.map .inner)
      simpa only [Drained.after, hy, released, List.map_append, List.append_assoc] using h

/- The first exchange, and what follows it. -/
theorem drainRun_forwarding (is : List ι) (s : σ) (counter : Int32) (clientRequestId : RequestId)
    (prepared : Option (Prepared β ε)) (d : Drain φ τ Message) :
    let x := S.drainRun is s d
    let r := (explainService codec S).drainRun is ⟨s, counter⟩
      (.calling (.forwarding clientRequestId prepared d))
    let later := sideband codec S clientRequestId prepared x
    let left : ExplainState σ := ⟨leftBy S prepared x, counter⟩
    (x.answer = none → Comes r none (x.events.map .inner) left []) ∧
      (∀ e, x.answer = some (.error e) →
        Comes r (some (.error e)) (x.events.map .inner) left []) ∧
      ∀ replies, x.answer = some (.ok replies) →
        Comes r (replayAnswer replies later.2) (x.events.map .inner ++ later.1) left
          (released replies later.2) := by
  induction is generalizing s d with
  | nil =>
    refine ⟨fun _ => ⟨rfl, rfl, rfl, List.prefix_rfl⟩, ?_, ?_⟩
    · intro e h
      cases h
    · intro replies h
      cases h
  | cons i is ih =>
    rcases hp : (S.pollDrain i s d).answer with - | (e | replies)
    · obtain ⟨hnone, herror, hok⟩ := ih (S.pollDrain i s d).state (S.pollDrain i s d).self
      rw [drainRun_call_pending (explainService codec S)
        (pollCall_forwarding_pending codec S hp), drainRun_of_pending S hp]
      simp only [events_after, List.map_append, List.append_assoc]
      exact ⟨fun h => (hnone h).after _, fun e h => (herror e h).after _,
        fun replies h => (hok replies h).after _⟩
    · rw [drainRun_call_error (explainService codec S)
        (pollCall_forwarding_error codec S hp), drainRun_of_ready S hp]
      refine ⟨fun h => (by cases h), ?_, fun _ h => (by cases h)⟩
      intro e' h
      cases h
      exact ⟨rfl, rfl, rfl, List.prefix_rfl⟩
    · refine ⟨fun h => ?_, fun _ h => ?_, ?_⟩
      · rw [drainRun_of_ready S hp] at h
        cases h
      · rw [drainRun_of_ready S hp] at h
        cases h
      · intro replies' h
        rw [drainRun_of_ready S hp] at h
        cases h
        exact drainRun_forwarded codec S is s counter clientRequestId prepared d hp

/- The first poll of an exchange prepares the request and passes it on. -/
theorem exchange_explain (s : σ) (counter : Int32) (req : Message) (i₀ : ι) (is : List ι) :
    let x := S.exchange s req is
    let r := (explainService codec S).exchange ⟨s, counter⟩ req (i₀ :: is)
    let later := sideband codec S req.requestId (prepare counter req).1 x
    let left : ExplainState σ :=
      ⟨leftBy S (prepare (β := β) counter req).1 x, (prepare (β := β) (ε := ε) counter req).2⟩
    (x.answer = none → Comes r none (x.events.map .inner) left []) ∧
      (∀ e, x.answer = some (.error e) →
        Comes r (some (.error e)) (x.events.map .inner) left []) ∧
      ∀ replies, x.answer = some (.ok replies) →
        Comes r (replayAnswer replies later.2) (x.events.map .inner ++ later.1) left
          (released replies later.2) := by
  have hstart : (explainService codec S).pollCall i₀ ⟨s, counter⟩ (.start req)
      = ⟨.pending, .forwarding req.requestId (prepare counter req).1 (.calling (S.call s req).1),
          ⟨(S.call s req).2.1, (prepare counter req).2⟩, (S.call s req).2.2.map .inner⟩ := rfl
  have hrun : (explainService codec S).exchange ⟨s, counter⟩ req (i₀ :: is)
      = ((explainService codec S).drainRun is ⟨(S.call s req).2.1, (prepare counter req).2⟩
          (.calling (.forwarding req.requestId (prepare counter req).1
            (.calling (S.call s req).1)))).after ((S.call s req).2.2.map .inner) :=
    drainRun_call_pending (explainService codec S) hstart
  obtain ⟨hnone, herror, hok⟩ := drainRun_forwarding codec S is (S.call s req).2.1
    (prepare counter req).2 req.requestId (prepare counter req).1 (.calling (S.call s req).1)
  dsimp only
  rw [hrun]
  simp only [exchange, events_after, List.map_append, List.append_assoc]
  exact ⟨fun h => (hnone h).after _, fun e h => (herror e h).after _,
    fun replies h => (hok replies h).after _⟩

end

/-! ### What is passed on, and what the sink receives -/

/- The messages passed to the inner service. -/
def passedOf (events : List (ExplainAct β ε (Traffic κ Message ε) V)) : List Message :=
  events.filterMap fun | .inner (.called m) => some m | _ => none

def sinkOf (events : List (ExplainAct β ε κ V)) :
    List (Except (ExplainError β ε) (ExplainEvent V)) :=
  events.filterMap fun
    | .record event => some (.ok event)
    | .recordError err => some (.error err)
    | .inner _ => none

/- The message `build_explain` builds for a request that `classify` admits. -/
def explainMessage (counter : Int32) (req : Message) : Option Message :=
  match classify req, (allocRequestId counter).1 with
  | some plan, some rid =>
    match buildExplain plan rid with
    | .built msg => some msg
    | .unsupportedShape _ => none
  | _, _ => none

theorem prepare_cases (counter : Int32) (req : Message) :
    (classify req = none ∧ ((prepare counter req).1 : Option (Prepared β ε)) = none ∧
        explainMessage counter req = none) ∨
    (classify req ≠ none ∧ explainMessage counter req = none ∧
      ∃ command rid err, ((prepare counter req).1 : Option (Prepared β ε))
        = some ⟨command, rid, .error err⟩) ∨
    (classify req ≠ none ∧ ∃ command rid msg, explainMessage counter req = some msg ∧
      ((prepare counter req).1 : Option (Prepared β ε)) = some ⟨command, rid, .ok msg⟩) := by
  unfold prepare explainMessage
  cases hc : classify req with
  | none => exact .inl ⟨rfl, rfl, rfl⟩
  | some plan =>
    refine .inr ?_
    rcases ha : allocRequestId counter with ⟨- | rid, counter'⟩
    · exact .inl ⟨by simp, rfl, plan.command, none, .requestIdExhausted, rfl⟩
    · cases hb : buildExplain plan rid with
      | built msg =>
        simp only [hb]
        exact .inr ⟨by simp, plan.command, some rid, msg, rfl, rfl⟩
      | unsupportedShape r =>
        exact .inl ⟨by simp, by simp only [hb], plan.command, some rid, .unsupportedShape r,
          by simp only [hb]⟩

theorem sinkOf_inner (events : List κ) :
    sinkOf (events.map .inner : List (ExplainAct β ε κ V)) = [] := by
  simp only [sinkOf, List.filterMap_map, List.filterMap_eq_nil_iff]
  intro e _
  rfl

theorem sinkOf_emitOrLog (result : Except (ExplainError β ε) (ExplainEvent V)) :
    sinkOf [(emitOrLog result : ExplainAct β ε κ V)] = [result] := by
  cases result with
  | error err => rfl
  | ok event => rfl

theorem passedOf_emitOrLog (result : Except (ExplainError β ε) (ExplainEvent V)) :
    passedOf [(emitOrLog result : ExplainAct β ε (Traffic κ Message ε) V)] = [] := by
  cases result with
  | error err => rfl
  | ok event => rfl

theorem passedOf_append (es es' : List (ExplainAct β ε (Traffic κ Message ε) V)) :
    passedOf (es ++ es') = passedOf es ++ passedOf es' := List.filterMap_append

theorem sinkOf_append (es es' : List (ExplainAct β ε κ V)) :
    sinkOf (es ++ es') = sinkOf es ++ sinkOf es' := List.filterMap_append

theorem passedOf_exchange (S : Service ι σ φ τ Message ε κ) (s : σ) (req : Message)
    (is : List ι) :
    passedOf ((S.tapped.exchange s req is).events.map .inner
      : List (ExplainAct β ε (Traffic κ Message ε) V)) = [req] := by
  have hrest : passedOf ((S.tapped.drainRun is (S.call s req).2.1
      (.calling (S.call s req).1)).events.map .inner
      : List (ExplainAct β ε (Traffic κ Message ε) V)) = [] := by
    simp only [passedOf, List.filterMap_map, List.filterMap_eq_nil_iff]
    intro e he
    cases e with
    | called m => exact absurd he (drainRun_tapped_called S is _ _ m)
    | own e => rfl
    | yielded m => rfl
    | ended r => rfl
  have hown : passedOf (((S.call s req).2.2.map .own).map .inner
      : List (ExplainAct β ε (Traffic κ Message ε) V)) = [] := by
    simp only [passedOf, List.filterMap_map, List.filterMap_eq_nil_iff]
    intro e _
    rfl
  have hevents : (S.tapped.exchange s req is).events
      = [.called req] ++ ((S.call s req).2.2.map .own
          ++ (S.tapped.drainRun is (S.call s req).2.1 (.calling (S.call s req).1)).events) := rfl
  rw [hevents, List.map_append, List.map_append, passedOf_append, passedOf_append, hown, hrest]
  rfl

/- What a sideband passes on and what it tells the sink. -/
theorem sideband_passed_sink (S : Service ι σ φ τ Message ε κ) (counter : Int32) (req : Message)
    (x : Drained ι σ φ τ Message ε (Traffic κ Message ε)) :
    let later := sideband codec S.tapped req.requestId (prepare counter req).1 x
    passedOf later.1 = (explainMessage counter req).toList ∧
      (sinkOf later.1).length ≤ 1 ∧
      ((sinkOf later.1).length = 1 ↔ classify req ≠ none ∧ later.2 ≠ none) ∧
      (explainMessage counter req = none → later.2 = some x.rest) ∧
      ∀ msg, explainMessage counter req = some msg →
        later.2 = (S.tapped.exchange x.state msg x.rest).answer.map
          fun _ => (S.tapped.exchange x.state msg x.rest).rest := by
  rcases prepare_cases (β := β) (ε := ε) counter req with
    ⟨hc, hp, hm⟩ | ⟨hc, hm, command, rid, err, hp⟩ | ⟨hc, command, rid, msg, hm, hp⟩
  · rw [hp]
    simp [sideband, hc, hm, passedOf, sinkOf]
  · rw [hp]
    simp [sideband, hc, hm, passedOf_emitOrLog, sinkOf_emitOrLog]
  · rw [hp]
    simp only [sideband]
    cases hy : (S.tapped.exchange x.state msg x.rest).answer with
    | none =>
      refine ⟨?_, ?_, ?_, fun h => ?_, ?_⟩
      · rw [passedOf_exchange, hm]
        rfl
      · simp [sinkOf_inner]
      · simp [sinkOf_inner]
      · rw [hm] at h
        cases h
      · intro msg' hmsg
        rw [hm] at hmsg
        cases hmsg
        rw [hy]
        rfl
    | some answer =>
      refine ⟨?_, ?_, ?_, fun h => ?_, ?_⟩
      · rw [passedOf_append, passedOf_exchange, passedOf_emitOrLog, hm]
        rfl
      · simp [sinkOf_append, sinkOf_inner, sinkOf_emitOrLog]
      · simp [sinkOf_append, sinkOf_inner, sinkOf_emitOrLog, hc]
      · rw [hm] at h
        cases h
      · intro msg' hmsg
        rw [hm] at hmsg
        cases hmsg
        rw [hy]
        rfl

/- The replay begins unless a second exchange is still going on. -/
theorem sideband_over_iff (S : Service ι σ φ τ Message ε κ) (counter : Int32) (req : Message)
    (x : Drained ι σ φ τ Message ε (Traffic κ Message ε)) :
    (sideband codec S.tapped req.requestId (prepare counter req).1 x).2 ≠ none ↔
      ∀ msg, explainMessage counter req = some msg →
        (S.tapped.exchange x.state msg x.rest).answer ≠ none := by
  obtain ⟨-, -, -, hdirect, hsecond⟩ := sideband_passed_sink codec S counter req x
  cases hm : explainMessage counter req with
  | none =>
    rw [hdirect hm]
    refine iff_of_true (Option.some_ne_none _) ?_
    intro msg h
    cases h
  | some msg =>
    rw [hsecond msg hm]
    simp only [ne_eq, Option.map_eq_none_iff, Option.some.injEq, forall_eq']

/-- Whatever the inner service does: the request is passed to it first and unchanged, the
answer is the inner service's answer to it, the second message (if any) goes out only after the
whole first exchange, and the sink is told once, exactly when an admitted request was answered
and its sideband is over. -/
theorem sideband_invisible (S : Service ι σ φ τ Message ε κ) (s : σ) (counter : Int32)
    (req : Message) (i₀ : ι) (is : List ι) :
    let x := S.tapped.exchange s req is
    let run := (explainService codec S.tapped).exchange ⟨s, counter⟩ req (i₀ :: is)
    (∃ later, run.events = x.events.map .inner ++ later ∧
      passedOf (x.events.map .inner : List (ExplainAct β ε (Traffic κ Message ε) V)) = [req] ∧
      (passedOf later = [] ∨ ∃ msg replies, passedOf later = [msg] ∧
        x.answer = some (.ok replies) ∧ explainMessage counter req = some msg)) ∧
    (∀ e, run.answer = some (.error e) ↔ (S.exchange s req is).answer = some (.error e)) ∧
    (∀ replies, run.answer = some (.ok replies) →
      (S.exchange s req is).answer = some (.ok replies)) ∧
    (∀ replies, (S.exchange s req is).answer = some (.ok replies) →
      (explainMessage counter req = none → replies.length < x.rest.length →
        run.answer = some (.ok replies)) ∧
      ∀ msg, explainMessage counter req = some msg →
        (S.tapped.exchange x.state msg x.rest).answer ≠ none →
        replies.length < (S.tapped.exchange x.state msg x.rest).rest.length →
        run.answer = some (.ok replies)) ∧
    (sinkOf run.events).length ≤ 1 ∧
    ((sinkOf run.events).length = 1 ↔
      classify req ≠ none ∧ (∃ replies, (S.exchange s req is).answer = some (.ok replies)) ∧
        ∀ msg, explainMessage counter req = some msg →
          (S.tapped.exchange x.state msg x.rest).answer ≠ none) := by
  have hx := exchange_tapped_answer S s req is
  have hrun := exchange_explain codec S.tapped s counter req i₀ is
  have hfirst := passedOf_exchange (β := β) (V := V) S s req is
  dsimp only at hrun ⊢
  rw [← hx]
  generalize S.tapped.exchange s req is = x at *
  generalize (explainService codec S.tapped).exchange ⟨s, counter⟩ req (i₀ :: is) = run at *
  obtain ⟨hnone, herror, hok⟩ := hrun
  obtain ⟨hpassed, hle, hone, hdirect, hsecond⟩ := sideband_passed_sink codec S counter req x
  have hover := sideband_over_iff codec S counter req x
  -- as far as the first exchange gets, so far gets the whole
  rcases hanswer : x.answer with - | (e | replies)
  · obtain ⟨ha, he, -, -⟩ := hnone hanswer
    refine ⟨⟨[], by rw [he, List.append_nil], hfirst, .inl rfl⟩, ?_, ?_, ?_, ?_, ?_⟩
    · simp [ha]
    · simp [ha]
    · simp
    · simp [he, sinkOf_inner]
    · simp [he, sinkOf_inner]
  · obtain ⟨ha, he, -, -⟩ := herror e hanswer
    refine ⟨⟨[], by rw [he, List.append_nil], hfirst, .inl rfl⟩, ?_, ?_, ?_, ?_, ?_⟩
    · simp [ha]
    · simp [ha]
    · simp
    · simp [he, sinkOf_inner]
    · simp [he, sinkOf_inner]
  · obtain ⟨ha, he, -, -⟩ := hok replies hanswer
    generalize sideband codec S.tapped req.requestId (prepare counter req).1 x = later at *
    have hsink : sinkOf run.events = sinkOf later.1 := by
      rw [he, sinkOf_append, sinkOf_inner, List.nil_append]
    refine ⟨⟨later.1, he, hfirst, ?_⟩, ?_, ?_, ?_, ?_, ?_⟩
    · cases hm : explainMessage counter req with
      | none => exact .inl (by rw [hpassed, hm]; rfl)
      | some msg => exact .inr ⟨msg, replies, by rw [hpassed, hm]; rfl, rfl, rfl⟩
    · intro e
      rw [ha]
      constructor
      · intro h
        cases replayAnswer_eq_some h
      · intro h
        cases h
    · intro replies' h
      rw [ha] at h
      rw [replayAnswer_eq_some h]
    · intro replies' h
      cases h
      refine ⟨?_, ?_⟩
      · intro hm hlen
        rw [ha, hdirect hm]
        exact if_pos hlen
      · intro msg hm hy hlen
        obtain ⟨answer, hsome⟩ := Option.ne_none_iff_exists'.mp hy
        rw [ha, hsecond msg hm, hsome]
        exact if_pos hlen
    · rw [hsink]
      exact hle
    · rw [hsink, hone, hover]
      exact and_congr_right fun _ => ⟨fun hy => ⟨⟨replies, rfl⟩, hy⟩, And.right⟩

end MongodProxy.Explain
