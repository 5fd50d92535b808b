import MongodProxy.Serve.Explain.Delivery
import MongodProxy.Serve.Sequential

/-!
# A connection through the explain layer, request by request

A connection is a sequence of exchanges with its service, and an exchange with the explain
layer is one with the inner service, the sideband, and the replay. Put together: what the
inner service is passed in a run, what the sink is told and what the client is sent, for
every request.
-/

namespace MongodProxy.Explain
open MongodProxy Service

variable {β ε ι σ φ τ κ : Type} {V : PlanVocabulary} (codec : ReplyCodec β V)

/-! ### The counter an exchange leaves -/

/- The layer's counter after a request. -/
def nextCounter (counter : Int32) (req : Message) : Int32 :=
  match classify req with
  | none => counter
  | some _ => (allocRequestId counter).2

theorem prepare_snd (counter : Int32) (req : Message) :
    (prepare counter req : Option (Prepared β ε) × Int32).2 = nextCounter counter req := by
  unfold prepare nextCounter
  cases classify req with
  | none => rfl
  | some plan =>
    rcases allocRequestId counter with ⟨- | rid, counter'⟩
    · rfl
    · cases hb : buildExplain plan rid with
      | built msg => simp only [hb]
      | unsupportedShape r => simp only [hb]

/-! ### Events and the requests they are about -/

/-- An event names the request it is about and that request's command. -/
def Names (req : Message) (told : List (Except (ExplainError β ε) (ExplainEvent V))) : Prop :=
  ∀ event, .ok event ∈ told → event.clientRequestId = req.requestId ∧
    (classify req).map ClassifiedRequest.command = some event.command

abbrev LayerTurn (β ε κ : Type) (V : PlanVocabulary) := Turn (ExplainAct β ε (Traffic κ Message ε) V)

/- How often the sink is told of a request. -/
def toldOf (req : Message) : ℕ := if (classify req).isSome then 1 else 0

/-- What comes after a request's own exchange: the layer passes on the message it built, if it
built one, and tells the sink at most once. -/
structure Afterwards (counter : Int32) (req : Message)
    (later : List (ExplainAct β ε (Traffic κ Message ε) V)) : Prop where
  passed : passedOf later = (explainMessage counter req).toList
  told : (sinkOf later).length ≤ toldOf req
  names : Names req (sinkOf later)

/-- What follows an exchange that left the inner service in `s`: nothing on it if no message was
built, else the exchange of that message, from `s` on. The sink is told when that is over. -/
def Aside (S : Service ι σ φ τ Message ε κ) (s : σ) (built : Option Message)
    (later : List (ExplainAct β ε (Traffic κ Message ε) V)) (s' : σ) : Prop :=
  ∃ told : List (Except (ExplainError β ε) (ExplainEvent V)),
    match built with
    | none => later = told.map emitOrLog ∧ s' = s
    | some msg => ∃ is,
      later = (S.tapped.exchange s msg is).events.map .inner ++ told.map emitOrLog ∧
        s' = (S.tapped.exchange s msg is).state ∧
        (told ≠ [] → (S.tapped.exchange s msg is).answer ≠ none)

/-- The request was exchanged with the inner service from `s` on as if it were alone, the client
was sent what that exchange gave, and the sideband is over and left the inner service in `s'`. -/
def Answered (S : Service ι σ φ τ Message ε κ) (s : σ) (counter : Int32) (t : LayerTurn β ε κ V)
    (s' : σ) : Prop :=
  ∃ is later, (S.tapped.exchange s t.request is).answer = some (.ok t.sent) ∧
    t.events = (S.tapped.exchange s t.request is).events.map .inner ++ later ∧
    Aside S (S.tapped.exchange s t.request is).state (explainMessage counter t.request) later s' ∧
    Afterwards counter t.request later ∧ (sinkOf later).length = toldOf t.request

/- A whole turn: the exchange of the request with the inner service, then its sideband. -/
theorem sideband_of_served (S : Service ι σ φ τ Message ε κ) {s : σ} {counter : Int32}
    {st : ExplainState σ} {t : LayerTurn β ε κ V}
    (h : t.Served (explainService codec S.tapped) ⟨s, counter⟩ st) :
    st.nextRequestId = nextCounter counter t.request ∧
      ∃ is, (S.tapped.exchange s t.request is).answer = some (.ok t.sent) ∧
        t.events = (S.tapped.exchange s t.request is).events.map .inner ++
          (sideband codec S.tapped t.request.requestId (prepare counter t.request).1
            (S.tapped.exchange s t.request is)).1 ∧
        (sideband codec S.tapped t.request.requestId (prepare counter t.request).1
          (S.tapped.exchange s t.request is)).2 ≠ none ∧
        st.inner = leftBy S.tapped (prepare (β := β) counter t.request).1
          (S.tapped.exchange s t.request is) := by
  obtain ⟨is, self, his⟩ := h
  cases is with
  | nil => cases his
  | cons i₀ is =>
    obtain ⟨hnone, herror, hok⟩ := exchange_explain codec S.tapped s counter t.request i₀ is
    rw [his, prepare_snd] at hnone herror hok
    rcases hx : (S.tapped.exchange s t.request is).answer with - | (e | replies)
    · cases (hnone hx).answer
    · cases (herror e hx).answer
    · obtain ⟨hanswer, hevents, hstate, -⟩ := hok replies hx
      have hsent := Except.ok.inj (replayAnswer_eq_some hanswer.symm)
      refine ⟨congrArg ExplainState.nextRequestId hstate, is, ?_, hevents, ?_,
        congrArg ExplainState.inner hstate⟩
      · rw [hx, hsent]
      · intro hopen
        rw [hopen] at hanswer
        cases hanswer

/- The beginning of a turn: the request has not been passed on yet, its exchange is not over, or
the sideband has begun. -/
theorem sideband_of_begun (S : Service ι σ φ τ Message ε κ) {s : σ} {counter : Int32}
    {t : LayerTurn β ε κ V} (h : t.Begun (explainService codec S.tapped) ⟨s, counter⟩) :
    (t.events = [] ∧ t.sent = []) ∨
      (∃ is, t.events = (S.tapped.exchange s t.request is).events.map .inner ∧ t.sent = []) ∨
      ∃ is replies, (S.tapped.exchange s t.request is).answer = some (.ok replies) ∧
        t.events = (S.tapped.exchange s t.request is).events.map .inner ++
          (sideband codec S.tapped t.request.requestId (prepare counter t.request).1
            (S.tapped.exchange s t.request is)).1 ∧
        t.sent <+: replies ∧
        (t.sent ≠ [] → (sideband codec S.tapped t.request.requestId (prepare counter t.request).1
          (S.tapped.exchange s t.request is)).2 ≠ none) := by
  obtain ⟨is, hevents, -, hsent⟩ := h
  cases is with
  | nil => exact .inl ⟨hevents.symm, List.prefix_nil.mp hsent⟩
  | cons i₀ is =>
    obtain ⟨hnone, herror, hok⟩ := exchange_explain codec S.tapped s counter t.request i₀ is
    refine .inr ?_
    rcases hx : (S.tapped.exchange s t.request is).answer with - | (e | replies)
    · have hrun := hnone hx
      have hnil : t.sent = [] := List.prefix_nil.mp (hsent.trans hrun.collected)
      exact .inl ⟨is, hevents.symm.trans hrun.events, hnil⟩
    · have hrun := herror e hx
      have hnil : t.sent = [] := List.prefix_nil.mp (hsent.trans hrun.collected)
      exact .inl ⟨is, hevents.symm.trans hrun.events, hnil⟩
    · have hrun := hok replies hx
      have hreleased := hsent.trans hrun.collected
      refine .inr ⟨is, replies, hx, hevents.symm.trans hrun.events, ?_⟩
      cases hrest : (sideband codec S.tapped t.request.requestId (prepare counter t.request).1
          (S.tapped.exchange s t.request is)).2 with
      | none =>
        rw [hrest] at hreleased
        have hnil : t.sent = [] := List.prefix_nil.mp hreleased
        rw [hnil]
        exact ⟨List.nil_prefix, fun h => absurd rfl h⟩
      | some rest =>
        rw [hrest] at hreleased
        exact ⟨hreleased, fun _ => Option.some_ne_none rest⟩

/-- The layer's counter after these turns, newest first. -/
def counterAfter (counter : Int32) : List (LayerTurn β ε κ V) → Int32
  | [] => counter
  | t :: ts => nextCounter (counterAfter counter ts) t.request

/- Of every turn, together with the counter it began with. -/
def EachTurn (P : Int32 → LayerTurn β ε κ V → Prop) (counter : Int32) :
    List (LayerTurn β ε κ V) → Prop
  | [] => True
  | t :: ts => P (counterAfter counter ts) t ∧ EachTurn P counter ts

/-- Of turns one after the other, newest first, each in the state and with the counter that the one
before left. -/
inductive Follow (P : σ → Int32 → LayerTurn β ε κ V → σ → Prop) (s₀ : σ) (counter : Int32) :
    List (LayerTurn β ε κ V) → σ → Prop where
  | start : Follow P s₀ counter [] s₀
  | next {older : List (LayerTurn β ε κ V)} {s s' : σ} {t : LayerTurn β ε κ V}
    (h : Follow P s₀ counter older s) (ht : P s (counterAfter counter older) t s') :
    Follow P s₀ counter (t :: older) s'

theorem Follow.eachTurn {P : Int32 → LayerTurn β ε κ V → Prop} {s₀ s : σ} {counter : Int32}
    {ts : List (LayerTurn β ε κ V)} (h : Follow (fun _ c t _ => P c t) s₀ counter ts s) :
    EachTurn P counter ts := by
  induction h with
  | start => trivial
  | next h ht ih => exact ⟨ht, ih⟩

theorem follow_of_serves (S : Service ι σ φ τ Message ε κ)
    {P : σ → Int32 → LayerTurn β ε κ V → σ → Prop}
    (hP : ∀ {s : σ} {counter : Int32} {st : ExplainState σ} {t : LayerTurn β ε κ V},
      t.Served (explainService codec S.tapped) ⟨s, counter⟩ st → P s counter t st.inner)
    {s : σ} {counter : Int32} {ts : List (LayerTurn β ε κ V)} {st : ExplainState σ}
    (h : Serves (explainService codec S.tapped) ⟨s, counter⟩ ts st) :
    Follow P s counter ts st.inner ∧ st.nextRequestId = counterAfter counter ts := by
  induction h with
  | start => exact ⟨.start, rfl⟩
  | next h ht ih =>
    obtain ⟨hold, hcounter⟩ := ih
    have hturn := hP ht
    have hnext := (sideband_of_served codec S ht).1
    rw [hcounter] at hturn hnext
    exact ⟨hold.next hturn, hnext⟩

/-- A connection through the layer, over any inner service. -/
def layeredRun (S : Service ι σ φ τ Message ε κ) (s : σ) (counter : Int32)
    (ios : List (ClientIo β ι)) : LayeredConn β ε σ φ τ κ V :=
  Conn.run (explainService codec S.tapped) (Conn.start ⟨s, counter⟩) ios

/- What whole turns and beginnings of turns are like, every run is like. -/
theorem layeredRun_follow (S : Service ι σ φ τ Message ε κ)
    {P : σ → Int32 → LayerTurn β ε κ V → σ → Prop} {Q : σ → Int32 → LayerTurn β ε κ V → Prop}
    (hP : ∀ {s : σ} {counter : Int32} {st : ExplainState σ} {t : LayerTurn β ε κ V},
      t.Served (explainService codec S.tapped) ⟨s, counter⟩ st → P s counter t st.inner)
    (hQ : ∀ {s : σ} {counter : Int32} {t : LayerTurn β ε κ V},
      t.Begun (explainService codec S.tapped) ⟨s, counter⟩ → Q s counter t)
    (s : σ) (counter : Int32) (ios : List (ClientIo β ι)) :
    (Follow P s counter (turns (layeredRun codec S s counter ios).log)
          (layeredRun codec S s counter ios).state.inner ∨
        ∃ t older s₁, turns (layeredRun codec S s counter ios).log = t :: older ∧
          Follow P s counter older s₁ ∧ Q s₁ (counterAfter counter older) t) ∧
      ((layeredRun codec S s counter ios).phase = .closed (.ok ()) →
        Follow P s counter (turns (layeredRun codec S s counter ios).log)
          (layeredRun codec S s counter ios).state.inner) := by
  have h : Sequential (explainService codec S.tapped) ⟨s, counter⟩
      (layeredRun codec S s counter ios) := sequential_run _ ios
  refine ⟨?_, fun hclosed => (follow_of_serves codec S hP (h.closed hclosed)).1⟩
  rcases h.newest with hall | ⟨t, older, ⟨s₁, counter₁⟩, hts, hold, hbegun⟩
  · exact .inl (follow_of_serves codec S hP hall).1
  · obtain ⟨hfollow, hcounter⟩ := follow_of_serves codec S hP hold
    refine .inr ⟨t, older, s₁, hts, hfollow, ?_⟩
    rw [← hcounter]
    exact hQ hbegun

/- The same of what does not depend on the states. -/
theorem layeredRun_turns (S : Service ι σ φ τ Message ε κ)
    {P Q : Int32 → LayerTurn β ε κ V → Prop}
    (hP : ∀ {s : σ} {counter : Int32} {st : ExplainState σ} {t : LayerTurn β ε κ V},
      t.Served (explainService codec S.tapped) ⟨s, counter⟩ st → P counter t)
    (hQ : ∀ {s : σ} {counter : Int32} {t : LayerTurn β ε κ V},
      t.Begun (explainService codec S.tapped) ⟨s, counter⟩ → Q counter t)
    (s : σ) (counter : Int32) (ios : List (ClientIo β ι)) :
    (EachTurn P counter (turns (layeredRun codec S s counter ios).log) ∨
        ∃ t older, turns (layeredRun codec S s counter ios).log = t :: older ∧
          EachTurn P counter older ∧ Q (counterAfter counter older) t) ∧
      ((layeredRun codec S s counter ios).phase = .closed (.ok ()) →
        EachTurn P counter (turns (layeredRun codec S s counter ios).log)) := by
  obtain ⟨hrun, hclosed⟩ := layeredRun_follow codec S (P := fun _ c t _ => P c t)
    (Q := fun _ c t => Q c t) hP hQ s counter ios
  refine ⟨?_, fun h => (hclosed h).eachTurn⟩
  rcases hrun with hall | ⟨t, older, s₁, hts, hold, hturn⟩
  · exact .inl hall.eachTurn
  · exact .inr ⟨t, older, hts, hold.eachTurn, hturn⟩

end MongodProxy.Explain
