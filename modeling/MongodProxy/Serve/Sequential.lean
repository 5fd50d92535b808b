import MongodProxy.Serve.Connection

/-!
# A connection serves its requests one after the other

`accept_client_inner` is a machine that is polled. Seen from further away it is a loop over
the client's requests: each is exchanged with the service until its stream ends, and what
comes out is what the client is sent. `Serves` is that loop, in terms of `exchange`, for a
list of turns; the connection is shown to run it, over any service and whatever the
surroundings do, up to a last turn that may be unfinished.
-/

namespace MongodProxy
open Service

variable {β ε ι σ φ τ κ : Type}

/-! ### Turns -/

/-- What a connection did for one request. -/
structure Turn (κ : Type) where
  request : Message
  events : List κ
  sent : List Message

/- What happens belongs to the newest request. -/
def noteTurn (ts : List (Turn κ)) : LoopEvent κ → List (Turn κ)
  | .decoded req => ⟨req, [], []⟩ :: ts
  | .service e => ts.modifyHead fun t => { t with events := t.events ++ [e] }
  | .given _ => ts
  | .sent m => ts.modifyHead fun t => { t with sent := t.sent ++ [m] }

/-- The turns of a log, newest first. -/
def turns (log : List (LoopEvent κ)) : List (Turn κ) := log.foldl noteTurn []

theorem turns_append (log es : List (LoopEvent κ)) :
    turns (log ++ es) = es.foldl noteTurn (turns log) := List.foldl_append

theorem foldl_noteTurn_service (es : List κ) (t : Turn κ) (ts : List (Turn κ)) :
    (es.map LoopEvent.service).foldl noteTurn (t :: ts)
      = { t with events := t.events ++ es } :: ts := by
  induction es generalizing t with
  | nil => simp
  | cons e es ih =>
    rw [List.map_cons, List.foldl_cons]
    refine (ih { t with events := t.events ++ [e] }).trans ?_
    simp

theorem turns_service {log : List (LoopEvent κ)} {t : Turn κ} {ts : List (Turn κ)}
    (h : turns log = t :: ts) (es : List κ) :
    turns (log ++ es.map .service) = { t with events := t.events ++ es } :: ts := by
  rw [turns_append, h, foldl_noteTurn_service]

theorem foldl_noteTurn_request (log : List (LoopEvent κ)) (ts : List (Turn κ)) :
    (log.foldl noteTurn ts).map Turn.request
      = (log.filterMap fun | .decoded req => some req | _ => none).reverse
        ++ ts.map Turn.request := by
  induction log generalizing ts with
  | nil => rfl
  | cons e log ih =>
    rw [List.foldl_cons, ih]
    cases e with
    | decoded req => simp [noteTurn]
    | given m => rfl
    | sent m =>
      cases ts with
      | nil => rfl
      | cons t ts => rfl
    | service e =>
      cases ts with
      | nil => rfl
      | cons t ts => rfl

/-! ### The loop over requests -/

variable (S : Service ι σ φ τ Message ε κ)

/-- The turn is a whole exchange, and the client was sent all that came of it. -/
def Turn.Served (s s' : σ) (t : Turn κ) : Prop :=
  ∃ is self, S.exchange s t.request is = ⟨some (.ok t.sent), self, s', t.events, []⟩

/-- The turn is the beginning of an exchange, or a whole one that failed, and the client was
sent a beginning of what came of it. -/
def Turn.Begun (s : σ) (t : Turn κ) : Prop :=
  ∃ is, (S.exchange s t.request is).events = t.events ∧
    (∀ replies, (S.exchange s t.request is).answer ≠ some (.ok replies)) ∧
    t.sent <+: (S.exchange s t.request is).self.collected

/-- Turns served one after the other, newest first, each in the state the one before left. -/
inductive Serves (s₀ : σ) : List (Turn κ) → σ → Prop where
  | start : Serves s₀ [] s₀
  | next {older : List (Turn κ)} {s s' : σ} {t : Turn κ} (h : Serves s₀ older s)
    (ht : t.Served S s s') : Serves s₀ (t :: older) s'

/-! ### One more input of an exchange -/

theorem drainRun_snoc {is : List ι} {s s' : σ} {d d' : Drain φ τ Message} {es : List κ}
    (h : S.drainRun is s d = ⟨none, d', s', es, []⟩) (i : ι) :
    S.drainRun (is ++ [i]) s d
      = ⟨match (S.pollDrain i s' d').answer with | .pending => none | .ready a => some a,
          (S.pollDrain i s' d').self, (S.pollDrain i s' d').state,
          es ++ (S.pollDrain i s' d').events, []⟩ := by
  induction is generalizing s d es with
  | nil =>
    simp only [drainRun, Drained.mk.injEq, true_and, and_true] at h
    obtain ⟨rfl, rfl, rfl⟩ := h
    rw [List.nil_append]
    cases hp : (S.pollDrain i s d).answer with
    | pending =>
      rw [drainRun_of_pending S hp]
      simp [drainRun, Drained.after]
    | ready a =>
      rw [drainRun_of_ready S hp]
      rfl
  | cons j is ih =>
    cases hp : (S.pollDrain j s d).answer with
    | pending =>
      rw [drainRun_of_pending S hp] at h
      rw [List.cons_append, drainRun_of_pending S hp]
      generalize hr : S.drainRun is (S.pollDrain j s d).state (S.pollDrain j s d).self = r at h
      obtain ⟨answer, self, state, events, rest⟩ := r
      simp only [Drained.after, Drained.mk.injEq] at h
      obtain ⟨rfl, rfl, rfl, rfl, rfl⟩ := h
      rw [ih hr]
      simp [Drained.after]
    | ready a =>
      rw [drainRun_of_ready S hp] at h
      cases h

theorem exchange_nil (s : σ) (req : Message) :
    S.exchange s req [] = ⟨none, .calling (S.call s req).1, (S.call s req).2.1, (S.call s req).2.2, []⟩ := by
  simp [exchange, drainRun, Drained.after]

theorem exchange_snoc {is : List ι} {s s' : σ} {req : Message} {d : Drain φ τ Message}
    {es : List κ} (h : S.exchange s req is = ⟨none, d, s', es, []⟩) (i : ι) :
    S.exchange s req (is ++ [i])
      = ⟨match (S.pollDrain i s' d).answer with | .pending => none | .ready a => some a,
          (S.pollDrain i s' d).self, (S.pollDrain i s' d).state,
          es ++ (S.pollDrain i s' d).events, []⟩ := by
  generalize hr : S.drainRun is (S.call s req).2.1 (.calling (S.call s req).1) = r
  obtain ⟨answer, self, state, events, rest⟩ := r
  simp only [exchange, hr, Drained.after, Drained.mk.injEq] at h
  obtain ⟨rfl, rfl, rfl, rfl, rfl⟩ := h
  simp only [exchange, drainRun_snoc S hr i, Drained.after, List.append_assoc]

/-! ### Every step -/

/- How far the exchange of the newest turn has come; it began in `s₁`. -/
def TurnInv (s₁ s : σ) (t : Turn κ) : LoopPhase β ε φ τ → Prop
  | .reading => False
  | .calling f => t.sent = [] ∧ ∃ is, S.exchange s₁ t.request is = ⟨none, .calling f, s, t.events, []⟩
  | .replying r => ∃ is, S.exchange s₁ t.request is = ⟨none, .draining r t.sent, s, t.events, []⟩
  | .sending r resp =>
    ∃ is, S.exchange s₁ t.request is = ⟨none, .draining r (t.sent ++ [resp]), s, t.events, []⟩
  | .closed (.ok ()) => False
  | .closed (.error _) => t.Begun S s₁

/- All turns are served, or all but the newest. -/
def Sequential (s₀ : σ) (c : Conn β ε σ φ τ κ) : Prop :=
  Serves S s₀ (turns c.log) c.state ∧ (c.phase = .reading ∨ ∃ r, c.phase = .closed r) ∨
    ∃ t older s₁, turns c.log = t :: older ∧ Serves S s₀ older s₁ ∧ TurnInv S s₁ c.state t c.phase

variable {S}

theorem begun_of_open {s₁ s : σ} {t : Turn κ} {is : List ι} {d : Drain φ τ Message}
    (h : S.exchange s₁ t.request is = ⟨none, d, s, t.events, []⟩) (hsent : t.sent <+: d.collected) :
    t.Begun S s₁ := by
  refine ⟨is, ?_, ?_, ?_⟩
  · rw [h]
  · intro replies hanswer
    rw [h] at hanswer
    cases hanswer
  · rw [h]
    exact hsent

theorem begun_of_error {s₁ s : σ} {t : Turn κ} {is : List ι} {d : Drain φ τ Message} {e : ε}
    (h : S.exchange s₁ t.request is = ⟨some (.error e), d, s, t.events, []⟩)
    (hsent : t.sent <+: d.collected) : t.Begun S s₁ := by
  refine ⟨is, ?_, ?_, ?_⟩
  · rw [h]
  · intro replies hanswer
    rw [h] at hanswer
    cases hanswer
  · rw [h]
    exact hsent

theorem sequential_step_calling {s₀ s : σ} {f : φ} {log : List (LoopEvent κ)}
    (h : Sequential S s₀ (⟨.calling f, s, log⟩ : Conn β ε σ φ τ κ)) (io : ClientIo β ι) :
    Sequential S s₀ (Conn.step S (⟨.calling f, s, log⟩ : Conn β ε σ φ τ κ) io) := by
  rcases h with ⟨-, h | ⟨r, h⟩⟩ | ⟨t, older, s₁, hts, hold, hsent, is, his⟩
  · cases h
  · cases h
  · have hlog := turns_service hts (S.pollCall io.service s f).events
    have hsnoc := exchange_snoc S his io.service
    rcases hp : (S.pollCall io.service s f).answer with - | (e | r)
    · simp only [pollDrain, hp] at hsnoc
      simp only [Conn.step, hp]
      exact .inr ⟨_, older, s₁, hlog, hold, hsent, _, hsnoc⟩
    · simp only [pollDrain, hp] at hsnoc
      simp only [Conn.step, hp]
      refine .inr ⟨{ t with events := t.events ++ (S.pollCall io.service s f).events }, older, s₁,
        hlog, hold, begun_of_error hsnoc ?_⟩
      rw [hsent]
      exact List.nil_prefix
    · simp only [pollDrain, hp] at hsnoc
      simp only [Conn.step, hp]
      refine .inr ⟨{ t with events := t.events ++ (S.pollCall io.service s f).events }, older, s₁,
        hlog, hold, _, hsnoc.trans ?_⟩
      rw [hsent]

theorem sequential_step_replying {s₀ s : σ} {r : τ} {log : List (LoopEvent κ)}
    (h : Sequential S s₀ (⟨.replying r, s, log⟩ : Conn β ε σ φ τ κ)) (io : ClientIo β ι) :
    Sequential S s₀ (Conn.step S (⟨.replying r, s, log⟩ : Conn β ε σ φ τ κ) io) := by
  rcases h with ⟨-, h | ⟨r, h⟩⟩ | ⟨t, older, s₁, hts, hold, is, his⟩
  · cases h
  · cases h
  · have hlog := turns_service hts (S.pollNext io.service s r).events
    have hsnoc := exchange_snoc S his io.service
    rcases hp : (S.pollNext io.service s r).answer with - | (- | (e | resp))
    · simp only [pollDrain, hp] at hsnoc
      simp only [Conn.step, hp]
      exact .inr ⟨_, older, s₁, hlog, hold, _, hsnoc⟩
    · simp only [pollDrain, hp] at hsnoc
      simp only [Conn.step, hp]
      refine .inl ⟨?_, .inl rfl⟩
      rw [hlog]
      exact hold.next ⟨_, _, hsnoc⟩
    · simp only [pollDrain, hp] at hsnoc
      simp only [Conn.step, hp]
      exact .inr ⟨_, older, s₁, hlog, hold, begun_of_error hsnoc List.prefix_rfl⟩
    · simp only [pollDrain, hp] at hsnoc
      simp only [Conn.step, hp]
      refine .inr ⟨{ t with events := t.events ++ (S.pollNext io.service s r).events }, older, s₁,
        ?_, hold, _, hsnoc⟩
      rw [turns_append, hlog]
      rfl

theorem sequential_step {s₀ : σ} {c : Conn β ε σ φ τ κ} (h : Sequential S s₀ c)
    (io : ClientIo β ι) : Sequential S s₀ (Conn.step S c io) := by
  obtain ⟨phase, s, log⟩ := c
  cases phase with
  | reading =>
    rcases h with ⟨hall, -⟩ | ⟨t, older, s₁, -, -, hfalse⟩
    · rcases hio : io.next with - | (- | (e | req))
      · simp only [Conn.step, hio]
        exact .inl ⟨hall, .inl rfl⟩
      · simp only [Conn.step, hio]
        exact .inl ⟨hall, .inr ⟨_, rfl⟩⟩
      · simp only [Conn.step, hio]
        exact .inl ⟨hall, .inr ⟨_, rfl⟩⟩
      · simp only [Conn.step, hio]
        refine .inr ⟨⟨req, (S.call s req).2.2, []⟩, turns log, s, ?_, hall, rfl, [],
          exchange_nil S s req⟩
        rw [turns_append, List.foldl_cons]
        exact foldl_noteTurn_service _ _ _
    · exact hfalse.elim
  | calling f => exact sequential_step_calling h io
  | replying r => exact sequential_step_replying h io
  | sending r resp =>
    rcases h with ⟨-, h | ⟨r, h⟩⟩ | ⟨t, older, s₁, hts, hold, is, his⟩
    · cases h
    · cases h
    · rcases hio : io.send with - | (e | u)
      · simp only [Conn.step, hio]
        exact .inr ⟨t, older, s₁, hts, hold, is, his⟩
      · simp only [Conn.step, hio]
        exact .inr ⟨t, older, s₁, hts, hold, begun_of_open his (List.prefix_append _ _)⟩
      · simp only [Conn.step, hio]
        refine .inr ⟨{ t with sent := t.sent ++ [resp] }, older, s₁, ?_, hold, is, his⟩
        rw [turns_append, hts]
        rfl
  | closed result => exact h

theorem sequential_run (s : σ) (ios : List (ClientIo β ι)) :
    Sequential S s (Conn.run S (Conn.start s : Conn β ε σ φ τ κ) ios) :=
  Conn.run_invariant S (Sequential S s) (fun _ io h => sequential_step h io) (Conn.start s)
    (.inl ⟨.start, .inl rfl⟩) ios

/-- All turns are served, or all but the newest, which has begun. -/
theorem Sequential.newest {s₀ : σ} {c : Conn β ε σ φ τ κ} (h : Sequential S s₀ c) :
    Serves S s₀ (turns c.log) c.state ∨
      ∃ t older s₁, turns c.log = t :: older ∧ Serves S s₀ older s₁ ∧ t.Begun S s₁ := by
  obtain ⟨phase, s, log⟩ := c
  rcases h with ⟨hall, -⟩ | ⟨t, older, s₁, hts, hold, hturn⟩
  · exact .inl hall
  · refine .inr ⟨t, older, s₁, hts, hold, ?_⟩
    cases phase with
    | reading => exact hturn.elim
    | calling f =>
      obtain ⟨hsent, is, his⟩ := hturn
      refine begun_of_open his ?_
      rw [hsent]
      exact List.nil_prefix
    | replying r =>
      obtain ⟨is, his⟩ := hturn
      exact begun_of_open his List.prefix_rfl
    | sending r resp =>
      obtain ⟨is, his⟩ := hturn
      exact begun_of_open his (List.prefix_append _ _)
    | closed result =>
      cases result with
      | ok u => exact hturn.elim
      | error e => exact hturn

theorem Sequential.closed {s₀ : σ} {c : Conn β ε σ φ τ κ} (h : Sequential S s₀ c)
    (hclosed : c.phase = .closed (.ok ())) : Serves S s₀ (turns c.log) c.state := by
  rcases h with ⟨hall, -⟩ | ⟨t, older, s₁, -, -, hturn⟩
  · exact hall
  · rw [hclosed] at hturn
    exact hturn.elim

/-- Over any service, and whatever the service and the sockets do: there is one turn for each
request decoded, in order; all but the newest are whole exchanges with the service, each in the
state the one before left, whose replies the client was sent; and the newest is at least the
beginning of one. If the connection ends without an error, all are whole. -/
theorem connection_sequential (S : Service ι σ φ τ Message ε κ) (s : σ)
    (ios : List (ClientIo β ι)) :
    (turns (Conn.run S (Conn.start s : Conn β ε σ φ τ κ) ios).log).map Turn.request
        = ((Conn.run S (Conn.start s : Conn β ε σ φ τ κ) ios).log.filterMap
            fun | .decoded req => some req | _ => none).reverse ∧
      (Serves S s (turns (Conn.run S (Conn.start s : Conn β ε σ φ τ κ) ios).log)
          (Conn.run S (Conn.start s : Conn β ε σ φ τ κ) ios).state ∨
        ∃ t older s₁, turns (Conn.run S (Conn.start s : Conn β ε σ φ τ κ) ios).log = t :: older ∧
          Serves S s older s₁ ∧ t.Begun S s₁) ∧
      ((Conn.run S (Conn.start s : Conn β ε σ φ τ κ) ios).phase = .closed (.ok ()) →
        Serves S s (turns (Conn.run S (Conn.start s : Conn β ε σ φ τ κ) ios).log)
          (Conn.run S (Conn.start s : Conn β ε σ φ τ κ) ios).state) := by
  have h : Sequential S s (Conn.run S (Conn.start s : Conn β ε σ φ τ κ) ios) := sequential_run s ios
  refine ⟨?_, h.newest, h.closed⟩
  rw [turns, foldl_noteTurn_request]
  exact List.append_nil _

end MongodProxy
