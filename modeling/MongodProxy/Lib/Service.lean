import Mathlib.Tactic.Common

/-!
# Services that are polled

A service takes a request and hands out a future; the future, polled often enough,
gives an error or a stream of replies; the stream is polled for one reply after the
other. What the surroundings do at a poll (a socket that has data, a lock that is
free) is an input of the poll, so a run is determined by the list of its inputs and
a statement about all inputs is one about all behaviours of the surroundings. What a
poll does to the surroundings is a list of events.

A poll here is one step of the future or stream: code that goes through several
awaits in a row is polled several times.
-/

inductive Poll (α : Type) where
  | pending
  | ready (a : α)
  deriving DecidableEq, Repr

/- What a poll leaves behind: its answer, the polled thing, the shared state, the events. -/
structure Polled (α ω σ κ : Type) where
  answer : Poll α
  self : ω
  state : σ
  events : List κ

/-- `ι` inputs, `σ` shared state, `φ` call futures, `τ` reply streams, `μ` messages,
`ε` errors, `κ` events. -/
structure Service (ι σ φ τ μ ε κ : Type) where
  call : σ → μ → φ × σ × List κ
  pollCall : ι → σ → φ → Polled (Except ε τ) φ σ κ
  pollNext : ι → σ → τ → Polled (Option (Except ε μ)) τ σ κ

namespace Service

variable {ι σ φ τ μ ε κ : Type}

/-! ### What a caller sees of one exchange -/

inductive Seen (μ ε : Type) where
  | call (answer : Poll (Except ε Unit))
  | next (answer : Poll (Option (Except ε μ)))

def watchStream (S : Service ι σ φ τ μ ε κ) : List ι → σ → τ → List (Seen μ ε × List κ)
  | [], _, _ => []
  | i :: is, s, t =>
    let p := S.pollNext i s t
    (.next p.answer, p.events) :: watchStream S is p.state p.self

def watchCall (S : Service ι σ φ τ μ ε κ) : List ι → σ → φ → List (Seen μ ε × List κ)
  | [], _, _ => []
  | i :: is, s, f =>
    let p := S.pollCall i s f
    match p.answer with
    | .pending => (.call .pending, p.events) :: watchCall S is p.state p.self
    | .ready (.error e) => [(.call (.ready (.error e)), p.events)]
    | .ready (.ok t) => (.call (.ready (.ok ())), p.events) :: watchStream S is p.state t

/-- Every answer to a caller that polls its request to the end of the inputs, with the
events of each poll. -/
def watch (S : Service ι σ φ τ μ ε κ) (is : List ι) (s : σ) (req : μ) : List (Seen μ ε × List κ) :=
  let c := S.call s req
  S.watchCall is c.2.1 c.1

/-! ### Calling and draining -/

/- A caller that awaits the call and then collects the replies until the stream ends. -/
inductive Drain (φ τ μ : Type) where
  | calling (f : φ)
  | draining (t : τ) (out : List μ)

def pollDrain (S : Service ι σ φ τ μ ε κ) (i : ι) (s : σ) :
    Drain φ τ μ → Polled (Except ε (List μ)) (Drain φ τ μ) σ κ
  | .calling f =>
    let p := S.pollCall i s f
    match p.answer with
    | .pending => ⟨.pending, .calling p.self, p.state, p.events⟩
    | .ready (.error e) => ⟨.ready (.error e), .calling p.self, p.state, p.events⟩
    | .ready (.ok t) => ⟨.pending, .draining t [], p.state, p.events⟩
  | .draining t out =>
    let p := S.pollNext i s t
    match p.answer with
    | .pending => ⟨.pending, .draining p.self out, p.state, p.events⟩
    | .ready none => ⟨.ready (.ok out), .draining p.self out, p.state, p.events⟩
    | .ready (some (.error e)) => ⟨.ready (.error e), .draining p.self out, p.state, p.events⟩
    | .ready (some (.ok m)) => ⟨.pending, .draining p.self (out ++ [m]), p.state, p.events⟩

/- Where a run of polls stops: at an answer, or because there is no input left. -/
structure Drained (ι σ φ τ μ ε κ : Type) where
  answer : Option (Except ε (List μ))
  self : Drain φ τ μ
  state : σ
  events : List κ
  rest : List ι

def Drained.after (events : List κ) (r : Drained ι σ φ τ μ ε κ) : Drained ι σ φ τ μ ε κ :=
  { r with events := events ++ r.events }

@[simp] theorem Drained.after_nil (r : Drained ι σ φ τ μ ε κ) : r.after [] = r := rfl

def drainRun (S : Service ι σ φ τ μ ε κ) : List ι → σ → Drain φ τ μ → Drained ι σ φ τ μ ε κ
  | [], s, d => ⟨none, d, s, [], []⟩
  | i :: is, s, d =>
    let p := S.pollDrain i s d
    match p.answer with
    | .pending => (drainRun S is p.state p.self).after p.events
    | .ready answer => ⟨some answer, p.self, p.state, p.events, is⟩

section
variable (S : Service ι σ φ τ μ ε κ) {i : ι} {is : List ι} {s s' : σ} {es : List κ}

theorem drainRun_of_pending {d : Drain φ τ μ} (h : (S.pollDrain i s d).answer = .pending) :
    S.drainRun (i :: is) s d
      = (S.drainRun is (S.pollDrain i s d).state (S.pollDrain i s d).self).after
          (S.pollDrain i s d).events := by
  simp only [drainRun, h]

theorem drainRun_of_ready {d : Drain φ τ μ} {answer : Except ε (List μ)}
    (h : (S.pollDrain i s d).answer = .ready answer) :
    S.drainRun (i :: is) s d
      = ⟨some answer, (S.pollDrain i s d).self, (S.pollDrain i s d).state,
          (S.pollDrain i s d).events, is⟩ := by
  simp only [drainRun, h]

theorem drainRun_call_pending {f f' : φ} (h : S.pollCall i s f = ⟨.pending, f', s', es⟩) :
    S.drainRun (i :: is) s (.calling f) = (S.drainRun is s' (.calling f')).after es := by
  simp only [drainRun, pollDrain, h]

theorem drainRun_call_error {f f' : φ} {e : ε}
    (h : S.pollCall i s f = ⟨.ready (.error e), f', s', es⟩) :
    S.drainRun (i :: is) s (.calling f) = ⟨some (.error e), .calling f', s', es, is⟩ := by
  simp only [drainRun, pollDrain, h]

theorem drainRun_call_ok {f f' : φ} {t : τ} (h : S.pollCall i s f = ⟨.ready (.ok t), f', s', es⟩) :
    S.drainRun (i :: is) s (.calling f) = (S.drainRun is s' (.draining t [])).after es := by
  simp only [drainRun, pollDrain, h]

theorem drainRun_next_ok {t t' : τ} {out : List μ} {m : μ}
    (h : S.pollNext i s t = ⟨.ready (some (.ok m)), t', s', es⟩) :
    S.drainRun (i :: is) s (.draining t out)
      = (S.drainRun is s' (.draining t' (out ++ [m]))).after es := by
  simp only [drainRun, pollDrain, h]

theorem drainRun_next_none {t t' : τ} {out : List μ}
    (h : S.pollNext i s t = ⟨.ready none, t', s', es⟩) :
    S.drainRun (i :: is) s (.draining t out) = ⟨some (.ok out), .draining t' out, s', es, is⟩ := by
  simp only [drainRun, pollDrain, h]

end

/-- One request, its call and all its replies. -/
def exchange (S : Service ι σ φ τ μ ε κ) (s : σ) (req : μ) (is : List ι) :
    Drained ι σ φ τ μ ε κ :=
  let c := S.call s req
  (S.drainRun is c.2.1 (.calling c.1)).after c.2.2

/-! ### Watching a service -/

/- What passes between a service and its callers, beside the service's own events. -/
inductive Traffic (κ μ ε : Type) where
  | called (req : μ)
  | own (e : κ)
  | yielded (reply : μ)
  | ended (result : Except ε Unit)

def callTraffic : Poll (Except ε τ) → List (Traffic κ μ ε)
  | .ready (.error e) => [.ended (.error e)]
  | _ => []

def nextTraffic : Poll (Option (Except ε μ)) → List (Traffic κ μ ε)
  | .pending => []
  | .ready none => [.ended (.ok ())]
  | .ready (some (.error e)) => [.ended (.error e)]
  | .ready (some (.ok m)) => [.yielded m]

/-- The same service; its events tell what its callers asked and what they got. -/
def tapped (S : Service ι σ φ τ μ ε κ) : Service ι σ φ τ μ ε (Traffic κ μ ε) where
  call s req :=
    let c := S.call s req
    (c.1, c.2.1, .called req :: c.2.2.map .own)
  pollCall i s f :=
    let p := S.pollCall i s f
    ⟨p.answer, p.self, p.state, p.events.map .own ++ callTraffic p.answer⟩
  pollNext i s t :=
    let p := S.pollNext i s t
    ⟨p.answer, p.self, p.state, p.events.map .own ++ nextTraffic p.answer⟩

theorem pollDrain_tapped (S : Service ι σ φ τ μ ε κ) (i : ι) (s : σ) (d : Drain φ τ μ) :
    (S.tapped.pollDrain i s d).answer = (S.pollDrain i s d).answer ∧
      (S.tapped.pollDrain i s d).self = (S.pollDrain i s d).self ∧
      (S.tapped.pollDrain i s d).state = (S.pollDrain i s d).state := by
  cases d with
  | calling f =>
    simp only [pollDrain, tapped]
    rcases (S.pollCall i s f).answer with - | (e | t)
    · exact ⟨rfl, rfl, rfl⟩
    · exact ⟨rfl, rfl, rfl⟩
    · exact ⟨rfl, rfl, rfl⟩
  | draining t out =>
    simp only [pollDrain, tapped]
    rcases (S.pollNext i s t).answer with - | (- | (e | m))
    · exact ⟨rfl, rfl, rfl⟩
    · exact ⟨rfl, rfl, rfl⟩
    · exact ⟨rfl, rfl, rfl⟩
    · exact ⟨rfl, rfl, rfl⟩

theorem drainRun_tapped_answer (S : Service ι σ φ τ μ ε κ) (is : List ι) (s : σ)
    (d : Drain φ τ μ) : (S.tapped.drainRun is s d).answer = (S.drainRun is s d).answer := by
  induction is generalizing s d with
  | nil => rfl
  | cons i is ih =>
    obtain ⟨ha, hself, hstate⟩ := pollDrain_tapped S i s d
    simp only [drainRun, ha]
    cases (S.pollDrain i s d).answer with
    | pending =>
      rw [hself, hstate]
      exact ih _ _
    | ready answer => rfl

theorem exchange_tapped_answer (S : Service ι σ φ τ μ ε κ) (s : σ) (req : μ) (is : List ι) :
    (S.tapped.exchange s req is).answer = (S.exchange s req is).answer :=
  drainRun_tapped_answer S is _ _

def Drain.collected : Drain φ τ μ → List μ
  | .calling _ => []
  | .draining _ out => out

/-- All that a poll of a drain can do. -/
theorem pollDrain_tapped_cases (S : Service ι σ φ τ μ ε κ) (i : ι) (s : σ) (d : Drain φ τ μ) :
    ∃ own : List κ,
      ((S.tapped.pollDrain i s d).answer = .pending ∧
        (S.tapped.pollDrain i s d).events = own.map .own ∧
        (S.tapped.pollDrain i s d).self.collected = d.collected) ∨
      (∃ m, (S.tapped.pollDrain i s d).answer = .pending ∧
        (S.tapped.pollDrain i s d).events = own.map .own ++ [Traffic.yielded m] ∧
        (S.tapped.pollDrain i s d).self.collected = d.collected ++ [m]) ∨
      (∃ e, (S.tapped.pollDrain i s d).answer = .ready (.error e) ∧
        (S.tapped.pollDrain i s d).events = own.map .own ++ [Traffic.ended (.error e)]) ∨
      ((S.tapped.pollDrain i s d).answer = .ready (.ok d.collected) ∧
        (S.tapped.pollDrain i s d).events = own.map .own ++ [Traffic.ended (.ok ())]) := by
  cases d with
  | calling f =>
    refine ⟨(S.pollCall i s f).events, ?_⟩
    simp only [pollDrain, tapped]
    rcases (S.pollCall i s f).answer with - | (e | t)
    · exact .inl ⟨rfl, List.append_nil _, rfl⟩
    · exact .inr (.inr (.inl ⟨e, rfl, rfl⟩))
    · exact .inl ⟨rfl, List.append_nil _, rfl⟩
  | draining t out =>
    refine ⟨(S.pollNext i s t).events, ?_⟩
    simp only [pollDrain, tapped]
    rcases (S.pollNext i s t).answer with - | (- | (e | m))
    · exact .inl ⟨rfl, List.append_nil _, rfl⟩
    · exact .inr (.inr (.inr ⟨rfl, rfl⟩))
    · exact .inr (.inr (.inl ⟨e, rfl, rfl⟩))
    · exact .inr (.inl ⟨m, rfl, rfl, rfl⟩)

/-- A drain passes nothing to the service. -/
theorem pollDrain_tapped_called (S : Service ι σ φ τ μ ε κ) (i : ι) (s : σ) (d : Drain φ τ μ)
    (req : μ) : .called req ∉ (S.tapped.pollDrain i s d).events := by
  obtain ⟨own, ⟨-, h, -⟩ | ⟨m, -, h, -⟩ | ⟨e, -, h⟩ | ⟨-, h⟩⟩ := pollDrain_tapped_cases S i s d
  · simp [h]
  · simp [h]
  · simp [h]
  · simp [h]

theorem drainRun_tapped_called (S : Service ι σ φ τ μ ε κ) (is : List ι) (s : σ)
    (d : Drain φ τ μ) (req : μ) : .called req ∉ (S.tapped.drainRun is s d).events := by
  induction is generalizing s d with
  | nil => exact List.not_mem_nil
  | cons i is ih =>
    simp only [drainRun]
    cases (S.tapped.pollDrain i s d).answer with
    | pending =>
      simp only [Drained.after, List.mem_append, not_or]
      exact ⟨pollDrain_tapped_called S i s d req, ih _ _⟩
    | ready answer => exact pollDrain_tapped_called S i s d req

end Service
