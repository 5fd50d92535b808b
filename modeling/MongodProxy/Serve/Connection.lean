import MongodProxy.Serve.ProxyClient

/-!
# One client connection (serve/mod.rs, `accept_client_inner`)

Two nested loops: read a request, call the service, and forward reply after reply
until the stream ends. The loop is a machine with one phase for each await; every exit
is a `closed` phase with its result. The log holds what happened, in order: requests
decoded from the client, events of the service, replies the service gave, frames sent.
-/

namespace MongodProxy

inductive AcceptClientError (β ε : Type) where
  | decodeFromClient (e : WireDecoderError β)
  | upstreamRequest (e : ε)
  | upstreamResponse (e : ε)
  | encodeToClient (e : WireEncoderError β)

/- What the client's socket answers at a step, and the input for the service. -/
structure ClientIo (β ι : Type) where
  next : Poll (Option (Except (WireDecoderError β) Message))
  send : Poll (Except (WireEncoderError β) Unit)
  service : ι

inductive LoopEvent (κ : Type) where
  | decoded (req : Message)
  | service (e : κ)
  | given (reply : Message)
  | sent (reply : Message)

inductive LoopPhase (β ε φ τ : Type) where
  | reading
  | calling (f : φ)
  | replying (t : τ)
  | sending (t : τ) (resp : Message)
  | closed (result : Except (AcceptClientError β ε) Unit)

structure Conn (β ε σ φ τ κ : Type) where
  phase : LoopPhase β ε φ τ
  state : σ
  log : List (LoopEvent κ)

namespace Conn

variable {β ε ι σ φ τ κ : Type}

def start (s : σ) : Conn β ε σ φ τ κ := ⟨.reading, s, []⟩

def step (S : Service ι σ φ τ Message ε κ) (c : Conn β ε σ φ τ κ) (io : ClientIo β ι) :
    Conn β ε σ φ τ κ :=
  match c.phase with
  | .reading =>
    match io.next with
    | .pending => c
    | .ready none => { c with phase := .closed (.ok ()) }
    | .ready (some (.error e)) => { c with phase := .closed (.error (.decodeFromClient e)) }
    | .ready (some (.ok req)) =>
      let (f, s, events) := S.call c.state req
      ⟨.calling f, s, c.log ++ .decoded req :: events.map .service⟩
  | .calling f =>
    let p := S.pollCall io.service c.state f
    let log := c.log ++ p.events.map .service
    match p.answer with
    | .pending => ⟨.calling p.self, p.state, log⟩
    | .ready (.error e) => ⟨.closed (.error (.upstreamRequest e)), p.state, log⟩
    | .ready (.ok t) => ⟨.replying t, p.state, log⟩
  | .replying t =>
    let p := S.pollNext io.service c.state t
    let log := c.log ++ p.events.map .service
    match p.answer with
    | .pending => ⟨.replying p.self, p.state, log⟩
    | .ready none => ⟨.reading, p.state, log⟩
    | .ready (some (.error e)) => ⟨.closed (.error (.upstreamResponse e)), p.state, log⟩
    | .ready (some (.ok resp)) => ⟨.sending p.self resp, p.state, log ++ [.given resp]⟩
  | .sending t resp =>
    match io.send with
    | .pending => c
    | .ready (.error e) => { c with phase := .closed (.error (.encodeToClient e)) }
    | .ready (.ok ()) => ⟨.replying t, c.state, c.log ++ [.sent resp]⟩
  | .closed _ => c

/-- The machine after the steps with these answers of the surroundings. -/
def run (S : Service ι σ φ τ Message ε κ) (c : Conn β ε σ φ τ κ) (ios : List (ClientIo β ι)) :
    Conn β ε σ φ τ κ :=
  ios.foldl (step S) c

/-- What every step keeps holds in every state of every run. -/
theorem run_invariant (S : Service ι σ φ τ Message ε κ) (Inv : Conn β ε σ φ τ κ → Prop)
    (hstep : ∀ c io, Inv c → Inv (step S c io)) (c : Conn β ε σ φ τ κ) (hc : Inv c)
    (ios : List (ClientIo β ι)) : Inv (run S c ios) := by
  induction ios generalizing c with
  | nil => exact hc
  | cons io ios ih => exact ih (step S c io) (hstep c io hc)

end Conn

end MongodProxy
