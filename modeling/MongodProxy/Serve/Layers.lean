import MongodProxy.Lib.Overlay
import MongodProxy.Serve.Connection

/-!
# A connection over a layered service

What a client connection does over a layer is what it does over the service below, step by
step and with the same answers of the surroundings: the log of one run is computed from the
log of the other. So whatever is known of runs over a service is known of runs over any
stack of layers on it.
-/

namespace MongodProxy
open Service

variable {β ε ι σ φ φ' τ τ' κ κ' γ : Type}

namespace Layers

variable {S : Service ι σ φ τ Message ε κ} {S' : Service ι σ φ' τ' Message ε κ'}
variable (O : Overlay S S' γ)

/- The mark of the request that is being answered, or `g` before the first one. -/
def markAfter (g : γ) (log : List (LoopEvent κ)) : γ :=
  log.foldl (fun g e => match e with | .decoded req => O.mark req | _ => g) g

/-- The log over the layer, from the log over the service below it. -/
def logFrom : γ → List (LoopEvent κ) → List (LoopEvent κ')
  | _, [] => []
  | _, .decoded req :: log =>
    .decoded req :: ((O.onCall req).map .service ++ logFrom (O.mark req) log)
  | g, .service e :: log => .service (O.event e) :: logFrom g log
  | g, .given reply :: log =>
    (O.onReply g reply).map .service ++ .given (O.reply g reply) :: logFrom g log
  | g, .sent reply :: log => .sent (O.reply g reply) :: logFrom g log

def phaseOf (g : γ) : LoopPhase β ε φ τ → LoopPhase β ε φ' τ'
  | .reading => .reading
  | .calling f => .calling (O.fut g f)
  | .replying t => .replying (O.stream g t)
  | .sending t resp => .sending (O.stream g t) (O.reply g resp)
  | .closed result => .closed result

/-- The connection over the layer that corresponds to one over the service below it. -/
def image (g : γ) (c : Conn β ε σ φ τ κ) : Conn β ε σ φ' τ' κ' :=
  ⟨phaseOf O (markAfter O g c.log) c.phase, c.state, logFrom O g c.log⟩

/-! ### Logs -/

@[simp] theorem markAfter_nil (g : γ) : markAfter O g [] = g := rfl

theorem markAfter_append (g : γ) (log log' : List (LoopEvent κ)) :
    markAfter O g (log ++ log') = markAfter O (markAfter O g log) log' := List.foldl_append

@[simp] theorem markAfter_decoded (g : γ) (req : Message) (log : List (LoopEvent κ)) :
    markAfter O g (.decoded req :: log) = markAfter O (O.mark req) log := rfl

@[simp] theorem markAfter_given (g : γ) (reply : Message) :
    markAfter O g [LoopEvent.given reply] = g := rfl

@[simp] theorem markAfter_sent (g : γ) (reply : Message) :
    markAfter O g [LoopEvent.sent reply] = g := rfl

/- The service's own events do not change the mark. -/
@[simp] theorem markAfter_service (g : γ) (events : List κ) :
    markAfter O g (events.map .service) = g := by
  induction events with
  | nil => rfl
  | cons e events ih => exact ih

theorem logFrom_append (g : γ) (log log' : List (LoopEvent κ)) :
    logFrom O g (log ++ log') = logFrom O g log ++ logFrom O (markAfter O g log) log' := by
  induction log generalizing g with
  | nil => rfl
  | cons e log ih =>
    cases e with
    | decoded req =>
      rw [List.cons_append, logFrom, logFrom, ih, markAfter_decoded, List.cons_append,
        List.append_assoc]
    | service e =>
      rw [List.cons_append, logFrom, logFrom, ih]
      rfl
    | given reply =>
      rw [List.cons_append, logFrom, logFrom, ih, List.append_assoc, List.cons_append]
      rfl
    | sent reply =>
      rw [List.cons_append, logFrom, logFrom, ih]
      rfl

@[simp] theorem logFrom_service (g : γ) (events : List κ) :
    logFrom O g (events.map .service) = (events.map O.event).map .service := by
  induction events with
  | nil => rfl
  | cons e events ih =>
    rw [List.map_cons, logFrom, ih]
    rfl

/-! ### Steps and runs -/

theorem step_image_calling (g : γ) (s : σ) (log : List (LoopEvent κ)) (f : φ)
    (io : ClientIo β ι) :
    Conn.step S' (image O g ⟨.calling f, s, log⟩) io
      = image O g (Conn.step S ⟨.calling f, s, log⟩ io) := by
  simp only [Conn.step, image, phaseOf, O.pollCall_eq]
  rcases (S.pollCall io.service s f).answer with - | (e | t)
  · simp [Poll.map, logFrom_append, markAfter_append]
  · simp [Poll.map, Except.map, logFrom_append]
  · simp [Poll.map, Except.map, logFrom_append, markAfter_append]

theorem step_image_replying (g : γ) (s : σ) (log : List (LoopEvent κ)) (t : τ)
    (io : ClientIo β ι) :
    Conn.step S' (image O g ⟨.replying t, s, log⟩) io
      = image O g (Conn.step S ⟨.replying t, s, log⟩ io) := by
  simp only [Conn.step, image, phaseOf, O.pollNext_eq]
  rcases (S.pollNext io.service s t).answer with - | (- | (e | resp))
  · simp [Poll.map, replied, logFrom_append, markAfter_append]
  · simp [Poll.map, replied, logFrom_append]
  · simp [Poll.map, replied, Except.map, logFrom_append]
  · -- the layer's events about a reply stand right before the reply is given out
    simp [Poll.map, replied, Except.map, logFrom_append, markAfter_append, logFrom]

/-- One step over the layer is one step over the service below. -/
theorem step_image (g : γ) (c : Conn β ε σ φ τ κ) (io : ClientIo β ι) :
    Conn.step S' (image O g c) io = image O g (Conn.step S c io) := by
  obtain ⟨phase, s, log⟩ := c
  cases phase with
  | reading =>
    rcases hio : io.next with - | (- | (e | req))
    · simp only [Conn.step, image, phaseOf, hio]
    · simp only [Conn.step, image, phaseOf, hio]
    · simp only [Conn.step, image, phaseOf, hio]
    · simp only [Conn.step, image, phaseOf, hio, O.call_eq]
      simp [logFrom_append, logFrom, markAfter_append]
  | calling f => exact step_image_calling O g s log f io
  | replying t => exact step_image_replying O g s log t io
  | sending t resp =>
    rcases hio : io.send with - | (e | u)
    · simp only [Conn.step, image, phaseOf, hio]
    · simp only [Conn.step, image, phaseOf, hio]
    · simp only [Conn.step, image, phaseOf, hio]
      simp [logFrom_append, logFrom, markAfter_append]
  | closed result => rfl

/-- A whole run over the layer is the image of the run over the service below it. -/
theorem run_image (g : γ) (c : Conn β ε σ φ τ κ) (ios : List (ClientIo β ι)) :
    Conn.run S' (image O g c) ios = image O g (Conn.run S c ios) := by
  induction ios generalizing c with
  | nil => rfl
  | cons io ios ih =>
    show Conn.run S' (Conn.step S' (image O g c) io) ios = _
    rw [step_image, ih]
    rfl

/-- From the start of a connection. -/
theorem run_start (g : γ) (s : σ) (ios : List (ClientIo β ι)) :
    Conn.run S' (Conn.start s : Conn β ε σ φ' τ' κ') ios
      = image O g (Conn.run S (Conn.start s) ios) :=
  run_image O g (Conn.start s) ios

end Layers

end MongodProxy
