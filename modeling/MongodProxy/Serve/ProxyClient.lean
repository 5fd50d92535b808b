import MongodProxy.Decoder
import MongodProxy.Lib.Service

/-!
# The upstream client (serve/service.rs)

`ProxyClient` writes a request to the upstream socket under a mutex and answers the
stream of replies. The stream owns the mutex guard until the first reply without
MORE_TO_COME; a request that carries MORE_TO_COME itself has no replies and gives the
guard back at once. The answers of the mutex and of the socket are inputs.
-/

namespace MongodProxy

/-- `more_to_come`. -/
def moreToCome : Operation → Bool
  | .message m => m.flags.contains .moreToCome
  | _ => false

inductive ProxyClientRequestError (β : Type) where
  | io
  | endOfStream
  | wireEncode (e : WireEncoderError β)
  | wireDecode (e : WireDecoderError β)

/- What the mutex, the socket's writer and the socket's reader answer at a poll. -/
structure UpstreamIo (β : Type) where
  grant : Bool
  send : Poll (Except (WireEncoderError β) Unit)
  read : Poll (Option (Except (WireDecoderError β) Message))

inductive UpstreamEvent where
  | wrote (req : Message)
  | read (reply : Message)

/- The shared part: whether somebody holds the guard. -/
structure ProxyClientInner where
  locked : Bool
  deriving DecidableEq, Repr

inductive RequestStage where
  | locking
  | sending
  deriving DecidableEq, Repr

structure ProxyClientRequestFuture where
  req : Message
  fireAndForget : Bool
  stage : RequestStage

/-- `ProxyResponseStreamState`; `streaming` owns the guard. -/
inductive ProxyResponseStream where
  | done
  | streaming
  deriving DecidableEq, Repr

variable {β : Type}

namespace ProxyClient

def call (s : ProxyClientInner) (req : Message) :
    ProxyClientRequestFuture × ProxyClientInner × List UpstreamEvent :=
  (⟨req, moreToCome req.operation, .locking⟩, s, [])

def pollCall (io : UpstreamIo β) (s : ProxyClientInner) (f : ProxyClientRequestFuture) :
    Polled (Except (ProxyClientRequestError β) ProxyResponseStream) ProxyClientRequestFuture
      ProxyClientInner UpstreamEvent :=
  match f.stage with
  | .locking =>
    if s.locked = false ∧ io.grant = true then ⟨.pending, { f with stage := .sending }, ⟨true⟩, []⟩
    else ⟨.pending, f, s, []⟩
  | .sending =>
    match io.send with
    | .pending => ⟨.pending, f, s, []⟩
    -- an early return drops the guard
    | .ready (.error e) => ⟨.ready (.error (.wireEncode e)), f, ⟨false⟩, []⟩
    | .ready (.ok ()) =>
      if f.fireAndForget then ⟨.ready (.ok .done), f, ⟨false⟩, [.wrote f.req]⟩
      else ⟨.ready (.ok .streaming), f, s, [.wrote f.req]⟩

/- `ProxyResponseStream::poll_next`; assigning `Done` drops the guard. -/
def pollNext (io : UpstreamIo β) (s : ProxyClientInner) (t : ProxyResponseStream) :
    Polled (Option (Except (ProxyClientRequestError β) Message)) ProxyResponseStream
      ProxyClientInner UpstreamEvent :=
  match t with
  | .done => ⟨.ready none, .done, s, []⟩
  | .streaming =>
    match io.read with
    | .pending => ⟨.pending, .streaming, s, []⟩
    | .ready none => ⟨.ready (some (.error .endOfStream)), .done, ⟨false⟩, []⟩
    | .ready (some (.error e)) => ⟨.ready (some (.error (.wireDecode e))), .done, ⟨false⟩, []⟩
    | .ready (some (.ok msg)) =>
      if moreToCome msg.operation then ⟨.ready (some (.ok msg)), .streaming, s, [.read msg]⟩
      else ⟨.ready (some (.ok msg)), .done, ⟨false⟩, [.read msg]⟩

/-- `ProxyClient` as a service. -/
def service : Service (UpstreamIo β) ProxyClientInner ProxyClientRequestFuture ProxyResponseStream
    Message (ProxyClientRequestError β) UpstreamEvent where
  call := call
  pollCall := pollCall
  pollNext := pollNext

end ProxyClient

end MongodProxy
