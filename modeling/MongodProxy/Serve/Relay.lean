import Mathlib.Data.List.Infix
import MongodProxy.Serve.Connection

/-!
# What a connection relays, and in which order

Runs of `accept_client_inner` over a `ProxyClient`, with arbitrary answers of both
sockets at every step. The log of a run is read off in four sequences (requests
decoded, requests written upstream, replies read upstream, replies sent), and
`sinceWrite` collects what was read and sent since the last request was written.
-/

namespace MongodProxy

/-- A connection over a `ProxyClient`. -/
abbrev RelayConn (β : Type) := Conn β (ProxyClientRequestError β) ProxyClientInner
  ProxyClientRequestFuture ProxyResponseStream UpstreamEvent

namespace Relay

abbrev Log := List (LoopEvent UpstreamEvent)

def decodedOf (log : Log) : List Message :=
  log.filterMap fun | .decoded m => some m | _ => none

def writtenOf (log : Log) : List Message :=
  log.filterMap fun | .service (.wrote m) => some m | _ => none

def readOf (log : Log) : List Message :=
  log.filterMap fun | .service (.read m) => some m | _ => none

def sentOf (log : Log) : List Message :=
  log.filterMap fun | .sent m => some m | _ => none

@[simp] theorem decodedOf_append (log log' : Log) :
    decodedOf (log ++ log') = decodedOf log ++ decodedOf log' := List.filterMap_append

@[simp] theorem writtenOf_append (log log' : Log) :
    writtenOf (log ++ log') = writtenOf log ++ writtenOf log' := List.filterMap_append

@[simp] theorem readOf_append (log log' : Log) :
    readOf (log ++ log') = readOf log ++ readOf log' := List.filterMap_append

@[simp] theorem sentOf_append (log log' : Log) :
    sentOf (log ++ log') = sentOf log ++ sentOf log' := List.filterMap_append

/- Each event shows in one of the four sequences, a frame given to the loop in none. -/
@[simp] theorem of_decoded (m : Message) :
    decodedOf [.decoded m] = [m] ∧ writtenOf [.decoded m] = [] ∧ readOf [.decoded m] = [] ∧
      sentOf [.decoded m] = [] := ⟨rfl, rfl, rfl, rfl⟩

@[simp] theorem of_wrote (m : Message) :
    decodedOf [.service (.wrote m)] = [] ∧ writtenOf [.service (.wrote m)] = [m] ∧
      readOf [.service (.wrote m)] = [] ∧ sentOf [.service (.wrote m)] = [] :=
  ⟨rfl, rfl, rfl, rfl⟩

@[simp] theorem of_read (m : Message) :
    decodedOf [.service (.read m)] = [] ∧ writtenOf [.service (.read m)] = [] ∧
      readOf [.service (.read m)] = [m] ∧ sentOf [.service (.read m)] = [] :=
  ⟨rfl, rfl, rfl, rfl⟩

@[simp] theorem of_given (m : Message) :
    decodedOf [.given m] = [] ∧ writtenOf [.given m] = [] ∧ readOf [.given m] = [] ∧
      sentOf [.given m] = [] := ⟨rfl, rfl, rfl, rfl⟩

@[simp] theorem of_sent (m : Message) :
    decodedOf [.sent m] = [] ∧ writtenOf [.sent m] = [] ∧ readOf [.sent m] = [] ∧
      sentOf [.sent m] = [m] := ⟨rfl, rfl, rfl, rfl⟩

/- The request written last, with the frames read and sent since. -/
structure Burst where
  request : Message
  read : List Message
  sent : List Message

def Burst.note : Option Burst → LoopEvent UpstreamEvent → Option Burst
  | _, .service (.wrote m) => some ⟨m, [], []⟩
  | b, .service (.read m) => b.map fun b => { b with read := b.read ++ [m] }
  | b, .sent m => b.map fun b => { b with sent := b.sent ++ [m] }
  | b, .decoded _ => b
  | b, .given _ => b

def sinceWrite (log : Log) : Option Burst := log.foldl Burst.note none

/-- Nothing was read for a fire-and-forget request; for any other, the frames read end with
the first one without MORE_TO_COME, and all of them were sent. -/
def Burst.Complete (b : Burst) : Prop :=
  if moreToCome b.request.operation then b.read = []
  else b.sent = b.read ∧ ∃ more last, b.read = more ++ [last] ∧
    (∀ m ∈ more, moreToCome m.operation = true) ∧ moreToCome last.operation = false

def Idle (log : Log) : Prop := ∀ b, sinceWrite log = some b → b.Complete

@[simp] theorem sinceWrite_append (log : Log) (e : LoopEvent UpstreamEvent) :
    sinceWrite (log ++ [e]) = Burst.note (sinceWrite log) e := by
  simp only [sinceWrite, List.foldl_append, List.foldl_cons, List.foldl_nil]

/-- Whenever a request is written, the one before it is finished with. -/
def Ordered (log : Log) : Prop :=
  ∀ before req after, log = before ++ .service (.wrote req) :: after → Idle before

theorem ordered_append {log : Log} (h : Ordered log) (e : LoopEvent UpstreamEvent)
    (he : ∀ req, e = .service (.wrote req) → Idle log) : Ordered (log ++ [e]) := by
  intro before req after hsplit
  rcases List.eq_nil_or_concat after with rfl | ⟨after', last, rfl⟩
  · have hinj := List.append_inj' hsplit rfl
    rw [← hinj.1]
    exact he req (List.cons.inj hinj.2).1
  · have hsplit' : log ++ [e] = (before ++ .service (.wrote req) :: after') ++ [last] := by
      rw [hsplit]
      simp
    have hinj := List.append_inj' hsplit' rfl
    exact h before req after' hinj.1

/-! ### The invariant -/

/- Between two requests. -/
structure Settled (log : Log) : Prop where
  written : writtenOf log = decodedOf log
  sent : sentOf log = readOf log
  idle : Idle log

/- While replies are read: everything read so far announced another one and was sent. -/
structure Streaming (log : Log) : Prop where
  written : writtenOf log = decodedOf log
  sent : sentOf log = readOf log
  burst : ∃ req frames, sinceWrite log = some ⟨req, frames, frames⟩ ∧
    moreToCome req.operation = false ∧ ∀ m ∈ frames, moreToCome m.operation = true

/- While `resp` is on its way to the client. -/
structure Forwarding (log : Log) (resp : Message) : Prop where
  written : writtenOf log = decodedOf log
  read : readOf log = sentOf log ++ [resp]
  burst : ∃ req frames, sinceWrite log = some ⟨req, frames ++ [resp], frames⟩ ∧
    moreToCome req.operation = false ∧ ∀ m ∈ frames, moreToCome m.operation = true

variable {β : Type}

def PhaseInv : LoopPhase β (ProxyClientRequestError β) ProxyClientRequestFuture
    ProxyResponseStream → Log → Prop
  | .reading, log => Settled log
  | .calling f, log =>
    decodedOf log = writtenOf log ++ [f.req] ∧ sentOf log = readOf log ∧ Idle log ∧
      f.fireAndForget = moreToCome f.req.operation
  | .replying .done, log => Settled log
  | .replying .streaming, log => Streaming log
  | .sending .done resp, log => Forwarding log resp ∧ moreToCome resp.operation = false
  | .sending .streaming resp, log => Forwarding log resp ∧ moreToCome resp.operation = true
  | .closed _, log => writtenOf log <+: decodedOf log ∧ sentOf log <+: readOf log

structure Inv (c : RelayConn β) : Prop where
  ordered : Ordered c.log
  phase : PhaseInv c.phase c.log

theorem Settled.prefixes {log : Log} (h : Settled log) :
    writtenOf log <+: decodedOf log ∧ sentOf log <+: readOf log := by
  rw [h.written, h.sent]
  exact ⟨List.prefix_rfl, List.prefix_rfl⟩

theorem Forwarding.prefixes {log : Log} {resp : Message} (h : Forwarding log resp) :
    writtenOf log <+: decodedOf log ∧ sentOf log <+: readOf log := by
  rw [h.written, h.read]
  exact ⟨List.prefix_rfl, List.prefix_append _ _⟩

/-- What every phase implies, the closed one included. -/
theorem PhaseInv.prefixes {phase : LoopPhase β (ProxyClientRequestError β) ProxyClientRequestFuture
    ProxyResponseStream} {log : Log} (h : PhaseInv phase log) :
    writtenOf log <+: decodedOf log ∧ sentOf log <+: readOf log := by
  cases phase with
  | reading => exact Settled.prefixes h
  | calling f =>
    obtain ⟨hdec, hsent, -, -⟩ := h
    rw [hdec, hsent]
    exact ⟨List.prefix_append _ _, List.prefix_rfl⟩
  | replying t =>
    cases t with
    | done => exact Settled.prefixes h
    | streaming =>
      have hs : Streaming log := h
      rw [hs.written, hs.sent]
      exact ⟨List.prefix_rfl, List.prefix_rfl⟩
  | sending t resp =>
    cases t with
    | done => exact Forwarding.prefixes h.1
    | streaming => exact Forwarding.prefixes h.1
  | closed r => exact h

/-! ### One event at a time -/

section
variable {log : Log}

theorem Settled.decode (h : Settled log) (req : Message) :
    decodedOf (log ++ [LoopEvent.decoded req]) =
        writtenOf (log ++ [LoopEvent.decoded req]) ++ [req] ∧
      sentOf (log ++ [LoopEvent.decoded req]) = readOf (log ++ [LoopEvent.decoded req]) ∧
      Idle (log ++ [LoopEvent.decoded req]) := by
  refine ⟨by simp [h.written], by simp [h.sent], ?_⟩
  intro b hb
  rw [sinceWrite_append] at hb
  exact h.idle b hb

/- Writing the request that was decoded last. -/
theorem write_fireAndForget {req : Message} (hdec : decodedOf log = writtenOf log ++ [req])
    (hsent : sentOf log = readOf log) (hff : moreToCome req.operation = true) :
    Settled (log ++ [LoopEvent.service (.wrote req)]) := by
  constructor
  · simp [hdec]
  · simp [hsent]
  · intro b hb
    rw [sinceWrite_append] at hb
    cases hb
    simp only [Burst.Complete, hff, if_true]

theorem write_streaming {req : Message} (hdec : decodedOf log = writtenOf log ++ [req])
    (hsent : sentOf log = readOf log) (hff : moreToCome req.operation = false) :
    Streaming (log ++ [LoopEvent.service (.wrote req)]) := by
  constructor
  · simp [hdec]
  · simp [hsent]
  · exact ⟨req, [], sinceWrite_append _ _, hff, by simp⟩

theorem Streaming.readNext (h : Streaming log) (resp : Message) :
    Forwarding (log ++ [LoopEvent.service (.read resp)] ++ [LoopEvent.given resp]) resp := by
  constructor
  · simp only [writtenOf_append, decodedOf_append, of_read, of_given, h.written]
  · simp only [readOf_append, sentOf_append, of_read, of_given, List.append_nil, h.sent]
  · obtain ⟨req, frames, hb, hreq, hmore⟩ := h.burst
    refine ⟨req, frames, ?_, hreq, hmore⟩
    rw [sinceWrite_append, sinceWrite_append, hb]
    rfl

theorem Forwarding.sent_written {resp : Message} (h : Forwarding log resp) :
    writtenOf (log ++ [LoopEvent.sent resp]) = decodedOf (log ++ [LoopEvent.sent resp]) ∧
      sentOf (log ++ [LoopEvent.sent resp]) = readOf (log ++ [LoopEvent.sent resp]) := by
  constructor
  · simp [h.written]
  · simp [h.read]

theorem Forwarding.sendMore {resp : Message} (h : Forwarding log resp)
    (hm : moreToCome resp.operation = true) : Streaming (log ++ [LoopEvent.sent resp]) := by
  obtain ⟨hw, hs⟩ := h.sent_written
  refine ⟨hw, hs, ?_⟩
  obtain ⟨req, frames, hb, hreq, hmore⟩ := h.burst
  refine ⟨req, frames ++ [resp], ?_, hreq, ?_⟩
  · rw [sinceWrite_append, hb]
    rfl
  · intro m hmem
    rcases List.mem_append.mp hmem with hmem | hmem
    · exact hmore m hmem
    · rw [List.mem_singleton.mp hmem]
      exact hm

theorem Forwarding.sendLast {resp : Message} (h : Forwarding log resp)
    (hm : moreToCome resp.operation = false) : Settled (log ++ [LoopEvent.sent resp]) := by
  obtain ⟨hw, hs⟩ := h.sent_written
  refine ⟨hw, hs, ?_⟩
  obtain ⟨req, frames, hb, hreq, hmore⟩ := h.burst
  intro b hb'
  rw [sinceWrite_append, hb] at hb'
  cases hb'
  simp only [Burst.Complete, hreq, Bool.false_eq_true, if_false]
  exact ⟨trivial, frames, resp, rfl, hmore, hm⟩

end

/-! ### Steps and runs -/

theorem Inv.step_reading {c : RelayConn β} (h : Inv c) (hp : c.phase = .reading)
    (io : ClientIo β (UpstreamIo β)) : Inv (Conn.step ProxyClient.service c io) := by
  obtain ⟨phase, state, log⟩ := c
  cases hp
  have hs : Settled log := h.phase
  rcases hio : io.next with - | (- | (e | req))
  · simp only [Conn.step, hio]
    exact h
  · simp only [Conn.step, hio]
    exact ⟨h.ordered, hs.prefixes⟩
  · simp only [Conn.step, hio]
    exact ⟨h.ordered, hs.prefixes⟩
  · simp only [Conn.step, hio, ProxyClient.service, ProxyClient.call, List.map_nil]
    obtain ⟨hd, hr, hi⟩ := hs.decode req
    refine ⟨ordered_append h.ordered _ (fun m hm => by cases hm), ?_⟩
    exact ⟨hd, hr, hi, rfl⟩

theorem Inv.step_calling {c : RelayConn β} {f : ProxyClientRequestFuture} (h : Inv c)
    (hp : c.phase = .calling f) (io : ClientIo β (UpstreamIo β)) :
    Inv (Conn.step ProxyClient.service c io) := by
  obtain ⟨phase, state, log⟩ := c
  cases hp
  obtain ⟨hdec, hsent, hidle, hff⟩ := h.phase
  obtain ⟨req, fireAndForget, stage⟩ := f
  cases stage with
  | locking =>
    by_cases hlock : state.locked = false ∧ io.service.grant = true
    · simp only [Conn.step, ProxyClient.service, ProxyClient.pollCall, if_pos hlock, List.map_nil,
        List.append_nil]
      exact ⟨h.ordered, hdec, hsent, hidle, hff⟩
    · simp only [Conn.step, ProxyClient.service, ProxyClient.pollCall, if_neg hlock, List.map_nil,
        List.append_nil]
      exact ⟨h.ordered, hdec, hsent, hidle, hff⟩
  | sending =>
    rcases hio : io.service.send with - | (e | u)
    · simp only [Conn.step, ProxyClient.service, ProxyClient.pollCall, hio, List.map_nil,
        List.append_nil]
      exact ⟨h.ordered, hdec, hsent, hidle, hff⟩
    · simp only [Conn.step, ProxyClient.service, ProxyClient.pollCall, hio, List.map_nil,
        List.append_nil]
      exact ⟨h.ordered, h.phase.prefixes⟩
    · -- the request is on the wire
      have hord := ordered_append h.ordered (.service (.wrote req)) (fun _ _ => hidle)
      cases hf : fireAndForget with
      | true =>
        simp only [Conn.step, ProxyClient.service, ProxyClient.pollCall, hio, if_true,
          List.map_cons, List.map_nil]
        exact ⟨hord, write_fireAndForget hdec hsent (hff.symm.trans hf)⟩
      | false =>
        simp only [Conn.step, ProxyClient.service, ProxyClient.pollCall, hio,
          Bool.false_eq_true, if_false, List.map_cons, List.map_nil]
        exact ⟨hord, write_streaming hdec hsent (hff.symm.trans hf)⟩

theorem Inv.step_replying {c : RelayConn β} {t : ProxyResponseStream} (h : Inv c)
    (hp : c.phase = .replying t) (io : ClientIo β (UpstreamIo β)) :
    Inv (Conn.step ProxyClient.service c io) := by
  obtain ⟨phase, state, log⟩ := c
  cases hp
  have hphase := h.phase
  cases t with
  | done =>
    simp only [Conn.step, ProxyClient.service, ProxyClient.pollNext, List.map_nil, List.append_nil]
    exact ⟨h.ordered, hphase⟩
  | streaming =>
    have hs : Streaming log := hphase
    rcases hio : io.service.read with - | (- | (e | resp))
    · simp only [Conn.step, ProxyClient.service, ProxyClient.pollNext, hio, List.map_nil,
        List.append_nil]
      exact ⟨h.ordered, hs⟩
    · simp only [Conn.step, ProxyClient.service, ProxyClient.pollNext, hio, List.map_nil,
        List.append_nil]
      exact ⟨h.ordered, hphase.prefixes⟩
    · simp only [Conn.step, ProxyClient.service, ProxyClient.pollNext, hio, List.map_nil,
        List.append_nil]
      exact ⟨h.ordered, hphase.prefixes⟩
    · have hord : Ordered (log ++ [LoopEvent.service (.read resp)] ++ [LoopEvent.given resp]) := by
        apply ordered_append
        · exact ordered_append h.ordered _ (fun m hm => by cases hm)
        · exact fun m hm => by cases hm
      have hfwd := hs.readNext resp
      cases hm : moreToCome resp.operation with
      | true =>
        simp only [Conn.step, ProxyClient.service, ProxyClient.pollNext, hio, hm, if_true,
          List.map_cons, List.map_nil]
        exact ⟨hord, hfwd, hm⟩
      | false =>
        simp only [Conn.step, ProxyClient.service, ProxyClient.pollNext, hio, hm,
          Bool.false_eq_true, if_false, List.map_cons, List.map_nil]
        exact ⟨hord, hfwd, hm⟩

theorem Inv.step_sending {c : RelayConn β} {t : ProxyResponseStream} {resp : Message} (h : Inv c)
    (hp : c.phase = .sending t resp) (io : ClientIo β (UpstreamIo β)) :
    Inv (Conn.step ProxyClient.service c io) := by
  obtain ⟨phase, state, log⟩ := c
  cases hp
  have hphase := h.phase
  rcases hio : io.send with - | (e | u)
  · simp only [Conn.step, hio]
    exact h
  · simp only [Conn.step, hio]
    exact ⟨h.ordered, hphase.prefixes⟩
  · simp only [Conn.step, hio]
    have hord := ordered_append h.ordered (.sent resp) (fun m hm => by cases hm)
    cases t with
    | done => exact ⟨hord, Forwarding.sendLast hphase.1 hphase.2⟩
    | streaming => exact ⟨hord, Forwarding.sendMore hphase.1 hphase.2⟩

theorem Inv.step {c : RelayConn β} (h : Inv c) (io : ClientIo β (UpstreamIo β)) :
    Inv (Conn.step ProxyClient.service c io) := by
  cases hp : c.phase with
  | reading => exact h.step_reading hp io
  | calling f => exact h.step_calling hp io
  | replying t => exact h.step_replying hp io
  | sending t resp => exact h.step_sending hp io
  | closed r =>
    simp only [Conn.step, hp]
    exact h

theorem inv_start (s : ProxyClientInner) : Inv (Conn.start s : RelayConn β) where
  ordered := by
    intro before req after hsplit
    simp [Conn.start] at hsplit
  phase := ⟨rfl, rfl, fun b hb => by cases hb⟩

/-- At every point of every run: requests are written in the order decoded, replies are sent
in the order read, and a request is written only when the one before it is finished with. -/
theorem relay_in_order (s : ProxyClientInner) (ios : List (ClientIo β (UpstreamIo β))) :
    let log := (Conn.run ProxyClient.service (Conn.start s : RelayConn β) ios).log
    writtenOf log <+: decodedOf log ∧ sentOf log <+: readOf log ∧
      ∀ before req after, log = before ++ .service (.wrote req) :: after →
        ∀ b, sinceWrite before = some b → b.Complete := by
  have h := Conn.run_invariant ProxyClient.service Inv (fun c io hc => hc.step io)
    (Conn.start s : RelayConn β) (inv_start s) ios
  exact ⟨h.phase.prefixes.1, h.phase.prefixes.2, h.ordered⟩

end Relay

end MongodProxy
