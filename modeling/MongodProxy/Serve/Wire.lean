import MongodProxy.Encoding
import MongodProxy.Lib.FramedReader
import MongodProxy.Lib.FramedWriter
import MongodProxy.Serve.Stack

/-!
# A connection down to the bytes

The accept loop reads requests through a `FramedRead` with a `WireDecoder` and sends replies
through a `FramedWrite` with a `WireEncoder`; `ProxyClient` has the same pair on the upstream
socket. Here the four of them are part of the state, whatever they are as long as they do what
is documented, and the surroundings are reduced to what the two sockets and the mutex do: bytes
that arrive in any chunks, writes that are taken in any parts, ends of streams and failures, at
any step.
-/

namespace MongodProxy
open Framing Service Layers

namespace Wire

variable {β : Type}

/-- A connection to a `Proxy`, as the accept loop holds it. -/
abbrev ProxyConn (β : Type) := Conn β (ProxyClientRequestError β) ProxyClientInner
  (RewriteHelloFuture ProxyClientRequestFuture) (RewriteHelloStream ProxyResponseStream)
  UpstreamEvent

/-- What a connection reads and writes frames with. -/
structure FramedIo (β : Type) where
  reader : FramedReader WireDecoder UInt8 Message (Outcome.Fail (WireDecoderError β))
  writer : FramedWriter UInt8 Message (WireEncoderError β)

/-- They do what is documented, around the proxy's decoder and encoder. Bytes left over at the end
of a stream and failed reads are IO errors. -/
structure FramedIo.Documented (io : FramedIo β) (bson : BsonCodec β) : Prop where
  reader : io.reader.Documented (WireDecoder.decode bson) .default (.err .ioError) (.err .ioError)
  writer : io.writer.Documented fun m dst => (WireEncoder.encode bson m).exec dst

structure WireConn (io : FramedIo β) where
  conn : ProxyConn β
  fromClient : io.reader.State
  toClient : io.writer.State
  fromUpstream : io.reader.State
  toUpstream : io.writer.State

/- What the mutex and the two sockets do during a step. -/
structure Sockets where
  grant : Bool
  clientReads : List (SocketRead UInt8)
  clientWrites : List SocketWrite
  upstreamReads : List (SocketRead UInt8)
  upstreamWrites : List SocketWrite

def WireConn.start (io : FramedIo β) (s : ProxyClientInner) : WireConn io :=
  ⟨Conn.start s, io.reader.new .default, io.writer.new, io.reader.new .default, io.writer.new⟩

/- A decoder that does not return leaves its task where it is. -/
def returned : Poll (Option (Except (Outcome.Fail (WireDecoderError β)) Message)) →
    Option (Poll (Option (Except (WireDecoderError β) Message)))
  | .pending => some .pending
  | .ready none => some (.ready none)
  | .ready (some (.ok m)) => some (.ready (some (.ok m)))
  | .ready (some (.error (.err e))) => some (.ready (some (.error e)))
  | .ready (some (.error .panic)) => none
  | .ready (some (.error .hang)) => none

variable (bson : BsonCodec β) {io : FramedIo β} (enabled : Bool)

/- One step of the accept loop with these answers. -/
def loopStep (c : ProxyConn β) (answers : ClientIo β (UpstreamIo β)) : ProxyConn β :=
  Conn.step (rewriteHelloService ProxyClient.service enabled) c answers

/-- One step. Every phase polls one of the four halves of the sockets, or the mutex. -/
def WireConn.step (w : WireConn io) (sockets : Sockets) : WireConn io :=
  match w.conn.phase with
  | .reading =>
    let p := io.reader.pollNext sockets.clientReads w.fromClient
    match returned p.1 with
    | none => w
    | some next =>
      { w with
        conn := loopStep enabled w.conn ⟨next, .pending, ⟨false, .pending, .pending⟩⟩
        fromClient := p.2 }
  | .calling f =>
    match f.fut.stage with
    | .locking =>
      { w with
        conn := loopStep enabled w.conn ⟨.pending, .pending, ⟨sockets.grant, .pending, .pending⟩⟩ }
    | .sending =>
      let p := io.writer.send f.fut.req sockets.upstreamWrites w.toUpstream
      { w with
        conn := loopStep enabled w.conn ⟨.pending, .pending, ⟨false, p.1, .pending⟩⟩
        toUpstream := p.2 }
  | .replying t =>
    match t.inner with
    | .done =>
      { w with conn := loopStep enabled w.conn ⟨.pending, .pending, ⟨false, .pending, .pending⟩⟩ }
    | .streaming =>
      let p := io.reader.pollNext sockets.upstreamReads w.fromUpstream
      match returned p.1 with
      | none => w
      | some read =>
        { w with
          conn := loopStep enabled w.conn ⟨.pending, .pending, ⟨false, .pending, read⟩⟩
          fromUpstream := p.2 }
  | .sending _ resp =>
    let p := io.writer.send resp sockets.clientWrites w.toClient
    { w with
      conn := loopStep enabled w.conn ⟨.pending, p.1, ⟨false, .pending, .pending⟩⟩
      toClient := p.2 }
  | .closed _ => w

def WireConn.run (w : WireConn io) (schedule : List Sockets) : WireConn io :=
  schedule.foldl (WireConn.step enabled) w

/-! ### Bytes and messages -/

/- The frames of the messages, one after the other. -/
def encoded (ms : List Message) : Bytes :=
  ms.flatMap fun m => match m.frame bson with | .ok w => w | .error _ => []

def frameOf (m : Message) : Except (WireEncoderError β) Bytes :=
  (m.frame bson).mapError .messageWriteError

theorem encodesBy_frameOf :
    FramedWriter.EncodesBy (fun m dst => (WireEncoder.encode bson m).exec dst) (frameOf bson) := by
  intro m buf
  have happends := (m.writeBytes_appends bson).mapErr WireEncoderError.messageWriteError buf
  show (WireEncoder.encode bson m).exec buf = _
  rw [WireEncoder.encode, happends, frameOf]
  cases m.frame bson with
  | error e => rfl
  | ok bs => rfl

theorem encoded_append_singleton {m : Message} {bs : Bytes} (h : frameOf bson m = .ok bs)
    (ms : List Message) : encoded bson (ms ++ [m]) = encoded bson ms ++ bs := by
  rw [frameOf, Outcome.mapError_eq_ok] at h
  simp only [encoded, List.flatMap_append, List.flatMap_cons, List.flatMap_nil, h,
    List.append_nil]

/-- Each of the messages can be written. -/
def Framed (ms : List Message) : Prop := ∀ m ∈ ms, ∃ bs, frameOf bson m = .ok bs

variable {bson} in
theorem Framed.append_singleton {ms : List Message} (h : Framed bson ms) {m : Message} {bs : Bytes}
    (hbs : frameOf bson m = .ok bs) : Framed bson (ms ++ [m]) := by
  intro x hx
  rcases List.mem_append.mp hx with hx | hx
  · exact h x hx
  · rw [List.mem_singleton.mp hx]
    exact ⟨bs, hbs⟩

/-- The bytes are a part of the frames of messages at the front of `ms`. -/
def Within (ms : List Message) (bs : Bytes) : Prop :=
  ∃ front, front <+: ms ∧ Framed bson front ∧ bs <+: encoded bson front

variable {bson} in
theorem Within.mono {ms ms' : List Message} {bs : Bytes} (h : Within bson ms bs) (hms : ms <+: ms') :
    Within bson ms' bs := by
  obtain ⟨front, hfront, hframed, hbs⟩ := h
  exact ⟨front, hfront.trans hms, hframed, hbs⟩

/-! ### The invariant -/

def isClosed {ε φ τ : Type} : LoopPhase β ε φ τ → Bool
  | .closed _ => true
  | _ => false

/- A reader that has handed out `items`; once the connection is closed it may be anywhere behind. -/
structure Reads (closed : Bool) (r : io.reader.State) (items : List Message) : Prop where
  front : items <+: ((wireFramer bson).scan (io.reader.received r)).items
  tracks : closed = false → io.reader.Tracks (wireFramer bson) WireDecoder.Fits .default r items

/- A writer behind which the messages of `done` are finished and `current` is under way, all of them
at the front of `total`. -/
structure Writes (closed : Bool) (s : io.writer.State) (done total : List Message)
    (current : Option Message) : Prop where
  within : Within bson total (io.writer.written s)
  framed : closed = false → Framed bson done
  holds : closed = false → io.writer.Holds (frameOf bson) (encoded bson done) current s

/- What the bare connection is writing upstream, and what it is sending. -/
def writing {ε : Type} : LoopPhase β ε ProxyClientRequestFuture ProxyResponseStream → Option Message
  | .calling f => some f.req
  | _ => none

def sending {ε φ τ : Type} : LoopPhase β ε φ τ → Option Message
  | .sending _ resp => some resp
  | _ => none

/-- The connection over the bare `ProxyClient` that goes the same way. -/
abbrev served (c : RelayConn β) : ProxyConn β :=
  image (Stack.rewriteHelloOverlay ProxyClient.service enabled) (Stack.rewriting enabled none) c

/- The replies the client is to get for what was read so far. -/
def due (log : Relay.Log) : List Message :=
  ((Stack.readFor log).map (Stack.rewriteReply enabled)).map Prod.snd

def given (log : Relay.Log) : List Message :=
  ((Stack.sentFor log).map (Stack.rewriteReply enabled)).map Prod.snd

structure Inv (w : WireConn io) (c : RelayConn β) : Prop where
  conn : w.conn = served enabled c
  stack : Stack.Inv c
  fromClient : Reads bson (isClosed c.phase) w.fromClient (Relay.decodedOf c.log)
  fromUpstream : Reads bson (isClosed c.phase) w.fromUpstream (Relay.readOf c.log)
  toUpstream : Writes bson (isClosed c.phase) w.toUpstream (Relay.writtenOf c.log)
    (Relay.decodedOf c.log) (writing c.phase)
  toClient : Writes bson (isClosed c.phase) w.toClient (given enabled c.log) (due enabled c.log)
    (sending (served enabled c).phase)
  /- The connection ends well only between two frames, with everything relayed. -/
  ended : c.phase = .closed (.ok ()) →
    (wireFramer bson).scan (io.reader.received w.fromClient) = ⟨Relay.decodedOf c.log, none, []⟩ ∧
      (Framed bson (Relay.decodedOf c.log) ∧
        io.writer.written w.toUpstream = encoded bson (Relay.decodedOf c.log)) ∧
      Framed bson (due enabled c.log) ∧
        io.writer.written w.toClient = encoded bson (due enabled c.log)

variable {bson enabled}

theorem Reads.close {closed : Bool} {r : io.reader.State} {items : List Message}
    (h : Reads bson closed r items) : Reads bson true r items :=
  ⟨h.front, fun hopen => by cases hopen⟩

theorem Writes.close {closed : Bool} {s : io.writer.State} {done total : List Message}
    {current current' : Option Message} (h : Writes bson closed s done total current) :
    Writes bson true s done total current' :=
  ⟨h.within, fun hopen => (by cases hopen), fun hopen => by cases hopen⟩

/- A writer at rest takes the next message. -/
theorem Writes.next {s : io.writer.State} {done total total' : List Message}
    (h : Writes bson false s done total none) (htotal : total <+: total') (m : Message) :
    Writes bson false s done total' (some m) :=
  ⟨h.within.mono htotal, h.framed, fun _ => (h.holds rfl).next m⟩

/- A writer in the middle of a send has a part of the frame on the socket. -/
theorem within_split {s : io.writer.State} {done total : List Message} {m : Message}
    (hdone : Framed bson done) (htotal : total = done ++ [m])
    (h : io.writer.Split (frameOf bson) (encoded bson done) m s) :
    Within bson total (io.writer.written s) := by
  rw [htotal]
  rcases h.written_le with heq | ⟨bs, hbs, hle⟩
  · exact ⟨done, List.prefix_append _ _, hdone, by simp [heq]⟩
  · refine ⟨done ++ [m], List.prefix_rfl, hdone.append_singleton hbs, ?_⟩
    rw [encoded_append_singleton bson hbs]
    exact hle

/- A writer that has finished a send. -/
theorem writes_sent {s : io.writer.State} {done total : List Message} {m : Message} {bs : Bytes}
    (hdone : Framed bson done) (htotal : total = done ++ [m]) (hbs : frameOf bson m = .ok bs)
    (h : io.writer.Holds (frameOf bson) (encoded bson done ++ bs) none s) :
    Writes bson false s (done ++ [m]) total none := by
  rw [← encoded_append_singleton bson hbs] at h
  have hframed := hdone.append_singleton hbs
  refine ⟨⟨done ++ [m], ?_, hframed, ?_⟩, fun _ => hframed, fun _ => h⟩
  · rw [htotal]
  · rw [h.rest.2.2]

theorem reads_of_tracks {closed : Bool} {r : io.reader.State} {items : List Message}
    (h : io.reader.Tracks (wireFramer bson) WireDecoder.Fits .default r items) :
    Reads bson closed r items :=
  ⟨h.front, fun _ => h⟩

/- The step of the loop, seen from below the layer. -/
theorem loopStep_served (c : RelayConn β) (answers : ClientIo β (UpstreamIo β)) :
    loopStep enabled (served enabled c) answers
      = served enabled (Conn.step ProxyClient.service c answers) :=
  step_image (Stack.rewriteHelloOverlay ProxyClient.service enabled) _ c answers

theorem given_append_sent (log : Relay.Log) (resp : Message) :
    given enabled (log ++ [LoopEvent.sent resp]) = given enabled log
      ++ [(Stack.rewriteReply enabled (Stack.requestAfter none log, resp)).2] := by
  simp [given]

section
variable {w : WireConn io} {s : ProxyClientInner} {log : Relay.Log} {sockets : Sockets}

/-! The step in terms of the bare connection, for each half of a socket. -/

theorem step_reading_eq (h : w.conn = served enabled ⟨.reading, s, log⟩)
    (answer : Poll (Option (Except (Outcome.Fail (WireDecoderError β)) Message)))
    (r : io.reader.State)
    (hpoll : io.reader.pollNext sockets.clientReads w.fromClient = (answer, r))
    (next : Poll (Option (Except (WireDecoderError β) Message))) (hnext : returned answer = some next) :
    w.step enabled sockets
      = { w with
          conn := served enabled (Conn.step ProxyClient.service ⟨.reading, s, log⟩
            ⟨next, .pending, ⟨false, .pending, .pending⟩⟩)
          fromClient := r } := by
  have hphase : w.conn.phase = .reading := by
    rw [h]
    rfl
  simp only [WireConn.step, hphase, hpoll, hnext]
  rw [h, loopStep_served]

/- The connection is closed with an error; whatever was polled last is not looked at again. -/
theorem Inv.fail {c : RelayConn β} (h : Inv bson enabled w c) {c' : RelayConn β}
    (hstack : Stack.Inv c') (e : AcceptClientError β (ProxyClientRequestError β))
    (hphase : c'.phase = .closed (.error e)) (hlog : c'.log = c.log) {w' : WireConn io}
    (hconn : w'.conn = served enabled c')
    (hclient : w'.fromClient = w.fromClient ∨
      Relay.decodedOf c.log <+: ((wireFramer bson).scan (io.reader.received w'.fromClient)).items)
    (hupstream : w'.fromUpstream = w.fromUpstream ∨
      Relay.readOf c.log <+: ((wireFramer bson).scan (io.reader.received w'.fromUpstream)).items)
    (hto : w'.toUpstream = w.toUpstream ∨
      Within bson (Relay.decodedOf c.log) (io.writer.written w'.toUpstream))
    (hback : w'.toClient = w.toClient ∨
      Within bson (due enabled c.log) (io.writer.written w'.toClient)) :
    Inv bson enabled w' c' where
  conn := hconn
  stack := hstack
  fromClient := by
    rw [hphase, hlog]
    refine ⟨?_, fun hopen => by cases hopen⟩
    rcases hclient with heq | hfront
    · rw [heq]
      exact h.fromClient.front
    · exact hfront
  fromUpstream := by
    rw [hphase, hlog]
    refine ⟨?_, fun hopen => by cases hopen⟩
    rcases hupstream with heq | hfront
    · rw [heq]
      exact h.fromUpstream.front
    · exact hfront
  toUpstream := by
    rw [hphase, hlog]
    refine ⟨?_, fun hopen => (by cases hopen), fun hopen => by cases hopen⟩
    rcases hto with heq | hwithin
    · rw [heq]
      exact h.toUpstream.within
    · exact hwithin
  toClient := by
    rw [hphase, hlog]
    refine ⟨?_, fun hopen => (by cases hopen), fun hopen => by cases hopen⟩
    rcases hback with heq | hwithin
    · rw [heq]
      exact h.toClient.within
    · exact hwithin
  ended := by
    intro hok
    rw [hphase] at hok
    cases hok

theorem due_append_read (log : Relay.Log) (resp : Message) :
    due enabled (log ++ [LoopEvent.service (.read resp)] ++ [LoopEvent.given resp])
      = due enabled log ++ [(Stack.rewriteReply enabled (Stack.requestAfter none log, resp)).2] := by
  rw [due, Stack.readFor_given, Stack.readFor_read]
  simp [due]

theorem Inv.step_reading (h : Inv bson enabled w ⟨.reading, s, log⟩) (hio : io.Documented bson)
    (sockets : Sockets) :
    ∃ c, Inv bson enabled (w.step enabled sockets) c := by
  have hpoll := FramedReader.poll_outcome hio.reader (WireDecoder.decode_implements bson)
    sockets.clientReads w.fromClient _ (h.fromClient.tracks rfl)
  generalize hp : io.reader.pollNext sockets.clientReads w.fromClient = p at hpoll
  obtain ⟨answer, r⟩ := p
  have hfront := hpoll.front
  have hstep := step_reading_eq h.conn answer r hp
  have hfail : ∀ e, returned answer = some (.ready (some (.error e))) →
      ∃ c, Inv bson enabled (w.step enabled sockets) c := by
    intro e he
    rw [hstep _ he]
    exact ⟨_, h.fail (h.stack.step _) (.decodeFromClient e) rfl rfl rfl
      (Or.inr (hfront)) (Or.inl rfl) (Or.inl rfl) (Or.inl rfl)⟩
  have hstuck : returned answer = none →
      ∃ c, Inv bson enabled (w.step enabled sockets) c := by
    intro hnone
    have hphase : w.conn.phase = .reading := by
      rw [h.conn]
      rfl
    simp only [WireConn.step, hphase, hp, hnone]
    exact ⟨_, h⟩
  cases hpoll with
  | pending ht hdrained =>
    rw [hstep _ rfl]
    exact ⟨_, rfl, h.stack.step _, reads_of_tracks ht, h.fromUpstream, h.toUpstream, h.toClient,
      fun hok => by cases hok⟩
  | item x ht =>
    rw [hstep _ rfl]
    have hwrites : Writes bson false w.toUpstream (Relay.writtenOf log) (Relay.decodedOf log) none :=
      h.toUpstream
    refine ⟨_, rfl, h.stack.step _, ?_, ?_, ?_, ?_, fun hok => by cases hok⟩
    · show Reads bson false r (Relay.decodedOf (log ++ [LoopEvent.decoded x]))
      rw [Relay.decodedOf_append]
      exact reads_of_tracks ht
    · show Reads bson false w.fromUpstream (Relay.readOf (log ++ [LoopEvent.decoded x]))
      rw [Relay.readOf_append, (Relay.of_decoded x).2.2.1, List.append_nil]
      exact h.fromUpstream
    · show Writes bson false w.toUpstream (Relay.writtenOf (log ++ [LoopEvent.decoded x]))
        (Relay.decodedOf (log ++ [LoopEvent.decoded x])) (some x)
      rw [Relay.writtenOf_append, Relay.decodedOf_append, (Relay.of_decoded x).2.1, List.append_nil]
      exact hwrites.next (List.prefix_append _ _) x
    · show Writes bson false w.toClient (given enabled (log ++ [LoopEvent.decoded x]))
        (due enabled (log ++ [LoopEvent.decoded x])) none
      rw [given, due, Stack.sentFor_decoded, Stack.readFor_decoded]
      exact h.toClient
  | ended hdrained =>
    rw [hstep _ rfl]
    have hsettled : Relay.Settled log := h.stack.relay.phase
    have hbalanced : Stack.sentFor log = Stack.readFor log := h.stack.balanced
    have hup : Writes bson false w.toUpstream (Relay.writtenOf log) (Relay.decodedOf log) none :=
      h.toUpstream
    have hdown : Writes bson false w.toClient (given enabled log) (due enabled log) none := h.toClient
    have hgiven : given enabled log = due enabled log := by rw [given, hbalanced, due]
    rw [hsettled.written] at hup
    rw [hgiven] at hdown
    exact ⟨_, rfl, h.stack.step _, ⟨hfront, fun hopen => by cases hopen⟩, h.fromUpstream.close,
      h.toUpstream.close, h.toClient.close, fun _ => ⟨hdrained,
        ⟨hup.framed rfl, (hup.holds rfl).rest.2.2⟩, hdown.framed rfl, (hdown.holds rfl).rest.2.2⟩⟩
  | rejected e hstopped =>
    cases e with
    | err e => exact hfail e rfl
    | panic => exact hstuck rfl
    | hang => exact hstuck rfl
  | cutOff hleft hne => exact hfail _ rfl
  | failed hdrained => exact hfail _ rfl

theorem Inv.step_locking {req : Message} {ff : Bool}
    (h : Inv bson enabled w ⟨.calling ⟨req, ff, .locking⟩, s, log⟩) (sockets : Sockets) :
    ∃ c, Inv bson enabled (w.step enabled sockets) c := by
  obtain ⟨g, hphase⟩ : ∃ g, w.conn.phase = .calling ⟨⟨req, ff, .locking⟩, g⟩ :=
    ⟨_, by rw [h.conn]; rfl⟩
  have hstep : w.step enabled sockets = { w with conn := served enabled (Conn.step
      ProxyClient.service ⟨.calling ⟨req, ff, .locking⟩, s, log⟩
        ⟨.pending, .pending, ⟨sockets.grant, .pending, .pending⟩⟩) } := by
    simp only [WireConn.step, hphase]
    rw [h.conn, loopStep_served]
  rw [hstep]
  have hstack := h.stack.step ⟨.pending, .pending, ⟨sockets.grant, .pending, .pending⟩⟩
  by_cases hgrant : s.locked = false ∧ sockets.grant = true
  · refine ⟨⟨.calling ⟨req, ff, .sending⟩, ⟨true⟩, log⟩, ?_, ?_, h.fromClient, h.fromUpstream,
      h.toUpstream, h.toClient, fun hok => by cases hok⟩
    · simp only [Conn.step, ProxyClient.service, ProxyClient.pollCall, if_pos hgrant, List.map_nil,
        List.append_nil]
    · simp only [Conn.step, ProxyClient.service, ProxyClient.pollCall, if_pos hgrant, List.map_nil,
        List.append_nil] at hstack
      exact hstack
  · refine ⟨⟨.calling ⟨req, ff, .locking⟩, s, log⟩, ?_, h.stack, h.fromClient, h.fromUpstream,
      h.toUpstream, h.toClient, fun hok => by cases hok⟩
    simp only [Conn.step, ProxyClient.service, ProxyClient.pollCall, if_neg hgrant, List.map_nil,
      List.append_nil]

/- The request that is being written is the only one decoded and not written. -/
theorem Inv.step_writing {req : Message} {ff : Bool}
    (h : Inv bson enabled w ⟨.calling ⟨req, ff, .sending⟩, s, log⟩) (hio : io.Documented bson)
    (sockets : Sockets) :
    ∃ c, Inv bson enabled (w.step enabled sockets) c := by
  obtain ⟨g, hphase⟩ : ∃ g, w.conn.phase = .calling ⟨⟨req, ff, .sending⟩, g⟩ :=
    ⟨_, by rw [h.conn]; rfl⟩
  have hdec : Relay.decodedOf log = Relay.writtenOf log ++ [req] := h.stack.relay.phase.1
  have hwrites : Writes bson false w.toUpstream (Relay.writtenOf log) (Relay.decodedOf log)
      (some req) := h.toUpstream
  have hdone := hwrites.framed rfl
  have hsend := FramedWriter.send_outcome hio.writer (encodesBy_frameOf bson)
    sockets.upstreamWrites (hwrites.holds rfl)
  generalize hp : io.writer.send req sockets.upstreamWrites w.toUpstream = p at hsend
  obtain ⟨answer, wr⟩ := p
  have hstep : w.step enabled sockets = { w with
      conn := served enabled (Conn.step ProxyClient.service ⟨.calling ⟨req, ff, .sending⟩, s, log⟩
        ⟨.pending, .pending, ⟨false, answer, .pending⟩⟩)
      toUpstream := wr } := by
    simp only [WireConn.step, hphase, hp]
    rw [h.conn, loopStep_served]
  have hstack := h.stack.step ⟨.pending, .pending, ⟨false, answer, .pending⟩⟩
  rw [hstep]
  cases hsend with
  | pending bs hbs hholds =>
    simp only [Conn.step, ProxyClient.service, ProxyClient.pollCall, List.map_nil,
      List.append_nil] at hstack ⊢
    exact ⟨_, rfl, hstack, h.fromClient, h.fromUpstream,
      ⟨within_split hdone hdec hholds.split, fun _ => hdone, fun _ => hholds⟩, h.toClient,
      fun hok => by cases hok⟩
  | failed e hsplit =>
    refine ⟨_, h.fail hstack (.upstreamRequest (.wireEncode e)) rfl ?_ rfl (Or.inl rfl)
      (Or.inl rfl) (Or.inr (within_split hdone hdec hsplit)) (Or.inl rfl)⟩
    exact List.append_nil log
  | sent bs hbs hholds =>
    have hlog : Conn.step (ProxyClient.service (β := β)) ⟨.calling ⟨req, ff, .sending⟩, s, log⟩
        ⟨.pending, .pending, ⟨false, .ready (.ok ()), .pending⟩⟩
          = (⟨.replying (if ff then .done else .streaming), if ff then ⟨false⟩ else s,
              log ++ [LoopEvent.service (.wrote req)]⟩ : RelayConn β) := by
      cases ff with
      | true => rfl
      | false => rfl
    rw [hlog] at hstack ⊢
    refine ⟨_, rfl, hstack, ?_, ?_, ?_, ?_, fun hok => by cases hok⟩
    · show Reads bson false w.fromClient (Relay.decodedOf (log ++ [LoopEvent.service (.wrote req)]))
      rw [Relay.decodedOf_append, (Relay.of_wrote req).1, List.append_nil]
      exact h.fromClient
    · show Reads bson false w.fromUpstream (Relay.readOf (log ++ [LoopEvent.service (.wrote req)]))
      rw [Relay.readOf_append, (Relay.of_wrote req).2.2.1, List.append_nil]
      exact h.fromUpstream
    · show Writes bson false wr (Relay.writtenOf (log ++ [LoopEvent.service (.wrote req)]))
        (Relay.decodedOf (log ++ [LoopEvent.service (.wrote req)])) none
      rw [Relay.writtenOf_append, Relay.decodedOf_append, (Relay.of_wrote req).1,
        (Relay.of_wrote req).2.1, List.append_nil]
      exact writes_sent hdone hdec hbs hholds
    · show Writes bson false w.toClient (given enabled (log ++ [LoopEvent.service (.wrote req)]))
        (due enabled (log ++ [LoopEvent.service (.wrote req)])) none
      rw [given, due, Stack.sentFor_service, Stack.readFor_wrote]
      exact h.toClient

theorem Inv.step_done (h : Inv bson enabled w ⟨.replying .done, s, log⟩) (sockets : Sockets) :
    ∃ c, Inv bson enabled (w.step enabled sockets) c := by
  obtain ⟨g, hphase⟩ : ∃ g, w.conn.phase = .replying ⟨.done, g⟩ := ⟨_, by rw [h.conn]; rfl⟩
  have hstep : w.step enabled sockets = { w with conn := served enabled (Conn.step
      ProxyClient.service ⟨.replying .done, s, log⟩
        ⟨.pending, .pending, ⟨false, .pending, .pending⟩⟩) } := by
    simp only [WireConn.step, hphase]
    rw [h.conn, loopStep_served]
  have hstack := h.stack.step ⟨.pending, .pending, ⟨false, .pending, .pending⟩⟩
  simp only [Conn.step, ProxyClient.service, ProxyClient.pollNext, List.map_nil,
    List.append_nil] at hstack hstep
  rw [hstep]
  exact ⟨_, rfl, hstack, h.fromClient, h.fromUpstream, h.toUpstream, h.toClient,
    fun hok => by cases hok⟩

/- The mark the layer keeps is the one of the current request. -/
theorem markAfter_eq (cur : Option Message) (log : Relay.Log) :
    markAfter (Stack.rewriteHelloOverlay (ProxyClient.service (β := β)) enabled)
        (Stack.rewriting enabled cur) log
      = Stack.rewriting enabled (Stack.requestAfter cur log) := by
  induction log generalizing cur with
  | nil => rfl
  | cons e log ih =>
    cases e with
    | decoded req => exact ih (some req)
    | service e => exact ih cur
    | given reply => exact ih cur
    | sent reply => exact ih cur

/- What the loop sends for `resp`, the reply to the current request. -/
theorem served_sending (enabled : Bool) (t : ProxyResponseStream) (resp : Message)
    (s : ProxyClientInner) (log : Relay.Log) :
    (served enabled ⟨.sending t resp, s, log⟩ : ProxyConn β).phase
      = .sending ⟨t, Stack.rewriting enabled (Stack.requestAfter none log)⟩
          (Stack.rewriteReply enabled (Stack.requestAfter none log, resp)).2 := by
  simp only [image, phaseOf, markAfter_eq]
  rfl

theorem Inv.step_streaming (h : Inv bson enabled w ⟨.replying .streaming, s, log⟩)
    (hio : io.Documented bson) (sockets : Sockets) :
    ∃ c, Inv bson enabled (w.step enabled sockets) c := by
  obtain ⟨g, hphase⟩ : ∃ g, w.conn.phase = .replying ⟨.streaming, g⟩ := ⟨_, by rw [h.conn]; rfl⟩
  have hpoll := FramedReader.poll_outcome hio.reader (WireDecoder.decode_implements bson)
    sockets.upstreamReads w.fromUpstream _ (h.fromUpstream.tracks rfl)
  generalize hp : io.reader.pollNext sockets.upstreamReads w.fromUpstream = p at hpoll
  obtain ⟨answer, r⟩ := p
  have hstep : ∀ read, returned answer = some read → w.step enabled sockets = { w with
      conn := served enabled (Conn.step ProxyClient.service ⟨.replying .streaming, s, log⟩
        ⟨.pending, .pending, ⟨false, .pending, read⟩⟩)
      fromUpstream := r } := by
    intro read hread
    simp only [WireConn.step, hphase, hp, hread]
    rw [h.conn, loopStep_served]
  have hstack := fun read => h.stack.step ⟨.pending, .pending, ⟨false, .pending, read⟩⟩
  have hfail : ∀ read e, returned answer = some read →
      (∀ io : ClientIo β (UpstreamIo β), io.service.read = read →
        (Conn.step ProxyClient.service ⟨.replying .streaming, s, log⟩ io : RelayConn β)
          = ⟨.closed (.error e), ⟨false⟩, log⟩) →
      ∃ c, Inv bson enabled (w.step enabled sockets) c := by
    intro read e hread hclosed
    have hstack := hstack read
    rw [hclosed _ rfl] at hstack
    rw [hstep read hread, hclosed _ rfl]
    exact ⟨_, h.fail hstack e rfl rfl rfl (Or.inl rfl) (Or.inr (hpoll.front)) (Or.inl rfl)
      (Or.inl rfl)⟩
  have hdecode : ∀ e, returned answer = some (.ready (some (.error e))) →
      ∃ c, Inv bson enabled (w.step enabled sockets) c := by
    intro e he
    refine hfail _ (.upstreamResponse (.wireDecode e)) he ?_
    intro io hio
    simp only [Conn.step, ProxyClient.service, ProxyClient.pollNext, hio, List.map_nil,
      List.append_nil]
  have hstuck : returned answer = none →
      ∃ c, Inv bson enabled (w.step enabled sockets) c := by
    intro hnone
    simp only [WireConn.step, hphase, hp, hnone]
    exact ⟨_, h⟩
  cases hpoll with
  | pending ht hdrained =>
    have hstack := hstack .pending
    simp only [Conn.step, ProxyClient.service, ProxyClient.pollNext, List.map_nil,
      List.append_nil] at hstack
    rw [hstep _ rfl]
    simp only [Conn.step, ProxyClient.service, ProxyClient.pollNext, List.map_nil, List.append_nil]
    exact ⟨_, rfl, hstack, h.fromClient, reads_of_tracks ht, h.toUpstream, h.toClient,
      fun hok => by cases hok⟩
  | item resp ht =>
    have hlog : Conn.step ProxyClient.service ⟨.replying .streaming, s, log⟩
        ⟨.pending, .pending, ⟨false, .pending, .ready (some (.ok resp))⟩⟩
          = (⟨.sending (if moreToCome resp.operation then .streaming else .done) resp,
              if moreToCome resp.operation then s else ⟨false⟩,
              log ++ [LoopEvent.service (.read resp)] ++ [LoopEvent.given resp]⟩ : RelayConn β) := by
      cases hm : moreToCome resp.operation with
      | true => simp [Conn.step, ProxyClient.service, ProxyClient.pollNext, hm]
      | false => simp [Conn.step, ProxyClient.service, ProxyClient.pollNext, hm]
    have hstack := hstack (.ready (some (.ok resp)))
    rw [hlog] at hstack
    rw [hstep _ rfl, hlog]
    have hclient : Writes bson false w.toClient (given enabled log) (due enabled log) none :=
      h.toClient
    refine ⟨_, rfl, hstack, ?_, ?_, ?_, ?_, fun hok => by cases hok⟩
    · show Reads bson false w.fromClient (Relay.decodedOf
        (log ++ [LoopEvent.service (.read resp)] ++ [LoopEvent.given resp]))
      simp only [Relay.decodedOf_append, Relay.of_read, Relay.of_given, List.append_nil]
      exact h.fromClient
    · show Reads bson false r (Relay.readOf
        (log ++ [LoopEvent.service (.read resp)] ++ [LoopEvent.given resp]))
      simp only [Relay.readOf_append, Relay.of_read, Relay.of_given, List.append_nil]
      exact reads_of_tracks ht
    · show Writes bson false w.toUpstream
        (Relay.writtenOf (log ++ [LoopEvent.service (.read resp)] ++ [LoopEvent.given resp]))
        (Relay.decodedOf (log ++ [LoopEvent.service (.read resp)] ++ [LoopEvent.given resp])) none
      simp only [Relay.writtenOf_append, Relay.decodedOf_append, Relay.of_read, Relay.of_given,
        List.append_nil]
      exact h.toUpstream
    · rw [served_sending, due_append_read, given, Stack.sentFor_given, Stack.sentFor_service]
      exact hclient.next (List.prefix_append _ _) _
  | ended hdrained =>
    refine hfail _ (.upstreamResponse .endOfStream) rfl ?_
    intro io hio
    simp only [Conn.step, ProxyClient.service, ProxyClient.pollNext, hio, List.map_nil,
      List.append_nil]
  | rejected e hstopped =>
    cases e with
    | err e => exact hdecode e rfl
    | panic => exact hstuck rfl
    | hang => exact hstuck rfl
  | cutOff hleft hne => exact hdecode _ rfl
  | failed hdrained => exact hdecode _ rfl

theorem Inv.step_sending {t : ProxyResponseStream} {resp : Message}
    (h : Inv bson enabled w ⟨.sending t resp, s, log⟩) (hio : io.Documented bson)
    (sockets : Sockets) :
    ∃ c, Inv bson enabled (w.step enabled sockets) c := by
  have hserved := served_sending (β := β) enabled t resp s log
  have hphase := (congrArg Conn.phase h.conn).trans hserved
  have hto := h.toClient
  rw [hserved] at hto
  have hbalanced : Stack.readFor log = Stack.sentFor log ++ [(Stack.requestAfter none log, resp)] :=
    h.stack.balanced
  have hdue : due enabled log = given enabled log
      ++ [(Stack.rewriteReply enabled (Stack.requestAfter none log, resp)).2] := by
    simp [due, given, hbalanced]
  have hdone : Framed bson (given enabled log) := hto.framed rfl
  have hsend := FramedWriter.send_outcome hio.writer (encodesBy_frameOf bson) sockets.clientWrites
    (hto.holds rfl)
  generalize hp : io.writer.send _ sockets.clientWrites w.toClient = p at hsend
  obtain ⟨answer, wr⟩ := p
  have hstep : w.step enabled sockets = { w with
      conn := served enabled (Conn.step ProxyClient.service ⟨.sending t resp, s, log⟩
        ⟨.pending, answer, ⟨false, .pending, .pending⟩⟩)
      toClient := wr } := by
    simp only [WireConn.step, hphase, hp]
    rw [h.conn, loopStep_served]
  have hstack := h.stack.step ⟨.pending, answer, ⟨false, .pending, .pending⟩⟩
  rw [hstep]
  cases hsend with
  | pending bs hbs hholds =>
    refine ⟨_, rfl, hstack, h.fromClient, h.fromUpstream, h.toUpstream,
      ⟨within_split hdone hdue hholds.split, fun _ => hdone, fun _ => ?_⟩, fun hok => by cases hok⟩
    show io.writer.Holds (frameOf bson) (encoded bson (given enabled log))
      (sending (served enabled ⟨.sending t resp, s, log⟩ : ProxyConn β).phase) wr
    rw [served_sending]
    exact hholds
  | failed e hsplit =>
    exact ⟨_, h.fail hstack (.encodeToClient e) rfl rfl rfl (Or.inl rfl) (Or.inl rfl) (Or.inl rfl)
      (Or.inr (within_split hdone hdue hsplit))⟩
  | sent bs hbs hholds =>
    refine ⟨_, rfl, hstack, ?_, ?_, ?_, ?_, fun hok => by cases hok⟩
    · show Reads bson false w.fromClient (Relay.decodedOf (log ++ [LoopEvent.sent resp]))
      rw [Relay.decodedOf_append, (Relay.of_sent resp).1, List.append_nil]
      exact h.fromClient
    · show Reads bson false w.fromUpstream (Relay.readOf (log ++ [LoopEvent.sent resp]))
      rw [Relay.readOf_append, (Relay.of_sent resp).2.2.1, List.append_nil]
      exact h.fromUpstream
    · show Writes bson false w.toUpstream (Relay.writtenOf (log ++ [LoopEvent.sent resp]))
        (Relay.decodedOf (log ++ [LoopEvent.sent resp])) none
      simp only [Relay.writtenOf_append, Relay.decodedOf_append, Relay.of_sent, List.append_nil]
      exact h.toUpstream
    · show Writes bson false wr (given enabled (log ++ [LoopEvent.sent resp]))
        (due enabled (log ++ [LoopEvent.sent resp])) none
      have hsame : due enabled (log ++ [LoopEvent.sent resp]) = due enabled log := by
        rw [due, Stack.readFor_sent]
        rfl
      rw [hsame, given_append_sent]
      exact writes_sent hdone hdue hbs hholds

theorem Inv.step {c : RelayConn β} (h : Inv bson enabled w c) (hio : io.Documented bson)
    (sockets : Sockets) :
    ∃ c', Inv bson enabled (w.step enabled sockets) c' := by
  obtain ⟨phase, s, log⟩ := c
  cases phase with
  | reading => exact h.step_reading hio sockets
  | calling f =>
    obtain ⟨req, ff, stage⟩ := f
    cases stage with
    | locking => exact h.step_locking sockets
    | sending => exact h.step_writing hio sockets
  | replying t =>
    cases t with
    | done => exact h.step_done sockets
    | streaming => exact h.step_streaming hio sockets
  | sending t resp => exact h.step_sending hio sockets
  | closed result =>
    have hphase : w.conn.phase = .closed result := by
      rw [h.conn]
      rfl
    simp only [WireConn.step, hphase]
    exact ⟨_, h⟩

end

theorem inv_start (hio : io.Documented bson) (s : ProxyClientInner) :
    Inv bson enabled (WireConn.start io s) (Conn.start s) := by
  have htracks := FramedReader.tracks_start hio.reader (WireDecoder.decode_implements bson)
  have hwrites : Writes bson false io.writer.new [] [] none := by
    have hholds : io.writer.Holds (frameOf bson) (encoded bson []) none io.writer.new :=
      FramedWriter.holds_start hio.writer
    refine ⟨⟨[], List.prefix_rfl, List.forall_mem_nil _, ?_⟩, fun _ => List.forall_mem_nil _,
      fun _ => hholds⟩
    simp [hholds.rest.2.2]
  exact ⟨rfl, Stack.inv_start s, reads_of_tracks htracks, reads_of_tracks htracks, hwrites, hwrites,
    fun hok => by cases hok⟩

theorem inv_run (hio : io.Documented bson) (enabled : Bool) (s : ProxyClientInner)
    (schedule : List Sockets) :
    ∃ c, Inv bson enabled ((WireConn.start io s).run enabled schedule) c := by
  suffices h : ∀ (w : WireConn io) (c : RelayConn β), Inv bson enabled w c →
      ∃ c', Inv bson enabled (w.run enabled schedule) c' from h _ _ (inv_start hio s)
  induction schedule with
  | nil => exact fun w c h => ⟨c, h⟩
  | cons sockets schedule ih =>
    intro w c h
    obtain ⟨c', h'⟩ := h.step hio sockets
    exact ih _ _ h'

end Wire

end MongodProxy
