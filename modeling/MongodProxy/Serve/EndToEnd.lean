import MongodProxy.Forwarding
import MongodProxy.Serve.Wire

/-!
# From one end of a connection to the other

What the server makes of the bytes the proxy writes to it, against what the client sent, and
the same for the replies on the way back. The two ends read with a decoder of the same kind;
nothing is assumed about the bytes they send.
-/

namespace MongodProxy
open Framing

variable {β : Type} {bson : BsonCodec β}

/-! ### Frames that carry a message -/

/- What is cut off a stream stands for itself. -/
theorem carries_of_cut {w t : Bytes} {m : Message}
    (h : (wireFramer bson).cut (w ++ t) = .frame w.length (.ok m)) :
    (wireFramer bson).Carries w m := by
  obtain ⟨header, hh, hlen, -, hres⟩ := wireCut_frame bson h
  have hge := header.messageLength.asUsize_ge
  have hsize : MessageHeader.size ≤ w.length := by
    rw [hlen, MessageHeader.size]
    exact hge
  rw [MessageHeader.fromBytes_append w t hsize] at hh
  show wireCut bson w = _
  rw [wireCut_of_frame bson hh (Nat.le_of_eq hlen.symm), ← hlen, List.take_length, hres,
    List.take_left]

theorem decode_of_carries {w : Bytes} {m : Message}
    (h : (wireFramer bson).Carries w m) :
    WireDecoder.decode bson .default w = (.ok (some m), .default, []) := by
  have himp := WireDecoder.decode_implements bson
  rw [himp.frame _ w _ _ (himp.fresh_inv w) h, List.drop_length]
  rfl

theorem carries_of_decode {w : Bytes} {m : Message}
    (h : WireDecoder.decode bson .default w = (.ok (some m), .default, [])) :
    (wireFramer bson).Carries w m := by
  obtain ⟨header, hh, hlen, hm⟩ := WireDecoder.decode_default_eq_ok bson h
  show wireCut bson w = _
  rw [wireCut_of_frame bson hh (Nat.le_of_eq hlen.symm), ← hlen, List.take_length, hm]
  rfl

/- The body behind the header of a frame that was written. -/
theorem Message.fromBytes_of_frame (hb : bson.ReadsBack) {m : Message} {w : Bytes}
    (hself : m.operation.ReadsAsItself) (h : m.frame bson = .ok w) :
    Message.fromBytes bson w = .ok m := by
  obtain ⟨hflags, hcontent, hderived⟩ := hself
  obtain ⟨requestId, responseTo, operation⟩ := m
  rw [Message.frame, Outcome.mapError_eq_ok] at h
  cases operation with
  | message m =>
    simp only [Operation.frame, Outcome.mapError_eq_ok] at h
    obtain ⟨len, ss, hss, hlen, rfl⟩ := OperationMessage.frame_eq_ok h
    rw [Message.fromBytes_writeBytes_header ⟨len, requestId, responseTo, .msg⟩ _ hlen]
    have hbody := OperationMessage.fromBytes_body hb m ss hss hflags hcontent
    simp only [Operation.fromBytes, hbody, Outcome.mapErr_ok, Outcome.ok_bind, Outcome.pure_eq_ok]
    have heq := Operation.message.inj hderived
    simp only [heq]
  | query q =>
    simp only [Operation.frame, Outcome.mapError_eq_ok] at h
    obtain ⟨len, name, query, selector, hname, hquery, hselector, hlen, rfl⟩ :=
      OperationQuery.frame_eq_ok h
    rw [Message.fromBytes_writeBytes_header ⟨len, requestId, responseTo, .query⟩ _ hlen]
    have hbody :=
      OperationQuery.fromBytes_body hb q name query selector hname hquery hselector hflags
    simp only [Operation.fromBytes, hbody, Outcome.mapErr_ok, Outcome.ok_bind, Outcome.pure_eq_ok]
  | reply r =>
    simp only [Operation.frame, Outcome.mapError_eq_ok] at h
    obtain ⟨len, count, docs, hcount, hdocs, hlen, rfl⟩ := OperationReply.frame_eq_ok h
    rw [Message.fromBytes_writeBytes_header ⟨len, requestId, responseTo, .reply⟩ _ hlen]
    have hbody := OperationReply.fromBytes_body hb r count docs hcount hdocs hflags
    simp only [Operation.fromBytes, hbody, Outcome.mapErr_ok, Outcome.ok_bind, Outcome.pure_eq_ok]

theorem carries_of_frame (hb : bson.ReadsBack) {m : Message} {w : Bytes}
    (hself : m.operation.ReadsAsItself) (h : m.frame bson = .ok w) :
    (wireFramer bson).Carries w m :=
  carries_of_decode (WireDecoder.decode_of_fromBytes (Message.fromBytes_of_frame hb hself h)
    (Message.frame_selfDelimiting h).1)

/- Every message a decoder yields. -/
theorem readsAsItself_of_carries {w : Bytes} {m : Message} (h : (wireFramer bson).Carries w m) :
    m.operation.ReadsAsItself := by
  obtain ⟨header, -, -, hop, -⟩ := WireDecoder.decode_default_operation bson (decode_of_carries h)
  exact Operation.readsAsItself_of_fromBytes hop

/- Without its topology fields it still does. -/
theorem Operation.ReadsAsItself.strip {op : Operation} (h : op.ReadsAsItself) :
    (stripTopologyFromOperation op).ReadsAsItself := by
  obtain ⟨hflags, hcontent, hderived⟩ := h
  cases op with
  | query q => exact ⟨hflags, trivial, rfl⟩
  | reply r => exact ⟨hflags, trivial, rfl⟩
  | message om =>
    refine ⟨hflags, ?_, ?_⟩
    · rcases hcontent with hne | hsum
      · left
        simpa [stripTopologyFromOperation] using hne
      · exact Or.inr hsum
    · have hflags' := congrArg OperationMessage.flags (Operation.message.inj hderived)
      show Operation.message _ = Operation.message _
      simp only at hflags'
      rw [hflags']

/-! ### Both ends of a connection -/

namespace Wire

/-- A connection to a `Proxy` after the steps of the schedule, from a fresh start. -/
def connectionAfter (io : FramedIo β) (enabled : Bool) (s : ProxyClientInner)
    (schedule : List Sockets) : WireConn io :=
  (WireConn.start io s).run enabled schedule

/- The messages in the bytes that went through a socket. -/
def messagesIn (bson : BsonCodec β) (bs : Bytes) : List Message := ((wireFramer bson).scan bs).items

theorem scan_encoded (hb : bson.ReadsBack) {ms : List Message} (hframed : Framed bson ms)
    (h : ∀ m ∈ ms, m.operation.ReadsAsItself) :
    (wireFramer bson).scan (encoded bson ms) = ⟨ms, none, []⟩ := by
  refine Framer.scan_flatMap rfl _ ms ?_
  intro m hm
  obtain ⟨w, hw⟩ := hframed m hm
  rw [frameOf, Outcome.mapError_eq_ok] at hw
  simp only [hw]
  exact carries_of_frame hb (h m hm) hw

theorem readsAsItself_of_messagesIn {bs : Bytes} {m : Message} (h : m ∈ messagesIn bson bs) :
    m.operation.ReadsAsItself := by
  rw [messagesIn, ← ((wireFramer bson).frames_scan bs).1] at h
  obtain ⟨p, hp, rfl⟩ := List.mem_map.mp h
  obtain ⟨t, hcut⟩ := Framer.frames_cut bs p hp
  exact readsAsItself_of_carries (carries_of_cut hcut)

theorem readFor_snd (cur : Option Message) (log : Relay.Log) :
    (Stack.during Stack.pickRead cur log).map Prod.snd = Relay.readOf log := by
  induction log generalizing cur with
  | nil => rfl
  | cons e log ih =>
    cases e with
    | decoded req => exact ih (some req)
    | service e =>
      cases e with
      | wrote req => exact ih cur
      | read reply => exact congrArg (reply :: ·) (ih cur)
    | given reply => exact ih cur
    | sent reply => exact ih cur

/- What can be read of a stream that ends inside the frames of some messages. -/
theorem scan_within (hb : bson.ReadsBack) {ms : List Message}
    (h : ∀ m ∈ ms, m.operation.ReadsAsItself) {bs : Bytes} (hbs : Within bson ms bs) :
    messagesIn bson bs <+: ms ∧ ((wireFramer bson).scan bs).stop = none := by
  obtain ⟨front, hfront, hframed, hpart⟩ := hbs
  have hscan := scan_encoded hb hframed fun m hm => h m (hfront.subset hm)
  constructor
  · have hitems := Framer.scan_items_mono (F := wireFramer bson) hpart
    rw [hscan] at hitems
    exact hitems.trans hfront
  · exact Framer.scan_stop_mono hpart (by rw [hscan])

theorem readsAsItself_due (enabled : Bool) {log : Relay.Log}
    (h : ∀ m ∈ Relay.readOf log, m.operation.ReadsAsItself) :
    ∀ m ∈ due enabled log, m.operation.ReadsAsItself := by
  intro m hm
  obtain ⟨q, hq, rfl⟩ := List.mem_map.mp hm
  obtain ⟨p, hp, rfl⟩ := List.mem_map.mp hq
  have hread : p.2 ∈ Relay.readOf log := by
    rw [← readFor_snd none log]
    exact List.mem_map_of_mem hp
  have hself := h p.2 hread
  simp only [Stack.rewriteReply]
  split
  · exact hself.strip
  · exact hself

/-- Whatever bytes the two ends send, in whatever chunks and with whatever failures: the server
reads in what the proxy writes a beginning of the client's messages, the client in what it
gets a beginning of the server's replies as the rewrite leaves them, and neither ever meets
a frame that does not parse. If the connection ends without an error, the client stopped
between two messages, the server was written all of them and the client every reply. -/
theorem ends_agree {io : FramedIo β} (hio : io.Documented bson) (hb : bson.ReadsBack)
    (enabled : Bool) (s : ProxyClientInner) (schedule : List Sockets) :
    messagesIn bson (io.writer.written (connectionAfter io enabled s schedule).toUpstream)
        <+: messagesIn bson (io.reader.received (connectionAfter io enabled s schedule).fromClient) ∧
      ((wireFramer bson).scan
        (io.writer.written (connectionAfter io enabled s schedule).toUpstream)).stop = none ∧
      messagesIn bson (io.writer.written (connectionAfter io enabled s schedule).toClient)
        <+: ((Stack.readFor (connectionAfter io enabled s schedule).conn.log).map
          (Stack.rewriteReply enabled)).map Prod.snd ∧
      (Stack.readFor (connectionAfter io enabled s schedule).conn.log).map Prod.snd
        <+: messagesIn bson
          (io.reader.received (connectionAfter io enabled s schedule).fromUpstream) ∧
      ((wireFramer bson).scan
        (io.writer.written (connectionAfter io enabled s schedule).toClient)).stop = none ∧
      ((connectionAfter io enabled s schedule).conn.phase = .closed (.ok ()) →
        (wireFramer bson).scan
            (io.reader.received (connectionAfter io enabled s schedule).fromClient)
          = ⟨messagesIn bson (io.writer.written (connectionAfter io enabled s schedule).toUpstream),
              none, []⟩ ∧
        messagesIn bson (io.writer.written (connectionAfter io enabled s schedule).toClient)
          = ((Stack.readFor (connectionAfter io enabled s schedule).conn.log).map
            (Stack.rewriteReply enabled)).map Prod.snd) := by
  obtain ⟨c, h⟩ : ∃ c, Inv bson enabled (connectionAfter io enabled s schedule) c :=
    inv_run hio enabled s schedule
  generalize connectionAfter io enabled s schedule = w at h
  have hlog : Stack.readFor w.conn.log = Stack.readFor c.log := by
    rw [h.conn]
    exact (Stack.rewrittenLog_upstream (β := β) enabled c.log).2.2
  have hrequests : ∀ m ∈ Relay.decodedOf c.log, m.operation.ReadsAsItself := fun m hm =>
    readsAsItself_of_messagesIn (h.fromClient.front.subset hm)
  have hreplies : ∀ m ∈ Relay.readOf c.log, m.operation.ReadsAsItself := fun m hm =>
    readsAsItself_of_messagesIn (h.fromUpstream.front.subset hm)
  have hrewritten := readsAsItself_due enabled hreplies
  obtain ⟨hup, hupStop⟩ := scan_within hb hrequests h.toUpstream.within
  obtain ⟨hdown, hdownStop⟩ := scan_within hb hrewritten h.toClient.within
  rw [hlog]
  refine ⟨hup.trans h.fromClient.front, hupStop, hdown, ?_, hdownStop, ?_⟩
  · have hsnd := readFor_snd none c.log
    rw [Stack.readFor, hsnd]
    exact h.fromUpstream.front
  · intro hclosed
    rw [h.conn] at hclosed
    have hphase : c.phase = .closed (.ok ()) := by
      obtain ⟨phase, s', log⟩ := c
      cases phase with
      | closed result => exact congrArg LoopPhase.closed (LoopPhase.closed.inj hclosed)
      | reading => cases hclosed
      | calling f => cases hclosed
      | replying t => cases hclosed
      | sending t resp => cases hclosed
    obtain ⟨hscan, ⟨hupFramed, hupWritten⟩, hdownFramed, hdownWritten⟩ := h.ended hphase
    constructor
    · rw [hscan, hupWritten, messagesIn, scan_encoded hb hupFramed hrequests]
    · rw [hdownWritten, messagesIn, scan_encoded hb hdownFramed hrewritten]
      rfl

/-! ### A connection with one request -/

/- A peek at what was peeked at gives the same header. -/
theorem peekHeader_again {d peeked : WireDecoder} {buf : Bytes}
    (h : (d.peekHeader buf : Outcome (WireDecoderError β) WireDecoder) = .ok peeked) :
    (peeked.peekHeader buf : Outcome (WireDecoderError β) WireDecoder) = .ok peeked := by
  cases hnext : peeked.nextHeader with
  | some header => simp only [WireDecoder.peekHeader, hnext]
  | none =>
    -- a header that is read is cached, so none was cached before either
    have hsame : peeked = d := by
      unfold WireDecoder.peekHeader at h
      split at h
      · exact (Except.ok.inj h).symm
      · split at h
        · cases h
          cases hnext
        · exact (Except.ok.inj h).symm
        · cases h
        · cases h
        · cases h
        · cases h
    rw [hsame] at h ⊢
    exact h

/- With a header cached, or too little for one, the decoder leaves everything as it is. -/
theorem decode_settles (bson : BsonCodec β) : Settles (WireDecoder.decode bson) := by
  intro d buf d' buf' h
  simp only [WireDecoder.decode] at h
  cases hpeek : (d.peekHeader buf : Outcome (WireDecoderError β) WireDecoder) with
  | error e =>
    rw [hpeek] at h
    cases h
  | ok peeked =>
    have hagain := peekHeader_again hpeek
    rw [hpeek] at h
    cases hnext : peeked.nextHeader with
    | none =>
      simp only [hnext] at h
      cases h
      simp only [WireDecoder.decode, hagain, hnext]
    | some header =>
      simp only [hnext] at h
      by_cases hshort : buf.length < header.messageLength.asUsize
      · rw [if_pos hshort] at h
        cases h
        simp only [WireDecoder.decode, hagain, hnext, if_pos hshort]
      · rw [if_neg hshort] at h
        obtain ⟨hnone, -⟩ := Prod.mk.inj h
        cases hm : Outcome.mapErr WireDecoderError.messageParse
            (Message.fromHeadersAndBytes bson header (buf.take header.messageLength.asUsize)) with
        | error e =>
          rw [hm] at hnone
          cases hnone
        | ok m =>
          rw [hm] at hnone
          cases hnone

/- A reader and a writer that do what is documented. -/
def framedIo (bson : BsonCodec β) : FramedIo β where
  reader := FramedRead.reader (WireDecoder.decode bson) (.err .ioError) (.err .ioError)
  writer := FramedWrite.writer (fun m dst => (WireEncoder.encode bson m).exec dst) .ioError

theorem framedIo_documented (bson : BsonCodec β) : (framedIo bson).Documented bson :=
  ⟨FramedRead.reader_documented _ _ (decode_settles bson) .default,
    FramedWrite.writer_documented _ _⟩

/- A request and a reply with empty documents. -/
def pingFrame : Bytes :=
  [0x1A, 0, 0, 0, 1, 0, 0, 0, 0, 0, 0, 0, 0xDD, 7, 0, 0, 0, 0, 0, 0, 0, 5, 0, 0, 0, 0]

def pongFrame : Bytes :=
  [0x1A, 0, 0, 0, 9, 0, 0, 0, 1, 0, 0, 0, 0xDD, 7, 0, 0, 0, 0, 0, 0, 0, 5, 0, 0, 0, 0]

/- The request arrives in two chunks and is taken by the upstream socket in two parts; the
reply goes back, and the client leaves. -/
def pingSchedule : List Sockets :=
  [⟨false, [.chunk 0x1A [0, 0, 0, 1, 0, 0]], [], [], []⟩,
    ⟨false, [.chunk 0 (pingFrame.drop 8)], [], [], []⟩,
    ⟨true, [], [], [], []⟩,
    ⟨false, [], [], [], [.accept 2]⟩,
    ⟨false, [], [], [], [.accept 63]⟩,
    ⟨false, [], [], [.chunk 0x1A (pongFrame.drop 1)], []⟩,
    ⟨false, [], [.accept 9, .accept 63], [], []⟩,
    ⟨false, [], [], [], []⟩,
    ⟨false, [.eof], [], [], []⟩]

theorem pingSchedule_ends_agree :
    (framedIo BsonCodec.emptyOnly).writer.written
        (connectionAfter (framedIo BsonCodec.emptyOnly) true ⟨false⟩ pingSchedule).toUpstream
      = pingFrame ∧
    (framedIo BsonCodec.emptyOnly).writer.written
        (connectionAfter (framedIo BsonCodec.emptyOnly) true ⟨false⟩ pingSchedule).toClient
      = pongFrame ∧
    (wireFramer BsonCodec.emptyOnly).scan ((framedIo BsonCodec.emptyOnly).reader.received
        (connectionAfter (framedIo BsonCodec.emptyOnly) true ⟨false⟩ pingSchedule).fromClient)
      = ⟨messagesIn BsonCodec.emptyOnly pingFrame, none, []⟩ := by
  have hwritten : (framedIo BsonCodec.emptyOnly).writer.written
      (connectionAfter (framedIo BsonCodec.emptyOnly) true ⟨false⟩ pingSchedule).toUpstream
        = pingFrame := rfl
  have hagree := ends_agree (framedIo_documented BsonCodec.emptyOnly)
    BsonCodec.emptyOnly_readsBack true ⟨false⟩ pingSchedule
  obtain ⟨hclosed, -⟩ := hagree.2.2.2.2.2 rfl
  rw [hwritten] at hclosed
  exact ⟨hwritten, rfl, hclosed⟩

/-! ### Byte for byte -/

end Wire

end MongodProxy
