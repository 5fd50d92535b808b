import MongodProxy.Serve.EndToEnd

/-!
# What a connection holds in memory

The accept loop reads a request only when the one before is answered, and takes a reply from
the upstream only when the one before is sent; a decoder refuses a header that announces
more than 48 MiB before the frame behind it arrives, and no longer frame is written. So,
whatever the two ends send, none of the four buffers of a connection holds more than a frame
and, on the way in, the chunk that completed it.
-/

namespace MongodProxy
open Framing

namespace Wire

variable {β : Type} {bson : BsonCodec β} {io : FramedIo β} {enabled : Bool}

/-- The longest frame the decoder takes and `write_bytes` writes. -/
def maxFrame : ℕ := 48 * 1024 * 1024

theorem wireFramer_wait {bs : Bytes} (h : (wireFramer bson).cut bs = .wait) :
    bs.length < maxFrame := by
  have hcut : wireCut bson bs = .wait := h
  unfold wireCut at hcut
  unfold maxFrame
  by_cases hsize : bs.length < MessageHeader.size
  · rw [MessageHeader.size] at hsize
    omega
  · rw [if_neg hsize] at hcut
    cases hh : MessageHeader.fromBytes bs with
    | error e =>
      rw [hh] at hcut
      cases hcut
    | ok header =>
      rw [hh] at hcut
      have hmax := header.messageLength.asUsize_le
      by_cases hlen : bs.length < header.messageLength.asUsize
      · omega
      · simp only [if_neg hlen] at hcut
        cases hcut

theorem frameOf_length_le {m : Message} {bs : Bytes} (h : frameOf bson m = .ok bs) :
    bs.length ≤ maxFrame := by
  rw [frameOf, Outcome.mapError_eq_ok] at h
  obtain ⟨-, -, -, hmax, -⟩ := Message.frame_selfDelimiting h
  exact hmax

/-! ### One step -/

/- No read of a socket gives more than `n` bytes. -/
def Sockets.Within (n : ℕ) (sockets : Sockets) : Prop :=
  ∀ b bs, .chunk b bs ∈ sockets.clientReads ∨ .chunk b bs ∈ sockets.upstreamReads →
    (b :: bs).length ≤ n

structure Buffers (n : ℕ) (w : WireConn io) : Prop where
  fromClient : (io.reader.buffer w.fromClient).length < maxFrame + n
  fromUpstream : (io.reader.buffer w.fromUpstream).length < maxFrame + n
  toClient : (io.writer.buffer w.toClient).length ≤ maxFrame
  toUpstream : (io.writer.buffer w.toUpstream).length ≤ maxFrame

theorem buffers_start (hio : io.Documented bson) (n : ℕ) (s : ProxyClientInner) :
    Buffers n (WireConn.start io s) := by
  have hread : (io.reader.buffer (io.reader.new .default)).length < maxFrame + n := by
    rw [hio.reader.new_buffer, List.length_nil]
    unfold maxFrame
    omega
  have hwrite : (io.writer.buffer io.writer.new).length ≤ maxFrame := by
    rw [hio.writer.new_buffer]
    exact Nat.zero_le maxFrame
  exact ⟨hread, hread, hwrite, hwrite⟩

theorem pollNext_buffer_lt (hio : io.Documented bson) {n : ℕ} {reads : List (SocketRead UInt8)}
    (hreads : ∀ b bs, .chunk b bs ∈ reads → (b :: bs).length ≤ n) {r : io.reader.State}
    {items : List Message}
    (htracks : io.reader.Tracks (wireFramer bson) WireDecoder.Fits .default r items)
    (h : (io.reader.buffer r).length < maxFrame + n) :
    (io.reader.buffer (io.reader.pollNext reads r).2).length < maxFrame + n :=
  FramedReader.poll_buffer_lt hio.reader (WireDecoder.decode_implements bson)
    (fun _ hwait => wireFramer_wait hwait) reads hreads r items htracks h

theorem send_buffer_le (hio : io.Documented bson) {m : Message} {done : Bytes}
    {s : io.writer.State} (answers : List SocketWrite)
    (h : io.writer.Holds (frameOf bson) done (some m) s) :
    (io.writer.buffer (io.writer.send m answers s).2).length ≤ maxFrame :=
  FramedWriter.send_buffer_le hio.writer (encodesBy_frameOf bson)
    (fun _ hbs => frameOf_length_le hbs) answers h

section
variable {n : ℕ} {w : WireConn io} {s : ProxyClientInner} {log : Relay.Log} {sockets : Sockets}

theorem Buffers.step_reading (h : Buffers n w) (hio : io.Documented bson)
    (hinv : Inv bson enabled w ⟨.reading, s, log⟩) (hwithin : sockets.Within n) :
    Buffers n (w.step enabled sockets) := by
  have hphase : w.conn.phase = .reading := by
    rw [hinv.conn]
    rfl
  have hbuf := pollNext_buffer_lt hio (fun b bs hbs => hwithin b bs (Or.inl hbs))
    (hinv.fromClient.tracks rfl) h.fromClient
  simp only [WireConn.step, hphase]
  cases returned (io.reader.pollNext sockets.clientReads w.fromClient).1 with
  | none => exact h
  | some next => exact ⟨hbuf, h.fromUpstream, h.toClient, h.toUpstream⟩

theorem Buffers.step_streaming (h : Buffers n w) (hio : io.Documented bson)
    (hinv : Inv bson enabled w ⟨.replying .streaming, s, log⟩) (hwithin : sockets.Within n) :
    Buffers n (w.step enabled sockets) := by
  obtain ⟨g, hphase⟩ : ∃ g, w.conn.phase = .replying ⟨.streaming, g⟩ :=
    ⟨_, by rw [hinv.conn]; rfl⟩
  have hbuf := pollNext_buffer_lt hio (fun b bs hbs => hwithin b bs (Or.inr hbs))
    (hinv.fromUpstream.tracks rfl) h.fromUpstream
  simp only [WireConn.step, hphase]
  cases returned (io.reader.pollNext sockets.upstreamReads w.fromUpstream).1 with
  | none => exact h
  | some read => exact ⟨h.fromClient, hbuf, h.toClient, h.toUpstream⟩

theorem Buffers.step_writing {req : Message} {ff : Bool} (h : Buffers n w)
    (hio : io.Documented bson) (hinv : Inv bson enabled w ⟨.calling ⟨req, ff, .sending⟩, s, log⟩) :
    Buffers n (w.step enabled sockets) := by
  obtain ⟨g, hphase⟩ : ∃ g, w.conn.phase = .calling ⟨⟨req, ff, .sending⟩, g⟩ :=
    ⟨_, by rw [hinv.conn]; rfl⟩
  have hbuf := send_buffer_le hio sockets.upstreamWrites (hinv.toUpstream.holds rfl)
  simp only [WireConn.step, hphase]
  exact ⟨h.fromClient, h.fromUpstream, h.toClient, hbuf⟩

theorem Buffers.step_sending {t : ProxyResponseStream} {resp : Message} (h : Buffers n w)
    (hio : io.Documented bson) (hinv : Inv bson enabled w ⟨.sending t resp, s, log⟩) :
    Buffers n (w.step enabled sockets) := by
  have hserved := served_sending (β := β) enabled t resp s log
  have hphase := (congrArg Conn.phase hinv.conn).trans hserved
  have hto := hinv.toClient
  rw [hserved] at hto
  have hbuf := send_buffer_le hio sockets.clientWrites (hto.holds rfl)
  simp only [WireConn.step, hphase]
  exact ⟨h.fromClient, h.fromUpstream, hbuf, h.toUpstream⟩

end

theorem Buffers.step (hio : io.Documented bson) {n : ℕ} {w : WireConn io} {c : RelayConn β}
    (h : Buffers n w) (hinv : Inv bson enabled w c) {sockets : Sockets}
    (hwithin : sockets.Within n) : Buffers n (w.step enabled sockets) := by
  obtain ⟨phase, s, log⟩ := c
  cases phase with
  | reading => exact h.step_reading hio hinv hwithin
  | calling f =>
    obtain ⟨req, ff, stage⟩ := f
    cases stage with
    | locking =>
      obtain ⟨g, hphase⟩ : ∃ g, w.conn.phase = .calling ⟨⟨req, ff, .locking⟩, g⟩ :=
        ⟨_, by rw [hinv.conn]; rfl⟩
      simp only [WireConn.step, hphase]
      exact ⟨h.fromClient, h.fromUpstream, h.toClient, h.toUpstream⟩
    | sending => exact h.step_writing hio hinv
  | replying t =>
    cases t with
    | done =>
      obtain ⟨g, hphase⟩ : ∃ g, w.conn.phase = .replying ⟨.done, g⟩ := ⟨_, by rw [hinv.conn]; rfl⟩
      simp only [WireConn.step, hphase]
      exact ⟨h.fromClient, h.fromUpstream, h.toClient, h.toUpstream⟩
    | streaming => exact h.step_streaming hio hinv hwithin
  | sending t resp => exact h.step_sending hio hinv
  | closed result =>
    have hphase : w.conn.phase = .closed result := by
      rw [hinv.conn]
      rfl
    simp only [WireConn.step, hphase]
    exact h

/-- As long as no read of a socket gives more than `n` bytes, a connection never holds more than
48 MiB and `n` bytes in each of its read buffers and 48 MiB in each of its write buffers, whatever
the two ends send and however fast they are. -/
theorem buffers_bounded (hio : io.Documented bson) (enabled : Bool) (s : ProxyClientInner) (n : ℕ)
    (schedule : List Sockets) (hwithin : ∀ sockets ∈ schedule, sockets.Within n) :
    (io.reader.buffer (connectionAfter io enabled s schedule).fromClient).length
        < 48 * 1024 * 1024 + n ∧
      (io.reader.buffer (connectionAfter io enabled s schedule).fromUpstream).length
        < 48 * 1024 * 1024 + n ∧
      (io.writer.buffer (connectionAfter io enabled s schedule).toClient).length
        ≤ 48 * 1024 * 1024 ∧
      (io.writer.buffer (connectionAfter io enabled s schedule).toUpstream).length
        ≤ 48 * 1024 * 1024 := by
  suffices h : ∀ (w : WireConn io) (c : RelayConn β), Inv bson enabled w c → Buffers n w →
      Buffers n (w.run enabled schedule) by
    have hfinal : Buffers n (connectionAfter io enabled s schedule) :=
      h _ _ (inv_start hio s) (buffers_start hio n s)
    exact ⟨hfinal.fromClient, hfinal.fromUpstream, hfinal.toClient, hfinal.toUpstream⟩
  induction schedule with
  | nil => exact fun w c _ h => h
  | cons sockets schedule ih =>
    intro w c hinv h
    have hstep := h.step hio hinv (hwithin sockets (List.mem_cons_self ..))
    obtain ⟨c', hinv'⟩ := hinv.step hio sockets
    exact ih (fun _ hmem => hwithin _ (List.mem_cons_of_mem _ hmem)) _ c' hinv' hstep

/- With the first chunk of the request in the buffer. -/
theorem pingSchedule_buffers :
    ((framedIo BsonCodec.emptyOnly).reader.buffer (connectionAfter (framedIo BsonCodec.emptyOnly) true
        ⟨false⟩ (pingSchedule.take 1)).fromClient).length = 7 ∧
      ((framedIo BsonCodec.emptyOnly).reader.buffer (connectionAfter (framedIo BsonCodec.emptyOnly)
        true ⟨false⟩ (pingSchedule.take 1)).fromClient).length < 48 * 1024 * 1024 + 7 := by
  have hwithin : ∀ sockets ∈ pingSchedule.take 1, sockets.Within 7 := by
    simp [pingSchedule, Sockets.Within]
  have hbounded := buffers_bounded (framedIo_documented BsonCodec.emptyOnly) true ⟨false⟩ 7
    (pingSchedule.take 1) hwithin
  exact ⟨rfl, hbounded.1⟩

end Wire

end MongodProxy
