import MongodProxy.Lib.Framing
import MongodProxy.Message

/-!
# The streaming decoder (decoder.rs)

`WireDecoder` caches a header that has been read while the rest of its frame is
still on the way. `wireFramer` is the same cut of the stream without a cache; the
decoder implements it as long as a cached header is the one the buffer starts
with, and that holds in every state it can reach.
-/

namespace MongodProxy
open Framing

structure WireDecoder where
  nextHeader : Option MessageHeader
  deriving DecidableEq, Repr

inductive WireDecoderError (β : Type) where
  | ioError
  | invalidOpcode (e : OPCodeParseError)
  | messageParse (e : MessageAndHeaderParseError β)
  | invalidMessageLength (e : MessageLengthError)

variable {β : Type} (bson : BsonCodec β)

namespace WireDecoder

/-- `WireDecoder::default`. -/
def default : WireDecoder := ⟨none⟩

/- The first step of `decode`: a header is read unless one is cached. -/
def peekHeader (d : WireDecoder) (buf : Bytes) : Outcome (WireDecoderError β) WireDecoder :=
  match d.nextHeader with
  | some _ => .ok d
  | none =>
    match MessageHeader.fromBytes buf with
    | .ok header => .ok ⟨some header⟩
    | .error (.err (.tooFewBytes _)) => .ok d
    | .error (.err (.invalidOPCode e)) => Outcome.err (.invalidOpcode e)
    | .error (.err (.invalidMessageLength e)) => Outcome.err (.invalidMessageLength e)
    | .error .panic => .error .panic
    | .error .hang => .error .hang

/-- `WireDecoder::decode`: the answer, the decoder and the buffer afterwards. -/
def decode : Decode WireDecoder UInt8 Message (Outcome.Fail (WireDecoderError β)) := fun d buf =>
  match d.peekHeader buf with
  | .error e => (.error e, d, buf)
  | .ok d =>
    match d.nextHeader with
    | none => (.ok none, d, buf)
    | some header =>
      let frameLen := header.messageLength.asUsize
      if buf.length < frameLen then
        (.ok none, d, buf)
      else
        -- the header is taken out of the cache before the body is parsed
        let message := Outcome.mapErr .messageParse
          (Message.fromHeadersAndBytes bson header (buf.take frameLen))
        (message.map some, ⟨none⟩, buf.drop frameLen)

end WireDecoder

/-! ### The same cut without a cache -/

/- With 16 bytes at hand the first case does not arise. -/
def headerError : MessageHeaderParseError → WireDecoderError β
  | .tooFewBytes _ => .ioError
  | .invalidOPCode e => .invalidOpcode e
  | .invalidMessageLength e => .invalidMessageLength e

/-- Fewer than 16 bytes: wait. A bad header: give up. Fewer bytes than the header
announces: wait. Else the announced bytes are one message. -/
def wireCut (bs : Bytes) : Cut Message (Outcome.Fail (WireDecoderError β)) :=
  if bs.length < MessageHeader.size then .wait
  else
    match MessageHeader.fromBytes bs with
    | .error e => .reject (e.map headerError)
    | .ok header =>
      if bs.length < header.messageLength.asUsize then .wait
      else .frame header.messageLength.asUsize (Outcome.mapErr .messageParse
        (Message.fromHeadersAndBytes bson header (bs.take header.messageLength.asUsize)))

theorem wireCut_of_frame {bs : Bytes} {header : MessageHeader}
    (hh : MessageHeader.fromBytes bs = .ok header)
    (hlen : header.messageLength.asUsize ≤ bs.length) :
    wireCut bson bs = .frame header.messageLength.asUsize (Outcome.mapErr .messageParse
      (Message.fromHeadersAndBytes bson header (bs.take header.messageLength.asUsize))) := by
  have hs := MessageHeader.size_le_of_fromBytes _ _ hh
  unfold wireCut
  rw [if_neg (Nat.not_lt.mpr hs)]
  simp only [hh, if_neg (Nat.not_lt.mpr hlen)]

/-- All that the cut can say, with the reason for it. -/
theorem wireCut_cases (bs : Bytes) :
    wireCut bson bs = .wait ∨
      (MessageHeader.size ≤ bs.length ∧ ∃ e, MessageHeader.fromBytes bs = .error e ∧
        wireCut bson bs = .reject (e.map headerError)) ∨
      ∃ header, MessageHeader.fromBytes bs = .ok header ∧
        header.messageLength.asUsize ≤ bs.length ∧
        wireCut bson bs = .frame header.messageLength.asUsize (Outcome.mapErr .messageParse
          (Message.fromHeadersAndBytes bson header (bs.take header.messageLength.asUsize))) := by
  by_cases hs : bs.length < MessageHeader.size
  · left
    rw [wireCut, if_pos hs]
  cases hh : MessageHeader.fromBytes bs with
  | error e =>
    right
    left
    refine ⟨Nat.not_lt.mp hs, e, rfl, ?_⟩
    rw [wireCut, if_neg hs, hh]
  | ok header =>
    by_cases hlen : bs.length < header.messageLength.asUsize
    · left
      rw [wireCut, if_neg hs, hh]
      exact if_pos hlen
    · right
      right
      have hle := Nat.not_lt.mp hlen
      exact ⟨header, rfl, hle, wireCut_of_frame bson hh hle⟩

theorem wireCut_reject {bs : Bytes} {e : Outcome.Fail (WireDecoderError β)}
    (h : wireCut bson bs = .reject e) :
    MessageHeader.size ≤ bs.length ∧ ∃ e', MessageHeader.fromBytes bs = .error e' ∧
      e = e'.map headerError := by
  obtain hcut | ⟨hs, e', hh, hcut⟩ | ⟨header, -, -, hcut⟩ := wireCut_cases bson bs
  · rw [hcut] at h
    cases h
  · rw [hcut] at h
    cases h
    exact ⟨hs, e', hh, rfl⟩
  · rw [hcut] at h
    cases h

theorem wireCut_frame {bs : Bytes} {n : ℕ} {r : Outcome (WireDecoderError β) Message}
    (h : wireCut bson bs = .frame n r) :
    ∃ header, MessageHeader.fromBytes bs = .ok header ∧ n = header.messageLength.asUsize ∧
      n ≤ bs.length ∧ r = Outcome.mapErr .messageParse
        (Message.fromHeadersAndBytes bson header (bs.take n)) := by
  obtain hcut | ⟨-, e', -, hcut⟩ | ⟨header, hh, hle, hcut⟩ := wireCut_cases bson bs
  · rw [hcut] at h
    cases h
  · rw [hcut] at h
    cases h
  · rw [hcut] at h
    cases h
    exact ⟨header, hh, rfl, hle, rfl⟩

theorem wireCut_ne_reject_messageParse (bs : Bytes) (e : MessageAndHeaderParseError β) :
    wireCut bson bs ≠ .reject (.err (.messageParse e)) := by
  intro h
  obtain ⟨-, e', -, he⟩ := wireCut_reject bson h
  cases e' with
  | panic => cases he
  | hang => cases he
  | err e' => cases e' <;> simp [Outcome.Fail.map, headerError] at he

theorem messageParse_inj {x : Outcome (MessageAndHeaderParseError β) Message}
    {e : MessageAndHeaderParseError β}
    (h : Outcome.mapErr .messageParse x = .error (.err (WireDecoderError.messageParse e))) :
    x = Outcome.err e := by
  cases x with
  | ok m => cases h
  | error f =>
    cases f with
    | panic => cases h
    | hang => cases h
    | err e' =>
      cases h
      rfl

/-- What the cut says does not change when more bytes arrive. -/
def wireFramer : Framer UInt8 Message (Outcome.Fail (WireDecoderError β)) where
  cut := wireCut bson
  reject_append := by
    intro bs t e h
    obtain ⟨hs, e', hh, rfl⟩ := wireCut_reject bson h
    have hst : ¬ (bs ++ t).length < MessageHeader.size := by
      rw [List.length_append]
      omega
    unfold wireCut
    rw [if_neg hst, MessageHeader.fromBytes_append bs t hs, hh]
  frame_append := by
    intro bs t n r h
    obtain ⟨header, hh, rfl, hle, rfl⟩ := wireCut_frame bson h
    have hs := MessageHeader.size_le_of_fromBytes _ _ hh
    have hht : MessageHeader.fromBytes (bs ++ t) = .ok header := by
      rw [MessageHeader.fromBytes_append bs t hs, hh]
    have hlet : header.messageLength.asUsize ≤ (bs ++ t).length := by
      rw [List.length_append]
      omega
    rw [wireCut_of_frame bson hht hlet, List.take_append_of_le_length hle]
  frame_pos := by
    intro bs n r h
    obtain ⟨header, -, rfl, -, -⟩ := wireCut_frame bson h
    have := header.messageLength.asUsize_ge
    omega
  frame_le := by
    intro bs n r h
    obtain ⟨header, -, -, hle, -⟩ := wireCut_frame bson h
    exact hle

/-! ### The decoder implements the cut -/

/-- A cached header is the header the buffer starts with. -/
def WireDecoder.Fits (d : WireDecoder) (buf : Bytes) : Prop :=
  ∀ header, d.nextHeader = some header → MessageHeader.fromBytes buf = .ok header

theorem WireDecoder.Fits.append {d : WireDecoder} {buf : Bytes} (h : d.Fits buf) (t : Bytes) :
    d.Fits (buf ++ t) := by
  intro header hd
  have hh := h header hd
  rw [MessageHeader.fromBytes_append _ _ (MessageHeader.size_le_of_fromBytes _ _ hh), hh]

/- With 16 bytes in the buffer and a header in them, that header is the cached one afterwards. -/
theorem WireDecoder.peekHeader_ok {d : WireDecoder} {buf : Bytes} {header : MessageHeader}
    (hfit : d.Fits buf) (hh : MessageHeader.fromBytes buf = .ok header) :
    (d.peekHeader buf : Outcome (WireDecoderError β) WireDecoder) = .ok ⟨some header⟩ := by
  obtain ⟨cached⟩ := d
  cases cached with
  | none => simp only [peekHeader, hh]
  | some h' =>
    have hh' := hfit h' rfl
    rw [hh] at hh'
    rw [Except.ok.inj hh']
    rfl

theorem WireDecoder.decode_ok {d : WireDecoder} {buf : Bytes} {header : MessageHeader}
    (hfit : d.Fits buf) (hh : MessageHeader.fromBytes buf = .ok header) :
    decode bson d buf =
      if buf.length < header.messageLength.asUsize then (.ok none, ⟨some header⟩, buf)
      else ((Outcome.mapErr .messageParse (Message.fromHeadersAndBytes bson header
        (buf.take header.messageLength.asUsize))).map some, ⟨none⟩,
        buf.drop header.messageLength.asUsize) := by
  simp only [decode, peekHeader_ok hfit hh]

theorem WireDecoder.decode_implements :
    Implements (wireFramer bson) (decode bson) Fits default where
  fresh_inv := fun buf header h => by cases h
  append_inv := fun d buf t h => h.append t
  wait := by
    intro d buf hfit hc
    change wireCut bson buf = .wait at hc
    unfold wireCut at hc
    by_cases hs : buf.length < MessageHeader.size
    · obtain ⟨cached⟩ := d
      cases cached with
      | none =>
        refine ⟨⟨none⟩, ?_, hfit⟩
        simp only [decode, peekHeader, MessageHeader.fromBytes_of_lt buf hs, Outcome.err]
      | some h' =>
        have := MessageHeader.size_le_of_fromBytes _ _ (hfit h' rfl)
        omega
    · rw [if_neg hs] at hc
      cases hh : MessageHeader.fromBytes buf with
      | error e =>
        rw [hh] at hc
        cases hc
      | ok header =>
        simp only [hh] at hc
        have hlt : buf.length < header.messageLength.asUsize := by
          by_contra hlt
          rw [if_neg hlt] at hc
          cases hc
        refine ⟨⟨some header⟩, ?_, ?_⟩
        · rw [decode_ok bson hfit hh, if_pos hlt]
        · intro h' hd
          rw [← Option.some.inj hd]
          exact hh
  reject := by
    intro d buf e hfit hc
    obtain ⟨hs, e', hh, rfl⟩ := wireCut_reject bson hc
    obtain ⟨cached⟩ := d
    cases cached with
    | some h' =>
      have := hfit h' rfl
      rw [hh] at this
      cases this
    | none =>
      refine ⟨⟨none⟩, ?_⟩
      cases e' with
      | panic => simp only [decode, peekHeader, hh, Outcome.Fail.map]
      | hang => simp only [decode, peekHeader, hh, Outcome.Fail.map]
      | err e' =>
        cases e' with
        | tooFewBytes n =>
          rw [MessageHeader.fromBytes_of_le buf hs] at hh
          exact absurd hh (MessageHeader.ofFields_ne_tooFewBytes buf n)
        | invalidOPCode e' =>
          simp only [decode, peekHeader, hh, Outcome.Fail.map, headerError, Outcome.err]
        | invalidMessageLength e' =>
          simp only [decode, peekHeader, hh, Outcome.Fail.map, headerError, Outcome.err]
  frame := by
    intro d buf n r hfit hc
    obtain ⟨header, hh, rfl, hle, rfl⟩ := wireCut_frame bson hc
    rw [decode_ok bson hfit hh, if_neg (Nat.not_lt.mpr hle)]
    rfl

/-- However the bytes are cut into chunks, the decoder yields the messages of the whole
string and stops where and as the whole does. After a body error exactly the frame at
fault is gone, no header is cached, and decoding goes on with the bytes after it. -/
theorem WireDecoder.feed_chunks (chunks : List Bytes) :
    ∃ r, feed (decode bson) default [] chunks = some r ∧
      r.items = ((wireFramer bson).scan chunks.flatten).items ∧
      r.stop = ((wireFramer bson).scan chunks.flatten).stop ∧
      r.buf ++ r.unfed.flatten = ((wireFramer bson).scan chunks.flatten).rest ∧
      (r.stop = none → r.unfed = []) ∧
      ∀ e, r.stop = some (.err (.messageParse e)) →
        r.decoder = default ∧
        (∃ done frame header,
          chunks.flatten = done ++ (frame ++ (r.buf ++ r.unfed.flatten)) ∧
          MessageHeader.fromBytes frame = .ok header ∧
          frame.length = header.messageLength.asUsize ∧
          Message.fromHeadersAndBytes bson header frame = Outcome.err e) ∧
        ∃ r', feed (decode bson) r.decoder r.buf ([] :: r.unfed) = some r' ∧
          Agrees (wireFramer bson) default (r.buf ++ r.unfed.flatten) r' := by
  have himp := decode_implements bson
  obtain ⟨r, hr, ha⟩ := feed_scan himp chunks default [] (himp.fresh_inv []) (fun _ => rfl)
  rw [List.nil_append] at ha
  refine ⟨r, hr, ha.items, ha.stop, ha.rest, ha.fed, ?_⟩
  intro e he
  have hfresh : r.decoder = default := by
    rcases ha.failed _ he with hd | hc
    · exact hd
    · exact absurd hc (wireCut_ne_reject_messageParse bson r.buf e)
  refine ⟨hfresh, ?_, ?_⟩
  · obtain ⟨done, tail, hsplit, hend⟩ := (wireFramer bson).scan_stop (ha.stop ▸ he)
    rcases hend with ⟨hc, -⟩ | ⟨n, hc, hrest⟩
    · exact absurd hc (wireCut_ne_reject_messageParse bson tail e)
    · obtain ⟨header, hh, hn, hle, hres⟩ := wireCut_frame bson hc
      have hsize : MessageHeader.size ≤ (tail.take n).length := by
        rw [List.length_take, hn]
        have := header.messageLength.asUsize_ge
        simp only [MessageHeader.size]
        omega
      refine ⟨done, tail.take n, header, ?_, ?_, ?_, ?_⟩
      · rw [ha.rest, hrest, List.take_append_drop, hsplit]
      · have happ := MessageHeader.fromBytes_append (tail.take n) (tail.drop n) hsize
        rw [List.take_append_drop, hh] at happ
        exact happ.symm
      · rw [List.length_take, ← hn]
        omega
      · exact messageParse_inj hres.symm
  · obtain ⟨r', hr', ha'⟩ := feed_scan himp ([] :: r.unfed) r.decoder r.buf
      (by rw [hfresh]; exact himp.fresh_inv _) (fun h => by cases h)
    exact ⟨r', hr', ha'⟩

end MongodProxy
