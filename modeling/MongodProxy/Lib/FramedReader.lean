import MongodProxy.Lib.Framing
import MongodProxy.Lib.Service

/-!
# Framed readers

A framed reader owns a socket's reading half, a buffer and a decoder. It is a parameter here:
`FramedReader` says what can be called and seen, and `FramedReader.Documented` what it is
relied on for; `FramedRead` is one that does it. What the socket does during a poll is an
input, and the bytes that went through it are counted.
-/

namespace Framing

variable {α μ ε δ : Type}

/-! ### Frames and prefixes of a stream -/

namespace Framer

variable (F : Framer α μ ε)

/-- `w` is one whole frame, and `x` is in it. -/
def Carries (w : List α) (x : μ) : Prop := F.cut w = .frame w.length (.ok x)

variable {F}

theorem scan_carries {w : List α} {x : μ} (h : F.Carries w x) (t : List α) :
    F.scan (w ++ t) = (F.scan t).cons x := by
  rw [F.scan_frame_ok (F.frame_append w t _ _ h), List.drop_left]

/-- Whole frames one after the other are read as what is in them. -/
theorem scan_flatMap (hnil : F.cut [] = .wait) (write : μ → List α) (xs : List μ)
    (h : ∀ x ∈ xs, F.Carries (write x) x) : F.scan (xs.flatMap write) = ⟨xs, none, []⟩ := by
  induction xs with
  | nil => exact F.scan_wait hnil
  | cons x xs ih =>
    have hx := h x List.mem_cons_self
    have hxs := ih fun y hy => h y (List.mem_cons_of_mem _ hy)
    simp only [List.flatMap_cons, scan_carries hx, hxs, Scan.cons]

/-- What is read of a part of a stream is read of the whole, and first. -/
theorem scan_items_mono {a bs : List α} (h : a <+: bs) :
    (F.scan a).items <+: (F.scan bs).items := by
  obtain ⟨b, rfl⟩ := h
  cases hstop : (F.scan a).stop with
  | some e =>
    have hall := scan_append_stop F a b e hstop
    exact hall ▸ List.prefix_rfl
  | none =>
    rw [scan_append_quiet F a b hstop]
    exact List.prefix_append _ _

/-- A part of a stream without errors has none either. -/
theorem scan_stop_mono {a bs : List α} (h : a <+: bs) (hstop : (F.scan bs).stop = none) :
    (F.scan a).stop = none := by
  obtain ⟨b, rfl⟩ := h
  cases ha : (F.scan a).stop with
  | none => rfl
  | some e =>
    rw [scan_append_stop F a b e ha] at hstop
    cases hstop

/-- The frames a scan goes through, with what is in them. -/
def frames (F : Framer α μ ε) (bs : List α) : List (List α × μ) :=
  match _h : F.cut bs with
  | .wait => []
  | .reject _ => []
  | .frame _ (.error _) => []
  | .frame n (.ok x) => (bs.take n, x) :: frames F (bs.drop n)
termination_by bs.length
decreasing_by
  have hpos := F.frame_pos _ _ _ _h
  have hle := F.frame_le _ _ _ _h
  rw [List.length_drop]
  omega

theorem frames_eq (bs : List α) :
    F.frames bs = match F.cut bs with
      | .frame n (.ok x) => (bs.take n, x) :: F.frames (bs.drop n)
      | _ => [] := by
  rw [frames]
  split <;> simp_all

/-- The frames of a stream stand at its front, and they hold its items. -/
theorem frames_scan (bs : List α) :
    (F.frames bs).map Prod.snd = (F.scan bs).items ∧ ((F.frames bs).map Prod.fst).flatten <+: bs := by
  induction hk : bs.length using Nat.strongRecOn generalizing bs with
  | _ k ih =>
    rw [frames_eq]
    cases hc : F.cut bs with
    | wait =>
      rw [F.scan_wait hc]
      exact ⟨rfl, List.nil_prefix⟩
    | reject e =>
      rw [F.scan_reject hc]
      exact ⟨rfl, List.nil_prefix⟩
    | frame n res =>
      have hpos := F.frame_pos _ _ _ hc
      have hle := F.frame_le _ _ _ hc
      cases res with
      | error e =>
        rw [F.scan_frame_error hc]
        exact ⟨rfl, List.nil_prefix⟩
      | ok x =>
        rw [F.scan_frame_ok hc]
        have hlen : (bs.drop n).length < k := by
          rw [List.length_drop]
          omega
        obtain ⟨hitems, hfront⟩ := ih _ hlen (bs.drop n) rfl
        refine ⟨congrArg (x :: ·) hitems, ?_⟩
        have hsplit := List.take_append_drop n bs
        rw [List.map_cons, List.flatten_cons]
        conv_rhs => rw [← hsplit]
        exact List.prefix_append_right_inj _ |>.mpr hfront

/-- Each of them is cut off some stream as a whole. -/
theorem frames_cut (bs : List α) :
    ∀ p ∈ F.frames bs, ∃ t, F.cut (p.1 ++ t) = .frame p.1.length (.ok p.2) := by
  induction hk : bs.length using Nat.strongRecOn generalizing bs with
  | _ k ih =>
    rw [frames_eq]
    cases hc : F.cut bs with
    | wait => exact fun p hp => absurd hp List.not_mem_nil
    | reject e => exact fun p hp => absurd hp List.not_mem_nil
    | frame n res =>
      have hpos := F.frame_pos _ _ _ hc
      have hle := F.frame_le _ _ _ hc
      cases res with
      | error e => exact fun p hp => absurd hp List.not_mem_nil
      | ok x =>
        have hlen : (bs.drop n).length < k := by
          rw [List.length_drop]
          omega
        intro p hp
        rcases List.mem_cons.mp hp with rfl | hp
        · refine ⟨bs.drop n, ?_⟩
          rw [List.take_append_drop, List.length_take, Nat.min_eq_left hle]
          exact hc
        · exact ih _ hlen _ rfl p hp

end Framer

/-! ### Readers -/

/- What one read of a socket gives; a poll may read several times. A read without bytes is the
end of the stream. -/
inductive SocketRead (α : Type) where
  | chunk (b : α) (bs : List α)
  | eof
  | failed

/-- `received` is all that was read from the socket so far. The reads that a poll does not use are
left to the socket. -/
structure FramedReader (δ α μ ε : Type) where
  State : Type
  new : δ → State
  decoder : State → δ
  buffer : State → List α
  received : State → List α
  pollNext : List (SocketRead α) → State → Poll (Option (Except ε μ)) × State

namespace FramedReader

/- Neither an error nor the end. -/
def goesOn : Poll (Option (Except ε μ)) → Bool
  | .pending => true
  | .ready (some (.ok _)) => true
  | .ready (some (.error _)) => false
  | .ready none => false

/-- A new reader, polled until now without an error or the end of the stream. -/
inductive Running (R : FramedReader δ α μ ε) (fresh : δ) : R.State → Prop where
  | new : Running R fresh (R.new fresh)
  | polled {s : R.State} (h : Running R fresh s) (reads : List (SocketRead α))
      (hgo : goesOn (R.pollNext reads s).1 = true) : Running R fresh (R.pollNext reads s).2

/- What the answer of a decoder is to the one who polls. -/
def answerOf : Except ε (Option μ) → Poll (Option (Except ε μ))
  | .ok none => .pending
  | .ok (some x) => .ready (some (.ok x))
  | .error e => .ready (some (.error e))

/- A stream that ends behind the bytes of `buf`. -/
def endOfStream (bytesRemaining : ε) (buf : List α) : Poll (Option (Except ε μ)) :=
  match buf with
  | [] => .ready none
  | _ :: _ => .ready (some (.error bytesRemaining))

/-- A poll that ends with a call of the decoder. -/
structure Called (R : FramedReader δ α μ ε) (call : Except ε (Option μ) × δ × List α)
    (received : List α) (p : Poll (Option (Except ε μ)) × R.State) : Prop where
  answer : p.1 = answerOf call.1
  decoder : R.decoder p.2 = call.2.1
  buffer : R.buffer p.2 = call.2.2
  received : R.received p.2 = received

/-- What a running reader is documented to do. `bytesRemaining` is the error at the end of a
stream that stops inside a frame, `failure` the one of a failed read. -/
structure Documented (R : FramedReader δ α μ ε) (decode : Decode δ α μ ε) (fresh : δ)
    (bytesRemaining failure : ε) : Prop where
  new_decoder : R.decoder (R.new fresh) = fresh
  new_buffer : R.buffer (R.new fresh) = []
  new_received : R.received (R.new fresh) = []
  /-- The decoder is asked about the bytes that are there. -/
  buffered : ∀ s, R.Running fresh s →
    R.Called (decode (R.decoder s) (R.buffer s)) (R.received s) (R.pollNext [] s)
  /-- With an answer to be had from the buffer the socket is left alone. -/
  unread : ∀ s reads, R.Running fresh s → (R.pollNext [] s).1 ≠ .pending →
    R.pollNext reads s = R.pollNext [] s
  /-- A decoder that asks for more is called again behind the bytes that arrive. -/
  chunk : ∀ s d buf b bs, R.Running fresh s →
    decode (R.decoder s) (R.buffer s) = (.ok none, d, buf) →
    R.Called (decode d (buf ++ b :: bs)) (R.received s ++ b :: bs) (R.pollNext [.chunk b bs] s)
  eof : ∀ s d buf, R.Running fresh s → decode (R.decoder s) (R.buffer s) = (.ok none, d, buf) →
    (R.pollNext [.eof] s).1 = endOfStream bytesRemaining buf ∧
      R.buffer (R.pollNext [.eof] s).2 = buf ∧ R.received (R.pollNext [.eof] s).2 = R.received s
  failed : ∀ s d buf, R.Running fresh s → decode (R.decoder s) (R.buffer s) = (.ok none, d, buf) →
    (R.pollNext [.failed] s).1 = .ready (some (.error failure)) ∧
      R.buffer (R.pollNext [.failed] s).2 = buf ∧ R.received (R.pollNext [.failed] s).2 = R.received s
  /-- A poll reads on as long as it would otherwise be pending. -/
  more : ∀ s read reads, R.Running fresh s → (R.pollNext [read] s).1 = .pending →
    R.pollNext (read :: reads) s = R.pollNext reads (R.pollNext [read] s).2
  enough : ∀ s read reads, R.Running fresh s → (R.pollNext [read] s).1 ≠ .pending →
    R.pollNext (read :: reads) s = R.pollNext [read] s

/-! ### What a reader has handed out -/

section
variable {R : FramedReader δ α μ ε} {F : Framer α μ ε} {decode : Decode δ α μ ε}
variable {inv : δ → List α → Prop} {fresh : δ} {bytesRemaining failure : ε}

/-- The items handed out so far are those of the frames at the front of what was received;
the rest of it is in the buffer. -/
structure Tracks (R : FramedReader δ α μ ε) (F : Framer α μ ε) (inv : δ → List α → Prop) (fresh : δ)
    (s : R.State) (items : List μ) : Prop where
  running : R.Running fresh s
  fits : inv (R.decoder s) (R.buffer s)
  scan : F.scan (R.received s)
    = ⟨items ++ (F.scan (R.buffer s)).items, (F.scan (R.buffer s)).stop, (F.scan (R.buffer s)).rest⟩

theorem tracks_start (hR : R.Documented decode fresh bytesRemaining failure)
    (himp : Implements F decode inv fresh) : R.Tracks F inv fresh (R.new fresh) [] := by
  refine ⟨.new, ?_, ?_⟩
  · rw [hR.new_decoder]
    exact himp.fresh_inv _
  · rw [hR.new_buffer, hR.new_received]
    rfl

theorem Tracks.front {s : R.State} {items : List μ} (h : R.Tracks F inv fresh s items) :
    items <+: (F.scan (R.received s)).items := by
  rw [h.scan]
  exact List.prefix_append _ _

/- While the decoder waits, every frame received is handed out. -/
theorem Tracks.waiting {s : R.State} {items : List μ} (h : R.Tracks F inv fresh s items)
    (hwait : F.cut (R.buffer s) = .wait) : F.scan (R.received s) = ⟨items, none, R.buffer s⟩ := by
  rw [h.scan, F.scan_wait hwait, List.append_nil]

/- Bytes that arrive while the decoder waits for them. -/
theorem Tracks.append {s : R.State} {items : List μ} (h : R.Tracks F inv fresh s items)
    (hwait : F.cut (R.buffer s) = .wait) (bs : List α) :
    F.scan (R.received s ++ bs) = ⟨items ++ (F.scan (R.buffer s ++ bs)).items,
      (F.scan (R.buffer s ++ bs)).stop, (F.scan (R.buffer s ++ bs)).rest⟩ := by
  have hscan := h.waiting hwait
  rw [scan_append_quiet F (R.received s) bs (by rw [hscan]), hscan]

/-- How a poll can end, and what that says about all that was received. -/
inductive Outcome (R : FramedReader δ α μ ε) (F : Framer α μ ε) (inv : δ → List α → Prop) (fresh : δ)
    (bytesRemaining failure : ε) (items : List μ) (s : R.State) :
    Poll (Option (Except ε μ)) → Prop where
  | pending (h : R.Tracks F inv fresh s items)
      (drained : F.scan (R.received s) = ⟨items, none, R.buffer s⟩) :
    Outcome R F inv fresh bytesRemaining failure items s .pending
  | item (x : μ) (h : R.Tracks F inv fresh s (items ++ [x])) :
    Outcome R F inv fresh bytesRemaining failure items s (.ready (some (.ok x)))
  | ended (drained : F.scan (R.received s) = ⟨items, none, []⟩) :
    Outcome R F inv fresh bytesRemaining failure items s (.ready none)
  | rejected (e : ε)
      (stopped : (F.scan (R.received s)).items = items ∧ (F.scan (R.received s)).stop = some e) :
    Outcome R F inv fresh bytesRemaining failure items s (.ready (some (.error e)))
  | cutOff (left : F.scan (R.received s) = ⟨items, none, R.buffer s⟩) (nonempty : R.buffer s ≠ []) :
    Outcome R F inv fresh bytesRemaining failure items s (.ready (some (.error bytesRemaining)))
  | failed (drained : F.scan (R.received s) = ⟨items, none, R.buffer s⟩) :
    Outcome R F inv fresh bytesRemaining failure items s (.ready (some (.error failure)))

/- Whatever a poll answers, what was handed out stays at the front of what is received. -/
theorem Outcome.front {s : R.State} {items : List μ} {answer : Poll (Option (Except ε μ))}
    (h : Outcome R F inv fresh bytesRemaining failure items s answer) :
    items <+: (F.scan (R.received s)).items := by
  cases h with
  | pending ht hdrained => exact ht.front
  | item x ht => exact (List.prefix_append _ _).trans ht.front
  | ended hdrained => simp [hdrained]
  | rejected e hstopped => simp [hstopped.1]
  | cutOff hleft hne => simp [hleft]
  | failed hdrained => simp [hdrained]

/- A poll that ends with a call of the decoder, by what the framer says of the buffer. -/
theorem Called.outcome (bytesRemaining failure : ε) (himp : Implements F decode inv fresh) {d : δ}
    {buf received : List α} {items : List μ} {p : Poll (Option (Except ε μ)) × R.State}
    (h : R.Called (decode d buf) received p) (hgo : goesOn p.1 = true → R.Running fresh p.2)
    (hfits : inv d buf)
    (hscan : F.scan received
      = ⟨items ++ (F.scan buf).items, (F.scan buf).stop, (F.scan buf).rest⟩) :
    Outcome R F inv fresh bytesRemaining failure items p.2 p.1 := by
  obtain ⟨answer, s⟩ := p
  obtain ⟨hanswer, hdecoder, hbuffer, hreceived⟩ := h
  simp only at hanswer hdecoder hbuffer hreceived hgo ⊢
  rw [← hreceived] at hscan
  cases hc : F.cut buf with
  | wait =>
    obtain ⟨d', hd, hfits'⟩ := himp.wait d buf hfits hc
    rw [hd] at hanswer hdecoder hbuffer
    simp only [answerOf] at hanswer hdecoder hbuffer
    rw [hanswer] at hgo ⊢
    rw [← hbuffer] at hfits' hscan hc
    have htracks : R.Tracks F inv fresh s items := ⟨hgo rfl, by rw [hdecoder]; exact hfits', hscan⟩
    exact .pending htracks (htracks.waiting hc)
  | reject e =>
    obtain ⟨d', hd⟩ := himp.reject d buf e hfits hc
    rw [hd] at hanswer
    rw [hanswer]
    refine .rejected e ?_
    rw [hscan, F.scan_reject hc]
    exact ⟨List.append_nil items, rfl⟩
  | frame n res =>
    rw [himp.frame d buf n res hfits hc] at hanswer hdecoder hbuffer
    cases res with
    | error e =>
      rw [hanswer]
      refine .rejected e ?_
      rw [hscan, F.scan_frame_error hc]
      exact ⟨List.append_nil items, rfl⟩
    | ok x =>
      simp only [Except.map, answerOf] at hanswer hdecoder hbuffer
      rw [hanswer] at hgo ⊢
      refine .item x ⟨hgo rfl, ?_, ?_⟩
      · rw [hdecoder]
        exact himp.fresh_inv _
      · rw [hscan, F.scan_frame_ok hc, hbuffer]
        simp only [Scan.cons, List.append_assoc, List.singleton_append]

/- Only a frame is taken out of a buffer. -/
theorem Called.buffer_le (himp : Implements F decode inv fresh) {d : δ} {buf received : List α}
    {p : Poll (Option (Except ε μ)) × R.State} (h : R.Called (decode d buf) received p)
    (hfits : inv d buf) : (R.buffer p.2).length ≤ buf.length := by
  rw [h.buffer]
  cases hc : F.cut buf with
  | wait =>
    obtain ⟨d', hd, -⟩ := himp.wait d buf hfits hc
    simp [hd]
  | reject e =>
    obtain ⟨d', hd⟩ := himp.reject d buf e hfits hc
    simp [hd]
  | frame n res =>
    rw [himp.frame d buf n res hfits hc]
    exact (List.drop_suffix n buf).length_le

/- A decoder that does not wait answers without a read. -/
theorem poll_unread (hR : R.Documented decode fresh bytesRemaining failure)
    (himp : Implements F decode inv fresh) (reads : List (SocketRead α)) {s : R.State}
    (hs : R.Running fresh s) (hfits : inv (R.decoder s) (R.buffer s))
    (hc : F.cut (R.buffer s) ≠ .wait) : R.pollNext reads s = R.pollNext [] s := by
  apply hR.unread s reads hs
  rw [(hR.buffered s hs).answer]
  cases hcut : F.cut (R.buffer s) with
  | wait => exact absurd hcut hc
  | reject e =>
    obtain ⟨d, hd⟩ := himp.reject (R.decoder s) (R.buffer s) e hfits hcut
    simp [hd, answerOf]
  | frame n res =>
    rw [himp.frame (R.decoder s) (R.buffer s) n res hfits hcut]
    cases res <;> simp [Except.map, answerOf]

theorem endOfStream_ready (buf : List α) :
    (endOfStream bytesRemaining buf : Poll (Option (Except ε μ))) ≠ .pending := by
  cases buf with
  | nil => simp [endOfStream]
  | cons b bs => simp [endOfStream]

/- A poll that reads nothing. -/
theorem poll_buffered (hR : R.Documented decode fresh bytesRemaining failure)
    (himp : Implements F decode inv fresh) {s : R.State} {items : List μ}
    (h : R.Tracks F inv fresh s items) :
    Outcome R F inv fresh bytesRemaining failure items (R.pollNext [] s).2 (R.pollNext [] s).1 :=
  (hR.buffered s h.running).outcome bytesRemaining failure himp (.polled h.running []) h.fits
    h.scan

/-- A poll of a reader that has handed out `items`. -/
theorem poll_outcome (hR : R.Documented decode fresh bytesRemaining failure)
    (himp : Implements F decode inv fresh) (reads : List (SocketRead α)) (s : R.State)
    (items : List μ) (h : R.Tracks F inv fresh s items) :
    Outcome R F inv fresh bytesRemaining failure items (R.pollNext reads s).2
      (R.pollNext reads s).1 := by
  induction reads generalizing s with
  | nil => exact poll_buffered hR himp h
  | cons read reads ih =>
    by_cases hc : F.cut (R.buffer s) = .wait
    · obtain ⟨d, hd, hfits⟩ := himp.wait (R.decoder s) (R.buffer s) h.fits hc
      have hwaiting := h.waiting hc
      cases read with
      | chunk b bs =>
        have hone := (hR.chunk s d (R.buffer s) b bs h.running hd).outcome bytesRemaining failure himp
          (.polled h.running _) (himp.append_inv d (R.buffer s) (b :: bs) hfits)
          (h.append hc (b :: bs))
        by_cases hpending : (R.pollNext [.chunk b bs] s).1 = .pending
        · rw [hR.more s _ reads h.running hpending]
          rw [hpending] at hone
          cases hone with
          | pending ht hdrained => exact ih _ ht
        · rw [hR.enough s _ reads h.running hpending]
          exact hone
      | eof =>
        obtain ⟨hanswer, hbuffer, hreceived⟩ := hR.eof s d (R.buffer s) h.running hd
        rw [hR.enough s _ reads h.running (by rw [hanswer]; exact endOfStream_ready _), hanswer]
        rw [← hreceived, ← hbuffer] at hwaiting
        cases hbuf : R.buffer s with
        | nil =>
          refine .ended ?_
          rw [hwaiting, hbuffer, hbuf]
        | cons b bs =>
          refine .cutOff hwaiting ?_
          rw [hbuffer, hbuf]
          exact List.cons_ne_nil b bs
      | failed =>
        obtain ⟨hanswer, hbuffer, hreceived⟩ := hR.failed s d (R.buffer s) h.running hd
        rw [hR.enough s _ reads h.running (by rw [hanswer]; simp), hanswer]
        rw [← hreceived, ← hbuffer] at hwaiting
        exact .failed hwaiting
    · rw [poll_unread hR himp _ h.running h.fits hc]
      exact poll_buffered hR himp h

/- A reader asks for more only while what it holds is short of a frame, so a buffer grows by one
chunk beyond that at most. -/
theorem poll_buffer_lt (hR : R.Documented decode fresh bytesRemaining failure)
    (himp : Implements F decode inv fresh) {cap c : ℕ}
    (hcap : ∀ bs, F.cut bs = .wait → bs.length < cap) (reads : List (SocketRead α))
    (hreads : ∀ b bs, .chunk b bs ∈ reads → (b :: bs).length ≤ c) (s : R.State) (items : List μ)
    (h : R.Tracks F inv fresh s items) (hlt : (R.buffer s).length < cap + c) :
    (R.buffer (R.pollNext reads s).2).length < cap + c := by
  induction reads generalizing s with
  | nil => exact Nat.lt_of_le_of_lt ((hR.buffered s h.running).buffer_le himp h.fits) hlt
  | cons read reads ih =>
    by_cases hc : F.cut (R.buffer s) = .wait
    · obtain ⟨d, hd, hfits⟩ := himp.wait (R.decoder s) (R.buffer s) h.fits hc
      cases read with
      | chunk b bs =>
        have hcalled := hR.chunk s d (R.buffer s) b bs h.running hd
        have hfits' := himp.append_inv d (R.buffer s) (b :: bs) hfits
        have hone : (R.buffer (R.pollNext [.chunk b bs] s).2).length < cap + c := by
          have hle := hcalled.buffer_le himp hfits'
          have hshort := hcap _ hc
          have hchunk := hreads b bs List.mem_cons_self
          rw [List.length_append] at hle
          omega
        by_cases hpending : (R.pollNext [.chunk b bs] s).1 = .pending
        · have houtcome := hcalled.outcome bytesRemaining failure himp (.polled h.running _) hfits'
            (h.append hc (b :: bs))
          rw [hR.more s _ reads h.running hpending]
          rw [hpending] at houtcome
          cases houtcome with
          | pending ht hdrained =>
            exact ih (fun b bs hmem => hreads b bs (List.mem_cons_of_mem _ hmem)) _ ht hone
        · rw [hR.enough s _ reads h.running hpending]
          exact hone
      | eof =>
        obtain ⟨hanswer, hbuffer, -⟩ := hR.eof s d (R.buffer s) h.running hd
        rw [hR.enough s _ reads h.running (by rw [hanswer]; exact endOfStream_ready _), hbuffer]
        exact hlt
      | failed =>
        obtain ⟨hanswer, hbuffer, -⟩ := hR.failed s d (R.buffer s) h.running hd
        rw [hR.enough s _ reads h.running (by rw [hanswer]; simp), hbuffer]
        exact hlt
    · rw [poll_unread hR himp _ h.running h.fits hc]
      exact Nat.lt_of_le_of_lt ((hR.buffered s h.running).buffer_le himp h.fits) hlt

end

end FramedReader

/-! ### A reader -/

structure FramedRead (δ α : Type) where
  decoder : δ
  buffer : List α
  received : List α

/-- Asked again about the same bytes, a decoder that wants more answers the same. -/
def Settles (decode : Decode δ α μ ε) : Prop :=
  ∀ d buf d' buf', decode d buf = (.ok none, d', buf') → decode d' buf' = (.ok none, d', buf')

namespace FramedRead

def pollNext (decode : Decode δ α μ ε) (bytesRemaining failure : ε) :
    List (SocketRead α) → FramedRead δ α → Poll (Option (Except ε μ)) × FramedRead δ α
  | reads, r =>
    match decode r.decoder r.buffer with
    | (.ok (some x), d, buf) => (.ready (some (.ok x)), ⟨d, buf, r.received⟩)
    | (.error e, d, buf) => (.ready (some (.error e)), ⟨d, buf, r.received⟩)
    | (.ok none, d, buf) =>
      match reads with
      | [] => (.pending, ⟨d, buf, r.received⟩)
      | .chunk b bs :: reads =>
        pollNext decode bytesRemaining failure reads ⟨d, buf ++ b :: bs, r.received ++ b :: bs⟩
      | .eof :: _ => (FramedReader.endOfStream bytesRemaining buf, ⟨d, buf, r.received⟩)
      | .failed :: _ => (.ready (some (.error failure)), ⟨d, buf, r.received⟩)

def reader (decode : Decode δ α μ ε) (bytesRemaining failure : ε) : FramedReader δ α μ ε where
  State := FramedRead δ α
  new d := ⟨d, [], []⟩
  decoder := decoder
  buffer := buffer
  received := received
  pollNext := pollNext decode bytesRemaining failure

section
variable {decode : Decode δ α μ ε} (bytesRemaining failure : ε)

variable (decode) in
theorem pollNext_nil (r : FramedRead δ α) :
    pollNext decode bytesRemaining failure [] r
      = (FramedReader.answerOf (decode r.decoder r.buffer).1,
          ⟨(decode r.decoder r.buffer).2.1, (decode r.decoder r.buffer).2.2, r.received⟩) := by
  unfold pollNext
  obtain ⟨answer, d, buf⟩ := decode r.decoder r.buffer
  rcases answer with e | (- | x) <;> rfl

theorem pollNext_waits {r : FramedRead δ α} {d : δ} {buf : List α}
    (h : decode r.decoder r.buffer = (.ok none, d, buf)) (read : SocketRead α)
    (reads : List (SocketRead α)) :
    pollNext decode bytesRemaining failure (read :: reads) r = match read with
      | .chunk b bs =>
        pollNext decode bytesRemaining failure reads ⟨d, buf ++ b :: bs, r.received ++ b :: bs⟩
      | .eof => (FramedReader.endOfStream bytesRemaining buf, ⟨d, buf, r.received⟩)
      | .failed => (.ready (some (.error failure)), ⟨d, buf, r.received⟩) := by
  rw [pollNext]
  simp only [h]
  cases read with
  | chunk b bs => rfl
  | eof => rfl
  | failed => rfl

variable {bytesRemaining failure} in
theorem pollNext_unread {r : FramedRead δ α}
    (h : (pollNext decode bytesRemaining failure [] r).1 ≠ .pending) (reads : List (SocketRead α)) :
    pollNext decode bytesRemaining failure reads r = pollNext decode bytesRemaining failure [] r := by
  rw [pollNext_nil] at h ⊢
  unfold pollNext
  rcases hd : decode r.decoder r.buffer with ⟨e | (- | x), d, buf⟩
  · rfl
  · rw [hd] at h
    exact absurd rfl h
  · rfl

theorem pollNext_settled (hsettles : Settles decode) {r : FramedRead δ α} {d : δ} {buf : List α}
    (h : decode r.decoder r.buffer = (.ok none, d, buf)) (reads : List (SocketRead α)) :
    pollNext decode bytesRemaining failure reads r
      = pollNext decode bytesRemaining failure reads ⟨d, buf, r.received⟩ := by
  have hagain := hsettles _ _ _ _ h
  cases reads with
  | nil => simp only [pollNext_nil, h, hagain]
  | cons read reads =>
    rw [pollNext_waits _ _ h, pollNext_waits _ _ (r := ⟨d, buf, r.received⟩) hagain]

/- A poll reads on only as long as it would be pending. -/
theorem pollNext_cons (hsettles : Settles decode) (r : FramedRead δ α) (read : SocketRead α)
    (reads : List (SocketRead α)) :
    ((pollNext decode bytesRemaining failure [read] r).1 = .pending →
      pollNext decode bytesRemaining failure (read :: reads) r
        = pollNext decode bytesRemaining failure reads
            (pollNext decode bytesRemaining failure [read] r).2) ∧
    ((pollNext decode bytesRemaining failure [read] r).1 ≠ .pending →
      pollNext decode bytesRemaining failure (read :: reads) r
        = pollNext decode bytesRemaining failure [read] r) := by
  by_cases hready : (pollNext decode bytesRemaining failure [] r).1 = .pending
  · rcases hd : decode r.decoder r.buffer with ⟨e | (- | x), d, buf⟩
    · simp [pollNext_nil, hd, FramedReader.answerOf] at hready
    · simp only [pollNext_waits bytesRemaining failure hd]
      cases read with
      | eof => exact ⟨fun h => absurd h (FramedReader.endOfStream_ready buf), fun _ => rfl⟩
      | failed => exact ⟨fun h => (by cases h), fun _ => rfl⟩
      | chunk b bs =>
        simp only
        constructor
        · intro hpending
          rw [pollNext_nil] at hpending ⊢
          rcases hd' : decode d (buf ++ b :: bs) with ⟨e | (- | x), d', buf'⟩
          · simp [hd', FramedReader.answerOf] at hpending
          · exact pollNext_settled _ _ hsettles hd' reads
          · simp [hd', FramedReader.answerOf] at hpending
        · exact fun hanswered => pollNext_unread hanswered reads
    · simp [pollNext_nil, hd, FramedReader.answerOf] at hready
  · have hone := pollNext_unread hready [read]
    have hall := pollNext_unread hready (read :: reads)
    rw [hone, hall]
    exact ⟨fun h => absurd h hready, fun _ => rfl⟩

theorem reader_documented (hsettles : Settles decode) (fresh : δ) :
    (reader decode bytesRemaining failure).Documented decode fresh bytesRemaining failure where
  new_decoder := rfl
  new_buffer := rfl
  new_received := rfl
  buffered := by
    intro s hs
    have hnil := pollNext_nil decode bytesRemaining failure s
    exact ⟨congrArg Prod.fst hnil, congrArg (fun p => p.2.decoder) hnil,
      congrArg (fun p => p.2.buffer) hnil, congrArg (fun p => p.2.received) hnil⟩
  unread := fun s reads hs hready => pollNext_unread hready reads
  chunk := by
    intro s d buf b bs hs hd
    have hone := (pollNext_waits bytesRemaining failure hd (.chunk b bs) []).trans
      (pollNext_nil _ _ _ _)
    exact ⟨congrArg Prod.fst hone, congrArg (fun p => p.2.decoder) hone,
      congrArg (fun p => p.2.buffer) hone, congrArg (fun p => p.2.received) hone⟩
  eof := by
    intro s d buf hs hd
    simp only [reader, pollNext_waits _ _ hd, and_self]
  failed := by
    intro s d buf hs hd
    simp only [reader, pollNext_waits _ _ hd, and_self]
  more := fun s read reads hs => (pollNext_cons _ _ hsettles s read reads).1
  enough := fun s read reads hs => (pollNext_cons _ _ hsettles s read reads).2

end

end FramedRead

end Framing
