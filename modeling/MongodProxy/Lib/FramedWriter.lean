import Mathlib.Data.List.Basic
import MongodProxy.Lib.Service

/-!
# Framed writers

A framed writer owns a socket's writing half, a buffer and an encoder. As with readers it is a
parameter, `FramedWriter`, that is relied on for what `FramedWriter.Documented` says;
`FramedWrite` is one that does it.
-/

namespace Framing

variable {α μ ε : Type}

/- What the socket does when it is offered bytes: it takes `n + 1` of them, or what there is, or
fails. When the answers run out it is not ready. -/
inductive SocketWrite where
  | accept (n : ℕ)
  | failed

/-- `send` polls the future of `SinkExt::send` for an item, a new one or the one under way.
`written` is all that the socket took so far. -/
structure FramedWriter (α μ ε : Type) where
  State : Type
  new : State
  buffer : State → List α
  written : State → List α
  send : μ → List SocketWrite → State → Poll (Except ε Unit) × State

namespace FramedWriter

/-- A new writer after sends that were polled to their end without an error, and the item of the
send that is under way. -/
inductive Running (W : FramedWriter α μ ε) : Option μ → W.State → Prop where
  | new : Running W none W.new
  | pending {current : Option μ} {s : W.State} (h : Running W current s) (x : μ)
      (hx : current = none ∨ current = some x) (answers : List SocketWrite)
      (hsend : (W.send x answers s).1 = .pending) : Running W (some x) (W.send x answers s).2
  | sent {current : Option μ} {s : W.State} (h : Running W current s) (x : μ)
      (hx : current = none ∨ current = some x) (answers : List SocketWrite)
      (hsend : (W.send x answers s).1 = .ready (.ok ())) : Running W none (W.send x answers s).2

/-- A poll that offers `buf` to the socket, from the front. -/
structure Offers (W : FramedWriter α μ ε) (buf written : List α)
    (p : Poll (Except ε Unit) × W.State) : Prop where
  split : ∃ part, W.written p.2 = written ++ part ∧ part ++ W.buffer p.2 = buf
  emptied : p.1 = .ready (.ok ()) → W.buffer p.2 = []

/-- What a running writer is documented to do: an item goes through the encoder into the buffer
once, and is sent when the socket took the whole buffer. -/
structure Documented (W : FramedWriter α μ ε) (encode : μ → List α → Except ε Unit × List α) :
    Prop where
  new_buffer : W.buffer W.new = []
  new_written : W.written W.new = []
  refused : ∀ s x answers e buf, W.Running none s → encode x (W.buffer s) = (.error e, buf) →
    (W.send x answers s).1 = .ready (.error e) ∧ W.buffer (W.send x answers s).2 = buf ∧
      W.written (W.send x answers s).2 = W.written s
  begun : ∀ s x answers buf, W.Running none s → encode x (W.buffer s) = (.ok (), buf) →
    W.Offers buf (W.written s) (W.send x answers s)
  continued : ∀ s x answers, W.Running (some x) s →
    W.Offers (W.buffer s) (W.written s) (W.send x answers s)

/-- `encode` appends the frame of an item, or fails and leaves the buffer as it is. -/
def EncodesBy (encode : μ → List α → Except ε Unit × List α) (frame : μ → Except ε (List α)) : Prop :=
  ∀ x buf, encode x buf =
    match frame x with
    | .ok bs => (.ok (), buf ++ bs)
    | .error e => (.error e, buf)

/-- Behind the bytes of finished sends, `done`, there is a part of the frame of `x`, and the rest
of it is in the buffer; or nothing of it is anywhere. -/
def Split (W : FramedWriter α μ ε) (frame : μ → Except ε (List α)) (done : List α) (x : μ)
    (s : W.State) : Prop :=
  ∃ part, W.written s = done ++ part ∧
    (part ++ W.buffer s = [] ∨ frame x = .ok (part ++ W.buffer s))

/-- A writer with `done` behind it, between two sends or in the middle of one. -/
inductive Holds (W : FramedWriter α μ ε) (frame : μ → Except ε (List α)) (done : List α) :
    Option μ → W.State → Prop where
  | idle {current : Option μ} {s : W.State} (running : W.Running none s)
      (buffer : W.buffer s = []) (written : W.written s = done) : Holds W frame done current s
  | begun {x : μ} {s : W.State} (part : List α) (running : W.Running (some x) s)
      (written : W.written s = done ++ part) (rest : frame x = .ok (part ++ W.buffer s)) :
    Holds W frame done (some x) s

/-- How a poll of `send` can end. -/
inductive Outcome (W : FramedWriter α μ ε) (frame : μ → Except ε (List α)) (done : List α) (x : μ)
    (s : W.State) : Poll (Except ε Unit) → Prop where
  | pending (bs : List α) (hbs : frame x = .ok bs) (h : W.Holds frame done (some x) s) :
    Outcome W frame done x s .pending
  | sent (bs : List α) (hbs : frame x = .ok bs) (h : W.Holds frame (done ++ bs) none s) :
    Outcome W frame done x s (.ready (.ok ()))
  | failed (e : ε) (h : W.Split frame done x s) : Outcome W frame done x s (.ready (.error e))

section
variable {W : FramedWriter α μ ε} {encode : μ → List α → Except ε Unit × List α}
variable {frame : μ → Except ε (List α)} {done : List α} {x : μ}

theorem holds_start (hW : W.Documented encode) : W.Holds frame [] none W.new :=
  .idle .new hW.new_buffer hW.new_written

/- A writer at rest between two sends. -/
theorem Holds.rest {s : W.State} (h : W.Holds frame done none s) :
    W.Running none s ∧ W.buffer s = [] ∧ W.written s = done := by
  cases h with
  | idle running buffer written => exact ⟨running, buffer, written⟩

/- A new item may follow. -/
theorem Holds.next {s : W.State} (h : W.Holds frame done none s) (x : μ) :
    W.Holds frame done (some x) s := by
  obtain ⟨running, buffer, written⟩ := h.rest
  exact .idle running buffer written

theorem Holds.split {s : W.State} (h : W.Holds frame done (some x) s) : W.Split frame done x s := by
  cases h with
  | idle running buffer written =>
    refine ⟨[], ?_, Or.inl ?_⟩
    · rw [written, List.append_nil]
    · rw [buffer, List.append_nil]
  | begun part running written rest => exact ⟨part, written, Or.inr rest⟩

/- What the socket took is within `done` and the frame of the item. -/
theorem Split.written_le {s : W.State} (h : W.Split frame done x s) :
    W.written s = done ∨ ∃ bs, frame x = .ok bs ∧ W.written s <+: done ++ bs := by
  obtain ⟨part, hwritten, hnone | hframe⟩ := h
  · left
    rw [hwritten, (List.append_eq_nil_iff.mp hnone).1, List.append_nil]
  · right
    refine ⟨_, hframe, ?_⟩
    rw [hwritten, List.prefix_append_right_inj]
    exact List.prefix_append part _

/- A buffer never holds more than one frame. -/
theorem Split.buffer_le {s : W.State} (h : W.Split frame done x s) {cap : ℕ}
    (hcap : ∀ bs, frame x = .ok bs → bs.length ≤ cap) : (W.buffer s).length ≤ cap := by
  obtain ⟨part, -, hnone | hframe⟩ := h
  · rw [(List.append_eq_nil_iff.mp hnone).2]
    exact Nat.zero_le cap
  · have hle := hcap _ hframe
    rw [List.length_append] at hle
    omega

/- A poll for the item `x`, whose frame is in `part` and what is offered. -/
theorem Offers.outcome {current : Option μ} {s : W.State} (hs : W.Running current s)
    (hcurrent : current = none ∨ current = some x) {answers : List SocketWrite}
    {buf part : List α} (hframe : frame x = .ok (part ++ buf)) (hwritten : W.written s = done ++ part)
    (h : W.Offers buf (W.written s) (W.send x answers s)) :
    Outcome W frame done x (W.send x answers s).2 (W.send x answers s).1 := by
  obtain ⟨more, hmore, hrest⟩ := h.split
  have hdone : W.written (W.send x answers s).2 = done ++ (part ++ more) := by
    rw [hmore, hwritten, List.append_assoc]
  have hall : frame x = .ok ((part ++ more) ++ W.buffer (W.send x answers s).2) := by
    rw [List.append_assoc, hrest, hframe]
  cases hanswer : (W.send x answers s).1 with
  | pending => exact .pending _ hframe (.begun _ (.pending hs x hcurrent answers hanswer) hdone hall)
  | ready result =>
    cases result with
    | error e => exact .failed e ⟨_, hdone, Or.inr hall⟩
    | ok u =>
      have hempty := h.emptied hanswer
      refine .sent _ hall (.idle (.sent hs x hcurrent answers hanswer) hempty ?_)
      rw [hempty, List.append_nil]
      exact hdone

/-- A poll of `send` for the item that is being sent, or for a new one. -/
theorem send_outcome (hW : W.Documented encode) (henc : EncodesBy encode frame)
    (answers : List SocketWrite) {s : W.State} (h : W.Holds frame done (some x) s) :
    Outcome W frame done x (W.send x answers s).2 (W.send x answers s).1 := by
  cases h with
  | begun part running written rest =>
    exact (hW.continued s x answers running).outcome running (Or.inr rfl) rest written
  | idle running buffer written =>
    have hx := henc x (W.buffer s)
    cases hframe : frame x with
    | error e =>
      rw [hframe] at hx
      obtain ⟨hanswer, hbuffer, hwritten⟩ := hW.refused s x answers e _ running hx
      rw [hanswer]
      refine .failed e ⟨[], ?_, Or.inl ?_⟩
      · rw [hwritten, written, List.append_nil]
      · rw [hbuffer, buffer, List.append_nil]
    | ok bs =>
      rw [hframe] at hx
      have hoffers := hW.begun s x answers _ running hx
      rw [buffer, List.nil_append] at hoffers
      have hwhole : frame x = .ok ([] ++ bs) := hframe
      refine hoffers.outcome running (Or.inl rfl) hwhole ?_
      rw [written, List.append_nil]

/- Whatever became of a poll of `send`, at most one frame is left. -/
theorem send_buffer_le (hW : W.Documented encode) (henc : EncodesBy encode frame) {cap : ℕ}
    (hcap : ∀ bs, frame x = .ok bs → bs.length ≤ cap) (answers : List SocketWrite) {s : W.State}
    (h : W.Holds frame done (some x) s) : (W.buffer (W.send x answers s).2).length ≤ cap := by
  have houtcome := send_outcome hW henc answers h
  generalize W.send x answers s = p at houtcome
  obtain ⟨answer, s'⟩ := p
  cases houtcome with
  | pending bs hbs hholds => exact hholds.split.buffer_le hcap
  | failed e hsplit => exact hsplit.buffer_le hcap
  | sent bs hbs hholds =>
    simp only [hholds.rest.2.1]
    exact Nat.zero_le cap

end

end FramedWriter

/-! ### A writer -/

/- `busy` tells that the item of the current `send` is encoded already. -/
structure FramedWrite (α : Type) where
  buffer : List α
  busy : Bool
  written : List α

namespace FramedWrite

/- Offers the buffer to the socket until it is empty. -/
def offer (failure : ε) : List SocketWrite → List α → List α → Poll (Except ε Unit) × FramedWrite α
  | _, [], written => (.ready (.ok ()), ⟨[], false, written⟩)
  | [], b :: buf, written => (.pending, ⟨b :: buf, true, written⟩)
  | .failed :: _, b :: buf, written => (.ready (.error failure), ⟨b :: buf, true, written⟩)
  | .accept n :: answers, b :: buf, written =>
    offer failure answers (buf.drop n) (written ++ b :: buf.take n)

def send (encode : μ → List α → Except ε Unit × List α) (failure : ε) (x : μ)
    (answers : List SocketWrite) (w : FramedWrite α) : Poll (Except ε Unit) × FramedWrite α :=
  if w.busy then offer failure answers w.buffer w.written
  else
    match encode x w.buffer with
    | (.error e, buf) => (.ready (.error e), ⟨buf, false, w.written⟩)
    | (.ok (), buf) => offer failure answers buf w.written

def writer (encode : μ → List α → Except ε Unit × List α) (failure : ε) : FramedWriter α μ ε where
  State := FramedWrite α
  new := ⟨[], false, []⟩
  buffer := buffer
  written := written
  send := send encode failure

section
variable (encode : μ → List α → Except ε Unit × List α) (failure : ε)

/- An answer other than an error tells whether the send is under way. -/
theorem offer_eq (answers : List SocketWrite) (buf written : List α) :
    (∃ part, (offer failure answers buf written).2.written = written ++ part ∧
        part ++ (offer failure answers buf written).2.buffer = buf) ∧
      ((offer failure answers buf written).1 = .pending →
        (offer failure answers buf written).2.busy = true) ∧
      ((offer failure answers buf written).1 = .ready (.ok ()) →
        (offer failure answers buf written).2.buffer = [] ∧
          (offer failure answers buf written).2.busy = false) := by
  induction answers generalizing buf written with
  | nil =>
    cases buf with
    | nil => exact ⟨⟨[], by simp [offer], rfl⟩, by simp [offer], by simp [offer]⟩
    | cons b buf => exact ⟨⟨[], by simp [offer], rfl⟩, by simp [offer], by simp [offer]⟩
  | cons answer answers ih =>
    cases buf with
    | nil => exact ⟨⟨[], by simp [offer], by simp [offer]⟩, by simp [offer], by simp [offer]⟩
    | cons b buf =>
      cases answer with
      | failed => exact ⟨⟨[], by simp [offer], rfl⟩, by simp [offer], by simp [offer]⟩
      | accept n =>
        obtain ⟨⟨part, hwritten, hrest⟩, hflags⟩ := ih (buf.drop n) (written ++ b :: buf.take n)
        refine ⟨⟨b :: buf.take n ++ part, ?_, ?_⟩, hflags⟩
        · simp only [offer, hwritten, List.append_assoc]
        · simp only [offer, List.cons_append, List.append_assoc, hrest, List.take_append_drop]

/- The flags of the writer tell which send is under way. -/
theorem send_busy (x : μ) (answers : List SocketWrite) (w : FramedWrite α) :
    ((send encode failure x answers w).1 = .pending →
        (send encode failure x answers w).2.busy = true) ∧
      ((send encode failure x answers w).1 = .ready (.ok ()) →
        (send encode failure x answers w).2.busy = false) := by
  unfold send
  split_ifs with hbusy
  · obtain ⟨-, hpending, hready⟩ := offer_eq failure answers w.buffer w.written
    exact ⟨hpending, fun h => (hready h).2⟩
  · rcases encode x w.buffer with ⟨e | u, buf⟩
    · exact ⟨fun h => (by cases h), fun h => (by cases h)⟩
    · obtain ⟨-, hpending, hready⟩ := offer_eq failure answers buf w.written
      exact ⟨hpending, fun h => (hready h).2⟩

theorem busy_of_running {current : Option μ} {s : (writer encode failure).State}
    (h : (writer encode failure).Running current s) : FramedWrite.busy s = current.isSome := by
  cases h with
  | new => rfl
  | pending h x hx answers hsend => exact (send_busy encode failure x answers _).1 hsend
  | sent h x hx answers hsend => exact (send_busy encode failure x answers _).2 hsend

theorem offers_of_offer {s : FramedWrite α} {x : μ} {answers : List SocketWrite} {buf : List α}
    (h : send encode failure x answers s = offer failure answers buf s.written) :
    (writer encode failure).Offers buf s.written (send encode failure x answers s) := by
  obtain ⟨hsplit, -, hready⟩ := offer_eq failure answers buf s.written
  rw [← h] at hsplit hready
  exact ⟨hsplit, fun hsent => (hready hsent).1⟩

theorem writer_documented : (writer encode failure).Documented encode where
  new_buffer := rfl
  new_written := rfl
  refused := by
    intro s x answers e buf hs hencode
    have hidle := busy_of_running encode failure hs
    have hsend : send encode failure x answers s = (.ready (.error e), ⟨buf, false, s.written⟩) := by
      have hencode : encode x s.buffer = (.error e, buf) := hencode
      simp [send, hidle, hencode]
    exact ⟨congrArg Prod.fst hsend, congrArg (fun p => p.2.buffer) hsend,
      congrArg (fun p => p.2.written) hsend⟩
  begun := by
    intro s x answers buf hs hencode
    have hidle := busy_of_running encode failure hs
    have hencode : encode x s.buffer = (.ok (), buf) := hencode
    exact offers_of_offer encode failure (by simp [send, hidle, hencode])
  continued := by
    intro s x answers hs
    have hbusy := busy_of_running encode failure hs
    have hsend : send encode failure x answers s
        = offer failure answers (FramedWrite.buffer s) (FramedWrite.written s) := by
      simp [send, hbusy]
    exact offers_of_offer encode failure hsend

end

end FramedWrite

end Framing
