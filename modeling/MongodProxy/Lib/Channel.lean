import Mathlib.Data.List.Basic

/-!
# Bounded channels

A queue between any number of senders and one receiver. A sender that finds the queue full, or
the receiver gone, keeps its value. The channel is a parameter, `Mpsc`, that is relied on for
what `Mpsc.Documented` says; `Chan` is one that does it. `Watched` adds the history that nobody
in the program holds: what was offered, what was received and what was refused.
-/

namespace Channel

variable {α : Type}

inductive TrySendError where
  | full
  | closed
  deriving DecidableEq, Repr

/-- A bounded channel as its two ends see it. `queue` is what was sent and not received, `closed`
says that the receiver is gone; `recv` is a poll that may have a value to give. -/
structure Mpsc (α : Type) where
  State : Type
  channel : ℕ → State
  maxCapacity : State → ℕ
  queue : State → List α
  closed : State → Bool
  trySend : α → State → Except TrySendError State
  recv : State → Option (α × State)
  dropReceiver : State → State

/-- The two ends are as they were, whatever is queued now. -/
structure Mpsc.SameEnds (M : Mpsc α) (s s' : M.State) : Prop where
  maxCapacity : M.maxCapacity s' = M.maxCapacity s
  closed : M.closed s' = M.closed s

/-- What the channel is documented to do. A channel without capacity cannot be made. -/
structure Mpsc.Documented (M : Mpsc α) : Prop where
  channel : ∀ n, 0 < n → M.maxCapacity (M.channel n) = n ∧ M.queue (M.channel n) = [] ∧
    M.closed (M.channel n) = false
  /-- With room in the queue and a receiver, a value is accepted behind the others. -/
  accepts : ∀ a s, M.closed s = false → (M.queue s).length < M.maxCapacity s →
    ∃ s', M.trySend a s = .ok s' ∧ M.queue s' = M.queue s ++ [a] ∧ M.SameEnds s s'
  full : ∀ a s, M.closed s = false → M.maxCapacity s ≤ (M.queue s).length →
    M.trySend a s = .error .full
  refuses : ∀ a s, M.closed s = true → M.trySend a s = .error .closed
  /-- Values are received in the order in which they were sent. -/
  recv : ∀ a s s', M.recv s = some (a, s') → M.queue s = a :: M.queue s' ∧ M.SameEnds s s'
  /-- What is queued is dropped with the receiver. -/
  dropReceiver : ∀ s, M.closed (M.dropReceiver s) = true ∧ M.queue (M.dropReceiver s) = [] ∧
    M.maxCapacity (M.dropReceiver s) = M.maxCapacity s

/-! ### A channel -/

structure Chan (α : Type) where
  capacity : ℕ
  queue : List α
  closed : Bool

namespace Chan

def trySend (a : α) (ch : Chan α) : Except TrySendError (Chan α) :=
  if ch.closed then .error .closed
  else if ch.queue.length < ch.capacity then .ok { ch with queue := ch.queue ++ [a] }
  else .error .full

def recv (ch : Chan α) : Option (α × Chan α) :=
  match ch.queue with
  | [] => none
  | a :: rest => some (a, { ch with queue := rest })

def dropReceiver (ch : Chan α) : Chan α := { ch with queue := [], closed := true }

def mpsc (α : Type) : Mpsc α where
  State := Chan α
  channel n := ⟨n, [], false⟩
  maxCapacity := capacity
  queue := queue
  closed := closed
  trySend := trySend
  recv := recv
  dropReceiver := dropReceiver

theorem mpsc_documented (α : Type) : (mpsc α).Documented where
  channel := fun n _ => ⟨rfl, rfl, rfl⟩
  accepts := by
    intro a s hopen hroom
    have hopen : s.closed = false := hopen
    have hroom : s.queue.length < s.capacity := hroom
    refine ⟨{ s with queue := s.queue ++ [a] }, ?_, rfl, rfl, rfl⟩
    simp [mpsc, trySend, hopen, hroom]
  full := by
    intro a s hopen hfull
    have hopen : s.closed = false := hopen
    have hfull : s.capacity ≤ s.queue.length := hfull
    simp [mpsc, trySend, hopen, Nat.not_lt.mpr hfull]
  refuses := by
    intro a s hclosed
    have hclosed : s.closed = true := hclosed
    simp [mpsc, trySend, hclosed]
  recv := by
    intro a s s' h
    obtain ⟨capacity, queue, closed⟩ := s
    cases queue with
    | nil => cases h
    | cons b rest =>
      cases h
      exact ⟨rfl, rfl, rfl⟩
  dropReceiver := fun s => ⟨rfl, rfl, rfl⟩

end Chan

/-! ### What went through a channel -/

structure Watched (M : Mpsc α) where
  chan : M.State
  offered : List α
  received : List α
  refused : List TrySendError

namespace Watched

variable {M : Mpsc α}

def new (M : Mpsc α) (capacity : ℕ) : Watched M := ⟨M.channel capacity, [], [], []⟩

def offer (w : Watched M) (a : α) : Watched M :=
  match M.trySend a w.chan with
  | .ok ch => { w with chan := ch, offered := w.offered ++ [a] }
  | .error e => { w with offered := w.offered ++ [a], refused := w.refused ++ [e] }

def offerAll (w : Watched M) (as : List α) : Watched M := as.foldl offer w

def receive (w : Watched M) : Watched M :=
  match M.recv w.chan with
  | none => w
  | some (a, ch) => { w with chan := ch, received := w.received ++ [a] }

def abandon (w : Watched M) : Watched M := { w with chan := M.dropReceiver w.chan }

/-- Nothing is invented, doubled or moved, and while the receiver is there all that is missing was
refused to its sender. -/
structure Sound (capacity : ℕ) (w : Watched M) : Prop where
  capacity_eq : M.maxCapacity w.chan = capacity
  bounded : (M.queue w.chan).length ≤ capacity
  sublist : (w.received ++ M.queue w.chan).Sublist w.offered
  counted : M.closed w.chan = false →
    w.offered.length = w.received.length + (M.queue w.chan).length + w.refused.length

theorem sound_new (hM : M.Documented) {capacity : ℕ} (hpos : 0 < capacity) :
    Sound capacity (new M capacity) := by
  obtain ⟨hcap, hqueue, -⟩ := hM.channel capacity hpos
  refine ⟨hcap, ?_, ?_, fun _ => ?_⟩
  · rw [new, hqueue]
    exact Nat.zero_le capacity
  · rw [new, hqueue]
    exact List.Sublist.refl _
  · rw [new, hqueue]
    rfl

/- An offer is queued, or refused by a full or closed channel. -/
theorem offer_cases (hM : M.Documented) (w : Watched M) (a : α) :
    (∃ ch, (M.closed w.chan = false ∧ (M.queue w.chan).length < M.maxCapacity w.chan ∧
        M.queue ch = M.queue w.chan ++ [a] ∧ M.SameEnds w.chan ch) ∧
        w.offer a = { w with chan := ch, offered := w.offered ++ [a] }) ∨
      ∃ e, (M.closed w.chan = true ∨ M.maxCapacity w.chan ≤ (M.queue w.chan).length) ∧
        w.offer a = { w with offered := w.offered ++ [a], refused := w.refused ++ [e] } := by
  unfold offer
  cases hclosed : M.closed w.chan with
  | true =>
    rw [hM.refuses a w.chan hclosed]
    exact .inr ⟨_, .inl rfl, rfl⟩
  | false =>
    by_cases hroom : (M.queue w.chan).length < M.maxCapacity w.chan
    · obtain ⟨ch, hsend, hqueue, hends⟩ := hM.accepts a w.chan hclosed hroom
      rw [hsend]
      exact .inl ⟨ch, ⟨rfl, hroom, hqueue, hends⟩, rfl⟩
    · have hfull := Nat.le_of_not_lt hroom
      rw [hM.full a w.chan hclosed hfull]
      exact .inr ⟨_, .inr hfull, rfl⟩

theorem Sound.offer (hM : M.Documented) {capacity : ℕ} {w : Watched M} (h : Sound capacity w)
    (a : α) : Sound capacity (w.offer a) := by
  have hcap := h.capacity_eq
  rcases offer_cases hM w a with ⟨ch, ⟨hopen, hroom, hqueue, hends⟩, heq⟩ | ⟨e, -, heq⟩
  · rw [heq]
    have hcount := h.counted hopen
    refine ⟨hends.maxCapacity.trans hcap, ?_, ?_, fun _ => ?_⟩
    · rw [hqueue, List.length_append, List.length_singleton]
      omega
    · rw [hqueue, ← List.append_assoc]
      exact h.sublist.append (List.Sublist.refl [a])
    · simp only [hqueue, List.length_append, List.length_singleton]
      omega
  · rw [heq]
    refine ⟨hcap, h.bounded, h.sublist.trans (List.sublist_append_left ..), ?_⟩
    intro hopen
    have hcount := h.counted hopen
    simp only [List.length_append, List.length_singleton]
    omega

theorem Sound.offerAll (hM : M.Documented) {capacity : ℕ} (as : List α) {w : Watched M}
    (h : Sound capacity w) : Sound capacity (w.offerAll as) := by
  induction as generalizing w with
  | nil => exact h
  | cons a as ih => exact ih (h.offer hM a)

/- A receive gives the oldest value, or nothing. -/
theorem receive_cases (hM : M.Documented) (w : Watched M) :
    w.receive = w ∨ ∃ a ch, (M.queue w.chan = a :: M.queue ch ∧ M.SameEnds w.chan ch) ∧
      w.receive = { w with chan := ch, received := w.received ++ [a] } := by
  unfold receive
  cases hrecv : M.recv w.chan with
  | none => exact .inl rfl
  | some p => exact .inr ⟨p.1, p.2, hM.recv p.1 w.chan p.2 hrecv, rfl⟩

theorem Sound.receive (hM : M.Documented) {capacity : ℕ} {w : Watched M} (h : Sound capacity w) :
    Sound capacity w.receive := by
  rcases receive_cases hM w with heq | ⟨a, ch, ⟨hqueue, hends⟩, heq⟩
  · rw [heq]
    exact h
  · have hbounded := h.bounded
    have hsublist := h.sublist
    have hcounted := h.counted
    rw [hqueue] at hbounded hsublist hcounted
    rw [heq]
    refine ⟨hends.maxCapacity.trans h.capacity_eq, ?_, ?_, ?_⟩
    · rw [List.length_cons] at hbounded
      exact Nat.le_of_succ_le hbounded
    · rw [List.append_assoc]
      exact hsublist
    · intro hopen
      have hcount := hcounted (hends.closed.symm.trans hopen)
      simp only [List.length_append, List.length_cons, List.length_nil] at hcount ⊢
      omega

theorem Sound.abandon (hM : M.Documented) {capacity : ℕ} {w : Watched M} (h : Sound capacity w) :
    Sound capacity w.abandon := by
  obtain ⟨hclosed, hqueue, hcap⟩ := hM.dropReceiver w.chan
  refine ⟨hcap.trans h.capacity_eq, ?_, ?_, ?_⟩
  · rw [Watched.abandon, hqueue]
    exact Nat.zero_le capacity
  · rw [Watched.abandon, hqueue, List.append_nil]
    exact (List.sublist_append_left ..).trans h.sublist
  · intro hopen
    exact absurd (hclosed.symm.trans hopen) (by simp)

/- The senders' side is not touched. -/
theorem receive_eq (hM : M.Documented) (w : Watched M) :
    w.receive.offered = w.offered ∧ w.receive.refused = w.refused ∧
      M.closed w.receive.chan = M.closed w.chan := by
  rcases receive_cases hM w with heq | ⟨a, ch, ⟨-, hends⟩, heq⟩
  · rw [heq]
    exact ⟨rfl, rfl, rfl⟩
  · rw [heq]
    exact ⟨rfl, rfl, hends.closed⟩

/-! ### Several offers -/

/- The receiver's side is not touched. -/
theorem offerAll_eq (hM : M.Documented) (as : List α) (w : Watched M) :
    (w.offerAll as).offered = w.offered ++ as ∧ (w.offerAll as).received = w.received ∧
      M.closed (w.offerAll as).chan = M.closed w.chan ∧ w.refused <+: (w.offerAll as).refused := by
  induction as generalizing w with
  | nil => exact ⟨(List.append_nil _).symm, rfl, rfl, List.prefix_rfl⟩
  | cons a as ih =>
    obtain ⟨hoffered, hreceived, hclosed, hrefused⟩ := ih (w.offer a)
    have hone : (w.offer a).offered = w.offered ++ [a] ∧ (w.offer a).received = w.received ∧
        M.closed (w.offer a).chan = M.closed w.chan ∧ w.refused <+: (w.offer a).refused := by
      rcases offer_cases hM w a with ⟨ch, ⟨-, -, -, hends⟩, heq⟩ | ⟨e, -, heq⟩
      · rw [heq]
        exact ⟨rfl, rfl, hends.closed, List.prefix_rfl⟩
      · rw [heq]
        exact ⟨rfl, rfl, rfl, List.prefix_append ..⟩
    refine ⟨?_, hreceived.trans hone.2.1, hclosed.trans hone.2.2.1, hone.2.2.2.trans hrefused⟩
    rw [List.append_cons, ← hone.1]
    exact hoffered

/- Nothing is refused as long as the receiver is not behind by more than the capacity. -/
theorem Sound.offerAll_refused (hM : M.Documented) {capacity : ℕ} (as : List α) {w : Watched M}
    (h : Sound capacity w) (hopen : M.closed w.chan = false) (hnone : w.refused = [])
    (hroom : w.offered.length + as.length ≤ w.received.length + capacity) :
    (w.offerAll as).refused = [] := by
  induction as generalizing w with
  | nil => exact hnone
  | cons a as ih =>
    have hcount := h.counted hopen
    rw [hnone, List.length_nil] at hcount
    rw [List.length_cons] at hroom
    have hsound := h.offer hM a
    rcases offer_cases hM w a with ⟨ch, ⟨-, -, -, hends⟩, heq⟩ | ⟨e, hclosed | hfull, -⟩
    · refine ih hsound ?_ ?_ ?_
      · rw [heq]
        exact hends.closed.trans hopen
      · rw [heq]
        exact hnone
      · rw [heq]
        simp only [List.length_append, List.length_singleton]
        omega
    · rw [hopen] at hclosed
      cases hclosed
    · rw [h.capacity_eq] at hfull
      omega

/-- While the receiver is there, nothing is missing exactly if nothing was refused. -/
theorem Sound.complete_iff {capacity : ℕ} {w : Watched M} (h : Sound capacity w)
    (hopen : M.closed w.chan = false) :
    w.received ++ M.queue w.chan = w.offered ↔ w.refused = [] := by
  have hcount := h.counted hopen
  constructor
  · intro heq
    have hlength := congrArg List.length heq
    rw [List.length_append] at hlength
    rw [← List.length_eq_zero_iff]
    omega
  · intro hnone
    rw [hnone, List.length_nil] at hcount
    apply h.sublist.eq_of_length
    rw [List.length_append]
    omega

end Watched

end Channel
