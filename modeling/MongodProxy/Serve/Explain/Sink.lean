import Mathlib.Data.List.Induction
import MongodProxy.Lib.Channel
import MongodProxy.Serve.Connection
import MongodProxy.Serve.Explain.Layer

/-!
# The event channel (explain/sink.rs)

With a bounded `mpsc::Sender` as its sink the layer never waits: `record` is a `try_send`, and
an event that finds the channel full, or its receiver gone, is dropped with a warning. Every
connection has a clone of the sender. The connections are polled and the consumer receives in
any order; no connection is changed by what the channel does, and what the consumer gets of
each is what its layer recorded, in order, less what was warned of.
-/

namespace MongodProxy.Explain
open MongodProxy Service
open Channel (Mpsc Watched TrySendError Chan)

variable {β ε ι σ φ τ κ : Type} {V : PlanVocabulary} (codec : ReplyCodec β V)
variable (S : Service ι σ φ τ Message ε κ)

/- The texts `record` logs. -/
def warning : TrySendError → String
  | .full => "explain sink channel full; event dropped"
  | .closed => "explain sink channel receiver dropped; event lost"

/-- The events a connection's layer has given to its sink. -/
def recordsOf (log : List (LoopEvent (ExplainAct β ε κ V))) : List (ExplainEvent V) :=
  log.filterMap fun
    | .service (.record event) => some event
    | _ => none

abbrev ExplainedConn (β ε σ φ τ κ : Type) (V : PlanVocabulary) :=
  Conn β ε (ExplainState σ) (ExplainFuture φ τ β ε) ReplayStream (ExplainAct β ε κ V)

/-- Connections by number, and the channel; the number an event carries is not part of it. -/
structure Site (β ε σ φ τ κ : Type) {V : PlanVocabulary} (M : Mpsc (ℕ × ExplainEvent V)) where
  conn : ℕ → ExplainedConn β ε σ φ τ κ V
  sink : Watched M

inductive SiteAction (β ι : Type) where
  | polled (c : ℕ) (io : ClientIo β ι)
  | received
  | abandoned

namespace Site

variable (M : Mpsc (ℕ × ExplainEvent V))

def start (capacity : ℕ) (states : ℕ → ExplainState σ) : Site β ε σ φ τ κ M :=
  ⟨fun c => Conn.start (states c), .new M capacity⟩

/- What a poll of a connection adds to its log goes to the channel at once. -/
def step {M : Mpsc (ℕ × ExplainEvent V)} (s : Site β ε σ φ τ κ M) : SiteAction β ι →
    Site β ε σ φ τ κ M
  | .polled c io =>
    let conn := Conn.step (explainService codec S) (s.conn c) io
    ⟨Function.update s.conn c conn,
      s.sink.offerAll ((recordsOf (conn.log.drop (s.conn c).log.length)).map (c, ·))⟩
  | .received => { s with sink := s.sink.receive }
  | .abandoned => { s with sink := s.sink.abandon }

def run (capacity : ℕ) (states : ℕ → ExplainState σ) (acts : List (SiteAction β ι)) :
    Site β ε σ φ τ κ M :=
  acts.foldl (step codec S) (start M capacity states)

def warnings {M : Mpsc (ℕ × ExplainEvent V)} (s : Site β ε σ φ τ κ M) : List String :=
  s.sink.refused.map warning

end Site

/-- What the surroundings answered to one connection. -/
def pollsOf (c : ℕ) (acts : List (SiteAction β ι)) : List (ClientIo β ι) :=
  acts.filterMap fun
    | .polled d io => if d = c then some io else none
    | _ => none

/-! ### One connection's log -/

theorem log_step (S : Service ι σ φ τ Message ε κ) (c : Conn β ε σ φ τ κ) (io : ClientIo β ι) :
    c.log <+: (Conn.step S c io).log := by
  obtain ⟨phase, s, log⟩ := c
  cases phase with
  | reading =>
    rcases hio : io.next with - | (- | (e | req)) <;> simp [Conn.step, hio]
  | calling f =>
    rcases hp : (S.pollCall io.service s f).answer with - | (e | t) <;> simp [Conn.step, hp]
  | replying t =>
    rcases hp : (S.pollNext io.service s t).answer with - | (- | (e | resp)) <;>
      simp [Conn.step, hp]
  | sending t resp =>
    rcases hio : io.send with - | (e | u) <;> simp [Conn.step, hio]
  | closed result => exact List.prefix_rfl

theorem recordsOf_step (c : ExplainedConn β ε σ φ τ κ V) (io : ClientIo β ι) :
    recordsOf (Conn.step (explainService codec S) c io).log
      = recordsOf c.log
        ++ recordsOf ((Conn.step (explainService codec S) c io).log.drop c.log.length) := by
  obtain ⟨new, hnew⟩ := log_step (explainService codec S) c io
  rw [← hnew, List.drop_left]
  exact List.filterMap_append

/-! ### Runs -/

section
variable (M : Mpsc (ℕ × ExplainEvent V)) (capacity : ℕ) (states : ℕ → ExplainState σ)

theorem run_concat (acts : List (SiteAction β ι)) (a : SiteAction β ι) :
    Site.run codec S M capacity states (acts ++ [a])
      = (Site.run codec S M capacity states acts).step codec S a := by
  rw [Site.run, Site.run, List.foldl_append]
  rfl

/- Each connection as if it were alone, and what it offered to the channel. -/
structure Apart {M : Mpsc (ℕ × ExplainEvent V)} (acts : List (SiteAction β ι))
    (s : Site β ε σ φ τ κ M) : Prop where
  conn : ∀ c, s.conn c = Conn.run (explainService codec S) (Conn.start (states c)) (pollsOf c acts)
  told : ∀ c, (s.sink.offered.filter fun e => e.1 = c).map Prod.snd = recordsOf (s.conn c).log

variable {codec S M capacity states}

theorem pollsOf_snoc (c d : ℕ) (acts : List (SiteAction β ι)) (io : ClientIo β ι) :
    pollsOf c (acts ++ [.polled d io])
      = pollsOf c acts ++ if d = c then [io] else [] := by
  unfold pollsOf
  rw [List.filterMap_append]
  split_ifs with h <;> simp [h]

theorem Apart.polled (hM : M.Documented) {acts : List (SiteAction β ι)} {s : Site β ε σ φ τ κ M}
    (h : Apart codec S states acts s) (d : ℕ) (io : ClientIo β ι) :
    Apart codec S states (acts ++ [.polled d io]) (s.step codec S (.polled d io)) where
  conn := by
    intro c
    have hc := h.conn c
    rw [pollsOf_snoc]
    by_cases heq : c = d
    · rw [heq] at hc ⊢
      rw [if_pos rfl, Conn.run, List.foldl_append]
      simp only [Site.step, Function.update_self]
      rw [hc]
      rfl
    · rw [if_neg (Ne.symm heq), List.append_nil]
      simp only [Site.step, Function.update_of_ne heq]
      exact hc
  told := by
    intro c
    have hc := h.told c
    simp only [Site.step]
    rw [(Watched.offerAll_eq hM _ _).1, List.filter_append, List.map_append, hc]
    by_cases heq : c = d
    · rw [heq, Function.update_self, recordsOf_step]
      simp [List.filter_map, Function.comp_def]
    · rw [Function.update_of_ne heq]
      simp [List.filter_map, Function.comp_def, Ne.symm heq]

theorem Apart.consumer {acts : List (SiteAction β ι)} {s s' : Site β ε σ φ τ κ M}
    (h : Apart codec S states acts s) {a : SiteAction β ι} (ha : ∀ c io, a ≠ .polled c io)
    (hconn : s'.conn = s.conn) (hoffered : s'.sink.offered = s.sink.offered) :
    Apart codec S states (acts ++ [a]) s' where
  conn := by
    intro c
    have hpolls : pollsOf c (acts ++ [a]) = pollsOf c acts := by
      unfold pollsOf
      rw [List.filterMap_append]
      cases a with
      | polled d io => exact absurd rfl (ha d io)
      | _ => simp
    rw [hconn, hpolls]
    exact h.conn c
  told := by
    intro c
    rw [hconn, hoffered]
    exact h.told c

variable (codec S states) in
theorem run_apart (hM : M.Documented) (hpos : 0 < capacity) (acts : List (SiteAction β ι)) :
    Apart codec S states acts (Site.run codec S M capacity states acts) ∧
      (Site.run codec S M capacity states acts).sink.Sound capacity := by
  induction acts using List.reverseRecOn with
  | nil => exact ⟨⟨fun _ => rfl, fun _ => rfl⟩, Watched.sound_new hM hpos⟩
  | append_singleton acts a ih =>
    obtain ⟨hapart, hsound⟩ := ih
    rw [run_concat]
    cases a with
    | polled d io => exact ⟨hapart.polled hM d io, hsound.offerAll hM _⟩
    | received =>
      exact ⟨hapart.consumer (by simp) rfl (Watched.receive_eq hM _).1, hsound.receive hM⟩
    | abandoned => exact ⟨hapart.consumer (by simp) rfl rfl, hsound.abandon hM⟩

/-! ### What is lost -/

theorem step_refused (hM : M.Documented) (s : Site β ε σ φ τ κ M) (a : SiteAction β ι) :
    s.sink.refused <+: (s.step codec S a).sink.refused := by
  cases a with
  | polled d io => exact (Watched.offerAll_eq hM _ _).2.2.2
  | received =>
    simp only [Site.step, (Watched.receive_eq hM _).2.1]
    exact List.prefix_rfl
  | abandoned => exact List.prefix_rfl

variable (codec S capacity states) in
theorem run_refused (hM : M.Documented) {front acts : List (SiteAction β ι)} (h : front <+: acts) :
    (Site.run codec S M capacity states front).sink.refused
      <+: (Site.run codec S M capacity states acts).sink.refused := by
  obtain ⟨rest, rfl⟩ := h
  induction rest using List.reverseRecOn with
  | nil => simp
  | append_singleton rest a ih =>
    rw [← List.append_assoc, run_concat]
    exact ih.trans (step_refused hM _ a)

variable (codec S states) in
theorem run_open (hM : M.Documented) (hpos : 0 < capacity) {acts : List (SiteAction β ι)}
    (h : .abandoned ∉ acts) :
    M.closed (Site.run codec S M capacity states acts).sink.chan = false := by
  induction acts using List.reverseRecOn with
  | nil => exact (hM.channel capacity hpos).2.2
  | append_singleton acts a ih =>
    rw [List.mem_append, not_or] at h
    rw [run_concat]
    cases a with
    | polled d io => exact (Watched.offerAll_eq hM _ _).2.2.1.trans (ih h.1)
    | received => exact (Watched.receive_eq hM _).2.2.trans (ih h.1)
    | abandoned => exact absurd (List.mem_singleton_self _) h.2

variable (codec S states) in
/- A consumer that is never behind by more than the capacity misses nothing. -/
theorem run_unrefused (hM : M.Documented) (hpos : 0 < capacity) {acts : List (SiteAction β ι)}
    (habandoned : .abandoned ∉ acts)
    (hroom : ∀ front, front <+: acts →
      (Site.run codec S M capacity states front).sink.offered.length
        ≤ (Site.run codec S M capacity states front).sink.received.length + capacity) :
    (Site.run codec S M capacity states acts).sink.refused = [] := by
  induction acts using List.reverseRecOn with
  | nil => rfl
  | append_singleton acts a ih =>
    have hnone := ih (fun h => habandoned (List.mem_append_left _ h))
      fun front hfront => hroom front (hfront.trans (List.prefix_append ..))
    have hlast := hroom _ List.prefix_rfl
    rw [run_concat] at hlast ⊢
    cases a with
    | polled d io =>
      obtain ⟨hoffered, hreceived, -, -⟩ := Watched.offerAll_eq hM _ _
      refine (run_apart codec S states hM hpos acts).2.offerAll_refused hM _
        (run_open codec S states hM hpos fun h => habandoned (List.mem_append_left _ h)) hnone ?_
      simp only [Site.step] at hlast
      rw [hoffered, hreceived, List.length_append] at hlast
      exact hlast
    | received => exact (Watched.receive_eq hM _).2.1.trans hnone
    | abandoned => exact absurd (List.mem_append_right _ (List.mem_singleton_self _)) habandoned

end

/-- Whatever the interleaving: each connection is what it would be alone; what the consumer has got
and what is queued was recorded in that order, and the queue is within its capacity; and as long as
the consumer is there, every other event was warned of, and there is none exactly if the consumer
was never behind by more than the capacity. -/
theorem events_reach_consumer {M : Mpsc (ℕ × ExplainEvent V)} (hM : M.Documented) {capacity : ℕ}
    (hpos : 0 < capacity) (states : ℕ → ExplainState σ) (acts : List (SiteAction β ι)) :
    (∀ c, (Site.run codec S M capacity states acts).conn c
        = Conn.run (explainService codec S) (Conn.start (states c)) (pollsOf c acts) ∧
      ((Site.run codec S M capacity states acts).sink.offered.filter
          fun e => e.1 = c).map Prod.snd
        = recordsOf ((Site.run codec S M capacity states acts).conn c).log) ∧
    ((Site.run codec S M capacity states acts).sink.received
        ++ M.queue (Site.run codec S M capacity states acts).sink.chan).Sublist
      (Site.run codec S M capacity states acts).sink.offered ∧
    (M.queue (Site.run codec S M capacity states acts).sink.chan).length ≤ capacity ∧
    (.abandoned ∉ acts →
      (Site.run codec S M capacity states acts).sink.offered.length
        = (Site.run codec S M capacity states acts).sink.received.length
          + (M.queue (Site.run codec S M capacity states acts).sink.chan).length
          + (Site.run codec S M capacity states acts).warnings.length ∧
      ((Site.run codec S M capacity states acts).sink.received
          ++ M.queue (Site.run codec S M capacity states acts).sink.chan
            = (Site.run codec S M capacity states acts).sink.offered ↔
        ∀ front, front <+: acts →
          (Site.run codec S M capacity states front).sink.offered.length
            ≤ (Site.run codec S M capacity states front).sink.received.length + capacity)) := by
  obtain ⟨hapart, hsound⟩ := run_apart codec S states hM hpos acts
  refine ⟨fun c => ⟨hapart.conn c, hapart.told c⟩, hsound.sublist, hsound.bounded, ?_⟩
  intro habandoned
  have hopen := run_open codec S states hM hpos habandoned
  refine ⟨?_, ?_⟩
  · rw [Site.warnings, List.length_map]
    exact hsound.counted hopen
  · rw [hsound.complete_iff hopen]
    refine ⟨?_, run_unrefused codec S states hM hpos habandoned⟩
    intro hnone front hfront
    have hfrontOpen := run_open codec S states hM hpos fun h => habandoned (hfront.subset h)
    have hfrontNone := run_refused codec S capacity states hM hfront
    rw [hnone, List.prefix_nil] at hfrontNone
    obtain ⟨-, hfrontSound⟩ := run_apart codec S states hM hpos front
    have hcount := hfrontSound.counted hfrontOpen
    have hbounded := hfrontSound.bounded
    rw [hfrontNone, List.length_nil] at hcount
    omega

/-! ### Two connections and a slow consumer -/

/- Answers every call with one reply. -/
def oneReply (reply : Message) : Service Unit Unit Unit Bool Message Unit Unit where
  call s _ := ((), s, [])
  pollCall _ s f := ⟨.ready (.ok true), f, s, []⟩
  pollNext _ s t := ⟨.ready (if t then some (.ok reply) else none), false, s, []⟩

def scanVocabulary : PlanVocabulary := ⟨Unit, Unit, Unit, Unit⟩

/- Every explain tells of the same scan. -/
def scanCodec : ReplyCodec Unit scanVocabulary where
  explainReply _ := .ok ⟨"sample.movies".toList, ⟨3, ⟨0, by decide⟩, ⟨9, by decide⟩, ⟨0, by decide⟩,
    .mk ⟨(), ⟨0, by decide⟩, none, none, none, none, none, none⟩ none none none none⟩⟩
  serverError _ := .error ()
  preview _ := ""
  lowercase s := s

def findRequest : Message :=
  ⟨⟨7⟩, none, .message ⟨.empty, [.body ((Document.new.insert "find" (.string "movies")).insert
    "$db" (.string "sample"))], none⟩⟩

def okReply : Message :=
  ⟨⟨8⟩, none, .message ⟨.empty, [.body (Document.new.insert "ok" (.int32 1))], none⟩⟩

/- Each connection explains a find before the consumer looks, and the channel has room for one
event. -/
def twoFinds : List (SiteAction Unit Unit) :=
  List.replicate 8 (.polled 0 ⟨.ready (some (.ok findRequest)), .pending, ()⟩)
    ++ List.replicate 8 (.polled 1 ⟨.ready (some (.ok findRequest)), .pending, ()⟩) ++ [.received]

theorem twoFinds_reach :
    (Site.run scanCodec (oneReply okReply) (Chan.mpsc _) 1 (fun _ => .new ()) twoFinds).warnings
        = [warning .full] ∧
      (Site.run scanCodec (oneReply okReply) (Chan.mpsc _) 1 (fun _ => .new ())
          twoFinds).sink.offered.length
        = (Site.run scanCodec (oneReply okReply) (Chan.mpsc _) 1 (fun _ => .new ())
            twoFinds).sink.received.length
          + ((Chan.mpsc _).queue (Site.run scanCodec (oneReply okReply) (Chan.mpsc _) 1
            (fun _ => .new ()) twoFinds).sink.chan).length
          + (Site.run scanCodec (oneReply okReply) (Chan.mpsc _) 1 (fun _ => .new ())
            twoFinds).warnings.length := by
  have hreach := events_reach_consumer scanCodec (oneReply okReply) (Chan.mpsc_documented _)
    Nat.one_pos (fun _ => .new ()) twoFinds
  have hthere : .abandoned ∉ twoFinds := by simp [twoFinds]
  exact ⟨by decide +kernel, (hreach.2.2.2 hthere).1⟩

end MongodProxy.Explain
