import Mathlib.Data.List.Infix
import Mathlib.Logic.Function.Basic
import MongodProxy.Serve.ProxyClient

/-!
# Many callers, one upstream socket

Any number of calls on clones of one `ProxyClient`, interleaved step by step with each
other and with the upstream. `κ` names the calls. The socket keeps its order in both
directions. The upstream takes requests in the order written; it answers nothing to a
fire-and-forget request, one OP_REPLY to an OP_QUERY, and to any other request frames
with MORE_TO_COME followed by one without. A call's future is polled until it is ready
and never dropped before, a reply stream never before it has answered `None`.
-/

namespace MongodProxy

namespace Shared

inductive CallStatus where
  | idle
  | calling (f : ProxyClientRequestFuture)
  | streaming (t : ProxyResponseStream)
  | ended
  | failed

/- `toServer` holds the calls whose requests are written and not yet taken by the upstream,
`serving` the call whose request it is answering. `produced` is what it has answered to each
call, which the client never sees as such. -/
structure System (κ : Type) where
  status : κ → CallStatus
  inner : ProxyClientInner
  toServer : List κ
  serving : Option κ
  fromServer : List Message
  produced : κ → List Message
  yielded : κ → List Message

def System.initial {κ : Type} : System κ where
  status _ := .idle
  inner := ⟨false⟩
  toServer := []
  serving := none
  fromServer := []
  produced _ := []
  yielded _ := []

/- `arrived` says whether a frame in flight has reached the reader. -/
structure PollIo (β : Type) where
  grant : Bool
  send : Poll (Except (MessageWriteError β) Unit)
  arrived : Bool

inductive Action (β κ : Type) where
  | call (k : κ)
  | poll (k : κ) (io : PollIo β)
  | serve
  | reply (m : Message)

variable {β κ : Type} (req : κ → Message)

/- The upstream answers an OP_QUERY with an OP_REPLY. -/
def fits (request reply : Message) : Bool :=
  match request.operation, reply.operation with
  | .query _, .reply _ => true
  | .query _, _ => false
  | _, _ => true

section
variable [DecidableEq κ]

/- A poll of a call future. A frame that cannot be encoded leaves nothing on the socket. -/
def pollCalling (s : System κ) (k : κ) (io : PollIo β) (f : ProxyClientRequestFuture) : System κ :=
  let send := match io.send with
    | .pending => .pending
    | .ready (.ok ()) => .ready (.ok ())
    | .ready (.error e) => .ready (.error (.messageWriteError e))
  let p := ProxyClient.pollCall ⟨io.grant, send, .pending⟩ s.inner f
  let status := match p.answer with
    | .pending => .calling p.self
    | .ready (.ok t) => .streaming t
    | .ready (.error _) => .failed
  { s with
    status := Function.update s.status k status
    inner := p.state
    toServer := s.toServer ++ p.events.map fun _ => k }

/- A poll of a reply stream, with what the socket's reader answers. -/
def pollStreaming (s : System κ) (k : κ) (io : PollIo β) (t : ProxyResponseStream) : System κ :=
  let read := match io.arrived, s.fromServer with
    | true, m :: _ => .ready (some (.ok m))
    | _, _ => .pending
  let p := ProxyClient.pollNext (β := β) ⟨false, .pending, read⟩ s.inner t
  let status := match p.answer with
    | .ready none => .ended
    | .ready (some (.error _)) => .failed
    | _ => .streaming p.self
  let item := match p.answer with
    | .ready (some (.ok m)) => [m]
    | _ => []
  { s with
    status := Function.update s.status k status
    inner := p.state
    fromServer := s.fromServer.drop p.events.length
    yielded := Function.update s.yielded k (s.yielded k ++ item) }

def step (s : System κ) : Action β κ → System κ
  | .call k =>
    match s.status k with
    | .idle =>
      let c := ProxyClient.call s.inner (req k)
      { s with status := Function.update s.status k (.calling c.1), inner := c.2.1 }
    | _ => s
  | .poll k io =>
    match s.status k with
    | .calling f => pollCalling s k io f
    | .streaming t => pollStreaming s k io t
    | _ => s
  | .serve =>
    match s.serving, s.toServer with
    | none, k :: rest =>
      if moreToCome (req k).operation then { s with toServer := rest }
      else { s with toServer := rest, serving := some k }
    | _, _ => s
  | .reply m =>
    match s.serving with
    | none => s
    | some k =>
      if fits (req k) m then
        { s with
          serving := if moreToCome m.operation then some k else none
          fromServer := s.fromServer ++ [m]
          produced := Function.update s.produced k (s.produced k ++ [m]) }
      else s

def run (acts : List (Action β κ)) : System κ := acts.foldl (step req) .initial

end

/-! ### What holds between any two steps -/

/- Frames with MORE_TO_COME and then one without. -/
def Terminated (frames : List Message) : Prop :=
  ∃ more last, frames = more ++ [last] ∧ (∀ m ∈ more, moreToCome m.operation = true) ∧
    moreToCome last.operation = false

/-- A complete answer to a request. -/
def Answer (request : Message) (frames : List Message) : Prop :=
  if moreToCome request.operation then frames = [] else Terminated frames

/- The state of the socket and of the upstream, given the call whose replies are awaited. -/
inductive Line (s : System κ) : Option κ → Prop where
  | free (hs : s.serving = none) (hf : s.fromServer = [])
    (ht : ∀ j ∈ s.toServer, moreToCome (req j).operation = true) : Line s none
  | queued (k : κ) (before : List κ) (ht : s.toServer = before ++ [k])
    (hb : ∀ j ∈ before, moreToCome (req j).operation = true) (hs : s.serving = none)
    (hf : s.fromServer = []) (hp : s.produced k = []) (hy : s.yielded k = []) : Line s (some k)
  | serving (k : κ) (ht : s.toServer = []) (hs : s.serving = some k)
    (hp : s.produced k = s.yielded k ++ s.fromServer)
    (hm : ∀ m ∈ s.produced k, moreToCome m.operation = true) : Line s (some k)
  | served (k : κ) (ht : s.toServer = []) (hs : s.serving = none)
    (hp : s.produced k = s.yielded k ++ s.fromServer)
    (hm : ∀ m ∈ s.yielded k, moreToCome m.operation = true) (hd : Terminated (s.produced k)) :
    Line s (some k)

/- Whether a call with this status owns the guard. -/
def Owning : CallStatus → Prop
  | .calling f => f.stage = .sending
  | .streaming t => t = .streaming
  | _ => False

/- What is known of one call, by its status. -/
def CallInv (request : Message) (produced yielded : List Message) : CallStatus → Prop
  | .calling f => f.req = request ∧ f.fireAndForget = moreToCome request.operation ∧
      produced = [] ∧ yielded = []
  | .streaming .streaming => moreToCome request.operation = false
  | .streaming .done => yielded = produced ∧ Answer request produced
  | .ended => yielded = produced ∧ Answer request produced
  | .idle => produced = [] ∧ yielded = []
  | .failed => produced = [] ∧ yielded = []

structure Inv (s : System κ) : Prop where
  unlocked : s.inner.locked = false → ∀ k, ¬ Owning (s.status k)
  unique : ∀ j k, Owning (s.status j) → Owning (s.status k) → j = k
  line : ∃ cur, Line req s cur ∧ ∀ k, s.status k = .streaming .streaming ↔ cur = some k
  call : ∀ k, CallInv (req k) (s.produced k) (s.yielded k) (s.status k)

variable {req}

/- A call that owns the guard without streaming keeps the socket free of replies. -/
theorem Inv.line_free {s : System κ} (h : Inv req s) {k : κ} (hk : Owning (s.status k))
    (hn : s.status k ≠ .streaming .streaming) : Line req s none := by
  obtain ⟨cur, hline, hcur⟩ := h.line
  cases cur with
  | none => exact hline
  | some j =>
    have hj : s.status j = .streaming .streaming := (hcur j).mpr rfl
    have hjo : Owning (s.status j) := by
      rw [hj]
      rfl
    have hjk := h.unique j k hjo hk
    rw [hjk] at hj
    exact absurd hj hn

theorem Inv.line_streaming {s : System κ} (h : Inv req s) {k : κ}
    (hk : s.status k = .streaming .streaming) : Line req s (some k) := by
  obtain ⟨cur, hline, hcur⟩ := h.line
  rw [(hcur k).mp hk] at hline
  exact hline

/- The line is a matter of the socket and the upstream alone. -/
theorem Line.of_eq {s s' : System κ} {cur : Option κ} (h : Line req s cur)
    (ht : s'.toServer = s.toServer) (hs : s'.serving = s.serving)
    (hf : s'.fromServer = s.fromServer) (hp : s'.produced = s.produced)
    (hy : s'.yielded = s.yielded) : Line req s' cur := by
  cases h with
  | free h1 h2 h3 => exact .free (hs.trans h1) (hf.trans h2) (by rw [ht]; exact h3)
  | queued k before h1 h2 h3 h4 h5 h6 =>
    exact .queued k before (ht.trans h1) h2 (hs.trans h3) (hf.trans h4) (by rw [hp]; exact h5)
      (by rw [hy]; exact h6)
  | serving k h1 h2 h3 h4 =>
    exact .serving k (ht.trans h1) (hs.trans h2) (by rw [hp, hy, hf]; exact h3)
      (by rw [hp]; exact h4)
  | served k h1 h2 h3 h4 h5 =>
    exact .served k (ht.trans h1) (hs.trans h2) (by rw [hp, hy, hf]; exact h3)
      (by rw [hy]; exact h4) (by rw [hp]; exact h5)

/- A frame without MORE_TO_COME is the last one. -/
theorem Terminated.eq_nil {front rest : List Message} {m : Message}
    (h : Terminated (front ++ m :: rest)) (hm : moreToCome m.operation = false) : rest = [] := by
  obtain ⟨more, last, heq, hmore, -⟩ := h
  rcases List.eq_nil_or_concat rest with hr | ⟨rest', z, hr⟩
  · exact hr
  · rw [hr] at heq
    have hsplit : (front ++ m :: rest') ++ [z] = more ++ [last] := by
      rw [← heq]
      simp
    have hinj := List.append_inj' hsplit rfl
    have hmem : m ∈ more := by
      rw [← hinj.1]
      simp
    rw [hmore m hmem] at hm
    cases hm

theorem owning_sending {s : System κ} {k : κ} {f : ProxyClientRequestFuture}
    (hk : s.status k = .calling f) (hst : f.stage = .sending) :
    Owning (s.status k) ∧ s.status k ≠ .streaming .streaming := by
  rw [hk]
  exact ⟨hst, fun hc => by cases hc⟩

theorem not_streaming_of_free {s : System κ} {k : κ} (h : Inv req s) (hk : Owning (s.status k))
    (hn : s.status k ≠ .streaming .streaming) (j : κ) : s.status j ≠ .streaming .streaming := by
  intro hj
  have hjo : Owning (s.status j) := by
    rw [hj]
    rfl
  rw [h.unique j k hjo hk] at hj
  exact hn hj

theorem owning_streaming {s : System κ} {k : κ} (hk : s.status k = .streaming .streaming) :
    Owning (s.status k) := by
  rw [hk]
  rfl

theorem inv_initial : Inv req (.initial : System κ) where
  unlocked := fun _ _ ho => by cases ho
  unique := fun _ _ ho => by cases ho
  line := ⟨none, .free rfl rfl (fun _ hj => by cases hj), fun _ => ⟨nofun, nofun⟩⟩
  call := fun _ => ⟨rfl, rfl⟩

theorem Inv.yielded_of_not_streaming {s : System κ} (h : Inv req s) {k : κ}
    (hk : s.status k ≠ .streaming .streaming) : s.yielded k = s.produced k := by
  have hcall := h.call k
  cases hst : s.status k with
  | idle =>
    rw [hst] at hcall
    exact hcall.2.trans hcall.1.symm
  | calling f =>
    rw [hst] at hcall
    exact hcall.2.2.2.trans hcall.2.2.1.symm
  | streaming t =>
    cases t with
    | done =>
      rw [hst] at hcall
      exact hcall.1
    | streaming => exact absurd hst hk
  | ended =>
    rw [hst] at hcall
    exact hcall.1
  | failed =>
    rw [hst] at hcall
    exact hcall.2.trans hcall.1.symm

theorem Inv.produced_of_streaming {s : System κ} (h : Inv req s) {k : κ}
    (hk : s.status k = .streaming .streaming) : s.produced k = s.yielded k ++ s.fromServer := by
  cases h.line_streaming hk with
  | queued _ before h1 h2 h3 h4 h5 h6 =>
    rw [h4, h5, h6]
    rfl
  | serving _ h1 h2 h3 h4 => exact h3
  | served _ h1 h2 h3 h4 h5 => exact h3

variable [DecidableEq κ]

/- A call moves on: what the other calls know stays. -/
theorem owning_update {s : System κ} {k : κ} {st : CallStatus} (h : Inv req s)
    (hk : Owning st → Owning (s.status k)) (i j : κ)
    (hi : Owning (Function.update s.status k st i)) (hj : Owning (Function.update s.status k st j)) :
    i = j := by
  have hold : ∀ l, Owning (Function.update s.status k st l) → Owning (s.status l) := by
    intro l hl
    by_cases hlk : l = k
    · subst hlk
      rw [Function.update_self] at hl
      exact hk hl
    · rwa [Function.update_of_ne hlk] at hl
  exact h.unique i j (hold i hi) (hold j hj)

/- After the owner has let go nobody owns the guard. -/
theorem not_owning_update {s : System κ} {k : κ} (st : CallStatus) (h : Inv req s)
    (hk : Owning (s.status k)) (hst : ¬ Owning st) (j : κ) :
    ¬ Owning (Function.update s.status k st j) := by
  apply (Function.forall_update_iff s.status fun _ st => ¬ Owning st).mpr
  exact ⟨hst, fun j hjk hj => hjk (h.unique j k hj hk)⟩

theorem not_owning_of_unlocked {s : System κ} {k : κ} {st : CallStatus} (h : Inv req s)
    (hl : s.inner.locked = false) (hst : ¬ Owning st) (j : κ) :
    ¬ Owning (Function.update s.status k st j) := by
  apply (Function.forall_update_iff s.status fun _ st => ¬ Owning st).mpr
  exact ⟨hst, fun j _ => h.unlocked hl j⟩

theorem call_update {s : System κ} {k : κ} {st : CallStatus} {produced yielded : κ → List Message}
    (h : Inv req s) (hp : ∀ j, j ≠ k → produced j = s.produced j)
    (hy : ∀ j, j ≠ k → yielded j = s.yielded j)
    (hk : CallInv (req k) (produced k) (yielded k) st) (j : κ) :
    CallInv (req j) (produced j) (yielded j) (Function.update s.status k st j) := by
  apply (Function.forall_update_iff s.status fun j st =>
    CallInv (req j) (produced j) (yielded j) st).mpr
  refine ⟨hk, ?_⟩
  intro j hjk
  rw [hp j hjk, hy j hjk]
  exact h.call j

/- The streaming call is still the one named when a call that does not stream moves on. -/
theorem streaming_update {s : System κ} {k : κ} {st : CallStatus} {cur : Option κ}
    (hcur : ∀ j, s.status j = .streaming .streaming ↔ cur = some j)
    (hk : s.status k ≠ .streaming .streaming) (hst : st ≠ .streaming .streaming) (j : κ) :
    Function.update s.status k st j = .streaming .streaming ↔ cur = some j := by
  apply (Function.forall_update_iff s.status fun j st =>
    st = .streaming .streaming ↔ cur = some j).mpr
  refine ⟨?_, fun j _ => hcur j⟩
  exact ⟨fun h => absurd h hst, fun h => absurd ((hcur k).mpr h) hk⟩

/-! ### Calls and their futures -/

theorem Inv.step_call {s : System κ} (h : Inv req s) (k : κ) :
    Inv req (step req s (.call k : Action β κ)) := by
  cases hk : s.status k with
  | idle =>
    simp only [step, hk, ProxyClient.call]
    have hinv := h.call k
    rw [hk] at hinv
    obtain ⟨cur, hline, hcur⟩ := h.line
    refine ⟨?_, owning_update h (fun ho => by cases ho), ?_, ?_⟩
    · exact fun hl j => not_owning_of_unlocked h hl (fun ho => by cases ho) j
    · have hne : s.status k ≠ .streaming .streaming := by
        rw [hk]
        exact fun hc => by cases hc
      exact ⟨cur, hline.of_eq rfl rfl rfl rfl rfl,
        streaming_update hcur hne (fun hc => by cases hc)⟩
    · exact call_update h (fun _ _ => rfl) (fun _ _ => rfl) ⟨rfl, rfl, hinv.1, hinv.2⟩
  | calling f => simpa only [step, hk] using h
  | streaming t => simpa only [step, hk] using h
  | ended => simpa only [step, hk] using h
  | failed => simpa only [step, hk] using h

/- The call takes the guard, which was free. -/
theorem Inv.lock {s : System κ} (h : Inv req s) {k : κ} {f : ProxyClientRequestFuture}
    (hk : s.status k = .calling f) (hl : s.inner.locked = false) :
    Inv req { s with
      status := Function.update s.status k (.calling { f with stage := .sending })
      inner := ⟨true⟩ } := by
  have hfree := h.unlocked hl
  have hinv := h.call k
  rw [hk] at hinv
  obtain ⟨cur, hline, hcur⟩ := h.line
  refine ⟨fun hc => (by cases hc), ?_, ?_, ?_⟩
  · -- nobody owned it before
    have hown : ∀ j, Owning (Function.update s.status k (.calling { f with stage := .sending }) j) →
        j = k := by
      intro j hj
      by_contra hjk
      rw [Function.update_of_ne hjk] at hj
      exact hfree j hj
    intro i j hi hj
    rw [hown i hi, hown j hj]
  · have hne : s.status k ≠ .streaming .streaming := by
      rw [hk]
      exact fun hc => by cases hc
    exact ⟨cur, hline.of_eq rfl rfl rfl rfl rfl,
      streaming_update hcur hne (fun hc => by cases hc)⟩
  · exact call_update h (fun _ _ => rfl) (fun _ _ => rfl) hinv

section
variable {s : System κ} {k : κ} {f : ProxyClientRequestFuture}

theorem not_streaming_update {st : CallStatus} (h : Inv req s) (hk : Owning (s.status k))
    (hn : s.status k ≠ .streaming .streaming) (hst : st ≠ .streaming .streaming) (j : κ) :
    Function.update s.status k st j = .streaming .streaming ↔ none = some j := by
  have hfree : ∀ j, s.status j = .streaming .streaming ↔ none = some j := by
    intro j
    exact ⟨fun hj => absurd hj (not_streaming_of_free h hk hn j), fun hc => by cases hc⟩
  exact streaming_update hfree hn hst j

/- The request could not be encoded; the guard is dropped. -/
theorem Inv.sendFailed (h : Inv req s) (hk : s.status k = .calling f) (hst : f.stage = .sending) :
    Inv req { s with status := Function.update s.status k .failed, inner := ⟨false⟩ } := by
  obtain ⟨hown, hne⟩ := owning_sending hk hst
  have hinv := h.call k
  rw [hk] at hinv
  have hno := not_owning_update .failed h hown (fun hc => by cases hc)
  refine ⟨fun _ => hno, fun i j hi => absurd hi (hno i), ⟨none, ?_, ?_⟩, ?_⟩
  · exact (h.line_free hown hne).of_eq rfl rfl rfl rfl rfl
  · exact fun j => not_streaming_update h hown hne (fun hc => by cases hc) j
  · exact call_update h (fun _ _ => rfl) (fun _ _ => rfl) ⟨hinv.2.2.1, hinv.2.2.2⟩

/- A fire-and-forget request is written and the guard dropped. -/
theorem Inv.sentForgotten (h : Inv req s) (hk : s.status k = .calling f) (hst : f.stage = .sending)
    (hff : moreToCome (req k).operation = true) :
    Inv req { s with
      status := Function.update s.status k (.streaming .done)
      inner := ⟨false⟩
      toServer := s.toServer ++ [k] } := by
  obtain ⟨hown, hne⟩ := owning_sending hk hst
  have hinv := h.call k
  rw [hk] at hinv
  have hno := not_owning_update (.streaming .done) h hown (fun hc => by cases hc)
  refine ⟨fun _ => hno, fun i j hi => absurd hi (hno i), ⟨none, ?_, ?_⟩, ?_⟩
  · cases h.line_free hown hne with
    | free h1 h2 h3 =>
      refine .free h1 h2 ?_
      intro j hj
      rcases List.mem_append.mp hj with hj | hj
      · exact h3 j hj
      · rw [List.mem_singleton.mp hj]
        exact hff
  · exact fun j => not_streaming_update h hown hne (fun hc => by cases hc) j
  · apply call_update h (fun _ _ => rfl) (fun _ _ => rfl)
    refine ⟨hinv.2.2.2.trans hinv.2.2.1.symm, ?_⟩
    simp only [Answer, hff, if_true]
    exact hinv.2.2.1

/- Any other request is written and the guard goes into the reply stream. -/
theorem Inv.sentStreaming (h : Inv req s) (hk : s.status k = .calling f) (hst : f.stage = .sending)
    (hff : moreToCome (req k).operation = false) (hl : s.inner.locked = true) :
    Inv req { s with
      status := Function.update s.status k (.streaming .streaming)
      toServer := s.toServer ++ [k] } := by
  obtain ⟨hown, hne⟩ := owning_sending hk hst
  have hinv := h.call k
  rw [hk] at hinv
  refine ⟨fun hc => (by rw [hl] at hc; cases hc), owning_update h (fun _ => hown), ⟨some k, ?_, ?_⟩, ?_⟩
  · cases h.line_free hown hne with
    | free h1 h2 h3 => exact .queued k s.toServer rfl h3 h1 h2 hinv.2.2.1 hinv.2.2.2
  · intro j
    dsimp only
    by_cases hjk : j = k
    · subst hjk
      rw [Function.update_self]
      exact ⟨fun _ => rfl, fun _ => rfl⟩
    · rw [Function.update_of_ne hjk]
      refine ⟨fun hj => absurd hj (not_streaming_of_free h hown hne j), fun hc => ?_⟩
      exact absurd (Option.some.inj hc).symm hjk
  · exact call_update h (fun _ _ => rfl) (fun _ _ => rfl) hff

theorem Inv.pollCalling (h : Inv req s) (hk : s.status k = .calling f) (io : PollIo β) :
    Inv req (Shared.pollCalling s k io f) := by
  have hinv := h.call k
  rw [hk] at hinv
  have hsame : Function.update s.status k (.calling f) = s.status := by
    rw [← hk, Function.update_eq_self]
  obtain ⟨request, fireAndForget, stage⟩ := f
  cases stage with
  | locking =>
    by_cases hlock : s.inner.locked = false ∧ io.grant = true
    · simp only [Shared.pollCalling, ProxyClient.pollCall, if_pos hlock, List.map_nil,
        List.append_nil]
      exact h.lock hk hlock.1
    · simp only [Shared.pollCalling, ProxyClient.pollCall, if_neg hlock, List.map_nil,
        List.append_nil, hsame]
      exact h
  | sending =>
    rcases hio : io.send with - | (e | u)
    · simp only [Shared.pollCalling, ProxyClient.pollCall, hio, List.map_nil, List.append_nil,
        hsame]
      exact h
    · simp only [Shared.pollCalling, ProxyClient.pollCall, hio, List.map_nil, List.append_nil]
      exact h.sendFailed hk rfl
    · cases hf : fireAndForget with
      | true =>
        simp only [Shared.pollCalling, ProxyClient.pollCall, hio, if_true, List.map_cons,
          List.map_nil]
        exact h.sentForgotten hk rfl (hinv.2.1.symm.trans hf)
      | false =>
        have hl : s.inner.locked = true := by
          by_contra hl
          have hown := (owning_sending hk rfl).1
          exact h.unlocked (by simpa using hl) k hown
        simp only [Shared.pollCalling, ProxyClient.pollCall, hio, Bool.false_eq_true, if_false,
          List.map_cons, List.map_nil]
        exact h.sentStreaming hk rfl (hinv.2.1.symm.trans hf) hl

end

/-! ### Reply streams -/

section
variable {s : System κ} {k : κ}

/- A reply that announces another one. -/
theorem Inv.yieldMore (h : Inv req s) (hk : s.status k = .streaming .streaming) {m : Message}
    {rest : List Message} (hf : s.fromServer = m :: rest) (hm : moreToCome m.operation = true) :
    Inv req { s with
      fromServer := rest
      yielded := Function.update s.yielded k (s.yielded k ++ [m]) } := by
  have hcall := h.call k
  rw [hk] at hcall
  obtain ⟨cur, -, hcur⟩ := h.line
  have hsome := (hcur k).mp hk
  rw [hsome] at hcur
  have hcons : s.yielded k ++ m :: rest = (s.yielded k ++ [m]) ++ rest := by simp
  refine ⟨h.unlocked, h.unique, ⟨some k, ?_, hcur⟩, ?_⟩
  · cases h.line_streaming hk with
    | queued _ before h1 h2 h3 h4 h5 h6 =>
      rw [hf] at h4
      cases h4
    | serving _ h1 h2 h3 h4 =>
      refine .serving k h1 h2 ?_ h4
      dsimp only
      rw [Function.update_self, h3, hf, hcons]
    | served _ h1 h2 h3 h4 h5 =>
      refine .served k h1 h2 ?_ ?_ h5
      · dsimp only
        rw [Function.update_self, h3, hf, hcons]
      · intro m' hm'
        dsimp only at hm'
        rw [Function.update_self] at hm'
        rcases List.mem_append.mp hm' with hm' | hm'
        · exact h4 m' hm'
        · rw [List.mem_singleton.mp hm']
          exact hm
  · intro j
    dsimp only
    by_cases hjk : j = k
    · subst hjk
      rw [hk]
      exact hcall
    · rw [Function.update_of_ne hjk]
      exact h.call j

/- The last reply; the guard is dropped. -/
theorem Inv.yieldLast (h : Inv req s) (hk : s.status k = .streaming .streaming) {m : Message}
    {rest : List Message} (hf : s.fromServer = m :: rest) (hm : moreToCome m.operation = false) :
    Inv req { s with
      status := Function.update s.status k (.streaming .done)
      inner := ⟨false⟩
      fromServer := rest
      yielded := Function.update s.yielded k (s.yielded k ++ [m]) } := by
  have hcall := h.call k
  rw [hk] at hcall
  have hown := owning_streaming hk
  have hno := not_owning_update (.streaming .done) h hown (fun hc => by cases hc)
  cases h.line_streaming hk with
  | queued _ before h1 h2 h3 h4 h5 h6 =>
    rw [hf] at h4
    cases h4
  | serving _ h1 h2 h3 h4 =>
    have hmem : m ∈ s.produced k := by
      rw [h3, hf]
      simp
    rw [h4 m hmem] at hm
    cases hm
  | served _ h1 h2 h3 h4 h5 =>
    have hdone := h5
    rw [h3, hf] at hdone
    have hrest := hdone.eq_nil hm
    subst hrest
    have hall : s.yielded k ++ [m] = s.produced k := by rw [h3, hf]
    refine ⟨fun _ => hno, fun i j hi => absurd hi (hno i), ⟨none, ?_, ?_⟩, ?_⟩
    · exact .free h2 rfl (fun j hj => by rw [h1] at hj; cases hj)
    · intro j
      dsimp only
      refine ⟨fun hj => ?_, fun hc => by cases hc⟩
      have hj' : Owning (Function.update s.status k (.streaming .done) j) := by
        rw [hj]
        rfl
      exact absurd hj' (hno j)
    · apply call_update h (fun _ _ => rfl) (fun j hj => Function.update_of_ne hj _ _)
      dsimp only
      rw [Function.update_self]
      refine ⟨hall, ?_⟩
      have hreq : moreToCome (req k).operation = false := hcall
      simp only [Answer, hreq, Bool.false_eq_true, if_false]
      exact h5

theorem Inv.yieldNone (h : Inv req s) (hk : s.status k = .streaming .done) :
    Inv req { s with status := Function.update s.status k .ended } := by
  have hcall := h.call k
  rw [hk] at hcall
  obtain ⟨cur, hline, hcur⟩ := h.line
  refine ⟨?_, owning_update h (fun ho => by cases ho), ⟨cur, ?_, ?_⟩, ?_⟩
  · exact fun hl j => not_owning_of_unlocked h hl (fun ho => by cases ho) j
  · exact hline.of_eq rfl rfl rfl rfl rfl
  · have hne : s.status k ≠ .streaming .streaming := by
      rw [hk]
      exact fun hc => by cases hc
    exact streaming_update hcur hne (fun hc => by cases hc)
  · exact call_update h (fun _ _ => rfl) (fun _ _ => rfl) hcall

theorem Inv.pollStreaming {t : ProxyResponseStream} (h : Inv req s) (hk : s.status k = .streaming t)
    (io : PollIo β) : Inv req (Shared.pollStreaming s k io t) := by
  cases t with
  | done =>
    simp only [Shared.pollStreaming, ProxyClient.pollNext, List.length_nil, List.drop_zero,
      List.append_nil, Function.update_eq_self]
    exact h.yieldNone hk
  | streaming =>
    have hsame : Function.update s.status k (.streaming .streaming) = s.status := by
      rw [← hk, Function.update_eq_self]
    cases ha : io.arrived with
    | false =>
      simp only [Shared.pollStreaming, ha, ProxyClient.pollNext, List.length_nil, List.drop_zero,
        List.append_nil, Function.update_eq_self, hsame]
      exact h
    | true =>
      cases hf : s.fromServer with
      | nil =>
        simp only [Shared.pollStreaming, ha, hf, ProxyClient.pollNext, List.length_nil,
          List.drop_zero, List.append_nil, Function.update_eq_self, hsame]
        rw [← hf]
        exact h
      | cons m rest =>
        cases hm : moreToCome m.operation with
        | true =>
          simp only [Shared.pollStreaming, ha, hf, ProxyClient.pollNext, hm, if_true,
            List.length_cons, List.length_nil, Nat.zero_add, List.drop_succ_cons, List.drop_zero,
            hsame]
          exact h.yieldMore hk hf hm
        | false =>
          simp only [Shared.pollStreaming, ha, hf, ProxyClient.pollNext, hm, Bool.false_eq_true,
            if_false, List.length_cons, List.length_nil, Nat.zero_add, List.drop_succ_cons,
            List.drop_zero]
          exact h.yieldLast hk hf hm

end

/-! ### The upstream -/

theorem Inv.step_serve {s : System κ} (h : Inv req s) :
    Inv req (step req s (.serve : Action β κ)) := by
  obtain ⟨cur, hline, hcur⟩ := h.line
  have hrest : ∀ toServer serving, Line req { s with toServer, serving } cur →
      Inv req { s with toServer, serving } :=
    fun _ _ hl => ⟨h.unlocked, h.unique, ⟨cur, hl, hcur⟩, h.call⟩
  cases hline with
  | free h1 h2 h3 =>
    cases ht : s.toServer with
    | nil => simpa only [step, h1, ht] using h
    | cons k rest =>
      rw [ht] at h3
      have hk := h3 k (List.mem_cons_self ..)
      simp only [step, h1, ht, hk, if_true]
      exact hrest rest none (.free rfl h2 fun j hj => h3 j (List.mem_cons_of_mem _ hj))
  | queued k before h1 h2 h3 h4 h5 h6 =>
    cases before with
    | nil =>
      have hk : moreToCome (req k).operation = false := by
        have hcall := h.call k
        rw [(hcur k).mpr rfl] at hcall
        exact hcall
      simp only [step, h3, h1, List.nil_append, hk, Bool.false_eq_true, if_false]
      apply hrest [] (some k)
      refine .serving k rfl rfl ?_ ?_
      · dsimp only
        rw [h5, h6, h4]
        rfl
      · dsimp only
        rw [h5]
        intro m hm
        cases hm
    | cons b before =>
      have hb := h2 b (List.mem_cons_self ..)
      simp only [step, h3, h1, List.cons_append, hb, if_true]
      apply hrest (before ++ [k]) none
      exact .queued k before rfl (fun j hj => h2 j (List.mem_cons_of_mem _ hj)) rfl h4 h5 h6
  | serving k h1 h2 h3 h4 => simpa only [step, h2] using h
  | served k h1 h2 h3 h4 h5 => simpa only [step, h1, h2] using h

theorem Inv.step_reply {s : System κ} (h : Inv req s) (m : Message) :
    Inv req (step req s (.reply m : Action β κ)) := by
  obtain ⟨cur, hline, hcur⟩ := h.line
  cases hline with
  | free h1 h2 h3 => simpa only [step, h1] using h
  | queued k before h1 h2 h3 h4 h5 h6 => simpa only [step, h3] using h
  | served k h1 h2 h3 h4 h5 => simpa only [step, h2] using h
  | serving k h1 h2 h3 h4 =>
    by_cases hfit : fits (req k) m = true
    · simp only [step, h2, hfit, if_true]
      have hk : s.status k = .streaming .streaming := (hcur k).mpr rfl
      refine ⟨h.unlocked, h.unique, ⟨some k, ?_, hcur⟩, ?_⟩
      · cases hm : moreToCome m.operation with
        | true =>
          refine .serving k h1 rfl ?_ ?_
          · dsimp only
            rw [Function.update_self, h3, List.append_assoc]
          · intro m' hm'
            dsimp only at hm'
            rw [Function.update_self] at hm'
            rcases List.mem_append.mp hm' with hm' | hm'
            · exact h4 m' hm'
            · rw [List.mem_singleton.mp hm']
              exact hm
        | false =>
          refine .served k h1 rfl ?_ ?_ ?_
          · dsimp only
            rw [Function.update_self, h3, List.append_assoc]
          · intro m' hm'
            apply h4
            rw [h3]
            exact List.mem_append_left _ hm'
          · dsimp only
            rw [Function.update_self]
            exact ⟨s.produced k, m, rfl, h4, hm⟩
      · intro j
        dsimp only
        by_cases hjk : j = k
        · subst hjk
          have hcall := h.call j
          rw [hk] at hcall ⊢
          exact hcall
        · rw [Function.update_of_ne hjk]
          exact h.call j
    · simpa only [step, h2, if_neg hfit] using h

/-! ### Runs -/

theorem Inv.step {s : System κ} (h : Inv req s) (a : Action β κ) : Inv req (step req s a) := by
  cases a with
  | call k => exact h.step_call k
  | poll k io =>
    cases hk : s.status k with
    | idle => simpa only [Shared.step, hk] using h
    | calling f =>
      simp only [Shared.step, hk]
      exact h.pollCalling hk io
    | streaming t =>
      simp only [Shared.step, hk]
      exact h.pollStreaming hk io
    | ended => simpa only [Shared.step, hk] using h
    | failed => simpa only [Shared.step, hk] using h
  | serve => exact h.step_serve
  | reply m => exact h.step_reply m

theorem inv_run (acts : List (Action β κ)) : Inv req (run req acts) := by
  unfold run
  suffices hgen : ∀ s, Inv req s → Inv req (acts.foldl (Shared.step req) s) from hgen _ inv_initial
  induction acts with
  | nil => exact fun s hs => hs
  | cons a acts ih => exact fun s hs => ih _ (hs.step a)

/- Only a call that owns the guard and is sending puts a request on the socket. -/
theorem sending_of_write {s : System κ} {k : κ} {io : PollIo β}
    (hw : (step req s (.poll k io)).toServer ≠ s.toServer) :
    ∃ f, s.status k = .calling f ∧ f.stage = .sending := by
  cases hk : s.status k with
  | idle => simp only [step, hk, ne_eq, not_true_eq_false] at hw
  | ended => simp only [step, hk, ne_eq, not_true_eq_false] at hw
  | failed => simp only [step, hk, ne_eq, not_true_eq_false] at hw
  | streaming t => simp only [step, hk, pollStreaming, ne_eq, not_true_eq_false] at hw
  | calling f =>
    refine ⟨f, rfl, ?_⟩
    by_contra hstage
    have hlocking : f.stage = .locking := by
      cases hs : f.stage with
      | locking => rfl
      | sending => exact absurd hs hstage
    apply hw
    simp only [step, hk, pollCalling, ProxyClient.pollCall, hlocking]
    split_ifs <;> simp only [List.map_nil, List.append_nil]

/-- In every reachable state, whatever the interleaving: a stream has yielded its own replies
in order, the ones in flight are those of the open stream, and a stream that has answered
`None` has yielded the complete answer to its request. A request is written only when every
reply to earlier ones has been read. A reply that has arrived is yielded at the next poll, and
a stream that is done answers `None`. -/
theorem replies_reach_their_request (acts : List (Action β κ)) :
    let s := run req acts
    (∀ k, s.yielded k <+: s.produced k) ∧
    (∀ k, s.status k = .streaming .streaming → s.produced k = s.yielded k ++ s.fromServer) ∧
    (∀ k, s.status k = .ended → s.yielded k = s.produced k ∧ Answer (req k) (s.produced k)) ∧
    (∀ k (io : PollIo β), (step req s (.poll k io)).toServer ≠ s.toServer →
      (∀ j, s.yielded j = s.produced j) ∧ s.fromServer = [] ∧ s.serving = none ∧
        ∀ j ∈ s.toServer, moreToCome (req j).operation = true) ∧
    (∀ k (io : PollIo β) m rest, s.status k = .streaming .streaming → s.fromServer = m :: rest →
      io.arrived = true → (step req s (.poll k io)).yielded k = s.yielded k ++ [m]) ∧
    (∀ k (io : PollIo β), s.status k = .streaming .done →
      (step req s (.poll k io)).status k = .ended) := by
  intro s
  have h : Inv req s := inv_run acts
  refine ⟨?_, fun k hk => h.produced_of_streaming hk, ?_, ?_, ?_, ?_⟩
  · intro k
    by_cases hk : s.status k = .streaming .streaming
    · rw [h.produced_of_streaming hk]
      exact List.prefix_append _ _
    · rw [h.yielded_of_not_streaming hk]
  · intro k hk
    have hcall := h.call k
    rw [hk] at hcall
    exact hcall
  · intro k io hw
    obtain ⟨f, hk, hstage⟩ := sending_of_write hw
    obtain ⟨hown, hne⟩ := owning_sending hk hstage
    cases h.line_free hown hne with
    | free h1 h2 h3 =>
      refine ⟨fun j => ?_, h2, h1, h3⟩
      exact h.yielded_of_not_streaming (not_streaming_of_free h hown hne j)
  · intro k io m rest hk hf ha
    cases hm : moreToCome m.operation with
    | true =>
      simp only [step, hk, pollStreaming, ha, hf, ProxyClient.pollNext, hm, if_true,
        Function.update_self]
    | false =>
      simp only [step, hk, pollStreaming, ha, hf, ProxyClient.pollNext, hm, Bool.false_eq_true,
        if_false, Function.update_self]
  · intro k io hk
    simp only [step, hk, pollStreaming, ProxyClient.pollNext, Function.update_self]

end Shared

end MongodProxy
