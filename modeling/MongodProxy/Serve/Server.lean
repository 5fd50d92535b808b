import MongodProxy.Serve.RunUntil
import MongodProxy.Serve.Sequential

/-!
# The server: the accept loop and its connections (serve/mod.rs)

`run_until` together with the tasks it spawns. A task awaits the service that is made for
its connection and then is the loop of `accept_client_inner`; an error of either is logged
and ends the task. The accept loop and the tasks are woken in any order. A connection does
not notice the others, `shutdown` waits for it, and only a failing listener cuts it off.
-/

namespace MongodProxy
namespace Server
open RunUntil (TaskStatus)

variable {α δ β ε ι σ φ τ κ : Type}

/-! ### One task -/

/-- The future spawned for a connection, with the error `δ` of making a service. -/
inductive Task (δ β ε σ φ τ κ : Type) where
  | making
  | refused (e : δ)
  | serving (service : σ) (conn : Conn β ε σ φ τ κ)

inductive TaskInput (δ β σ ι : Type) where
  | made (result : Except δ σ)
  | polled (io : ClientIo β ι)

namespace Task

variable (S : Service ι σ φ τ Message ε κ)

/- A task is not polled for what it does not await. -/
def step : Task δ β ε σ φ τ κ → TaskInput δ β σ ι → Task δ β ε σ φ τ κ
  | .making, .made (.ok service) => .serving service (Conn.start service)
  -- the error is logged
  | .making, .made (.error e) => .refused e
  | .serving service conn, .polled io => .serving service (Conn.step S conn io)
  | t, _ => t

def ended : Task δ β ε σ φ τ κ → Bool
  | .making => false
  | .refused _ => true
  | .serving _ conn =>
    match conn.phase with
    | .closed _ => true
    | _ => false

def run (inputs : List (TaskInput δ β σ ι)) : Task δ β ε σ φ τ κ := inputs.foldl (step S) .making

theorem run_append (inputs : List (TaskInput δ β σ ι)) (input : TaskInput δ β σ ι) :
    run S (inputs ++ [input]) = (run S inputs).step S input := by
  rw [run, run, List.foldl_append]
  rfl

/-- A task that serves is one connection, over the service that was made for it. -/
theorem run_serving (inputs : List (TaskInput δ β σ ι)) {service : σ} {conn : Conn β ε σ φ τ κ}
    (h : run S inputs = .serving service conn) :
    .made (.ok service) ∈ inputs ∧
      ∃ polls : List (ClientIo β ι), conn = Conn.run S (Conn.start service) polls := by
  induction inputs using List.reverseRecOn generalizing service conn with
  | nil => cases h
  | append_singleton inputs input ih =>
    rw [run_append] at h
    cases htask : run S inputs with
    | making =>
      rw [htask] at h
      rcases input with (e | service') | io
      · cases h
      · cases h
        exact ⟨by simp, [], rfl⟩
      · cases h
    | refused e =>
      rw [htask] at h
      cases h
    | serving service' conn' =>
      obtain ⟨hmade, polls, hconn⟩ := ih htask
      rw [htask] at h
      rcases input with result | io
      · cases h
        exact ⟨List.mem_append_left _ hmade, polls, hconn⟩
      · cases h
        refine ⟨List.mem_append_left _ hmade, polls ++ [io], ?_⟩
        rw [hconn, Conn.run, Conn.run, List.foldl_append]
        rfl

end Task

/-! ### The system -/

structure System (α δ β ε σ φ τ κ : Type) where
  server : RunUntil.Server α
  task : ℕ → Task δ β ε σ φ τ κ

/- The main task or the task of a connection is woken. -/
inductive Action (α δ β σ ι : Type) where
  | main (a : RunUntil.Action α)
  | task (c : ℕ) (input : TaskInput δ β σ ι)

variable (S : Service ι σ φ τ Message ε κ)

def System.initial : System α δ β ε σ φ τ κ := ⟨.initial, fun _ => .making⟩

def System.step (s : System α δ β ε σ φ τ κ) : Action α δ β σ ι → System α δ β ε σ φ τ κ
  -- a task ends by itself only
  | .main (.finishes _) => s
  | .main a => { s with server := s.server.step a }
  | .task c input =>
    if s.server.tasks c = some .running then
      ⟨if ((s.task c).step S input).ended then s.server.step (.finishes c) else s.server,
        Function.update s.task c ((s.task c).step S input)⟩
    else s

def run (acts : List (Action α δ β σ ι)) : System α δ β ε σ φ τ κ :=
  acts.foldl (System.step S) .initial

/-- What the surroundings answered to the task of one connection. -/
def inputsOf (c : ℕ) (acts : List (Action α δ β σ ι)) : List (TaskInput δ β σ ι) :=
  acts.filterMap fun
    | .main _ => none
    | .task d input => if d = c then some input else none

/-! ### What the accept loop does to its tasks -/

/- A step that leaves the tasks alone. -/
structure Idle (s s' : RunUntil.Server α) : Prop where
  tasks : s'.tasks = s.tasks
  spawned : s'.spawned = s.spawned
  connections : ∀ c ∈ s'.connections, c ∈ s.connections
  returned : ∀ result, s'.phase = .returned result ↔ s.phase = .returned result

theorem idle_refl (s : RunUntil.Server α) : Idle s s where
  tasks := rfl
  spawned := rfl
  connections := fun _ hc => hc
  returned := fun _ => Iff.rfl

theorem not_returned {s : RunUntil.Server α} {phase : RunUntil.Phase α} (h : s.phase = phase)
    (hphase : ∀ result, phase ≠ .returned result) : ¬ s.Returned := by
  rintro ⟨result, hresult⟩
  exact hphase result (h.symm.trans hresult)

theorem finishes_or (a : RunUntil.Action α) : (∀ c, a ≠ .finishes c) ∨ ∃ c, a = .finishes c := by
  by_cases h : ∃ c, a = .finishes c
  · exact .inr h
  · exact .inl (not_exists.mp h)

/- It spawns one while it has not returned, it returns, or it leaves them alone. -/
theorem main_cases (s : RunUntil.Server α) (a : RunUntil.Action α) (ha : ∀ c, a ≠ .finishes c) :
    s.step a = s.spawn ∧ ¬ s.Returned ∨
      (∃ result, s.step a = s.returns result ∧ ¬ s.Returned ∧
        (result = .ok () → s.connections = [])) ∨
      Idle s (s.step a) := by
  cases a with
  | finishes c => exact absurd rfl (ha c)
  | accepted =>
    cases hphase : s.phase with
    | accepting =>
      exact .inl ⟨by simp only [RunUntil.Server.step, hphase], not_returned hphase (by simp)⟩
    | _ =>
      simp only [RunUntil.Server.step, hphase]
      exact .inr (.inr (idle_refl s))
  | acceptFailed e =>
    cases hphase : s.phase with
    | accepting =>
      refine .inr (.inl ⟨.error (.accept e), by simp only [RunUntil.Server.step, hphase],
        not_returned hphase (by simp), ?_⟩)
      intro hok
      cases hok
    | _ =>
      simp only [RunUntil.Server.step, hphase]
      exact .inr (.inr (idle_refl s))
  | shutdown =>
    cases hphase : s.phase with
    | accepting =>
      simp only [RunUntil.Server.step, hphase]
      refine .inr (.inr ⟨rfl, rfl, fun _ hc => hc, fun result => ?_⟩)
      rw [hphase]
      constructor
      · intro h
        cases h
      · intro h
        cases h
    | _ =>
      simp only [RunUntil.Server.step, hphase]
      exact .inr (.inr (idle_refl s))
  | joined c =>
    refine .inr (.inr ?_)
    simp only [RunUntil.Server.step]
    split
    · exact idle_refl s
    · split_ifs
      · exact ⟨rfl, rfl, fun _ hc => (List.mem_filter.mp hc).1, fun _ => Iff.rfl⟩
      · exact idle_refl s
  | drained =>
    cases hphase : s.phase with
    | draining =>
      simp only [RunUntil.Server.step, hphase]
      split_ifs with hempty
      · exact .inr (.inl ⟨.ok (), rfl, not_returned hphase (by simp),
          fun _ => List.isEmpty_iff.mp hempty⟩)
      · exact .inr (.inr (idle_refl s))
    | _ =>
      simp only [RunUntil.Server.step, hphase]
      exact .inr (.inr (idle_refl s))

/- Connections are numbered as they are accepted, an aborted one means that the listener has
failed, and a clean return that there is nothing left to do. -/
structure Sound (s : RunUntil.Server α) : Prop where
  numbered : ∀ c, s.tasks c = none ↔ s.spawned ≤ c
  listed : ∀ c ∈ s.connections, c < s.spawned
  live : ¬ s.Returned → s.Live
  aborted : ∀ c, s.tasks c = some .aborted → ∃ e, s.phase = .returned (.error (.accept e))
  drained : s.phase = .returned (.ok ()) → s.AllFinished

theorem sound_initial : Sound (.initial : RunUntil.Server α) where
  numbered := fun c => ⟨fun _ => Nat.zero_le c, fun _ => rfl⟩
  listed := by
    intro c hc
    cases hc
  live := fun _ => RunUntil.live_initial
  aborted := by
    intro c hc
    cases hc
  drained := by
    intro hphase
    cases hphase

theorem Sound.spawn {s : RunUntil.Server α} (h : Sound s) (hopen : ¬ s.Returned) :
    Sound s.spawn where
  numbered := by
    intro c
    by_cases hc : c = s.spawned
    · simp [RunUntil.Server.spawn, hc]
    · have hold := h.numbered c
      simp only [RunUntil.Server.spawn, Function.update_of_ne hc]
      rw [hold]
      omega
  listed := by
    intro c hc
    rcases List.mem_cons.mp hc with rfl | hc
    · exact Nat.lt_succ_self _
    · exact Nat.lt_succ_of_lt (h.listed c hc)
  live := fun _ => (h.live hopen).spawn
  aborted := by
    intro c hc
    exact absurd hc ((h.live hopen).spawn.unaborted c)
  drained := fun hphase => absurd ⟨_, hphase⟩ hopen

theorem Sound.returns {s : RunUntil.Server α} (h : Sound s) (hopen : ¬ s.Returned)
    {result : Except (RunUntil.ServeError α) Unit} (hok : result = .ok () → s.connections = []) :
    Sound (s.returns result) where
  numbered := by
    intro c
    have hold := h.numbered c
    simp only [RunUntil.Server.returns]
    split_ifs with hrun
    · rw [hrun.2] at hold
      simpa using hold
    · exact hold
  listed := by
    intro c hc
    cases hc
  live := fun hnot => absurd ⟨_, rfl⟩ hnot
  aborted := by
    intro c hc
    rcases result with e | u
    · cases e with
      | accept e => exact ⟨e, rfl⟩
    · cases ((h.live hopen).allFinished (hok rfl)).returns (.ok ()) c _ hc
  drained := by
    intro hphase
    cases hphase
    exact ((h.live hopen).allFinished (hok rfl)).returns _

theorem Sound.idle {s s' : RunUntil.Server α} (h : Sound s) (hidle : Idle s s')
    (hlive : ¬ s'.Returned → s'.Live) : Sound s' where
  numbered := by
    rw [hidle.tasks, hidle.spawned]
    exact h.numbered
  listed := by
    intro c hc
    rw [hidle.spawned]
    exact h.listed c (hidle.connections c hc)
  live := hlive
  aborted := by
    intro c hc
    rw [hidle.tasks] at hc
    obtain ⟨e, he⟩ := h.aborted c hc
    exact ⟨e, (hidle.returned _).mpr he⟩
  drained := by
    intro hphase c t ht
    rw [hidle.tasks] at ht
    exact h.drained ((hidle.returned _).mp hphase) c t ht

theorem Sound.finishes {s : RunUntil.Server α} (h : Sound s) {c : ℕ}
    (hc : s.tasks c = some .running) :
    Sound ({ s with tasks := Function.update s.tasks c (some .finished) } : RunUntil.Server α) where
  numbered := by
    intro d
    have hold := h.numbered d
    by_cases hd : d = c
    · rw [hd, hc] at hold
      simpa [hd] using hold
    · simp only [Function.update_of_ne hd]
      exact hold
  listed := h.listed
  live := fun hopen => (h.live hopen).finishes c
  aborted := by
    intro d hd
    by_cases heq : d = c
    · simp [heq] at hd
    · simp only [Function.update_of_ne heq] at hd
      exact h.aborted d hd
  drained := by
    intro hphase
    cases h.drained hphase c _ hc

theorem Sound.step {s : RunUntil.Server α} (h : Sound s) (a : RunUntil.Action α) :
    Sound (s.step a) := by
  rcases finishes_or a with ha | ⟨d, rfl⟩
  · rcases main_cases s a ha with ⟨hstep, hopen⟩ | ⟨result, hstep, hopen, hok⟩ | hidle
    · rw [hstep]
      exact h.spawn hopen
    · rw [hstep]
      exact h.returns hopen hok
    · refine h.idle hidle fun hopen => ?_
      exact (h.live fun hret => hopen (hret.step a)).step a hopen
  · simp only [RunUntil.Server.step]
    split_ifs with hc
    · exact h.finishes hc
    · exact h

/-! ### What a task is given -/

/- The inputs a task took lie together among those meant for it: none before it is spawned, and none
after it has ended or is aborted. -/
def Fits (inputs : List (TaskInput δ β σ ι)) (t : Task δ β ε σ φ τ κ) : Option TaskStatus → Prop
  | none => t = .making
  | some .running => t.ended = false ∧ ∃ taken, taken <:+ inputs ∧ t = Task.run S taken
  | some .finished => t.ended = true ∧ ∃ taken, taken <:+: inputs ∧ t = Task.run S taken
  | some .aborted => t.ended = false ∧ ∃ taken, taken <:+: inputs ∧ t = Task.run S taken

variable {S}

theorem Fits.taken {inputs : List (TaskInput δ β σ ι)} {t : Task δ β ε σ φ τ κ}
    {status : Option TaskStatus} (h : Fits S inputs t status) :
    ∃ taken, taken <:+: inputs ∧ t = Task.run S taken := by
  rcases status with - | (- | - | -)
  · exact ⟨[], List.nil_infix, h⟩
  · obtain ⟨-, taken, hsuffix, ht⟩ := h
    exact ⟨taken, hsuffix.isInfix, ht⟩
  · exact h.2
  · exact h.2

/- An input that comes while the task does not run is lost. -/
theorem Fits.lost {inputs : List (TaskInput δ β σ ι)} {t : Task δ β ε σ φ τ κ}
    {status : Option TaskStatus} (h : Fits S inputs t status) (hidle : status ≠ some .running)
    (input : TaskInput δ β σ ι) : Fits S (inputs ++ [input]) t status := by
  have hmore : ∀ taken, taken <:+: inputs → taken <:+: inputs ++ [input] :=
    fun taken hinfix => hinfix.trans (List.prefix_append inputs [input]).isInfix
  rcases status with - | (- | - | -)
  · exact h
  · exact absurd rfl hidle
  · obtain ⟨hended, taken, hinfix, ht⟩ := h
    exact ⟨hended, taken, hmore taken hinfix, ht⟩
  · obtain ⟨hended, taken, hinfix, ht⟩ := h
    exact ⟨hended, taken, hmore taken hinfix, ht⟩

theorem Fits.took {inputs : List (TaskInput δ β σ ι)} {t : Task δ β ε σ φ τ κ}
    (h : Fits S inputs t (some .running)) (input : TaskInput δ β σ ι) :
    Fits S (inputs ++ [input]) (t.step S input)
      (some (if (t.step S input).ended then .finished else .running)) := by
  obtain ⟨-, taken, hsuffix, ht⟩ := h
  have hmore : taken ++ [input] <:+ inputs ++ [input] := by
    obtain ⟨front, rfl⟩ := hsuffix
    exact ⟨front, by rw [List.append_assoc]⟩
  have hrun : t.step S input = Task.run S (taken ++ [input]) := by rw [Task.run_append, ht]
  split_ifs with hended
  · exact ⟨hended, _, hmore.isInfix, hrun⟩
  · exact ⟨by simpa using hended, _, hmore, hrun⟩

theorem Fits.aborts {inputs : List (TaskInput δ β σ ι)} {t : Task δ β ε σ φ τ κ}
    (h : Fits S inputs t (some .running)) : Fits S inputs t (some .aborted) := by
  obtain ⟨hended, taken, hsuffix, ht⟩ := h
  exact ⟨hended, taken, hsuffix.isInfix, ht⟩

/-! ### Runs of the system -/

variable (S) in
theorem run_snoc (acts : List (Action α δ β σ ι)) (a : Action α δ β σ ι) :
    run S (acts ++ [a]) = (run S acts).step S a := by
  rw [run, run, List.foldl_append]
  rfl

theorem inputsOf_main (c : ℕ) (acts : List (Action α δ β σ ι)) (a : RunUntil.Action α) :
    inputsOf c (acts ++ [.main a]) = inputsOf c acts := by
  simp [inputsOf, List.filterMap_append]

theorem inputsOf_self (c : ℕ) (acts : List (Action α δ β σ ι)) (input : TaskInput δ β σ ι) :
    inputsOf c (acts ++ [.task c input]) = inputsOf c acts ++ [input] := by
  simp [inputsOf, List.filterMap_append]

theorem inputsOf_other {c d : ℕ} (h : d ≠ c) (acts : List (Action α δ β σ ι))
    (input : TaskInput δ β σ ι) : inputsOf c (acts ++ [.task d input]) = inputsOf c acts := by
  simp [inputsOf, List.filterMap_append, h]

variable (S) in
theorem System.step_main {a : RunUntil.Action α} (ha : ∀ c, a ≠ .finishes c)
    (s : System α δ β ε σ φ τ κ) : s.step S (.main a) = { s with server := s.server.step a } := by
  cases a with
  | finishes c => exact absurd rfl (ha c)
  | _ => rfl

theorem Sound.system_step {s : System α δ β ε σ φ τ κ} (h : Sound s.server)
    (a : Action α δ β σ ι) : Sound (s.step S a).server := by
  cases a with
  | main a =>
    rcases finishes_or a with ha | ⟨d, rfl⟩
    · rw [System.step_main S ha]
      exact h.step a
    · exact h
  | task c input =>
    simp only [System.step]
    split_ifs
    · exact h.step (.finishes c)
    · exact h
    · exact h

variable (S) in
/- The status of every task fits its state. -/
def AllFit (acts : List (Action α δ β σ ι)) (s : System α δ β ε σ φ τ κ) : Prop :=
  ∀ c, Fits S (inputsOf c acts) (s.task c) (s.server.tasks c)

theorem AllFit.main {acts : List (Action α δ β σ ι)} {s : System α δ β ε σ φ τ κ}
    (h : AllFit S acts s) (hsound : Sound s.server) (a : RunUntil.Action α) :
    AllFit S (acts ++ [.main a]) (s.step S (.main a)) := by
  intro c
  rw [inputsOf_main]
  have hc := h c
  rcases finishes_or a with ha | ⟨d, rfl⟩
  · rw [System.step_main S ha]
    rcases main_cases s.server a ha with ⟨hstep, -⟩ | ⟨result, hstep, -, -⟩ | hidle
    · rw [hstep]
      by_cases hnew : c = s.server.spawned
      · -- the task of a new connection has not been touched before
        have hnone : s.server.tasks c = none := (hsound.numbered c).mpr (Nat.le_of_eq hnew.symm)
        rw [hnone] at hc
        simp only [RunUntil.Server.spawn, hnew, Function.update_self]
        rw [hnew] at hc
        exact ⟨by rw [hc]; rfl, [], List.nil_suffix, hc⟩
      · simp only [RunUntil.Server.spawn, Function.update_of_ne hnew]
        exact hc
    · rw [hstep]
      simp only [RunUntil.Server.returns]
      split_ifs with hrun
      · rw [hrun.2] at hc
        exact hc.aborts
      · exact hc
    · simp only [hidle.tasks]
      exact hc
  · exact hc

theorem AllFit.task {acts : List (Action α δ β σ ι)} {s : System α δ β ε σ φ τ κ}
    (h : AllFit S acts s) (d : ℕ) (input : TaskInput δ β σ ι) :
    AllFit S (acts ++ [.task d input]) (s.step S (.task d input)) := by
  intro c
  have hc := h c
  simp only [System.step]
  by_cases hrun : s.server.tasks d = some .running
  · rw [if_pos hrun]
    by_cases heq : c = d
    · rw [heq] at hc ⊢
      rw [hrun] at hc
      have htook := hc.took input
      rw [inputsOf_self]
      split_ifs at htook ⊢ with hended
      · simpa only [RunUntil.Server.step, if_pos hrun, Function.update_self] using htook
      · simpa only [Function.update_self, hrun] using htook
    · rw [inputsOf_other (Ne.symm heq)]
      split_ifs
      · simpa only [RunUntil.Server.step, if_pos hrun, Function.update_of_ne heq] using hc
      · simpa only [Function.update_of_ne heq] using hc
  · rw [if_neg hrun]
    by_cases heq : c = d
    · rw [heq] at hc ⊢
      rw [inputsOf_self]
      exact hc.lost hrun input
    · rw [inputsOf_other (Ne.symm heq)]
      exact hc

theorem run_sound (acts : List (Action α δ β σ ι)) :
    Sound (run S acts).server ∧
      AllFit S acts (run S acts) := by
  induction acts using List.reverseRecOn with
  | nil => exact ⟨sound_initial, fun _ => rfl⟩
  | append_singleton acts a ih =>
    rw [run_snoc]
    refine ⟨ih.1.system_step a, ?_⟩
    cases a with
    | main a => exact ih.2.main ih.1 a
    | task d input => exact ih.2.task d input

theorem Sound.status {s : RunUntil.Server α} (h : Sound s) {c : ℕ} (hc : c < s.spawned) :
    ∃ status, s.tasks c = some status := by
  cases htask : s.tasks c with
  | some status => exact ⟨status, rfl⟩
  | none =>
    have hle := (h.numbered c).mp htask
    omega

theorem ended_of_drained {acts : List (Action α δ β σ ι)}
    (h : (run S acts).server.phase = .returned (.ok ())) {c : ℕ}
    (hc : c < (run S acts).server.spawned) :
    ((run S acts).task c).ended = true := by
  obtain ⟨hsound, hfit⟩ := run_sound (S := S) acts
  obtain ⟨status, hstatus⟩ := hsound.status hc
  have hc' := hfit c
  rw [hstatus, hsound.drained h c status hstatus] at hc'
  exact hc'.1

/-- Whatever the interleaving: each connection is what its own inputs make of it, in order and
without a gap; it is cut off only by a listener that failed; and when `run_until` returns `Ok`,
every connection ever accepted was refused by the maker or has closed by itself, and each that
closed without an error has served all its requests. -/
theorem connections_isolated (acts : List (Action α δ β σ ι)) :
    (∀ c, ∃ taken, taken <:+: inputsOf c acts ∧
      (run S acts).task c = Task.run S taken) ∧
    (∀ c, (run S acts).server.tasks c = some .aborted →
      ∃ e, (run S acts).server.phase = .returned (.error (.accept e))) ∧
    ((run S acts).server.phase = .returned (.ok ()) →
      ∀ c < (run S acts).server.spawned,
        (∃ e, (run S acts).task c = .refused e) ∨
        ∃ service conn result, (run S acts).task c = .serving service conn ∧
          .made (.ok service) ∈ inputsOf c acts ∧ conn.phase = .closed result ∧
          (result = .ok () → Serves S service (turns conn.log) conn.state)) := by
  obtain ⟨hsound, hfit⟩ := run_sound (S := S) acts
  refine ⟨fun c => (hfit c).taken, hsound.aborted, ?_⟩
  intro hphase c hc
  have hended := ended_of_drained hphase hc
  obtain ⟨taken, htaken, hrun⟩ := (hfit c).taken
  cases htask : (run S acts).task c with
  | making =>
    rw [htask] at hended
    cases hended
  | refused e => exact .inl ⟨e, rfl⟩
  | serving service conn =>
    rw [htask] at hended hrun
    obtain ⟨hmade, polls, hconn⟩ := Task.run_serving S taken hrun.symm
    cases hclosed : conn.phase with
    | closed result =>
      refine .inr ⟨service, conn, result, rfl, htaken.subset hmade, hclosed, ?_⟩
      rintro rfl
      have hseq : Sequential S service conn := by
        rw [hconn]
        exact sequential_run service polls
      exact hseq.closed hclosed
    | _ => simp [Task.ended, hclosed] at hended

/-! ### Shutdown -/

/- The accept loop alone touches no task's state, and what it has accepted and answered stays. -/
theorem main_keeps (mains : List (RunUntil.Action α)) (s : System α δ β ε σ φ τ κ) :
    (((mains.map Action.main).foldl (System.step S) s).task = s.task) ∧
      s.server.spawned ≤ ((mains.map Action.main).foldl (System.step S) s).server.spawned ∧
      ∀ result, s.server.phase = .returned result →
        ((mains.map Action.main).foldl (System.step S) s).server.phase = .returned result := by
  induction mains generalizing s with
  | nil => exact ⟨rfl, Nat.le_refl _, fun _ h => h⟩
  | cons a mains ih =>
    rw [List.map_cons, List.foldl_cons]
    obtain ⟨htask, hspawned, hphase⟩ := ih (s.step S (.main a))
    rcases finishes_or a with ha | ⟨d, rfl⟩
    · rw [System.step_main S ha] at htask hspawned hphase ⊢
      refine ⟨htask, ?_, ?_⟩
      · refine Nat.le_trans ?_ hspawned
        rcases main_cases s.server a ha with ⟨hstep, -⟩ | ⟨result, hstep, -⟩ | hidle
        · rw [hstep]
          exact Nat.le_succ _
        · rw [hstep]
          exact Nat.le_refl _
        · exact Nat.le_of_eq hidle.spawned.symm
      · intro result hresult
        apply hphase
        rcases main_cases s.server a ha with ⟨-, hopen⟩ | ⟨result, -, hopen, -⟩ | hidle
        · exact absurd ⟨_, hresult⟩ hopen
        · exact absurd ⟨_, hresult⟩ hopen
        · exact (hidle.returned result).mpr hresult
    · exact ⟨htask, hspawned, hphase⟩

/- The loop `while connections.join_next().await.is_some() {}` over the tasks in `cs`. -/
theorem foldl_joined {s : System α δ β ε σ φ τ κ} (hphase : s.server.phase = .draining)
    (cs : List ℕ) (hall : ∀ c ∈ cs, s.server.tasks c = some .finished) :
    ((cs.map fun c => Action.main (.joined c)).foldl (System.step S) s).server.phase = .draining ∧
      ∀ c ∈ ((cs.map fun c => Action.main (.joined c)).foldl (System.step S) s).server.connections,
        c ∈ s.server.connections ∧ c ∉ cs := by
  induction cs generalizing s with
  | nil => exact ⟨hphase, fun c hc => ⟨hc, List.not_mem_nil⟩⟩
  | cons d cs ih =>
    rw [List.map_cons, List.foldl_cons, System.step_main S (by simp)]
    rw [List.forall_mem_cons] at hall
    by_cases hd : d ∈ s.server.connections
    · have hstep : s.server.step (.joined d)
          = { s.server with connections := s.server.connections.filter (· ≠ d) } := by
        simp only [RunUntil.Server.step, hphase, if_pos (And.intro hd hall.1)]
      rw [hstep]
      obtain ⟨hdraining, hleft⟩ := ih (s := { s with
        server := { s.server with connections := s.server.connections.filter (· ≠ d) } }) hphase hall.2
      refine ⟨hdraining, fun c hc => ?_⟩
      obtain ⟨hmem, hnot⟩ := hleft c hc
      obtain ⟨hmem, hne⟩ := List.mem_filter.mp hmem
      exact ⟨hmem, by simpa using ⟨by simpa using hne, hnot⟩⟩
    · have hstep : s.server.step (.joined d) = s.server := by
        simp only [RunUntil.Server.step, hphase]
        rw [if_neg (fun h => hd h.1)]
      rw [hstep]
      obtain ⟨hdraining, hleft⟩ := ih hphase hall.2
      refine ⟨hdraining, fun c hc => ?_⟩
      obtain ⟨hmem, hnot⟩ := hleft c hc
      refine ⟨hmem, ?_⟩
      rintro (_ | ⟨_, hc⟩)
      · exact hd hmem
      · exact hnot hc

theorem step_shutdown {s : RunUntil.Server α} (hopen : ¬ s.Returned) :
    s.step .shutdown = { s with phase := .draining } := by
  cases hphase : s.phase with
  | accepting => simp only [RunUntil.Server.step, hphase]
  | draining =>
    simp only [RunUntil.Server.step, hphase]
    rw [← hphase]
  | returned result => exact absurd ⟨result, hphase⟩ hopen

/- Join what is left, then return. -/
theorem drains {s : System α δ β ε σ φ τ κ} (hphase : s.server.phase = .draining)
    (hall : ∀ c ∈ s.server.connections, s.server.tasks c = some .finished) :
    ∃ mains : List (RunUntil.Action α),
      ((mains.map Action.main).foldl (System.step S) s).server.phase = .returned (.ok ()) := by
  refine ⟨s.server.connections.map .joined ++ [.drained], ?_⟩
  rw [List.map_append, List.foldl_append, List.map_map]
  obtain ⟨hdraining, hleft⟩ := foldl_joined (S := S) hphase s.server.connections hall
  have hempty := List.eq_nil_iff_forall_not_mem.mpr fun c hc => (hleft c hc).2 (hleft c hc).1
  rw [List.map_singleton, List.foldl_cons, List.foldl_nil, System.step_main S (by simp)]
  simp only [RunUntil.Server.step, Function.comp_def, hdraining, hempty]
  rfl

/-- From any point of any run `run_until` can get to an `Ok` without a further step of a connection
exactly if every connection accepted so far has ended, unless its listener has failed before. -/
theorem shutdown_returns_iff (acts : List (Action α δ β σ ι)) :
    (∃ mains : List (RunUntil.Action α),
        (run S (acts ++ mains.map .main)).server.phase = .returned (.ok ())) ↔
      (∀ e, (run S acts).server.phase ≠ .returned (.error e)) ∧
        ∀ c < (run S acts).server.spawned, ((run S acts).task c).ended = true := by
  have happend (mains : List (RunUntil.Action α)) :
      run S (acts ++ mains.map .main) = (mains.map Action.main).foldl (System.step S) (run S acts) :=
    List.foldl_append
  constructor
  · rintro ⟨mains, hphase⟩
    obtain ⟨htask, hspawned, hkeeps⟩ := main_keeps (S := S) mains (run S acts)
    rw [← happend] at htask hspawned hkeeps
    refine ⟨fun e he => ?_, fun c hc => ?_⟩
    · cases (hkeeps _ he).symm.trans hphase
    · rw [← htask]
      exact ended_of_drained hphase (by omega)
  · rintro ⟨hnot, hended⟩
    obtain ⟨hsound, hfit⟩ := run_sound (S := S) acts
    by_cases hret : (run S acts).server.Returned
    · obtain ⟨result, hresult⟩ := hret
      rcases result with e | u
      · exact absurd hresult (hnot e)
      · exact ⟨[], by simpa using hresult⟩
    · -- a task that has ended is finished
      have hfinished : ∀ c ∈ (run S acts).server.connections,
          (run S acts).server.tasks c = some .finished := by
        intro c hc
        have hlt := hsound.listed c hc
        obtain ⟨status, hstatus⟩ := hsound.status hlt
        have hc' := hfit c
        rw [hstatus] at hc' ⊢
        cases status with
        | finished => rfl
        | running => cases hc'.1.symm.trans (hended c hlt)
        | aborted => cases hc'.1.symm.trans (hended c hlt)
      have hshutdown : (run S acts).step S (.main .shutdown)
          = ⟨{ (run S acts).server with phase := .draining }, (run S acts).task⟩ := by
        rw [System.step_main S (by simp), step_shutdown hret]
      obtain ⟨mains, hmains⟩ := drains (S := S) (s := (run S acts).step S (.main .shutdown))
        (by rw [hshutdown]) (by rw [hshutdown]; exact hfinished)
      exact ⟨.shutdown :: mains, by rw [happend]; exact hmains⟩

end Server
end MongodProxy
