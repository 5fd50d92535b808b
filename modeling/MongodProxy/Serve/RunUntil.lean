import Mathlib.Data.List.Induction
import Mathlib.Logic.Function.Basic
import Mathlib.Tactic.Common

/-!
# The accept loop and its connections (serve/mod.rs, `run_until`)

Every accepted connection becomes a task of a join set. There are two ways out of the
accept loop: `shutdown` breaks out of it and the set is drained, while an error of the
listener returns at once and drops the set, which aborts the tasks still in it. The
tasks, the listener and the shutdown future act in any order.
-/

namespace MongodProxy
namespace RunUntil

inductive TaskStatus where
  | running
  | finished
  | aborted
  deriving DecidableEq, Repr

/- `ε` is the error of the listener. -/
inductive ServeError (ε : Type) where
  | accept (e : ε)

inductive Phase (ε : Type) where
  | accepting
  | draining
  | returned (result : Except (ServeError ε) Unit)

/-- Connections are numbered in the order they are accepted. -/
structure Server (ε : Type) where
  phase : Phase ε
  spawned : ℕ
  tasks : ℕ → Option TaskStatus
  /-- The tasks that have not been joined. -/
  connections : List ℕ

inductive Action (ε : Type) where
  | accepted
  | acceptFailed (e : ε)
  | shutdown
  | finishes (c : ℕ)
  | joined (c : ℕ)
  | drained

variable {ε : Type}

namespace Server

def initial : Server ε := ⟨.accepting, 0, fun _ => none, []⟩

/- `connections.spawn`. -/
def spawn (s : Server ε) : Server ε :=
  { s with
    spawned := s.spawned + 1
    tasks := Function.update s.tasks s.spawned (some .running)
    connections := s.spawned :: s.connections }

/- The end of `run_until`: its join set is dropped, and what still runs in it is aborted. -/
def returns (s : Server ε) (result : Except (ServeError ε) Unit) : Server ε :=
  { s with
    phase := .returned result
    tasks := fun c =>
      if c ∈ s.connections ∧ s.tasks c = some .running then some .aborted else s.tasks c
    connections := [] }

/-- Actions that are not possible in a state leave it as it is. -/
def step (s : Server ε) : Action ε → Server ε
  | .accepted =>
    match s.phase with
    | .accepting => s.spawn
    | _ => s
  -- the `?` on the accepted stream
  | .acceptFailed e =>
    match s.phase with
    | .accepting => s.returns (.error (.accept e))
    | _ => s
  | .shutdown =>
    match s.phase with
    | .accepting => { s with phase := .draining }
    | _ => s
  | .finishes c =>
    if s.tasks c = some .running then
      { s with tasks := Function.update s.tasks c (some .finished) }
    else s
  -- `join_next` answers a finished task, in the loop or while draining
  | .joined c =>
    match s.phase with
    | .returned _ => s
    | _ =>
      if c ∈ s.connections ∧ s.tasks c = some .finished then
        { s with connections := s.connections.filter (· ≠ c) }
      else s
  -- `join_next` answers `None` once the set is empty
  | .drained =>
    match s.phase with
    | .draining => if s.connections.isEmpty then s.returns (.ok ()) else s
    | _ => s

end Server

def run (acts : List (Action ε)) : Server ε := acts.foldl Server.step .initial

/-! ### While the loop runs -/

def Server.Returned (s : Server ε) : Prop := ∃ result, s.phase = .returned result

/-- Every task that was spawned has run to completion. -/
def Server.AllFinished (s : Server ε) : Prop := ∀ c t, s.tasks c = some t → t = .finished

/- Before the return no task is aborted, and a task that runs is in the set. -/
structure Server.Live (s : Server ε) : Prop where
  unaborted : ∀ c, s.tasks c ≠ some .aborted
  tracked : ∀ c, s.tasks c = some .running → c ∈ s.connections

theorem Server.Live.allFinished {s : Server ε} (h : s.Live) (hempty : s.connections = []) :
    s.AllFinished := by
  intro c t ht
  cases t with
  | finished => rfl
  | aborted => exact absurd ht (h.unaborted c)
  | running =>
    have hc := h.tracked c ht
    rw [hempty] at hc
    cases hc

theorem live_initial : (Server.initial : Server ε).Live where
  unaborted := by
    intro c h
    cases h
  tracked := by
    intro c h
    cases h

theorem Server.Live.spawn {s : Server ε} (h : s.Live) : s.spawn.Live where
  unaborted := by
    intro c hc
    by_cases hnew : c = s.spawned
    · rw [Server.spawn, hnew] at hc
      simp at hc
    · simp only [Server.spawn, Function.update_of_ne hnew] at hc
      exact h.unaborted c hc
  tracked := by
    intro c hc
    by_cases hnew : c = s.spawned
    · rw [hnew]
      exact List.mem_cons_self ..
    · simp only [Server.spawn, Function.update_of_ne hnew] at hc
      exact List.mem_cons_of_mem _ (h.tracked c hc)

theorem Server.Live.finishes {s : Server ε} (h : s.Live) (c : ℕ) :
    ({ s with tasks := Function.update s.tasks c (some .finished) } : Server ε).Live where
  unaborted := by
    intro d hd
    by_cases heq : d = c
    · rw [heq] at hd
      simp at hd
    · simp only [Function.update_of_ne heq] at hd
      exact h.unaborted d hd
  tracked := by
    intro d hd
    by_cases heq : d = c
    · rw [heq] at hd
      simp at hd
    · simp only [Function.update_of_ne heq] at hd
      exact h.tracked d hd

theorem Server.Live.joined {s : Server ε} (h : s.Live) {c : ℕ} (hc : s.tasks c = some .finished) :
    ({ s with connections := s.connections.filter (· ≠ c) } : Server ε).Live where
  unaborted := h.unaborted
  tracked := by
    intro d hd
    have hne : d ≠ c := by
      intro heq
      rw [heq, hc] at hd
      cases hd
    exact List.mem_filter.mpr ⟨h.tracked d hd, by simpa using hne⟩

/- A return keeps what is finished, and nothing else is kept if the set was empty. -/
theorem Server.AllFinished.returns {s : Server ε} (h : s.AllFinished)
    (result : Except (ServeError ε) Unit) : (s.returns result).AllFinished := by
  intro c t ht
  simp only [Server.returns] at ht
  split_ifs at ht with hrun
  · cases h c .running hrun.2
  · exact h c t ht

theorem Server.not_allFinished_returns {s : Server ε} (h : s.Live) (hnot : ¬ s.AllFinished)
    (result : Except (ServeError ε) Unit) : ¬ (s.returns result).AllFinished := by
  intro hall
  apply hnot
  intro c t ht
  cases t with
  | finished => rfl
  | aborted => exact absurd ht (h.unaborted c)
  | running =>
    have habort : (s.returns result).tasks c = some .aborted := by
      simp only [Server.returns, if_pos (And.intro (h.tracked c ht) ht)]
    cases hall c .aborted habort

/-! ### One step -/

/-- The listener fails while a task has not finished. -/
def Server.Breaks (s : Server ε) (a : Action ε) : Prop :=
  s.phase = .accepting ∧ (∃ e, a = .acceptFailed e) ∧ ¬ s.AllFinished

theorem Server.Returned.step {s : Server ε} (h : s.Returned) (a : Action ε) :
    (s.step a).Returned := by
  obtain ⟨result, hresult⟩ := h
  cases a with
  | finishes c =>
    simp only [Server.step]
    split_ifs
    · exact ⟨result, hresult⟩
    · exact ⟨result, hresult⟩
  | _ =>
    simp only [Server.step, hresult]
    exact ⟨result, hresult⟩

theorem Server.Live.step {s : Server ε} (h : s.Live) (a : Action ε)
    (hrun : ¬ (s.step a).Returned) : (s.step a).Live := by
  cases a with
  | accepted =>
    simp only [Server.step] at hrun ⊢
    split
    · exact h.spawn
    · exact h
  | acceptFailed e =>
    simp only [Server.step] at hrun ⊢
    cases hphase : s.phase with
    | accepting =>
      rw [hphase] at hrun
      exact absurd ⟨_, rfl⟩ hrun
    | draining => exact h
    | returned result => exact h
  | shutdown =>
    simp only [Server.step]
    split
    · exact ⟨h.unaborted, h.tracked⟩
    · exact h
  | finishes c =>
    simp only [Server.step]
    split_ifs
    · exact h.finishes c
    · exact h
  | joined c =>
    simp only [Server.step]
    split
    · exact h
    · split_ifs with hc
      · exact h.joined hc.2
      · exact h
  | drained =>
    simp only [Server.step] at hrun ⊢
    cases hphase : s.phase with
    | accepting => exact h
    | returned result => exact h
    | draining =>
      simp only [hphase] at hrun ⊢
      split_ifs at hrun ⊢
      · exact absurd ⟨_, rfl⟩ hrun
      · exact h

/- After the return only tasks that finish change, and none runs. -/
theorem Server.AllFinished.step_returned {s : Server ε} (h : s.AllFinished) (hret : s.Returned)
    (a : Action ε) : (s.step a).AllFinished := by
  obtain ⟨result, hresult⟩ := hret
  cases a with
  | finishes c =>
    simp only [Server.step]
    split_ifs with hrun
    · cases h c .running hrun
    · exact h
  | _ =>
    simp only [Server.step, hresult]
    exact h

/-- A step that returns leaves no task behind, unless it breaks off. -/
theorem Server.Live.step_returned {s : Server ε} (h : s.Live) (hrun : ¬ s.Returned) {a : Action ε}
    (hgood : ¬ s.Breaks a) (hret : (s.step a).Returned) : (s.step a).AllFinished := by
  obtain ⟨result, hresult⟩ := hret
  cases a with
  | acceptFailed e =>
    simp only [Server.step] at hresult ⊢
    cases hphase : s.phase with
    | accepting =>
      have hall : s.AllFinished := by
        by_contra hnot
        exact hgood ⟨hphase, ⟨e, rfl⟩, hnot⟩
      exact hall.returns _
    | draining =>
      simp only [hphase] at hresult
      cases hresult
    | returned result' => exact absurd ⟨result', hphase⟩ hrun
  | drained =>
    simp only [Server.step] at hresult ⊢
    cases hphase : s.phase with
    | accepting =>
      simp only [hphase] at hresult
      cases hresult
    | returned result' => exact absurd ⟨result', hphase⟩ hrun
    | draining =>
      simp only [hphase] at hresult ⊢
      split_ifs at hresult ⊢ with hempty
      · exact (h.allFinished (List.isEmpty_iff.mp hempty)).returns _
      · rw [hphase] at hresult
        cases hresult
  | accepted =>
    simp only [Server.step] at hresult
    split at hresult
    next hphase => cases hphase.symm.trans hresult
    next => exact absurd ⟨result, hresult⟩ hrun
  | shutdown =>
    simp only [Server.step] at hresult
    split at hresult
    next => cases hresult
    next => exact absurd ⟨result, hresult⟩ hrun
  | finishes c =>
    simp only [Server.step] at hresult
    split_ifs at hresult
    · exact absurd ⟨result, hresult⟩ hrun
    · exact absurd ⟨result, hresult⟩ hrun
  | joined c =>
    simp only [Server.step] at hresult
    split at hresult
    next hphase => exact absurd ⟨_, hphase⟩ hrun
    next => split_ifs at hresult <;> exact absurd ⟨result, hresult⟩ hrun

/-! ### Runs -/

theorem run_append (front : List (Action ε)) (a : Action ε) :
    run (front ++ [a]) = (run front).step a := by
  rw [run, run, List.foldl_append]
  rfl

theorem live_run (acts : List (Action ε)) (h : ¬ (run acts).Returned) : (run acts).Live := by
  induction acts using List.reverseRecOn with
  | nil => exact live_initial
  | append_singleton acts a ih =>
    rw [run_append] at h ⊢
    exact (ih fun hret => h (hret.step a)).step a h

/-- At every return of a run all tasks have run to completion, exactly if the listener fails only
when they have. -/
theorem drains_iff (acts : List (Action ε)) :
    (∀ front rest, acts = front ++ rest → (run front).Returned → (run front).AllFinished) ↔
      ∀ front a rest, acts = front ++ a :: rest → ¬ (run front).Breaks a := by
  refine ⟨?_, ?_⟩
  · intro hall front a rest hacts hbreaks
    obtain ⟨hphase, ⟨e, rfl⟩, hnot⟩ := hbreaks
    have hstep : run (front ++ [.acceptFailed e]) = (run front).returns (.error (.accept e)) := by
      rw [run_append]
      simp only [Server.step, hphase]
    have hlive := live_run front (by
      rintro ⟨result, hresult⟩
      cases hphase.symm.trans hresult)
    have hfinished := hall (front ++ [.acceptFailed e]) rest (by
      rw [hacts, List.append_assoc]
      rfl) (by rw [hstep]; exact ⟨_, rfl⟩)
    rw [hstep] at hfinished
    exact Server.not_allFinished_returns hlive hnot _ hfinished
  · intro hgood front
    induction front using List.reverseRecOn with
    | nil =>
      rintro rest - ⟨result, hresult⟩
      cases hresult
    | append_singleton front a ih =>
      intro rest hacts hret
      have hprefix : acts = front ++ a :: rest := by
        rw [hacts, List.append_assoc]
        rfl
      rw [run_append] at hret ⊢
      by_cases hbefore : (run front).Returned
      · exact (ih (a :: rest) hprefix hbefore).step_returned hbefore a
      · exact (live_run front hbefore).step_returned hbefore (hgood front a rest hprefix) hret

/- One connection is open when the listener fails. -/
theorem acceptFailed_aborts :
    (run [.accepted, .acceptFailed ()]).phase = .returned (.error (.accept ())) ∧
      (run [.accepted, .acceptFailed ()]).tasks 0 = some .aborted ∧
      ¬ (run [.accepted, .acceptFailed ()]).AllFinished := by
  refine ⟨rfl, rfl, ?_⟩
  intro hall
  cases hall 0 .aborted rfl

end RunUntil
end MongodProxy
