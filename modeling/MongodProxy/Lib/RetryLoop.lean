import Mathlib.Logic.Function.Basic
import Mathlib.Tactic.Common

/-!
# Compare-exchange retry loops

Any number of calls share one atomic cell. Each call loads it, works out from what it read
either a result to stop with or a value to put there, and in the second case tries to
exchange; an exchange that fails, because another call was faster or for no reason at all
(the weak form), hands over the value it observed and the call goes round again. The calls are
interleaved one atomic step at a time. Such a loop acts as if each call took effect at one
moment, on the value the cell holds then.
-/

namespace RetryLoop

/- What one round of the loop makes of the value it read. -/
inductive Round (α ρ : Type) where
  | stop (r : ρ)
  | exchange (next : α) (r : ρ)

inductive Phase (α ρ : Type) where
  | loading
  | exchanging (cur next : α) (r : ρ)
  | returned (r : ρ)

structure System (α ρ κ : Type) where
  cell : α
  call : κ → Phase α ρ

variable {α ρ κ : Type}

def Phase.result : Phase α ρ → Option ρ
  | .returned r => some r
  | _ => none

/-- The results of the calls that have returned. -/
def System.result (s : System α ρ κ) (k : κ) : Option ρ := (s.call k).result

/- Every call is about to load. -/
def System.start (a : α) : System α ρ κ := ⟨a, fun _ => .loading⟩

theorem result_update [DecidableEq κ] (s : System α ρ κ) (a : α) (k : κ) (p : Phase α ρ) :
    (System.mk a (Function.update s.call k p)).result = Function.update s.result k p.result :=
  Function.comp_update Phase.result s.call k p

/- A result that is there after `k` has returned is `k`'s or was there before. -/
theorem update_eq_some [DecidableEq κ] {results : κ → Option ρ} {j k : κ} {r r' : ρ}
    (h : Function.update results k (some r) j = some r') :
    (j = k ∧ r' = r) ∨ (j ≠ k ∧ results j = some r') := by
  by_cases hjk : j = k
  · subst hjk
    rw [Function.update_self] at h
    exact .inl ⟨rfl, (Option.some.inj h).symm⟩
  · rw [Function.update_of_ne hjk] at h
    exact .inr ⟨hjk, h⟩

theorem update_of_some [DecidableEq κ] {results : κ → Option ρ} {j k : κ} {r' : ρ}
    (hk : results k = none) (hj : results j = some r') (r : ρ) :
    Function.update results k (some r) j = some r' := by
  have hjk : j ≠ k := by
    intro heq
    rw [heq, hk] at hj
    cases hj
  rw [Function.update_of_ne hjk]
  exact hj

section Rounds

variable (round : α → Round α ρ)

def enter (cur : α) : Phase α ρ :=
  match round cur with
  | .stop r => .returned r
  | .exchange next r => .exchanging cur next r

/-- The whole loop as one step: its result and the cell afterwards. -/
def atomic (a : α) : ρ × α :=
  match round a with
  | .stop r => (r, a)
  | .exchange next r => (r, next)

/- What a call carries into its exchange is what it worked out from the value it read. -/
def Sound (s : System α ρ κ) : Prop :=
  ∀ k cur next r, s.call k = .exchanging cur next r → round cur = .exchange next r

theorem sound_start (a : α) : Sound round (System.start a : System α ρ κ) := by
  intro k cur next r h
  cases h

end Rounds

section Steps

variable [DecidableEq α] [DecidableEq κ] (round : α → Round α ρ)

/-- One atomic step of call `k`: its load or its exchange, with the work up to the next one. -/
def step (s : System α ρ κ) (k : κ) (spurious : Bool) : System α ρ κ :=
  match s.call k with
  | .loading => { s with call := Function.update s.call k (enter round s.cell) }
  | .exchanging cur next r =>
    if s.cell = cur ∧ spurious = false then
      { cell := next, call := Function.update s.call k (.returned r) }
    else { s with call := Function.update s.call k (enter round s.cell) }
  | .returned _ => s

def run (s : System α ρ κ) (turns : List (κ × Bool)) : System α ρ κ :=
  turns.foldl (fun s t => step round s t.1 t.2) s

variable {round}

/-- What a step can do: nothing, for a call that has returned; another try; or the loop as a
whole, on the value the cell holds at that moment. -/
theorem step_cases {s : System α ρ κ} (hs : Sound round s) (k : κ) (spurious : Bool) :
    (∃ r, s.result k = some r ∧ step round s k spurious = s) ∨
      s.result k = none ∧
        ((∃ next r, round s.cell = .exchange next r ∧ step round s k spurious =
            { s with call := Function.update s.call k (.exchanging s.cell next r) }) ∨
          step round s k spurious =
            { cell := (atomic round s.cell).2
              call := Function.update s.call k (.returned (atomic round s.cell).1) }) := by
  -- a round on the cell's value either stops, which takes effect, or goes on to an exchange
  have henter : (∃ next r, round s.cell = .exchange next r ∧
        ({ s with call := Function.update s.call k (enter round s.cell) } : System α ρ κ) =
          { s with call := Function.update s.call k (.exchanging s.cell next r) }) ∨
      ({ s with call := Function.update s.call k (enter round s.cell) } : System α ρ κ) =
        { cell := (atomic round s.cell).2
          call := Function.update s.call k (.returned (atomic round s.cell).1) } := by
    cases hround : round s.cell with
    | stop r =>
      right
      simp only [enter, atomic, hround]
    | exchange next r =>
      left
      refine ⟨next, r, rfl, ?_⟩
      simp only [enter, hround]
  cases hk : s.call k with
  | loading =>
    right
    refine ⟨by rw [System.result, hk]; rfl, ?_⟩
    simp only [step, hk]
    exact henter
  | exchanging cur next r =>
    right
    refine ⟨by rw [System.result, hk]; rfl, ?_⟩
    simp only [step, hk]
    split_ifs with hswap
    · right
      obtain ⟨rfl, -⟩ := hswap
      simp only [atomic, hs k s.cell next r hk]
    · exact henter
  | returned r =>
    left
    refine ⟨r, by rw [System.result, hk]; rfl, ?_⟩
    simp only [step, hk]

theorem sound_step {s : System α ρ κ} (hs : Sound round s) (k : κ) (spurious : Bool) :
    Sound round (step round s k spurious) := by
  intro j cur next r hj
  by_cases hjk : j = k
  · subst hjk
    obtain ⟨r', -, hstep⟩ | ⟨-, ⟨next', r', hround, hstep⟩ | hstep⟩ := step_cases hs j spurious
    · rw [hstep] at hj
      exact hs j cur next r hj
    · rw [hstep] at hj
      simp only [Function.update_self] at hj
      cases hj
      exact hround
    · rw [hstep] at hj
      simp only [Function.update_self] at hj
      cases hj
  · obtain ⟨r', -, hstep⟩ | ⟨-, ⟨next', r', hround, hstep⟩ | hstep⟩ := step_cases hs k spurious
    · rw [hstep] at hj
      exact hs j cur next r hj
    · rw [hstep] at hj
      simp only [Function.update_of_ne hjk] at hj
      exact hs j cur next r hj
    · rw [hstep] at hj
      simp only [Function.update_of_ne hjk] at hj
      exact hs j cur next r hj

theorem sound_run {s : System α ρ κ} (hs : Sound round s) (turns : List (κ × Bool)) :
    Sound round (run round s turns) := by
  induction turns generalizing s with
  | nil => exact hs
  | cons t turns ih => exact ih (sound_step hs t.1 t.2)

/-- Seen from outside, a step does nothing or is a whole call. -/
theorem step_refines {s : System α ρ κ} (hs : Sound round s) (k : κ) (spurious : Bool) :
    ((step round s k spurious).cell = s.cell ∧ (step round s k spurious).result = s.result) ∨
      s.result k = none ∧ (step round s k spurious).cell = (atomic round s.cell).2 ∧
        (step round s k spurious).result =
          Function.update s.result k (some (atomic round s.cell).1) := by
  obtain ⟨r', -, hstep⟩ | ⟨hnone, ⟨next, r, -, hstep⟩ | hstep⟩ := step_cases hs k spurious
  · left
    rw [hstep]
    exact ⟨rfl, rfl⟩
  · left
    rw [hstep, result_update]
    refine ⟨rfl, ?_⟩
    show Function.update s.result k none = s.result
    rw [← hnone, Function.update_eq_self]
  · right
    rw [hstep, result_update]
    exact ⟨hnone, rfl, rfl⟩

/-- What whole calls keep, every interleaving of their steps keeps. -/
theorem run_invariant {Inv : α → (κ → Option ρ) → Prop}
    (hcall : ∀ a results k, Inv a results → results k = none →
      Inv (atomic round a).2 (Function.update results k (some (atomic round a).1)))
    {s : System α ρ κ} (hs : Sound round s) (h : Inv s.cell s.result) (turns : List (κ × Bool)) :
    Inv (run round s turns).cell (run round s turns).result := by
  induction turns generalizing s with
  | nil => exact h
  | cons t turns ih =>
    refine ih (sound_step hs t.1 t.2) ?_
    obtain ⟨hcell, hresult⟩ | ⟨hnone, hcell, hresult⟩ := step_refines hs t.1 t.2
    · rw [hcell, hresult]
      exact h
    · rw [hcell, hresult]
      exact hcall s.cell s.result t.1 h hnone

/-- Where a round stops, a call that has not returned does so at its next step. -/
theorem step_of_stop {s : System α ρ κ} (hs : Sound round s) {k : κ} (hk : s.result k = none)
    {r : ρ} (hstop : round s.cell = .stop r) (spurious : Bool) :
    (step round s k spurious).cell = s.cell ∧
      (step round s k spurious).result = Function.update s.result k (some r) := by
  obtain ⟨r', hr', -⟩ | ⟨-, ⟨next, r', hround, -⟩ | hstep⟩ := step_cases hs k spurious
  · rw [hk] at hr'
    cases hr'
  · rw [hstop] at hround
    cases hround
  · have hatomic : atomic round s.cell = (r, s.cell) := by
      simp only [atomic, hstop]
    rw [hstep, result_update, hatomic]
    exact ⟨rfl, rfl⟩

end Steps

end RetryLoop
