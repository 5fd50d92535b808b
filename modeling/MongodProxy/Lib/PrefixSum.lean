import Mathlib.Algebra.BigOperators.Group.List.Basic
import Mathlib.Algebra.GroupWithZero.Nat
import Mathlib.Order.Interval.Finset.Nat
import Mathlib.Tactic.Common

/-!
# Picking by a running sum

Weights stand in a row and a number up to their total is drawn; the position picked is
the first one whose running sum reaches the number. Every position owns an interval of
numbers as long as its weight, and the first one also owns zero.
-/

namespace PrefixSum

/-- The first position whose running sum reaches `pick`. -/
def reach : ℕ → List ℕ → ℕ
  | _, [] => 0
  | pick, w :: ws => if pick ≤ w then 0 else reach (pick - w) ws + 1

/-- The numbers that a position owns. -/
theorem reach_eq_iff {pick : ℕ} {ws : List ℕ} (hpick : pick ≤ ws.sum) (hne : ws ≠ []) (i : ℕ) :
    reach pick ws = i ↔
      i < ws.length ∧ pick ≤ (ws.take (i + 1)).sum ∧ (i = 0 ∨ (ws.take i).sum < pick) := by
  induction ws generalizing pick i with
  | nil => exact absurd rfl hne
  | cons w ws ih =>
    rw [List.sum_cons] at hpick
    rw [reach, List.length_cons, List.take_succ_cons, List.sum_cons]
    split_ifs with hfirst
    · cases i with
      | zero =>
        rw [List.take_zero, List.take_zero, List.sum_nil]
        omega
      | succ j =>
        rw [List.take_succ_cons, List.sum_cons]
        omega
    · have hrest : ws ≠ [] := by
        intro hnil
        rw [hnil, List.sum_nil] at hpick
        omega
      cases i with
      | zero =>
        simp only [List.take_zero, List.sum_nil]
        omega
      | succ j =>
        rw [List.take_succ_cons, List.sum_cons, Nat.add_right_cancel_iff, ih (by omega) hrest j]
        cases j with
        | zero =>
          simp only [List.take_zero, List.sum_nil]
          omega
        | succ j => omega

theorem sum_take_le (ws : List ℕ) (i : ℕ) : (ws.take i).sum ≤ ws.sum := by
  have hsplit : ws.sum = (ws.take i).sum + (ws.drop i).sum := by
    rw [← List.sum_append, List.take_append_drop]
  omega

theorem sum_take_succ_get (ws : List ℕ) (i : ℕ) (hi : i < ws.length) :
    (ws.take (i + 1)).sum = (ws.take i).sum + ws.get ⟨i, hi⟩ := List.sum_take_succ ws i hi

/-- As many numbers pick a position as its weight says, and one more the first. -/
theorem card_reach {ws : List ℕ} (i : ℕ) (hi : i < ws.length) :
    ((Finset.range (ws.sum + 1)).filter fun pick => reach pick ws = i).card
      = ws.get ⟨i, hi⟩ + if i = 0 then 1 else 0 := by
  have hne : ws ≠ [] := List.ne_nil_of_length_pos (by omega)
  have hle := sum_take_le ws (i + 1)
  have hsucc := sum_take_succ_get ws i hi
  have hfilter : (Finset.range (ws.sum + 1)).filter (fun pick => reach pick ws = i)
      = if i = 0 then Finset.range ((ws.take (i + 1)).sum + 1)
        else Finset.Ioc (ws.take i).sum (ws.take (i + 1)).sum := by
    ext pick
    rw [Finset.mem_filter, Finset.mem_range]
    constructor
    · intro h
      obtain ⟨-, hupper, hlower⟩ := (reach_eq_iff (by omega) hne i).mp h.2
      split_ifs with hzero
      · rw [Finset.mem_range]
        omega
      · rw [Finset.mem_Ioc]
        exact ⟨hlower.resolve_left hzero, hupper⟩
    · intro h
      have howns : pick ≤ (ws.take (i + 1)).sum ∧ (i = 0 ∨ (ws.take i).sum < pick) := by
        split_ifs at h with hzero
        · rw [Finset.mem_range] at h
          exact ⟨by omega, Or.inl hzero⟩
        · rw [Finset.mem_Ioc] at h
          exact ⟨h.2, Or.inr h.1⟩
      refine ⟨by omega, ?_⟩
      exact (reach_eq_iff (by omega) hne i).mpr ⟨hi, howns⟩
  rw [hfilter]
  split_ifs with hzero
  · subst hzero
    rw [Finset.card_range, hsucc, List.take_zero, List.sum_nil]
    omega
  · rw [Nat.card_Ioc, hsucc]
    omega

end PrefixSum
