import Mathlib.Data.List.Sort
import Mathlib.Tactic.Common

/-!
# Stable sorting by a key

What a stable sort is: the same elements, in the order of their keys, and those with one
key in the order they came in. Insertion sort is one, for every relation that compares
keys.
-/

namespace StableSort
variable {α κ : Type} [LinearOrder κ]

/-- Sorted by the key, with the elements of one key in the order they came in. -/
structure StableSortBy (key : α → κ) (l sorted : List α) : Prop where
  perm : sorted.Perm l
  ordered : sorted.Pairwise fun a b => key a ≤ key b
  same_key : ∀ k, (sorted.filter fun a => key a = k) = l.filter fun a => key a = k

section
variable {key : α → κ} {r : α → α → Prop} [DecidableRel r]

/- The elements of one key are related to one another, so they are not moved past each other. -/
theorem filter_insertionSort (hr : ∀ a b, r a b ↔ key a ≤ key b) (l : List α) (k : κ) :
    ((l.insertionSort r).filter fun a => key a = k) = l.filter fun a => key a = k := by
  have hrelated : (l.filter fun a => key a = k).Pairwise r := by
    apply List.pairwise_of_forall_mem_list
    intro a ha b hb
    rw [List.mem_filter, decide_eq_true_eq] at ha hb
    rw [hr, ha.2, hb.2]
  have hsub : (l.filter fun a => key a = k).Sublist (l.insertionSort r) :=
    List.sublist_insertionSort hrelated List.filter_sublist
  have hsame := hsub.filter fun a => key a = k
  rw [List.filter_filter] at hsame
  simp only [Bool.and_self] at hsame
  have hlen := ((List.perm_insertionSort r l).filter fun a => key a = k).length_eq
  exact (hsame.eq_of_length hlen.symm).symm

theorem stableSortBy_insertionSort (hr : ∀ a b, r a b ↔ key a ≤ key b) (l : List α) :
    StableSortBy key l (l.insertionSort r) := by
  have htotal : Std.Total r := ⟨fun a b => by rw [hr, hr]; exact le_total _ _⟩
  have htrans : IsTrans α r := ⟨fun a b c => by rw [hr, hr, hr]; exact le_trans⟩
  refine ⟨List.perm_insertionSort r l, ?_, filter_insertionSort hr l⟩
  exact (List.pairwise_insertionSort r l).imp fun h => (hr _ _).mp h

end

/-! ### The front of a sorted list -/

section
variable {P : α → Bool} {l : List α}

/- Where the elements with a property stand before the others, `takeWhile` finds them all. -/
theorem takeWhile_eq_filter (h : l.Pairwise fun a b => P b = true → P a = true) :
    l.takeWhile P = l.filter P := by
  induction l with
  | nil => rfl
  | cons a l ih =>
    obtain ⟨hfront, htail⟩ := List.pairwise_cons.mp h
    by_cases ha : P a = true
    · rw [List.takeWhile_cons_of_pos ha, List.filter_cons_of_pos ha, ih htail]
    · rw [List.takeWhile_cons_of_neg ha, List.filter_cons_of_neg ha]
      exact (List.filter_eq_nil_iff.mpr fun b hb hPb => ha (hfront b hb hPb)).symm

theorem dropWhile_eq_filter (h : l.Pairwise fun a b => P b = true → P a = true) :
    l.dropWhile P = l.filter fun a => !P a := by
  induction l with
  | nil => rfl
  | cons a l ih =>
    obtain ⟨hfront, htail⟩ := List.pairwise_cons.mp h
    by_cases ha : P a = true
    · rw [List.dropWhile_cons_of_pos ha, List.filter_cons_of_neg (by simp [ha]), ih htail]
    · rw [List.dropWhile_cons_of_neg ha]
      refine (List.filter_eq_self.mpr ?_).symm
      intro b hb
      rcases List.mem_cons.mp hb with rfl | hb
      · simpa using ha
      · have hPb : ¬ P b = true := fun hPb => ha (hfront b hb hPb)
        simpa using hPb

end

end StableSort
