import Mathlib.Data.List.Infix
import Mathlib.Tactic.Common

/-!
# Splitting strings

A string is its sequence of characters. `splitOnce` cuts at the first separator,
`rsplitOnce` at the last one and `splitOnceStr` at the first occurrence of a pattern;
the rules say where the cut is when the parts are known.
-/

/-- A string as its sequence of characters. -/
abbrev Str := List Char

namespace Str

/-- `str::split_once` with a character: the parts before and after the first one. -/
def splitOnce (sep : Char) : Str → Option (Str × Str)
  | [] => none
  | c :: s => if c = sep then some ([], s) else (splitOnce sep s).map fun p => (c :: p.1, p.2)

/-- `str::rsplit_once` with a character: the parts before and after the last one. -/
def rsplitOnce (sep : Char) (s : Str) : Option (Str × Str) :=
  (splitOnce sep s.reverse).map fun p => (p.2.reverse, p.1.reverse)

/-- `str::split_once` with a string. -/
def splitOnceStr (pat : Str) : Str → Option (Str × Str)
  | [] => if pat.isPrefixOf [] then some ([], []) else none
  | c :: s =>
    if pat.isPrefixOf (c :: s) then some ([], (c :: s).drop pat.length)
    else (splitOnceStr pat s).map fun p => (c :: p.1, p.2)

def toAsciiLowercase (s : Str) : Str := s.map Char.toLower

def eqIgnoreAsciiCase (s t : Str) : Bool := s.toAsciiLowercase = t.toAsciiLowercase

theorem splitOnce_append {sep : Char} {a : Str} (b : Str) (h : sep ∉ a) :
    splitOnce sep (a ++ sep :: b) = some (a, b) := by
  induction a with
  | nil => simp [splitOnce]
  | cons c a ih =>
    rw [List.mem_cons, not_or] at h
    simp only [List.cons_append, splitOnce, if_neg (Ne.symm h.1), ih h.2, Option.map_some]

theorem splitOnce_of_not_mem {sep : Char} {s : Str} (h : sep ∉ s) : splitOnce sep s = none := by
  induction s with
  | nil => rfl
  | cons c s ih =>
    rw [List.mem_cons, not_or] at h
    simp only [splitOnce, if_neg (Ne.symm h.1), ih h.2, Option.map_none]

theorem rsplitOnce_append {sep : Char} (a : Str) {b : Str} (h : sep ∉ b) :
    rsplitOnce sep (a ++ sep :: b) = some (a, b) := by
  have hrev : (a ++ sep :: b).reverse = b.reverse ++ sep :: a.reverse := by simp
  rw [rsplitOnce, hrev, splitOnce_append _ (by simpa using h)]
  simp

theorem rsplitOnce_of_not_mem {sep : Char} {s : Str} (h : sep ∉ s) : rsplitOnce sep s = none := by
  rw [rsplitOnce, splitOnce_of_not_mem (by simpa using h)]
  rfl

/- A text without the separator, or one cut at the first of them. -/
theorem cut_first (sep : Char) (s : Str) : sep ∉ s ∨ ∃ a b, s = a ++ sep :: b ∧ sep ∉ a := by
  by_cases h : sep ∈ s
  · obtain ⟨a, b, hsplit, hfirst⟩ := List.eq_append_cons_of_mem h
    exact Or.inr ⟨a, b, hsplit, hfirst⟩
  · exact Or.inl h

/- A text without the separator, or one cut at the last of them. -/
theorem cut_last (sep : Char) (s : Str) : sep ∉ s ∨ ∃ a b, s = a ++ sep :: b ∧ sep ∉ b := by
  rcases cut_first sep s.reverse with hno | ⟨b, a, hsplit, hlast⟩
  · exact Or.inl (by simpa using hno)
  · refine Or.inr ⟨a.reverse, b.reverse, ?_, by simpa using hlast⟩
    rw [← List.reverse_reverse s, hsplit]
    simp

/-- A part has no separator in it, and its characters are the text's. -/
theorem mem_splitOn {sep : Char} {s part : Str} (h : part ∈ s.splitOn sep) :
    sep ∉ part ∧ part ⊆ s := by
  induction hn : s.length using Nat.strong_induction_on generalizing s with
  | _ n ih =>
    rcases cut_first sep s with hno | ⟨a, b, rfl, hfirst⟩
    · rw [List.splitOn_eq_singleton hno, List.mem_singleton] at h
      subst h
      exact ⟨hno, List.Subset.refl _⟩
    · rw [List.splitOn_append_cons_self_of_not_mem hfirst, List.mem_cons] at h
      rcases h with rfl | hrest
      · exact ⟨hfirst, List.subset_append_left _ _⟩
      · have hlen : b.length < n := by
          rw [← hn, List.length_append, List.length_cons]
          omega
        obtain ⟨hpart, hsub⟩ := ih b.length hlen hrest rfl
        refine ⟨hpart, ?_⟩
        intro c hc
        exact List.mem_append_right a (List.mem_cons_of_mem sep (hsub hc))

/- A pattern that does not start inside what precedes it is found where it stands. -/
theorem splitOnceStr_append {pat a : Str} (b : Str) (h : ¬ pat <:+: a ++ pat.dropLast) :
    splitOnceStr pat (a ++ (pat ++ b)) = some (a, b) := by
  induction a with
  | nil =>
    have hpre : pat.isPrefixOf (pat ++ b) = true := by simp
    cases hs : pat ++ b with
    | nil =>
      obtain ⟨hpat, hb⟩ := List.append_eq_nil_iff.mp hs
      simp [splitOnceStr, hpat, hb]
    | cons c s =>
      rw [hs] at hpre
      rw [List.nil_append, splitOnceStr, if_pos hpre, ← hs, List.drop_left]
  | cons c a ih =>
    have hrest : ¬ pat <:+: a ++ pat.dropLast := by
      intro hin
      exact h (hin.trans (List.suffix_cons c _).isInfix)
    have hpre : ¬ pat.isPrefixOf (c :: (a ++ (pat ++ b))) = true := by
      intro hin
      rw [List.isPrefixOf_iff_prefix] at hin
      -- the pattern ends before its own last character
      have hwhole : (c :: a) ++ pat.dropLast <+: c :: (a ++ (pat ++ b)) := by
        have hfront : pat.dropLast <+: pat ++ b := pat.dropLast_prefix.trans (List.prefix_append ..)
        exact List.prefix_append_right_inj (c :: a) |>.mpr hfront
      have hlen : pat.length ≤ ((c :: a) ++ pat.dropLast).length := by
        rw [List.length_append, List.length_cons, List.length_dropLast]
        omega
      exact h (List.prefix_of_prefix_length_le hin hwhole hlen).isInfix
    rw [List.cons_append, splitOnceStr, if_neg hpre, ih hrest]
    rfl

theorem not_suffix_concat {a s : Str} {c d : Char} (hd : a.getLast? = some d) (hne : d ≠ c) :
    ¬ a <:+ s ++ [c] := by
  intro hsuffix
  rcases List.suffix_concat_iff.mp hsuffix with rfl | ⟨t, rfl, -⟩
  · cases hd
  · rw [List.getLast?_concat, Option.some.injEq] at hd
    exact hne hd.symm

/- The first occurrence of a pattern does not depend on what follows the text it is in. -/
theorem splitOnceStr_of_infix {pat s : Str} (rest : Str) (h : pat <:+: s) :
    ∃ a b, splitOnceStr pat (s ++ rest) = some (a, b ++ rest) ∧ s = a ++ (pat ++ b) := by
  induction s with
  | nil =>
    rw [List.infix_nil] at h
    subst h
    cases rest with
    | nil => exact ⟨[], [], rfl, rfl⟩
    | cons c rest => exact ⟨[], [], rfl, rfl⟩
  | cons c s ih =>
    by_cases hpre : pat <+: c :: s
    · obtain ⟨b, hb⟩ := hpre
      have hwhole : pat.isPrefixOf (c :: (s ++ rest)) = true := by
        rw [List.isPrefixOf_iff_prefix, ← List.cons_append, ← hb, List.append_assoc]
        exact List.prefix_append ..
      refine ⟨[], b, ?_, hb.symm⟩
      rw [List.cons_append, splitOnceStr, if_pos hwhole, ← List.cons_append, ← hb,
        List.append_assoc, List.drop_left]
    · have hlen : pat.length ≤ (c :: s).length := h.length_le
      have hwhole : ¬ pat.isPrefixOf (c :: (s ++ rest)) = true := by
        intro hp
        rw [List.isPrefixOf_iff_prefix, ← List.cons_append] at hp
        exact hpre (List.prefix_of_prefix_length_le hp (List.prefix_append ..) hlen)
      have htail : pat <:+: s := by
        rcases List.infix_cons_iff.mp h with hp | hs
        · exact absurd hp hpre
        · exact hs
      obtain ⟨a, b, hsplit, hs⟩ := ih htail
      refine ⟨c :: a, b, ?_, by rw [hs, List.cons_append]⟩
      rw [List.cons_append, splitOnceStr, if_neg hwhole, hsplit, Option.map_some]

theorem not_mem_intercalate {α : Type} {sep c : α} (hne : c ≠ sep) {parts : List (List α)}
    (h : ∀ part ∈ parts, c ∉ part) : c ∉ [sep].intercalate parts := by
  induction parts with
  | nil => simp
  | cons part rest ih =>
    rw [List.forall_mem_cons] at h
    cases rest with
    | nil =>
      rw [List.intercalate_singleton]
      exact h.1
    | cons next rest =>
      rw [List.intercalate_cons_cons, List.mem_append, List.mem_append, List.mem_singleton]
      rintro ((hin | heq) | hin)
      · exact h.1 hin
      · exact hne heq
      · exact ih h.2 hin

theorem intercalate_append {α : Type} (sep : α) (xs ys : List (List α)) (hx : xs ≠ []) (hy : ys ≠ []) :
    [sep].intercalate (xs ++ ys) = [sep].intercalate xs ++ sep :: [sep].intercalate ys := by
  induction xs with
  | nil => exact absurd rfl hx
  | cons x xs ih =>
    cases xs with
    | nil =>
      obtain ⟨y, ys, rfl⟩ := List.exists_cons_of_ne_nil hy
      simp [List.intercalate]
    | cons x' xs =>
      have hrest := ih (List.cons_ne_nil _ _)
      simp only [List.intercalate, List.cons_append, List.intersperse_cons_cons,
        List.flatten_cons] at hrest ⊢
      rw [hrest]
      simp only [List.append_assoc, List.cons_append, List.nil_append]

end Str
