import Mathlib.Data.List.TakeDrop
import Mathlib.Data.List.TakeWhile
import MongodProxy.Serve.Explain.Model

/-!
# Namespaces (serve/explain/model: namespace.rs, newtypes.rs)

`Namespace::parse` cuts at the first dot and makes a `Database` and a `Collection` of the
halves. Both newtypes trim what they are given, so a half comes back as it was only if it
has no white space at its ends.
-/

namespace MongodProxy.Explain
open MongodProxy

/-! ### Trimming -/

/-- There is no white space at either end. -/
def Trimmed (s : List Char) : Prop :=
  (∀ c ∈ s.head?, isWhitespace c = false) ∧ ∀ c ∈ s.getLast?, isWhitespace c = false

theorem trimmed_of_ends {s : List Char} {a b : Char} (ha : s.head? = some a)
    (hb : s.getLast? = some b) (hwa : isWhitespace a = false) (hwb : isWhitespace b = false) :
    Trimmed s := by
  refine ⟨?_, ?_⟩
  · intro c hc
    rw [ha, Option.mem_some_iff] at hc
    rw [← hc]
    exact hwa
  · intro c hc
    rw [hb, Option.mem_some_iff] at hc
    rw [← hc]
    exact hwb

theorem dropWhile_eq_self_iff_head (s : List Char) :
    s.dropWhile isWhitespace = s ↔ ∀ c ∈ s.head?, isWhitespace c = false := by
  constructor
  · intro h c hc
    have hfirst := List.head?_dropWhile_not isWhitespace s
    rw [h, Option.mem_def.mp hc] at hfirst
    exact hfirst
  · intro h
    cases s with
    | nil => rfl
    | cons c s =>
      have hc := h c rfl
      rw [List.dropWhile_cons_of_neg (by simp [hc])]

theorem length_trim_le (s : List Char) : (trim s).length ≤ s.length := by
  have hfront := (s.dropWhile_sublist isWhitespace).length_le
  have hback := ((s.dropWhile isWhitespace).reverse.dropWhile_sublist isWhitespace).length_le
  rw [List.length_reverse] at hback
  rw [trim, List.length_reverse]
  omega

theorem trim_eq_self_iff (s : List Char) : trim s = s ↔ Trimmed s := by
  rw [Trimmed, ← dropWhile_eq_self_iff_head, ← List.head?_reverse, ← dropWhile_eq_self_iff_head]
  constructor
  · intro h
    -- nothing was dropped at the front, since nothing was dropped at all
    have hlen := congrArg List.length h
    have hback := ((s.dropWhile isWhitespace).reverse.dropWhile_sublist isWhitespace).length_le
    rw [trim, List.length_reverse] at hlen
    rw [List.length_reverse] at hback
    have hfront : s.dropWhile isWhitespace = s :=
      (s.dropWhile_suffix isWhitespace).eq_of_length_le (by omega)
    refine ⟨hfront, ?_⟩
    rw [trim, hfront] at h
    rw [← List.reverse_inj, h, List.reverse_reverse]
  · intro h
    rw [trim, h.1, h.2, List.reverse_reverse]

theorem trim_eq_nil_iff (s : List Char) : trim s = [] ↔ ∀ c ∈ s, isWhitespace c = true := by
  rw [trim, List.reverse_eq_nil_iff, List.dropWhile_eq_nil_iff]
  constructor
  · intro h
    have hnil : s.dropWhile isWhitespace = [] := by
      cases hd : s.dropWhile isWhitespace with
      | nil => rfl
      | cons c rest =>
        have hfirst := List.head?_dropWhile_not isWhitespace s
        rw [hd] at h hfirst
        have hc := h c (by simp)
        rw [List.head?_cons] at hfirst
        simp [hc] at hfirst
    exact List.dropWhile_eq_nil_iff.mp hnil
  · intro h c hc
    exact h c ((s.dropWhile_sublist isWhitespace).subset (List.mem_reverse.mp hc))

/-! ### Namespaces -/

/- There is something else than white space. -/
def NonBlank (s : List Char) : Prop := ∃ c ∈ s, isWhitespace c = false

theorem tryNew_isSome_iff (s : List Char) : (∃ name, TrimmedName.tryNew s = some name) ↔ NonBlank s := by
  have hblank : trim s ≠ [] ↔ NonBlank s := by
    rw [Ne, trim_eq_nil_iff, NonBlank]
    simp
  rw [← hblank, TrimmedName.tryNew]
  split_ifs with h
  · simp [h]
  · simp [h]

theorem val_of_tryNew {s : List Char} {name : TrimmedName} (h : TrimmedName.tryNew s = some name) :
    name.val = trim s := by
  rw [TrimmedName.tryNew] at h
  split_ifs at h
  rw [Option.some.injEq] at h
  rw [← h]

theorem no_dot_all {s : List Char} (h : '.' ∉ s) : ∀ c ∈ s, decide (c ≠ '.') = true := by
  intro c hc
  apply decide_eq_true
  intro heq
  exact h (heq ▸ hc)

theorem span_of_not_mem {raw : List Char} (h : '.' ∉ raw) : raw.span (· ≠ '.') = (raw, []) := by
  rw [List.span_eq_takeWhile_dropWhile, List.takeWhile_eq_self_iff.mpr (no_dot_all h),
    List.dropWhile_eq_nil_iff.mpr (no_dot_all h)]

theorem span_append {db : List Char} (coll : List Char) (h : '.' ∉ db) :
    (db ++ '.' :: coll).span (· ≠ '.') = (db, '.' :: coll) := by
  rw [List.span_eq_takeWhile_dropWhile, List.takeWhile_append_of_pos (no_dot_all h),
    List.dropWhile_append_of_pos (no_dot_all h)]
  simp

theorem Namespace.parse_of_no_dot {raw : List Char} (h : '.' ∉ raw) :
    Namespace.parse raw = .error ⟨raw, .noDot⟩ := by
  rw [Namespace.parse, span_of_not_mem h]

theorem Namespace.parse_of_split {db : List Char} (coll : List Char) (h : '.' ∉ db) :
    Namespace.parse (db ++ '.' :: coll) =
      match TrimmedName.tryNew db with
      | none => .error ⟨db ++ '.' :: coll, .badDatabase⟩
      | some database =>
        match TrimmedName.tryNew coll with
        | none => .error ⟨db ++ '.' :: coll, .badCollection⟩
        | some collection => .ok ⟨database, collection⟩ := by
  cases hdb : TrimmedName.tryNew db with
  | none => simp only [Namespace.parse, span_append coll h, hdb]
  | some database =>
    cases hcoll : TrimmedName.tryNew coll with
    | none => simp only [Namespace.parse, span_append coll h, hdb, hcoll]
    | some collection => simp only [Namespace.parse, span_append coll h, hdb, hcoll]

/- The cut at the first dot. -/
def SplitAtDot (raw db coll : List Char) : Prop := raw = db ++ '.' :: coll ∧ '.' ∉ db

theorem SplitAtDot.unique {raw db coll db' coll' : List Char} (h : SplitAtDot raw db coll)
    (h' : SplitAtDot raw db' coll') : db = db' ∧ coll = coll' := by
  have hspan := span_append coll h.2
  rw [← h.1, h'.1, span_append coll' h'.2, Prod.mk.injEq, List.cons.injEq] at hspan
  exact ⟨hspan.1.symm, hspan.2.2.symm⟩

theorem splitAtDot_or (raw : List Char) : '.' ∉ raw ∨ ∃ db coll, SplitAtDot raw db coll := by
  by_cases h : '.' ∈ raw
  · obtain ⟨db, coll, hsplit, hfirst⟩ := List.eq_append_cons_of_mem h
    exact Or.inr ⟨db, coll, hsplit, hfirst⟩
  · exact Or.inl h

/- Trimming both halves gives the text back only if there is nothing to trim. -/
theorem trim_halves_eq_iff (db coll : List Char) :
    trim db ++ '.' :: trim coll = db ++ '.' :: coll ↔ Trimmed db ∧ Trimmed coll := by
  rw [← trim_eq_self_iff, ← trim_eq_self_iff]
  constructor
  · intro h
    have hlen := congrArg List.length h
    have hdb := length_trim_le db
    have hcoll := length_trim_le coll
    simp only [List.length_append, List.length_cons] at hlen
    obtain ⟨hfront, hback⟩ := List.append_inj h (by omega)
    exact ⟨hfront, (List.cons.inj hback).2⟩
  · intro h
    rw [h.1, h.2]

/-- A namespace is parsed at its first dot if both halves have a name in them. The halves are
trimmed, so the text comes back exactly if there is no white space around them. -/
theorem Namespace.parse_spec (raw : List Char) :
    ((∃ ns, Namespace.parse raw = .ok ns) ↔
      ∃ db coll, SplitAtDot raw db coll ∧ NonBlank db ∧ NonBlank coll) ∧
    (∀ ns, Namespace.parse raw = .ok ns → ∃ db coll, SplitAtDot raw db coll ∧
      ns.database.val = trim db ∧ ns.collection.val = trim coll ∧
      (ns.database.val ++ '.' :: ns.collection.val = raw ↔ Trimmed db ∧ Trimmed coll)) ∧
    ∀ e, Namespace.parse raw = .error e → e.raw = raw := by
  rcases splitAtDot_or raw with hno | ⟨db, coll, hsplit⟩
  · rw [Namespace.parse_of_no_dot hno]
    refine ⟨?_, ?_, ?_⟩
    · constructor
      · intro h
        obtain ⟨ns, hns⟩ := h
        cases hns
      · intro h
        obtain ⟨db, coll, hsplit, -⟩ := h
        exact absurd (by rw [hsplit.1]; simp) hno
    · intro ns h
      cases h
    · intro e h
      cases h
      rfl
  · have hparse := Namespace.parse_of_split coll hsplit.2
    rw [← hsplit.1] at hparse
    have hiff : (∃ db' coll', SplitAtDot raw db' coll' ∧ NonBlank db' ∧ NonBlank coll') ↔
        NonBlank db ∧ NonBlank coll := by
      constructor
      · intro h
        obtain ⟨db', coll', hsplit', hdb, hcoll⟩ := h
        obtain ⟨rfl, rfl⟩ := hsplit.unique hsplit'
        exact ⟨hdb, hcoll⟩
      · intro h
        exact ⟨db, coll, hsplit, h.1, h.2⟩
    rw [hiff, ← tryNew_isSome_iff, ← tryNew_isSome_iff, hparse]
    cases hdb : TrimmedName.tryNew db with
    | none => simp
    | some database =>
      cases hcoll : TrimmedName.tryNew coll with
      | none => simp
      | some collection =>
        refine ⟨by simp, ?_, by simp⟩
        intro ns h
        cases h
        have hdbval := val_of_tryNew hdb
        have hcollval := val_of_tryNew hcoll
        refine ⟨db, coll, hsplit, hdbval, hcollval, ?_⟩
        rw [hdbval, hcollval, hsplit.1, trim_halves_eq_iff]

/-- White space around a half is lost. -/
theorem namespace_not_kept :
    ∃ ns, Namespace.parse "sample. movies".toList = .ok ns ∧
      ns.database.val ++ '.' :: ns.collection.val = "sample.movies".toList ∧
      ns.database.val ++ '.' :: ns.collection.val ≠ "sample. movies".toList :=
  ⟨⟨⟨"sample".toList, by decide⟩, ⟨"movies".toList, by decide⟩⟩, by decide, by decide, by decide⟩

end MongodProxy.Explain
