import Mathlib.Data.List.Forall2

/-!
# The error of a traversal

A loop that stops at the first element it fails on ends with that element's error.
`refusal` is the error a computation ends with, if any; the refusal of a traversal is the
first refusal among its elements, and a traversal that is not refused has gone through
all of them.
-/

namespace Refusal

variable {ε α β γ : Type}

/-- The error a computation ends with, if any. -/
def refusal : Except ε α → Option ε
  | .ok _ => none
  | .error e => some e

@[simp]
theorem refusal_ok (a : α) : refusal (.ok a : Except ε α) = none := rfl

@[simp]
theorem refusal_error (e : ε) : refusal (.error e : Except ε α) = some e := rfl

@[simp]
theorem refusal_pure (a : α) : refusal (pure a : Except ε α) = none := rfl

theorem refusal_eq_none_iff (x : Except ε α) : refusal x = none ↔ ∃ a, x = .ok a := by
  cases x with
  | ok a => simp
  | error e => simp

theorem refusal_eq_some_iff (x : Except ε α) (e : ε) : refusal x = some e ↔ x = .error e := by
  cases x with
  | ok a => simp
  | error e' => simp

/- What runs after a computation counts only when that computation returns. -/
theorem refusal_bind (x : Except ε α) (f : α → Except ε β) (r : Option ε)
    (h : ∀ a, x = .ok a → refusal (f a) = r) :
    refusal (x >>= f) = (refusal x).or r := by
  cases x with
  | ok a => exact h a rfl
  | error e => rfl

/-- A traversal is refused by the first of its elements that is. -/
theorem refusal_mapM (f : α → Except ε β) (l : List α) :
    refusal (l.mapM f) = l.findSome? fun a => refusal (f a) := by
  induction l with
  | nil => rfl
  | cons a l ih =>
    rw [List.mapM_cons, List.findSome?_cons,
      refusal_bind (f a) _ (l.findSome? fun a => refusal (f a))]
    · cases refusal (f a) with
      | none => rfl
      | some e => rfl
    · intro b _
      rw [refusal_bind _ _ none (fun _ _ => rfl), ih, Option.or_none]

/-- A traversal that returns relates each element to what it gave for it. -/
theorem forall₂_of_mapM {f : α → Except ε β} {R : α → β → Prop} {l : List α} {bs : List β}
    (hR : ∀ a ∈ l, ∀ b, f a = .ok b → R a b) (h : l.mapM f = .ok bs) : List.Forall₂ R l bs := by
  induction l generalizing bs with
  | nil =>
    cases h
    exact .nil
  | cons a l ih =>
    rw [List.mapM_cons] at h
    cases ha : f a with
    | error e =>
      rw [ha] at h
      cases h
    | ok b =>
      cases hl : l.mapM f with
      | error e =>
        rw [ha, hl] at h
        cases h
      | ok bs' =>
        rw [ha, hl] at h
        cases h
        have hrest := ih (fun a' ha' => hR a' (List.mem_cons_of_mem a ha')) hl
        exact .cons (hR a List.mem_cons_self b ha) hrest

theorem findSome?_congr {p q : α → Option γ} {l : List α} (h : ∀ a ∈ l, p a = q a) :
    l.findSome? p = l.findSome? q := by
  induction l with
  | nil => rfl
  | cons a l ih =>
    rw [List.findSome?_cons, List.findSome?_cons, h a List.mem_cons_self,
      ih fun b hb => h b (List.mem_cons_of_mem a hb)]

/-- Searching the parts one after the other is searching them joined. -/
theorem findSome?_flatMap (p : β → Option γ) (g : α → List β) (l : List α) :
    (l.flatMap g).findSome? p = l.findSome? fun a => (g a).findSome? p := by
  induction l with
  | nil => rfl
  | cons a l ih =>
    rw [List.flatMap_cons, List.findSome?_append, ih, List.findSome?_cons]
    cases (g a).findSome? p with
    | none => rfl
    | some c => rfl

end Refusal
