import Mathlib.Algebra.GroupWithZero.Nat
import Mathlib.Data.Int.Notation
import MongodProxy.Lib.Outcome

/-!
# Checked code

`Safe x P` says of a computation that it ends, with a value for which `P` holds or with an error
of its own: it neither panics nor runs on. The rules go by the way the computation is put together.
Arithmetic on machine words panics here when it overflows; a computation written with it `Covers`
the same one on naturals, which is what it computes when it does not panic.
-/

namespace Outcome

variable {ε ε' α β : Type}

/-- The computation ends, with a value that satisfies `P` or with an error of its own. -/
def Safe (x : Outcome ε α) (P : α → Prop) : Prop :=
  match x with
  | .ok a => P a
  | .error (.err _) => True
  | .error .panic => False
  | .error .hang => False

theorem safe_ok {a : α} {P : α → Prop} (h : P a) : Safe (.ok a : Outcome ε α) P := h

theorem safe_err (e : ε) (P : α → Prop) : Safe (err e : Outcome ε α) P := trivial

theorem Safe.of_eq_ok {x : Outcome ε α} {P : α → Prop} (h : Safe x P) {a : α} (hx : x = .ok a) :
    P a := by
  rw [hx] at h
  exact h

theorem Safe.mono {x : Outcome ε α} {P Q : α → Prop} (h : Safe x P) (hPQ : ∀ a, P a → Q a) :
    Safe x Q := by
  rcases x with (e | - | -) | a
  · trivial
  · exact h
  · exact h
  · exact hPQ a h

theorem Safe.bind {x : Outcome ε α} {f : α → Outcome ε β} {P : α → Prop} {Q : β → Prop}
    (h : Safe x P) (hf : ∀ a, x = .ok a → P a → Safe (f a) Q) : Safe (x >>= f) Q := by
  rcases x with (e | - | -) | a
  · trivial
  · exact h
  · exact h
  · exact hf a rfl h

theorem Safe.mapErr {x : Outcome ε α} {P : α → Prop} (h : Safe x P) (f : ε → ε') :
    Safe (mapErr f x) P := by
  rcases x with (e | - | -) | a
  · trivial
  · exact h
  · exact h
  · exact h

theorem safe_okOr_bind {e : ε} {x : Option α} {f : α → Outcome ε β} {Q : β → Prop}
    (h : ∀ a, x = some a → Safe (f a) Q) : Safe (okOr e x >>= f) Q := by
  cases x with
  | none => trivial
  | some a => exact h a rfl

theorem safe_ofResult (f : ε → ε') (x : Except ε α) {P : α → Prop} (h : ∀ a, x = .ok a → P a) :
    Safe (ofResult f x) P := by
  cases x with
  | ok a => exact h a rfl
  | error e => trivial

theorem safe_ofResult_bind {f : ε → ε'} {x : Except ε α} {g : α → Outcome ε' β} {Q : β → Prop}
    (h : ∀ a, x = .ok a → Safe (g a) Q) : Safe (ofResult f x >>= g) Q := by
  cases x with
  | ok a => exact h a rfl
  | error e => trivial

theorem safe_arrayAt {xs : List α} {i n : ℕ} (h : i + n ≤ xs.length) :
    Safe (arrayAt xs i n : Outcome ε (List α)) fun ys => ys = (xs.drop i).take n := by
  rw [arrayAt_eq xs i n h]
  exact rfl

theorem safe_sliceFrom {xs : List α} {i : ℕ} (h : i ≤ xs.length) :
    Safe (sliceFrom xs i : Outcome ε (List α)) fun ys => ys = xs.drop i := by
  rw [sliceFrom_eq xs i h]
  exact rfl

theorem safe_splitAt {xs : List α} {i : ℕ} (h : i ≤ xs.length) :
    Safe (splitAt xs i : Outcome ε (List α × List α)) fun p => p = (xs.take i, xs.drop i) := by
  rw [splitAt_eq xs i h]
  exact rfl

/-! ### Machine words -/

/-- `a + b` in an unsigned word of `bits` bits. -/
def wordAdd (bits a b : ℕ) : Outcome ε ℕ :=
  if a + b < 2 ^ bits then .ok (a + b) else .error .panic

/-- `a - b` in an unsigned word. -/
def wordSub (a b : ℕ) : Outcome ε ℕ :=
  if b ≤ a then .ok (a - b) else .error .panic

/-- `a.checked_add(b)`. -/
def checkedAdd (bits a b : ℕ) : Option ℕ :=
  if a + b < 2 ^ bits then some (a + b) else none

/- `n as usize`, which is not to be made of a negative number. -/
def wordOfInt (n : ℤ) : Outcome ε ℕ :=
  if 0 ≤ n then .ok n.toNat else .error .panic

theorem checkedAdd_eq_some {bits a b c : ℕ} (h : checkedAdd bits a b = some c) : c = a + b := by
  rw [checkedAdd] at h
  split_ifs at h
  exact (Option.some.inj h).symm

theorem checkedAdd_of_lt {bits a b : ℕ} (h : a + b < 2 ^ bits) :
    checkedAdd bits a b = some (a + b) := if_pos h

theorem safe_wordAdd {bits a b : ℕ} (h : a + b < 2 ^ bits) :
    Safe (wordAdd bits a b : Outcome ε ℕ) fun c => c = a + b := by
  rw [wordAdd, if_pos h]
  exact rfl

theorem safe_wordSub {a b : ℕ} (h : b ≤ a) :
    Safe (wordSub a b : Outcome ε ℕ) fun c => c = a - b := by
  rw [wordSub, if_pos h]
  exact rfl

theorem safe_wordOfInt {n : ℤ} (h : 0 ≤ n) :
    Safe (wordOfInt n : Outcome ε ℕ) fun c => c = n.toNat := by
  rw [wordOfInt, if_pos h]
  exact rfl

/-! ### What a checked computation computes -/

/-- `x` may panic where `y` does not and is `y` otherwise. -/
def Covers (x y : Outcome ε α) : Prop := x = .error .panic ∨ x = y

theorem Covers.refl (x : Outcome ε α) : Covers x x := .inr rfl

theorem Covers.bind {x y : Outcome ε α} {f g : α → Outcome ε β} (h : Covers x y)
    (hfg : ∀ a, y = .ok a → Covers (f a) (g a)) : Covers (x >>= f) (y >>= g) := by
  rcases h with rfl | rfl
  · exact .inl rfl
  · cases x with
    | error e => exact .inr rfl
    | ok a => exact hfg a rfl

/- The same computation in front of both. -/
theorem Covers.bind_same {x : Outcome ε α} {f g : α → Outcome ε β}
    (hfg : ∀ a, x = .ok a → Covers (f a) (g a)) : Covers (x >>= f) (x >>= g) :=
  (Covers.refl x).bind hfg

theorem Covers.mapErr {x y : Outcome ε α} (h : Covers x y) (f : ε → ε') :
    Covers (mapErr f x) (mapErr f y) := by
  rcases h with rfl | rfl
  · exact .inl rfl
  · exact .inr rfl

theorem Covers.eq {x y : Outcome ε α} (h : Covers x y) {P : α → Prop} (hsafe : Safe x P) :
    x = y := by
  rcases h with rfl | h
  · exact hsafe.elim
  · exact h

/- Checked arithmetic in front of a computation on naturals. -/
theorem Covers.wordAdd {bits a b : ℕ} {f : ℕ → Outcome ε α} {y : Outcome ε α}
    (h : Covers (f (a + b)) y) : Covers (Outcome.wordAdd bits a b >>= f) y := by
  rw [Outcome.wordAdd]
  split_ifs
  · exact h
  · exact .inl rfl

theorem Covers.wordSub {a b : ℕ} {f : ℕ → Outcome ε α} {y : Outcome ε α}
    (h : Covers (f (a - b)) y) : Covers (Outcome.wordSub a b >>= f) y := by
  rw [Outcome.wordSub]
  split_ifs
  · exact h
  · exact .inl rfl

theorem Covers.wordOfInt {n : ℤ} {f : ℕ → Outcome ε α} {y : Outcome ε α}
    (h : Covers (f n.toNat) y) : Covers (Outcome.wordOfInt n >>= f) y := by
  rw [Outcome.wordOfInt]
  split_ifs
  · exact h
  · exact .inl rfl

end Outcome
