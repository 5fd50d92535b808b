import Mathlib.Tactic.Common

/-!
# Outcomes of checked code

A function that can fail ends in one of three ways besides returning a value:
with an error of its own, by panicking (an index or slice out of range), or by
not stopping (a loop that is still running when the bound it was given is
used up). The last two are outcomes of their own here, so that their absence
is something to prove. The partial slice operations are the panicking ones.
-/

namespace Outcome

/-- The ways of not returning a value. -/
inductive Fail (ε : Type) where
  | err (e : ε)
  | panic
  | hang
  deriving DecidableEq, Repr

end Outcome

abbrev Outcome (ε α : Type) := Except (Outcome.Fail ε) α

namespace Outcome

variable {ε ε' α β : Type}

def err (e : ε) : Outcome ε α := .error (.err e)

def Fail.map (f : ε → ε') : Fail ε → Fail ε'
  | .err e => .err (f e)
  | .panic => .panic
  | .hang => .hang

/-- `map_err`, and the conversion of an error that `?` makes. -/
def mapErr (f : ε → ε') : Outcome ε α → Outcome ε' α
  | .ok a => .ok a
  | .error e => .error (e.map f)

/-- A plain `Result`, with its error converted. -/
def ofResult (f : ε → ε') : Except ε α → Outcome ε' α
  | .ok a => .ok a
  | .error e => err (f e)

def okOr (e : ε) : Option α → Outcome ε α
  | some a => .ok a
  | none => err e

/-! ### Composition -/

theorem ok_bind (a : α) (f : α → Outcome ε β) : ((.ok a : Outcome ε α) >>= f) = f a := rfl

theorem error_bind (e : Fail ε) (f : α → Outcome ε β) :
    ((.error e : Outcome ε α) >>= f) = .error e := rfl

theorem err_bind (e : ε) (f : α → Outcome ε β) : ((err e : Outcome ε α) >>= f) = err e := rfl

theorem pure_eq_ok (a : α) : (pure a : Outcome ε α) = .ok a := rfl

attribute [simp] ok_bind error_bind err_bind pure_eq_ok

theorem bind_eq_ok (x : Except ε α) (f : α → Except ε β) (b : β) :
    (x >>= f) = .ok b ↔ ∃ a, x = .ok a ∧ f a = .ok b := by
  cases x with
  | ok a => simp [bind, Except.bind]
  | error e => simp [bind, Except.bind]

theorem bind_eq_error (x : Except ε α) (f : α → Except ε β) (e : ε) :
    (x >>= f) = .error e ↔ x = .error e ∨ ∃ a, x = .ok a ∧ f a = .error e := by
  cases x with
  | ok a => simp [bind, Except.bind]
  | error e => simp [bind, Except.bind]

theorem mapError_eq_ok (f : ε → ε') (x : Except ε α) (a : α) :
    x.mapError f = .ok a ↔ x = .ok a := by
  cases x with
  | ok b => simp [Except.mapError]
  | error e => simp [Except.mapError]

/-- Sequences that only wrap their values tell whether the values are equal. -/
theorem eq_of_bind_pure {f g : α → β} (hfg : ∀ a b, f a = g b → a = b) (x y : Outcome ε α)
    (h : (x >>= fun a => pure (f a)) = (y >>= fun a => pure (g a))) : x = y := by
  cases x with
  | error e =>
    cases y with
    | error e' => exact congrArg _ (Except.error.inj h)
    | ok b => cases h
  | ok a =>
    cases y with
    | error e' => cases h
    | ok b => exact congrArg _ (hfg a b (Except.ok.inj h))

@[simp] theorem err_ne_ok (e : ε) (a : α) : (err e : Outcome ε α) ≠ .ok a := by
  simp [err]

@[simp] theorem err_inj (e e' : ε) : (err e : Outcome ε α) = err e' ↔ e = e' := by
  simp [err]

@[simp] theorem mapErr_ok (f : ε → ε') (a : α) : mapErr f (.ok a : Outcome ε α) = .ok a := rfl

theorem mapErr_eq_ok (f : ε → ε') (x : Outcome ε α) (a : α) :
    mapErr f x = .ok a ↔ x = .ok a := by
  cases x with
  | ok b => simp
  | error e => simp [mapErr]

theorem mapErr_inj {f : ε → ε'} (hf : ∀ e e', f e = f e' → e = e') (x y : Outcome ε α) :
    mapErr f x = mapErr f y ↔ x = y := by
  constructor
  · intro h
    rcases x with (e | - | -) | a
    · rcases y with (e' | - | -) | b
      · have hinj : f e = f e' := Fail.err.inj (Except.error.inj h)
        rw [hf e e' hinj]
      · cases h
      · cases h
      · cases h
    · rcases y with (e' | - | -) | b
      · cases h
      · rfl
      · cases h
      · cases h
    · rcases y with (e' | - | -) | b
      · cases h
      · cases h
      · rfl
      · cases h
    · rcases y with e' | b
      · cases h
      · cases h
        rfl
  · intro h
    rw [h]

@[simp] theorem ofResult_ok (f : ε → ε') (a : α) : ofResult f (.ok a : Except ε α) = .ok a := rfl

@[simp] theorem ofResult_error (f : ε → ε') (e : ε) :
    ofResult f (.error e : Except ε α) = err (f e) := rfl

theorem ofResult_eq_ok (f : ε → ε') (x : Except ε α) (a : α) :
    ofResult f x = .ok a ↔ x = .ok a := by
  cases x with
  | ok b => simp
  | error e => simp

theorem ofResult_eq_error (f : ε → ε') (x : Except ε α) (e : Fail ε') :
    ofResult f x = .error e ↔ ∃ e', x = .error e' ∧ e = .err (f e') := by
  cases x with
  | ok a => simp
  | error e' => simp [err, eq_comm]

theorem okOr_eq_ok (e : ε) (x : Option α) (a : α) : okOr e x = .ok a ↔ x = some a := by
  cases x with
  | none => simp [okOr]
  | some b => simp [okOr]

theorem okOr_eq_error (e : ε) (x : Option α) (e' : Fail ε) :
    okOr e x = .error e' ↔ x = none ∧ e' = .err e := by
  cases x with
  | none => simp [okOr, err, eq_comm]
  | some a => simp [okOr]

@[simp] theorem okOr_some (e : ε) (a : α) : okOr e (some a) = .ok a := rfl

@[simp] theorem okOr_none (e : ε) : (okOr e (none : Option α)) = err e := rfl

/-! ### Slices -/

def index (xs : List α) (i : ℕ) : Outcome ε α :=
  match xs[i]? with
  | some x => .ok x
  | none => .error .panic

/-- The array `[xs[i], ..., xs[i + n - 1]]`. -/
def arrayAt (xs : List α) (i : ℕ) : ℕ → Outcome ε (List α)
  | 0 => .ok []
  | n + 1 => do
    let x ← index xs i
    let rest ← arrayAt xs (i + 1) n
    pure (x :: rest)

/-- `&xs[i..]`. -/
def sliceFrom (xs : List α) (i : ℕ) : Outcome ε (List α) :=
  if i ≤ xs.length then .ok (xs.drop i) else .error .panic

/-- `xs.split_at(i)`. -/
def splitAt (xs : List α) (i : ℕ) : Outcome ε (List α × List α) :=
  if i ≤ xs.length then .ok (xs.take i, xs.drop i) else .error .panic

/-- `xs.get(i..j)`, which is checked and cannot panic. -/
def getRange (xs : List α) (i j : ℕ) : Option (List α) :=
  if i ≤ j ∧ j ≤ xs.length then some ((xs.drop i).take (j - i)) else none

theorem arrayAt_eq (xs : List α) (i n : ℕ) (h : i + n ≤ xs.length) :
    (arrayAt xs i n : Outcome ε (List α)) = .ok ((xs.drop i).take n) := by
  induction n generalizing i with
  | zero => simp [arrayAt]
  | succ n ih =>
    have hi : i < xs.length := by omega
    have hrest := ih (i + 1) (by omega)
    simp only [arrayAt, index, List.getElem?_eq_getElem hi, hrest, ok_bind, pure_eq_ok]
    rw [List.drop_eq_getElem_cons hi, List.take_succ_cons]

theorem sliceFrom_eq (xs : List α) (i : ℕ) (h : i ≤ xs.length) :
    (sliceFrom xs i : Outcome ε (List α)) = .ok (xs.drop i) := by
  simp only [sliceFrom, if_pos h]

theorem splitAt_eq (xs : List α) (i : ℕ) (h : i ≤ xs.length) :
    (splitAt xs i : Outcome ε (List α × List α)) = .ok (xs.take i, xs.drop i) := by
  simp only [splitAt, if_pos h]

/- A field inside a slice does not change when the slice gets longer. -/
theorem field_append (xs ys : List α) (i n : ℕ) (h : i + n ≤ xs.length) :
    ((xs ++ ys).drop i).take n = (xs.drop i).take n := by
  rw [List.drop_append_of_le_length (by omega),
    List.take_append_of_le_length (by rw [List.length_drop]; omega)]

end Outcome
