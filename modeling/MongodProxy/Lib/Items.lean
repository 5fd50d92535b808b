import Mathlib.Algebra.GroupWithZero.Nat
import Mathlib.Data.List.Forall2
import Mathlib.Tactic.Common
import MongodProxy.Lib.Outcome

/-!
# Sequences of self-delimiting items

A reader looks at the input that is left and answers an item together with the
number of symbols it consumed. `many` repeats a reader until the input is used
up, `times` repeats it a given number of rounds. The rules here say how the
repetitions behave on concatenated inputs, for readers that look at nothing
past what they consume.
-/

namespace Items

variable {α β ε : Type}

/-- What one round reads: the item and the number of symbols consumed. -/
abbrev Reader (α ε β : Type) := List α → Outcome ε (β × ℕ)

def Progress (item : Reader α ε β) : Prop := ∀ bs x n, item bs = .ok (x, n) → 0 < n

/-- The reader stays inside its input and depends only on what it consumes. -/
structure Delimited (item : Reader α ε β) : Prop where
  progress : Progress item
  consumed_le : ∀ bs x n, item bs = .ok (x, n) → n ≤ bs.length
  reads_only : ∀ bs x n t, item bs = .ok (x, n) → item (bs.take n ++ t) = .ok (x, n)

theorem Delimited.append {item : Reader α ε β} (hd : Delimited item) (a b : List α) (x : β) (n : ℕ)
    (h : item a = .ok (x, n)) : item (a ++ b) = .ok (x, n) := by
  have hlocal := hd.reads_only a x n (a.drop n ++ b) h
  rwa [← List.append_assoc, List.take_append_drop] at hlocal

/-- An encoding of `x`: read back from the front of any input, exactly. -/
def Encodes (item : Reader α ε β) (x : β) (w : List α) : Prop :=
  w ≠ [] ∧ ∀ rest, item (w ++ rest) = .ok (x, w.length)

/-! ### Writing items one after the other -/

def writeAll (write : β → Except ε (List α)) : List β → Except ε (List α)
  | [] => .ok []
  | x :: xs => do
    let w ← write x
    let rest ← writeAll write xs
    pure (w ++ rest)

theorem writeAll_eq_ok_iff (write : β → Except ε (List α)) (xs : List β) (w : List α) :
    writeAll write xs = .ok w
      ↔ ∃ ws, w = ws.flatten ∧ List.Forall₂ (fun x p => write x = .ok p) xs ws := by
  induction xs generalizing w with
  | nil =>
    constructor
    · intro h
      exact ⟨[], (Except.ok.inj h).symm, List.Forall₂.nil⟩
    · rintro ⟨ws, rfl, hall⟩
      cases hall
      rfl
  | cons x xs ih =>
    simp only [writeAll, Outcome.bind_eq_ok]
    constructor
    · rintro ⟨p, hp, rest, hrest, hw⟩
      obtain ⟨ws, rfl, hall⟩ := (ih rest).mp hrest
      exact ⟨p :: ws, (Except.ok.inj hw).symm, List.Forall₂.cons hp hall⟩
    · rintro ⟨ws, rfl, hall⟩
      cases hall with
      | @cons _ p _ ws hp hall => exact ⟨p, hp, ws.flatten, (ih _).mpr ⟨ws, rfl, hall⟩, rfl⟩

theorem writeAll_isOk (write : β → Except ε (List α)) (xs : List β) :
    (∃ w, writeAll write xs = .ok w) ↔ ∀ x ∈ xs, ∃ w, write x = .ok w := by
  induction xs with
  | nil => simp [writeAll]
  | cons x xs ih =>
    simp only [writeAll, Outcome.bind_eq_ok, List.forall_mem_cons, ← ih]
    constructor
    · rintro ⟨w, p, hp, rest, hrest, -⟩
      exact ⟨⟨p, hp⟩, rest, hrest⟩
    · rintro ⟨⟨p, hp⟩, rest, hrest⟩
      exact ⟨p ++ rest, p, hp, rest, hrest, rfl⟩

theorem writeAll_length (write : β → Except ε (List α)) (len : β → ℕ)
    (hlen : ∀ x w, write x = .ok w → len x = w.length) (xs : List β) (w : List α)
    (h : writeAll write xs = .ok w) : w.length = (xs.map len).sum := by
  induction xs generalizing w with
  | nil =>
    cases h
    rfl
  | cons x xs ih =>
    simp only [writeAll, Outcome.bind_eq_ok] at h
    obtain ⟨p, hp, rest, hrest, hw⟩ := h
    cases hw
    rw [List.length_append, List.map_cons, List.sum_cons, hlen x p hp, ih rest hrest]

/-! ### Until the input is used up -/

/-- `many` with a bound on the number of rounds. -/
def manyWithin (item : Reader α ε β) : ℕ → List α → Outcome ε (List β)
  | _, [] => .ok []
  | 0, _ :: _ => .error .hang
  | fuel + 1, a :: bs => do
    let (x, n) ← item (a :: bs)
    let xs ← manyWithin item fuel ((a :: bs).drop n)
    pure (x :: xs)

/-- Items one after the other up to the end of the input. -/
def many (item : Reader α ε β) (bs : List α) : Outcome ε (List β) := manyWithin item bs.length bs

/-- The inputs at which `many` calls its reader. -/
def readsWithin (item : Reader α ε β) : ℕ → List α → List (List α)
  | _, [] => []
  | 0, _ :: _ => []
  | fuel + 1, a :: bs =>
    (a :: bs) :: match item (a :: bs) with
      | .ok (_, n) => readsWithin item fuel ((a :: bs).drop n)
      | .error _ => []

def reads (item : Reader α ε β) (bs : List α) : List (List α) := readsWithin item bs.length bs

@[simp] theorem manyWithin_nil (item : Reader α ε β) (fuel : ℕ) :
    manyWithin item fuel [] = .ok [] := by
  cases fuel <;> rfl

/- A read leaves less than it was given. -/
theorem Progress.length_drop_le {item : Reader α ε β} (hp : Progress item) {a : α} {bs : List α}
    {x : β} {n : ℕ} (h : item (a :: bs) = .ok (x, n)) : ((a :: bs).drop n).length ≤ bs.length := by
  have hn := hp _ _ _ h
  simp only [List.length_drop, List.length_cons]
  omega

@[simp] theorem many_nil (item : Reader α ε β) : many item [] = .ok [] := rfl

theorem manyWithin_fuel (item : Reader α ε β) (hp : Progress item) (f g : ℕ) (bs : List α)
    (hf : bs.length ≤ f) (hg : bs.length ≤ g) : manyWithin item f bs = manyWithin item g bs := by
  induction f generalizing g bs with
  | zero =>
    have hnil : bs = [] := List.eq_nil_of_length_eq_zero (by omega)
    simp [hnil]
  | succ f ih =>
    cases bs with
    | nil => simp
    | cons a bs =>
      simp only [List.length_cons] at hf hg
      obtain ⟨g, rfl⟩ : ∃ g', g = g' + 1 := ⟨g - 1, by omega⟩
      simp only [manyWithin]
      cases hi : item (a :: bs) with
      | error e => rfl
      | ok p =>
        obtain ⟨x, n⟩ := p
        have hlen := hp.length_drop_le hi
        simp only [Outcome.ok_bind]
        rw [ih g ((a :: bs).drop n) (by omega) (by omega)]

theorem many_of_ne_nil (item : Reader α ε β) (hp : Progress item) (bs : List α) (h : bs ≠ []) :
    many item bs = (do
      let (x, n) ← item bs
      let xs ← many item (bs.drop n)
      pure (x :: xs)) := by
  cases bs with
  | nil => exact absurd rfl h
  | cons a bs =>
    simp only [many, List.length_cons, manyWithin]
    cases hi : item (a :: bs) with
    | error e => rfl
    | ok p =>
      obtain ⟨x, n⟩ := p
      have hlen := hp.length_drop_le hi
      simp only [Outcome.ok_bind]
      rw [manyWithin_fuel item hp bs.length _ _ hlen (Nat.le_refl _)]

theorem many_eq_ok_of_ne_nil (item : Reader α ε β) (hp : Progress item) (bs : List α)
    (xs : List β) (h : bs ≠ []) (hm : many item bs = .ok xs) :
    ∃ x n ys, item bs = .ok (x, n) ∧ many item (bs.drop n) = .ok ys ∧ xs = x :: ys := by
  rw [many_of_ne_nil item hp bs h, Outcome.bind_eq_ok] at hm
  obtain ⟨⟨x, n⟩, hi, hm⟩ := hm
  simp only [Outcome.bind_eq_ok] at hm
  obtain ⟨ys, hys, hxs⟩ := hm
  exact ⟨x, n, ys, hi, hys, (Except.ok.inj hxs).symm⟩

theorem length_le_flatten (item : Reader α ε β) (xs : List β) (ws : List (List α))
    (h : List.Forall₂ (Encodes item) xs ws) : ws.length ≤ ws.flatten.length := by
  induction h with
  | nil => simp
  | @cons x w xs ws hw _ ih =>
    have hpos := List.length_pos_iff.mpr hw.1
    simp only [List.length_cons, List.flatten_cons, List.length_append]
    omega

/-- A sequence of encodings is read back as the items it encodes. -/
theorem manyWithin_flatten (item : Reader α ε β) (xs : List β) (ws : List (List α))
    (h : List.Forall₂ (Encodes item) xs ws) (fuel : ℕ) (hf : ws.length ≤ fuel) :
    manyWithin item fuel ws.flatten = .ok xs := by
  induction h generalizing fuel with
  | nil => simp
  | @cons x w xs ws hw _ ih =>
    simp only [List.length_cons] at hf
    obtain ⟨fuel, rfl⟩ : ∃ f, fuel = f + 1 := ⟨fuel - 1, by omega⟩
    obtain ⟨a, w', rfl⟩ := List.exists_cons_of_ne_nil hw.1
    have hitem := hw.2 ws.flatten
    simp only [List.cons_append] at hitem
    have hdrop : (a :: (w' ++ ws.flatten)).drop (a :: w').length = ws.flatten := by
      rw [← List.cons_append, List.drop_left]
    simp only [List.flatten_cons, List.cons_append, manyWithin, hitem, Outcome.ok_bind, hdrop,
      ih fuel (by omega), Outcome.pure_eq_ok]

theorem many_flatten (item : Reader α ε β) (xs : List β) (ws : List (List α))
    (h : List.Forall₂ (Encodes item) xs ws) : many item ws.flatten = .ok xs :=
  manyWithin_flatten item xs ws h _ (length_le_flatten item xs ws h)

/-- A repetition that succeeds on `a` goes on with `b` where `a` ends. -/
theorem many_append (item : Reader α ε β) (hd : Delimited item) (a b : List α) (xs : List β)
    (h : many item a = .ok xs) :
    many item (a ++ b) = (many item b >>= fun ys => pure (xs ++ ys)) := by
  induction hk : a.length using Nat.strongRecOn generalizing a xs with
  | _ k ih =>
    by_cases hnil : a = []
    · subst hnil
      rw [many_nil] at h
      rw [← Except.ok.inj h]
      simp only [List.nil_append, Outcome.pure_eq_ok]
      cases many item b <;> rfl
    · obtain ⟨x, n, ys, hi, hys, rfl⟩ := many_eq_ok_of_ne_nil item hd.progress a xs hnil h
      have hn := hd.progress _ _ _ hi
      have hle := hd.consumed_le _ _ _ hi
      have hiab := hd.append a b x n hi
      have hlen : (a.drop n).length < k := by
        rw [List.length_drop]
        omega
      rw [many_of_ne_nil item hd.progress (a ++ b) (by simp [hnil]), hiab]
      simp only [Outcome.ok_bind]
      rw [List.drop_append_of_le_length hle, ih _ hlen (a.drop n) ys hys rfl]
      cases many item b <;> rfl

/-! ### Where a repetition fails -/

theorem many_stuck (item : Reader α ε β) (hd : Delimited item) (p r : List α) (xs : List β)
    (e : Outcome.Fail ε) (hp : many item p = .ok xs) (hr : r ≠ []) (he : item r = .error e) :
    many item (p ++ r) = .error e := by
  rw [many_append item hd p r xs hp, many_of_ne_nil item hd.progress r hr, he]
  rfl

/-- A repetition that fails has read some items and is stuck at the next one. -/
theorem many_error_split (item : Reader α ε β) (hd : Delimited item) (bs : List α)
    (e : Outcome.Fail ε) (h : many item bs = .error e) :
    ∃ p r xs, bs = p ++ r ∧ many item p = .ok xs ∧ r ≠ [] ∧ item r = .error e := by
  induction hk : bs.length using Nat.strongRecOn generalizing bs with
  | _ k ih =>
    by_cases hnil : bs = []
    · rw [hnil, many_nil] at h
      cases h
    · rw [many_of_ne_nil item hd.progress bs hnil] at h
      cases hi : item bs with
      | error e' =>
        rw [hi] at h
        cases h
        exact ⟨[], bs, [], rfl, rfl, hnil, hi⟩
      | ok found =>
        obtain ⟨x, n⟩ := found
        have hn := hd.progress _ _ _ hi
        have hle := hd.consumed_le _ _ _ hi
        have hlen : (bs.drop n).length < k := by
          rw [List.length_drop]
          omega
        simp only [hi, Outcome.ok_bind] at h
        have hrest : many item (bs.drop n) = .error e := by
          cases hm : many item (bs.drop n) with
          | ok ys => rw [hm] at h; cases h
          | error e' => rw [hm] at h; cases h; rfl
        obtain ⟨p, r, xs, hsplit, hp, hr, hstuck⟩ := ih _ hlen _ hrest rfl
        refine ⟨bs.take n ++ p, r, x :: xs, ?_, ?_, hr, hstuck⟩
        · rw [List.append_assoc, ← hsplit, List.take_append_drop]
        · have htake : (bs.take n).length = n := by
            rw [List.length_take]
            omega
          have hne : bs.take n ++ p ≠ [] := by
            intro hempty
            have := congrArg List.length hempty
            rw [List.length_append, htake, List.length_nil] at this
            omega
          rw [many_of_ne_nil item hd.progress _ hne, hd.reads_only bs x n p hi]
          simp only [Outcome.ok_bind, List.drop_left' htake, hp, Outcome.pure_eq_ok]

/-- The reader fails with an error of its own: it does not panic and it does not hang. -/
def Errs (item : Reader α ε β) : Prop := ∀ bs e, item bs = .error e → ∃ e', e = .err e'

theorem many_errs (item : Reader α ε β) (hd : Delimited item) (he : Errs item) (bs : List α)
    (e : Outcome.Fail ε) (h : many item bs = .error e) : ∃ e', e = .err e' := by
  obtain ⟨p, r, xs, -, -, -, hstuck⟩ := many_error_split item hd bs e h
  exact he r e hstuck

/-- Items written back to the bytes they were read from make up the input again. -/
theorem manyWithin_rebuild {ε' : Type} (item : Reader α ε β) (write : β → Except ε' (List α))
    (fuel : ℕ) (bs : List α) (xs : List β) (h : manyWithin item fuel bs = .ok xs)
    (hw : ∀ r ∈ readsWithin item fuel bs, ∀ x n, item r = .ok (x, n) → write x = .ok (r.take n)) :
    writeAll write xs = .ok bs := by
  induction fuel generalizing bs xs with
  | zero =>
    cases bs with
    | nil =>
      cases h
      rfl
    | cons a bs => cases h
  | succ fuel ih =>
    cases bs with
    | nil =>
      cases h
      rfl
    | cons a bs =>
      simp only [manyWithin, Outcome.bind_eq_ok] at h
      obtain ⟨⟨x, n⟩, hi, ys, hys, hxs⟩ := h
      cases hxs
      simp only [readsWithin, hi] at hw
      have hx := hw _ (List.mem_cons_self ..) x n hi
      have hrest := ih _ _ hys fun r hr => hw r (List.mem_cons_of_mem _ hr)
      simp only [writeAll, hx, hrest, bind, Except.bind, pure, Except.pure, List.take_append_drop]

/-- What holds of every item read, and the sizes of the items against the input. -/
theorem manyWithin_sizes (item : Reader α ε β) (hd : Delimited item) (P : β → Prop) (size : β → ℕ)
    (hitem : ∀ r x n, item r = .ok (x, n) → P x ∧ size x ≤ n) (fuel : ℕ) (bs : List α)
    (xs : List β) (h : manyWithin item fuel bs = .ok xs) :
    (∀ x ∈ xs, P x) ∧ (xs.map size).sum ≤ bs.length := by
  induction fuel generalizing bs xs with
  | zero =>
    cases bs with
    | nil =>
      cases h
      simp
    | cons a bs => cases h
  | succ fuel ih =>
    cases bs with
    | nil =>
      cases h
      simp
    | cons a bs =>
      simp only [manyWithin, Outcome.bind_eq_ok] at h
      obtain ⟨⟨x, n⟩, hi, ys, hys, hxs⟩ := h
      cases hxs
      obtain ⟨hx, hsize⟩ := hitem _ _ _ hi
      obtain ⟨hall, hsum⟩ := ih _ _ hys
      have hle := hd.consumed_le _ _ _ hi
      rw [List.length_drop] at hsum
      refine ⟨List.forall_mem_cons.mpr ⟨hx, hall⟩, ?_⟩
      simp only [List.map_cons, List.sum_cons] at hsum ⊢
      omega

/-! ### A given number of rounds -/

/-- `k` items one after the other; the reader is told the index of its round, counted from `i`. -/
def times (item : ℕ → Reader α ε β) : ℕ → ℕ → List α → Outcome ε (List β)
  | _, 0, _ => .ok []
  | i, k + 1, bs => do
    let (x, n) ← item i bs
    let xs ← times item (i + 1) k (bs.drop n)
    pure (x :: xs)

/-- `times` with the number of rounds that have read an item. -/
def timesCounted (item : ℕ → Reader α ε β) : ℕ → ℕ → List α → Outcome ε (List β) × ℕ
  | _, 0, _ => (.ok [], 0)
  | i, k + 1, bs =>
    match item i bs with
    | .error e => (.error e, 0)
    | .ok (x, n) =>
      let (xs, rounds) := timesCounted item (i + 1) k (bs.drop n)
      (xs >>= fun xs => pure (x :: xs), rounds + 1)

theorem timesCounted_fst (item : ℕ → Reader α ε β) (i k : ℕ) (bs : List α) :
    (timesCounted item i k bs).1 = times item i k bs := by
  induction k generalizing i bs with
  | zero => rfl
  | succ k ih =>
    rw [timesCounted, times]
    cases item i bs with
    | error e => rfl
    | ok found =>
      obtain ⟨x, n⟩ := found
      show (timesCounted item (i + 1) k (bs.drop n)).1 >>= _ = _
      rw [ih (i + 1) (bs.drop n)]
      rfl

/-- However many rounds are asked for, the input bounds those that read something. -/
theorem timesCounted_snd_le (item : ℕ → Reader α ε β)
    (hitem : ∀ i bs x n, item i bs = .ok (x, n) → 0 < n ∧ n ≤ bs.length) (i k : ℕ) (bs : List α) :
    (timesCounted item i k bs).2 ≤ bs.length := by
  induction k generalizing i bs with
  | zero => exact Nat.zero_le _
  | succ k ih =>
    rw [timesCounted]
    cases hread : item i bs with
    | error e => exact Nat.zero_le _
    | ok found =>
      obtain ⟨x, n⟩ := found
      have hn := hitem i bs x n hread
      have hrest := ih (i + 1) (bs.drop n)
      rw [List.length_drop] at hrest
      show (timesCounted item (i + 1) k (bs.drop n)).2 + 1 ≤ bs.length
      omega

theorem times_flatten (item : ℕ → Reader α ε β) (xs : List β) (ws : List (List α)) (rest : List α)
    (h : List.Forall₂ (fun x w => ∀ i, Encodes (item i) x w) xs ws) (i : ℕ) :
    times item i xs.length (ws.flatten ++ rest) = .ok xs := by
  induction h generalizing i with
  | nil => rfl
  | @cons x w xs ws hw _ ih =>
    have hitem := (hw i).2 (ws.flatten ++ rest)
    simp only [List.length_cons, times, List.flatten_cons, List.append_assoc, hitem,
      Outcome.ok_bind, List.drop_left, ih (i + 1), Outcome.pure_eq_ok]

theorem times_sizes (item : ℕ → Reader α ε β) (hd : ∀ i, Delimited (item i)) (P : β → Prop)
    (size : β → ℕ) (hitem : ∀ i r x n, item i r = .ok (x, n) → P x ∧ size x ≤ n) (k i : ℕ)
    (bs : List α) (xs : List β) (h : times item i k bs = .ok xs) :
    xs.length = k ∧ (∀ x ∈ xs, P x) ∧ (xs.map size).sum ≤ bs.length := by
  induction k generalizing i bs xs with
  | zero =>
    cases h
    simp
  | succ k ih =>
    simp only [times, Outcome.bind_eq_ok] at h
    obtain ⟨⟨x, n⟩, hi, ys, hys, hxs⟩ := h
    cases hxs
    obtain ⟨hx, hsize⟩ := hitem _ _ _ _ hi
    obtain ⟨hlen, hall, hsum⟩ := ih _ _ _ hys
    have hle := (hd i).consumed_le _ _ _ hi
    rw [List.length_drop] at hsum
    refine ⟨by rw [List.length_cons, hlen], List.forall_mem_cons.mpr ⟨hx, hall⟩, ?_⟩
    simp only [List.map_cons, List.sum_cons] at hsum ⊢
    omega

/-- Every round succeeds, or one fails on what is left whatever follows. -/
def Settled (item : ℕ → Reader α ε β) : ℕ → ℕ → List α → Prop
  | _, 0, _ => True
  | i, k + 1, bs =>
    (∃ x n, item i bs = .ok (x, n) ∧ Settled item (i + 1) k (bs.drop n)) ∨
      ∃ e, ∀ u, item i (bs ++ u) = .error e

/-- An error of the rounds is the error of one of them. -/
theorem times_error (item : ℕ → Reader α ε β) (k i : ℕ) (bs : List α) (e : Outcome.Fail ε)
    (h : times item i k bs = .error e) : ∃ j r, i ≤ j ∧ item j r = .error e := by
  induction k generalizing i bs with
  | zero => cases h
  | succ k ih =>
    simp only [times] at h
    cases hi : item i bs with
    | error e' =>
      rw [hi] at h
      cases h
      exact ⟨i, bs, Nat.le_refl i, hi⟩
    | ok found =>
      obtain ⟨x, n⟩ := found
      simp only [hi, Outcome.ok_bind] at h
      cases hm : times item (i + 1) k (bs.drop n) with
      | ok xs => rw [hm] at h; cases h
      | error e' =>
        rw [hm] at h
        cases h
        obtain ⟨j, r, hj, hr⟩ := ih (i + 1) (bs.drop n) hm
        exact ⟨j, r, by omega, hr⟩

/-- If the errors of different rounds differ, what follows is ignored exactly when the rounds
are settled. -/
theorem times_settled_iff (item : ℕ → Reader α ε β) (hd : ∀ i, Delimited (item i))
    (hround : ∀ i j bs bs' e, item i bs = .error e → item j bs' = .error e → i = j) (k i : ℕ)
    (bs : List α) :
    (∀ u, times item i k (bs ++ u) = times item i k bs) ↔ Settled item i k bs := by
  induction k generalizing i bs with
  | zero => simp [times, Settled]
  | succ k ih =>
    simp only [times, Settled]
    cases hi : item i bs with
    | ok found =>
      obtain ⟨x, n⟩ := found
      have hle := (hd i).consumed_le _ _ _ hi
      have hstep : ∀ u, item i (bs ++ u) = .ok (x, n) := fun u => (hd i).append bs u x n hi
      have hstays : ¬∃ e, ∀ u, item i (bs ++ u) = .error e := by
        rintro ⟨e, he⟩
        cases (hstep []).symm.trans (he [])
      rw [or_iff_left hstays]
      simp only [hstep, Outcome.ok_bind, List.drop_append_of_le_length hle]
      constructor
      · intro h
        refine ⟨x, n, rfl, (ih (i + 1) (bs.drop n)).mp ?_⟩
        intro u
        exact Outcome.eq_of_bind_pure (fun _ _ hxs => (List.cons.inj hxs).2) _ _ (h u)
      · rintro ⟨x', n', hfound, h⟩ u
        cases hfound
        rw [(ih (i + 1) (bs.drop n)).mpr h u]
    | error e =>
      simp only [Outcome.error_bind, reduceCtorEq, false_and, exists_false, false_or]
      constructor
      · intro h
        refine ⟨e, ?_⟩
        intro u
        have hu := h u
        cases hiu : item i (bs ++ u) with
        | error e' =>
          rw [hiu, Outcome.error_bind] at hu
          rw [Except.error.inj hu]
        | ok found =>
          -- a later round would have to fail with the error of this one
          obtain ⟨x, n⟩ := found
          simp only [hiu, Outcome.ok_bind] at hu
          cases hm : times item (i + 1) k ((bs ++ u).drop n) with
          | ok xs => rw [hm] at hu; cases hu
          | error e' =>
            rw [hm] at hu
            cases hu
            obtain ⟨j, r, hj, hr⟩ := times_error item k (i + 1) _ _ hm
            have := hround i j bs r _ hi hr
            omega
      · rintro ⟨e', he'⟩ u
        have h0 := he' []
        rw [List.append_nil, hi] at h0
        cases h0
        rw [he' u]
        rfl

end Items
