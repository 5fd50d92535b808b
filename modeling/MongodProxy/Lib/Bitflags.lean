import Mathlib.Tactic.Common

/-!
# Flag words

Sets of named bits in a 32-bit word, as the `bitflags` crate handles them.
`all` is the union of the named bits of the flag type at hand. Equalities of
words are proved bit by bit.
-/

namespace Bitflags

/-- `contains`: every bit of `g` is set in `x`. -/
def contains (x g : UInt32) : Bool := x &&& g == g

/-- `set`: insert or remove the bits of `g`. -/
def set (x g : UInt32) (on : Bool) : UInt32 := if on then x ||| g else x &&& ~~~g

/-- `from_bits_truncate`: unnamed bits are dropped. -/
def truncate (all raw : UInt32) : UInt32 := raw &&& all

/-- `from_bits`: refuses a word with unnamed bits. -/
def fromBits (all raw : UInt32) : Option UInt32 :=
  if raw &&& ~~~all = 0 then some raw else none

def Named (all x : UInt32) : Prop := x &&& ~~~all = 0

instance (all x : UInt32) : Decidable (Named all x) := inferInstanceAs (Decidable (_ = _))

def bit (x : UInt32) (i : ℕ) : Bool := x.toBitVec.getLsbD i

theorem ext_bit (x y : UInt32) (h : ∀ i < 32, bit x i = bit y i) : x = y :=
  UInt32.toBitVec_inj.mp (BitVec.eq_of_getLsbD_eq h)

@[simp] theorem bit_and (x y : UInt32) (i : ℕ) : bit (x &&& y) i = (bit x i && bit y i) := by
  simp [bit]

@[simp] theorem bit_or (x y : UInt32) (i : ℕ) : bit (x ||| y) i = (bit x i || bit y i) := by
  simp [bit]

theorem bit_not (x : UInt32) (i : ℕ) (h : i < 32) : bit (~~~x) i = !bit x i := by
  simp [bit, h]

@[simp] theorem bit_zero (i : ℕ) : bit 0 i = false := by
  simp [bit]

theorem Named.bit_le {all x : UInt32} (h : Named all x) (i : ℕ) (hi : i < 32)
    (hb : bit x i = true) : bit all i = true := by
  have hz := congrArg (fun w => bit w i) h
  simp only [bit_and, bit_not all i hi, bit_zero, hb, Bool.true_and] at hz
  simpa using hz

theorem named_of_bit_le {all x : UInt32}
    (h : ∀ i < 32, bit x i = true → bit all i = true) : Named all x := by
  apply ext_bit
  intro i hi
  have hle := h i hi
  simp only [bit_and, bit_not all i hi, bit_zero]
  cases hx : bit x i with
  | false => rfl
  | true => simp [hle hx]

theorem truncate_of_named {all x : UInt32} (h : Named all x) : truncate all x = x := by
  apply ext_bit
  intro i hi
  have hle := h.bit_le i hi
  simp only [truncate, bit_and]
  cases hx : bit x i with
  | false => rfl
  | true => simp [hle hx]

theorem named_truncate (all raw : UInt32) : Named all (truncate all raw) := by
  apply named_of_bit_le
  intro i _ hb
  simp only [truncate, bit_and, Bool.and_eq_true] at hb
  exact hb.2

theorem named_set {all x g : UInt32} (hx : Named all x) (hg : Named all g) (on : Bool) :
    Named all (set x g on) := by
  apply named_of_bit_le
  intro i hi hb
  cases on with
  | true =>
    simp only [set, if_true, bit_or, Bool.or_eq_true] at hb
    rcases hb with hb | hb
    · exact hx.bit_le i hi hb
    · exact hg.bit_le i hi hb
  | false =>
    simp only [set, Bool.false_eq_true, if_false, bit_and, Bool.and_eq_true] at hb
    exact hx.bit_le i hi hb.1

theorem fromBits_of_named {all x : UInt32} (h : Named all x) : fromBits all x = some x := by
  simp only [fromBits]
  exact if_pos h

theorem fromBits_eq_some {all raw x : UInt32} (h : fromBits all raw = some x) :
    x = raw ∧ Named all x := by
  unfold fromBits at h
  split_ifs at h with hn
  cases h
  exact ⟨rfl, hn⟩

theorem contains_iff (x g : UInt32) :
    contains x g = true ↔ ∀ i < 32, bit g i = true → bit x i = true := by
  simp only [contains, beq_iff_eq]
  constructor
  · intro h i _ hg
    have hb := congrArg (fun w => bit w i) h
    simp only [bit_and, hg, Bool.and_true] at hb
    exact hb
  · intro h
    apply ext_bit
    intro i hi
    simp only [bit_and]
    cases hg : bit g i with
    | false => simp
    | true => simp [h i hi hg]

/-- Truncation keeps the named flags. -/
theorem contains_truncate {all x g : UInt32} (hg : Named all g) (h : contains x g = true) :
    contains (truncate all x) g = true := by
  rw [contains_iff] at h ⊢
  intro i hi hb
  simp only [truncate, bit_and, h i hi hb, hg.bit_le i hi hb, Bool.and_self]

/-- Setting a flag of at least one bit decides whether it is contained. -/
theorem contains_set (x g : UInt32) (on : Bool) (hg : g ≠ 0) : contains (set x g on) g = on := by
  cases on with
  | true =>
    rw [contains_iff]
    intro i _ hb
    simp [set, hb]
  | false =>
    have hne : contains (set x g false) g ≠ true := by
      rw [Ne, contains_iff]
      intro h
      apply hg
      apply ext_bit
      intro i hi
      cases hb : bit g i with
      | false => simp
      | true =>
        have hx := h i hi hb
        simp [set, bit_not g i hi, hb] at hx
    simpa using hne

/-- The lowest bit is set to what it is already. -/
theorem set_one_contains (x : UInt32) : set x 1 (contains x 1) = x := by
  have hone : ∀ i, bit 1 i = decide (i = 0) := by
    intro i
    have h1 : (1 : UInt32).toBitVec = 1#32 := rfl
    simp only [bit, h1, BitVec.getLsbD_one]
    simp
  cases hc : contains x 1 with
  | true =>
    rw [contains_iff] at hc
    apply ext_bit
    intro i hi
    have hci := hc i hi
    simp only [set, if_true, bit_or, hone] at hci ⊢
    by_cases h0 : i = 0
    · simp [h0] at hci ⊢
      exact hci
    · simp [h0]
  | false =>
    have hx0 : bit x 0 = false := by
      by_contra hb
      have : contains x 1 = true := by
        rw [contains_iff]
        intro i _ hi
        rw [hone] at hi
        have h0 : i = 0 := by simpa using hi
        rw [h0]
        simpa using hb
      rw [hc] at this
      cases this
    apply ext_bit
    intro i hi
    simp only [set, Bool.false_eq_true, if_false, bit_and, bit_not 1 i hi, hone]
    by_cases h0 : i = 0
    · rw [h0, hx0]
      rfl
    · simp [h0]

end Bitflags
