import Mathlib.Tactic.Common
import Mathlib.Tactic.Ring

/-!
# Little-endian words

Fixed-width little-endian byte strings and the machine words they stand for:
the two directions of the coding are inverse to each other on byte strings of
the word's width.
-/

abbrev Bytes := List UInt8

namespace LittleEndian

/-- The `n` low bytes of `r`, least significant first. -/
def digits (r : ℕ) : ℕ → Bytes
  | 0 => []
  | n + 1 => UInt8.ofNat r :: digits (r / 256) n

/-- The number a byte string stands for. -/
def value : Bytes → ℕ
  | [] => 0
  | b :: rest => b.toNat + 256 * value rest

@[simp] theorem digits_length (r n : ℕ) : (digits r n).length = n := by
  induction n generalizing r with
  | zero => rfl
  | succ n ih => simp only [digits, List.length_cons, ih]

theorem value_lt (bs : Bytes) : value bs < 256 ^ bs.length := by
  induction bs with
  | nil => simp [value]
  | cons b rest ih =>
    have hb : b.toNat < 256 := b.toNat_lt
    simp only [value, List.length_cons, pow_succ]
    omega

theorem value_digits (r n : ℕ) (h : r < 256 ^ n) : value (digits r n) = r := by
  induction n generalizing r with
  | zero =>
    have hr : r = 0 := by simpa using h
    simp [digits, value, hr]
  | succ n ih =>
    have hdiv : r / 256 < 256 ^ n := by
      rw [Nat.div_lt_iff_lt_mul (by norm_num)]
      rwa [pow_succ] at h
    simp only [digits, value, ih _ hdiv, UInt8.toNat_ofNat']
    omega

theorem digits_value (bs : Bytes) : digits (value bs) bs.length = bs := by
  induction bs with
  | nil => rfl
  | cons b rest ih =>
    have hb : b.toNat < 256 := b.toNat_lt
    have hlow : UInt8.ofNat (b.toNat + 256 * value rest) = b := by
      apply UInt8.toNat_inj.mp
      rw [UInt8.toNat_ofNat']
      omega
    have hhigh : (b.toNat + 256 * value rest) / 256 = value rest := by omega
    simp only [value, List.length_cons, digits, hlow, hhigh, ih]

/-! ### Machine words -/

/-- `u32::to_le_bytes`. -/
def ofU32 (x : UInt32) : Bytes := digits x.toNat 4

/-- `u32::from_le_bytes`. -/
def toU32 (bs : Bytes) : UInt32 := UInt32.ofNat (value bs)

/-- `i32::to_le_bytes`. -/
def ofI32 (x : Int32) : Bytes := ofU32 x.toUInt32

/-- `i32::from_le_bytes`. -/
def toI32 (bs : Bytes) : Int32 := (toU32 bs).toInt32

/-- `i64::to_le_bytes`. -/
def ofI64 (x : Int64) : Bytes := digits x.toUInt64.toNat 8

/-- `i64::from_le_bytes`. -/
def toI64 (bs : Bytes) : Int64 := (UInt64.ofNat (value bs)).toInt64

@[simp] theorem ofU32_length (x : UInt32) : (ofU32 x).length = 4 := digits_length _ _

@[simp] theorem ofI32_length (x : Int32) : (ofI32 x).length = 4 := digits_length _ _

@[simp] theorem ofI64_length (x : Int64) : (ofI64 x).length = 8 := digits_length _ _

@[simp] theorem toU32_ofU32 (x : UInt32) : toU32 (ofU32 x) = x := by
  have hx : x.toNat < 256 ^ 4 := by
    have h := x.toNat_lt
    norm_num at h ⊢
    exact h
  rw [toU32, ofU32, value_digits _ _ hx, UInt32.ofNat_toNat]

@[simp] theorem toI32_ofI32 (x : Int32) : toI32 (ofI32 x) = x := by
  rw [toI32, ofI32, toU32_ofU32, Int32.toInt32_toUInt32]

@[simp] theorem toI64_ofI64 (x : Int64) : toI64 (ofI64 x) = x := by
  have hx : x.toUInt64.toNat < 256 ^ 8 := by
    have h := x.toUInt64.toNat_lt
    norm_num at h ⊢
    exact h
  rw [toI64, ofI64, value_digits _ _ hx, UInt64.ofNat_toNat, Int64.toInt64_toUInt64]

theorem ofU32_toU32 (bs : Bytes) (h : bs.length = 4) : ofU32 (toU32 bs) = bs := by
  have hv : value bs < 2 ^ 32 := by
    have hlt := value_lt bs
    rw [h] at hlt
    norm_num at hlt ⊢
    exact hlt
  rw [ofU32, toU32, UInt32.toNat_ofNat_of_lt' hv, ← h, digits_value]

theorem ofI32_toI32 (bs : Bytes) (h : bs.length = 4) : ofI32 (toI32 bs) = bs := by
  rw [ofI32, toI32, UInt32.toUInt32_toInt32, ofU32_toU32 bs h]

theorem ofI64_toI64 (bs : Bytes) (h : bs.length = 8) : ofI64 (toI64 bs) = bs := by
  have hlt := value_lt bs
  rw [h] at hlt
  have hval : (UInt64.ofNat (value bs)).toNat = value bs := UInt64.toNat_ofNat_of_lt' hlt
  rw [ofI64, toI64, UInt64.toUInt64_toInt64, hval, ← h, digits_value]

theorem toI32_neg (bs : Bytes) (hlen : bs.length = 4) (h : 2 ^ 31 ≤ value bs) :
    (toI32 bs).toInt < 0 := by
  have hv : value bs < 2 ^ 32 := by
    have hlt := value_lt bs
    rw [hlen] at hlt
    norm_num at hlt ⊢
    exact hlt
  have hnat : (toU32 bs).toBitVec.toNat = value bs := UInt32.toNat_ofNat_of_lt' hv
  change (toU32 bs).toBitVec.toInt < 0
  rw [BitVec.toInt_neg_iff, hnat]
  omega

/-- `i32::try_from` on a length. -/
def i32OfNat (n : ℕ) : Option Int32 :=
  if n ≤ 2147483647 then some (Int32.ofNat n) else none

theorem i32OfNat_toNat (x : Int32) (h : 0 ≤ x.toInt) : i32OfNat x.toInt.toNat = some x := by
  have hlt : x.toInt < 2147483648 := Int32.toInt_lt x
  have hle : x.toInt.toNat ≤ 2147483647 := by omega
  unfold i32OfNat
  rw [if_pos hle]
  congr 1
  apply Int32.toInt_inj.mp
  rw [Int32.toInt_ofNat_of_lt (by omega)]
  omega

theorem i32OfNat_eq_some (n : ℕ) (x : Int32) (h : i32OfNat n = some x) : x.toInt = n := by
  unfold i32OfNat at h
  split at h
  · rename_i hn
    rw [← Option.some.inj h]
    exact Int32.toInt_ofNat_of_lt (by omega)
  · cases h

end LittleEndian
