import Mathlib.Tactic.Common
import MongodProxy.Lib.LittleEndian

/-!
# Reflected 32-bit cyclic redundancy checks

The register is shifted right one bit at a time and the polynomial added whenever a
one falls out. With the top bit of the polynomial set a shift loses nothing, so two
inputs of the same length that differ in one run of at most four bytes never have the
same check value.
-/

namespace Crc
open LittleEndian

def step (poly x : BitVec 32) : BitVec 32 :=
  if x.getLsbD 0 then (x >>> 1) ^^^ poly else x >>> 1

def shift (poly : BitVec 32) : ℕ → BitVec 32 → BitVec 32
  | 0, x => x
  | n + 1, x => shift poly n (step poly x)

def byte (poly x : BitVec 32) (b : UInt8) : BitVec 32 :=
  shift poly 8 (x ^^^ BitVec.ofNat 32 b.toNat)

def update (poly : BitVec 32) : BitVec 32 → Bytes → BitVec 32 := List.foldl (byte poly)

/-- CRC-32C: the Castagnoli polynomial, bits reflected, register and result complemented. -/
def crc32c (bs : Bytes) : UInt32 := ⟨~~~update 0x82F63B78#32 0xFFFFFFFF#32 bs⟩

-- the check value of "123456789"
example : crc32c [0x31, 0x32, 0x33, 0x34, 0x35, 0x36, 0x37, 0x38, 0x39] = 0xE3069283 := by
  decide +kernel

section
variable {poly : BitVec 32}

theorem step_xor (x y : BitVec 32) : step poly (x ^^^ y) = step poly x ^^^ step poly y := by
  apply BitVec.eq_of_getLsbD_eq
  intro i _
  unfold step
  rw [BitVec.getLsbD_xor, BitVec.ushiftRight_xor_distrib]
  cases x.getLsbD 0 <;> cases y.getLsbD 0 <;>
    simp [BitVec.getLsbD_xor, Bool.xor_comm, Bool.xor_left_comm]

theorem step_eq_zero (hpoly : poly.getLsbD 31 = true) (x : BitVec 32) (h : step poly x = 0) :
    x = 0 := by
  have hbit : ∀ i, (x >>> 1).getLsbD i = x.getLsbD (i + 1) := by
    intro i
    rw [BitVec.getLsbD_ushiftRight, Nat.add_comm]
  have htop : x.getLsbD 32 = false := BitVec.getLsbD_of_ge x 32 (Nat.le_refl 32)
  unfold step at h
  cases hlow : x.getLsbD 0 with
  | true =>
    -- the top bit of the polynomial cannot come from a shift
    rw [hlow, if_pos rfl] at h
    have h31 := congrArg (fun v => v.getLsbD 31) h
    simp only [BitVec.getLsbD_xor, hbit, htop, hpoly] at h31
    exact absurd h31 (by decide)
  | false =>
    rw [hlow, if_neg (by decide)] at h
    apply BitVec.eq_of_getLsbD_eq
    intro i _
    cases i with
    | zero => simpa using hlow
    | succ i =>
      rw [← hbit, h]
      simp

theorem step_inj (hpoly : poly.getLsbD 31 = true) {x y : BitVec 32}
    (h : step poly x = step poly y) : x = y := by
  have hzero : step poly (x ^^^ y) = 0 := by
    rw [step_xor, h, BitVec.xor_self]
    rfl
  exact BitVec.xor_eq_zero_iff.mp (step_eq_zero hpoly _ hzero)

theorem shift_xor (n : ℕ) (x y : BitVec 32) :
    shift poly n (x ^^^ y) = shift poly n x ^^^ shift poly n y := by
  induction n generalizing x y with
  | zero => rfl
  | succ n ih =>
    simp only [shift, step_xor]
    exact ih _ _

theorem shift_inj (hpoly : poly.getLsbD 31 = true) (n : ℕ) {x y : BitVec 32}
    (h : shift poly n x = shift poly n y) : x = y := by
  induction n generalizing x y with
  | zero => exact h
  | succ n ih => exact step_inj hpoly (ih h)

theorem shift_add (m n : ℕ) (x : BitVec 32) :
    shift poly n (shift poly m x) = shift poly (m + n) x := by
  induction m generalizing x with
  | zero => rw [Nat.zero_add]; rfl
  | succ m ih =>
    rw [Nat.add_right_comm]
    exact ih (step poly x)

/-- Bits above the ones shifted out only move down. -/
theorem shift_shiftLeft (n : ℕ) (x : ℕ) (h : x * 2 ^ n < 2 ^ 32) :
    shift poly n (BitVec.ofNat 32 (x * 2 ^ n)) = BitVec.ofNat 32 x := by
  induction n with
  | zero => simp [shift]
  | succ n ih =>
    have heven : x * 2 ^ (n + 1) = 2 * (x * 2 ^ n) := by ring
    have hstep : step poly (BitVec.ofNat 32 (x * 2 ^ (n + 1))) = BitVec.ofNat 32 (x * 2 ^ n) := by
      have hlow : (BitVec.ofNat 32 (x * 2 ^ (n + 1))).getLsbD 0 = false := by
        rw [BitVec.getLsbD_ofNat, heven]
        simp
      unfold step
      rw [hlow, if_neg (by decide)]
      apply BitVec.eq_of_toNat_eq
      rw [BitVec.toNat_ushiftRight, BitVec.toNat_ofNat, BitVec.toNat_ofNat, Nat.mod_eq_of_lt h,
        Nat.shiftRight_eq_div_pow, heven]
      rw [heven] at h
      omega
    simp only [shift, hstep]
    apply ih
    omega

/-- A byte above a shorter word. -/
theorem ofNat_byte_word (b v : ℕ) (hb : b < 256) :
    BitVec.ofNat 32 (b + 256 * v) = BitVec.ofNat 32 b ^^^ BitVec.ofNat 32 (v * 2 ^ 8) := by
  apply BitVec.eq_of_getLsbD_eq
  intro i hi
  have hsum : b + 256 * v = 2 ^ 8 * v + b := by ring
  have hshift : v * 2 ^ 8 = 2 ^ 8 * v + 0 := by ring
  rw [BitVec.getLsbD_xor, BitVec.getLsbD_ofNat, BitVec.getLsbD_ofNat, BitVec.getLsbD_ofNat, hsum,
    hshift, Nat.testBit_two_pow_mul_add _ hb, Nat.testBit_two_pow_mul_add _ (by decide)]
  by_cases h8 : i < 8
  · simp [hi, h8]
  · have hhigh : b.testBit i = false := by
      apply Nat.testBit_lt_two_pow
      calc b < 2 ^ 8 := hb
        _ ≤ 2 ^ i := Nat.pow_le_pow_right (by decide) (by omega)
    simp [hi, h8, hhigh]

/-- Up to four bytes are one word added to the register. -/
theorem update_eq_shift (x : BitVec 32) (bs : Bytes) (h : bs.length ≤ 4) :
    update poly x bs = shift poly (8 * bs.length) (x ^^^ BitVec.ofNat 32 (value bs)) := by
  induction bs generalizing x with
  | nil => simp [update, shift, value]
  | cons b bs ih =>
    rw [List.length_cons] at h
    have hvalue : value bs * 2 ^ 8 < 2 ^ 32 := by
      have hlt := value_lt bs
      have hpow : 256 ^ bs.length ≤ 256 ^ 3 := Nat.pow_le_pow_right (by decide) (by omega)
      omega
    have hbyte : update poly x (b :: bs) = update poly (byte poly x b) bs := rfl
    have hdown : shift poly 8 (BitVec.ofNat 32 (value bs * 2 ^ 8)) = BitVec.ofNat 32 (value bs) :=
      shift_shiftLeft 8 (value bs) hvalue
    rw [hbyte, ih _ (by omega), byte, ← hdown, ← shift_xor, shift_add, value, ofNat_byte_word _ _ b.toNat_lt, BitVec.xor_assoc]
    congr 1
    rw [List.length_cons]
    omega

theorem update_register_inj (hpoly : poly.getLsbD 31 = true) (bs : Bytes) {x y : BitVec 32}
    (h : update poly x bs = update poly y bs) : x = y := by
  induction bs generalizing x y with
  | nil => exact h
  | cons b bs ih =>
    have hxor := shift_inj hpoly 8 (ih h)
    exact (BitVec.xor_left_inj _).mp hxor

theorem update_word_inj (hpoly : poly.getLsbD 31 = true) (x : BitVec 32) {a b : Bytes}
    (hlen : a.length = b.length) (h4 : a.length ≤ 4) (h : update poly x a = update poly x b) :
    a = b := by
  rw [update_eq_shift x a h4, update_eq_shift x b (hlen ▸ h4), hlen] at h
  have hword := (BitVec.xor_right_inj _).mp (shift_inj hpoly _ h)
  have hbound : ∀ bs : Bytes, bs.length ≤ 4 → value bs < 2 ^ 32 := by
    intro bs hbs
    have hlt := value_lt bs
    have hpow : 256 ^ bs.length ≤ 256 ^ 4 := Nat.pow_le_pow_right (by decide) hbs
    omega
  have hvalue : value a = value b := by
    have hnat := congrArg BitVec.toNat hword
    rwa [BitVec.toNat_ofNat, BitVec.toNat_ofNat, Nat.mod_eq_of_lt (hbound a h4),
      Nat.mod_eq_of_lt (hbound b (hlen ▸ h4))] at hnat
  calc a = digits (value a) a.length := (digits_value a).symm
    _ = digits (value b) b.length := by rw [hvalue, hlen]
    _ = b := digits_value b

end

/-- A change of at most four bytes changes the check value. -/
theorem crc32c_word_inj (p s : Bytes) {a b : Bytes} (hlen : a.length = b.length)
    (h4 : a.length ≤ 4) (h : crc32c (p ++ (a ++ s)) = crc32c (p ++ (b ++ s))) : a = b := by
  have hpoly : (0x82F63B78#32).getLsbD 31 = true := by decide
  have hregister : update 0x82F63B78#32 0xFFFFFFFF#32 (p ++ (a ++ s))
      = update 0x82F63B78#32 0xFFFFFFFF#32 (p ++ (b ++ s)) :=
    BitVec.not_inj.mp (congrArg UInt32.toBitVec h)
  simp only [update, List.foldl_append] at hregister
  exact update_word_inj hpoly _ hlen h4 (update_register_inj hpoly s hregister)

end Crc
