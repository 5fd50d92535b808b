import Mathlib.Data.List.Infix
import MongodProxy.Lib.CStr

/-!
# Cutting UTF-8 text

Text as its characters and as its bytes. A character boundary is told from the byte that
stands there, so the largest boundary up to a given offset is found by walking back; what
lies before it is the longest run of whole characters that fits.
-/

namespace Utf8

/-- The bytes of some characters. -/
def encode (cs : List Char) : Bytes := cs.flatMap String.utf8EncodeChar

@[simp] theorem encode_nil : encode [] = [] := rfl

theorem encode_cons (c : Char) (cs : List Char) :
    encode (c :: cs) = String.utf8EncodeChar c ++ encode cs := rfl

theorem encode_append (as bs : List Char) : encode (as ++ bs) = encode as ++ encode bs :=
  List.flatMap_append

theorem length_encode_cons (c : Char) (cs : List Char) :
    (encode (c :: cs)).length = c.utf8Size + (encode cs).length := by
  rw [encode_cons, List.length_append, String.length_utf8EncodeChar]

theorem utf8_eq_encode (s : String) : Text.utf8 s = encode s.toList := by
  rw [Text.utf8, String.toUTF8_eq_toByteArray, ← String.utf8Encode_toList, List.utf8Encode,
    List.data_toByteArray, encode]

/-! ### Boundaries -/

/-- A byte that does not continue a character: `(b as i8) >= -0x40`. -/
def startsChar (b : UInt8) : Bool := -0x40 ≤ b.toInt8

/-- `str::is_char_boundary`. -/
def isCharBoundary (bs : Bytes) (i : ℕ) : Bool :=
  i == 0 ||
    match bs[i]? with
    | none => i == bs.length
    | some b => startsChar b

/-- The largest boundary up to an offset, by walking back from it. -/
def floorBoundary (bs : Bytes) : ℕ → ℕ
  | 0 => 0
  | i + 1 => if isCharBoundary bs (i + 1) then i + 1 else floorBoundary bs i

/- The shapes of a byte in an encoding: a character of its own, the first byte of two, three or
four, and a byte that continues one. All 256 bytes are gone through. -/
theorem startsChar_cases (b : UInt8) :
    (b < 0x80 → startsChar b = true) ∧ startsChar (b &&& 0x1f ||| 0xc0) = true ∧
      startsChar (b &&& 0x0f ||| 0xe0) = true ∧ startsChar (b &&& 0x07 ||| 0xf0) = true ∧
      startsChar (b &&& 0x3f ||| 0x80) = false := by
  have hall : ∀ n : Fin 256, (UInt8.ofFin n < 0x80 → startsChar (UInt8.ofFin n) = true) ∧
      startsChar (UInt8.ofFin n &&& 0x1f ||| 0xc0) = true ∧
      startsChar (UInt8.ofFin n &&& 0x0f ||| 0xe0) = true ∧
      startsChar (UInt8.ofFin n &&& 0x07 ||| 0xf0) = true ∧
      startsChar (UInt8.ofFin n &&& 0x3f ||| 0x80) = false := by decide +kernel
  exact hall b.toFin

theorem startsChar_more (b : UInt8) : startsChar (b &&& 0x3f ||| 0x80) = false :=
  (startsChar_cases b).2.2.2.2

/- The first byte of a character tells itself from the others. -/
theorem utf8EncodeChar_eq (c : Char) :
    ∃ b rest, String.utf8EncodeChar c = b :: rest ∧ startsChar b = true ∧
      ∀ b' ∈ rest, startsChar b' = false := by
  have hpos := c.utf8Size_pos
  have hfour := c.utf8Size_le_four
  obtain h | h | h | h : c.utf8Size = 1 ∨ c.utf8Size = 2 ∨ c.utf8Size = 3 ∨ c.utf8Size = 4 := by
    omega
  · refine ⟨_, _, String.utf8EncodeChar_eq_singleton h, (startsChar_cases _).1 ?_, by simp⟩
    rw [Char.utf8Size_eq_one_iff, UInt32.le_iff_toNat_le] at h
    rw [UInt8.lt_iff_toNat_lt, UInt32.toNat_toUInt8]
    have h127 : (127 : UInt32).toNat = 127 := rfl
    have h128 : (0x80 : UInt8).toNat = 128 := rfl
    omega
  · refine ⟨_, _, String.utf8EncodeChar_eq_cons_cons h, (startsChar_cases _).2.1, ?_⟩
    simp [startsChar_more]
  · refine ⟨_, _, String.utf8EncodeChar_eq_cons_cons_cons h, (startsChar_cases _).2.2.1, ?_⟩
    simp [startsChar_more]
  · refine ⟨_, _, String.utf8EncodeChar_eq_cons_cons_cons_cons h, (startsChar_cases _).2.2.2.1, ?_⟩
    simp [startsChar_more]

/-- Between two characters there is a boundary. -/
theorem isCharBoundary_length (as bs : List Char) :
    isCharBoundary (encode (as ++ bs)) (encode as).length = true := by
  rw [encode_append, isCharBoundary, List.getElem?_append_right (Nat.le_refl _), Nat.sub_self]
  cases bs with
  | nil => simp
  | cons c bs =>
    obtain ⟨b, rest, hc, hb, -⟩ := utf8EncodeChar_eq c
    rw [encode_cons, hc]
    simp [hb]

/-- Inside a character there is none. -/
theorem not_isCharBoundary (as bs : List Char) (c : Char) {j : ℕ} (hpos : 0 < j)
    (hj : j < c.utf8Size) :
    isCharBoundary (encode (as ++ c :: bs)) ((encode as).length + j) = false := by
  obtain ⟨b, rest, hc, -, hrest⟩ := utf8EncodeChar_eq c
  rw [← String.length_utf8EncodeChar, hc, List.length_cons] at hj
  obtain ⟨k, rfl⟩ : ∃ k, j = k + 1 := ⟨j - 1, by omega⟩
  have hk : k < rest.length := by omega
  have hget : (encode (as ++ c :: bs))[(encode as).length + (k + 1)]? = some rest[k] := by
    rw [encode_append, encode_cons, hc, List.getElem?_append_right (by omega),
      Nat.add_sub_cancel_left, List.cons_append, List.getElem?_cons_succ,
      List.getElem?_append_left hk, List.getElem?_eq_getElem hk]
  have hmore := hrest rest[k] (List.getElem_mem hk)
  rw [isCharBoundary, hget]
  simp [hmore]

/-- The walk stops at a boundary with none between it and the offset. -/
theorem floorBoundary_eq {bs : Bytes} {m r : ℕ} (hm : isCharBoundary bs m = true) (hle : m ≤ r)
    (hnone : ∀ i, m < i → i ≤ r → isCharBoundary bs i = false) : floorBoundary bs r = m := by
  induction r with
  | zero =>
    obtain rfl : m = 0 := by omega
    rfl
  | succ r ih =>
    rw [floorBoundary]
    by_cases heq : m = r + 1
    · rw [← heq, hm, if_pos rfl]
    · rw [hnone (r + 1) (by omega) (Nat.le_refl _), if_neg Bool.false_ne_true]
      exact ih (by omega) fun i hi hir => hnone i hi (by omega)

/-! ### The longest run of characters that fits -/

/-- Characters from the front, as long as they fit into `room` bytes. -/
def fit : List Char → ℕ → List Char
  | [], _ => []
  | c :: cs, room => if c.utf8Size ≤ room then c :: fit cs (room - c.utf8Size) else []

theorem fit_isPrefix (cs : List Char) (room : ℕ) : fit cs room <+: cs := by
  induction cs generalizing room with
  | nil => exact List.prefix_refl _
  | cons c cs ih =>
    rw [fit]
    split_ifs
    · exact (List.prefix_cons_inj c).mpr (ih _)
    · exact List.nil_prefix

theorem length_encode_fit_le (cs : List Char) (room : ℕ) :
    (encode (fit cs room)).length ≤ room := by
  induction cs generalizing room with
  | nil => exact Nat.zero_le _
  | cons c cs ih =>
    rw [fit]
    split_ifs
    · have hrest := ih (room - c.utf8Size)
      rw [length_encode_cons]
      omega
    · exact Nat.zero_le _

/-- No prefix that fits is longer. -/
theorem length_le_length_fit {cs p : List Char} {room : ℕ} (hp : p <+: cs)
    (hfits : (encode p).length ≤ room) : p.length ≤ (fit cs room).length := by
  induction cs generalizing p room with
  | nil => rw [List.prefix_nil.mp hp, fit]
  | cons c cs ih =>
    cases p with
    | nil => exact Nat.zero_le _
    | cons c' p =>
      obtain ⟨rfl, hp'⟩ := List.cons_prefix_cons.mp hp
      rw [length_encode_cons] at hfits
      have hrest : p.length ≤ (fit cs (room - c'.utf8Size)).length := ih hp' (by omega)
      rw [fit, if_pos (by omega), List.length_cons, List.length_cons]
      omega

/- What stops it: the end of the text, or a character that is too long for what is left. -/
theorem exists_eq_fit_append (cs : List Char) (room : ℕ) :
    ∃ rest, cs = fit cs room ++ rest ∧ ∀ c rest', rest = c :: rest' →
      room < (encode (fit cs room)).length + c.utf8Size := by
  induction cs generalizing room with
  | nil => exact ⟨[], rfl, fun c rest' h => nomatch h⟩
  | cons c cs ih =>
    rw [fit]
    split_ifs with hroom
    · obtain ⟨rest, hcs, hstop⟩ := ih (room - c.utf8Size)
      refine ⟨rest, ?_, ?_⟩
      · rw [List.cons_append, ← hcs]
      · intro c' rest' hrest
        have hlt := hstop c' rest' hrest
        rw [length_encode_cons]
        omega
    · refine ⟨c :: cs, rfl, ?_⟩
      intro c' rest' hrest
      cases hrest
      rw [encode_nil, List.length_nil]
      omega

theorem fit_append_of_le {as : List Char} (bs : List Char) {room : ℕ}
    (h : (encode as).length ≤ room) :
    fit (as ++ bs) room = as ++ fit bs (room - (encode as).length) := by
  induction as generalizing room with
  | nil => rfl
  | cons c as ih =>
    rw [length_encode_cons] at h
    rw [List.cons_append, fit, if_pos (by omega), ih (by omega), length_encode_cons,
      List.cons_append, Nat.sub_sub]

theorem fit_append_of_lt {as : List Char} (bs : List Char) {room : ℕ}
    (h : room < (encode as).length) : fit (as ++ bs) room = fit as room := by
  induction as generalizing room with
  | nil => exact absurd h (Nat.not_lt_zero _)
  | cons c as ih =>
    rw [length_encode_cons] at h
    rw [List.cons_append, fit, fit]
    split_ifs with hroom
    · rw [ih (by omega)]
    · rfl

theorem fit_zero (cs : List Char) : fit cs 0 = [] := by
  cases cs with
  | nil => rfl
  | cons c cs =>
    have hpos := c.utf8Size_pos
    rw [fit, if_neg (by omega)]

/-- Walking back from an offset inside the text finds the end of the characters that fit. -/
theorem floorBoundary_encode {cs : List Char} {room : ℕ} (h : room ≤ (encode cs).length) :
    floorBoundary (encode cs) room = (encode (fit cs room)).length := by
  obtain ⟨rest, hcs, hstop⟩ := exists_eq_fit_append cs room
  have hle := length_encode_fit_le cs room
  generalize fit cs room = p at hcs hstop hle ⊢
  subst hcs
  refine floorBoundary_eq (isCharBoundary_length p rest) hle ?_
  intro i hi hir
  cases rest with
  | nil =>
    rw [List.append_nil] at h
    omega
  | cons c rest' =>
    have hlt := hstop c rest' rfl
    have hinside := not_isCharBoundary p rest' c (j := i - (encode p).length) (by omega) (by omega)
    rw [Nat.add_sub_cancel' (by omega)] at hinside
    exact hinside

theorem take_encode_fit (cs : List Char) (room : ℕ) :
    (encode cs).take (encode (fit cs room)).length = encode (fit cs room) := by
  obtain ⟨rest, hcs, -⟩ := exists_eq_fit_append cs room
  generalize fit cs room = p at hcs ⊢
  rw [hcs, encode_append, List.take_left]

end Utf8
