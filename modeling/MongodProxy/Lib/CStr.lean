import Mathlib.Tactic.Common
import MongodProxy.Lib.LittleEndian

/-!
# Strings on the wire

UTF-8 text and NUL-terminated byte strings: what `String`, `CString` and
`CStr` of the Rust standard library promise, over byte lists.
-/

namespace Text

/-- `String::as_bytes`. -/
def utf8 (s : String) : Bytes := s.toUTF8.data.toList

/-- `str::from_utf8`. -/
def ofUtf8 (bs : Bytes) : Option String := String.fromUTF8? ⟨bs.toArray⟩

@[simp] theorem ofUtf8_utf8 (s : String) : ofUtf8 (utf8 s) = some s := by
  have hbytes : (⟨(utf8 s).toArray⟩ : ByteArray) = s.toByteArray := by
    simp [utf8, String.toUTF8]
  simp only [ofUtf8, String.fromUTF8?, hbytes, dif_pos s.isValidUTF8]
  rfl

theorem utf8_of_ofUtf8 (bs : Bytes) (s : String) (h : ofUtf8 bs = some s) : utf8 s = bs := by
  simp only [ofUtf8, String.fromUTF8?] at h
  split at h
  · rw [← Option.some.inj h]
    simp [utf8, String.fromUTF8]
  · cases h

end Text

namespace CStr

/-- `CStr::from_bytes_until_nul`: the bytes before the first NUL, if there is one. -/
def untilNul : Bytes → Option Bytes
  | [] => none
  | b :: rest => if b = 0 then some [] else (untilNul rest).map (b :: ·)

theorem untilNul_append (s rest : Bytes) (h : 0 ∉ s) : untilNul (s ++ 0 :: rest) = some s := by
  induction s with
  | nil => simp [untilNul]
  | cons b s ih =>
    have hb : b ≠ 0 := fun hb => h (by simp [hb])
    have hs : 0 ∉ s := fun hs => h (List.mem_cons_of_mem _ hs)
    simp only [List.cons_append, untilNul, if_neg hb, ih hs, Option.map_some]

theorem untilNul_eq_some (bs s : Bytes) (h : untilNul bs = some s) :
    0 ∉ s ∧ ∃ rest, bs = s ++ 0 :: rest := by
  induction bs generalizing s with
  | nil => simp [untilNul] at h
  | cons b bs ih =>
    simp only [untilNul] at h
    by_cases hb : b = 0
    · rw [if_pos hb] at h
      rw [← Option.some.inj h, hb]
      exact ⟨by simp, bs, rfl⟩
    · rw [if_neg hb] at h
      obtain ⟨s', hs', rfl⟩ := Option.map_eq_some_iff.mp h
      obtain ⟨hfree, rest, hrest⟩ := ih s' hs'
      refine ⟨?_, rest, by simp [hrest]⟩
      intro hmem
      rcases List.mem_cons.mp hmem with h0 | h0
      · exact hb h0.symm
      · exact hfree h0

theorem untilNul_eq_none (bs : Bytes) : untilNul bs = none ↔ 0 ∉ bs := by
  induction bs with
  | nil => simp [untilNul]
  | cons b bs ih =>
    by_cases hb : b = 0
    · simp [untilNul, hb]
    · simp [untilNul, hb, ih, eq_comm]

/-- Bytes after the terminator do not change what is found. -/
theorem untilNul_append_right (bs s t : Bytes) (h : untilNul bs = some s) :
    untilNul (bs ++ t) = some s := by
  obtain ⟨hfree, rest, rfl⟩ := untilNul_eq_some bs s h
  rw [List.append_assoc, List.cons_append]
  exact untilNul_append s (rest ++ t) hfree

theorem length_lt_of_untilNul (bs s : Bytes) (h : untilNul bs = some s) :
    s.length < bs.length := by
  obtain ⟨-, rest, rfl⟩ := untilNul_eq_some bs s h
  simp

/-- `NulError`: where the interior NUL is, and the offending bytes. -/
structure NulError where
  position : ℕ
  bytes : Bytes
  deriving DecidableEq, Repr

/-- `CString::new` followed by `as_bytes_with_nul`. -/
def withNul (bs : Bytes) : Except NulError Bytes :=
  if 0 ∈ bs then .error ⟨bs.idxOf 0, bs⟩ else .ok (bs ++ [0])

theorem withNul_eq_ok (bs w : Bytes) (h : withNul bs = .ok w) : 0 ∉ bs ∧ w = bs ++ [0] := by
  simp only [withNul] at h
  split at h
  · cases h
  · rename_i hfree
    exact ⟨hfree, (Except.ok.inj h).symm⟩

theorem withNul_of_not_mem (bs : Bytes) (h : 0 ∉ bs) : withNul bs = .ok (bs ++ [0]) := by
  simp only [withNul, if_neg h]

end CStr
