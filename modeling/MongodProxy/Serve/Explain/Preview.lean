import MongodProxy.Lib.Outcome
import MongodProxy.Lib.Utf8

/-!
# Bounded previews (serve/explain/util.rs)

The Debug formatter hands its output to `BoundedWrite::write_str` in fragments of its own
choosing and stops at the first error. However it cuts the text, what `truncate_doc_preview`
returns is the text itself, or as many of its characters as fit and the marker.
-/

namespace MongodProxy.Explain
open Utf8

/- `std::fmt::Error`. -/
structure FmtError where
  deriving DecidableEq, Repr

/- `&s[..end]`, which must end between two characters. -/
def sliceTo (s : Bytes) (stop : ℕ) : Outcome Empty Bytes :=
  if isCharBoundary s stop then .ok (s.take stop) else .error .panic

/-- `BoundedWrite::write_str`: the buffer afterwards and what is answered to the formatter. -/
def writeStr (cap : ℕ) (buf : Bytes) (s : String) : Outcome Empty (Bytes × Except FmtError Unit) :=
  if buf.length ≥ cap then .ok (buf, .error ⟨⟩)
  else
    let remaining := cap - buf.length
    if (Text.utf8 s).length ≤ remaining then .ok (buf ++ Text.utf8 s, .ok ())
    else do
      let front ← sliceTo (Text.utf8 s) (floorBoundary (Text.utf8 s) remaining)
      pure (buf ++ front, .error ⟨⟩)

/- The formatter at work: fragment after fragment up to the first error. -/
def writeFragments (cap : ℕ) : Bytes → List String → Outcome Empty (Bytes × Except FmtError Unit)
  | buf, [] => .ok (buf, .ok ())
  | buf, s :: fragments => do
    let (buf, answer) ← writeStr cap buf s
    match answer with
    | .ok () => writeFragments cap buf fragments
    | .error e => pure (buf, .error e)

def truncationMarker : Bytes := Text.utf8 "…[truncated]"

/-- `truncate_doc_preview`, on the fragments of the Debug rendering. -/
def truncateDocPreview (cap : ℕ) (fragments : List String) : Outcome Empty Bytes := do
  let (buf, answer) ← writeFragments cap [] fragments
  match answer with
  | .ok () => pure buf
  | .error _ => pure (buf ++ truncationMarker)

/-! ### What is written -/

/-- The text the fragments make up. -/
def textOf (fragments : List String) : List Char := fragments.flatMap String.toList

/- The formatter does not end with an empty fragment. -/
def EndsInText (fragments : List String) : Prop := ∀ s ∈ fragments.getLast?, s ≠ ""

theorem EndsInText.tail {s : String} {fragments : List String} (h : EndsInText (s :: fragments)) :
    EndsInText fragments := by
  intro last hlast
  cases fragments with
  | nil => cases hlast
  | cons s' fragments => exact h last (by rw [List.getLast?_cons_cons]; exact hlast)

theorem EndsInText.textOf_ne_nil {s : String} {fragments : List String}
    (h : EndsInText (s :: fragments)) : textOf (s :: fragments) ≠ [] := by
  intro hnil
  have hall : ∀ s' ∈ s :: fragments, s'.toList = [] := List.flatMap_eq_nil_iff.mp hnil
  obtain ⟨last, hlast⟩ : ∃ last, (s :: fragments).getLast? = some last :=
    ⟨_, List.getLast?_eq_some_getLast (List.cons_ne_nil s fragments)⟩
  have hempty := hall last (List.mem_of_getLast? hlast)
  exact h last hlast (String.toList_eq_nil_iff.mp hempty)

theorem length_encode_pos {cs : List Char} (h : cs ≠ []) : 0 < (encode cs).length := by
  cases cs with
  | nil => exact absurd rfl h
  | cons c cs =>
    have hpos := c.utf8Size_pos
    rw [length_encode_cons]
    omega

/-- A fragment is taken whole, or cut where the buffer is full. -/
theorem writeStr_eq (cap : ℕ) (buf : Bytes) (s : String) (hroom : buf.length < cap) :
    writeStr cap buf s =
      if (encode s.toList).length ≤ cap - buf.length then .ok (buf ++ encode s.toList, .ok ())
      else .ok (buf ++ encode (fit s.toList (cap - buf.length)), .error ⟨⟩) := by
  rw [writeStr, if_neg (by omega), utf8_eq_encode]
  dsimp only
  split_ifs with hfits
  · rfl
  · have hin : cap - buf.length ≤ (encode s.toList).length := by omega
    have hboundary : isCharBoundary (encode s.toList)
        (encode (fit s.toList (cap - buf.length))).length = true := by
      obtain ⟨rest, hcs, -⟩ := exists_eq_fit_append s.toList (cap - buf.length)
      have hb := isCharBoundary_length (fit s.toList (cap - buf.length)) rest
      rw [← hcs] at hb
      exact hb
    rw [floorBoundary_encode hin, sliceTo, if_pos hboundary, take_encode_fit]
    rfl

/-- The whole run: all of the text, or what of it fits. -/
theorem writeFragments_eq (cap : ℕ) (buf : Bytes) (hbuf : buf.length ≤ cap)
    (fragments : List String) (hlast : EndsInText fragments) :
    writeFragments cap buf fragments =
      if (encode (textOf fragments)).length ≤ cap - buf.length then
        .ok (buf ++ encode (textOf fragments), .ok ())
      else .ok (buf ++ encode (fit (textOf fragments) (cap - buf.length)), .error ⟨⟩) := by
  induction fragments generalizing buf with
  | nil =>
    rw [writeFragments, textOf, List.flatMap_nil, encode_nil, List.append_nil, List.length_nil,
      if_pos (Nat.zero_le _)]
  | cons s fragments ih =>
    have htext : textOf (s :: fragments) = s.toList ++ textOf fragments := List.flatMap_cons
    rw [writeFragments]
    by_cases hfull : cap ≤ buf.length
    · -- the buffer is full and there is more text
      have hpos := length_encode_pos hlast.textOf_ne_nil
      have hzero : cap - buf.length = 0 := by omega
      rw [writeStr, if_pos hfull, hzero, if_neg (by omega), fit_zero, encode_nil, List.append_nil]
      rfl
    · rw [writeStr_eq cap buf s (by omega), htext, encode_append, List.length_append]
      by_cases hfits : (encode s.toList).length ≤ cap - buf.length
      · have hbuf' : (buf ++ encode s.toList).length ≤ cap := by
          rw [List.length_append]
          omega
        have hleft : cap - (buf ++ encode s.toList).length =
            cap - buf.length - (encode s.toList).length := by
          rw [List.length_append]
          omega
        rw [if_pos hfits, fit_append_of_le _ hfits]
        show writeFragments cap (buf ++ encode s.toList) fragments = _
        rw [ih _ hbuf' hlast.tail, hleft, encode_append, List.append_assoc, List.append_assoc]
        by_cases hall : (encode (textOf fragments)).length ≤
            cap - buf.length - (encode s.toList).length
        · rw [if_pos hall, if_pos (by omega)]
        · rw [if_neg hall, if_neg (by omega)]
      · rw [if_neg hfits, if_neg (by omega), fit_append_of_lt _ (by omega)]
        rfl

theorem truncateDocPreview_eq (cap : ℕ) (fragments : List String) (hlast : EndsInText fragments) :
    truncateDocPreview cap fragments =
      if (encode (textOf fragments)).length ≤ cap then .ok (encode (textOf fragments))
      else .ok (encode (fit (textOf fragments) cap) ++ truncationMarker) := by
  rw [truncateDocPreview, writeFragments_eq cap [] (Nat.zero_le _) fragments hlast]
  simp only [List.length_nil, Nat.sub_zero, List.nil_append]
  split_ifs
  · rfl
  · rfl

/-- The preview is the text when it fits and else its longest prefix that does, with the marker;
how the text was cut into fragments does not show. -/
theorem truncateDocPreview_longest_prefix (cap : ℕ) (fragments : List String)
    (hlast : EndsInText fragments) :
    ∃ out, truncateDocPreview cap fragments = .ok out ∧
      ((encode (textOf fragments)).length ≤ cap → out = encode (textOf fragments)) ∧
      (cap < (encode (textOf fragments)).length →
        ∃ front, front <+: textOf fragments ∧ (encode front).length ≤ cap ∧
          (∀ other, other <+: textOf fragments → (encode other).length ≤ cap →
            other.length ≤ front.length) ∧
          out = encode front ++ truncationMarker) ∧
      (∀ fragments', EndsInText fragments' → textOf fragments' = textOf fragments →
        truncateDocPreview cap fragments' = .ok out) ∧
      (∃ t : String, Text.utf8 t = out) ∧
      out.length ≤ cap + truncationMarker.length := by
  by_cases hfits : (encode (textOf fragments)).length ≤ cap
  · refine ⟨encode (textOf fragments), ?_, fun _ => rfl, ?_, ?_, ?_, ?_⟩
    · rw [truncateDocPreview_eq cap fragments hlast, if_pos hfits]
    · intro hlong
      omega
    · intro fragments' hlast' hsame
      rw [truncateDocPreview_eq cap fragments' hlast', hsame, if_pos hfits]
    · exact ⟨String.ofList (textOf fragments), by rw [utf8_eq_encode, String.toList_ofList]⟩
    · omega
  · refine ⟨encode (fit (textOf fragments) cap) ++ truncationMarker, ?_, ?_, ?_, ?_, ?_, ?_⟩
    · rw [truncateDocPreview_eq cap fragments hlast, if_neg hfits]
    · intro hshort
      exact absurd hshort hfits
    · intro _
      exact ⟨fit (textOf fragments) cap, fit_isPrefix _ _, length_encode_fit_le _ _,
        fun other hother hle => length_le_length_fit hother hle, rfl⟩
    · intro fragments' hlast' hsame
      rw [truncateDocPreview_eq cap fragments' hlast', hsame, if_neg hfits]
    · refine ⟨String.ofList (fit (textOf fragments) cap) ++ "…[truncated]", ?_⟩
      rw [utf8_eq_encode, String.toList_append, String.toList_ofList, encode_append,
        truncationMarker, utf8_eq_encode]
    · have hle := length_encode_fit_le (textOf fragments) cap
      rw [List.length_append]
      omega

/- With six bytes the crab does not fit, however the text comes. -/
theorem truncateDocPreview_crab :
    EndsInText ["né", "", "🦀x"] ∧ EndsInText ["né🦀x"] ∧
      ∃ out, truncateDocPreview 6 ["né", "", "🦀x"] = .ok out ∧
        truncateDocPreview 6 ["né🦀x"] = .ok out ∧ out = Text.utf8 "né…[truncated]" := by
  have hcut : EndsInText ["né", "", "🦀x"] := by
    intro s hs
    cases hs
    decide
  have hwhole : EndsInText ["né🦀x"] := by
    intro s hs
    cases hs
    decide
  obtain ⟨out, hout, -, -, hsame, -, -⟩ :=
    truncateDocPreview_longest_prefix 6 ["né", "", "🦀x"] hcut
  have hvalue : truncateDocPreview 6 ["né", "", "🦀x"] = .ok (Text.utf8 "né…[truncated]") := by
    decide +kernel
  refine ⟨hcut, hwhole, out, hout, hsame _ hwhole (by decide +kernel), ?_⟩
  rw [hvalue] at hout
  exact (Except.ok.inj hout).symm

end MongodProxy.Explain
