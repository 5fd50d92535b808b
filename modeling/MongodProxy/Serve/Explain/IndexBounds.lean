import MongodProxy.Lib.Str
import MongodProxy.Serve.Explain.Names

/-!
# Index bounds (serve/explain/model/plan_details.rs)

A range is a text such as `[1999, 2001)`. The parser cuts what is between the brackets at
the first comma followed by a space, wherever it stands, so a lower endpoint that is a
string with such a comma in it is cut in two.
-/

namespace MongodProxy.Explain
open MongodProxy Str

inductive BoundValue where
  | inf
  | negInf
  | minKey
  | maxKey
  | literal (text : Str)
  deriving DecidableEq, Repr

def BoundValue.parse (s : Str) : BoundValue :=
  let s := trim s
  if s = "inf".toList then .inf
  else if s = "-inf".toList then .negInf
  else if s = "MinKey".toList then .minKey
  else if s = "MaxKey".toList then .maxKey
  else .literal s

inductive Inclusivity where
  | inclusive
  | exclusive
  deriving DecidableEq, Repr

structure IndexBoundRange where
  lower : BoundValue
  lowerInclusivity : Inclusivity
  upper : BoundValue
  upperInclusivity : Inclusivity
  deriving DecidableEq, Repr

inductive IndexBoundsParseError where
  | empty
  | badOpen (raw : Str)
  | badClose (raw : Str)
  | noSeparator (raw : Str)
  deriving DecidableEq, Repr

def IndexBoundRange.parse (s : Str) : Except IndexBoundsParseError IndexBoundRange := do
  let s := trim s
  let lowerInclusivity ← match s.head? with
    | none => .error .empty
    | some '[' => .ok .inclusive
    | some '(' => .ok .exclusive
    | some _ => .error (.badOpen s)
  let upperInclusivity ← match s.getLast? with
    | none => .error .empty
    | some ']' => .ok .inclusive
    | some ')' => .ok .exclusive
    | some _ => .error (.badClose s)
  -- an opening bracket is no closing one, so there are two characters to cut off
  let body := s.tail.dropLast
  match (splitOnceStr ", ".toList body).or (splitOnce ',' body) with
  | none => .error (.noSeparator s)
  | some (lo, hi) => pure ⟨.parse lo, lowerInclusivity, .parse hi, upperInclusivity⟩

/-! ### What the server renders -/

/- The characters of a number: digits, signs, the point and the exponent. -/
def isNumberChar (c : Char) : Bool := c.isDigit || c ∈ ['+', '-', '.', 'e', 'E']

/-- An end of a range as the server renders it. -/
inductive Endpoint where
  | number (text : Str) (nonempty : text ≠ []) (digits : ∀ c ∈ text, isNumberChar c = true)
  | inf
  | negInf
  | minKey
  | maxKey
  | quoted (content : Str)

namespace Endpoint

def render : Endpoint → Str
  | .number text _ _ => text
  | .inf => "inf".toList
  | .negInf => "-inf".toList
  | .minKey => "MinKey".toList
  | .maxKey => "MaxKey".toList
  | .quoted content => '"' :: (content ++ ['"'])

/-- The sentinels as such, and everything else as its text. -/
def value : Endpoint → BoundValue
  | .inf => .inf
  | .negInf => .negInf
  | .minKey => .minKey
  | .maxKey => .maxKey
  | e => .literal e.render

end Endpoint

def openBracket : Inclusivity → Char
  | .inclusive => '['
  | .exclusive => '('

def closeBracket : Inclusivity → Char
  | .inclusive => ']'
  | .exclusive => ')'

def renderRange (opening : Inclusivity) (lo hi : Endpoint) (closing : Inclusivity) : Str :=
  openBracket opening :: (lo.render ++ (", ".toList ++ hi.render) ++ [closeBracket closing])

/-! ### Endpoints -/

theorem isDigit_bounds {c : Char} (h : c.isDigit = true) : 48 ≤ c.toNat ∧ c.toNat ≤ 57 := by
  simp only [Char.isDigit, Bool.and_eq_true, decide_eq_true_eq, UInt32.le_iff_toNat_le] at h
  exact h

theorem isNumberChar_not_whitespace {c : Char} (h : isNumberChar c = true) :
    isWhitespace c = false := by
  simp only [isNumberChar, Bool.or_eq_true, decide_eq_true_eq] at h
  rcases h with hdigit | hmem
  · have hbounds := isDigit_bounds hdigit
    simp only [isWhitespace, Bool.or_eq_false_iff, Bool.and_eq_false_iff, decide_eq_false_iff_not]
    omega
  · have hall : (['+', '-', '.', 'e', 'E'].all fun c => !isWhitespace c) = true := by decide
    simpa using List.all_eq_true.mp hall c hmem

/- No number and no sentinel has a comma in it. -/
theorem isNumberChar_ne_comma {c : Char} (h : isNumberChar c = true) : c ≠ ',' := by
  intro heq
  rw [heq] at h
  exact absurd h (by decide)

theorem Endpoint.trimmed (e : Endpoint) : Trimmed e.render := by
  cases e with
  | number text nonempty digits =>
    refine ⟨?_, ?_⟩
    · intro c hc
      exact isNumberChar_not_whitespace (digits c (List.mem_of_mem_head? hc))
    · intro c hc
      exact isNumberChar_not_whitespace (digits c (List.mem_of_mem_getLast? hc))
  | inf => exact trimmed_of_ends (a := 'i') (b := 'f') rfl rfl rfl rfl
  | negInf => exact trimmed_of_ends (a := '-') (b := 'f') rfl rfl rfl rfl
  | minKey => exact trimmed_of_ends (a := 'M') (b := 'y') rfl rfl rfl rfl
  | maxKey => exact trimmed_of_ends (a := 'M') (b := 'y') rfl rfl rfl rfl
  | quoted content =>
    have hlast : ('"' :: (content ++ ['"'])).getLast? = some '"' := by
      rw [← List.cons_append, List.getLast?_concat]
    exact trimmed_of_ends rfl hlast rfl rfl

theorem BoundValue.parse_literal {s : Str} (h : Trimmed s) (hinf : s ≠ "inf".toList)
    (hneg : s ≠ "-inf".toList) (hmin : s ≠ "MinKey".toList) (hmax : s ≠ "MaxKey".toList) :
    BoundValue.parse s = .literal s := by
  rw [BoundValue.parse, (trim_eq_self_iff s).mpr h, if_neg hinf, if_neg hneg, if_neg hmin, if_neg hmax]

theorem Endpoint.parse_render (e : Endpoint) : BoundValue.parse e.render = e.value := by
  cases he : e with
  | number text nonempty digits =>
    have hne : ∀ sentinel : Str, (sentinel.any fun c => !isNumberChar c) = true → text ≠ sentinel := by
      intro sentinel hletter heq
      obtain ⟨c, hc, hnot⟩ := List.any_eq_true.mp hletter
      rw [digits c (heq ▸ hc)] at hnot
      cases hnot
    exact BoundValue.parse_literal (he ▸ e.trimmed) (hne _ (by decide)) (hne _ (by decide))
      (hne _ (by decide)) (hne _ (by decide))
  | inf => decide
  | negInf => decide
  | minKey => decide
  | maxKey => decide
  | quoted content =>
    have hne : ∀ sentinel : Str, sentinel.head? ≠ some '"' → '"' :: (content ++ ['"']) ≠ sentinel := by
      intro sentinel hfirst heq
      rw [← heq] at hfirst
      exact hfirst rfl
    exact BoundValue.parse_literal (he ▸ e.trimmed) (hne _ (by decide)) (hne _ (by decide))
      (hne _ (by decide)) (hne _ (by decide))

/-! ### Ranges -/

/- Only a string can have a comma and a space in it. -/
theorem Endpoint.value_of_separator {e : Endpoint} (h : ", ".toList <:+: e.render) :
    e.value = .literal e.render := by
  have hcomma : ',' ∈ e.render := h.subset (by simp)
  cases e with
  | number text nonempty digits => exact absurd rfl (isNumberChar_ne_comma (digits ',' hcomma))
  | inf => exact absurd hcomma (by decide)
  | negInf => exact absurd hcomma (by decide)
  | minKey => exact absurd hcomma (by decide)
  | maxKey => exact absurd hcomma (by decide)
  | quoted content => rfl

theorem BoundValue.parse_ne_literal {s t : Str} (h : s.length < t.length) :
    BoundValue.parse s ≠ .literal t := by
  intro heq
  have hlen := length_trim_le s
  unfold BoundValue.parse at heq
  simp only at heq
  split_ifs at heq
  rw [BoundValue.literal.injEq] at heq
  rw [heq] at hlen
  omega

theorem IndexBoundRange.parse_brackets (opening closing : Inclusivity) (body : Str) :
    IndexBoundRange.parse (openBracket opening :: (body ++ [closeBracket closing])) =
      match (splitOnceStr ", ".toList body).or (splitOnce ',' body) with
      | none => .error (.noSeparator (openBracket opening :: (body ++ [closeBracket closing])))
      | some (lo, hi) => .ok ⟨.parse lo, opening, .parse hi, closing⟩ := by
  have hlast : (openBracket opening :: (body ++ [closeBracket closing])).getLast?
      = some (closeBracket closing) := by
    rw [← List.cons_append, List.getLast?_concat]
  have htrim : Trimmed (openBracket opening :: (body ++ [closeBracket closing])) := by
    apply trimmed_of_ends rfl hlast
    · cases opening <;> decide
    · cases closing <;> decide
  rw [IndexBoundRange.parse, (trim_eq_self_iff _).mpr htrim, hlast, List.head?_cons, List.tail_cons,
    List.dropLast_concat]
  cases opening <;> cases closing <;> rfl

/-- A range comes back exactly if its lower end has no comma followed by a space in it. -/
theorem IndexBoundRange.parse_renderRange_iff (opening closing : Inclusivity) (lo hi : Endpoint) :
    IndexBoundRange.parse (renderRange opening lo hi closing)
        = .ok ⟨lo.value, opening, hi.value, closing⟩ ↔ ¬ ", ".toList <:+: lo.render := by
  rw [renderRange, IndexBoundRange.parse_brackets]
  constructor
  · intro h hin
    obtain ⟨a, b, hsplit, hlo⟩ := splitOnceStr_of_infix (", ".toList ++ hi.render) hin
    have hlen : a.length < lo.render.length := by
      have hsep : ", ".toList.length = 2 := rfl
      rw [hlo, List.length_append, List.length_append, hsep]
      omega
    rw [hsplit, Option.some_or] at h
    simp only [Except.ok.injEq, IndexBoundRange.mk.injEq] at h
    rw [Endpoint.value_of_separator hin] at h
    exact BoundValue.parse_ne_literal hlen h.1
  · intro hno
    have hfirst : ¬ ", ".toList <:+: lo.render ++ ", ".toList.dropLast := by
      intro hin
      rcases List.infix_concat_iff.mp hin with hsuffix | hin
      · exact not_suffix_concat (d := ' ') rfl (by decide) hsuffix
      · exact hno hin
    rw [splitOnceStr_append hi.render hfirst, Option.some_or]
    simp only [lo.parse_render, hi.parse_render]

/-- `["a, b", 1]` is cut inside the string. -/
theorem quoted_lower_cut :
    IndexBoundRange.parse (renderRange .inclusive (.quoted "a, b".toList)
        (.number ['1'] (by decide) (by simp [isNumberChar])) .inclusive)
      = .ok ⟨.literal "\"a".toList, .inclusive, .literal "b\", 1".toList, .inclusive⟩ ∧
    IndexBoundRange.parse (renderRange .inclusive (.quoted "a, b".toList)
        (.number ['1'] (by decide) (by simp [isNumberChar])) .inclusive)
      ≠ .ok ⟨(Endpoint.quoted "a, b".toList).value, .inclusive, .literal ['1'], .inclusive⟩ := by
  decide

end MongodProxy.Explain
