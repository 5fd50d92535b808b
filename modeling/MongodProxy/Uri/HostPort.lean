import MongodProxy.Uri

/-!
# Host entries (uri.rs, `parse_host_port`)

An entry is cut at its last colon and the port is read by `str::parse::<u16>`, which
allows a plus sign. So what stands before the port may itself have colons in it.
-/

namespace MongodProxy
namespace Uri
open Str

/-- Decimal digits, at least one. -/
def Decimal (digits : Str) (value : ℕ) : Prop :=
  digits ≠ [] ∧ digits.all Char.isDigit = true ∧ Nat.ofDigitChars 10 digits 0 = value

/- The plus sign that `parse::<u16>` allows. -/
def unsigned : Str → Str
  | '+' :: rest => rest
  | s => s

theorem unsigned_of_ne_plus {s : Str} (h : s.head? ≠ some '+') : unsigned s = s := by
  unfold unsigned
  split
  next => exact absurd rfl h
  next => rfl

theorem parseU16_eq (s : Str) :
    parseU16 s =
      if unsigned s ≠ [] ∧ (unsigned s).all Char.isDigit = true ∧
        Nat.ofDigitChars 10 (unsigned s) 0 ≤ 65535
      then some (UInt16.ofNat (Nat.ofDigitChars 10 (unsigned s) 0)) else none := by
  rw [Nat.ofDigitChars_eq_foldl]
  unfold parseU16
  by_cases hplus : s.head? = some '+'
  · obtain ⟨rest, rfl⟩ := List.head?_eq_some_iff.mp hplus
    rfl
  · rw [unsigned_of_ne_plus hplus]
    split
    next => exact absurd rfl hplus
    next => rfl

theorem parseU16_eq_some_iff (s : Str) (port : UInt16) :
    parseU16 s = some port ↔ Decimal (unsigned s) port.toNat := by
  rw [parseU16_eq, Decimal]
  generalize Nat.ofDigitChars 10 (unsigned s) 0 = value
  have hlt := port.toNat_lt
  split_ifs with h
  · have hvalue : (UInt16.ofNat value).toNat = value := 
      UInt16.toNat_ofNat_of_lt' (Nat.lt_succ_of_le h.2.2)
    rw [Option.some.injEq, ← UInt16.toNat_inj, hvalue]
    simp only [h.1, h.2.1, ne_eq, not_false_eq_true, true_and]
  · constructor
    · intro hnone
      cases hnone
    · intro hdec
      exact absurd ⟨hdec.1, hdec.2.1, by omega⟩ h

theorem Decimal.not_mem {digits : Str} {value : ℕ} (h : Decimal digits value) {c : Char}
    (hc : c.isDigit = false) : c ∉ digits := by
  intro hin
  rw [List.all_eq_true.mp h.2.1 c hin] at hc
  cases hc

theorem Decimal.unsigned_eq {digits : Str} {value : ℕ} (h : Decimal digits value) :
    unsigned digits = digits := by
  apply unsigned_of_ne_plus
  intro hplus
  exact h.not_mem rfl (List.mem_of_mem_head? hplus)

/-! ### What is accepted -/

theorem parseHostPort_of_no_colon {s : Str} (h : ':' ∉ s) :
    parseHostPort s =
      if s = [] then .error .missingHost
      else if s.head? = some '[' then .error (.invalidHost s) else .ok (s, none) := by
  rw [parseHostPort, rsplitOnce_of_not_mem h]

theorem parseHostPort_of_last_colon (host : Str) {text : Str} (h : ':' ∉ text) :
    parseHostPort (host ++ ':' :: text) =
      if host.head? = some '[' then .error (.invalidHost (host ++ ':' :: text))
      else if host = [] then .error .missingHost
      else match parseU16 text with
        | some port => .ok (host, some port)
        | none => .error (.invalidPort text) := by
  have hne : host ++ ':' :: text ≠ [] := by simp
  have hhead : (host ++ ':' :: text).head? = some '[' ↔ host.head? = some '[' := by
    cases host with
    | nil => simp
    | cons c host => simp
  rw [parseHostPort, if_neg hne, rsplitOnce_append host h]
  by_cases hbracket : host.head? = some '['
  · rw [if_pos (hhead.mpr hbracket), if_pos hbracket]
  · rw [if_neg (fun hc => hbracket (hhead.mp hc)), if_neg hbracket]
    cases host with
    | nil => rfl
    | cons c host => rfl

theorem last_colon_unique {host text host' text' : Str} (h : ':' ∉ text) (h' : ':' ∉ text')
    (heq : host ++ ':' :: text = host' ++ ':' :: text') : host = host' ∧ text = text' := by
  have hsplit := rsplitOnce_append host h
  rw [heq, rsplitOnce_append host' h', Option.some.injEq, Prod.mk.injEq] at hsplit
  exact ⟨hsplit.1.symm, hsplit.2.symm⟩

/-- What the code accepts: the host is what stands before the last colon. -/
theorem parseHostPort_eq_ok_iff (s host : Str) (port : Option UInt16) :
    parseHostPort s = .ok (host, port) ↔
      host ≠ [] ∧ host.head? ≠ some '[' ∧
        ((port = none ∧ s = host ∧ ':' ∉ host) ∨
          ∃ text value, port = some value ∧ s = host ++ ':' :: text ∧ ':' ∉ text ∧
            Decimal (unsigned text) value.toNat) := by
  rcases cut_last ':' s with hno | ⟨h, text, rfl, htext⟩
  · rw [parseHostPort_of_no_colon hno]
    constructor
    · intro hok
      split_ifs at hok with hnil hbracket
      cases hok
      exact ⟨hnil, hbracket, Or.inl ⟨rfl, rfl, hno⟩⟩
    · intro hacc
      obtain ⟨hne, hbracket, ⟨rfl, rfl, -⟩ | ⟨text, value, -, rfl, -⟩⟩ := hacc
      · rw [if_neg hne, if_neg hbracket]
      · exact absurd (by simp) hno
  · rw [parseHostPort_of_last_colon h htext]
    constructor
    · intro hok
      split_ifs at hok with hbracket hnil
      cases hport : parseU16 text with
      | none =>
        rw [hport] at hok
        cases hok
      | some value =>
        rw [hport] at hok
        cases hok
        exact ⟨hnil, hbracket, Or.inr ⟨text, value, rfl, rfl, htext,
          (parseU16_eq_some_iff text value).mp hport⟩⟩
    · intro hacc
      obtain ⟨hne, hbracket, ⟨rfl, rfl, hfree⟩ | ⟨text', value, rfl, heq, htext', hdec⟩⟩ := hacc
      · exact absurd (by simp) hfree
      · obtain ⟨rfl, rfl⟩ := last_colon_unique htext htext' heq
        rw [if_neg hbracket, if_neg hne, (parseU16_eq_some_iff text value).mpr hdec]

/-! ### What should be accepted -/

/-- A host, and a colon with a port in decimal if there is one. -/
def IsHostEntry (s host : Str) (port : Option UInt16) : Prop :=
  host ≠ [] ∧ ':' ∉ host ∧ host.head? ≠ some '[' ∧
    ((port = none ∧ s = host) ∨
      ∃ digits value, port = some value ∧ s = host ++ ':' :: digits ∧ Decimal digits value.toNat)

/-- A port after a host that has a colon in it, or a port with a plus sign. -/
def Misread (s : Str) : Prop :=
  ∃ host sign digits value, s = host ++ ':' :: (sign ++ digits) ∧ (sign = [] ∨ sign = ['+']) ∧
    Decimal digits value ∧ value ≤ 65535 ∧ host ≠ [] ∧ host.head? ≠ some '[' ∧
    (':' ∈ host ∨ sign = ['+'])

theorem IsHostEntry.accepted {s host : Str} {port : Option UInt16} (h : IsHostEntry s host port) :
    parseHostPort s = .ok (host, port) := by
  obtain ⟨hne, hfree, hbracket, hport⟩ := h
  rw [parseHostPort_eq_ok_iff]
  refine ⟨hne, hbracket, ?_⟩
  rcases hport with ⟨rfl, rfl⟩ | ⟨digits, value, rfl, rfl, hdec⟩
  · exact Or.inl ⟨rfl, rfl, hfree⟩
  · refine Or.inr ⟨digits, value, rfl, rfl, hdec.not_mem rfl, ?_⟩
    rw [hdec.unsigned_eq]
    exact hdec

theorem unsigned_cases (text : Str) :
    text = unsigned text ∧ text.head? ≠ some '+' ∨ text = '+' :: unsigned text := by
  by_cases hplus : text.head? = some '+'
  · obtain ⟨rest, rfl⟩ := List.head?_eq_some_iff.mp hplus
    exact Or.inr rfl
  · exact Or.inl ⟨(unsigned_of_ne_plus hplus).symm, hplus⟩

section
variable {host sign digits : Str} {value : ℕ}

theorem colon_not_mem_signed (hsign : sign = [] ∨ sign = ['+']) (hdec : Decimal digits value) :
    ':' ∉ sign ++ digits := by
  rw [List.mem_append, not_or]
  refine ⟨?_, hdec.not_mem rfl⟩
  rcases hsign with rfl | rfl
  · simp
  · simp

theorem unsigned_signed (hsign : sign = [] ∨ sign = ['+']) (hdec : Decimal digits value) :
    unsigned (sign ++ digits) = digits := by
  rcases hsign with rfl | rfl
  · exact hdec.unsigned_eq
  · rfl

/- The host before the last colon may have colons in it, and the port a sign. -/
theorem parseHostPort_signed (hsign : sign = [] ∨ sign = ['+']) (hdec : Decimal digits value)
    (hle : value ≤ 65535) (hne : host ≠ []) (hbracket : host.head? ≠ some '[') :
    parseHostPort (host ++ ':' :: (sign ++ digits)) = .ok (host, some (UInt16.ofNat value)) := by
  have hvalue : (UInt16.ofNat value).toNat = value :=
    UInt16.toNat_ofNat_of_lt' (Nat.lt_succ_of_le hle)
  rw [parseHostPort_eq_ok_iff]
  refine ⟨hne, hbracket, Or.inr ⟨sign ++ digits, _, rfl, rfl, colon_not_mem_signed hsign hdec, ?_⟩⟩
  rw [unsigned_signed hsign hdec, hvalue]
  exact hdec

end

/-- An entry is read as a host and a port exactly if it is one, unless a port follows a host with
a colon in it or a plus sign. -/
theorem hostEntry_exact_iff (s : Str) :
    (∀ host port, parseHostPort s = .ok (host, port) ↔ IsHostEntry s host port) ↔ ¬ Misread s := by
  constructor
  · intro hexact hmis
    obtain ⟨host, sign, digits, value, rfl, hsign, hdec, hle, hne, hbracket, hwrong⟩ := hmis
    have hfree := colon_not_mem_signed hsign hdec
    have hok := parseHostPort_signed hsign hdec hle hne hbracket
    obtain ⟨-, hcolon, -, ⟨hnone, -⟩ | ⟨digits', value', -, heq, hdec'⟩⟩ := (hexact _ _).mp hok
    · cases hnone
    · obtain ⟨-, htext⟩ := last_colon_unique hfree (hdec'.not_mem rfl) heq
      rcases hwrong with hin | rfl
      · exact hcolon hin
      · exact hdec'.not_mem (c := '+') rfl (by rw [← htext]; simp)
  · intro hgood host port
    refine ⟨?_, IsHostEntry.accepted⟩
    intro hok
    obtain ⟨hne, hbracket, ⟨rfl, rfl, hfree⟩ | ⟨text, value, rfl, rfl, htext, hdec⟩⟩ :=
      (parseHostPort_eq_ok_iff _ _ _).mp hok
    · exact ⟨hne, hfree, hbracket, Or.inl ⟨rfl, rfl⟩⟩
    · have hle : value.toNat ≤ 65535 := Nat.le_of_lt_succ value.toNat_lt
      rcases unsigned_cases text with ⟨hsame, hplus⟩ | hplus
      · refine ⟨hne, ?_, hbracket, Or.inr ⟨text, value, rfl, rfl, hsame ▸ hdec⟩⟩
        intro hin
        exact hgood ⟨host, [], text, value.toNat, rfl, Or.inl rfl, hsame ▸ hdec, hle, hne, hbracket,
          Or.inl hin⟩
      · refine absurd ⟨host, ['+'], unsigned text, value.toNat, ?_, Or.inr rfl, hdec, hle, hne,
          hbracket, Or.inr rfl⟩ hgood
        rw [List.singleton_append, ← hplus]

/-- A bare IPv6 address, an entry with two colons and a signed port are read as host and port. -/
theorem misread_entries :
    parseHostPort "::1".toList = .ok (":".toList, some 1) ∧
      parseHostPort "a:b:80".toList = .ok ("a:b".toList, some 80) ∧
      parseHostPort "a:+80".toList = .ok ("a".toList, some 80) ∧
      ¬ IsHostEntry "::1".toList ":".toList (some 1) := by
  refine ⟨by decide, by decide, by decide, ?_⟩
  intro h
  exact h.2.1 (by decide)

end Uri
end MongodProxy
