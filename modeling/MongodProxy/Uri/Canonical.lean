import MongodProxy.Uri.RoundTrip

/-!
# The canonical connection string (uri.rs)

What the parser keeps of a connection string can be written down again without user info and
database, with the options it understands in a fixed order and spelling. The text is read
back as what it was written from, for everything the parser can give; and what it can give
is said without the parser.
-/

namespace MongodProxy
open Str
namespace Uri

/-! ### What the parser can give -/

/-- A host may have a colon in it only if a port follows. -/
structure ValidHost (h : HostSpec) : Prop where
  ne_nil : h.host ≠ []
  bracket : h.host.head? ≠ some '['
  free : ∀ c ∈ [',', '/', '?', '@'], c ∉ h.host
  colon : h.port = none → ':' ∉ h.host

structure Valid (p : ParsedConnectionUri) : Prop where
  hosts_ne_nil : p.hosts ≠ []
  hosts_ok : ∀ h ∈ p.hosts, ValidHost h
  srv_host : p.scheme = .mongodbSrv → ∃ host, p.hosts = [⟨host, none⟩]
  service_ok : ∀ name ∈ p.srvServiceName, p.scheme = .mongodbSrv ∧ name ≠ [] ∧ '&' ∉ name

/- What the loop holds is a part of one of the pairs. -/
theorem serviceStep_free {value : Option Str} (h : ∀ v ∈ value, '&' ∉ v) {pair : Str}
    (hpair : '&' ∉ pair) : ∀ v ∈ serviceStep value pair, '&' ∉ v := by
  unfold serviceStep
  rcases cut_first '=' pair with hno | ⟨k, v, rfl, hk⟩
  · rw [splitOnce_of_not_mem hno]
    exact h
  · rw [splitOnce_append v hk]
    simp only
    split_ifs with hkey
    · intro w hw
      cases hw
      intro hin
      exact hpair (by simp [hin])
    · exact h

theorem foldl_serviceStep_free (pairs : List Str) (hpairs : ∀ pair ∈ pairs, '&' ∉ pair)
    {value : Option Str} (h : ∀ v ∈ value, '&' ∉ v) : ∀ v ∈ pairs.foldl serviceStep value, '&' ∉ v := by
  induction pairs generalizing value with
  | nil => exact h
  | cons pair pairs ih =>
    rw [List.forall_mem_cons] at hpairs
    rw [List.foldl_cons]
    exact ih hpairs.2 (serviceStep_free h hpairs.1)

theorem parseSrvServiceName_free {query : Option Str} {name : Str}
    (h : parseSrvServiceName query = some name) : '&' ∉ name := by
  cases query with
  | none => cases h
  | some query =>
    rw [parseSrvServiceName_some] at h
    exact foldl_serviceStep_free (query.splitOn '&') (fun pair hpair => (mem_splitOn hpair).1)
      (by simp) name h

theorem Valid.of_parse {uri : Str} {p : ParsedConnectionUri} (h : parse uri = .ok p) : Valid p := by
  have hacc := Accepted.of_parse h
  obtain ⟨afterScheme, -, hparts⟩ := (parse_eq_ok_iff _ _).mp h
  obtain ⟨-, -, -, hhosts, -, hservice, -⟩ := (parseParts_eq_ok_iff _ _ _).mp hparts
  refine ⟨hacc.hosts_ne_nil, ?_, hacc.srv_host, ?_⟩
  · intro host hmem
    obtain ⟨spec, -, hok, -⟩ := mem_of_parseHosts hhosts hmem
    obtain ⟨hne, hbracket, hport⟩ := (parseHostPort_eq_ok_iff _ _ _).mp hok
    obtain ⟨-, hcomma, hslash, hquestion, hat⟩ := hacc.host_ok host hmem
    refine ⟨hne, hbracket, ?_, ?_⟩
    · simp only [List.forall_mem_cons]
      exact ⟨hcomma, hslash, hquestion, hat, by simp⟩
    · intro hnone
      rcases hport with ⟨-, -, hfree⟩ | ⟨text, value, hsome, -⟩
      · exact hfree
      · rw [hnone] at hsome
        cases hsome
  · intro name hname
    obtain ⟨hsrv, hne⟩ := hacc.service_ok name hname
    exact ⟨hsrv, hne, parseSrvServiceName_free (hservice.trans hname)⟩

/-! ### The text -/

/- The options that count, under the names the documentation uses. -/
def tlsText (on : Bool) : Str × Str := ("tls".toList, if on then "true".toList else "false".toList)

def serviceText (name : Str) : Str × Str := ("srvServiceName".toList, name)

def canonicalOptions (p : ParsedConnectionUri) : List (Str × Str) :=
  (p.tls.map tlsText).toList ++ (p.srvServiceName.map serviceText).toList

def canonicalQuery (p : ParsedConnectionUri) : Option Str :=
  if canonicalOptions p = [] then none
  else some (['&'].intercalate ((canonicalOptions p).map optionText))

def canonicalHosts (p : ParsedConnectionUri) : Str := [','].intercalate (p.hosts.map HostSpec.text)

def canonical (p : ParsedConnectionUri) : Str :=
  p.scheme.text ++ ("://".toList ++ (canonicalHosts p ++ queryPart (canonicalQuery p)))

/-! ### It is read back -/

theorem ValidHost.read {h : HostSpec} (hv : ValidHost h) :
    parseHostPort h.text = .ok (h.host, h.port) := by
  rw [parseHostPort_eq_ok_iff]
  refine ⟨hv.ne_nil, hv.bracket, ?_⟩
  unfold HostSpec.text
  cases hport : h.port with
  | none => exact Or.inl ⟨rfl, rfl, hv.colon hport⟩
  | some port =>
    have hdec := decimal_toDigits port.toNat
    refine Or.inr ⟨_, port, rfl, rfl, hdec.not_mem (by decide), ?_⟩
    rw [hdec.unsigned_eq]
    exact hdec

section
variable {p : ParsedConnectionUri}

section
variable (hv : Valid p)
include hv

theorem not_mem_canonicalHosts {c : Char} (hc : c ∈ ['/', '?', '@']) : c ∉ canonicalHosts p := by
  have hother : c ≠ ',' ∧ c ≠ ':' ∧ c.isDigit = false := by
    simp only [List.mem_cons, List.not_mem_nil, or_false] at hc
    rcases hc with rfl | rfl | rfl
    · decide
    · decide
    · decide
  apply not_mem_intercalate hother.1
  intro part hpart
  obtain ⟨h, hmem, rfl⟩ := List.mem_map.mp hpart
  exact not_mem_hostText ((hv.hosts_ok h hmem).free c (List.mem_cons_of_mem _ hc)) hother.2.1
    hother.2.2

theorem canonicalHosts_splitOn : (canonicalHosts p).splitOn ',' = p.hosts.map HostSpec.text := by
  apply List.splitOn_intercalate
  · intro part hpart
    obtain ⟨h, hmem, rfl⟩ := List.mem_map.mp hpart
    exact not_mem_hostText ((hv.hosts_ok h hmem).free ',' (by decide)) (by decide) (by decide)
  · simpa using hv.hosts_ne_nil

theorem parseHosts_canonical :
    parseHosts p.scheme ((canonicalHosts p).splitOn ',') = .ok p.hosts := by
  rw [canonicalHosts_splitOn hv, parseHosts_eq_ok_iff, List.forall₂_map_left_iff, List.forall₂_same]
  intro h hmem
  refine ⟨(hv.hosts_ok h hmem).read, ?_⟩
  intro hsrv
  obtain ⟨host, hhosts⟩ := hv.srv_host hsrv
  rw [hhosts, List.mem_singleton] at hmem
  rw [hmem]

theorem canonicalHosts_ne_nil : canonicalHosts p ≠ [] := by
  intro hnil
  have hsplit := canonicalHosts_splitOn hv
  rw [hnil] at hsplit
  have hmem : [] ∈ p.hosts.map HostSpec.text := by
    rw [← hsplit]
    decide
  obtain ⟨h, hin, htext⟩ := List.mem_map.mp hmem
  have hread := (hv.hosts_ok h hin).read
  rw [htext] at hread
  cases hread

end

/-! ### The options are read back -/

theorem isTls_tlsText (on : Bool) :
    isTls (tlsText on) = true ∧ isService (tlsText on) = false ∧ isTrue (tlsText on) = on ∧
      (isTrue (tlsText on) ∨ isFalse (tlsText on)) ∧
      '&' ∉ (tlsText on).1 ∧ '=' ∉ (tlsText on).1 ∧ '&' ∉ (tlsText on).2 := by
  cases on <;> decide

theorem isTls_serviceText (name : Str) : isTls (serviceText name) = false := rfl

theorem isService_serviceText (name : Str) : isService (serviceText name) = true := rfl

theorem snd_serviceText (name : Str) : (serviceText name).2 = name := rfl

theorem canonicalOptions_free (hv : Valid p) :
    ∀ o ∈ canonicalOptions p, '&' ∉ o.1 ∧ '=' ∉ o.1 ∧ '&' ∉ o.2 := by
  intro o ho
  rw [canonicalOptions, List.mem_append, Option.mem_toList, Option.mem_toList,
    Option.map_eq_some_iff, Option.map_eq_some_iff] at ho
  rcases ho with ⟨on, -, rfl⟩ | ⟨name, hname, rfl⟩
  · exact (isTls_tlsText on).2.2.2.2
  · have hkey : '&' ∉ "srvServiceName".toList ∧ '=' ∉ "srvServiceName".toList := by decide
    exact ⟨hkey.1, hkey.2, (hv.service_ok name hname).2.2⟩

/- One option says what TLS is to be, if any. -/
theorem canonicalOptions_tls (p : ParsedConnectionUri) :
    (canonicalOptions p).countP isTls ≤ 1 ∧
      (∀ o ∈ canonicalOptions p, isTls o → isTrue o ∨ isFalse o) ∧
      ((canonicalOptions p).find? isTls).map isTrue = p.tls := by
  rw [canonicalOptions]
  cases p.tls with
  | none => cases p.srvServiceName <;> simp [isTls_serviceText]
  | some on =>
    obtain ⟨htls, -, hon, hvalue, -⟩ := isTls_tlsText on
    rw [hon] at hvalue
    cases p.srvServiceName <;> simp [isTls_serviceText, htls, hon, hvalue]

theorem canonicalOptions_service (hv : Valid p) :
    (canonicalOptions p).countP isService ≤ 1 ∧
      (∀ o ∈ canonicalOptions p, isService o → o.2 ≠ []) ∧
      ((canonicalOptions p).find? isService).map Prod.snd = p.srvServiceName := by
  have hservice := hv.service_ok
  rw [canonicalOptions]
  cases hname : p.srvServiceName with
  | none =>
    cases p.tls with
    | none => simp
    | some on => simp [(isTls_tlsText on).2.1]
  | some name =>
    have hne := (hservice name hname).2.1
    cases p.tls with
    | none => simp [isService_serviceText, snd_serviceText, hne]
    | some on => simp [isService_serviceText, snd_serviceText, (isTls_tlsText on).2.1, hne]

theorem parse_canonicalQuery (hv : Valid p) :
    parseTlsOption (canonicalQuery p) = .ok p.tls ∧
      parseSrvServiceName (canonicalQuery p) = p.srvServiceName := by
  have hfree := canonicalOptions_free hv
  obtain ⟨honeTls, hvalues, htls⟩ := canonicalOptions_tls p
  obtain ⟨honeService, hnames, hservice⟩ := canonicalOptions_service hv
  have hsplit := options_splitOn fun o ho => ⟨(hfree o ho).1, (hfree o ho).2.2⟩
  unfold canonicalQuery
  split_ifs with hnil
  · rw [hnil] at htls hservice
    rw [← htls, ← hservice]
    exact ⟨rfl, rfl⟩
  · rw [if_neg hnil] at hsplit
    obtain ⟨tls, ssl, hloop, hnone, hor⟩ :=
      tlsLoop_options (fun o ho => (hfree o ho).2.1) honeTls hvalues
    have hfold := service_options (fun o ho => (hfree o ho).2.1) honeService hnames
    constructor
    · rw [← htls, ← hor]
      refine parseTlsOption_of_loop ?_ hnone
      rw [hsplit]
      exact hloop
    · rw [← hservice, ← hfold, parseSrvServiceName_some, hsplit]

end

/-! ### The whole string -/

theorem parse_canonical {p : ParsedConnectionUri} (hv : Valid p) : parse (canonical p) = .ok p := by
  have hslash := not_mem_canonicalHosts hv (by decide : '/' ∈ ['/', '?', '@'])
  have hquestion := not_mem_canonicalHosts hv (by decide : '?' ∈ ['/', '?', '@'])
  have hat := not_mem_canonicalHosts hv (by decide : '@' ∈ ['/', '?', '@'])
  have hscheme : splitOnceStr "://".toList (canonical p)
      = some (p.scheme.text, canonicalHosts p ++ queryPart (canonicalQuery p)) := by
    apply splitOnceStr_append
    cases p.scheme with
    | mongodb => decide
    | mongodbSrv => decide
  have hquery := splitQuery_append hquestion (canonicalQuery p)
  have hhosts : hostText (canonicalHosts p ++ queryPart (canonicalQuery p)) = canonicalHosts p := by
    rw [hostText, hquery, stripUserInfo_of_no_at hat, stripDatabase, splitOnce_of_not_mem hslash]
  obtain ⟨htls, hservice⟩ := parse_canonicalQuery hv
  rw [parse_eq_ok_iff]
  refine ⟨_, hscheme, ?_⟩
  rw [parseParts_eq_ok_iff, hhosts, hquery]
  refine ⟨rfl, canonicalHosts_ne_nil hv, ?_, parseHosts_canonical hv, htls, hservice, ?_⟩
  · intro hsrv
    obtain ⟨host, hone⟩ := hv.srv_host hsrv
    rw [canonicalHosts_splitOn hv, hone]
    rfl
  · intro hplain
    cases hname : p.srvServiceName with
    | none => rfl
    | some name =>
      rw [(hv.service_ok name hname).1] at hplain
      cases hplain

/-- What the parser can give is exactly what is valid, and exactly what its canonical string is
read back as. -/
theorem parse_range_iff (p : ParsedConnectionUri) :
    ((∃ uri, parse uri = .ok p) ↔ Valid p) ∧ (Valid p ↔ parse (canonical p) = .ok p) := by
  refine ⟨⟨?_, fun hv => ⟨_, parse_canonical hv⟩⟩, parse_canonical, Valid.of_parse⟩
  rintro ⟨uri, h⟩
  exact Valid.of_parse h

end Uri
end MongodProxy
