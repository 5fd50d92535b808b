import MongodProxy.Uri.Accepted

/-!
# Reading back a connection string (uri.rs)

A connection string is put together from its parts and parsed again. User info and option
values may contain the delimiters of the other parts; each cut still falls where the part
ends, because of the order in which the parser makes them and the side it starts from.
-/

namespace MongodProxy
open Str

/- The entry of a host in the list, with the port in decimal. -/
def HostSpec.text (h : HostSpec) : Str :=
  match h.port with
  | none => h.host
  | some port => h.host ++ ':' :: Nat.toDigits 10 port.toNat

namespace Uri

/-! ### The parts -/

def userText : Option Str → Str
  | some u => u ++ ['@']
  | none => []

def databaseText : Option Str → Str
  | some d => '/' :: d
  | none => []

/- An option is its name and its value. -/
def optionText (o : Str × Str) : Str := o.1 ++ '=' :: o.2

def isTls (o : Str × Str) : Bool :=
  o.1.toAsciiLowercase = "tls".toList ∨ o.1.toAsciiLowercase = "ssl".toList

def isService (o : Str × Str) : Bool := o.1.eqIgnoreAsciiCase "srvServiceName".toList

def isTrue (o : Str × Str) : Bool := o.2.toAsciiLowercase = "true".toList

def isFalse (o : Str × Str) : Bool := o.2.toAsciiLowercase = "false".toList

/-- What a connection string is put together from. `options` is `none` if there is no `?`. -/
structure Parts where
  scheme : Scheme
  userinfo : Option Str
  hosts : List HostSpec
  database : Option Str
  options : Option (List (Str × Str))
  userinfo_ok : ∀ u ∈ userinfo, '?' ∉ u
  hosts_ne_nil : hosts ≠ []
  hosts_ok : ∀ h ∈ hosts, h.host ≠ [] ∧ h.host.head? ≠ some '[' ∧
    ∀ c ∈ [',', '/', '?', '@', ':'], c ∉ h.host
  srv_host : scheme = .mongodbSrv → ∃ host, hosts = [⟨host, none⟩]
  database_ok : ∀ d ∈ database, '?' ∉ d ∧ '@' ∉ d
  options_ok : ∀ os ∈ options, ∀ o ∈ os, '&' ∉ o.1 ∧ '=' ∉ o.1 ∧ '&' ∉ o.2
  tls_ok : ∀ os ∈ options, os.countP isTls ≤ 1 ∧ ∀ o ∈ os, isTls o → isTrue o ∨ isFalse o
  service_ok : ∀ os ∈ options, os.countP isService ≤ 1 ∧
    ∀ o ∈ os, isService o → o.2 ≠ [] ∧ scheme = .mongodbSrv

namespace Parts
variable (p : Parts)

def hostlist : Str := [','].intercalate (p.hosts.map HostSpec.text)

def query : Option Str := p.options.map fun os => ['&'].intercalate (os.map optionText)

def beforeQuery : Str := userText p.userinfo ++ (p.hostlist ++ databaseText p.database)

/-- The connection string. -/
def text : Str := p.scheme.text ++ ("://".toList ++ (p.beforeQuery ++ queryPart p.query))

/- The value of the one `tls` or `ssl` option. -/
def tls : Option Bool := ((p.options.getD []).find? isTls).map isTrue

def srvServiceName : Option Str := ((p.options.getD []).find? isService).map Prod.snd

/-- What the parser should find in it. -/
def parsed : ParsedConnectionUri where
  scheme := p.scheme
  hosts := p.hosts
  tls := p.tls
  srvServiceName := p.srvServiceName

end Parts

/-! ### Hosts -/

theorem decimal_toDigits (n : ℕ) : Decimal (Nat.toDigits 10 n) n := by
  refine ⟨Nat.toDigits_ne_nil, ?_, Nat.ofDigitChars_ten_toDigits⟩
  rw [List.all_eq_true]
  intro c hc
  exact Nat.isDigit_of_mem_toDigits (by decide) (by decide) hc

theorem not_mem_hostText {h : HostSpec} {c : Char} (hhost : c ∉ h.host) (hcolon : c ≠ ':')
    (hdigit : c.isDigit = false) : c ∉ h.text := by
  unfold HostSpec.text
  split
  next => exact hhost
  next port _ =>
    rw [List.mem_append, List.mem_cons, not_or, not_or]
    exact ⟨hhost, hcolon, (decimal_toDigits port.toNat).not_mem hdigit⟩

theorem parseHostPort_text {h : HostSpec} (hne : h.host ≠ []) (hbracket : h.host.head? ≠ some '[')
    (hcolon : ':' ∉ h.host) : parseHostPort h.text = .ok (h.host, h.port) := by
  apply IsHostEntry.accepted
  refine ⟨hne, hcolon, hbracket, ?_⟩
  unfold HostSpec.text
  cases hport : h.port with
  | none => exact Or.inl ⟨rfl, rfl⟩
  | some port => exact Or.inr ⟨_, port, rfl, rfl, decimal_toDigits port.toNat⟩

namespace Parts
variable (p : Parts)

theorem not_mem_hostlist {c : Char} (hc : c ∈ ['/', '?', '@']) : c ∉ p.hostlist := by
  have hother : c ≠ ',' ∧ c ≠ ':' ∧ c.isDigit = false := by
    simp only [List.mem_cons, List.not_mem_nil, or_false] at hc
    rcases hc with rfl | rfl | rfl
    · decide
    · decide
    · decide
  have hforbidden : c ∈ [',', '/', '?', '@', ':'] := by
    simp only [List.mem_cons] at hc ⊢
    tauto
  apply not_mem_intercalate hother.1
  intro part hpart
  obtain ⟨h, hmem, rfl⟩ := List.mem_map.mp hpart
  exact not_mem_hostText ((p.hosts_ok h hmem).2.2 c hforbidden) hother.2.1 hother.2.2

theorem hostlist_splitOn : p.hostlist.splitOn ',' = p.hosts.map HostSpec.text := by
  apply List.splitOn_intercalate
  · intro part hpart
    obtain ⟨h, hmem, rfl⟩ := List.mem_map.mp hpart
    exact not_mem_hostText ((p.hosts_ok h hmem).2.2 ',' (by decide)) (by decide) (by decide)
  · simpa using p.hosts_ne_nil

theorem parseHosts_hostlist : parseHosts p.scheme (p.hostlist.splitOn ',') = .ok p.hosts := by
  rw [hostlist_splitOn, parseHosts_eq_ok_iff, List.forall₂_map_left_iff, List.forall₂_same]
  intro h hmem
  obtain ⟨hne, hbracket, hfree⟩ := p.hosts_ok h hmem
  refine ⟨parseHostPort_text hne hbracket (hfree ':' (by decide)), ?_⟩
  intro hsrv
  obtain ⟨host, hhosts⟩ := p.srv_host hsrv
  rw [hhosts, List.mem_singleton] at hmem
  rw [hmem]

end Parts

/-! ### Options -/

theorem splitOnce_optionText {o : Str × Str} (h : '=' ∉ o.1) :
    splitOnce '=' (optionText o) = some (o.1, o.2) := splitOnce_append o.2 h

/- Without an option there is one empty pair, which both loops skip. -/
theorem options_splitOn {os : List (Str × Str)} (h : ∀ o ∈ os, '&' ∉ o.1 ∧ '&' ∉ o.2) :
    (['&'].intercalate (os.map optionText)).splitOn '&'
      = if os = [] then [[]] else os.map optionText := by
  split_ifs with hnil
  · rw [hnil]
    rfl
  · apply List.splitOn_intercalate
    · intro part hpart
      obtain ⟨o, hmem, rfl⟩ := List.mem_map.mp hpart
      rw [optionText, List.mem_append, List.mem_cons, not_or, not_or]
      exact ⟨(h o hmem).1, by decide, (h o hmem).2⟩
    · simpa using hnil

/- Once the counted one is found there is no other. -/
theorem countP_eq_zero_of_cons {q : Str × Str → Bool} {o : Str × Str} {os : List (Str × Str)}
    (h : (o :: os).countP q ≤ 1) (ho : q o = true) : ∀ o' ∈ os, q o' = false := by
  rw [List.countP_cons_of_pos ho] at h
  have hzero : os.countP q = 0 := by omega
  intro o' ho'
  simpa using List.countP_eq_zero.mp hzero o' ho'

theorem countP_le_of_cons {q : Str × Str → Bool} {o : Str × Str} {os : List (Str × Str)}
    (h : (o :: os).countP q ≤ 1) : os.countP q ≤ 1 :=
  (List.sublist_cons_self o os).countP_le.trans h

theorem names_of_not_isTls {o : Str × Str} (h : isTls o = false) :
    o.1.toAsciiLowercase ≠ "tls".toList ∧ o.1.toAsciiLowercase ≠ "ssl".toList :=
  not_or.mp (of_decide_eq_false h)

/- The loop passes over what is not a TLS option. -/
theorem tlsLoop_other {os : List (Str × Str)} (hsep : ∀ o ∈ os, '=' ∉ o.1)
    (hother : ∀ o ∈ os, isTls o = false) (tls ssl : Option Bool) :
    tlsLoop (os.map optionText) tls ssl = .ok (tls, ssl) := by
  induction os with
  | nil => rfl
  | cons o os ih =>
    rw [List.forall_mem_cons] at hsep hother
    obtain ⟨htls, hssl⟩ := names_of_not_isTls hother.1
    rw [List.map_cons, tlsLoop, splitOnce_optionText hsep.1]
    simp only [if_neg htls, if_neg hssl]
    exact ih hsep.2 hother.2

theorem parseBool_option (key : Str) {o : Str × Str} (h : isTrue o ∨ isFalse o) :
    parseBool key o.2 = .ok (isTrue o) := by
  by_cases htrue : isTrue o = true
  · rw [parseBool, if_pos (of_decide_eq_true htrue), htrue]
  · have hfalse : isFalse o = true := h.resolve_left htrue
    rw [Bool.not_eq_true] at htrue
    rw [parseBool, if_neg (of_decide_eq_false htrue), if_pos (of_decide_eq_true hfalse), htrue]

/- The one TLS option ends in the variable of its own name; the other one stays empty. -/
theorem tlsLoop_options {os : List (Str × Str)} (hsep : ∀ o ∈ os, '=' ∉ o.1)
    (hone : os.countP isTls ≤ 1) (hvalue : ∀ o ∈ os, isTls o → isTrue o ∨ isFalse o) :
    ∃ tls ssl, tlsLoop (os.map optionText) none none = .ok (tls, ssl) ∧
      (tls = none ∨ ssl = none) ∧ tls.or ssl = (os.find? isTls).map isTrue := by
  induction os with
  | nil => exact ⟨none, none, rfl, Or.inl rfl, rfl⟩
  | cons o os ih =>
    rw [List.forall_mem_cons] at hsep hvalue
    rw [List.map_cons, tlsLoop, splitOnce_optionText hsep.1]
    by_cases htls : isTls o = true
    · have hrest := countP_eq_zero_of_cons hone htls
      have hbool := fun key => parseBool_option key (hvalue.1 htls)
      rw [List.find?_cons_of_pos htls]
      by_cases hname : o.1.toAsciiLowercase = "tls".toList
      · refine ⟨some (isTrue o), none, ?_, Or.inr rfl, rfl⟩
        simp only [if_pos hname, hbool]
        exact tlsLoop_other hsep.2 hrest _ _
      · have hssl : o.1.toAsciiLowercase = "ssl".toList := (of_decide_eq_true htls).resolve_left hname
        refine ⟨none, some (isTrue o), ?_, Or.inl rfl, rfl⟩
        simp only [if_neg hname, if_pos hssl, hbool]
        exact tlsLoop_other hsep.2 hrest _ _
    · rw [List.find?_cons_of_neg htls]
      rw [Bool.not_eq_true] at htls
      obtain ⟨hname, hssl⟩ := names_of_not_isTls htls
      simp only [if_neg hname, if_neg hssl]
      exact ih hsep.2 (countP_le_of_cons hone) hvalue.2

theorem parseTlsOption_of_loop {query : Str} {tls ssl : Option Bool}
    (h : tlsLoop (query.splitOn '&') none none = .ok (tls, ssl)) (hone : tls = none ∨ ssl = none) :
    parseTlsOption (some query) = .ok (tls.or ssl) := by
  rw [parseTlsOption, h]
  rcases hone with rfl | rfl
  · cases ssl with
    | none => rfl
    | some s => rfl
  · cases tls with
    | none => rfl
    | some t => rfl

theorem serviceStep_optionText (value : Option Str) {o : Str × Str} (hsep : '=' ∉ o.1) :
    serviceStep value (optionText o) = if isService o ∧ o.2 ≠ [] then some o.2 else value := by
  rw [serviceStep, splitOnce_optionText hsep]
  rfl

theorem service_other {os : List (Str × Str)} (hsep : ∀ o ∈ os, '=' ∉ o.1)
    (hother : ∀ o ∈ os, isService o = false) (value : Option Str) :
    (os.map optionText).foldl serviceStep value = value := by
  induction os with
  | nil => rfl
  | cons o os ih =>
    rw [List.forall_mem_cons] at hsep hother
    have hnot : ¬ (isService o = true ∧ o.2 ≠ []) := by
      intro hboth
      rw [hother.1] at hboth
      cases hboth.1
    rw [List.map_cons, List.foldl_cons, serviceStep_optionText value hsep.1, if_neg hnot]
    exact ih hsep.2 hother.2

theorem service_options {os : List (Str × Str)} (hsep : ∀ o ∈ os, '=' ∉ o.1)
    (hone : os.countP isService ≤ 1) (hvalue : ∀ o ∈ os, isService o → o.2 ≠ []) :
    (os.map optionText).foldl serviceStep none = (os.find? isService).map Prod.snd := by
  induction os with
  | nil => rfl
  | cons o os ih =>
    rw [List.forall_mem_cons] at hsep hvalue
    rw [List.map_cons, List.foldl_cons, serviceStep_optionText none hsep.1]
    by_cases hname : isService o = true
    · have hrest := countP_eq_zero_of_cons hone hname
      rw [if_pos ⟨hname, hvalue.1 hname⟩, List.find?_cons_of_pos hname,
        service_other hsep.2 hrest, Option.map_some]
    · rw [if_neg fun hboth => hname hboth.1, List.find?_cons_of_neg hname]
      exact ih hsep.2 (countP_le_of_cons hone) hvalue.2

namespace Parts
variable (p : Parts)

theorem parseTlsOption_query : parseTlsOption p.query = .ok p.tls := by
  unfold Parts.query Parts.tls
  cases hos : p.options with
  | none => rfl
  | some os =>
    have hok := p.options_ok os hos
    have htls := p.tls_ok os hos
    obtain ⟨tls, ssl, hloop, hnone, hor⟩ :=
      tlsLoop_options (fun o ho => (hok o ho).2.1) htls.1 htls.2
    rw [Option.map_some, Option.getD_some, ← hor]
    refine parseTlsOption_of_loop ?_ hnone
    rw [options_splitOn fun o ho => ⟨(hok o ho).1, (hok o ho).2.2⟩]
    split_ifs with hnil
    · rw [hnil] at hloop
      exact hloop
    · exact hloop

theorem parseSrvServiceName_query : parseSrvServiceName p.query = p.srvServiceName := by
  unfold Parts.query Parts.srvServiceName
  cases hos : p.options with
  | none => rfl
  | some os =>
    have hok := p.options_ok os hos
    have hservice := p.service_ok os hos
    have hfold := service_options (fun o ho => (hok o ho).2.1) hservice.1
      fun o ho hname => (hservice.2 o ho hname).1
    rw [Option.map_some, Option.getD_some, ← hfold, parseSrvServiceName_some,
      options_splitOn fun o ho => ⟨(hok o ho).1, (hok o ho).2.2⟩]
    split_ifs with hnil
    · rw [hnil]
      rfl
    · rfl

theorem srvServiceName_of_mongodb (h : p.scheme = .mongodb) : p.srvServiceName = none := by
  unfold Parts.srvServiceName
  cases hos : p.options with
  | none => rfl
  | some os =>
    have hnone : os.find? isService = none := by
      rw [List.find?_eq_none]
      intro o ho hname
      have hsrv := ((p.service_ok os hos).2 o ho hname).2
      rw [h] at hsrv
      cases hsrv
    rw [Option.getD_some, hnone, Option.map_none]

/-! ### The whole string -/

theorem not_mem_databaseText {c : Char} (hc : c = '?' ∨ c = '@') : c ∉ databaseText p.database := by
  cases hd : p.database with
  | none => exact List.not_mem_nil
  | some d =>
    have hfree := p.database_ok d hd
    rw [databaseText, List.mem_cons, not_or]
    rcases hc with rfl | rfl
    · exact ⟨by decide, hfree.1⟩
    · exact ⟨by decide, hfree.2⟩

theorem question_not_mem_beforeQuery : '?' ∉ p.beforeQuery := by
  rw [beforeQuery, List.mem_append, List.mem_append, not_or, not_or]
  refine ⟨?_, p.not_mem_hostlist (by decide), p.not_mem_databaseText (Or.inl rfl)⟩
  cases hu : p.userinfo with
  | none => exact List.not_mem_nil
  | some u =>
    rw [userText, List.mem_append, not_or]
    exact ⟨p.userinfo_ok u hu, by decide⟩

/- The user info ends at the last `@`, whatever is in it, and the hosts at the first `/` after it. -/
theorem stripDatabase_beforeQuery : stripDatabase (stripUserInfo p.beforeQuery) = p.hostlist := by
  have hat : '@' ∉ p.hostlist ++ databaseText p.database := by
    rw [List.mem_append, not_or]
    exact ⟨p.not_mem_hostlist (by decide), p.not_mem_databaseText (Or.inr rfl)⟩
  have huser : stripUserInfo p.beforeQuery = p.hostlist ++ databaseText p.database := by
    unfold beforeQuery
    cases p.userinfo with
    | none => exact stripUserInfo_of_no_at hat
    | some u =>
      rw [userText, List.append_assoc]
      exact stripUserInfo_append u hat
  have hslash := p.not_mem_hostlist (c := '/') (by decide)
  rw [huser, stripDatabase]
  cases p.database with
  | none => rw [databaseText, List.append_nil, splitOnce_of_not_mem hslash]
  | some d => rw [databaseText, splitOnce_append d hslash]

theorem splitOnceStr_text :
    splitOnceStr "://".toList p.text = some (p.scheme.text, p.beforeQuery ++ queryPart p.query) := by
  apply splitOnceStr_append
  cases p.scheme with
  | mongodb => decide
  | mongodbSrv => decide

theorem hostlist_ne_nil : p.hostlist ≠ [] := by
  intro hnil
  have hsplit := p.hostlist_splitOn
  rw [hnil] at hsplit
  -- the only entry of an empty list is the empty one
  have hmem : [] ∈ p.hosts.map HostSpec.text := by
    rw [← hsplit]
    decide
  obtain ⟨h, hin, htext⟩ := List.mem_map.mp hmem
  obtain ⟨hne, hbracket, hfree⟩ := p.hosts_ok h hin
  have hread := parseHostPort_text hne hbracket (hfree ':' (by decide))
  rw [htext] at hread
  cases hread

/-- A connection string is read back as the parts it was put together from. -/
theorem parse_text : parse p.text = .ok p.parsed := by
  rw [parse_eq_ok_iff]
  refine ⟨_, p.splitOnceStr_text, ?_⟩
  have hquery := splitQuery_append p.question_not_mem_beforeQuery p.query
  have hhosts : hostText (p.beforeQuery ++ queryPart p.query) = p.hostlist := by
    rw [hostText, hquery]
    exact p.stripDatabase_beforeQuery
  rw [parseParts_eq_ok_iff, hhosts, hquery]
  refine ⟨rfl, p.hostlist_ne_nil, ?_, p.parseHosts_hostlist, p.parseTlsOption_query,
    p.parseSrvServiceName_query, p.srvServiceName_of_mongodb⟩
  intro hsrv
  obtain ⟨host, hone⟩ := p.srv_host hsrv
  rw [hostlist_splitOn, hone]
  rfl

end Parts

/- The delimiters of one part inside another one. -/
def oddParts : Parts where
  scheme := .mongodbSrv
  userinfo := some "a@b/c:d".toList
  hosts := [⟨"h.x".toList, none⟩]
  database := some "db,e/f".toList
  options := some [("q".toList, "a=b@c/?".toList), ("TLS".toList, "False".toList),
    ("srvservicename".toList, "m".toList)]
  userinfo_ok := by simp
  hosts_ne_nil := by simp
  hosts_ok := by simp
  srv_host := fun _ => ⟨_, rfl⟩
  database_ok := by simp
  options_ok := by
    intro os hos
    cases hos
    decide
  tls_ok := by
    intro os hos
    cases hos
    decide
  service_ok := by
    intro os hos
    cases hos
    decide

theorem oddParts_read :
    oddParts.text
        = "mongodb+srv://a@b/c:d@h.x/db,e/f?q=a=b@c/?&TLS=False&srvservicename=m".toList ∧
      parse oddParts.text = .ok
        { scheme := .mongodbSrv, hosts := [⟨"h.x".toList, none⟩], tls := some false,
          srvServiceName := some "m".toList } :=
  ⟨by decide +kernel, oddParts.parse_text⟩

end Uri
end MongodProxy
