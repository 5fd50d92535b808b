import MongodProxy.Lib.Outcome
import MongodProxy.Lib.Str

/-!
# Connection strings (uri.rs)

The parser takes one string apart in a fixed order: scheme, query, user info, database,
hosts. The user info ends at the last `@` before the query, which is looked for before
the database is cut off.
-/

namespace MongodProxy
open Str

inductive Scheme where
  | mongodb
  | mongodbSrv
  deriving DecidableEq, Repr

structure HostSpec where
  host : Str
  port : Option UInt16
  deriving DecidableEq, Repr

structure ParsedConnectionUri where
  scheme : Scheme
  hosts : List HostSpec
  tls : Option Bool
  srvServiceName : Option Str
  deriving DecidableEq, Repr

inductive ConnectionUriError where
  | missingScheme
  | unsupportedScheme (scheme : Str)
  | missingHost
  | invalidPort (port : Str)
  | invalidTlsValue (key value : Str)
  | conflictingTlsSsl (tls ssl : Bool)
  | invalidSrvHost
  | srvServiceNameOnNonSrv (value : Str)
  | invalidHost (host : Str)
  deriving DecidableEq, Repr

namespace Uri

/-! ### Hosts and options -/

/-- `str::parse::<u16>`: a `+` may stand in front of the digits. -/
def parseU16 (s : Str) : Option UInt16 :=
  let digits : Str := match s with
    | '+' :: rest => rest
    | _ => s
  let value : ℕ := digits.foldl (fun n c => 10 * n + (c.toNat - '0'.toNat)) 0
  if digits ≠ [] ∧ digits.all Char.isDigit = true ∧ value ≤ 65535 then some (UInt16.ofNat value)
  else none

def parseHostPort (s : Str) : Except ConnectionUriError (Str × Option UInt16) :=
  if s = [] then .error .missingHost
  else if s.head? = some '[' then .error (.invalidHost s)
  else
    match rsplitOnce ':' s with
    | none => .ok (s, none)
    | some ([], _) => .error .missingHost
    | some (host, portStr) =>
      match parseU16 portStr with
      | some port => .ok (host, some port)
      | none => .error (.invalidPort portStr)

def parseBool (key value : Str) : Except ConnectionUriError Bool :=
  if value.toAsciiLowercase = "true".toList then .ok true
  else if value.toAsciiLowercase = "false".toList then .ok false
  else .error (.invalidTlsValue key value)

/- The loop over the options, with the values seen so far. -/
def tlsLoop : List Str → Option Bool → Option Bool →
    Except ConnectionUriError (Option Bool × Option Bool)
  | [], tls, ssl => .ok (tls, ssl)
  | pair :: rest, tls, ssl =>
    match splitOnce '=' pair with
    | none => tlsLoop rest tls ssl
    | some (k, v) =>
      if k.toAsciiLowercase = "tls".toList then do
        let value ← parseBool "tls".toList v
        tlsLoop rest (some value) ssl
      else if k.toAsciiLowercase = "ssl".toList then do
        let value ← parseBool "ssl".toList v
        tlsLoop rest tls (some value)
      else tlsLoop rest tls ssl

def parseTlsOption (query : Option Str) : Except ConnectionUriError (Option Bool) :=
  match query with
  | none => .ok none
  | some query => do
    let (tls, ssl) ← tlsLoop (query.splitOn '&') none none
    match tls, ssl with
    | some t, some s => if t ≠ s then .error (.conflictingTlsSsl t s) else .ok (some t)
    | some t, none => .ok (some t)
    | none, some t => .ok (some t)
    | none, none => .ok none

/-- The last non-empty value of `srvServiceName`; this never fails. -/
def parseSrvServiceName (query : Option Str) : Option Str :=
  match query with
  | none => none
  | some query => (query.splitOn '&').foldl (fun value pair =>
      match splitOnce '=' pair with
      | none => value
      | some (k, v) => if k.eqIgnoreAsciiCase "srvServiceName".toList ∧ v ≠ [] then some v else value)
      none

/-! ### The parser -/

/- The text before `?`, and the options if there is one. -/
def splitQuery (afterScheme : Str) : Str × Option Str :=
  match splitOnce '?' afterScheme with
  | some (b, q) => (b, some q)
  | none => (afterScheme, none)

def stripUserInfo (beforeQuery : Str) : Str :=
  match rsplitOnce '@' beforeQuery with
  | some (_, rest) => rest
  | none => beforeQuery

def stripDatabase (hostsAndDb : Str) : Str :=
  match splitOnce '/' hostsAndDb with
  | some (h, _) => h
  | none => hostsAndDb

/- The loop over the host entries. -/
def parseHosts (scheme : Scheme) : List Str → Except ConnectionUriError (List HostSpec)
  | [] => .ok []
  | spec :: rest => do
    let (host, port) ← parseHostPort spec
    if scheme = .mongodbSrv ∧ port.isSome then .error .invalidSrvHost
    else do
      let hosts ← parseHosts scheme rest
      pure (⟨host, port⟩ :: hosts)

def parse (uri : Str) : Except ConnectionUriError ParsedConnectionUri :=
  match splitOnceStr "://".toList uri with
  | none => .error .missingScheme
  | some (schemeStr, afterScheme) => do
    let scheme ←
      if schemeStr = "mongodb".toList then .ok .mongodb
      else if schemeStr = "mongodb+srv".toList then .ok .mongodbSrv
      else .error (.unsupportedScheme schemeStr)
    let (beforeQuery, query) := splitQuery afterScheme
    let hostsStr := stripDatabase (stripUserInfo beforeQuery)
    if hostsStr = [] then .error .missingHost
    else
      let hostSpecs := hostsStr.splitOn ','
      if scheme = .mongodbSrv ∧ hostSpecs.length ≠ 1 then .error .invalidSrvHost
      else do
        let hosts ← parseHosts scheme hostSpecs
        let tls ← parseTlsOption query
        match scheme, parseSrvServiceName query with
        | .mongodb, some value => .error (.srvServiceNameOnNonSrv value)
        | _, srvServiceName => pure { scheme, hosts, tls, srvServiceName }

/-! ### The database name -/

/-- `scheme://[userinfo@]hostlist`. -/
structure Authority where
  scheme : Str
  userinfo : Option Str
  hostlist : Str
  scheme_ok : ¬ "://".toList <:+: scheme
  userinfo_ok : ∀ u ∈ userinfo, '/' ∉ u ∧ '?' ∉ u
  hostlist_ok : '/' ∉ hostlist ∧ '?' ∉ hostlist ∧ '@' ∉ hostlist

/- The user info with its `@`. -/
def Authority.userPart (p : Authority) : Str :=
  match p.userinfo with
  | some u => u ++ ['@']
  | none => []

def queryPart : Option Str → Str
  | some q => '?' :: q
  | none => []

/-- The connection string with a database and, optionally, a query. -/
def render (p : Authority) (database : Str) (query : Option Str) : Str :=
  p.scheme ++ ("://".toList ++ ((p.userPart ++ (p.hostlist ++ '/' :: database)) ++ queryPart query))

theorem splitOnceStr_scheme (p : Authority) (rest : Str) :
    splitOnceStr "://".toList (p.scheme ++ ("://".toList ++ rest)) = some (p.scheme, rest) := by
  apply splitOnceStr_append
  intro hin
  have hfirst : "://".toList <:+: p.scheme ++ [':'] ++ ['/'] := by simpa using hin
  -- neither of the two characters after the scheme ends an occurrence
  rcases List.infix_concat_iff.mp hfirst with hsuffix | hsecond
  · rcases List.suffix_concat_iff.mp hsuffix with hnil | ⟨t, ht, hsub⟩
    · exact absurd hnil (by decide)
    · have hcut : t = [':', '/'] := by
        have := congrArg List.dropLast ht
        simpa using this.symm
      rw [hcut] at hsub
      exact not_suffix_concat (d := '/') rfl (by decide) hsub
  · rcases List.infix_concat_iff.mp hsecond with hsuffix | hin
    · exact not_suffix_concat (d := '/') rfl (by decide) hsuffix
    · exact p.scheme_ok hin

theorem splitQuery_append {before : Str} (h : '?' ∉ before) (query : Option Str) :
    splitQuery (before ++ queryPart query) = (before, query) := by
  cases query with
  | none =>
    rw [queryPart, List.append_nil, splitQuery, splitOnce_of_not_mem h]
  | some q => rw [queryPart, splitQuery, splitOnce_append q h]

theorem Authority.question_not_mem (p : Authority) {database : Str} (hd : '?' ∉ database) :
    '?' ∉ p.userPart ++ (p.hostlist ++ '/' :: database) := by
  have huser : '?' ∉ p.userPart := by
    unfold userPart
    cases hu : p.userinfo with
    | none => simp
    | some u =>
      have hfree := (p.userinfo_ok u hu).2
      simp [hfree]
  simp only [List.mem_append, List.mem_cons, not_or]
  exact ⟨huser, p.hostlist_ok.2.1, by decide, hd⟩

/- The last `@` is the one of the user info. -/
theorem stripUserInfo_append (user : Str) {rest : Str} (h : '@' ∉ rest) :
    stripUserInfo (user ++ '@' :: rest) = rest := by
  rw [stripUserInfo, rsplitOnce_append user h]

theorem stripUserInfo_of_no_at {s : Str} (h : '@' ∉ s) : stripUserInfo s = s := by
  rw [stripUserInfo, rsplitOnce_of_not_mem h]

/-- Without an `@` in the database the hosts are the ones of the authority. -/
theorem hosts_of_database (p : Authority) {database : Str} (hd : '@' ∉ database) :
    stripDatabase (stripUserInfo (p.userPart ++ (p.hostlist ++ '/' :: database))) = p.hostlist := by
  have hat : '@' ∉ p.hostlist ++ '/' :: database := by
    simp only [List.mem_append, List.mem_cons, not_or]
    exact ⟨p.hostlist_ok.2.2, by decide, hd⟩
  have huser : stripUserInfo (p.userPart ++ (p.hostlist ++ '/' :: database))
      = p.hostlist ++ '/' :: database := by
    unfold Authority.userPart
    cases p.userinfo with
    | none => rw [List.nil_append, stripUserInfo_of_no_at hat]
    | some u => rw [List.append_assoc, List.singleton_append, stripUserInfo_append u hat]
  rw [huser, stripDatabase, splitOnce_append database p.hostlist_ok.1]

/-- After an `@` in the database nothing of the authority is left. -/
theorem hosts_after_at (p : Authority) (front : Str) {rest : Str} (h : '@' ∉ rest) :
    stripUserInfo (p.userPart ++ (p.hostlist ++ '/' :: (front ++ '@' :: rest))) = rest := by
  have hsplit : p.userPart ++ (p.hostlist ++ '/' :: (front ++ '@' :: rest))
      = (p.userPart ++ (p.hostlist ++ '/' :: front)) ++ '@' :: rest := by
    simp only [List.append_assoc, List.cons_append]
  rw [hsplit, stripUserInfo_append _ h]

/-- Past the split at the scheme and the query, only the host text is read. -/
theorem parse_render_congr {p p' : Authority} {d d' : Str} (hscheme : p.scheme = p'.scheme)
    (hd : '?' ∉ d) (hd' : '?' ∉ d')
    (hhosts : stripDatabase (stripUserInfo (p.userPart ++ (p.hostlist ++ '/' :: d)))
      = stripDatabase (stripUserInfo (p'.userPart ++ (p'.hostlist ++ '/' :: d')))) (q : Option Str) :
    parse (render p d q) = parse (render p' d' q) := by
  unfold parse render
  rw [splitOnceStr_scheme, splitOnceStr_scheme]
  simp only [splitQuery_append (p.question_not_mem hd), splitQuery_append (p'.question_not_mem hd'),
    hscheme, hhosts]

theorem parse_database_free (p : Authority) {d d' : Str} (hd : '?' ∉ d) (hat : '@' ∉ d)
    (hd' : '?' ∉ d') (hat' : '@' ∉ d') (q : Option Str) :
    parse (render p d q) = parse (render p d' q) := by
  have hhosts := (hosts_of_database p hat).trans (hosts_of_database p hat').symm
  exact parse_render_congr rfl hd hd' hhosts q

/- Two authorities are read alike once there is an `@` in the database. -/
theorem parse_database_at (p p' : Authority) (hscheme : p.scheme = p'.scheme) {d : Str} (hd : '?' ∉ d)
    (hat : '@' ∈ d) : parse (render p d none) = parse (render p' d none) := by
  rcases cut_last '@' d with hno | ⟨front, rest, rfl, hlast⟩
  · exact absurd hat hno
  · apply parse_render_congr hscheme hd hd
    rw [hosts_after_at p _ hlast, hosts_after_at p' _ hlast]

/- `mongodb://` and a host of one character. -/
def bareHost (c : Char) (h : '/' ≠ c ∧ '?' ≠ c ∧ '@' ≠ c) : Authority where
  scheme := "mongodb".toList
  userinfo := none
  hostlist := [c]
  scheme_ok := by decide
  userinfo_ok := by intro u hu; cases hu
  hostlist_ok := by simpa using h

/-- A database name is ignored exactly if there is no `@` in it. -/
theorem database_ignored_iff (d : Str) (hd : '?' ∉ d) :
    (∀ (p : Authority) (d' : Str) (q : Option Str), '?' ∉ d' → '@' ∉ d' →
      parse (render p d q) = parse (render p d' q)) ↔ '@' ∉ d := by
  constructor
  · intro hignored hat
    -- with the `@` the two hosts are read alike, without a database they are not
    have hx := hignored (bareHost 'x' (by decide)) [] none (by decide) (by decide)
    have hy := hignored (bareHost 'y' (by decide)) [] none (by decide) (by decide)
    have halike := parse_database_at (bareHost 'x' (by decide)) (bareHost 'y' (by decide)) rfl hd hat
    rw [hx, hy] at halike
    exact absurd halike (by decide)
  · intro hat p d' q hd' hat'
    exact parse_database_free p hd hat hd' hat' q

theorem admin_ignored :
    '?' ∉ "admin".toList ∧ ∀ (p : Authority) (d' : Str) (q : Option Str), '?' ∉ d' → '@' ∉ d' →
      parse (render p "admin".toList q) = parse (render p d' q) :=
  ⟨by decide, (database_ignored_iff "admin".toList (by decide)).mpr (by decide)⟩

/-- `mongodb://x/app@evil` goes to `evil`, `mongodb://x/app` to `x`. -/
theorem database_picks_host :
    '?' ∉ "app@evil".toList ∧ '?' ∉ "app".toList
      ∧ parse (render (bareHost 'x' (by decide)) "app@evil".toList none)
        = .ok { scheme := .mongodb, hosts := [⟨"evil".toList, none⟩], tls := none, srvServiceName := none }
      ∧ parse (render (bareHost 'x' (by decide)) "app".toList none)
        = .ok { scheme := .mongodb, hosts := [⟨"x".toList, none⟩], tls := none, srvServiceName := none }
      ∧ parse (render (bareHost 'x' (by decide)) "app@evil".toList none)
        ≠ parse (render (bareHost 'x' (by decide)) "app".toList none) := by
  decide

end Uri

end MongodProxy
