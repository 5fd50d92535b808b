import Mathlib.Data.List.Forall2
import MongodProxy.Uri.HostPort

/-!
# What the connection string parser accepts (uri.rs)

The parser succeeds exactly if each of its parts does, and every part reads its own piece
of the string. Everything said about an accepted string goes through this one statement.
-/

namespace MongodProxy

def Scheme.text : Scheme → Str
  | .mongodb => "mongodb".toList
  | .mongodbSrv => "mongodb+srv".toList

namespace Uri
open Str

/- The host list in what follows the scheme. -/
def hostText (afterScheme : Str) : Str := stripDatabase (stripUserInfo (splitQuery afterScheme).1)

/-! ### One part at a time -/

theorem question_not_mem_splitQuery (s : Str) : '?' ∉ (splitQuery s).1 := by
  rcases cut_first '?' s with hno | ⟨before, query, rfl, hfirst⟩
  · rw [splitQuery, splitOnce_of_not_mem hno]
    exact hno
  · rw [splitQuery, splitOnce_append query hfirst]
    exact hfirst

theorem stripUserInfo_spec (s : Str) : '@' ∉ stripUserInfo s ∧ stripUserInfo s ⊆ s := by
  rcases cut_last '@' s with hno | ⟨user, rest, rfl, hlast⟩
  · rw [stripUserInfo_of_no_at hno]
    exact ⟨hno, List.Subset.refl _⟩
  · rw [stripUserInfo_append user hlast]
    refine ⟨hlast, ?_⟩
    intro c hc
    exact List.mem_append_right user (List.mem_cons_of_mem '@' hc)

theorem stripDatabase_spec (s : Str) : '/' ∉ stripDatabase s ∧ stripDatabase s ⊆ s := by
  rcases cut_first '/' s with hno | ⟨hosts, database, rfl, hfirst⟩
  · rw [stripDatabase, splitOnce_of_not_mem hno]
    exact ⟨hno, List.Subset.refl _⟩
  · rw [stripDatabase, splitOnce_append database hfirst]
    exact ⟨hfirst, List.subset_append_left _ _⟩

/-- No delimiter of another part is in the host list. -/
theorem hostText_spec (afterScheme : Str) :
    '/' ∉ hostText afterScheme ∧ '?' ∉ hostText afterScheme ∧ '@' ∉ hostText afterScheme := by
  have hdb := stripDatabase_spec (stripUserInfo (splitQuery afterScheme).1)
  have huser := stripUserInfo_spec (splitQuery afterScheme).1
  have hquery := question_not_mem_splitQuery afterScheme
  refine ⟨hdb.1, ?_, ?_⟩
  · intro hin
    exact hquery (huser.2 (hdb.2 hin))
  · intro hin
    exact huser.1 (hdb.2 hin)

/-- The host loop reads every entry, in order. -/
theorem parseHosts_eq_ok_iff (scheme : Scheme) (specs : List Str) (hosts : List HostSpec) :
    parseHosts scheme specs = .ok hosts ↔
      List.Forall₂ (fun spec h => parseHostPort spec = .ok (h.host, h.port) ∧
        (scheme = .mongodbSrv → h.port = none)) specs hosts := by
  induction specs generalizing hosts with
  | nil =>
    rw [List.forall₂_nil_left_iff, parseHosts, Except.ok.injEq]
    exact eq_comm
  | cons spec rest ih =>
    rw [List.forall₂_cons_left_iff]
    simp only [parseHosts, Outcome.bind_eq_ok]
    constructor
    · intro h
      obtain ⟨⟨host, port⟩, hspec, hend⟩ := h
      split_ifs at hend with hsrv
      simp only [Outcome.bind_eq_ok] at hend
      obtain ⟨tail, htail, hcons⟩ := hend
      cases hcons
      refine ⟨⟨host, port⟩, tail, ⟨hspec, ?_⟩, (ih tail).mp htail, rfl⟩
      intro hscheme
      cases port with
      | none => rfl
      | some port => exact absurd ⟨hscheme, rfl⟩ hsrv
    · intro h
      obtain ⟨h, tail, ⟨hspec, hport⟩, htail, rfl⟩ := h
      refine ⟨(h.host, h.port), hspec, ?_⟩
      have hsrv : ¬ (scheme = .mongodbSrv ∧ h.port.isSome = true) := by
        intro hboth
        rw [hport hboth.1] at hboth
        cases hboth.2
      rw [if_neg hsrv, (ih tail).mpr htail]
      rfl

theorem mem_of_parseHosts {scheme : Scheme} {specs : List Str} {hosts : List HostSpec}
    (hok : parseHosts scheme specs = .ok hosts) {h : HostSpec} (hmem : h ∈ hosts) :
    ∃ spec ∈ specs, parseHostPort spec = .ok (h.host, h.port) ∧
      (scheme = .mongodbSrv → h.port = none) := by
  have hall := (parseHosts_eq_ok_iff _ _ _).mp hok
  clear hok
  induction hall with
  | nil => cases hmem
  | cons hspec hrest ih =>
    rcases List.mem_cons.mp hmem with rfl | hmem
    · exact ⟨_, List.mem_cons_self, hspec⟩
    · obtain ⟨spec, hin, hok⟩ := ih hmem
      exact ⟨spec, List.mem_cons_of_mem _ hin, hok⟩

/-! ### The parser -/

/- The parser once the scheme is known. -/
def parseParts (scheme : Scheme) (afterScheme : Str) :
    Except ConnectionUriError ParsedConnectionUri :=
  if hostText afterScheme = [] then .error .missingHost
  else if scheme = .mongodbSrv ∧ ((hostText afterScheme).splitOn ',').length ≠ 1 then
    .error .invalidSrvHost
  else do
    let hosts ← parseHosts scheme ((hostText afterScheme).splitOn ',')
    let tls ← parseTlsOption (splitQuery afterScheme).2
    match scheme, parseSrvServiceName (splitQuery afterScheme).2 with
    | .mongodb, some value => .error (.srvServiceNameOnNonSrv value)
    | _, srvServiceName => pure { scheme, hosts, tls, srvServiceName }

theorem parse_of_scheme {uri afterScheme : Str} {scheme : Scheme}
    (h : splitOnceStr "://".toList uri = some (scheme.text, afterScheme)) :
    parse uri = parseParts scheme afterScheme := by
  unfold parse
  rw [h]
  cases scheme with
  | mongodb => rfl
  | mongodbSrv => rfl

theorem parse_of_other {uri schemeStr afterScheme : Str}
    (h : splitOnceStr "://".toList uri = some (schemeStr, afterScheme))
    (hplain : schemeStr ≠ Scheme.mongodb.text) (hsrv : schemeStr ≠ Scheme.mongodbSrv.text) :
    parse uri = .error (.unsupportedScheme schemeStr) := by
  unfold parse
  rw [h]
  show (if schemeStr = Scheme.mongodb.text then _ else if schemeStr = Scheme.mongodbSrv.text then _
    else _) = _
  rw [if_neg hplain, if_neg hsrv]
  rfl

theorem parseParts_eq_ok_iff (scheme : Scheme) (afterScheme : Str) (p : ParsedConnectionUri) :
    parseParts scheme afterScheme = .ok p ↔
      p.scheme = scheme ∧ hostText afterScheme ≠ [] ∧
        (scheme = .mongodbSrv → ((hostText afterScheme).splitOn ',').length = 1) ∧
        parseHosts scheme ((hostText afterScheme).splitOn ',') = .ok p.hosts ∧
        parseTlsOption (splitQuery afterScheme).2 = .ok p.tls ∧
        parseSrvServiceName (splitQuery afterScheme).2 = p.srvServiceName ∧
        (scheme = .mongodb → p.srvServiceName = none) := by
  constructor
  · intro h
    unfold parseParts at h
    split_ifs at h with hempty hcount
    simp only [Outcome.bind_eq_ok] at h
    obtain ⟨hosts, hhosts, tls, htls, h⟩ := h
    have hone : scheme = .mongodbSrv → ((hostText afterScheme).splitOn ',').length = 1 := by
      intro hsrv
      by_contra hne
      exact hcount ⟨hsrv, hne⟩
    split at h
    next => cases h
    next hservice =>
      cases h
      refine ⟨rfl, hempty, hone, hhosts, htls, rfl, ?_⟩
      intro hplain
      cases hname : parseSrvServiceName (splitQuery afterScheme).2 with
      | none => rfl
      | some name => exact absurd hname (hservice name hplain)
  · intro h
    obtain ⟨rfl, hempty, hone, hhosts, htls, hservice, hplain⟩ := h
    have hcount : ¬ (p.scheme = .mongodbSrv ∧ ((hostText afterScheme).splitOn ',').length ≠ 1) := by
      intro hboth
      exact hboth.2 (hone hboth.1)
    rw [parseParts, if_neg hempty, if_neg hcount, hhosts, htls, hservice]
    obtain ⟨scheme, hosts, tls, service⟩ := p
    cases scheme with
    | mongodb =>
      have hnone : service = none := hplain rfl
      subst hnone
      rfl
    | mongodbSrv => rfl

/-- The parser accepts exactly if every part is accepted. -/
theorem parse_eq_ok_iff (uri : Str) (p : ParsedConnectionUri) :
    parse uri = .ok p ↔
      ∃ afterScheme, splitOnceStr "://".toList uri = some (p.scheme.text, afterScheme) ∧
        parseParts p.scheme afterScheme = .ok p := by
  constructor
  · intro h
    cases hsplit : splitOnceStr "://".toList uri with
    | none =>
      rw [parse, hsplit] at h
      cases h
    | some parts =>
      obtain ⟨schemeStr, afterScheme⟩ := parts
      by_cases hknown : ∃ scheme : Scheme, schemeStr = scheme.text
      · obtain ⟨scheme, rfl⟩ := hknown
        rw [parse_of_scheme hsplit] at h
        obtain ⟨rfl, -⟩ := (parseParts_eq_ok_iff _ _ _).mp h
        exact ⟨afterScheme, rfl, h⟩
      · rw [not_exists] at hknown
        rw [parse_of_other hsplit (hknown .mongodb) (hknown .mongodbSrv)] at h
        cases h
  · intro h
    obtain ⟨afterScheme, hsplit, hparts⟩ := h
    rw [parse_of_scheme hsplit]
    exact hparts

/-! ### Accepted strings -/

/-- The hosts are usable, and what belongs to the SRV scheme stands only there. -/
structure Accepted (p : ParsedConnectionUri) : Prop where
  hosts_ne_nil : p.hosts ≠ []
  host_ok : ∀ h ∈ p.hosts,
    h.host ≠ [] ∧ ',' ∉ h.host ∧ '/' ∉ h.host ∧ '?' ∉ h.host ∧ '@' ∉ h.host
  srv_host : p.scheme = .mongodbSrv → ∃ host, p.hosts = [⟨host, none⟩]
  service_ok : ∀ name ∈ p.srvServiceName, p.scheme = .mongodbSrv ∧ name ≠ []

/- The host is at the front of its entry. -/
theorem parseHostPort_host {spec host : Str} {port : Option UInt16}
    (h : parseHostPort spec = .ok (host, port)) : host ≠ [] ∧ host ⊆ spec := by
  obtain ⟨hne, -, ⟨-, rfl, -⟩ | ⟨text, value, -, rfl, -⟩⟩ := (parseHostPort_eq_ok_iff _ _ _).mp h
  · exact ⟨hne, List.Subset.refl _⟩
  · exact ⟨hne, List.subset_append_left _ _⟩

/- One turn of the loop of `parse_srv_service_name`. -/
def serviceStep (value : Option Str) (pair : Str) : Option Str :=
  match splitOnce '=' pair with
  | none => value
  | some (k, v) => if k.eqIgnoreAsciiCase "srvServiceName".toList ∧ v ≠ [] then some v else value

theorem parseSrvServiceName_some (query : Str) :
    parseSrvServiceName (some query) = (query.splitOn '&').foldl serviceStep none := rfl

/- What the loop holds is never an empty value. -/
theorem serviceStep_ne_nil {value : Option Str} (h : ∀ v ∈ value, v ≠ []) (pair : Str) :
    ∀ v ∈ serviceStep value pair, v ≠ [] := by
  unfold serviceStep
  split
  next => exact h
  next k v hpair =>
    split_ifs with hkey
    · intro w hw
      cases hw
      exact hkey.2
    · exact h

theorem foldl_serviceStep_ne_nil (pairs : List Str) {value : Option Str}
    (h : ∀ v ∈ value, v ≠ []) : ∀ v ∈ pairs.foldl serviceStep value, v ≠ [] := by
  induction pairs generalizing value with
  | nil => exact h
  | cons pair pairs ih =>
    rw [List.foldl_cons]
    exact ih (serviceStep_ne_nil h pair)

theorem parseSrvServiceName_ne_nil {query : Option Str} {name : Str}
    (h : parseSrvServiceName query = some name) : name ≠ [] := by
  cases query with
  | none => cases h
  | some query =>
    rw [parseSrvServiceName_some] at h
    exact foldl_serviceStep_ne_nil (query.splitOn '&') (by simp) name h

theorem Accepted.of_parse {uri : Str} {p : ParsedConnectionUri} (h : parse uri = .ok p) :
    Accepted p := by
  obtain ⟨afterScheme, -, hparts⟩ := (parse_eq_ok_iff _ _).mp h
  obtain ⟨-, -, hone, hhosts, -, hservice, hplain⟩ := (parseParts_eq_ok_iff _ _ _).mp hparts
  have hall := (parseHosts_eq_ok_iff _ _ _).mp hhosts
  have hlen := hall.length_eq
  obtain ⟨hslash, hquestion, hat⟩ := hostText_spec afterScheme
  refine ⟨?_, ?_, ?_, ?_⟩
  · intro hnil
    rw [hnil, List.length_nil, List.length_eq_zero_iff] at hlen
    exact List.splitOn_ne_nil _ _ hlen
  · intro host hmem
    obtain ⟨spec, hspec, hok, -⟩ := mem_of_parseHosts hhosts hmem
    obtain ⟨hne, hsub⟩ := parseHostPort_host hok
    obtain ⟨hcomma, htext⟩ := mem_splitOn hspec
    exact ⟨hne, fun hin => hcomma (hsub hin), fun hin => hslash (htext (hsub hin)),
      fun hin => hquestion (htext (hsub hin)), fun hin => hat (htext (hsub hin))⟩
  · intro hsrv
    rw [hone hsrv] at hlen
    obtain ⟨h, hsingle⟩ := List.length_eq_one_iff.mp hlen.symm
    obtain ⟨spec, -, -, hport⟩ := mem_of_parseHosts hhosts (by rw [hsingle]; exact List.mem_cons_self)
    exact ⟨h.host, by rw [hsingle, ← hport hsrv]⟩
  · intro name hname
    refine ⟨?_, parseSrvServiceName_ne_nil (hservice.trans hname)⟩
    cases hscheme : p.scheme with
    | mongodbSrv => rfl
    | mongodb =>
      rw [hplain hscheme] at hname
      cases hname

end Uri
end MongodProxy
