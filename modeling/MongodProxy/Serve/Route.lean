import MongodProxy.Serve.Probe
import MongodProxy.Uri.Accepted

/-!
# Where a connection string leads (serve/service.rs, `route`)

A parsed connection string becomes one of three routes: a single host that is used as it
is, a seed list whose primary is looked for, or a name for an SRV lookup. The defaults
for the port and for TLS are filled in here.
-/

namespace MongodProxy
open Uri

/-- Failure modes of `Proxy::from_uri`. -/
inductive FromUriError (κ ε : Type) where
  | parse (e : ConnectionUriError)
  | srv (e : SrvResolveError κ (ProbeOutcome ε))
  | noPrimary (attempts : List (SrvHost × ProbeOutcome ε))

inductive UriRoute where
  | single (host : Str) (port : UInt16) (useTls : Bool)
  | seedList (hosts : List SrvHost) (useTls : Bool)
  | srv (hostname : Str) (useTls : Bool) (serviceName : Option Str)
  deriving DecidableEq, Repr

section
variable {κ ε : Type}

def route (parsed : ParsedConnectionUri) : Except (FromUriError κ ε) UriRoute :=
  match parsed.scheme with
  | .mongodb =>
    let useTls := parsed.tls.getD false
    if 1 < parsed.hosts.length then
      let hosts := parsed.hosts.map fun h => (⟨h.host, h.port.getD 27017⟩ : SrvHost)
      .ok (.seedList hosts useTls)
    else
      match parsed.hosts.head? with
      | some h => .ok (.single h.host (h.port.getD 27017) useTls)
      | none => .error (.parse .missingHost)
  | .mongodbSrv =>
    let useTls := parsed.tls.getD true
    match parsed.hosts.head? with
    | some h => .ok (.srv h.host useTls parsed.srvServiceName)
    | none => .error (.parse .missingHost)

theorem route_of_srv {p : ParsedConnectionUri} {h : HostSpec} (hscheme : p.scheme = .mongodbSrv)
    (hhosts : p.hosts = [h]) :
    (route p : Except (FromUriError κ ε) _)
      = .ok (.srv h.host (p.tls.getD true) p.srvServiceName) := by
  rw [route, hscheme, hhosts]
  rfl

theorem route_of_single {p : ParsedConnectionUri} {h : HostSpec} (hscheme : p.scheme = .mongodb)
    (hhosts : p.hosts = [h]) :
    (route p : Except (FromUriError κ ε) _)
      = .ok (.single h.host (h.port.getD 27017) (p.tls.getD false)) := by
  rw [route, hscheme, hhosts]
  rfl

theorem route_of_seedList {p : ParsedConnectionUri} (hscheme : p.scheme = .mongodb)
    (hhosts : 1 < p.hosts.length) :
    (route p : Except (FromUriError κ ε) _)
      = .ok (.seedList (p.hosts.map fun h => ⟨h.host, h.port.getD 27017⟩) (p.tls.getD false)) := by
  rw [route, hscheme]
  exact if_pos hhosts

/-- Every accepted connection string has a route, and no host of it is left out. -/
theorem route_of_parse {uri : Str} {p : ParsedConnectionUri} (h : parse uri = .ok p) :
    Accepted p ∧
      (∃ afterScheme, Str.splitOnceStr "://".toList uri = some (p.scheme.text, afterScheme) ∧
        List.Forall₂ (fun spec h => parseHostPort spec = .ok (h.host, h.port))
          ((hostText afterScheme).splitOn ',') p.hosts) ∧
      (p.scheme = .mongodbSrv → ∃ h, p.hosts = [h] ∧ h.port = none ∧
        (route p : Except (FromUriError κ ε) _)
          = .ok (.srv h.host (p.tls.getD true) p.srvServiceName)) ∧
      (p.scheme = .mongodb → ∀ h, p.hosts = [h] →
        (route p : Except (FromUriError κ ε) _)
          = .ok (.single h.host (h.port.getD 27017) (p.tls.getD false))) ∧
      (p.scheme = .mongodb → p.hosts.length ≠ 1 →
        (route p : Except (FromUriError κ ε) _)
          = .ok (.seedList (p.hosts.map fun h => ⟨h.host, h.port.getD 27017⟩)
              (p.tls.getD false))) := by
  have haccepted := Accepted.of_parse h
  refine ⟨haccepted, ?_, ?_, ?_, ?_⟩
  · obtain ⟨afterScheme, hsplit, hparts⟩ := (parse_eq_ok_iff _ _).mp h
    obtain ⟨-, -, -, hhosts, -⟩ := (parseParts_eq_ok_iff _ _ _).mp hparts
    refine ⟨afterScheme, hsplit, ?_⟩
    exact ((parseHosts_eq_ok_iff _ _ _).mp hhosts).imp fun _ _ hspec => hspec.1
  · intro hscheme
    obtain ⟨host, hhosts⟩ := haccepted.srv_host hscheme
    exact ⟨⟨host, none⟩, hhosts, rfl, route_of_srv hscheme hhosts⟩
  · intro hscheme h hhosts
    exact route_of_single hscheme hhosts
  · intro hscheme hcount
    have hpos := List.length_pos_iff.mpr haccepted.hosts_ne_nil
    exact route_of_seedList hscheme (by omega)

/- Two hosts, the first one without a port, and a password with an `@` in it. -/
def seedUri : Str := "mongodb://u:p@ss@a,b:27018/db?tls=TRUE".toList

def seedParsed : ParsedConnectionUri where
  scheme := .mongodb
  hosts := [⟨"a".toList, none⟩, ⟨"b".toList, some 27018⟩]
  tls := some true
  srvServiceName := none

theorem seedUri_route :
    parse seedUri = .ok seedParsed ∧
      (route seedParsed : Except (FromUriError Unit Unit) _)
        = .ok (.seedList [⟨"a".toList, 27017⟩, ⟨"b".toList, 27018⟩] true) := by
  have hparse : parse seedUri = .ok seedParsed := by decide
  refine ⟨hparse, ?_⟩
  exact (route_of_parse (κ := Unit) (ε := Unit) hparse).2.2.2.2 rfl (by decide)

end

end MongodProxy
