import MongodProxy.Serve.Failover
import MongodProxy.Serve.Route

/-!
# From a connection string to sockets (serve/service.rs, `Proxy::from_uri`)

`from_uri` parses a connection string, picks one of three constructors and leaves a proxy
behind: a target that connections read when they are accepted, a TLS connector, and, unless
the string names a single host, a loop that looks for the primary again and again. The
machine below is that proxy, from the call of `from_uri` on. Every socket it opens is in its
log, those of the probes too. DNS, the answers of the hosts and the moments at which
anything happens are inputs.
-/

namespace MongodProxy
open Uri Failover

namespace FromUri

/-! ### Sockets -/

/- `from_uri` knows no other roots than the bundled ones. -/
inductive TlsConfig where
  | disabled
  | system
  deriving DecidableEq, Repr

inductive TlsConnector where
  | webpkiRoots
  deriving DecidableEq, Repr

def buildTlsConnector : TlsConfig → Option TlsConnector
  | .disabled => none
  | .system => some .webpkiRoots

/-- A socket `ProxyClient::forward_to` opens: the address it connects to and, over TLS, the name
the certificate is checked against. -/
structure Socket where
  addr : Str
  serverName : Option Str
  deriving DecidableEq, Repr

def forwardTo (destination : SrvHost) (connector : Option TlsConnector) : Socket :=
  ⟨destination.host ++ ':' :: Nat.toDigits 10 destination.port.toNat,
    connector.map fun _ => destination.host⟩

/-! ### The machine -/

/- Where the candidates of a pass come from. -/
inductive Source where
  | seedList (hosts : List SrvHost)
  | srv (hostname serviceName : Str)

inductive Phase (κ ε : Type) where
  | resolving
  | selecting (race : Race ε)
  | selected (selection : Except (SrvResolveError κ (ProbeOutcome ε)) (Selection ε))
  | sleeping
  | stopped

inductive Event (ε : Type) where
  | probe (host : SrvHost)
  | answer (host : SrvHost) (result : ProbeResult ε)
  | tick (found : Option SrvHost)
  | call (c : ℕ) (target : SrvHost)
  | dial (c : ℕ) (target : SrvHost)

structure System (κ ε : Type) where
  connector : Option TlsConnector
  phase : Phase κ ε
  target : Option SrvHost
  /-- What `from_uri` failed with. -/
  error : Option (FromUriError κ ε)
  /-- Connections that have read the target and have not dialled yet. -/
  calls : List (ℕ × SrvHost)
  accepted : ℕ
  /-- Newest first. -/
  log : List (Event ε)

variable {κ ε : Type}

section
variable (src : Source)

/- The hosts of a pass. A seed list is probed as it is. -/
def candidates (resolver : Except κ (Str → Except κ (List RawSrvRecord))) (seed : UInt64) :
    Except (SrvResolveError κ (ProbeOutcome ε)) (List SrvHost) :=
  match src with
  | .seedList hosts => .ok hosts
  | .srv hostname serviceName => resolveWithServiceName hostname serviceName resolver seed

/- The head of the loop in `select_primary`. -/
def nextTurn (race : Race ε) : Phase κ ε :=
  match race.exhausted with
  | some selection => .selected (.ok selection)
  | none => .selecting race

/- The pass begins: a probe is started for every candidate. -/
def beginPass (s : System κ ε) (resolver : Except κ (Str → Except κ (List RawSrvRecord)))
    (seed : UInt64) : System κ ε :=
  match candidates src resolver seed with
  | .error e => { s with phase := .selected (.error e) }
  | .ok hosts =>
    { s with phase := nextTurn (.start hosts), log := (hosts.map .probe).reverse ++ s.log }

/- The probe of one host settles. -/
def settleTurn (s : System κ ε) (race : Race ε) (i : ℕ) (host : SrvHost) (result : ProbeResult ε) :
    System κ ε :=
  let s := { s with log := .answer host result :: s.log }
  match race.settle i host result with
  | .inl selection => { s with phase := .selected (.ok selection) }
  | .inr race => { s with phase := nextTurn race }

def noPrimaryError (attempts : List (SrvHost × ProbeOutcome ε)) : FromUriError κ ε :=
  match src with
  | .seedList _ => .noPrimary attempts
  | .srv hostname _ => .srv (.noPrimary hostname attempts)

/- The end of the startup: the proxy is there, or `from_uri` fails. -/
def finishStartup (s : System κ ε)
    (selection : Except (SrvResolveError κ (ProbeOutcome ε)) (Selection ε)) : System κ ε :=
  match selection with
  | .ok (.primary host) =>
    { s with target := some host, phase := .sleeping, log := .tick (some host) :: s.log }
  | .ok (.noPrimary attempts) =>
    { s with
      phase := .stopped
      error := some (noPrimaryError src attempts)
      log := .tick none :: s.log }
  | .error e => { s with phase := .stopped, error := some (.srv e), log := .tick none :: s.log }

/- `resolve_and_select` and `reselect_seed_list` keep only the host. -/
def foundOf : Except (SrvResolveError κ (ProbeOutcome ε)) (Selection ε) → Option SrvHost
  | .ok selection => selection.intoPrimary
  | .error _ => none

/- The end of a tick of the loop; `apply_primary` leaves an equal target alone. -/
def finishTick (s : System κ ε) (target : SrvHost)
    (selection : Except (SrvResolveError κ (ProbeOutcome ε)) (Selection ε)) : System κ ε :=
  let s := { s with phase := .sleeping, log := .tick (foundOf selection) :: s.log }
  match foundOf selection with
  | some primary => if target = primary then s else { s with target := some primary }
  | none => s

/-- Actions that are not possible in a state leave it as it is. -/
def step (s : System κ ε) : Failover.Action κ ε → System κ ε
  | .resolved resolver seed =>
    match s.phase with
    | .resolving => beginPass src s resolver seed
    | _ => s
  | .settled i result =>
    match s.phase with
    | .selecting race =>
      if i ∈ race.pending then
        match race.hosts[i]? with
        | some host => settleTurn s race i host result
        | none => s
      else s
    | _ => s
  | .applied =>
    match s.phase with
    | .selected selection =>
      match s.target with
      | none => finishStartup src s selection
      | some target => finishTick s target selection
    | _ => s
  | .timer =>
    match s.phase with
    | .sleeping => { s with phase := .resolving }
    | _ => s
  | .closed =>
    match s.phase with
    | .sleeping => { s with phase := .stopped }
    | _ => s
  | .call =>
    match s.target with
    | some target =>
      { s with
        calls := (s.accepted, target) :: s.calls
        accepted := s.accepted + 1
        log := .call s.accepted target :: s.log }
    | none => s
  | .dial c =>
    match s.calls.find? fun p => p.1 = c with
    | some p =>
      { s with
        calls := s.calls.filter fun q => q.1 ≠ c
        log := .dial p.1 p.2 :: s.log }
    | none => s

end

/- The connector of each constructor: `with_tls`, `from_seed_list` and `from_srv_inner`. -/
def connectorOf (useTls : Bool) : Option TlsConnector :=
  buildTlsConnector (if useTls then .system else .disabled)

/-- A proxy as `from_uri` leaves it to its first await. A single host is used as it is; else the
first pass begins. -/
def start : UriRoute → System κ ε
  | .single host port useTls => ⟨connectorOf useTls, .stopped, some ⟨host, port⟩, none, [], 0, []⟩
  | .seedList _ useTls => ⟨connectorOf useTls, .resolving, none, none, [], 0, []⟩
  | .srv _ useTls _ => ⟨connectorOf useTls, .resolving, none, none, [], 0, []⟩

/- A single host is never probed. -/
def sourceOf : UriRoute → Source
  | .single _ _ _ => .seedList []
  | .seedList hosts _ => .seedList hosts
  | .srv hostname _ serviceName => .srv hostname (serviceName.getD "mongodb".toList)

def run (route : UriRoute) (acts : List (Failover.Action κ ε)) : System κ ε :=
  acts.foldl (step (sourceOf route)) (start route)

/-! ### What the log shows -/

/- The hosts a socket was opened to. -/
def opened (log : List (Event ε)) : List SrvHost :=
  log.filterMap fun
    | .probe host => some host
    | .dial _ target => some target
    | _ => none

def latestFound (log : List (Event ε)) : Option SrvHost :=
  log.findSome? fun
    | .tick found => found
    | _ => none

section
variable (probed : SrvHost → Prop) (fixed : Option SrvHost)

/- Only such hosts are probed, only those answer, a pass finds one that said it is the primary, a
connection reads what was found last and dials what it read. -/
def LogInv : List (Event ε) → Prop
  | [] => True
  | .probe host :: rest => probed host ∧ LogInv rest
  | .answer host _ :: rest => .probe host ∈ rest ∧ LogInv rest
  | .tick found :: rest =>
    (∀ host, found = some host → .answer host (.ok (.ok true)) ∈ rest) ∧ LogInv rest
  | .call _ target :: rest => (latestFound rest).or fixed = some target ∧ LogInv rest
  | .dial c target :: rest => .call c target ∈ rest ∧ LogInv rest

variable {probed fixed}

theorem LogInv.tail {front rest : List (Event ε)} (h : LogInv probed fixed (front ++ rest)) :
    LogInv probed fixed rest := by
  induction front with
  | nil => exact h
  | cons e front ih =>
    cases e with
    | probe host => exact ih h.2
    | answer host result => exact ih h.2
    | tick found => exact ih h.2
    | call c target => exact ih h.2
    | dial c target => exact ih h.2

theorem LogInv.of_probe {log : List (Event ε)} (h : LogInv probed fixed log) {host : SrvHost}
    (hmem : .probe host ∈ log) : probed host := by
  obtain ⟨front, rest, rfl⟩ := List.append_of_mem hmem
  exact h.tail.1

theorem LogInv.of_answer {log : List (Event ε)} (h : LogInv probed fixed log) {host : SrvHost}
    {result : ProbeResult ε} (hmem : .answer host result ∈ log) : probed host := by
  obtain ⟨front, rest, rfl⟩ := List.append_of_mem hmem
  exact h.tail.2.of_probe h.tail.1

/- What a pass found had said so. -/
theorem LogInv.of_latestFound {log : List (Event ε)} (h : LogInv probed fixed log) {host : SrvHost}
    (hlatest : latestFound log = some host) : .answer host (.ok (.ok true)) ∈ log := by
  obtain ⟨front, e, rest, rfl, he, -⟩ := List.findSome?_eq_some_iff.mp hlatest
  cases e with
  | tick found => exact List.mem_append_right _ (List.mem_cons_of_mem _ (h.tail.1 host he))
  | probe host' => cases he
  | answer host' result => cases he
  | call c target => cases he
  | dial c target => cases he

/- A dialled host was found by the latest pass before its connection was accepted, or there is no
pass at all. -/
theorem LogInv.of_dial {log : List (Event ε)} (h : LogInv probed fixed log)
    {later earlier : List (Event ε)} {c : ℕ} {target : SrvHost}
    (hlog : log = later ++ .dial c target :: earlier) :
    ∃ mid before, earlier = mid ++ .call c target :: before ∧
      (latestFound before = some target ∧ .answer target (.ok (.ok true)) ∈ before ∨
        latestFound before = none ∧ fixed = some target) := by
  subst hlog
  obtain ⟨hcall, hearlier⟩ := h.tail
  obtain ⟨mid, before, rfl⟩ := List.append_of_mem hcall
  refine ⟨mid, before, rfl, ?_⟩
  obtain ⟨hread, hbefore⟩ := hearlier.tail
  cases hlatest : latestFound before with
  | some host =>
    rw [hlatest] at hread
    cases hread
    exact .inl ⟨rfl, hbefore.of_latestFound hlatest⟩
  | none =>
    rw [hlatest] at hread
    exact .inr ⟨rfl, hread⟩

theorem LogInv.of_opened {log : List (Event ε)} (h : LogInv probed fixed log) {host : SrvHost}
    (hmem : host ∈ opened log) : probed host ∨ fixed = some host := by
  obtain ⟨e, he, hhost⟩ := List.mem_filterMap.mp hmem
  cases e with
  | probe host' =>
    cases hhost
    exact .inl (h.of_probe he)
  | dial c target =>
    cases hhost
    obtain ⟨later, earlier, rfl⟩ := List.append_of_mem he
    obtain ⟨mid, before, rfl, ⟨-, hanswer⟩ | ⟨-, hfixed⟩⟩ := h.of_dial rfl
    · exact .inl (LogInv.of_answer h.tail.2 (List.mem_append_right _
        (List.mem_cons_of_mem _ hanswer)))
    · exact .inr hfixed
  | answer host' result => cases hhost
  | tick found => cases hhost
  | call c target => cases hhost

end

/-! ### What every step keeps -/

/- The hosts a pass may go on with. -/
def Source.Gives : Source → List SrvHost → Prop
  | .seedList hosts, found => found = hosts
  | .srv hostname _, found => ∀ host ∈ found, InDomain hostname host.host

def Source.Allows : Source → SrvHost → Prop
  | .seedList hosts, host => host ∈ hosts
  | .srv hostname _, host => InDomain hostname host.host

theorem Source.Gives.allows {src : Source} {hosts : List SrvHost} (h : src.Gives hosts) :
    ∀ host ∈ hosts, src.Allows host := by
  cases src with
  | seedList list =>
    intro host hmem
    exact h ▸ hmem
  | srv hostname serviceName => exact h

theorem gives_of_candidates {src : Source}
    {resolver : Except κ (Str → Except κ (List RawSrvRecord))} {seed : UInt64}
    {hosts : List SrvHost}
    (h : (candidates src resolver seed : Except (SrvResolveError κ (ProbeOutcome ε)) _) = .ok hosts) :
    src.Gives hosts := by
  cases src with
  | seedList list => exact (Except.ok.inj h).symm
  | srv hostname serviceName =>
    obtain ⟨lookup, raw, -, -, hdomain, hperm⟩ := Srv.resolveWithServiceName_eq_ok h
    intro host hmem
    obtain ⟨r, hr, rfl⟩ := List.mem_map.mp (hperm.mem_iff.mp hmem)
    exact hdomain r hr

/- Every position of the list is pending or was rejected. -/
def Covers (race : Race ε) : Prop :=
  (race.pending.filterMap (race.hosts[·]?) ++ race.rejected.map Prod.fst).Perm race.hosts

theorem covers_start (hosts : List SrvHost) : Covers (Race.start hosts : Race ε) := by
  have hall : (List.range hosts.length).filterMap (hosts[·]?) = hosts := by
    induction hosts with
    | nil => rfl
    | cons host hosts ih =>
      have hhead : (host :: hosts)[0]? = some host := rfl
      rw [List.length_cons, List.range_succ_eq_map, List.filterMap_cons_some hhead,
        List.filterMap_map]
      exact congrArg (host :: ·) ih
  simp [Covers, Race.start, hall]

theorem Covers.reject {race : Race ε} (h : Covers race) {i : ℕ} {host : SrvHost}
    (hi : i ∈ race.pending) (hhost : race.hosts[i]? = some host) (outcome : ProbeOutcome ε) :
    Covers { race with
      pending := race.pending.erase i
      rejected := race.rejected ++ [(host, outcome)] } := by
  have hpending : (race.pending.filterMap (race.hosts[·]?)).Perm
      (host :: (race.pending.erase i).filterMap (race.hosts[·]?)) := by
    have hperm := (List.perm_cons_erase hi).filterMap (race.hosts[·]?)
    rwa [List.filterMap_cons_some hhost] at hperm
  refine List.Perm.trans ?_ h
  simp only [List.map_append, List.map_cons, List.map_nil, ← List.append_assoc]
  refine (List.perm_append_singleton _ _).trans ?_
  exact (hpending.append_right _).symm

def PhaseInv (src : Source) (log : List (Event ε)) : Phase κ ε → Prop
  | .selecting race => (∀ host ∈ race.hosts, .probe host ∈ log) ∧ Covers race ∧ src.Gives race.hosts
  | .selected (.ok (.primary host)) => .answer host (.ok (.ok true)) ∈ log
  | .selected (.ok (.noPrimary attempts)) =>
    ∃ hosts, src.Gives hosts ∧ (attempts.map Prod.fst).Perm hosts
  | _ => True

theorem PhaseInv.mono {src : Source} {log log' : List (Event ε)} {phase : Phase κ ε}
    (h : PhaseInv src log phase) (hlog : log ⊆ log') : PhaseInv src log' phase := by
  cases phase with
  | selecting race => exact ⟨fun host hmem => hlog (h.1 host hmem), h.2⟩
  | selected selection =>
    cases selection with
    | error e => trivial
    | ok selection =>
      cases selection with
      | primary host => exact hlog h
      | noPrimary attempts => exact h
  | resolving => trivial
  | sleeping => trivial
  | stopped => trivial

theorem phaseInv_nextTurn {src : Source} {log : List (Event ε)} {race : Race ε}
    (h : (∀ host ∈ race.hosts, .probe host ∈ log) ∧ Covers race ∧ src.Gives race.hosts) :
    PhaseInv src log (nextTurn race : Phase κ ε) := by
  unfold nextTurn
  cases hex : race.exhausted with
  | none => exact h
  | some selection =>
    simp only [Race.exhausted] at hex
    split_ifs at hex with hempty
    cases hex
    obtain ⟨-, hcovers, hgives⟩ := h
    refine ⟨race.hosts, hgives, ?_⟩
    rw [Covers, List.isEmpty_iff.mp hempty] at hcovers
    exact hcovers

/-- What holds of a proxy in every state; `fixed` is the host of one that has no passes. -/
structure Inv (src : Source) (fixed : Option SrvHost) (s : System κ ε) : Prop where
  phase : PhaseInv src s.log s.phase
  target : s.target = (latestFound s.log).or fixed
  calls : ∀ p ∈ s.calls, .call p.1 p.2 ∈ s.log
  log : LogInv src.Allows fixed s.log
  failed : s.error ≠ none → s.phase = .stopped ∧ s.target = none
  silent : s.target = none → ∀ c target, .call c target ∉ s.log
  attempts : ∀ attempts, s.error = some (.noPrimary attempts) →
    ∃ hosts, src = .seedList hosts ∧ (attempts.map Prod.fst).Perm hosts

section
variable {src : Source} {fixed : Option SrvHost} {s : System κ ε}

/- A step that changes the phase only. -/
theorem Inv.withPhase (h : Inv src fixed s) {phase : Phase κ ε} (hphase : PhaseInv src s.log phase)
    (hgoing : s.phase ≠ .stopped) : Inv src fixed { s with phase } where
  phase := hphase
  target := h.target
  calls := h.calls
  log := h.log
  failed herror := absurd (h.failed herror).1 hgoing
  silent := h.silent
  attempts := h.attempts

/- Events that are no ticks and no calls go into the log, and the phase changes. -/
theorem Inv.withLog (h : Inv src fixed s) {phase : Phase κ ε} {es : List (Event ε)}
    (hphase : PhaseInv src (es ++ s.log) phase) (hgoing : s.phase ≠ .stopped)
    (hlog : LogInv src.Allows fixed (es ++ s.log))
    (hquiet : ∀ e ∈ es, (∀ found, e ≠ .tick found) ∧ ∀ c target, e ≠ .call c target) :
    Inv src fixed { s with phase, log := es ++ s.log } where
  phase := hphase
  target := by
    have hfound : latestFound (es ++ s.log) = latestFound s.log := by
      clear hphase hlog
      induction es with
      | nil => rfl
      | cons e es ih =>
        have hrest := ih fun x hx => hquiet x (List.mem_cons_of_mem _ hx)
        obtain ⟨htick, -⟩ := hquiet e List.mem_cons_self
        cases e with
        | tick found => exact absurd rfl (htick found)
        | probe host => exact hrest
        | answer host result => exact hrest
        | call c target => exact hrest
        | dial c target => exact hrest
    exact h.target.trans (congrArg (·.or fixed) hfound.symm)
  calls p hp := List.mem_append_right _ (h.calls p hp)
  log := hlog
  failed herror := absurd (h.failed herror).1 hgoing
  silent := by
    intro hnone c target hmem
    rcases List.mem_append.mp hmem with hes | hold
    · exact (hquiet _ hes).2 c target rfl
    · exact h.silent hnone c target hold
  attempts := h.attempts

theorem Inv.beginPass (h : Inv src fixed s) (hphase : s.phase = .resolving)
    (resolver : Except κ (Str → Except κ (List RawSrvRecord))) (seed : UInt64) :
    Inv src fixed (beginPass src s resolver seed) := by
  have hgoing : s.phase ≠ .stopped := by
    rw [hphase]
    simp
  unfold FromUri.beginPass
  cases hc : (candidates src resolver seed : Except (SrvResolveError κ (ProbeOutcome ε)) _) with
  | error e => exact h.withPhase trivial hgoing
  | ok hosts =>
    have hgives := gives_of_candidates hc
    refine h.withLog ?_ hgoing ?_ ?_
    · apply phaseInv_nextTurn
      refine ⟨?_, covers_start hosts, hgives⟩
      intro host hmem
      exact List.mem_append_left _ (List.mem_reverse.mpr (List.mem_map_of_mem hmem))
    · have hall : ∀ host ∈ hosts.reverse, src.Allows host := fun host hmem =>
        hgives.allows host (List.mem_reverse.mp hmem)
      rw [← List.map_reverse]
      generalize hosts.reverse = list at hall
      induction list with
      | nil => exact h.log
      | cons host list ih =>
        exact ⟨hall host List.mem_cons_self, ih fun x hx => hall x (List.mem_cons_of_mem _ hx)⟩
    · intro e he
      obtain ⟨host, -, rfl⟩ := List.mem_map.mp (List.mem_reverse.mp he)
      simp

theorem Inv.settleTurn (h : Inv src fixed s) {race : Race ε} (hphase : s.phase = .selecting race)
    {i : ℕ} {host : SrvHost} (hi : i ∈ race.pending) (hhost : race.hosts[i]? = some host)
    (result : ProbeResult ε) : Inv src fixed (settleTurn s race i host result) := by
  have hgoing : s.phase ≠ .stopped := by
    rw [hphase]
    simp
  have hrace : PhaseInv src s.log s.phase := h.phase
  rw [hphase] at hrace
  obtain ⟨hprobes, hcovers, hgives⟩ := hrace
  have hlog : LogInv src.Allows fixed ([.answer host result] ++ s.log) :=
    ⟨hprobes host (List.mem_of_getElem? hhost), h.log⟩
  have hquiet : ∀ e ∈ [(.answer host result : Event ε)],
      (∀ found, e ≠ .tick found) ∧ ∀ c target, e ≠ .call c target := by
    intro e he
    rw [List.mem_singleton.mp he]
    simp
  unfold FromUri.settleTurn Race.settle
  cases hreason : Race.reason result with
  | none =>
    refine h.withLog ?_ hgoing hlog hquiet
    rw [Race.reason_eq_none.mp hreason]
    exact List.mem_cons_self
  | some outcome =>
    refine h.withLog ?_ hgoing hlog hquiet
    apply phaseInv_nextTurn
    exact ⟨fun x hx => List.mem_cons_of_mem _ (hprobes x hx), hcovers.reject hi hhost outcome, hgives⟩

/- A pass that found a primary makes it the target. -/
theorem Inv.found (h : Inv src fixed s) (hgoing : s.phase ≠ .stopped) {host : SrvHost}
    (hanswer : .answer host (.ok (.ok true)) ∈ s.log) :
    Inv src fixed { s with
      target := some host, phase := .sleeping, log := .tick (some host) :: s.log } where
  phase := trivial
  target := rfl
  calls p hp := List.mem_cons_of_mem _ (h.calls p hp)
  log := by
    refine ⟨?_, h.log⟩
    intro host' hhost
    cases hhost
    exact hanswer
  failed herror := absurd (h.failed herror).1 hgoing
  silent := by
    intro hnone
    cases hnone
  attempts := h.attempts

/- One that found none leaves the target alone. -/
theorem Inv.notFound (h : Inv src fixed s) (phase : Phase κ ε) (error : Option (FromUriError κ ε))
    (hphase : PhaseInv src (.tick none :: s.log) phase)
    (hfailed : error ≠ none → phase = .stopped ∧ s.target = none)
    (hattempts : ∀ attempts, error = some (.noPrimary attempts) →
      ∃ hosts, src = .seedList hosts ∧ (attempts.map Prod.fst).Perm hosts) :
    Inv src fixed { s with phase, error, log := .tick none :: s.log } where
  phase := hphase
  target := h.target
  calls p hp := List.mem_cons_of_mem _ (h.calls p hp)
  log := by
    refine ⟨?_, h.log⟩
    intro host hhost
    cases hhost
  failed := hfailed
  silent := by
    intro hnone c target hmem
    rcases List.mem_cons.mp hmem with hnew | hold
    · cases hnew
    · exact h.silent hnone c target hold
  attempts := hattempts

theorem Inv.finishStartup (h : Inv src fixed s)
    {selection : Except (SrvResolveError κ (ProbeOutcome ε)) (Selection ε)}
    (hphase : s.phase = .selected selection) (htarget : s.target = none) :
    Inv src fixed (finishStartup src s selection) := by
  have hgoing : s.phase ≠ .stopped := by
    rw [hphase]
    simp
  have hfound : PhaseInv src s.log s.phase := h.phase
  rw [hphase] at hfound
  rcases selection with e | (host | attempts)
  · refine h.notFound .stopped (some (.srv e)) trivial ?_ ?_
    · intro _
      exact ⟨rfl, htarget⟩
    · intro attempts hsrv
      cases hsrv
  · exact h.found hgoing hfound
  · refine h.notFound .stopped (some (noPrimaryError src attempts)) trivial ?_ ?_
    · intro _
      exact ⟨rfl, htarget⟩
    · intro attempts' herror
      obtain ⟨hosts, hgives, hperm⟩ := hfound
      cases src with
      | srv hostname serviceName => cases herror
      | seedList list =>
        cases herror
        have hlist : hosts = list := hgives
        exact ⟨list, rfl, hlist ▸ hperm⟩

theorem Inv.finishTick (h : Inv src fixed s) {target : SrvHost}
    {selection : Except (SrvResolveError κ (ProbeOutcome ε)) (Selection ε)}
    (hphase : s.phase = .selected selection) (htarget : s.target = some target) :
    Inv src fixed (finishTick s target selection) := by
  have hgoing : s.phase ≠ .stopped := by
    rw [hphase]
    simp
  have hfound : PhaseInv src s.log s.phase := h.phase
  rw [hphase] at hfound
  have hnone : Inv src fixed { s with phase := .sleeping, log := .tick none :: s.log } :=
    h.notFound .sleeping s.error trivial (fun herror => absurd (h.failed herror).1 hgoing)
      h.attempts
  rcases selection with e | (host | attempts)
  · exact hnone
  · have hswap := h.found hgoing hfound
    simp only [FromUri.finishTick, foundOf, Selection.intoPrimary]
    split_ifs with heq
    · rw [htarget, heq]
      exact hswap
    · exact hswap
  · exact hnone

theorem Inv.step (h : Inv src fixed s) (a : Failover.Action κ ε) : Inv src fixed (step src s a) := by
  cases a with
  | resolved resolver seed =>
    simp only [FromUri.step]
    split
    next hphase => exact h.beginPass hphase resolver seed
    next => exact h
  | settled i result =>
    simp only [FromUri.step]
    split
    next race hphase =>
      split_ifs with hi
      · split
        next host hhost => exact h.settleTurn hphase hi hhost result
        next => exact h
      · exact h
    next => exact h
  | applied =>
    simp only [FromUri.step]
    split
    next selection hphase =>
      split
      next htarget => exact h.finishStartup hphase htarget
      next target htarget => exact h.finishTick hphase htarget
    next => exact h
  | timer =>
    simp only [FromUri.step]
    split
    next hphase => exact h.withPhase trivial (by rw [hphase]; simp)
    next => exact h
  | closed =>
    simp only [FromUri.step]
    split
    next hphase => exact h.withPhase trivial (by rw [hphase]; simp)
    next => exact h
  | call =>
    simp only [FromUri.step]
    split
    next target htarget =>
      have hread := h.target
      rw [htarget] at hread
      refine ⟨h.phase.mono (List.subset_cons_self _ _), ?_, ?_, ⟨hread.symm, h.log⟩, ?_, ?_,
        h.attempts⟩
      · rw [htarget]
        exact hread
      · refine List.forall_mem_cons.mpr ⟨List.mem_cons_self, ?_⟩
        intro p hp
        exact List.mem_cons_of_mem _ (h.calls p hp)
      · exact h.failed
      · intro hnone
        rw [htarget] at hnone
        cases hnone
    next => exact h
  | dial c =>
    simp only [FromUri.step]
    split
    next p hfind =>
      have hp := List.mem_of_find?_eq_some hfind
      refine ⟨h.phase.mono (List.subset_cons_self _ _), h.target, ?_, ⟨h.calls p hp, h.log⟩,
        h.failed, ?_, h.attempts⟩
      · intro q hq
        exact List.mem_cons_of_mem _ (h.calls q (List.mem_of_mem_filter hq))
      · intro hnone c' target hmem
        rcases List.mem_cons.mp hmem with hnew | hold
        · cases hnew
        · exact h.silent hnone c' target hold
    next => exact h

end

/- The host of a proxy that has no passes. -/
def fixedOf : UriRoute → Option SrvHost
  | .single host port _ => some ⟨host, port⟩
  | _ => none

theorem inv_start (route : UriRoute) :
    Inv (sourceOf route) (fixedOf route) (start route : System κ ε) := by
  cases route with
  | single host port useTls => exact ⟨trivial, rfl, by simp [start], trivial, by simp [start],
      by simp [start], by simp [start]⟩
  | seedList hosts useTls => exact ⟨trivial, rfl, by simp [start], trivial, by simp [start],
      by simp [start], by simp [start]⟩
  | srv hostname useTls serviceName => exact ⟨trivial, rfl, by simp [start], trivial,
      by simp [start], by simp [start], by simp [start]⟩

theorem inv_run (route : UriRoute) (acts : List (Failover.Action κ ε)) :
    Inv (sourceOf route) (fixedOf route) (run route acts : System κ ε) := by
  have hrun : ∀ s : System κ ε, Inv (sourceOf route) (fixedOf route) s →
      Inv (sourceOf route) (fixedOf route) (acts.foldl (FromUri.step (sourceOf route)) s) := by
    induction acts with
    | nil =>
      intro s h
      exact h
    | cons a acts ih =>
      intro s h
      exact ih _ (h.step a)
  exact hrun _ (inv_start route)

theorem connector_step (src : Source) (s : System κ ε) (a : Failover.Action κ ε) :
    (step src s a).connector = s.connector := by
  cases a with
  | resolved resolver seed =>
    simp only [step, beginPass]
    repeat' split
    all_goals rfl
  | settled i result =>
    simp only [step, settleTurn]
    repeat' split
    all_goals rfl
  | applied =>
    simp only [step, finishStartup, finishTick]
    repeat' split
    all_goals rfl
  | timer =>
    simp only [step]
    split <;> rfl
  | closed =>
    simp only [step]
    split <;> rfl
  | call =>
    simp only [step]
    split <;> rfl
  | dial c =>
    simp only [step]
    split <;> rfl

theorem connector_run (route : UriRoute) (acts : List (Failover.Action κ ε)) :
    (run route acts : System κ ε).connector = (start route : System κ ε).connector := by
  have hrun : ∀ s : System κ ε, (acts.foldl (step (sourceOf route)) s).connector = s.connector := by
    induction acts with
    | nil =>
      intro s
      rfl
    | cons a acts ih =>
      intro s
      rw [List.foldl_cons, ih, connector_step]
  exact hrun _

/-! ### Every connection string -/

/- A host of the list, with the default port. -/
def withPort (h : HostSpec) : SrvHost := ⟨h.host, h.port.getD 27017⟩

/-- The string names the host, or a name whose domain it is in. -/
def Named (p : ParsedConnectionUri) (host : SrvHost) : Prop :=
  match p.scheme with
  | .mongodb => host ∈ p.hosts.map withPort
  | .mongodbSrv => ∃ h, p.hosts = [h] ∧ InDomain h.host host.host

/- Whether the string asks for TLS, by an option or by its scheme. -/
def wantsTls (p : ParsedConnectionUri) : Bool := p.tls.getD (p.scheme = .mongodbSrv)

/-- All sockets a proxy has opened, for probes and for connections. -/
def sockets (s : System κ ε) : List Socket := (opened s.log).map (forwardTo · s.connector)

/-- The routes of a string that is accepted. -/
inductive Routed (p : ParsedConnectionUri) : UriRoute → Prop where
  | single (h : HostSpec) (hscheme : p.scheme = .mongodb) (hhosts : p.hosts = [h]) :
    Routed p (.single h.host (h.port.getD 27017) (wantsTls p))
  | seedList (hscheme : p.scheme = .mongodb) (hhosts : p.hosts.length ≠ 1) :
    Routed p (.seedList (p.hosts.map withPort) (wantsTls p))
  | srv (h : HostSpec) (hscheme : p.scheme = .mongodbSrv) (hhosts : p.hosts = [h]) :
    Routed p (.srv h.host (wantsTls p) p.srvServiceName)

theorem routed_of_parse {uri : Str} {p : ParsedConnectionUri} (h : parse uri = .ok p) :
    ∃ r, (route p : Except (FromUriError κ ε) UriRoute) = .ok r ∧ Routed p r := by
  have haccepted := Accepted.of_parse h
  cases hscheme : p.scheme with
  | mongodbSrv =>
    obtain ⟨host, hhosts⟩ := haccepted.srv_host hscheme
    have htls : wantsTls p = p.tls.getD true := by simp [wantsTls, hscheme]
    exact ⟨_, route_of_srv hscheme hhosts, htls ▸ Routed.srv ⟨host, none⟩ hscheme hhosts⟩
  | mongodb =>
    have htls : wantsTls p = p.tls.getD false := by simp [wantsTls, hscheme]
    have hpos := List.length_pos_iff.mpr haccepted.hosts_ne_nil
    by_cases hone : p.hosts.length = 1
    · obtain ⟨h, hhosts⟩ := List.length_eq_one_iff.mp hone
      exact ⟨_, route_of_single hscheme hhosts, htls ▸ Routed.single h hscheme hhosts⟩
    · exact ⟨_, route_of_seedList hscheme (by omega), htls ▸ Routed.seedList hscheme hone⟩

section
variable {p : ParsedConnectionUri} {r : UriRoute}

theorem Routed.connector (h : Routed p r) (acts : List (Failover.Action κ ε)) :
    (run r acts : System κ ε).connector = connectorOf (wantsTls p) := by
  rw [connector_run]
  cases h with
  | single h hscheme hhosts => rfl
  | seedList hscheme hhosts => rfl
  | srv h hscheme hhosts => rfl

theorem Routed.named (h : Routed p r) {host : SrvHost}
    (hhost : (sourceOf r).Allows host ∨ fixedOf r = some host) : Named p host := by
  cases h with
  | single h hscheme hhosts =>
    rcases hhost with hno | hfixed
    · cases hno
    · rw [Named, hscheme, hhosts]
      cases hfixed
      exact List.mem_singleton.mpr rfl
  | seedList hscheme hhosts =>
    rcases hhost with hmem | hno
    · rw [Named, hscheme]
      exact hmem
    · cases hno
  | srv h hscheme hhosts =>
    rcases hhost with hdomain | hno
    · rw [Named, hscheme]
      exact ⟨h, hhosts, hdomain⟩
    · cases hno

/- Only a single host is used without having said anything, and it is not asked. -/
theorem Routed.fixed (h : Routed p r) {host : SrvHost} (hfixed : fixedOf r = some host) :
    p.scheme = .mongodb ∧ p.hosts.map withPort = [host] ∧ ∀ host', ¬ (sourceOf r).Allows host' := by
  cases h with
  | single h hscheme hhosts =>
    cases hfixed
    refine ⟨hscheme, by rw [hhosts]; rfl, ?_⟩
    intro host' hmem
    cases hmem
  | seedList hscheme hhosts => cases hfixed
  | srv h hscheme hhosts => cases hfixed

theorem Routed.seeds (h : Routed p r) {hosts : List SrvHost} (hsource : sourceOf r = .seedList hosts)
    (hfixed : fixedOf r = none) : hosts = p.hosts.map withPort := by
  cases h with
  | single h hscheme hhosts => cases hfixed
  | seedList hscheme hhosts => exact (Source.seedList.inj hsource).symm
  | srv h hscheme hhosts => cases hsource

end

/-- A connection string that is accepted decides what is ever dialled. In every run of the proxy
`from_uri` makes of it: each socket, of a probe or of a connection, goes to a host the string
names or into the domain it names, over TLS exactly if the string or its scheme says so; a
connection dials what the latest pass before it was accepted had found and what had said it is
the primary, or the only host there is; if `from_uri` fails no connection is accepted, and then
every host of a seed list is reported. -/
theorem from_uri_opens {uri : Str} {p : ParsedConnectionUri} (h : parse uri = .ok p) :
    ∃ r, (route p : Except (FromUriError κ ε) UriRoute) = .ok r ∧ ∀ acts : List (Failover.Action κ ε),
      (∀ socket ∈ sockets (run r acts), ∃ host, Named p host ∧
        socket = forwardTo host (connectorOf (wantsTls p))) ∧
      (∀ later c target earlier, (run r acts).log = later ++ .dial c target :: earlier →
        ∃ mid before, earlier = mid ++ .call c target :: before ∧
          (latestFound before = some target ∧ .answer target (.ok (.ok true)) ∈ before ∨
            p.scheme = .mongodb ∧ p.hosts.map withPort = [target] ∧
              ∀ host, .probe host ∉ (run r acts).log)) ∧
      ((run r acts).error ≠ none → ∀ c target, .call c target ∉ (run r acts).log) ∧
      ∀ attempts, (run r acts).error = some (.noPrimary attempts) →
        (attempts.map Prod.fst).Perm (p.hosts.map withPort) := by
  obtain ⟨r, hroute, hr⟩ := routed_of_parse (κ := κ) (ε := ε) h
  refine ⟨r, hroute, ?_⟩
  intro acts
  have hinv : Inv (sourceOf r) (fixedOf r) (run r acts : System κ ε) := inv_run r acts
  have hconnector := hr.connector acts
  generalize run r acts = s at hinv hconnector
  refine ⟨?_, ?_, ?_, ?_⟩
  · intro socket hmem
    obtain ⟨host, hhost, rfl⟩ := List.mem_map.mp hmem
    exact ⟨host, hr.named (hinv.log.of_opened hhost), by rw [hconnector]⟩
  · intro later c target earlier hlog
    obtain ⟨mid, before, hsplit, hfound | ⟨-, hfixed⟩⟩ := hinv.log.of_dial hlog
    · exact ⟨mid, before, hsplit, .inl hfound⟩
    · obtain ⟨hscheme, hhosts, hnone⟩ := hr.fixed hfixed
      refine ⟨mid, before, hsplit, .inr ⟨hscheme, hhosts, ?_⟩⟩
      intro host hmem
      exact hnone host (hinv.log.of_probe hmem)
  · intro herror
    exact hinv.silent (hinv.failed herror).2
  · intro attempts herror
    obtain ⟨hosts, hsource, hperm⟩ := hinv.attempts attempts herror
    have htarget := (hinv.failed (by rw [herror]; exact Option.some_ne_none _)).2
    have hfixed : fixedOf r = none := by
      have hnone := hinv.target
      rw [htarget] at hnone
      exact (Option.or_eq_none_iff.mp hnone.symm).2
    rw [← hr.seeds hsource hfixed]
    exact hperm

/- Of the two hosts the second is the primary, and one connection is accepted. -/
def seedRun : List (Failover.Action Unit Unit) :=
  [.resolved (.error ()) 0, .settled 0 (.ok (.ok false)), .settled 1 (.ok (.ok true)), .applied,
    .call, .dial 0]

theorem seedRun_opens :
    ∃ r, (route seedParsed : Except (FromUriError Unit Unit) UriRoute) = .ok r ∧
      ⟨"b:27018".toList, some "b".toList⟩ ∈ sockets (run r seedRun) ∧
      ∀ socket ∈ sockets (run r seedRun), ∃ host, Named seedParsed host ∧
        socket = forwardTo host (some .webpkiRoots) := by
  have hparse : parse seedUri = .ok seedParsed := by decide
  obtain ⟨r, hroute, hall⟩ := from_uri_opens (κ := Unit) (ε := Unit) hparse
  refine ⟨r, hroute, ?_, (hall seedRun).1⟩
  cases hroute
  decide

end FromUri

end MongodProxy
