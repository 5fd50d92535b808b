import MongodProxy.Serve.Probe
import MongodProxy.Srv.Resolve

/-!
# Choosing and changing the upstream (serve/service.rs)

`from_srv_inner` resolves and selects once and builds the proxy; `spawn_reprobe_loop`
then sleeps, resolves and selects again, and swaps the target if it found a primary.
Connections read the target when they are accepted and dial it afterwards. The answers
of DNS, the probes and the moments at which anything happens come from outside, one
action at a time.
-/

namespace MongodProxy
namespace Failover

structure Target where
  host : Str
  port : UInt16
  deriving DecidableEq, Repr

def Target.ofHost (h : SrvHost) : Target := ⟨h.host, h.port⟩

/-- `apply_primary`: the target afterwards, and whether it was swapped. -/
def applyPrimary (target : Target) (primary : SrvHost) : Target × Bool :=
  let next := Target.ofHost primary
  if target = next then (target, false) else (next, true)

/-- The startup selection or one tick: what DNS answered, and the probes that have settled, in the
order they did. -/
structure Pass (κ ε : Type) where
  resolver : Except κ (Str → Except κ (List RawSrvRecord))
  seed : UInt64
  settled : List (SrvHost × ProbeResult ε)

/- One phase for each await of the startup and of the loop; `selected` is between the end of the
selection and its effect. -/
inductive Phase (κ ε : Type) where
  | resolving
  | selecting (pass : Pass κ ε) (race : Race ε)
  | selected (pass : Pass κ ε) (found : Option SrvHost)
  | sleeping
  | stopped

inductive Event (κ ε : Type) where
  | tick (pass : Pass κ ε) (found : Option SrvHost)
  | call (c : ℕ) (target : Target)
  | dial (c : ℕ) (target : Target)

structure System (κ ε : Type) where
  phase : Phase κ ε
  /-- The watch channel, once the proxy is built. -/
  target : Option Target
  /-- Connections that have read the target and have not dialled yet. -/
  calls : List (ℕ × Target)
  accepted : ℕ
  /-- Newest first. -/
  log : List (Event κ ε)

inductive Action (κ ε : Type) where
  | resolved (resolver : Except κ (Str → Except κ (List RawSrvRecord))) (seed : UInt64)
  | settled (i : ℕ) (result : ProbeResult ε)
  | applied
  | timer
  | closed
  | call
  | dial (c : ℕ)

variable {κ ε : Type}

def System.initial : System κ ε := ⟨.resolving, none, [], 0, []⟩

/- The head of the loop in `select_primary`. -/
def nextTurn (pass : Pass κ ε) (race : Race ε) : Phase κ ε :=
  match race.exhausted with
  | some selection => .selected pass selection.intoPrimary
  | none => .selecting pass race

/- The probe of one host settles. -/
def settleTurn (pass : Pass κ ε) (race : Race ε) (i : ℕ) (host : SrvHost) (result : ProbeResult ε) :
    Phase κ ε :=
  let pass := { pass with settled := pass.settled ++ [(host, result)] }
  match race.settle i host result with
  | .inl selection => .selected pass selection.intoPrimary
  | .inr race => nextTurn pass race

section
variable (hostname serviceName : Str) (reprobe : Bool)

/- `resolve_with_service_name`, and the start of the selection if it succeeds. -/
def resolveTurn (resolver : Except κ (Str → Except κ (List RawSrvRecord))) (seed : UInt64) :
    Phase κ ε :=
  let resolution : Except (SrvResolveError κ (ProbeOutcome ε)) (List SrvHost) :=
    resolveWithServiceName hostname serviceName resolver seed
  match resolution with
  | .ok hosts => nextTurn ⟨resolver, seed, []⟩ (.start hosts)
  | .error _ => .selected ⟨resolver, seed, []⟩ none

/- The end of a pass. Before the proxy is built it ends the startup: the proxy is built, or the
constructor fails. Later it ends a tick of the loop. -/
def finishPass (s : System κ ε) (pass : Pass κ ε) (found : Option SrvHost) : System κ ε :=
  let s := { s with log := .tick pass found :: s.log }
  match s.target, found with
  | none, none => { s with phase := .stopped }
  | none, some primary =>
    { s with target := some (.ofHost primary), phase := if reprobe then .sleeping else .stopped }
  | some _, none => { s with phase := .sleeping }
  | some target, some primary =>
    { s with target := some (applyPrimary target primary).1, phase := .sleeping }

/-- Actions that are not possible in a state leave it as it is. -/
def step (s : System κ ε) : Action κ ε → System κ ε
  | .resolved resolver seed =>
    match s.phase with
    | .resolving => { s with phase := resolveTurn hostname serviceName resolver seed }
    | _ => s
  | .settled i result =>
    match s.phase with
    | .selecting pass race =>
      if i ∈ race.pending then
        match race.hosts[i]? with
        | some host => { s with phase := settleTurn pass race i host result }
        | none => s
      else s
    | _ => s
  | .applied =>
    match s.phase with
    | .selected pass found => finishPass reprobe s pass found
    | _ => s
  | .timer =>
    match s.phase with
    | .sleeping => { s with phase := .resolving }
    | _ => s
  | .closed =>
    match s.phase with
    | .sleeping => { s with phase := .stopped }
    | _ => s
  -- `Proxy::call` reads the target, the future it returns dials it
  | .call =>
    match s.target with
    | some target =>
      { s with
        calls := (s.accepted, target) :: s.calls
        accepted := s.accepted + 1
        log := .call s.accepted target :: s.log }
    | none => s
  | .dial c =>
    match s.calls.find? fun p => p.1 = c with
    | some p =>
      { s with
        calls := s.calls.filter fun q => q.1 ≠ c
        log := .dial p.1 p.2 :: s.log }
    | none => s

def run (acts : List (Action κ ε)) : System κ ε :=
  acts.foldl (step hostname serviceName reprobe) .initial

/-! ### What a pass may find -/

/-- The lookup was answered with `raw`. -/
def Pass.Answered (pass : Pass κ ε) (raw : List RawSrvRecord) : Prop :=
  ∃ lookup, pass.resolver = .ok lookup ∧ lookup (srvQuery hostname serviceName) = .ok raw

/-- The host lies under the parent domain of the queried name. -/
def InDomain (host : Str) : Prop := ∃ s, host = s ++ '.' :: parentDomain hostname

/- The hosts the pass goes on with: the answers, all of them in the domain. -/
def Pass.Resolved (pass : Pass κ ε) (hosts : List SrvHost) : Prop :=
  ∃ raw, pass.Answered hostname serviceName raw ∧
    (∀ r ∈ raw, InDomain hostname (stripTrailingDot r.target)) ∧
    hosts.Perm (raw.map fun r => ⟨stripTrailingDot r.target, r.port⟩)

/- A host is found only if it was resolved and said it is the primary. -/
def Pass.Justifies (pass : Pass κ ε) (found : Option SrvHost) : Prop :=
  ∀ host, found = some host → ∃ hosts, pass.Resolved hostname serviceName hosts ∧ host ∈ hosts ∧
    (host, .ok (.ok true)) ∈ pass.settled

def PhaseInv : Phase κ ε → Prop
  | .selecting pass race => pass.Resolved hostname serviceName race.hosts
  | .selected pass found => pass.Justifies hostname serviceName found
  | _ => True

variable {hostname serviceName}

theorem phaseInv_nextTurn {pass : Pass κ ε} {race : Race ε}
    (h : pass.Resolved hostname serviceName race.hosts) :
    PhaseInv hostname serviceName (nextTurn pass race) := by
  unfold nextTurn
  cases hex : race.exhausted with
  | none => exact h
  | some selection =>
    simp only [Race.exhausted] at hex
    split_ifs at hex
    cases hex
    intro host hfound
    cases hfound

theorem phaseInv_resolveTurn (resolver : Except κ (Str → Except κ (List RawSrvRecord)))
    (seed : UInt64) :
    PhaseInv hostname serviceName (resolveTurn hostname serviceName resolver seed : Phase κ ε) := by
  unfold resolveTurn
  cases hres : (resolveWithServiceName hostname serviceName resolver seed :
      Except (SrvResolveError κ (ProbeOutcome ε)) (List SrvHost)) with
  | error e =>
    intro host hfound
    cases hfound
  | ok hosts =>
    obtain ⟨lookup, raw, hresolver, hraw, hdomain, hperm⟩ :=
      Srv.resolveWithServiceName_eq_ok hres
    exact phaseInv_nextTurn ⟨raw, ⟨lookup, hresolver, hraw⟩, hdomain, hperm⟩

theorem phaseInv_settleTurn {pass : Pass κ ε} {race : Race ε} {i : ℕ} {host : SrvHost}
    (h : pass.Resolved hostname serviceName race.hosts) (hhost : race.hosts[i]? = some host)
    (result : ProbeResult ε) :
    PhaseInv hostname serviceName (settleTurn pass race i host result) := by
  unfold settleTurn Race.settle
  cases hreason : Race.reason result with
  | none =>
    -- the only selection a turn makes is the host that answered
    intro found hfound
    cases hfound
    rw [Race.reason_eq_none.mp hreason]
    exact ⟨race.hosts, h, List.mem_of_getElem? hhost, by simp⟩
  | some outcome =>
    apply phaseInv_nextTurn
    exact h

/-! ### The log -/

/-- The latest pass that found a primary, and the host it found. -/
def latestFound (log : List (Event κ ε)) : Option (Pass κ ε × SrvHost) :=
  log.findSome? fun
    | .tick pass (some host) => some (pass, host)
    | _ => none

variable (hostname serviceName) in
/- A pass finds what it may, a connection reads what the latest pass found, and dials what it
read. -/
def LogInv : List (Event κ ε) → Prop
  | [] => True
  | .tick pass found :: rest => pass.Justifies hostname serviceName found ∧ LogInv rest
  | .call _ target :: rest =>
    (latestFound rest).map (fun p => Target.ofHost p.2) = some target ∧ LogInv rest
  | .dial c target :: rest => .call c target ∈ rest ∧ LogInv rest

theorem LogInv.tail {front rest : List (Event κ ε)}
    (h : LogInv hostname serviceName (front ++ rest)) : LogInv hostname serviceName rest := by
  induction front with
  | nil => exact h
  | cons e front ih =>
    cases e with
    | tick pass found => exact ih h.2
    | call c target => exact ih h.2
    | dial c target => exact ih h.2

theorem LogInv.justified {log : List (Event κ ε)} (h : LogInv hostname serviceName log)
    {pass : Pass κ ε} {host : SrvHost} (hlatest : latestFound log = some (pass, host)) :
    pass.Justifies hostname serviceName (some host) := by
  obtain ⟨front, e, rest, rfl, he, -⟩ := List.findSome?_eq_some_iff.mp hlatest
  have hrest := h.tail
  cases e with
  | tick pass' found =>
    cases found with
    | none => cases he
    | some host' =>
      cases he
      exact hrest.1
  | call c target => cases he
  | dial c target => cases he

variable (hostname serviceName) in
structure Inv (s : System κ ε) : Prop where
  phase : PhaseInv hostname serviceName s.phase
  target : s.target = (latestFound s.log).map fun p => Target.ofHost p.2
  calls : ∀ p ∈ s.calls, Event.call p.1 p.2 ∈ s.log
  log : LogInv hostname serviceName s.log

theorem inv_initial : Inv hostname serviceName (.initial : System κ ε) where
  phase := trivial
  target := rfl
  calls := by simp [System.initial]
  log := trivial

/- A step of the startup or of the loop before the end of a pass. -/
theorem Inv.withPhase {s : System κ ε} (h : Inv hostname serviceName s) {phase : Phase κ ε}
    (hphase : PhaseInv hostname serviceName phase) :
    Inv hostname serviceName { s with phase } :=
  ⟨hphase, h.target, h.calls, h.log⟩

theorem applyPrimary_fst (target : Target) (primary : SrvHost) :
    (applyPrimary target primary).1 = .ofHost primary := by
  unfold applyPrimary
  simp only
  split_ifs with h
  · exact h
  · rfl

theorem finishPass_log (s : System κ ε) (pass : Pass κ ε) (found : Option SrvHost) :
    (finishPass reprobe s pass found).log = .tick pass found :: s.log := by
  unfold finishPass
  cases s.target <;> cases found <;> rfl

theorem finishPass_calls (s : System κ ε) (pass : Pass κ ε) (found : Option SrvHost) :
    (finishPass reprobe s pass found).calls = s.calls := by
  unfold finishPass
  cases s.target <;> cases found <;> rfl

theorem finishPass_target_some (s : System κ ε) (pass : Pass κ ε) (primary : SrvHost) :
    (finishPass reprobe s pass (some primary)).target = some (.ofHost primary) := by
  unfold finishPass
  cases s.target with
  | none => rfl
  | some target => exact congrArg some (applyPrimary_fst target primary)

theorem finishPass_target_none (s : System κ ε) (pass : Pass κ ε) :
    (finishPass reprobe s pass none).target = s.target := by
  unfold finishPass
  cases s.target <;> rfl

theorem finishPass_phase (s : System κ ε) (pass : Pass κ ε) (found : Option SrvHost) :
    PhaseInv hostname serviceName (finishPass reprobe s pass found).phase := by
  unfold finishPass
  cases s.target with
  | some target => cases found <;> trivial
  | none =>
    cases found with
    | none => trivial
    | some primary => cases reprobe <;> trivial

theorem Inv.finishPass {s : System κ ε} (h : Inv hostname serviceName s) {pass : Pass κ ε}
    {found : Option SrvHost} (hfound : pass.Justifies hostname serviceName found) :
    Inv hostname serviceName (finishPass reprobe s pass found) where
  phase := finishPass_phase reprobe s pass found
  target := by
    rw [finishPass_log]
    cases found with
    | some primary => exact finishPass_target_some reprobe s pass primary
    | none =>
      rw [finishPass_target_none]
      exact h.target
  calls := by
    intro p hp
    rw [finishPass_calls] at hp
    rw [finishPass_log]
    exact List.mem_cons_of_mem _ (h.calls p hp)
  log := by
    rw [finishPass_log]
    exact ⟨hfound, h.log⟩

theorem Inv.step {s : System κ ε} (h : Inv hostname serviceName s) (a : Action κ ε) :
    Inv hostname serviceName (step hostname serviceName reprobe s a) := by
  cases a with
  | resolved resolver seed =>
    simp only [Failover.step]
    split
    · exact h.withPhase (phaseInv_resolveTurn resolver seed)
    · exact h
  | settled i result =>
    simp only [Failover.step]
    split
    next pass race hphase =>
      have hresolved : PhaseInv hostname serviceName s.phase := h.phase
      rw [hphase] at hresolved
      split_ifs
      · split
        next host hhost => exact h.withPhase (phaseInv_settleTurn hresolved hhost result)
        next => exact h
      · exact h
    next => exact h
  | applied =>
    simp only [Failover.step]
    split
    next pass found hphase =>
      have hfound : PhaseInv hostname serviceName s.phase := h.phase
      rw [hphase] at hfound
      exact h.finishPass reprobe hfound
    next => exact h
  | timer =>
    simp only [Failover.step]
    split
    · exact h.withPhase trivial
    · exact h
  | closed =>
    simp only [Failover.step]
    split
    · exact h.withPhase trivial
    · exact h
  | call =>
    simp only [Failover.step]
    split
    next target htarget =>
      have hread := h.target
      rw [htarget] at hread
      refine ⟨h.phase, by rw [htarget]; exact hread, ?_, ⟨hread.symm, h.log⟩⟩
      refine List.forall_mem_cons.mpr ⟨List.mem_cons_self .., ?_⟩
      intro p hp
      exact List.mem_cons_of_mem _ (h.calls p hp)
    next => exact h
  | dial c =>
    simp only [Failover.step]
    split
    next p hfind =>
      have hp := List.mem_of_find?_eq_some hfind
      refine ⟨h.phase, h.target, ?_, ⟨h.calls p hp, h.log⟩⟩
      intro q hq
      exact List.mem_cons_of_mem _ (h.calls q (List.mem_of_mem_filter hq))
    next => exact h

theorem Inv.steps {s : System κ ε} (h : Inv hostname serviceName s) (acts : List (Action κ ε)) :
    Inv hostname serviceName (acts.foldl (Failover.step hostname serviceName reprobe) s) := by
  induction acts generalizing s with
  | nil => exact h
  | cons a acts ih => exact ih (h.step reprobe a)

theorem inv_run (acts : List (Action κ ε)) :
    Inv hostname serviceName (run hostname serviceName reprobe acts) :=
  inv_initial.steps reprobe acts

variable (hostname serviceName) in
/-- The lookup failed, a target it answered is outside the domain, or no host said it is the
primary. -/
def Pass.Fails (pass : Pass κ ε) : Prop :=
  (¬ ∃ raw, pass.Answered hostname serviceName raw) ∨
    (∃ raw, pass.Answered hostname serviceName raw ∧
      ∃ r ∈ raw, ¬ InDomain hostname (stripTrailingDot r.target)) ∨
    ∀ host, (host, .ok (.ok true)) ∉ pass.settled

theorem Pass.Answered.unique {pass : Pass κ ε} {raw raw' : List RawSrvRecord}
    (h : pass.Answered hostname serviceName raw) (h' : pass.Answered hostname serviceName raw') :
    raw = raw' := by
  obtain ⟨lookup, hresolver, hraw⟩ := h
  obtain ⟨lookup', hresolver', hraw'⟩ := h'
  rw [hresolver] at hresolver'
  cases hresolver'
  exact Except.ok.inj (hraw.symm.trans hraw')

theorem Pass.found_of_fails {pass : Pass κ ε} {found : Option SrvHost}
    (h : pass.Justifies hostname serviceName found) (hf : pass.Fails hostname serviceName) :
    found = none := by
  cases hfound : found with
  | none => rfl
  | some host =>
    obtain ⟨hosts, ⟨raw, hanswer, hdomain, -⟩, -, htrue⟩ := h host hfound
    rcases hf with hno | ⟨raw', hanswer', r, hr, hout⟩ | hnone
    · exact absurd ⟨raw, hanswer⟩ hno
    · rw [hanswer'.unique hanswer] at hr
      exact absurd (hdomain r hr) hout
    · exact absurd htrue (hnone host)

/- Only the end of a pass writes a tick, and it applies what the pass found. -/
theorem step_tick {s : System κ ε} {a : Action κ ε} {pass : Pass κ ε} {found : Option SrvHost}
    (h : (Failover.step hostname serviceName reprobe s a).log = .tick pass found :: s.log) :
    s.phase = .selected pass found ∧
      Failover.step hostname serviceName reprobe s a = Failover.finishPass reprobe s pass found := by
  have hself : ∀ (e : Event κ ε), s.log ≠ e :: s.log := fun e => (List.cons_ne_self e s.log).symm
  cases a with
  | applied =>
    simp only [Failover.step] at h ⊢
    split at h
    next pass' found' hphase =>
      rw [finishPass_log] at h
      cases (List.cons.inj h).1
      rw [hphase]
      exact ⟨rfl, rfl⟩
    next => exact absurd h (hself _)
  | resolved resolver seed =>
    simp only [Failover.step] at h
    split at h <;> exact absurd h (hself _)
  | settled i result =>
    simp only [Failover.step] at h
    repeat' split at h
    all_goals exact absurd h (hself _)
  | timer =>
    simp only [Failover.step] at h
    split at h <;> exact absurd h (hself _)
  | closed =>
    simp only [Failover.step] at h
    split at h <;> exact absurd h (hself _)
  | call =>
    simp only [Failover.step] at h
    split at h
    next => cases (List.cons.inj h).1
    next => exact absurd h (hself _)
  | dial c =>
    simp only [Failover.step] at h
    split at h
    next => cases (List.cons.inj h).1
    next => exact absurd h (hself _)

variable (hostname serviceName) in
/-- In every run each connection dials what the latest pass before it was accepted had found: a
host under the parent domain, among the answers of that pass, that had said it is the primary. A
pass that fails leaves the target as it was. -/
theorem dials_in_parent_domain (acts : List (Action κ ε)) :
    (∀ later c target earlier,
      (run hostname serviceName reprobe acts).log = later ++ .dial c target :: earlier →
      ∃ mid before pass host, earlier = mid ++ .call c target :: before ∧
        latestFound before = some (pass, host) ∧ target = .ofHost host ∧
        InDomain hostname host.host ∧ (host, .ok (.ok true)) ∈ pass.settled ∧
        ∃ raw, pass.Answered hostname serviceName raw ∧
          ∃ r ∈ raw, host = ⟨stripTrailingDot r.target, r.port⟩) ∧
    ∀ a pass found,
      (step hostname serviceName reprobe (run hostname serviceName reprobe acts) a).log
        = .tick pass found :: (run hostname serviceName reprobe acts).log →
      pass.Fails hostname serviceName →
      (step hostname serviceName reprobe (run hostname serviceName reprobe acts) a).target
        = (run hostname serviceName reprobe acts).target := by
  have hinv : Inv hostname serviceName (run hostname serviceName reprobe acts) :=
    inv_run reprobe acts
  generalize run hostname serviceName reprobe acts = s at hinv
  refine ⟨?_, ?_⟩
  · intro later c target earlier hlog
    have hdial := hinv.log
    rw [hlog] at hdial
    obtain ⟨hcall, hearlier⟩ := hdial.tail
    obtain ⟨mid, before, rfl⟩ := List.append_of_mem hcall
    obtain ⟨hread, hbefore⟩ := hearlier.tail
    obtain ⟨⟨pass, host⟩, hlatest, htarget⟩ := Option.map_eq_some_iff.mp hread
    obtain ⟨hosts, ⟨raw, hanswer, hdomain, hperm⟩, hmem, htrue⟩ :=
      hbefore.justified hlatest host rfl
    obtain ⟨r, hr, hhost⟩ := List.mem_map.mp (hperm.mem_iff.mp hmem)
    refine ⟨mid, before, pass, host, rfl, hlatest, htarget.symm, ?_, htrue, raw, hanswer, r, hr,
      hhost.symm⟩
    rw [← hhost]
    exact hdomain r hr
  · intro a pass found hlog hfails
    obtain ⟨hphase, hstep⟩ := step_tick reprobe hlog
    have hjust : PhaseInv hostname serviceName s.phase := hinv.phase
    rw [hphase] at hjust
    rw [hstep, Pass.found_of_fails hjust hfails, finishPass_target_none]

end

/- One record under `a.b`, which is the primary, and one connection. -/
def sampleRun : List (Action Unit Unit) :=
  [.resolved (.ok fun _ => .ok [⟨"x.a.b.".toList, 27017, 0, 0⟩]) 0, .settled 0 (.ok (.ok true)),
    .applied, .call, .dial 0]

theorem sampleRun_dials :
    ∃ mid before pass host,
      (run "a.b".toList "mongodb".toList true sampleRun).log.tail
        = mid ++ .call 0 ⟨"x.a.b".toList, 27017⟩ :: before ∧
      latestFound before = some (pass, host) ∧ ⟨"x.a.b".toList, 27017⟩ = Target.ofHost host ∧
      InDomain "a.b".toList host.host ∧ (host, .ok (.ok true)) ∈ pass.settled ∧
      ∃ raw, pass.Answered "a.b".toList "mongodb".toList raw ∧
        ∃ r ∈ raw, host = ⟨stripTrailingDot r.target, r.port⟩ :=
  (dials_in_parent_domain "a.b".toList "mongodb".toList true sampleRun).1 [] 0
    ⟨"x.a.b".toList, 27017⟩ _ rfl

end Failover
end MongodProxy
