import MongodProxy.Srv

/-!
# Primary selection (serve/probe.rs)

`select_primary` puts one probe for each position of the host list into a pool and
takes them out in the order they complete. The first one that answers `true` ends the
race; the others are collected with the reason they were rejected. A race is a pool of
positions and what was rejected so far, and `settle` is one turn of the loop.
-/

namespace MongodProxy

/- The error of `tokio::time::timeout`. -/
inductive Elapsed where
  | elapsed

/-- What one probe ends with, under its timeout. -/
abbrev ProbeResult (ε : Type) := Except Elapsed (Except ε Bool)

inductive ProbeOutcome (ε : Type) where
  | notPrimary
  | failed (e : ε)
  | timedOut

inductive Selection (ε : Type) where
  | primary (host : SrvHost)
  | noPrimary (attempts : List (SrvHost × ProbeOutcome ε))

variable {ε : Type}

def Selection.intoPrimary : Selection ε → Option SrvHost
  | .primary host => some host
  | .noPrimary _ => none

/-- Positions whose probe has not settled, and the rejected hosts in the order they settled. -/
structure Race (ε : Type) where
  hosts : List SrvHost
  pending : List ℕ
  rejected : List (SrvHost × ProbeOutcome ε)

namespace Race

def start (hosts : List SrvHost) : Race ε := ⟨hosts, List.range hosts.length, []⟩

/- Why a result other than `true` rejects its host. -/
def reason : ProbeResult ε → Option (ProbeOutcome ε)
  | .ok (.ok true) => none
  | .ok (.ok false) => some .notPrimary
  | .ok (.error e) => some (.failed e)
  | .error .elapsed => some .timedOut

/-- One turn of the loop: the probe of position `i` is taken out of the pool with its result. -/
def settle (race : Race ε) (i : ℕ) (host : SrvHost) (result : ProbeResult ε) :
    Selection ε ⊕ Race ε :=
  match reason result with
  | none => .inl (.primary host)
  | some outcome =>
    .inr { race with
      pending := race.pending.erase i
      rejected := race.rejected ++ [(host, outcome)] }

/-- The pool answers `None` once it is empty. -/
def exhausted (race : Race ε) : Option (Selection ε) :=
  if race.pending.isEmpty then some (.noPrimary race.rejected) else none

end Race

/-- The loop of `select_primary` on the positions in the order their probes complete. It has no
answer as long as a probe is out and none has completed. -/
def selectLoop (results : ℕ → ProbeResult ε) : Race ε → List ℕ → Option (Selection ε)
  | race, [] => race.exhausted
  | race, i :: order =>
    match race.exhausted with
    | some selection => some selection
    | none =>
      if i ∈ race.pending then
        match race.hosts[i]? with
        | none => none
        | some host =>
          match race.settle i host (results i) with
          | .inl selection => some selection
          | .inr race => selectLoop results race order
      else none

def selectPrimary (hosts : List SrvHost) (results : ℕ → ProbeResult ε) (order : List ℕ) :
    Option (Selection ε) :=
  selectLoop results (.start hosts) order

/-! ### Every completion order -/

theorem Race.reason_eq_none {r : ProbeResult ε} : reason r = none ↔ r = .ok (.ok true) := by
  cases r with
  | error e =>
    cases e
    simp [reason]
  | ok r =>
    cases r with
    | error e => simp [reason]
    | ok b => cases b <;> simp [reason]

/-- The outcome recorded for a probe that did not answer `true`. -/
inductive OwnOutcome : ProbeResult ε → ProbeOutcome ε → Prop
  | notPrimary : OwnOutcome (.ok (.ok false)) .notPrimary
  | failed (e : ε) : OwnOutcome (.ok (.error e)) (.failed e)
  | timedOut : OwnOutcome (.error .elapsed) .timedOut

theorem Race.ownOutcome_of_reason {r : ProbeResult ε} {o : ProbeOutcome ε}
    (h : reason r = some o) : OwnOutcome r o := by
  cases r with
  | error e =>
    cases e
    cases h
    exact .timedOut
  | ok r =>
    cases r with
    | error e =>
      cases h
      exact .failed e
    | ok b =>
      cases b with
      | true => cases h
      | false =>
        cases h
        exact .notPrimary

/- One entry for each position, in the order given. -/
def Attempts (hosts : List SrvHost) (results : ℕ → ProbeResult ε) (order : List ℕ)
    (attempts : List (SrvHost × ProbeOutcome ε)) : Prop :=
  List.Forall₂ (fun i a => hosts[i]? = some a.1 ∧ OwnOutcome (results i) a.2) order attempts

/-- The loop on a pool whose probes complete in the order given. -/
theorem selectLoop_of_perm (results : ℕ → ProbeResult ε) (race : Race ε) (order : List ℕ)
    (hperm : order.Perm race.pending) (hvalid : ∀ i ∈ race.pending, i < race.hosts.length) :
    (∃ front i rest host, order = front ++ i :: rest ∧ results i = .ok (.ok true) ∧
      (∀ j ∈ front, results j ≠ .ok (.ok true)) ∧ race.hosts[i]? = some host ∧
      selectLoop results race order = some (.primary host)) ∨
    ∃ attempts, (∀ i ∈ order, results i ≠ .ok (.ok true)) ∧
      Attempts race.hosts results order attempts ∧
      selectLoop results race order = some (.noPrimary (race.rejected ++ attempts)) := by
  induction order generalizing race with
  | nil =>
    right
    have hnil : race.pending = [] := hperm.symm.eq_nil
    refine ⟨[], by simp, List.Forall₂.nil, ?_⟩
    simp [selectLoop, Race.exhausted, hnil]
  | cons i order ih =>
    have hmem : i ∈ race.pending := hperm.subset (List.mem_cons_self ..)
    have hnone : race.exhausted = none := by
      have hne : race.pending ≠ [] := List.ne_nil_of_mem hmem
      simp [Race.exhausted, hne]
    have hhost : race.hosts[i]? = some (race.hosts.get ⟨i, hvalid i hmem⟩) :=
      List.getElem?_eq_getElem (hvalid i hmem)
    generalize race.hosts.get ⟨i, hvalid i hmem⟩ = host at hhost
    simp only [selectLoop, hnone, if_pos hmem, hhost, Race.settle]
    cases hreason : Race.reason (results i) with
    | none =>
      left
      exact ⟨[], i, order, host, rfl, Race.reason_eq_none.mp hreason, by simp, hhost, rfl⟩
    | some outcome =>
      have hfalse : results i ≠ .ok (.ok true) := by
        intro htrue
        rw [Race.reason_eq_none.mpr htrue] at hreason
        cases hreason
      have hrest : order.Perm (race.pending.erase i) := by
        have h := hperm.erase i
        rwa [List.erase_cons_head] at h
      have hstep := ih { race with
          pending := race.pending.erase i
          rejected := race.rejected ++ [(host, outcome)] } hrest
        (fun j hj => hvalid j (List.mem_of_mem_erase hj))
      rcases hstep with ⟨front, j, rest, host', hsplit, htrue, hfront, hj, hsel⟩ |
        ⟨attempts, hall, hattempts, hsel⟩
      · left
        refine ⟨i :: front, j, rest, host', by rw [hsplit, List.cons_append], htrue, ?_, hj, hsel⟩
        exact List.forall_mem_cons.mpr ⟨hfalse, hfront⟩
      · right
        refine ⟨(host, outcome) :: attempts, List.forall_mem_cons.mpr ⟨hfalse, hall⟩, ?_, ?_⟩
        · exact List.Forall₂.cons ⟨hhost, Race.ownOutcome_of_reason hreason⟩ hattempts
        · refine hsel.trans ?_
          rw [List.append_assoc, List.singleton_append]

/-- Whatever the order: a primary is selected exactly if some probe answers `true`, and then it is
the host of the first one to do so; otherwise every position is reported with its own outcome, in
the order the probes completed. -/
theorem selectPrimary_exact (hosts : List SrvHost) (results : ℕ → ProbeResult ε) (order : List ℕ)
    (hperm : order.Perm (List.range hosts.length)) :
    ((∃ h, selectPrimary hosts results order = some (.primary h)) ↔
      ∃ i < hosts.length, results i = .ok (.ok true)) ∧
    (∀ h, selectPrimary hosts results order = some (.primary h) →
      ∃ front i rest, order = front ++ i :: rest ∧ results i = .ok (.ok true) ∧
        (∀ j ∈ front, results j ≠ .ok (.ok true)) ∧ hosts[i]? = some h) ∧
    ((¬ ∃ i < hosts.length, results i = .ok (.ok true)) →
      ∃ attempts, selectPrimary hosts results order = some (.noPrimary attempts) ∧
        Attempts hosts results order attempts) := by
  have hposition : ∀ i, i ∈ order ↔ i < hosts.length := by
    intro i
    rw [hperm.mem_iff, List.mem_range]
  have hloop := selectLoop_of_perm results (.start hosts) order hperm
    (fun i hi => List.mem_range.mp hi)
  rcases hloop with ⟨front, i, rest, host, hsplit, htrue, hfront, hhost, hsel⟩ |
    ⟨attempts, hall, hattempts, hsel⟩
  · have hi : i < hosts.length := (hposition i).mp (by rw [hsplit]; simp)
    refine ⟨⟨fun _ => ⟨i, hi, htrue⟩, fun _ => ⟨host, hsel⟩⟩, ?_, fun hno => absurd ⟨i, hi, htrue⟩ hno⟩
    intro h hprimary
    have hh := hsel.symm.trans hprimary
    cases hh
    exact ⟨front, i, rest, hsplit, htrue, hfront, hhost⟩
  · have hno : ¬ ∃ h, selectPrimary hosts results order = some (.primary h) := by
      rintro ⟨h, hprimary⟩
      cases hsel.symm.trans hprimary
    refine ⟨⟨fun h => absurd h hno, ?_⟩, fun h hprimary => absurd ⟨h, hprimary⟩ hno, ?_⟩
    · rintro ⟨i, hi, htrue⟩
      exact absurd htrue (hall i ((hposition i).mpr hi))
    · intro _
      exact ⟨attempts, hsel, hattempts⟩

/- Twice the same secondary and a primary that is probed in between and answers last. -/
theorem selectPrimary_last :
    ∃ front i rest, [2, 0, 1] = front ++ i :: rest ∧
      (fun i => if i = 1 then .ok (.ok true) else .ok (.ok false) : ℕ → ProbeResult Unit) i
        = .ok (.ok true) ∧
      (∀ j ∈ front, (fun i => if i = 1 then .ok (.ok true) else .ok (.ok false) :
        ℕ → ProbeResult Unit) j ≠ .ok (.ok true)) ∧
      ([⟨['a'], 1⟩, ⟨['b'], 1⟩, ⟨['a'], 1⟩] : List SrvHost)[i]? = some ⟨['b'], 1⟩ :=
  (selectPrimary_exact [⟨['a'], 1⟩, ⟨['b'], 1⟩, ⟨['a'], 1⟩] _ [2, 0, 1] (by decide)).2.1 _ rfl

end MongodProxy
