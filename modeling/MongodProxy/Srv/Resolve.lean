import MongodProxy.Srv.Order

/-!
# Answers of a lookup (srv.rs, `resolve_with`)

The answer is taken as a whole or not at all: one target outside the parent domain
rejects it. The check on the labels of a target is a check on the string, so what is
accepted can be said without labels.
-/

namespace MongodProxy
namespace Srv

/-- The target, without its trailing dot, is something in front of the parent domain. -/
def UnderParent (hostname : Str) (r : RawSrvRecord) : Prop :=
  ∃ p, stripTrailingDot r.target = p ++ '.' :: parentDomain hostname

theorem underParent_iff (hostname : Str) (r : RawSrvRecord) :
    UnderParent hostname r ↔
      targetInParentDomain (stripTrailingDot r.target) (parentDomain hostname) = true :=
  (targetInParentDomain_iff _ _).symm

/- The host that a record stands for. -/
def hostOf (r : RawSrvRecord) : SrvHost := ⟨stripTrailingDot r.target, r.port⟩

section
variable {κ α : Type}

theorem validateTargets_of_all {hostname : Str} {records : List RawSrvRecord}
    (h : ∀ r ∈ records, UnderParent hostname r) :
    (validateTargets hostname (parentDomain hostname) records : Except (SrvResolveError κ α) _)
      = .ok (records.map hostOf) := by
  induction records with
  | nil => rfl
  | cons record rest ih =>
    rw [List.forall_mem_cons] at h
    have hin := (underParent_iff hostname record).mp h.1
    simp only [validateTargets, hin, ih h.2]
    rfl

/- The loop stops at the first target outside. -/
theorem validateTargets_of_outside {hostname : Str} {records : List RawSrvRecord}
    (h : ∃ r ∈ records, ¬ UnderParent hostname r) :
    ∃ r ∈ records, ¬ UnderParent hostname r ∧
      (validateTargets hostname (parentDomain hostname) records : Except (SrvResolveError κ α) _)
        = .error (.domainMismatch hostname (parentDomain hostname) (stripTrailingDot r.target)) := by
  induction records with
  | nil =>
    obtain ⟨r, hr, -⟩ := h
    cases hr
  | cons record rest ih =>
    by_cases hfirst : UnderParent hostname record
    · have hrest : ∃ r ∈ rest, ¬ UnderParent hostname r := by
        obtain ⟨r, hr, hout⟩ := h
        rcases List.mem_cons.mp hr with rfl | hr
        · exact absurd hfirst hout
        · exact ⟨r, hr, hout⟩
      obtain ⟨r, hr, hout, herror⟩ := ih hrest
      refine ⟨r, List.mem_cons_of_mem _ hr, hout, ?_⟩
      have hin := (underParent_iff hostname record).mp hfirst
      simp only [validateTargets, hin, herror]
      rfl
    · refine ⟨record, List.mem_cons_self, hfirst, ?_⟩
      rw [underParent_iff, Bool.not_eq_true] at hfirst
      simp only [validateTargets, hfirst, if_true]

variable {hostname serviceName : Str} {lookup : Str → Except κ (List RawSrvRecord)}
  {raw : List RawSrvRecord}

theorem resolveWith_of_lookup (hlookup : lookup (srvQuery hostname serviceName) = .ok raw)
    (seed : UInt64) :
    (resolveWith hostname serviceName lookup seed : Except (SrvResolveError κ α) _)
      = (validateTargets hostname (parentDomain hostname)
          (orderByPriorityWeight SplitMix64.rng raw ⟨seed⟩) >>= fun hosts =>
        if hosts.isEmpty then .error (.noRecords hostname serviceName) else pure hosts) := by
  rw [resolveWith, hlookup]
  rfl

theorem resolveWith_of_all (hlookup : lookup (srvQuery hostname serviceName) = .ok raw)
    (hne : raw ≠ []) (h : ∀ r ∈ raw, UnderParent hostname r) (seed : UInt64) :
    (resolveWith hostname serviceName lookup seed : Except (SrvResolveError κ α) _)
      = .ok ((orderByPriorityWeight SplitMix64.rng raw ⟨seed⟩).map hostOf) := by
  have hperm := orderByPriorityWeight_perm SplitMix64.rng raw ⟨seed⟩
  have hordered : ∀ r ∈ orderByPriorityWeight SplitMix64.rng raw ⟨seed⟩, UnderParent hostname r := by
    intro r hr
    exact h r (hperm.mem_iff.mp hr)
  have hsome : ((orderByPriorityWeight SplitMix64.rng raw ⟨seed⟩).map hostOf).isEmpty = false := by
    rw [List.isEmpty_eq_false_iff, ne_eq, List.map_eq_nil_iff]
    intro hnil
    rw [hnil] at hperm
    exact hne hperm.nil_eq.symm
  rw [resolveWith_of_lookup hlookup, validateTargets_of_all hordered]
  show (if _ then _ else _) = _
  rw [hsome]
  rfl

theorem resolveWith_of_outside (hlookup : lookup (srvQuery hostname serviceName) = .ok raw)
    (h : ∃ r ∈ raw, ¬ UnderParent hostname r) (seed : UInt64) :
    ∃ r ∈ raw, ¬ UnderParent hostname r ∧
      (resolveWith hostname serviceName lookup seed : Except (SrvResolveError κ α) _)
        = .error (.domainMismatch hostname (parentDomain hostname) (stripTrailingDot r.target)) := by
  have hperm := orderByPriorityWeight_perm SplitMix64.rng raw ⟨seed⟩
  have hordered : ∃ r ∈ orderByPriorityWeight SplitMix64.rng raw ⟨seed⟩, ¬ UnderParent hostname r := by
    obtain ⟨r, hr, hout⟩ := h
    exact ⟨r, hperm.mem_iff.mpr hr, hout⟩
  obtain ⟨r, hr, hout, herror⟩ := validateTargets_of_outside hordered
  refine ⟨r, hperm.mem_iff.mp hr, hout, ?_⟩
  rw [resolveWith_of_lookup hlookup, herror]
  rfl

theorem resolveWith_of_nil (hlookup : lookup (srvQuery hostname serviceName) = .ok [])
    (seed : UInt64) :
    (resolveWith hostname serviceName lookup seed : Except (SrvResolveError κ α) _)
      = .error (.noRecords hostname serviceName) := by
  rw [resolveWith_of_lookup hlookup]
  rfl

/-- What is resolved: the whole answer, and only if all of it is under the parent domain. -/
theorem resolveWith_eq_ok_iff (hlookup : lookup (srvQuery hostname serviceName) = .ok raw)
    (seed : UInt64) (hosts : List SrvHost) :
    (resolveWith hostname serviceName lookup seed : Except (SrvResolveError κ α) _) = .ok hosts ↔
      raw ≠ [] ∧ (∀ r ∈ raw, UnderParent hostname r) ∧
        hosts = (orderByPriorityWeight SplitMix64.rng raw ⟨seed⟩).map hostOf := by
  by_cases hnil : raw = []
  · subst hnil
    rw [resolveWith_of_nil hlookup]
    simp
  · by_cases hall : ∀ r ∈ raw, UnderParent hostname r
    · rw [resolveWith_of_all hlookup hnil hall, Except.ok.injEq]
      constructor
      · intro heq
        exact ⟨hnil, hall, heq.symm⟩
      · intro h
        exact h.2.2.symm
    · have hout := hall
      simp only [not_forall, exists_prop] at hout
      obtain ⟨r, -, -, herror⟩ := resolveWith_of_outside hlookup hout seed
      rw [herror]
      constructor
      · intro heq
        cases heq
      · intro h
        exact absurd h.2.1 hall

/-- An answer is accepted exactly if it is not empty and every target is under the parent domain;
the hosts are then all of it, in the order of the priorities. Otherwise a target outside is named. -/
theorem resolveWith_all_or_nothing (hlookup : lookup (srvQuery hostname serviceName) = .ok raw)
    (seed : UInt64) :
    ((∃ hosts, (resolveWith hostname serviceName lookup seed : Except (SrvResolveError κ α) _)
        = .ok hosts) ↔ raw ≠ [] ∧ ∀ r ∈ raw, UnderParent hostname r) ∧
      (∀ hosts, (resolveWith hostname serviceName lookup seed : Except (SrvResolveError κ α) _)
          = .ok hosts →
        ∃ ordered : List RawSrvRecord, ordered.Perm raw ∧
          (ordered.Pairwise fun a b => a.priority ≤ b.priority) ∧ hosts = ordered.map hostOf) ∧
      ((∃ r ∈ raw, ¬ UnderParent hostname r) → ∃ r ∈ raw, ¬ UnderParent hostname r ∧
        (resolveWith hostname serviceName lookup seed : Except (SrvResolveError κ α) _)
          = .error (.domainMismatch hostname (parentDomain hostname) (stripTrailingDot r.target))) ∧
      (raw = [] → (resolveWith hostname serviceName lookup seed : Except (SrvResolveError κ α) _)
        = .error (.noRecords hostname serviceName)) := by
  simp only [resolveWith_eq_ok_iff hlookup seed]
  refine ⟨⟨?_, ?_⟩, ?_, ?_, ?_⟩
  · rintro ⟨hosts, hne, hall, -⟩
    exact ⟨hne, hall⟩
  · intro hall
    exact ⟨_, hall.1, hall.2, rfl⟩
  · intro hosts hok
    exact ⟨_, orderByPriorityWeight_perm SplitMix64.rng raw ⟨seed⟩,
      orderByPriorityWeight_pairwise SplitMix64.rng raw ⟨seed⟩, hok.2.2⟩
  · intro hout
    exact resolveWith_of_outside hlookup hout seed
  · intro hnil
    rw [hnil] at hlookup
    exact resolveWith_of_nil hlookup seed

/-- What was resolved: the lookup answered, every target is under the parent domain, and the hosts
are the stripped targets with their ports. -/
theorem resolveWithServiceName_eq_ok {hostname serviceName : Str}
    {resolver : Except κ (Str → Except κ (List RawSrvRecord))} {seed : UInt64}
    {hosts : List SrvHost}
    (h : (resolveWithServiceName hostname serviceName resolver seed
      : Except (SrvResolveError κ α) _) = .ok hosts) :
    ∃ lookup raw, resolver = .ok lookup ∧ lookup (srvQuery hostname serviceName) = .ok raw ∧
      (∀ r ∈ raw, UnderParent hostname r) ∧ hosts.Perm (raw.map hostOf) := by
  simp only [resolveWithServiceName, Outcome.bind_eq_ok, Outcome.mapError_eq_ok] at h
  obtain ⟨lookup, hresolver, hok⟩ := h
  cases hraw : lookup (srvQuery hostname serviceName) with
  | error e =>
    rw [resolveWith, hraw] at hok
    cases hok
  | ok raw =>
    obtain ⟨-, hall, rfl⟩ := (resolveWith_eq_ok_iff hraw seed hosts).mp hok
    exact ⟨lookup, raw, hresolver, hraw, hall,
      (orderByPriorityWeight_perm SplitMix64.rng raw ⟨seed⟩).map _⟩

end

/- Two records under `x.y`, one with a trailing dot, and one that is the parent domain itself. -/
def twoAnswers : List RawSrvRecord := [⟨"b.x.y.".toList, 27018, 1, 0⟩, ⟨"a.x.y".toList, 27017, 0, 5⟩]

def parentAnswer : List RawSrvRecord := ⟨"x.y".toList, 27017, 0, 0⟩ :: twoAnswers

/- The lookup of `_mongodb._tcp.c.x.y`. -/
def answers (raw : List RawSrvRecord) (query : Str) : Except Unit (List RawSrvRecord) :=
  if query = "_mongodb._tcp.c.x.y".toList then .ok raw else .error ()

theorem twoAnswers_resolved :
    answers twoAnswers (srvQuery "c.x.y".toList "mongodb".toList) = .ok twoAnswers ∧
      answers parentAnswer (srvQuery "c.x.y".toList "mongodb".toList) = .ok parentAnswer ∧
      (∃ hosts, (resolveWith "c.x.y".toList "mongodb".toList (answers twoAnswers) 0
        : Except (SrvResolveError Unit Unit) _) = .ok hosts) ∧
      ¬ ∃ hosts, (resolveWith "c.x.y".toList "mongodb".toList (answers parentAnswer) 0
        : Except (SrvResolveError Unit Unit) _) = .ok hosts := by
  have htwo : answers twoAnswers (srvQuery "c.x.y".toList "mongodb".toList) = .ok twoAnswers := by
    decide
  have hparent : answers parentAnswer (srvQuery "c.x.y".toList "mongodb".toList)
      = .ok parentAnswer := by decide
  refine ⟨htwo, hparent, ?_, ?_⟩
  · rw [(resolveWith_all_or_nothing htwo 0).1]
    simp only [underParent_iff]
    decide
  · rw [(resolveWith_all_or_nothing hparent 0).1]
    simp only [underParent_iff]
    decide

end Srv
end MongodProxy
