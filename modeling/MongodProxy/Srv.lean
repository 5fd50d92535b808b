import Mathlib.Data.List.Perm.Basic
import Mathlib.Data.List.Sort
import Mathlib.Data.UInt
import Mathlib.Tactic.Common
import MongodProxy.Lib.Outcome
import MongodProxy.Lib.Str

/-!
# SRV resolution (srv.rs)

The answers of one DNS query are ordered (by priority, and by a weighted draw inside a
priority), stripped of their trailing dots and checked one by one against the parent
domain of the queried name; the first one outside it rejects the whole answer. The DNS
query and the seed of the generator come from outside.
-/

namespace MongodProxy

@[ext]
structure SrvHost where
  host : Str
  port : UInt16
  deriving DecidableEq, Repr

structure RawSrvRecord where
  target : Str
  port : UInt16
  priority : UInt16
  weight : UInt16
  deriving DecidableEq, Repr

/- `κ` is the resolver's failure and `α` why a candidate was not chosen. -/
inductive SrvResolveError (κ α : Type) where
  | resolverInit (e : κ)
  | lookup (hostname service : Str) (source : κ)
  | noRecords (hostname service : Str)
  | domainMismatch (hostname parent target : Str)
  | noPrimary (hostname : Str) (attempts : List (SrvHost × α))

/-! ### The order of the records -/

/-- `WeightedRng::gen_range_inclusive`: a draw from `0..=max`, and the generator after it. -/
structure WeightedRng (ρ : Type) where
  genRangeInclusive : ρ → UInt32 → UInt32 × ρ

structure SplitMix64 where
  state : UInt64

namespace SplitMix64

def nextU64 (g : SplitMix64) : UInt64 × SplitMix64 :=
  let state := g.state + 0x9E3779B97F4A7C15
  let z := state
  let z := (z ^^^ (z >>> 30)) * 0xBF58476D1CE4E5B9
  let z := (z ^^^ (z >>> 27)) * 0x94D049BB133111EB
  (z ^^^ (z >>> 31), ⟨state⟩)

def rng : WeightedRng SplitMix64 where
  genRangeInclusive g max :=
    if max = 0 then (0, g)
    else
      let (z, g) := g.nextU64
      ((z % (max.toUInt64 + 1)).toUInt32, g)

end SplitMix64

section
variable {ρ : Type} (R : WeightedRng ρ)

/- The loop that looks for the first record whose running sum reaches `pick`. -/
def chosenIndex (pick : UInt32) : UInt32 → ℕ → List RawSrvRecord → ℕ
  | _, _, [] => 0
  | running, idx, record :: rest =>
    if pick ≤ running + record.weight.toUInt32 then idx
    else chosenIndex pick (running + record.weight.toUInt32) (idx + 1) rest

/-- `weighted_shuffle_into`; a round takes one record out of the group, so `fuel` is its length. -/
def weightedShuffleInto : ℕ → List RawSrvRecord → ρ → List RawSrvRecord → List RawSrvRecord × ρ
  | 0, _, rng, out => (out, rng)
  | fuel + 1, group, rng, out =>
    if group.isEmpty then (out, rng)
    else
      let group := group.insertionSort fun a b => a.weight = 0 ∨ b.weight ≠ 0
      let total := (group.map fun r => r.weight.toUInt32).sum
      let (pick, rng) := R.genRangeInclusive rng total
      let chosen := chosenIndex pick 0 0 group
      weightedShuffleInto fuel (group.eraseIdx chosen) rng (out ++ group[chosen]?.toList)

/- The group at the front has the priority of the first record. -/
def orderGroups : ℕ → List RawSrvRecord → ρ → List RawSrvRecord → List RawSrvRecord
  | 0, _, _, ordered => ordered
  | _ + 1, [], _, ordered => ordered
  | fuel + 1, first :: rest, rng, ordered =>
    let group := (first :: rest).takeWhile fun r => r.priority = first.priority
    let (ordered, rng) := weightedShuffleInto R group.length group rng ordered
    orderGroups fuel ((first :: rest).dropWhile fun r => r.priority = first.priority) rng ordered

def orderByPriorityWeight (records : List RawSrvRecord) (rng : ρ) : List RawSrvRecord :=
  let records := records.insertionSort fun a b => a.priority ≤ b.priority
  orderGroups R records.length records rng []

end

/-! ### Names -/

def stripTrailingDot (s : Str) : Str := if s.getLast? = some '.' then s.dropLast else s

/-- The name without its first label, if it has three or more. -/
def parentDomain (hostname : Str) : Str :=
  let labels := hostname.splitOn '.'
  if 3 ≤ labels.length then ['.'].intercalate labels.tail else hostname

def targetInParentDomain (target parent : Str) : Bool :=
  let targetLabels := target.splitOn '.'
  if targetLabels.length < 2 then false
  else (parent.splitOn '.').isSuffixOf targetLabels.tail

/-- The check on labels is a check on strings: something, a dot, and the parent domain. -/
theorem targetInParentDomain_iff (target parent : Str) :
    targetInParentDomain target parent = true ↔ ∃ s, target = s ++ '.' :: parent := by
  have hjoin : ['.'].intercalate (target.splitOn '.') = target := List.intercalate_splitOn '.'
  refine ⟨?_, ?_⟩
  · intro h
    simp only [targetInParentDomain] at h
    cases hlabels : target.splitOn '.' with
    | nil => exact absurd hlabels (List.splitOn_ne_nil _ _)
    | cons first rest =>
      rw [hlabels] at h hjoin
      split_ifs at h
      rw [List.isSuffixOf_iff_suffix, List.tail_cons] at h
      obtain ⟨front, hfront⟩ := h
      refine ⟨['.'].intercalate (first :: front), ?_⟩
      rw [← hjoin, ← hfront, ← List.cons_append,
        Str.intercalate_append '.' _ _ (List.cons_ne_nil _ _) (List.splitOn_ne_nil _ _),
        List.intercalate_splitOn]
  · intro h
    obtain ⟨s, rfl⟩ := h
    simp only [targetInParentDomain, List.splitOn_append_cons_self]
    cases hlabels : s.splitOn '.' with
    | nil => exact absurd hlabels (List.splitOn_ne_nil _ _)
    | cons first rest =>
      have hparent := List.length_pos_iff.mpr (List.splitOn_ne_nil '.' parent)
      rw [if_neg (by simp only [List.length_append, List.length_cons]; omega),
        List.isSuffixOf_iff_suffix, List.cons_append, List.tail_cons]
      exact List.suffix_append _ _

/-! ### Resolution -/

section
variable {κ α : Type}

/- The loop over the ordered records. -/
def validateTargets (hostname parent : Str) :
    List RawSrvRecord → Except (SrvResolveError κ α) (List SrvHost)
  | [] => .ok []
  | record :: rest =>
    let host := stripTrailingDot record.target
    if targetInParentDomain host parent = false then
      .error (.domainMismatch hostname parent host)
    else do
      let hosts ← validateTargets hostname parent rest
      pure (⟨host, record.port⟩ :: hosts)

def srvQuery (hostname serviceName : Str) : Str :=
  '_' :: serviceName ++ ['.', '_', 't', 'c', 'p', '.'] ++ hostname

/-- `resolve_with`; `seed` is what `SplitMix64::from_entropy` starts from. -/
def resolveWith (hostname serviceName : Str) (lookup : Str → Except κ (List RawSrvRecord))
    (seed : UInt64) : Except (SrvResolveError κ α) (List SrvHost) := do
  let raw ← (lookup (srvQuery hostname serviceName)).mapError (.lookup hostname serviceName)
  let raw := orderByPriorityWeight SplitMix64.rng raw ⟨seed⟩
  let parent := parentDomain hostname
  let hosts ← validateTargets hostname parent raw
  if hosts.isEmpty then .error (.noRecords hostname serviceName) else pure hosts

/-- `resolve_with_service_name`; the resolver may not come up at all. -/
def resolveWithServiceName (hostname serviceName : Str)
    (resolver : Except κ (Str → Except κ (List RawSrvRecord))) (seed : UInt64) :
    Except (SrvResolveError κ α) (List SrvHost) := do
  let lookup ← resolver.mapError .resolverInit
  resolveWith hostname serviceName lookup seed

end

end MongodProxy
