import Mathlib.Data.List.TakeWhile
import MongodProxy.Srv.Draw

/-!
# The order of the records (srv.rs, `order_by_priority_weight`)

Two loops without a bound: one takes the records of one priority off the sorted list, the
other empties such a group by one draw after another. A run of them is a derivation, with
the rounds in the order they were played; the functions with a bound compute what a run
ends with.
-/

namespace MongodProxy

/-- What every generator promises. -/
def WeightedRng.InRange {ρ : Type} (R : WeightedRng ρ) : Prop :=
  ∀ g max, (R.genRangeInclusive g max).1 ≤ max

namespace Srv
open PrefixSum StableSort

/-- A round that was played: the group before it and the number drawn. -/
structure Round where
  group : List RawSrvRecord
  pick : UInt32

section
variable {ρ : Type} (R : WeightedRng ρ)

/-- A run of the loop of `weighted_shuffle_into`: the rounds, the records in the order they were
selected, and the generator after it. -/
inductive Shuffle : List RawSrvRecord → ρ → List Round → List RawSrvRecord → ρ → Prop
  | done (rng : ρ) : Shuffle [] rng [] [] rng
  | round {group picked : List RawSrvRecord} {rng rng' rngEnd : ρ} {pick : UInt32}
      {r : RawSrvRecord} {rounds : List Round} (hne : group ≠ [])
      (hdraw : R.genRangeInclusive rng (total group) = (pick, rng'))
      (hr : (zeroFirst group)[selected pick group]? = some r)
      (hrest : Shuffle ((zeroFirst group).eraseIdx (selected pick group)) rng' rounds picked rngEnd) :
      Shuffle group rng (⟨group, pick⟩ :: rounds) (r :: picked) rngEnd

/-- A run of the loop of `order_by_priority_weight` over the sorted records. -/
inductive Order : List RawSrvRecord → ρ → List Round → List RawSrvRecord → Prop
  | done (rng : ρ) : Order [] rng [] []
  | group {first : RawSrvRecord} {rest picked ordered : List RawSrvRecord} {rng rng' : ρ}
      {rounds rounds' : List Round}
      (hshuffle : Shuffle R ((first :: rest).takeWhile fun r => r.priority = first.priority) rng
        rounds picked rng')
      (hrest : Order ((first :: rest).dropWhile fun r => r.priority = first.priority) rng'
        rounds' ordered) :
      Order (first :: rest) rng (rounds ++ rounds') (picked ++ ordered)

/-! ### The functions follow the loops -/

/-- Every group is emptied, after as many rounds as it has records. -/
theorem weightedShuffleInto_run (fuel : ℕ) (group : List RawSrvRecord) (rng : ρ)
    (out : List RawSrvRecord) (hfuel : group.length ≤ fuel) :
    ∃ rounds picked rngEnd, Shuffle R group rng rounds picked rngEnd ∧
      weightedShuffleInto R fuel group rng out = (out ++ picked, rngEnd) := by
  induction fuel generalizing group rng out with
  | zero =>
    have hnil : group = [] := List.eq_nil_of_length_eq_zero (by omega)
    subst hnil
    refine ⟨[], [], rng, .done rng, ?_⟩
    rw [weightedShuffleInto, List.append_nil]
  | succ fuel ih =>
    by_cases hne : group = []
    · subst hne
      refine ⟨[], [], rng, .done rng, ?_⟩
      rw [weightedShuffleInto, List.append_nil]
      rfl
    · rw [weightedShuffleInto_round R hne]
      generalize hdraw : R.genRangeInclusive rng (total group) = draw
      obtain ⟨pick, rng'⟩ := draw
      have hlt := selected_lt hne pick
      have hlen := (zeroFirst_stable group).perm.length_eq
      have hr := List.getElem?_eq_getElem hlt
      have hshorter : ((zeroFirst group).eraseIdx (selected pick group)).length ≤ fuel := by
        rw [List.length_eraseIdx_of_lt hlt]
        omega
      obtain ⟨rounds, picked, rngEnd, hrun, heq⟩ := ih _ rng' (out ++ [_]) hshorter
      refine ⟨_, _, rngEnd, .round hne hdraw hr hrun, ?_⟩
      rw [hr, Option.toList_some, heq, List.append_assoc, List.singleton_append]

theorem length_dropWhile_priority (first : RawSrvRecord) (rest : List RawSrvRecord) :
    ((first :: rest).dropWhile fun r => r.priority = first.priority).length ≤ rest.length := by
  rw [List.dropWhile_cons_of_pos (by simp)]
  exact (List.dropWhile_sublist _).length_le

theorem orderGroups_run (fuel : ℕ) (records : List RawSrvRecord) (rng : ρ)
    (out : List RawSrvRecord) (hfuel : records.length ≤ fuel) :
    ∃ rounds ordered, Order R records rng rounds ordered ∧
      orderGroups R fuel records rng out = out ++ ordered := by
  induction fuel generalizing records rng out with
  | zero =>
    have hnil : records = [] := List.eq_nil_of_length_eq_zero (by omega)
    subst hnil
    refine ⟨[], [], .done rng, ?_⟩
    rw [orderGroups, List.append_nil]
  | succ fuel ih =>
    cases records with
    | nil =>
      refine ⟨[], [], .done rng, ?_⟩
      rw [orderGroups, List.append_nil]
    | cons first rest =>
      obtain ⟨rounds, picked, rng', hshuffle, heq⟩ := weightedShuffleInto_run R _
        ((first :: rest).takeWhile fun r => r.priority = first.priority) rng out (Nat.le_refl _)
      rw [List.length_cons] at hfuel
      have hshorter := length_dropWhile_priority first rest
      obtain ⟨rounds', ordered, horder, heq'⟩ := ih _ rng' (out ++ picked)
        (hshorter.trans (by omega))
      refine ⟨_, _, .group hshuffle horder, ?_⟩
      rw [orderGroups, heq]
      simp only [heq', List.append_assoc]

/-! ### What a run ends with -/

variable {R}

theorem Shuffle.perm {group picked : List RawSrvRecord} {rng rngEnd : ρ} {rounds : List Round}
    (h : Shuffle R group rng rounds picked rngEnd) : picked.Perm group := by
  induction h with
  | done rng => exact List.Perm.refl _
  | @round group picked rng rng' rngEnd pick r rounds hne hdraw hr hrest ih =>
    obtain ⟨hlt, heq⟩ := List.getElem?_eq_some_iff.mp hr
    rw [← heq]
    refine (ih.cons _).trans ?_
    exact (List.getElem_cons_eraseIdx_perm hlt).trans (zeroFirst_stable group).perm

theorem Order.perm {records ordered : List RawSrvRecord} {rng : ρ} {rounds : List Round}
    (h : Order R records rng rounds ordered) : ordered.Perm records := by
  induction h with
  | done rng => exact List.Perm.refl _
  | group hshuffle hrest ih =>
    refine (hshuffle.perm.append ih).trans ?_
    rw [List.takeWhile_append_dropWhile]

/- In a sorted list a priority is followed by later ones. -/
theorem le_of_mem_dropWhile {first r : RawSrvRecord} {rest : List RawSrvRecord}
    (hsorted : (first :: rest).Pairwise fun a b => a.priority ≤ b.priority)
    (hr : r ∈ (first :: rest).dropWhile fun r => r.priority = first.priority) :
    first.priority ≤ r.priority := by
  rcases List.mem_cons.mp ((List.dropWhile_sublist _).subset hr) with rfl | hin
  · exact UInt16.le_refl _
  · exact List.rel_of_pairwise_cons hsorted hin

/-- Priorities never decrease. -/
theorem Order.pairwise {records ordered : List RawSrvRecord} {rng : ρ} {rounds : List Round}
    (h : Order R records rng rounds ordered)
    (hsorted : records.Pairwise fun a b => a.priority ≤ b.priority) :
    ordered.Pairwise fun a b => a.priority ≤ b.priority := by
  induction h with
  | done rng => exact List.Pairwise.nil
  | @group first rest picked ordered rng rng' rounds rounds' hshuffle hrest ih =>
    have hgroup : ∀ r ∈ picked, r.priority = first.priority := by
      intro r hr
      have hin := List.mem_takeWhile_imp (hshuffle.perm.mem_iff.mp hr)
      exact of_decide_eq_true hin
    rw [List.pairwise_append]
    refine ⟨?_, ih (hsorted.sublist (List.dropWhile_sublist _)), ?_⟩
    · apply List.pairwise_of_forall_mem_list
      intro a ha b hb
      rw [hgroup a ha, hgroup b hb]
      exact UInt16.le_refl _
    · intro a ha b hb
      rw [hgroup a ha]
      exact le_of_mem_dropWhile hsorted (hrest.perm.mem_iff.mp hb)

/-! ### What a round does -/

/-- The sums of a round are those of natural numbers, and the running sum reaches the draw at the
selected record and not before. -/
structure Round.Sound (round : Round) : Prop where
  fits : (weights round.group).sum < 2 ^ 32
  selected_lt : selected round.pick round.group < (zeroFirst round.group).length
  reached : round.pick.toNat
    ≤ ((weights (zeroFirst round.group)).take (selected round.pick round.group + 1)).sum
  first : selected round.pick round.group = 0 ∨
    ((weights (zeroFirst round.group)).take (selected round.pick round.group)).sum
      < round.pick.toNat

theorem sum_weights_le (rs : List RawSrvRecord) : (weights rs).sum ≤ 65535 * rs.length := by
  induction rs with
  | nil => exact Nat.le_refl _
  | cons r rs ih =>
    have hweight := r.weight.toNat_lt
    rw [weights_cons, List.sum_cons, List.length_cons]
    omega

/- 65535 times the largest weight is still a `u32`. -/
theorem sum_weights_lt {rs : List RawSrvRecord} (h : rs.length ≤ 65535) :
    (weights rs).sum < 2 ^ 32 := by
  have hle := sum_weights_le rs
  omega

theorem Round.Sound.of_pick_le {group : List RawSrvRecord} {pick : UInt32} (hne : group ≠ [])
    (hlen : group.length ≤ 65535) (hpick : pick ≤ total group) : Round.Sound ⟨group, pick⟩ := by
  have hfits := sum_weights_lt hlen
  have hsum := sum_weights_zeroFirst group
  have hsorted : (weights (zeroFirst group)).sum < 2 ^ 32 := by omega
  have hle : pick.toNat ≤ (weights (zeroFirst group)).sum := by
    rw [UInt32.le_iff_toNat_le, total, toNat_sum_weights hsorted] at hpick
    exact hpick
  obtain ⟨hreached, hfirst⟩ := selected_spec hne hsorted hle
  exact ⟨hfits, Srv.selected_lt hne pick, hreached, hfirst⟩

theorem Shuffle.sound (hR : R.InRange) {group picked : List RawSrvRecord} {rng rngEnd : ρ}
    {rounds : List Round} (h : Shuffle R group rng rounds picked rngEnd)
    (hlen : group.length ≤ 65535) : ∀ round ∈ rounds, round.Sound := by
  induction h with
  | done rng => simp
  | @round group picked rng rng' rngEnd pick r rounds hne hdraw hr hrest ih =>
    have hpick := hR rng (total group)
    rw [hdraw] at hpick
    have hshorter : ((zeroFirst group).eraseIdx (selected pick group)).length ≤ 65535 := by
      have hle := (List.eraseIdx_sublist (zeroFirst group) (selected pick group)).length_le
      have hsame := (zeroFirst_stable group).perm.length_eq
      omega
    rw [List.forall_mem_cons]
    exact ⟨Round.Sound.of_pick_le hne hlen hpick, ih hshorter⟩

theorem Order.sound (hR : R.InRange) {records ordered : List RawSrvRecord} {rng : ρ}
    {rounds : List Round} (h : Order R records rng rounds ordered)
    (hlen : records.length ≤ 65535) : ∀ round ∈ rounds, round.Sound := by
  induction h with
  | done rng => simp
  | group hshuffle hrest ih =>
    rw [List.forall_mem_append]
    refine ⟨hshuffle.sound hR ?_, ih ?_⟩
    · exact (List.takeWhile_sublist _).length_le.trans hlen
    · exact (List.dropWhile_sublist _).length_le.trans hlen

/-! ### Records without a weight -/

theorem zero_add_weight {r : RawSrvRecord} (h : r.weight = 0) :
    (0 : UInt32) + r.weight.toUInt32 = 0 := by
  rw [h]
  rfl

theorem chosenIndex_of_zero (pick : UInt32) {rs : List RawSrvRecord}
    (hzero : ∀ r ∈ rs, r.weight = 0) (hpick : ¬ pick ≤ 0) (idx : ℕ) :
    chosenIndex pick 0 idx rs = 0 := by
  induction rs generalizing idx with
  | nil => rfl
  | cons r rs ih =>
    rw [List.forall_mem_cons] at hzero
    rw [chosenIndex, zero_add_weight hzero.1, if_neg hpick]
    exact ih hzero.2 (idx + 1)

theorem zeroFirst_of_zero {group : List RawSrvRecord} (hzero : ∀ r ∈ group, r.weight = 0) :
    zeroFirst group = group := by
  apply List.Pairwise.insertionSort_eq
  apply List.pairwise_of_forall_mem_list
  intro a ha b hb
  exact Or.inl (hzero a ha)

/- The first record is taken, also if the draw is one that no running sum reaches. -/
theorem selected_of_zero (pick : UInt32) {group : List RawSrvRecord}
    (hzero : ∀ r ∈ group, r.weight = 0) : selected pick group = 0 := by
  rw [selected, zeroFirst_of_zero hzero]
  by_cases hpick : pick ≤ 0
  · cases group with
    | nil => rfl
    | cons r group =>
      rw [chosenIndex, zero_add_weight (hzero r List.mem_cons_self), if_pos hpick]
  · exact chosenIndex_of_zero pick hzero hpick 0

theorem Shuffle.eq_of_zero {group picked : List RawSrvRecord} {rng rngEnd : ρ}
    {rounds : List Round} (h : Shuffle R group rng rounds picked rngEnd)
    (hzero : ∀ r ∈ group, r.weight = 0) : picked = group := by
  induction h with
  | done rng => rfl
  | @round group picked rng rng' rngEnd pick r rounds hne hdraw hr hrest ih =>
    rw [selected_of_zero pick hzero, zeroFirst_of_zero hzero] at hr ih
    cases group with
    | nil => exact absurd rfl hne
    | cons first group =>
      rw [List.getElem?_cons_zero, Option.some.injEq] at hr
      rw [List.forall_mem_cons] at hzero
      rw [← hr, ih hzero.2, List.eraseIdx_cons_zero]

theorem Order.eq_of_zero {records ordered : List RawSrvRecord} {rng : ρ} {rounds : List Round}
    (h : Order R records rng rounds ordered) (hzero : ∀ r ∈ records, r.weight = 0) :
    ordered = records := by
  induction h with
  | done rng => rfl
  | group hshuffle hrest ih =>
    have hpicked := hshuffle.eq_of_zero fun r hr => hzero r ((List.takeWhile_sublist _).subset hr)
    have hothers := ih fun r hr => hzero r ((List.dropWhile_sublist _).subset hr)
    rw [hpicked, hothers, List.takeWhile_append_dropWhile]

end

/-! ### The whole order -/

theorem splitMix64_inRange : SplitMix64.rng.InRange := by
  intro g max
  have hlt := max.toNat_lt
  unfold SplitMix64.rng
  by_cases hzero : max = 0
  · simp only [if_pos hzero]
    exact UInt32.zero_le
  · simp only [if_neg hzero]
    have hsucc : (max.toUInt64 + 1).toNat = max.toNat + 1 := by
      rw [UInt64.toNat_add, UInt32.toNat_toUInt64, UInt64.toNat_one, Nat.mod_eq_of_lt (by omega)]
    rw [UInt32.le_iff_toNat_le, UInt64.toNat_toUInt32, UInt64.toNat_mod, hsucc]
    have hmod : g.nextU64.1.toNat % (max.toNat + 1) < max.toNat + 1 := Nat.mod_lt _ (by omega)
    rw [Nat.mod_eq_of_lt (by omega)]
    omega

def byPriority (records : List RawSrvRecord) : List RawSrvRecord :=
  records.insertionSort fun a b => a.priority ≤ b.priority

theorem byPriority_stable (records : List RawSrvRecord) :
    StableSortBy (fun r => r.priority.toNat) records (byPriority records) := by
  apply stableSortBy_insertionSort
  intro a b
  exact UInt16.le_iff_toNat_le

theorem byPriority_pairwise (records : List RawSrvRecord) :
    (byPriority records).Pairwise fun a b => a.priority ≤ b.priority :=
  (byPriority_stable records).ordered.imp fun h => UInt16.le_iff_toNat_le.mpr h

theorem orderByPriorityWeight_run {ρ : Type} (R : WeightedRng ρ) (records : List RawSrvRecord)
    (rng : ρ) :
    ∃ rounds, Order R (byPriority records) rng rounds (orderByPriorityWeight R records rng) := by
  obtain ⟨rounds, ordered, hrun, heq⟩ :=
    orderGroups_run R (byPriority records).length (byPriority records) rng [] (Nat.le_refl _)
  refine ⟨rounds, ?_⟩
  have hsame : orderByPriorityWeight R records rng = ordered := heq
  rw [hsame]
  exact hrun

/-- No record is lost and none is duplicated. -/
theorem orderByPriorityWeight_perm {ρ : Type} (R : WeightedRng ρ) (records : List RawSrvRecord)
    (rng : ρ) : (orderByPriorityWeight R records rng).Perm records := by
  obtain ⟨rounds, hrun⟩ := orderByPriorityWeight_run R records rng
  exact hrun.perm.trans (byPriority_stable records).perm

/-- Priorities never decrease, whatever is drawn. -/
theorem orderByPriorityWeight_pairwise {ρ : Type} (R : WeightedRng ρ) (records : List RawSrvRecord)
    (rng : ρ) :
    (orderByPriorityWeight R records rng).Pairwise fun a b => a.priority ≤ b.priority := by
  obtain ⟨rounds, hrun⟩ := orderByPriorityWeight_run R records rng
  exact hrun.pairwise (byPriority_pairwise records)

/-- The records are put in the order of their priorities by a run of the two loops in which no sum
overflows and every draw is reached; without weights this is the stable sort. -/
theorem orderByPriorityWeight_ordered (records : List RawSrvRecord)
    (hlen : records.length ≤ 65535) :
    SplitMix64.rng.InRange ∧
      (∀ (ρ : Type) (R : WeightedRng ρ) (rng : ρ), R.InRange →
        (orderByPriorityWeight R records rng).Perm records ∧
        ((orderByPriorityWeight R records rng).Pairwise fun a b => a.priority ≤ b.priority) ∧
        ∃ rounds, Order R (byPriority records) rng rounds (orderByPriorityWeight R records rng) ∧
          ∀ round ∈ rounds, round.Sound) ∧
      ((∀ r ∈ records, r.weight = 0) → ∀ (ρ : Type) (R : WeightedRng ρ) (rng : ρ),
        StableSortBy (fun r => r.priority.toNat) records (orderByPriorityWeight R records rng)) := by
  refine ⟨splitMix64_inRange, ?_, ?_⟩
  · intro ρ R rng hR
    obtain ⟨rounds, hrun⟩ := orderByPriorityWeight_run R records rng
    refine ⟨orderByPriorityWeight_perm R records rng, orderByPriorityWeight_pairwise R records rng,
      rounds, hrun, hrun.sound hR ?_⟩
    rw [(byPriority_stable records).perm.length_eq]
    exact hlen
  · intro hzero ρ R rng
    obtain ⟨rounds, hrun⟩ := orderByPriorityWeight_run R records rng
    have hsame := hrun.eq_of_zero fun r hr => hzero r ((byPriority_stable records).perm.mem_iff.mp hr)
    rw [hsame]
    exact byPriority_stable records

/- A fallback of priority 1 listed before two records of priority 0. -/
def fallbackFirst : List RawSrvRecord :=
  [⟨"c".toList, 27017, 1, 0⟩, ⟨"a".toList, 27017, 0, 0⟩, ⟨"b".toList, 27017, 0, 0⟩]

theorem fallbackFirst_ordered :
    fallbackFirst.length ≤ 65535 ∧ (∀ r ∈ fallbackFirst, r.weight = 0) ∧
      StableSortBy (fun r => r.priority.toNat) fallbackFirst
        (orderByPriorityWeight SplitMix64.rng fallbackFirst ⟨7⟩) ∧
      ∃ rounds, Order SplitMix64.rng (byPriority fallbackFirst) ⟨7⟩ rounds
          (orderByPriorityWeight SplitMix64.rng fallbackFirst ⟨7⟩) ∧
        ∀ round ∈ rounds, round.Sound := by
  have hzero : ∀ r ∈ fallbackFirst, r.weight = 0 := by decide
  obtain ⟨hrng, hdrawn, hstable⟩ := orderByPriorityWeight_ordered fallbackFirst (by decide)
  exact ⟨by decide, hzero, hstable hzero _ SplitMix64.rng ⟨7⟩,
    (hdrawn _ SplitMix64.rng ⟨7⟩ hrng).2.2⟩

end Srv
end MongodProxy
