import MongodProxy.Lib.PrefixSum
import MongodProxy.Lib.StableSort
import MongodProxy.Srv

/-!
# One weighted draw (srv.rs, `weighted_shuffle_into`)

A round sorts the records of weight zero to the front, draws a number up to the total
and takes the first record whose running sum reaches it. The sums are taken in `u32`;
while they fit, the round picks by a running sum of natural numbers.
-/

namespace MongodProxy
namespace Srv
open PrefixSum StableSort

/- The weights in the order of the records. -/
def weights (rs : List RawSrvRecord) : List ℕ := rs.map fun r => r.weight.toNat

/-- The group after `sort_by_key(|r| r.weight != 0)`. -/
def zeroFirst (group : List RawSrvRecord) : List RawSrvRecord :=
  group.insertionSort fun a b => a.weight = 0 ∨ b.weight ≠ 0

/- The upper end of the draw. -/
def total (group : List RawSrvRecord) : UInt32 :=
  ((zeroFirst group).map fun r => r.weight.toUInt32).sum

/-- The position in the sorted group that a draw selects. -/
def selected (pick : UInt32) (group : List RawSrvRecord) : ℕ := chosenIndex pick 0 0 (zeroFirst group)

theorem zeroFirst_stable (group : List RawSrvRecord) :
    StableSortBy (fun r => decide (r.weight ≠ 0)) group (zeroFirst group) := by
  apply stableSortBy_insertionSort
  intro a b
  rw [Bool.le_iff_imp, decide_eq_true_eq, decide_eq_true_eq]
  tauto

theorem zeroFirst_ne_nil {group : List RawSrvRecord} (hne : group ≠ []) : zeroFirst group ≠ [] := by
  have hlen := (zeroFirst_stable group).perm.length_eq
  have hpos := List.length_pos_iff.mpr hne
  apply List.ne_nil_of_length_pos
  omega

section
variable {ρ : Type} (R : WeightedRng ρ)

/-- One turn of the loop: a draw, and the selected record moves to the output. -/
theorem weightedShuffleInto_round {group : List RawSrvRecord} (hne : group ≠ []) (fuel : ℕ)
    (rng : ρ) (out : List RawSrvRecord) :
    weightedShuffleInto R (fuel + 1) group rng out =
      weightedShuffleInto R fuel
        ((zeroFirst group).eraseIdx (selected (R.genRangeInclusive rng (total group)).1 group))
        (R.genRangeInclusive rng (total group)).2
        (out ++ (zeroFirst group)[selected (R.genRangeInclusive rng (total group)).1 group]?.toList) := by
  have hempty : ¬ group.isEmpty = true := by simpa using hne
  rw [weightedShuffleInto, if_neg hempty]
  rfl

end

theorem chosenIndex_lt (pick running : UInt32) (idx : ℕ) (rs : List RawSrvRecord) :
    chosenIndex pick running idx rs < max 1 (idx + rs.length) := by
  induction rs generalizing running idx with
  | nil =>
    rw [chosenIndex]
    omega
  | cons r rs ih =>
    rw [chosenIndex]
    split_ifs
    · rw [List.length_cons]
      omega
    · have h := ih (running + r.weight.toUInt32) (idx + 1)
      rw [List.length_cons]
      omega

theorem selected_lt {group : List RawSrvRecord} (hne : group ≠ []) (pick : UInt32) :
    selected pick group < (zeroFirst group).length := by
  have hpos := List.length_pos_iff.mpr (zeroFirst_ne_nil hne)
  have hlt := chosenIndex_lt pick 0 0 (zeroFirst group)
  rw [selected]
  omega

/-! ### Sums that fit -/

@[simp] theorem weights_nil : weights [] = [] := rfl

@[simp] theorem weights_cons (r : RawSrvRecord) (rs : List RawSrvRecord) :
    weights (r :: rs) = r.weight.toNat :: weights rs := rfl

@[simp] theorem length_weights (rs : List RawSrvRecord) : (weights rs).length = rs.length :=
  List.length_map _

theorem get_weights (rs : List RawSrvRecord) (i : ℕ) (hi : i < rs.length) :
    (weights rs).get ⟨i, by simpa using hi⟩ = (rs.get ⟨i, hi⟩).weight.toNat := List.getElem_map _

theorem toNat_add_weight {running : UInt32} {w : UInt16} (h : running.toNat + w.toNat < 2 ^ 32) :
    (running + w.toUInt32).toNat = running.toNat + w.toNat := by
  rw [UInt32.toNat_add, UInt16.toNat_toUInt32, Nat.mod_eq_of_lt h]

theorem toNat_sum_weights {rs : List RawSrvRecord} (h : (weights rs).sum < 2 ^ 32) :
    UInt32.toNat (rs.map fun r => r.weight.toUInt32).sum = (weights rs).sum := by
  induction rs with
  | nil => rfl
  | cons r rs ih =>
    rw [weights_cons, List.sum_cons] at h
    have hrest := ih (by omega)
    rw [List.map_cons, List.sum_cons, weights_cons, List.sum_cons, UInt32.toNat_add,
      UInt16.toNat_toUInt32, hrest, Nat.mod_eq_of_lt h]

/- The running sum of the loop stands for the part of the draw that is used up. -/
theorem chosenIndex_eq_reach {pick running : UInt32} {idx : ℕ} {rs : List RawSrvRecord} (hne : rs ≠ [])
    (hsum : running.toNat + (weights rs).sum < 2 ^ 32)
    (hpick : pick.toNat ≤ running.toNat + (weights rs).sum) :
    chosenIndex pick running idx rs = idx + reach (pick.toNat - running.toNat) (weights rs) := by
  induction rs generalizing running idx with
  | nil => exact absurd rfl hne
  | cons r rs ih =>
    rw [weights_cons, List.sum_cons] at hsum hpick
    have hadd : (running + r.weight.toUInt32).toNat = running.toNat + r.weight.toNat :=
      toNat_add_weight (by omega)
    rw [chosenIndex, weights_cons, reach]
    by_cases hreach : pick ≤ running + r.weight.toUInt32
    · have hle : pick.toNat - running.toNat ≤ r.weight.toNat := by
        rw [UInt32.le_iff_toNat_le, hadd] at hreach
        omega
      rw [if_pos hreach, if_pos hle]
      omega
    · have hgt : running.toNat + r.weight.toNat < pick.toNat := by
        rw [UInt32.le_iff_toNat_le, hadd] at hreach
        omega
      have hrest : rs ≠ [] := by
        intro hnil
        rw [hnil, weights_nil, List.sum_nil] at hpick
        omega
      rw [if_neg hreach, if_neg (by omega), ih hrest (by omega) (by omega), hadd, Nat.sub_add_eq]
      omega

theorem selected_eq_reach {pick : UInt32} {group : List RawSrvRecord} (hne : group ≠ [])
    (hsum : (weights (zeroFirst group)).sum < 2 ^ 32)
    (hpick : pick.toNat ≤ (weights (zeroFirst group)).sum) :
    selected pick group = reach pick.toNat (weights (zeroFirst group)) := by
  rw [selected, chosenIndex_eq_reach (zeroFirst_ne_nil hne) (by simpa using hsum)
    (by simpa using hpick)]
  simp

/-- The running sum reaches the draw at the selected record and not before. -/
theorem selected_spec {pick : UInt32} {group : List RawSrvRecord} (hne : group ≠ [])
    (hsum : (weights (zeroFirst group)).sum < 2 ^ 32)
    (hpick : pick.toNat ≤ (weights (zeroFirst group)).sum) :
    pick.toNat ≤ ((weights (zeroFirst group)).take (selected pick group + 1)).sum ∧
      (selected pick group = 0 ∨
        ((weights (zeroFirst group)).take (selected pick group)).sum < pick.toNat) := by
  have hweights : weights (zeroFirst group) ≠ [] := by
    simpa [weights] using zeroFirst_ne_nil hne
  exact ((reach_eq_iff hpick hweights _).mp (selected_eq_reach hne hsum hpick).symm).2

theorem sum_weights_zeroFirst (group : List RawSrvRecord) :
    (weights (zeroFirst group)).sum = (weights group).sum :=
  ((zeroFirst_stable group).perm.map _).sum_eq

/-! ### The share of each record -/

/- The numbers up to the total that select position `i`. -/
def draws (group : List RawSrvRecord) (W : UInt32) (i : ℕ) : Finset ℕ :=
  (Finset.range (W.toNat + 1)).filter fun d => selected (UInt32.ofNat d) group = i

/-- Every record is selected by as many draws as its weight says, the first one by one more. So a
record of weight zero is selected only in the first place, and by the draw zero. -/
theorem draws_proportional {group : List RawSrvRecord} (hne : group ≠ []) {W : UInt32}
    (hW : W.toNat = (weights group).sum) :
    total group = W ∧
      (∀ i (hi : i < (zeroFirst group).length), (draws group W i).card
        = ((zeroFirst group).get ⟨i, hi⟩).weight.toNat + if i = 0 then 1 else 0) ∧
      ∀ pick ≤ W, ∀ r, (zeroFirst group)[selected pick group]? = some r → r.weight = 0 →
        selected pick group = 0 ∧ pick = 0 := by
  have hlt := W.toNat_lt
  rw [← sum_weights_zeroFirst] at hW
  have hsum : (weights (zeroFirst group)).sum < 2 ^ 32 := by omega
  have hreach : ∀ pick : UInt32, pick.toNat ≤ W.toNat →
      selected pick group = reach pick.toNat (weights (zeroFirst group)) := by
    intro pick hpick
    exact selected_eq_reach hne hsum (by omega)
  refine ⟨?_, ?_, ?_⟩
  · rw [← UInt32.toNat_inj, total, toNat_sum_weights hsum, hW]
  · intro i hi
    have hi' : i < (weights (zeroFirst group)).length := by simpa using hi
    rw [← get_weights, ← card_reach i hi', ← hW, draws]
    congr 1
    apply Finset.filter_congr
    intro d hd
    rw [Finset.mem_range] at hd
    have hofNat : (UInt32.ofNat d).toNat = d := UInt32.toNat_ofNat_of_lt' (show d < 2 ^ 32 by omega)
    rw [hreach (UInt32.ofNat d) (by omega), hofNat]
  · intro pick hpick r hr hzero
    rw [UInt32.le_iff_toNat_le] at hpick
    obtain ⟨hupper, hlower⟩ := selected_spec hne hsum (hpick.trans_eq hW)
    have hi := selected_lt hne pick
    have hsucc := sum_take_succ_get (weights (zeroFirst group)) (selected pick group)
      (by simpa using hi)
    rw [List.getElem?_eq_getElem hi, Option.some.injEq] at hr
    rw [get_weights _ _ hi, List.get_eq_getElem, hr, hzero, UInt16.toNat_zero,
      Nat.add_zero] at hsucc
    -- the interval of such a record is empty, and at the front it is the zero alone
    have hfront : selected pick group = 0 := hlower.resolve_right (by omega)
    rw [hfront, List.take_zero, List.sum_nil] at hsucc
    rw [hfront, hsucc] at hupper
    exact ⟨hfront, UInt32.toNat_inj.mp (by simpa using hupper)⟩

/- Two records of weight zero after one of weight two. -/
def threeRecords : List RawSrvRecord :=
  [⟨"a".toList, 27017, 0, 2⟩, ⟨"b".toList, 27017, 0, 0⟩, ⟨"c".toList, 27017, 0, 0⟩]

theorem threeRecords_draws :
    threeRecords ≠ [] ∧ (2 : UInt32).toNat = (weights threeRecords).sum ∧
      (draws threeRecords 2 0).card = 1 ∧ (draws threeRecords 2 1).card = 0 ∧
      (draws threeRecords 2 2).card = 2 := by
  have hne : threeRecords ≠ [] := by decide
  have hW : (2 : UInt32).toNat = (weights threeRecords).sum := by decide
  have hshare := (draws_proportional hne hW).2.1
  exact ⟨hne, hW, hshare 0 (by decide), hshare 1 (by decide), hshare 2 (by decide)⟩

end Srv
end MongodProxy
