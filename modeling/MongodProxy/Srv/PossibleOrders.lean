import MongodProxy.Srv.Order

/-!
# Which orders are possible

A record without a weight is only ever drawn from the front of its group, so such records
stay in the order the lookup gave them. Nothing else is fixed within a priority: any
other order comes out for some sequence of draws.
-/

namespace MongodProxy
namespace Srv
open PrefixSum StableSort

/-! ### Records without a weight stay in order -/

theorem Round.Sound.front_of_zero {group : List RawSrvRecord} {pick : UInt32}
    (h : Round.Sound ⟨group, pick⟩) {r : RawSrvRecord}
    (hr : (zeroFirst group)[selected pick group]? = some r) (hzero : r.weight = 0) :
    selected pick group = 0 := by
  obtain ⟨hi, hget⟩ := List.getElem?_eq_some_iff.mp hr
  have hsucc := sum_take_succ_get (weights (zeroFirst group)) (selected pick group)
    (by simpa using hi)
  rw [get_weights _ _ hi, List.get_eq_getElem, hget, hzero, UInt16.toNat_zero,
    Nat.add_zero] at hsucc
  have hreached : pick.toNat ≤ ((weights (zeroFirst group)).take (selected pick group + 1)).sum :=
    h.reached
  have hfirst : selected pick group = 0 ∨
      ((weights (zeroFirst group)).take (selected pick group)).sum < pick.toNat := h.first
  omega

section
variable {q : RawSrvRecord → Bool} (hq : ∀ r, q r = true → r.weight = 0)

include hq

theorem filter_zeroFirst (group : List RawSrvRecord) :
    (zeroFirst group).filter q = group.filter q := by
  have hsplit : ∀ l : List RawSrvRecord,
      l.filter q = (l.filter fun r => decide (r.weight ≠ 0) = false).filter q := by
    intro l
    rw [List.filter_filter]
    apply List.filter_congr
    intro r _
    by_cases hr : q r = true
    · simp [hr, hq r hr]
    · simp [hr]
  rw [hsplit (zeroFirst group), hsplit group, (zeroFirst_stable group).same_key false]

/- What a round takes away of them it takes from the front. -/
theorem filter_selected {group : List RawSrvRecord} {pick : UInt32}
    (h : Round.Sound ⟨group, pick⟩) {r : RawSrvRecord}
    (hr : (zeroFirst group)[selected pick group]? = some r) :
    (r :: (zeroFirst group).eraseIdx (selected pick group)).filter q = group.filter q := by
  rw [← filter_zeroFirst hq group]
  by_cases hqr : q r = true
  · have hfront := h.front_of_zero hr (hq r hqr)
    rw [hfront] at hr ⊢
    cases hsorted : zeroFirst group with
    | nil =>
      rw [hsorted] at hr
      cases hr
    | cons s rest =>
      rw [hsorted] at hr
      cases hr
      rfl
  · obtain ⟨hi, hget⟩ := List.getElem?_eq_some_iff.mp hr
    have hwhole : zeroFirst group = (zeroFirst group).take (selected pick group)
        ++ r :: (zeroFirst group).drop (selected pick group + 1) := by
      rw [← hget, List.getElem_cons_drop, List.take_append_drop]
    rw [List.filter_cons_of_neg hqr, List.eraseIdx_eq_take_drop_succ, List.filter_append]
    conv_rhs => rw [hwhole, List.filter_append, List.filter_cons_of_neg hqr]

variable {ρ : Type} {R : WeightedRng ρ}

theorem Shuffle.filter_eq (hR : R.InRange) {group picked : List RawSrvRecord} {rng rngEnd : ρ}
    {rounds : List Round} (h : Shuffle R group rng rounds picked rngEnd)
    (hlen : group.length ≤ 65535) : picked.filter q = group.filter q := by
  have hsound := h.sound hR hlen
  induction h with
  | done rng => rfl
  | @round group picked rng rng' rngEnd pick r rounds hne hdraw hr hrest ih =>
    rw [List.forall_mem_cons] at hsound
    have hshorter : ((zeroFirst group).eraseIdx (selected pick group)).length ≤ 65535 := by
      have hle := (List.eraseIdx_sublist (zeroFirst group) (selected pick group)).length_le
      have hsame := (zeroFirst_stable group).perm.length_eq
      omega
    rw [← filter_selected hq hsound.1 hr, List.filter_cons, List.filter_cons,
      ih hshorter hsound.2]

theorem Order.filter_eq (hR : R.InRange) {records ordered : List RawSrvRecord} {rng : ρ}
    {rounds : List Round} (h : Order R records rng rounds ordered)
    (hlen : records.length ≤ 65535) : ordered.filter q = records.filter q := by
  induction h with
  | done rng => rfl
  | @group first rest picked ordered rng rng' rounds rounds' hshuffle hrest ih =>
    have hgroup := hshuffle.filter_eq hq hR ((List.takeWhile_sublist _).length_le.trans hlen)
    have hothers := ih ((List.dropWhile_sublist _).length_le.trans hlen)
    rw [List.filter_append, hgroup, hothers, ← List.filter_append,
      List.takeWhile_append_dropWhile]

end

/- The records of one priority that have no weight. -/
def unweighted (p : UInt16) (r : RawSrvRecord) : Bool := r.priority = p ∧ r.weight = 0

theorem filter_unweighted_byPriority (p : UInt16) (records : List RawSrvRecord) :
    (byPriority records).filter (unweighted p) = records.filter (unweighted p) := by
  have hsplit : ∀ l : List RawSrvRecord, l.filter (unweighted p)
      = (l.filter fun r => r.priority.toNat = p.toNat).filter (unweighted p) := by
    intro l
    rw [List.filter_filter]
    apply List.filter_congr
    intro r _
    by_cases hr : r.priority = p
    · simp [unweighted, hr]
    · simp [unweighted, hr]
  rw [hsplit (byPriority records), hsplit records, (byPriority_stable records).same_key p.toNat]

/-! ### Everything else can be drawn -/

/-- The generator that says what it is told. -/
def scripted : WeightedRng (List UInt32) where
  genRangeInclusive
    | [], _ => (0, [])
    | d :: ds, max => (if d ≤ max then d else max, ds)

theorem scripted_inRange : scripted.InRange := by
  intro ds max
  cases ds with
  | nil => exact UInt32.zero_le
  | cons d ds =>
    simp only [scripted]
    split_ifs with hd
    · exact hd
    · exact UInt32.le_refl max

/- The first of the records without a weight is drawn by zero. -/
theorem pick_unweighted {group : List RawSrvRecord} {r : RawSrvRecord} {rest : List RawSrvRecord}
    (hzero : (group.filter fun r => r.weight = 0) = r :: rest) :
    ∃ pick ≤ total group, (zeroFirst group)[selected pick group]? = some r := by
  have hsame := filter_zeroFirst (q := fun r => decide (r.weight = 0)) (fun r hr => by simpa using hr)
    group
  rw [hzero] at hsame
  have hordered := (zeroFirst_stable group).ordered
  refine ⟨0, UInt32.zero_le, ?_⟩
  unfold selected
  cases hsorted : zeroFirst group with
  | nil =>
    rw [hsorted] at hsame
    cases hsame
  | cons s sorted =>
    rw [hsorted] at hsame hordered
    have hs : s.weight = 0 := by
      by_contra hne
      rw [List.filter_cons_of_neg (by simpa using hne)] at hsame
      have hmem : r ∈ sorted.filter fun r => decide (r.weight = 0) := by
        rw [hsame]
        exact List.mem_cons_self
      rw [List.mem_filter, decide_eq_true_eq] at hmem
      have hle := (List.pairwise_cons.mp hordered).1 r hmem.1
      simp only [ne_eq, hne, hmem.2, not_false_eq_true, not_true_eq_false, decide_true,
        decide_false] at hle
      exact absurd hle (by decide)
    rw [List.filter_cons_of_pos (by simpa using hs), List.cons.injEq] at hsame
    rw [chosenIndex, if_pos UInt32.zero_le, List.getElem?_cons_zero, hsame.1]

/- Any other record owns the draw that its running sum ends with. -/
theorem pick_weighted {group : List RawSrvRecord} (hlen : group.length ≤ 65535) {r : RawSrvRecord}
    (hmem : r ∈ group) (hweight : r.weight ≠ 0) :
    ∃ pick ≤ total group, (zeroFirst group)[selected pick group]? = some r := by
  have hne : group ≠ [] := List.ne_nil_of_mem hmem
  have hsum : (weights (zeroFirst group)).sum < 2 ^ 32 := by
    rw [sum_weights_zeroFirst]
    exact sum_weights_lt hlen
  obtain ⟨i, hi, hget⟩ := List.mem_iff_getElem.mp ((zeroFirst_stable group).perm.mem_iff.mpr hmem)
  have hi' : i < (weights (zeroFirst group)).length := by simpa using hi
  have hle := sum_take_le (weights (zeroFirst group)) (i + 1)
  have hsucc := sum_take_succ_get (weights (zeroFirst group)) i hi'
  have hpos : 0 < r.weight.toNat := by
    rw [Nat.pos_iff_ne_zero, ne_eq, ← UInt16.toNat_zero, UInt16.toNat_inj]
    exact hweight
  rw [get_weights _ _ hi, List.get_eq_getElem, hget] at hsucc
  have hpick : (UInt32.ofNat ((weights (zeroFirst group)).take (i + 1)).sum).toNat
      = ((weights (zeroFirst group)).take (i + 1)).sum :=
    UInt32.toNat_ofNat_of_lt' (Nat.lt_of_le_of_lt hle hsum)
  refine ⟨UInt32.ofNat ((weights (zeroFirst group)).take (i + 1)).sum, ?_, ?_⟩
  · rw [UInt32.le_iff_toNat_le, total, toNat_sum_weights hsum, hpick]
    exact hle
  · have hreach : reach ((weights (zeroFirst group)).take (i + 1)).sum (weights (zeroFirst group))
        = i := by
      refine (reach_eq_iff hle (List.ne_nil_of_length_pos (by omega)) i).mpr ⟨hi', Nat.le_refl _, ?_⟩
      omega
    rw [selected_eq_reach hne hsum (by rw [hpick]; exact hle), hpick, hreach,
      List.getElem?_eq_getElem hi, hget]

theorem pick_next {group : List RawSrvRecord} (hlen : group.length ≤ 65535) {r : RawSrvRecord}
    {o : List RawSrvRecord} (hperm : (r :: o).Perm group)
    (hzero : ((r :: o).filter fun r => r.weight = 0) = group.filter fun r => r.weight = 0) :
    ∃ pick ≤ total group, (zeroFirst group)[selected pick group]? = some r := by
  by_cases hweight : r.weight = 0
  · rw [List.filter_cons_of_pos (by simpa using hweight)] at hzero
    exact pick_unweighted hzero.symm
  · exact pick_weighted hlen (hperm.subset List.mem_cons_self) hweight

/- The group is emptied in the order given, and the draws for that stand before the others. -/
theorem shuffle_possible (o group : List RawSrvRecord) (hlen : group.length ≤ 65535)
    (hperm : o.Perm group)
    (hzero : (o.filter fun r => r.weight = 0) = group.filter fun r => r.weight = 0) :
    ∃ draws rounds, ∀ later, Shuffle scripted group (draws ++ later) rounds o later := by
  induction o generalizing group with
  | nil =>
    have hnil : group = [] := hperm.symm.eq_nil
    subst hnil
    exact ⟨[], [], fun later => .done later⟩
  | cons r o ih =>
    obtain ⟨pick, hpick, hr⟩ := pick_next hlen hperm hzero
    have hne : group ≠ [] := List.ne_nil_of_mem (hperm.subset List.mem_cons_self)
    have hsound := Round.Sound.of_pick_le hne hlen hpick
    have hzero' := filter_selected (q := fun r => decide (r.weight = 0))
      (fun r hr => by simpa using hr) hsound hr
    rw [← hzero, List.filter_cons, List.filter_cons] at hzero'
    have hrest : (o.filter fun r => r.weight = 0)
        = ((zeroFirst group).eraseIdx (selected pick group)).filter fun r => r.weight = 0 := by
      by_cases hweight : r.weight = 0
      · simpa [hweight] using hzero'.symm
      · simpa [hweight] using hzero'.symm
    have hsorted := (zeroFirst_stable group).perm
    obtain ⟨hi, hget⟩ := List.getElem?_eq_some_iff.mp hr
    have hperm' : o.Perm ((zeroFirst group).eraseIdx (selected pick group)) := by
      have hcons := List.getElem_cons_eraseIdx_perm hi
      rw [hget] at hcons
      exact (hcons.trans (hsorted.trans hperm.symm)).symm.cons_inv
    have hshorter : ((zeroFirst group).eraseIdx (selected pick group)).length ≤ 65535 := by
      have hle := (List.eraseIdx_sublist (zeroFirst group) (selected pick group)).length_le
      have hsame := hsorted.length_eq
      omega
    obtain ⟨draws, rounds, hrun⟩ := ih _ hshorter hperm' hrest
    refine ⟨pick :: draws, ⟨group, pick⟩ :: rounds, ?_⟩
    intro later
    refine .round hne ?_ hr (hrun later)
    simp only [scripted, List.cons_append, if_pos hpick]

/- The records of the first priority stand before the others, in any list of them that is sorted. -/
theorem front_first {l : List RawSrvRecord} {p : UInt16}
    (hsorted : l.Pairwise fun a b => a.priority ≤ b.priority) (hmin : ∀ r ∈ l, p ≤ r.priority) :
    l.Pairwise fun a b => decide (b.priority = p) = true → decide (a.priority = p) = true := by
  refine hsorted.imp_of_mem ?_
  intro a b ha _ hab hb
  rw [decide_eq_true_eq] at hb ⊢
  rw [hb] at hab
  exact UInt16.le_antisymm hab (hmin a ha)

theorem filter_unweighted_filter (o : List RawSrvRecord) (p : UInt16) :
    ((o.filter fun r => r.priority = p).filter fun r => r.weight = 0)
      = o.filter (unweighted p) := by
  rw [List.filter_filter]
  apply List.filter_congr
  intro r _
  by_cases hr : r.priority = p
  · simp [unweighted, hr]
  · simp [unweighted, hr]

/-- What the order of sorted records has to keep. -/
structure Keeps (records o : List RawSrvRecord) : Prop where
  perm : o.Perm records
  sorted : o.Pairwise fun a b => a.priority ≤ b.priority
  unweighted : ∀ p, o.filter (unweighted p) = records.filter (unweighted p)

theorem order_possible (n : ℕ) (records o : List RawSrvRecord) (hn : records.length ≤ n)
    (hlen : records.length ≤ 65535) (hsorted : records.Pairwise fun a b => a.priority ≤ b.priority)
    (h : Keeps records o) : ∃ draws rounds, Order scripted records draws rounds o := by
  induction n generalizing records o with
  | zero =>
    have hnil : records = [] := List.length_eq_zero_iff.mp (Nat.le_zero.mp hn)
    subst hnil
    rw [h.perm.eq_nil]
    exact ⟨[], [], .done []⟩
  | succ n ih =>
    cases records with
    | nil =>
      rw [h.perm.eq_nil]
      exact ⟨[], [], .done []⟩
    | cons first rest =>
      have hmin : ∀ r ∈ first :: rest, first.priority ≤ r.priority := by
        intro r hr
        rcases List.mem_cons.mp hr with rfl | hr
        · exact UInt16.le_refl _
        · exact (List.pairwise_cons.mp hsorted).1 r hr
      have hrecords := front_first hsorted hmin
      have hordered := front_first h.sorted fun r hr => hmin r (h.perm.subset hr)
      -- the group of the first priority, in the order it has in `o`
      have hgroup : (o.takeWhile fun r => r.priority = first.priority).Perm
          ((first :: rest).takeWhile fun r => r.priority = first.priority) := by
        rw [takeWhile_eq_filter hrecords, takeWhile_eq_filter hordered]
        exact h.perm.filter _
      have hzero : ((o.takeWhile fun r => r.priority = first.priority).filter fun r => r.weight = 0)
          = ((first :: rest).takeWhile fun r => r.priority = first.priority).filter
              fun r => r.weight = 0 := by
        rw [takeWhile_eq_filter hrecords, takeWhile_eq_filter hordered, filter_unweighted_filter,
          filter_unweighted_filter, h.unweighted]
      obtain ⟨draws, rounds, hshuffle⟩ := shuffle_possible _ _
        ((List.takeWhile_sublist _).length_le.trans hlen) hgroup hzero
      -- and the others
      have hothers : Keeps ((first :: rest).dropWhile fun r => r.priority = first.priority)
          (o.dropWhile fun r => r.priority = first.priority) := by
        refine ⟨?_, h.sorted.sublist (List.dropWhile_sublist _), ?_⟩
        · rw [dropWhile_eq_filter hrecords, dropWhile_eq_filter hordered]
          exact h.perm.filter _
        · intro p
          rw [dropWhile_eq_filter hrecords, dropWhile_eq_filter hordered, List.filter_filter,
            List.filter_filter]
          simp only [Bool.and_comm]
          rw [← List.filter_filter, ← List.filter_filter, h.unweighted]
      have hshort : ((first :: rest).dropWhile fun r => r.priority = first.priority).length ≤ n := by
        have hdrop := (List.dropWhile_sublist (fun r => decide (r.priority = first.priority))
          (l := rest)).length_le
        rw [List.dropWhile_cons_of_pos (by simp)]
        rw [List.length_cons] at hn
        omega
      obtain ⟨later, rounds', hrest⟩ := ih _ _ hshort
        ((List.dropWhile_sublist _).length_le.trans hlen)
        (hsorted.sublist (List.dropWhile_sublist _)) hothers
      refine ⟨draws ++ later, rounds ++ rounds', ?_⟩
      have hwhole := Order.group (hshuffle later) hrest
      rwa [List.takeWhile_append_dropWhile] at hwhole

/-! ### The loops are deterministic -/

section
variable {ρ : Type} {R : WeightedRng ρ}

theorem Shuffle.unique {group picked picked' : List RawSrvRecord} {rng rngEnd rngEnd' : ρ}
    {rounds rounds' : List Round} (h : Shuffle R group rng rounds picked rngEnd)
    (h' : Shuffle R group rng rounds' picked' rngEnd') : picked = picked' ∧ rngEnd = rngEnd' := by
  induction h generalizing rounds' picked' rngEnd' with
  | done rng =>
    cases h' with
    | done => exact ⟨rfl, rfl⟩
    | round hne => exact absurd rfl hne
  | round hne hdraw hr hrest ih =>
    cases h' with
    | done => exact absurd rfl hne
    | round hne' hdraw' hr' hrest' =>
      rw [hdraw] at hdraw'
      cases hdraw'
      rw [hr] at hr'
      cases hr'
      obtain ⟨hpicked, hend⟩ := ih hrest'
      exact ⟨by rw [hpicked], hend⟩

theorem Order.unique {records ordered ordered' : List RawSrvRecord} {rng : ρ}
    {rounds rounds' : List Round} (h : Order R records rng rounds ordered)
    (h' : Order R records rng rounds' ordered') : ordered = ordered' := by
  induction h generalizing rounds' ordered' with
  | done rng =>
    cases h'
    rfl
  | group hshuffle hrest ih =>
    cases h' with
    | group hshuffle' hrest' =>
      obtain ⟨rfl, rfl⟩ := hshuffle.unique hshuffle'
      rw [ih hrest']

end

/-- The orders that come out for one generator or another are exactly those that list the same
records by priority and leave the ones without a weight, within a priority, as they came in. -/
theorem order_possible_iff (records o : List RawSrvRecord) (hlen : records.length ≤ 65535) :
    (∃ (ρ : Type) (R : WeightedRng ρ) (rng : ρ), R.InRange ∧
        orderByPriorityWeight R records rng = o) ↔
      o.Perm records ∧ (o.Pairwise fun a b => a.priority ≤ b.priority) ∧
        ∀ p, (o.filter fun r => r.priority = p ∧ r.weight = 0)
          = records.filter fun r => r.priority = p ∧ r.weight = 0 := by
  have hlen' : (byPriority records).length ≤ 65535 := by
    rw [(byPriority_stable records).perm.length_eq]
    exact hlen
  constructor
  · rintro ⟨ρ, R, rng, hR, rfl⟩
    obtain ⟨rounds, hrun⟩ := orderByPriorityWeight_run R records rng
    refine ⟨orderByPriorityWeight_perm R records rng, orderByPriorityWeight_pairwise R records rng, ?_⟩
    intro p
    have hzero : ∀ r, unweighted p r = true → r.weight = 0 := fun r hr => (of_decide_eq_true hr).2
    exact (hrun.filter_eq hzero hR hlen').trans (filter_unweighted_byPriority p records)
  · rintro ⟨hperm, hsorted, hunweighted⟩
    have hkeeps : Keeps (byPriority records) o := by
      refine ⟨hperm.trans (byPriority_stable records).perm.symm, hsorted, ?_⟩
      intro p
      rw [filter_unweighted_byPriority]
      exact hunweighted p
    obtain ⟨draws, rounds, hrun⟩ :=
      order_possible _ _ o (Nat.le_refl _) hlen' (byPriority_pairwise records) hkeeps
    obtain ⟨rounds', hrun'⟩ := orderByPriorityWeight_run scripted records draws
    exact ⟨_, scripted, draws, scripted_inRange, hrun'.unique hrun⟩

/- The weighted record may come between the two without a weight, which do not change places. -/
theorem threeRecords_possible :
    (∃ (ρ : Type) (R : WeightedRng ρ) (rng : ρ), R.InRange ∧
        orderByPriorityWeight R threeRecords rng = [⟨"b".toList, 27017, 0, 0⟩,
          ⟨"a".toList, 27017, 0, 2⟩, ⟨"c".toList, 27017, 0, 0⟩]) ∧
      ¬ ∃ (ρ : Type) (R : WeightedRng ρ) (rng : ρ), R.InRange ∧
        orderByPriorityWeight R threeRecords rng = [⟨"c".toList, 27017, 0, 0⟩,
          ⟨"a".toList, 27017, 0, 2⟩, ⟨"b".toList, 27017, 0, 0⟩] := by
  constructor
  · refine (order_possible_iff threeRecords _ (by decide)).mpr ⟨by decide, by decide, ?_⟩
    intro p
    by_cases hp : 0 = p
    · subst hp
      decide
    · simp [threeRecords, hp]
  · intro h
    have hkept := ((order_possible_iff threeRecords _ (by decide)).mp h).2.2 0
    exact absurd hkept (by decide)

end Srv
end MongodProxy
