import MongodProxy.Lib.RetryLoop
import MongodProxy.Serve.Explain.Layer

/-!
# Request ids shared between clones (serve/explain/layer.rs)

The clones of one `ExplainService` share the counter their calls of `alloc_request_id` take
ids from. Here a call is the retry loop of the source, taken apart at its load and its
exchanges, and the calls of all clones are interleaved; `allocRequestId`, which the model of
the layer uses, is what a call then amounts to.
-/

namespace MongodProxy.Explain
open MongodProxy RetryLoop

structure RequestIdExhausted where
  deriving DecidableEq, Repr

/- `cur - 1` on an `i32`, which must not go below the smallest one. -/
def decrement (cur : Int32) : Outcome RequestIdExhausted Int32 :=
  if Int32.minValue.toInt ≤ cur.toInt - 1 then .ok (cur - 1) else .error .panic

/-- A round of the loop in `alloc_request_id`: the guard, the next value, and what is returned
when it has been exchanged. -/
def allocRound (cur : Int32) : Round Int32 (Outcome RequestIdExhausted ExplainRequestId) :=
  if cur ≥ 0 ∨ cur = Int32.minValue then .stop (Outcome.err ⟨⟩)
  else
    match decrement cur with
    | .error e => .stop (.error e)
    | .ok next => .exchange next (Outcome.okOr ⟨⟩ (ExplainRequestId.tryNew next))

/- The counter with the calls of any number of clones. -/
abbrev Allocator := System Int32 (Outcome RequestIdExhausted ExplainRequestId) ℕ

/-- The counter as `ExplainLayer::layer` seeds it. -/
def Allocator.seeded : Allocator := System.start (-1)

/- The calls after any interleaving of their loads and exchanges: whose turn it is, and whether
an exchange fails for no reason. -/
def Allocator.after (turns : List (ℕ × Bool)) : Allocator := run allocRound Allocator.seeded turns

/-! ### One call -/

theorem decrement_eq {cur : Int32} (hmin : cur ≠ Int32.minValue) :
    decrement cur = .ok (cur - 1) ∧ (cur - 1).toInt = cur.toInt - 1 := by
  have hne : cur.toInt ≠ -2 ^ 31 := by
    intro h
    exact hmin (Int32.toInt_inj.mp h)
  have hlow : -2 ^ 31 ≤ cur.toInt := cur.le_toInt
  have hhigh : cur.toInt < 2 ^ 31 := cur.toInt_lt
  have hroom : Int32.minValue.toInt ≤ cur.toInt - 1 := by
    rw [Int32.toInt_minValue]
    omega
  refine ⟨if_pos hroom, ?_⟩
  rw [Int32.toInt_sub]
  show (cur.toInt - 1).bmod (2 ^ 32) = cur.toInt - 1
  exact Int.bmod_eq_of_le (by omega) (by omega)

/-- Past the guard `cur - 1` exists and is an id. -/
theorem alloc_of_guard {cur : Int32} (hneg : cur < 0) (hmin : cur ≠ Int32.minValue) :
    ∃ id : ExplainRequestId, id.val.toInt = cur.toInt - 1 ∧
      allocRequestId cur = (some id, id.val) ∧ allocRound cur = .exchange id.val (.ok id) := by
  obtain ⟨hdec, hsub⟩ := decrement_eq hmin
  have hguard : ¬ (cur ≥ 0 ∨ cur = Int32.minValue) := by
    rintro (h | h)
    · exact absurd hneg (Int32.not_lt.mpr h)
    · exact hmin h
  have hnext : cur - 1 < 0 := by
    rw [Int32.lt_iff_toInt_lt] at hneg ⊢
    rw [hsub]
    omega
  have hid : ExplainRequestId.tryNew (cur - 1) = some ⟨cur - 1, hnext⟩ := dif_pos hnext
  refine ⟨⟨cur - 1, hnext⟩, hsub, ?_, ?_⟩
  · rw [allocRequestId, if_neg hguard, hid]
  · rw [allocRound, if_neg hguard, hdec]
    simp only [hid, Outcome.okOr_some]

theorem alloc_of_stop {cur : Int32} (h : cur ≥ 0 ∨ cur = Int32.minValue) :
    allocRequestId cur = (none, cur) ∧ allocRound cur = .stop (Outcome.err ⟨⟩) := by
  rw [allocRequestId, allocRound]
  exact ⟨if_pos h, if_pos h⟩

/-- All that a round can come to: the call is refused, or the number below is its id. -/
theorem alloc_cases (cur : Int32) :
    (allocRequestId cur = (none, cur) ∧ allocRound cur = .stop (Outcome.err ⟨⟩)) ∨
      ∃ id : ExplainRequestId, id.val.toInt = cur.toInt - 1 ∧
        allocRequestId cur = (some id, id.val) ∧ allocRound cur = .exchange id.val (.ok id) := by
  by_cases h : cur ≥ 0 ∨ cur = Int32.minValue
  · exact .inl (alloc_of_stop h)
  · rw [not_or] at h
    exact .inr (alloc_of_guard (Int32.not_le.mp h.1) h.2)

/-- A call as a whole is `allocRequestId`. -/
theorem atomic_allocRound (cur : Int32) :
    atomic allocRound cur = (Outcome.okOr ⟨⟩ (allocRequestId cur).1, (allocRequestId cur).2) := by
  obtain ⟨halloc, hround⟩ | ⟨id, -, halloc, hround⟩ := alloc_cases cur
  · rw [atomic, hround, halloc]
    rfl
  · rw [atomic, hround, halloc]
    rfl

/-! ### All calls -/

/-- The ids handed out are the numbers from -2 down to the counter, each to one call. -/
structure Issued (counter : Int32)
    (results : ℕ → Option (Outcome RequestIdExhausted ExplainRequestId)) : Prop where
  negative : counter.toInt ≤ -1
  between : ∀ k id, results k = some (.ok id) → counter.toInt ≤ id.val.toInt ∧ id.val.toInt ≤ -2
  distinct : ∀ j k a b, results j = some (.ok a) → results k = some (.ok b) → j ≠ k → a ≠ b
  all : ∀ n, counter.toInt ≤ n → n ≤ -2 → ∃ k id, results k = some (.ok id) ∧ id.val.toInt = n
  noPanic : ∀ k, results k ≠ some (.error .panic)

theorem issued_seeded : Issued Allocator.seeded.cell Allocator.seeded.result where
  negative := by decide
  between k id h := nomatch h
  distinct j k a b h := nomatch h
  all n hlow hhigh := by
    have hseed : (-1 : ℤ) ≤ n := hlow
    omega
  noPanic k h := nomatch h

/- A call that is refused leaves the ids as they are. -/
theorem Issued.refuse {counter : Int32}
    {results : ℕ → Option (Outcome RequestIdExhausted ExplainRequestId)}
    (h : Issued counter results) {k : ℕ} (hk : results k = none) :
    Issued counter (Function.update results k (some (Outcome.err ⟨⟩))) := by
  have hold : ∀ j id, Function.update results k (some (Outcome.err ⟨⟩)) j = some (.ok id) →
      results j = some (.ok id) := by
    intro j id hj
    obtain ⟨-, hr⟩ | ⟨-, hr⟩ := update_eq_some hj
    · cases hr
    · exact hr
  refine ⟨h.negative, ?_, ?_, ?_, ?_⟩
  · intro j id hj
    exact h.between j id (hold j id hj)
  · intro i j a b hi hj
    exact h.distinct i j a b (hold i a hi) (hold j b hj)
  · intro n hlow hhigh
    obtain ⟨j, id, hj, hid⟩ := h.all n hlow hhigh
    exact ⟨j, id, update_of_some hk hj _, hid⟩
  · intro j hj
    obtain ⟨-, hr⟩ | ⟨-, hr⟩ := update_eq_some hj
    · cases hr
    · exact h.noPanic j hr

/- A call that is granted the number below the counter takes the counter there. -/
theorem Issued.grant {counter : Int32}
    {results : ℕ → Option (Outcome RequestIdExhausted ExplainRequestId)}
    (h : Issued counter results) {k : ℕ} (hk : results k = none) {id : ExplainRequestId}
    (hid : id.val.toInt = counter.toInt - 1) :
    Issued id.val (Function.update results k (some (.ok id))) := by
  have hnegative := h.negative
  -- every id that was there already stands above the new one
  have hcases : ∀ j a, Function.update results k (some (.ok id)) j = some (.ok a) →
      (j = k ∧ a = id) ∨ (results j = some (.ok a) ∧ id.val.toInt < a.val.toInt) := by
    intro j a hj
    obtain ⟨hjk, hr⟩ | ⟨-, hr⟩ := update_eq_some hj
    · exact .inl ⟨hjk, Except.ok.inj hr⟩
    · have hbetween := h.between j a hr
      exact .inr ⟨hr, by omega⟩
  refine ⟨by omega, ?_, ?_, ?_, ?_⟩
  · intro j a hj
    obtain ⟨-, rfl⟩ | ⟨hr, hlt⟩ := hcases j a hj
    · omega
    · have hbetween := h.between j a hr
      omega
  · intro i j a b hi hj hij hab
    subst hab
    obtain ⟨rfl, rfl⟩ | ⟨hri, hlti⟩ := hcases i a hi
    · obtain ⟨rfl, -⟩ | ⟨-, hltj⟩ := hcases j a hj
      · exact hij rfl
      · exact lt_irrefl _ hltj
    · obtain ⟨-, rfl⟩ | ⟨hrj, -⟩ := hcases j a hj
      · exact lt_irrefl _ hlti
      · exact h.distinct i j a a hri hrj hij rfl
  · intro n hlow hhigh
    by_cases hn : n = id.val.toInt
    · exact ⟨k, id, Function.update_self .., hn.symm⟩
    · obtain ⟨j, a, hj, ha⟩ := h.all n (by omega) hhigh
      exact ⟨j, a, update_of_some hk hj _, ha⟩
  · intro j hj
    obtain ⟨-, hr⟩ | ⟨-, hr⟩ := update_eq_some hj
    · cases hr
    · exact h.noPanic j hr

/-- A whole call keeps the ids in order: it is refused, or it takes the next one. -/
theorem Issued.call {counter : Int32}
    {results : ℕ → Option (Outcome RequestIdExhausted ExplainRequestId)} {k : ℕ}
    (h : Issued counter results) (hk : results k = none) :
    Issued (atomic allocRound counter).2
      (Function.update results k (some (atomic allocRound counter).1)) := by
  obtain ⟨halloc, -⟩ | ⟨id, hid, halloc, -⟩ := alloc_cases counter
  · rw [atomic_allocRound, halloc]
    exact h.refuse hk
  · rw [atomic_allocRound, halloc]
    exact h.grant hk hid

theorem sound_after (turns : List (ℕ × Bool)) : Sound allocRound (Allocator.after turns) :=
  sound_run (sound_start allocRound (-1)) turns

theorem issued_after (turns : List (ℕ × Bool)) :
    Issued (Allocator.after turns).cell (Allocator.after turns).result :=
  run_invariant (fun _ _ _ h hk => h.call hk) (sound_start allocRound (-1)) issued_seeded turns

/- The value a call is about to put in place is one below the one it read. -/
theorem next_of_allocRound {cur next : Int32} {r : Outcome RequestIdExhausted ExplainRequestId}
    (h : allocRound cur = .exchange next r) : next.toInt = cur.toInt - 1 := by
  obtain ⟨-, hround⟩ | ⟨id, hid, -, hround⟩ := alloc_cases cur
  · rw [hround] at h
    cases h
  · rw [hround] at h
    cases h
    exact hid

/-- One step of one call leaves the counter and the ids alone, or hands the next id to it. -/
theorem step_issues {s : Allocator} (hs : Sound allocRound s) (k : ℕ) (spurious : Bool) :
    ((step allocRound s k spurious).cell = s.cell ∧
        ∀ j id, (step allocRound s k spurious).result j = some (.ok id) →
          s.result j = some (.ok id)) ∨
      s.result k = none ∧ ∃ id : ExplainRequestId,
        (step allocRound s k spurious).cell = id.val ∧ id.val.toInt = s.cell.toInt - 1 ∧
          (step allocRound s k spurious).result = Function.update s.result k (some (.ok id)) := by
  obtain ⟨hcell, hresult⟩ | ⟨hnone, hcell, hresult⟩ := step_refines hs k spurious
  · left
    rw [hcell, hresult]
    exact ⟨rfl, fun _ _ h => h⟩
  · rw [hcell, hresult, atomic_allocRound]
    obtain ⟨halloc, -⟩ | ⟨id, hid, halloc, -⟩ := alloc_cases s.cell
    · left
      rw [halloc]
      refine ⟨rfl, ?_⟩
      intro j id hj
      obtain ⟨-, hr⟩ | ⟨-, hr⟩ := update_eq_some hj
      · cases hr
      · exact hr
    · right
      rw [halloc]
      exact ⟨hnone, id, rfl, hid, rfl⟩

/-! ### Exhaustion -/

/- The counter is at its end, and the calls that return from here on are refused. -/
structure Exhausted (before : ℕ → Option (Outcome RequestIdExhausted ExplainRequestId))
    (counter : Int32) (results : ℕ → Option (Outcome RequestIdExhausted ExplainRequestId)) :
    Prop where
  stays : counter = Int32.minValue
  refused : ∀ k r, before k = none → results k = some r → r = Outcome.err ⟨⟩

theorem exhausted_run {s : Allocator} (hs : Sound allocRound s) (hmin : s.cell = Int32.minValue)
    (turns : List (ℕ × Bool)) :
    Exhausted s.result (run allocRound s turns).cell (run allocRound s turns).result := by
  refine run_invariant ?_ hs ⟨hmin, ?_⟩ turns
  · intro counter results k h hk
    rw [atomic_allocRound, (alloc_of_stop (.inr h.stays)).1]
    refine ⟨h.stays, ?_⟩
    intro j r hj hr
    obtain ⟨-, rfl⟩ | ⟨-, hr⟩ := update_eq_some hr
    · rfl
    · exact h.refused j r hj hr
  · intro k r hk hr
    rw [hk] at hr
    cases hr

/-- What holds of the ids and the counter at any moment. -/
structure Orderly (s : Allocator) : Prop where
  distinct : ∀ j k a b, s.result j = some (.ok a) → s.result k = some (.ok b) → j ≠ k → a ≠ b
  inRange : ∀ k id, s.result k = some (.ok id) →
    Int32.minValue.toInt ≤ id.val.toInt ∧ id.val.toInt ≤ -2
  /-- A step leaves the counter alone and hands out nothing, or hands out the next id. -/
  byOne : ∀ k spurious,
    ((step allocRound s k spurious).cell = s.cell ∧
        ∀ j id, (step allocRound s k spurious).result j = some (.ok id) →
          s.result j = some (.ok id)) ∨
      s.result k = none ∧ ∃ id : ExplainRequestId,
        (step allocRound s k spurious).cell = id.val ∧ id.val.toInt = s.cell.toInt - 1 ∧
          (step allocRound s k spurious).result = Function.update s.result k (some (.ok id))
  /-- No number between the first id and the counter is left out. -/
  noGap : ∀ n, s.cell.toInt ≤ n → n ≤ -2 → ∃ k id, s.result k = some (.ok id) ∧ id.val.toInt = n
  noPanic : ∀ k, s.result k ≠ some (.error .panic)
  noOverflow : ∀ k cur next r, s.call k = .exchanging cur next r → next.toInt = cur.toInt - 1
  /-- At its end the counter stays, and calls that have not returned are refused. -/
  exhausted : s.cell = Int32.minValue → ∀ later,
    (run allocRound s later).cell = Int32.minValue ∧
      (∀ k r, s.result k = none → (run allocRound s later).result k = some r →
        r = Outcome.err ⟨⟩) ∧
      ∀ k spurious, (run allocRound s later).result k = none →
        (step allocRound (run allocRound s later) k spurious).result k = some (Outcome.err ⟨⟩)

/-- Request ids are unique and negative and never wrap, however the steps of the calls that
share the counter are interleaved. -/
theorem request_ids_distinct_and_never_wrap (turns : List (ℕ × Bool)) :
    Orderly (Allocator.after turns) where
  distinct := (issued_after turns).distinct
  inRange k id hk := ⟨id.val.minValue_le_toInt, ((issued_after turns).between k id hk).2⟩
  byOne := step_issues (sound_after turns)
  noGap := (issued_after turns).all
  noPanic := (issued_after turns).noPanic
  noOverflow k cur next r hk := next_of_allocRound (sound_after turns k cur next r hk)
  exhausted := by
    intro hmin later
    have hend := exhausted_run (sound_after turns) hmin later
    refine ⟨hend.stays, hend.refused, ?_⟩
    intro k spurious hk
    have hstop := (alloc_of_stop (.inr hend.stays)).2
    rw [(step_of_stop (sound_run (sound_after turns) later) hk hstop spurious).2,
      Function.update_self]

end MongodProxy.Explain
