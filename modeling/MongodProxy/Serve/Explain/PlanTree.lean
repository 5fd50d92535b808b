import MongodProxy.Lib.Refusal
import MongodProxy.Serve.Explain.Model

/-!
# Plan trees (serve/explain/parse.rs)

`to_plan_node` walks the raw tree depth first and from left to right, and stops at the first
node it refuses. `nodes` lists the raw tree in that order, each node with its depth, so
that what the walk refuses is the first violation in the list; `Carried` relates a raw tree
to the tree it becomes.
-/

namespace MongodProxy.Explain
open MongodProxy Refusal

variable {β : Type} {V : PlanVocabulary}

/-! ### Raw trees -/

namespace RawPlanNode

def estimate : RawPlanNode V → Option Int64
  | .mk _ estimate _ _ _ => estimate

/- Both fields that hold children, in the order the walk takes them. -/
def children : RawPlanNode V → List (RawPlanNode V)
  | .mk _ _ _ inputStage inputStages => inputStage.toList ++ inputStages.getD []

theorem sizeOf_lt_of_mem_children {r c : RawPlanNode V} (hc : c ∈ r.children) :
    sizeOf c < sizeOf r := by
  obtain ⟨facts, estimate, direction, inputStage, inputStages⟩ := r
  simp only [children, List.mem_append] at hc
  rw [RawPlanNode.mk.sizeOf_spec]
  rcases hc with hc | hc
  · cases inputStage with
    | none => cases hc
    | some s =>
      obtain rfl : c = s := by simpa using hc
      rw [Option.some.sizeOf_spec]
      omega
  · cases inputStages with
    | none => cases hc
    | some v =>
      have hlt : sizeOf c < sizeOf v := List.sizeOf_lt_of_mem hc
      rw [Option.some.sizeOf_spec]
      omega

/-- Induction over a raw tree: from the children of a node to the node. -/
theorem induction {P : RawPlanNode V → Prop} (step : ∀ r, (∀ c ∈ r.children, P c) → P r) :
    ∀ r, P r := by
  intro r
  induction hn : sizeOf r using Nat.strong_induction_on generalizing r with
  | h n ih =>
    apply step
    intro c hc
    exact ih (sizeOf c) (hn ▸ sizeOf_lt_of_mem_children hc) c rfl

/-- The nodes of the tree with their depths, depth first and from left to right. -/
def nodes (r : RawPlanNode V) (depth : ℕ) : List (RawPlanNode V × ℕ) :=
  (r, depth) :: r.children.attach.flatMap fun c => nodes c.1 (depth + 1)
termination_by sizeOf r
decreasing_by exact sizeOf_lt_of_mem_children c.2

theorem nodes_eq (r : RawPlanNode V) (depth : ℕ) :
    r.nodes depth = (r, depth) :: r.children.flatMap fun c => nodes c (depth + 1) := by
  have hattach : r.children.attach.flatMap (fun c => nodes c.1 (depth + 1)) =
      r.children.flatMap fun c => nodes c (depth + 1) := by
    rw [List.flatMap_subtype (g := fun c => nodes c (depth + 1)) (fun c _ => rfl),
      List.unattach_attach]
  rw [nodes, hattach]

/-! ### Violations -/

def NegativeTime (r : RawPlanNode V) : Prop :=
  ∃ ms, r.estimate = some ms ∧ ms < 0

def BothShapes : RawPlanNode V → Prop
  | .mk _ _ _ inputStage inputStages => inputStage.isSome ∧ inputStages.isSome

def timeViolation (r : RawPlanNode V) : Option (ExplainParseError β) :=
  match r.estimate with
  | none => none
  | some ms =>
    if ms < 0 then some (.negativeDuration ⟨"executionTimeMillisEstimate", ms⟩) else none

def shapeViolation : RawPlanNode V → ℕ → Option (ExplainParseError β)
  | .mk _ _ _ (some _) (some _), depth => some (.bothChildrenShapesPresent depth)
  | .mk _ _ _ _ _, _ => none

/-- What is wrong with a node itself, at its depth: its time before its shape. -/
def violation (n : RawPlanNode V × ℕ) : Option (ExplainParseError β) :=
  (timeViolation n.1).or (shapeViolation n.1 n.2)

theorem timeViolation_eq_none_iff (r : RawPlanNode V) :
    (timeViolation r : Option (ExplainParseError β)) = none ↔ ¬ r.NegativeTime := by
  rw [timeViolation, NegativeTime]
  cases r.estimate with
  | none => simp
  | some ms => simp

theorem shapeViolation_eq_none_iff (r : RawPlanNode V) (depth : ℕ) :
    (shapeViolation r depth : Option (ExplainParseError β)) = none ↔ ¬ r.BothShapes := by
  obtain ⟨facts, estimate, direction, inputStage, inputStages⟩ := r
  cases inputStage with
  | none => simp [shapeViolation, BothShapes]
  | some s =>
    cases inputStages with
    | none => simp [shapeViolation, BothShapes]
    | some v => simp [shapeViolation, BothShapes]

theorem violation_eq_none_iff (n : RawPlanNode V × ℕ) :
    (violation n : Option (ExplainParseError β)) = none ↔ ¬ n.1.BothShapes ∧ ¬ n.1.NegativeTime := by
  rw [violation, Option.or_eq_none_iff, timeViolation_eq_none_iff, shapeViolation_eq_none_iff,
    and_comm]

theorem violation_eq_some {n : RawPlanNode V × ℕ} {e : ExplainParseError β}
    (h : violation n = some e) :
    (∃ ms, n.1.estimate = some ms ∧ ms < 0 ∧
        e = .negativeDuration ⟨"executionTimeMillisEstimate", ms⟩) ∨
      ¬ n.1.NegativeTime ∧ n.1.BothShapes ∧ e = .bothChildrenShapesPresent n.2 := by
  rw [violation] at h
  cases htime : (n.1.timeViolation : Option (ExplainParseError β)) with
  | some e' =>
    rw [htime, Option.some_or] at h
    cases h
    left
    rw [timeViolation] at htime
    cases hms : n.1.estimate with
    | none =>
      rw [hms] at htime
      cases htime
    | some ms =>
      rw [hms] at htime
      simp only at htime
      split_ifs at htime with hneg
      exact ⟨ms, rfl, hneg, (Option.some.inj htime).symm⟩
  | none =>
    rw [htime, Option.none_or] at h
    right
    refine ⟨(timeViolation_eq_none_iff n.1).mp htime, ?_⟩
    obtain ⟨⟨facts, estimate, direction, inputStage, inputStages⟩, depth⟩ := n
    cases inputStage with
    | none => cases h
    | some s =>
      cases inputStages with
      | none => cases h
      | some v =>
        cases h
        exact ⟨⟨rfl, rfl⟩, rfl⟩

end RawPlanNode

/-! ### The walk -/

variable (codec : ReplyCodec β V)

/- The first step of `to_plan_node`. -/
def nodeTime (estimate : Option Int64) : Except (ExplainParseError β) (Option ℕ) :=
  match estimate with
  | none => pure none
  | some ms => do
    let d ← (i64MsToDuration "executionTimeMillisEstimate" ms).mapError .negativeDuration
    pure (some d)

/- The second step. -/
def childNodes (r : RawPlanNode V) (depth : ℕ) :
    Except (ExplainParseError β) (List (PlanNode V)) :=
  match r with
  | .mk _ _ _ (some _) (some _) => .error (.bothChildrenShapesPresent depth)
  | .mk _ _ _ _ _ => r.children.mapM fun c => toPlanNode codec c (depth + 1)

/-- `to_plan_node` as its two steps. -/
theorem toPlanNode_eq (facts : PlanFacts V) (estimate : Option Int64) (direction : Option String)
    (inputStage : Option (RawPlanNode V)) (inputStages : Option (List (RawPlanNode V)))
    (depth : ℕ) :
    toPlanNode codec (.mk facts estimate direction inputStage inputStages) depth =
      nodeTime estimate >>= fun time =>
        childNodes codec (.mk facts estimate direction inputStage inputStages) depth >>=
          fun children => pure (.mk facts time (direction.map (directionOf codec)) children) := by
  have hattach : ∀ v : List (RawPlanNode V),
      (v.attach.mapM fun n => toPlanNode codec n.1 (depth + 1)) =
        v.mapM fun n => toPlanNode codec n (depth + 1) := by
    intro v
    rw [List.mapM_subtype (g := fun n => toPlanNode codec n (depth + 1)) (fun n _ => rfl),
      List.unattach_attach]
  rw [toPlanNode.eq_def]
  cases estimate with
  | none =>
    cases inputStage <;> cases inputStages <;>
      simp [nodeTime, childNodes, RawPlanNode.children, hattach]
  | some ms =>
    cases inputStage <;> cases inputStages <;>
      simp [nodeTime, childNodes, RawPlanNode.children, hattach]

theorem refusal_nodeTime (r : RawPlanNode V) :
    refusal (nodeTime r.estimate) = (r.timeViolation : Option (ExplainParseError β)) := by
  rw [RawPlanNode.timeViolation]
  cases r.estimate with
  | none => rfl
  | some ms =>
    simp only [nodeTime, i64MsToDuration]
    split_ifs
    · rfl
    · rfl

theorem refusal_childNodes (r : RawPlanNode V) (depth : ℕ) :
    refusal (childNodes codec r depth) =
      (r.shapeViolation depth).or
        (r.children.findSome? fun c => refusal (toPlanNode codec c (depth + 1))) := by
  obtain ⟨facts, estimate, direction, inputStage, inputStages⟩ := r
  rw [childNodes.eq_def]
  cases inputStage with
  | none =>
    rw [RawPlanNode.shapeViolation, Option.none_or, ← refusal_mapM]
    exact fun s v h => nomatch h
  | some s =>
    cases inputStages with
    | none =>
      rw [RawPlanNode.shapeViolation, Option.none_or, ← refusal_mapM]
      exact fun s v _ h => nomatch h
    | some v => rfl

/-- The walk refuses a tree with the first violation among its nodes. -/
theorem refusal_toPlanNode (r : RawPlanNode V) (depth : ℕ) :
    refusal (toPlanNode codec r depth) = (r.nodes depth).findSome? RawPlanNode.violation := by
  induction r using RawPlanNode.induction generalizing depth with
  | step r ih =>
    have hchildren : refusal (childNodes codec r depth) = (r.shapeViolation depth).or
        ((r.children.flatMap fun c => c.nodes (depth + 1)).findSome? RawPlanNode.violation) := by
      rw [refusal_childNodes, findSome?_flatMap, findSome?_congr fun c hc => ih c hc (depth + 1)]
    have hsteps : refusal (toPlanNode codec r depth) =
        (refusal (nodeTime r.estimate)).or (refusal (childNodes codec r depth)) := by
      obtain ⟨facts, estimate, direction, inputStage, inputStages⟩ := r
      rw [toPlanNode_eq]
      apply refusal_bind
      intro time _
      rw [refusal_bind _ _ none (fun _ _ => rfl), Option.or_none]
    rw [hsteps, refusal_nodeTime, hchildren, RawPlanNode.nodes_eq, List.findSome?_cons,
      RawPlanNode.violation]
    cases r.timeViolation with
    | none =>
      cases r.shapeViolation depth with
      | none => rfl
      | some e => rfl
    | some e => rfl

/-! ### The tree it becomes -/

/- Milliseconds on both sides. -/
def SameTime (estimate : Option Int64) (time : Option ℕ) : Prop :=
  time.map (fun t => (t : ℤ)) = estimate.map Int64.toInt

/-- A tree of the same shape: `inputStage` is the only child, `inputStages` are the children in
their order, and every node keeps what it says. -/
inductive Carried : RawPlanNode V → PlanNode V → Prop
  | leaf {facts estimate time direction} (htime : SameTime estimate time) :
    Carried (.mk facts estimate direction none none)
      (.mk facts time (direction.map (directionOf codec)) [])
  | single {facts estimate time direction s child} (htime : SameTime estimate time)
      (hchild : Carried s child) :
    Carried (.mk facts estimate direction (some s) none)
      (.mk facts time (direction.map (directionOf codec)) [child])
  | branches {facts estimate time direction v children} (htime : SameTime estimate time)
      (hchildren : List.Forall₂ Carried v children) :
    Carried (.mk facts estimate direction none (some v))
      (.mk facts time (direction.map (directionOf codec)) children)

theorem sameTime_of_nodeTime {estimate : Option Int64} {time : Option ℕ}
    (h : (nodeTime estimate : Except (ExplainParseError β) _) = .ok time) :
    SameTime estimate time := by
  cases estimate with
  | none =>
    cases h
    rfl
  | some ms =>
    simp only [nodeTime, i64MsToDuration] at h
    split_ifs at h with hneg
    · cases h
    · cases h
      have hnonneg : 0 ≤ ms.toInt := by
        rw [Int64.lt_iff_toInt_lt] at hneg
        exact not_lt.mp hneg
      show some ((ms.toInt.toNat : ℕ) : ℤ) = some ms.toInt
      rw [Int.toNat_of_nonneg hnonneg]

theorem toPlanNode_eq_ok {facts : PlanFacts V} {estimate : Option Int64}
    {direction : Option String} {inputStage : Option (RawPlanNode V)}
    {inputStages : Option (List (RawPlanNode V))} {depth : ℕ} {p : PlanNode V}
    (h : toPlanNode codec (.mk facts estimate direction inputStage inputStages) depth = .ok p) :
    ∃ time children, SameTime estimate time ∧
      childNodes codec (.mk facts estimate direction inputStage inputStages) depth = .ok children ∧
      p = .mk facts time (direction.map (directionOf codec)) children := by
  rw [toPlanNode_eq] at h
  cases htime : (nodeTime estimate : Except (ExplainParseError β) _) with
  | error e =>
    rw [htime] at h
    cases h
  | ok time =>
    cases hch : childNodes codec (.mk facts estimate direction inputStage inputStages) depth with
    | error e =>
      rw [htime, hch] at h
      cases h
    | ok children =>
      rw [htime, hch] at h
      cases h
      exact ⟨time, children, sameTime_of_nodeTime htime, rfl, rfl⟩

theorem forall₂_of_childNodes {r : RawPlanNode V} {depth : ℕ} {children : List (PlanNode V)}
    (ih : ∀ c ∈ r.children, ∀ p, toPlanNode codec c (depth + 1) = .ok p → Carried codec c p)
    (h : childNodes codec r depth = .ok children) :
    List.Forall₂ (Carried codec) r.children children := by
  rw [childNodes.eq_def] at h
  split at h
  · cases h
  · exact forall₂_of_mapM ih h

/-- What the walk returns is the tree it was given. -/
theorem carried_of_toPlanNode (r : RawPlanNode V) (depth : ℕ) (p : PlanNode V)
    (h : toPlanNode codec r depth = .ok p) : Carried codec r p := by
  induction r using RawPlanNode.induction generalizing depth p with
  | step r ih =>
    obtain ⟨facts, estimate, direction, inputStage, inputStages⟩ := r
    obtain ⟨time, children, htime, hchildren, rfl⟩ := toPlanNode_eq_ok codec h
    have hcarried := forall₂_of_childNodes codec (fun c hc => ih c hc (depth + 1)) hchildren
    cases inputStage with
    | none =>
      cases inputStages with
      | none =>
        cases hcarried
        exact .leaf htime
      | some v => exact .branches htime hcarried
    | some s =>
      cases inputStages with
      | none =>
        obtain ⟨child, _, hchild, hnil, rfl⟩ := List.forall₂_cons_left_iff.mp hcarried
        cases hnil
        exact .single htime hchild
      | some v => cases hchildren

/-- `to_plan_node` keeps every tree that is in order and refuses the others with the error of
the first node that is not. -/
theorem toPlanNode_keeps_or_refuses (r : RawPlanNode V) :
    ((∃ p, toPlanNode codec r 0 = .ok p) ↔
        ∀ n ∈ r.nodes 0, ¬ n.1.BothShapes ∧ ¬ n.1.NegativeTime) ∧
      (∀ p, toPlanNode codec r 0 = .ok p → Carried codec r p) ∧
      ∀ e, toPlanNode codec r 0 = .error e →
        ∃ before n after, r.nodes 0 = before ++ n :: after ∧
          (∀ m ∈ before, ¬ m.1.BothShapes ∧ ¬ m.1.NegativeTime) ∧
          ((∃ ms, n.1.estimate = some ms ∧ ms < 0 ∧
              e = .negativeDuration ⟨"executionTimeMillisEstimate", ms⟩) ∨
            ¬ n.1.NegativeTime ∧ n.1.BothShapes ∧ e = .bothChildrenShapesPresent n.2) := by
  refine ⟨?_, carried_of_toPlanNode codec r 0, ?_⟩
  · rw [← refusal_eq_none_iff, refusal_toPlanNode, List.findSome?_eq_none_iff]
    exact forall₂_congr fun n _ => RawPlanNode.violation_eq_none_iff n
  · intro e he
    rw [← refusal_eq_some_iff, refusal_toPlanNode, List.findSome?_eq_some_iff] at he
    obtain ⟨before, n, after, hnodes, hn, hbefore⟩ := he
    refine ⟨before, n, after, hnodes, ?_, RawPlanNode.violation_eq_some hn⟩
    intro m hm
    exact (RawPlanNode.violation_eq_none_iff m).mp (hbefore m hm)

end MongodProxy.Explain
