import MongodProxy.Lib.Secrecy
import MongodProxy.Lib.Str

/-!
# The builders of Debug output

What `debug_list`, `debug_map`, `debug_struct` and `debug_tuple` write for parts that are
written already, in the plain mode and in the alternate one (`{:#?}`), where every part
stands on lines of its own behind a `PadAdapter`. Each builder shows each of its parts.
-/

namespace DebugFmt

open Function

/-! ### Builders -/

/-- `PadAdapter`: four spaces in front of every line; the flag tells that a line starts. -/
def padAdapter : Bool → Str → Str
  | _, [] => []
  | onNewline, c :: s =>
    (if onNewline then "    ".toList else []) ++ c :: padAdapter (c == '\n') s

/- One part in the alternate mode. -/
def padded (part : Str) : Str := padAdapter true (part ++ ",\n".toList)

/- The parts between the delimiters. -/
def debugParts (alternate : Bool) : List Str → Str
  | [] => []
  | part :: parts =>
    if alternate then '\n' :: (part :: parts).flatMap padded
    else part ++ parts.flatMap fun p => ", ".toList ++ p

def debugList (alternate : Bool) (entries : List Str) : Str :=
  '[' :: (debugParts alternate entries ++ [']'])

/- A key or a field name with its value. -/
def keyed (entry : Str × Str) : Str := entry.1 ++ (": ".toList ++ entry.2)

def debugMap (alternate : Bool) (entries : List (Str × Str)) : Str :=
  '{' :: (debugParts alternate (entries.map keyed) ++ ['}'])

def debugStruct (alternate : Bool) (name : Str) (fields : List (Str × Str)) : Str :=
  if fields = [] then name
  else if alternate then name ++ (" \x7b".toList ++ (debugParts true (fields.map keyed) ++ "\x7d".toList))
  else name ++ (" \x7b ".toList ++ (debugParts false (fields.map keyed) ++ " \x7d".toList))

def debugTuple (alternate : Bool) (name : Str) (fields : List Str) : Str :=
  if fields = [] then name
  else
    let comma := if fields.length = 1 ∧ name = [] ∧ alternate = false then [','] else []
    name ++ ('(' :: (debugParts alternate fields ++ (comma ++ [')'])))

/-- `Debug` of an `Option`. -/
def debugOption (alternate : Bool) : Option Str → Str
  | some value => debugTuple alternate "Some".toList [value]
  | none => "None".toList

/-! ### Every part is shown -/

theorem append_injective (front back : Str) : Injective fun s : Str => front ++ (s ++ back) := by
  intro s t h
  exact List.append_cancel_right (List.append_cancel_left h)

theorem padAdapter_injective (onNewline : Bool) : Injective (padAdapter onNewline) := by
  intro s t h
  induction s generalizing t onNewline with
  | nil =>
    cases t with
    | nil => rfl
    | cons d t => simp [padAdapter] at h
  | cons c s ih =>
    cases t with
    | nil => simp [padAdapter] at h
    | cons d t =>
      simp only [padAdapter] at h
      obtain ⟨hc, hrest⟩ := List.cons_eq_cons.mp (List.append_cancel_left h)
      subst hc
      rw [ih _ hrest]

theorem padded_injective : Injective padded := by
  intro s t h
  exact List.append_cancel_right (padAdapter_injective true h)

theorem debugParts_injective (alternate : Bool) (before after : List Str) :
    Injective fun part => debugParts alternate (before ++ part :: after) := by
  cases alternate with
  | true =>
    have hshape : ∀ part, debugParts true (before ++ part :: after)
        = ('\n' :: before.flatMap padded) ++ (padded part ++ after.flatMap padded) := by
      intro part
      cases before with
      | nil => simp [debugParts]
      | cons b before => simp [debugParts]
    simp only [hshape]
    exact (append_injective _ _).comp padded_injective
  | false =>
    cases before with
    | nil =>
      simp only [List.nil_append, debugParts, Bool.false_eq_true, if_false]
      exact append_injective [] _
    | cons b before =>
      have hshape : ∀ part, debugParts false (b :: before ++ part :: after)
          = (b ++ before.flatMap (fun p => ", ".toList ++ p) ++ ", ".toList)
            ++ (part ++ after.flatMap fun p => ", ".toList ++ p) := by
        intro part
        simp [debugParts]
      simp only [hshape]
      exact append_injective _ _

theorem keyed_injective (key : Str) : Injective fun value => keyed (key, value) := by
  intro s t h
  exact List.append_cancel_left (List.append_cancel_left h)

theorem debugList_injective (alternate : Bool) (before after : List Str) :
    Injective fun entry => debugList alternate (before ++ entry :: after) := by
  exact (append_injective ['['] [']']).comp (debugParts_injective alternate before after)

theorem debugKeyed_injective (alternate : Bool) (before : List (Str × Str)) (key : Str)
    (after : List (Str × Str)) :
    Injective fun value => debugParts alternate ((before ++ (key, value) :: after).map keyed) := by
  simp only [List.map_append, List.map_cons]
  exact (debugParts_injective alternate _ _).comp (keyed_injective key)

theorem debugMap_injective (alternate : Bool) (before : List (Str × Str)) (key : Str)
    (after : List (Str × Str)) :
    Injective fun value => debugMap alternate (before ++ (key, value) :: after) := by
  exact (append_injective ['{'] ['}']).comp (debugKeyed_injective alternate before key after)

theorem debugStruct_injective (alternate : Bool) (name : Str) (before : List (Str × Str))
    (key : Str) (after : List (Str × Str)) :
    Injective fun value => debugStruct alternate name (before ++ (key, value) :: after) := by
  have hne : ∀ value, before ++ (key, value) :: after ≠ [] := by
    intro value
    simp
  have hparts := debugKeyed_injective alternate before key after
  cases alternate with
  | true =>
    simp only [debugStruct, if_neg (hne _), if_true, ← List.append_assoc name]
    exact (append_injective _ _).comp hparts
  | false =>
    simp only [debugStruct, if_neg (hne _), Bool.false_eq_true, if_false, ← List.append_assoc name]
    exact (append_injective _ _).comp hparts

theorem debugTuple_injective (alternate : Bool) (name : Str) (before after : List Str) :
    Injective fun field => debugTuple alternate name (before ++ field :: after) := by
  have hne : ∀ field, before ++ field :: after ≠ [] := by
    intro field
    simp
  have hlength : ∀ field, (before ++ field :: after).length = before.length + (after.length + 1) := by
    intro field
    simp
  intro s t h
  simp only [debugTuple, if_neg (hne _), hlength] at h
  have hparts := List.append_cancel_right (List.cons_eq_cons.mp (List.append_cancel_left h)).2
  exact debugParts_injective alternate before after hparts

/-! ### What a builder reveals of its parts -/

section Parts

open Secrecy

variable {α σ : Type} {view : α → α} {out : α → Str} {leak : α → Bool}

/- A variant of an enumeration with one field. -/
theorem reveals_variant {γ : Type} {x : α} (h : Reveals σ view out x) {view' : γ → γ}
    {out' : γ → Str} (make : α → γ) {alternate : Bool} {name : Str}
    (hview : ∀ y, view' (make y) = make (view y))
    (hout : ∀ y, out' (make y) = debugTuple alternate name [out y]) :
    Reveals σ view' out' (make x) := by
  refine h.lift make ?_ (fun y _ => hout y) (debugTuple_injective alternate name [] [])
  intro y hy
  rw [hview, hview, hy]

theorem masked_debugList (h : Masked view out leak) (alternate : Bool) :
    Masked (List.map view) (fun xs => debugList alternate (xs.map out)) fun xs => xs.any leak where
  leak_view := by
    intro xs
    simp only [List.any_map, Function.comp_def, h.leak_view]
  out_view := by
    intro xs hxs
    have hparts : (xs.map view).map out = xs.map out := by
      rw [List.map_map]
      apply List.map_congr_left
      intro x hx
      exact h.out_view x (by simpa using List.any_eq_false.mp hxs x hx)
    simp only [hparts]

theorem exact_debugList (h : Exact σ view out leak) (alternate : Bool) :
    Exact σ (List.map view) (fun xs => debugList alternate (xs.map out)) fun xs => xs.any leak where
  toMasked := masked_debugList h.toMasked alternate
  reveals := by
    intro xs hxs
    obtain ⟨x, hx, hleak⟩ := List.any_eq_true.mp hxs
    obtain ⟨before, after, rfl⟩ := List.append_of_mem hx
    refine (h.reveals x hleak).lift (fun y => before ++ y :: after) ?_ ?_
      (debugList_injective alternate (before.map out) (after.map out))
    · intro y hy
      simp only [List.map_append, List.map_cons, hy]
    · intro y _
      simp only [List.map_append, List.map_cons]

theorem masked_debugOption (h : Masked view out leak) (alternate : Bool) :
    Masked (Option.map view) (fun o => debugOption alternate (o.map out)) fun o => o.any leak where
  leak_view := by
    intro o
    cases o with
    | none => rfl
    | some x => exact h.leak_view x
  out_view := by
    intro o ho
    cases o with
    | none => rfl
    | some x => simp only [Option.map_some, h.out_view x ho]

theorem exact_debugOption (h : Exact σ view out leak) (alternate : Bool) :
    Exact σ (Option.map view) (fun o => debugOption alternate (o.map out)) fun o => o.any leak where
  toMasked := masked_debugOption h.toMasked alternate
  reveals := by
    intro o ho
    cases o with
    | none => cases ho
    | some x =>
      exact reveals_variant (h.reveals x ho) some (fun _ => rfl) (fun _ => rfl)

end Parts

end DebugFmt
