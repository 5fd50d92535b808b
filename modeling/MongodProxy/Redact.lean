import MongodProxy.Lib.DebugFmt
import MongodProxy.Lib.Secrecy
import MongodProxy.Message

/-!
# Redacted Debug output of documents (redact.rs)

`RedactedDoc` walks sub-documents and arrays and writes a placeholder for the value of
every key on the denylist. Any other value is left to the `bson` crate, the code with its
scope document among them, so a key on the denylist inside a scope is not seen.
-/

namespace MongodProxy
open DebugFmt Secrecy

namespace Redact

/-- `REDACTED`. -/
def placeholder : Str := "<redacted>".toList

def denylist : List String :=
  ["payload", "pwd", "password", "key", "clientproof", "serversignature",
    "speculativeauthenticate", "saslstart", "saslcontinue", "authorization", "sessiontoken",
    "token", "secret"]

def isSensitiveKey (key : String) : Bool :=
  denylist.any fun d => Str.eqIgnoreAsciiCase key.toList d.toList

/-- `Debug` of the types that are not the repository's own, for a formatter with the
options `F`; of these the builders read `alternate`. -/
structure DebugImpls (F : Type) where
  alternate : F → Bool
  str : F → String → Str
  int : F → ℤ → Str
  bson : F → Bson → Str
  messageFlags : F → OperationMessageFlags → Str
  queryFlags : F → OperationQueryFlags → Str
  replyFlags : F → OperationReplyFlags → Str
  requestId : F → RequestId → Str
  responseTo : F → ResponseTo → Str

variable {F : Type} (impls : DebugImpls F) (f : F)

/-! ### RedactedDoc and RedactedValue -/

mutual

/-- `Debug` of a `RedactedValue`. -/
def redactedValue : Bson → Str
  | .document entries => debugMap (impls.alternate f) (redactedEntries entries)
  | .array items => debugList (impls.alternate f) (redactedItems items)
  | other => impls.bson f other

/- The entries of a document with their keys and values written. -/
def redactedEntries : List (String × Bson) → List (Str × Str)
  | [] => []
  | (key, value) :: entries =>
    (impls.str f key, if isSensitiveKey key then placeholder else redactedValue value)
      :: redactedEntries entries

def redactedItems : List Bson → List Str
  | [] => []
  | item :: items => redactedValue item :: redactedItems items

end

/-- `Debug` of a `RedactedDoc`. -/
def redactedDoc (d : Document) : Str :=
  debugMap (impls.alternate f) (redactedEntries impls f d.entries)

/-! ### What may be known of a value -/

mutual

/-- The value without what is stored under a sensitive key, at any depth. -/
def mask : Bson → Bson
  | .document entries => .document (maskEntries entries)
  | .array items => .array (maskItems items)
  | .javaScriptCodeWithScope code scope => .javaScriptCodeWithScope code (maskEntries scope)
  | other => other

def maskEntries : List (String × Bson) → List (String × Bson)
  | [] => []
  | (key, value) :: entries =>
    (key, if isSensitiveKey key then .null else mask value) :: maskEntries entries

def maskItems : List Bson → List Bson
  | [] => []
  | item :: items => mask item :: maskItems items

end

mutual

/-- There is a sensitive key in the value, at any depth. -/
def holdsSecret : Bson → Bool
  | .document entries => holdsSecretEntries entries
  | .array items => holdsSecretItems items
  | .javaScriptCodeWithScope _ scope => holdsSecretEntries scope
  | _ => false

def holdsSecretEntries : List (String × Bson) → Bool
  | [] => false
  | (key, value) :: entries => isSensitiveKey key || holdsSecret value || holdsSecretEntries entries

def holdsSecretItems : List Bson → Bool
  | [] => false
  | item :: items => holdsSecret item || holdsSecretItems items

end

mutual

/-- Outside the sensitive keys there is a code whose scope has a sensitive key. -/
def leaks : Bson → Bool
  | .document entries => leaksEntries entries
  | .array items => leaksItems items
  | .javaScriptCodeWithScope _ scope => holdsSecretEntries scope
  | _ => false

def leaksEntries : List (String × Bson) → Bool
  | [] => false
  | (key, value) :: entries => (!isSensitiveKey key && leaks value) || leaksEntries entries

def leaksItems : List Bson → Bool
  | [] => false
  | item :: items => leaks item || leaksItems items

end

/-! ### One induction over values, entries and items -/

/- A value that contains no document. -/
def isScalar : Bson → Bool
  | .document _ => false
  | .array _ => false
  | .javaScriptCodeWithScope _ _ => false
  | _ => true

theorem value_induction {P : Bson → Prop} {Q : List (String × Bson) → Prop} {R : List Bson → Prop}
    (document : ∀ entries, Q entries → P (.document entries))
    (array : ∀ items, R items → P (.array items))
    (scope : ∀ code entries, Q entries → P (.javaScriptCodeWithScope code entries))
    (scalar : ∀ v, isScalar v = true → P v)
    (noEntry : Q [])
    (entry : ∀ key value entries, P value → Q entries → Q ((key, value) :: entries))
    (noItem : R [])
    (item : ∀ value items, P value → R items → R (value :: items)) :
    (∀ v, P v) ∧ (∀ entries, Q entries) ∧ ∀ items, R items := by
  have hall := mask.mutual_induct P R Q document array scope (fun v hdoc harr hscope => scalar v (by
    cases v with
    | document entries => exact absurd rfl (hdoc entries)
    | array items => exact absurd rfl (harr items)
    | javaScriptCodeWithScope code entries => exact absurd rfl (hscope code entries)
    | _ => rfl)) noItem item noEntry entry
  exact ⟨hall.1, hall.2.2, hall.2.1⟩

theorem mask_scalar {v : Bson} (h : isScalar v = true) : mask v = v := by
  cases v with
  | document _ | array _ | javaScriptCodeWithScope _ _ => cases h
  | _ => rfl

theorem holdsSecret_scalar {v : Bson} (h : isScalar v = true) : holdsSecret v = false := by
  cases v with
  | document _ | array _ | javaScriptCodeWithScope _ _ => cases h
  | _ => rfl

theorem leaks_scalar {v : Bson} (h : isScalar v = true) : leaks v = false := by
  cases v with
  | document _ | array _ | javaScriptCodeWithScope _ _ => cases h
  | _ => rfl

/-! ### Without a leak only the mask is shown -/

theorem holdsSecret_mask_all :
    (∀ v, holdsSecret (mask v) = holdsSecret v)
      ∧ (∀ entries, holdsSecretEntries (maskEntries entries) = holdsSecretEntries entries)
      ∧ ∀ items, holdsSecretItems (maskItems items) = holdsSecretItems items := by
  apply value_induction
  case document => intro entries ih; simpa only [mask, holdsSecret] using ih
  case array => intro items ih; simpa only [mask, holdsSecret] using ih
  case scope => intro code entries ih; simpa only [mask, holdsSecret] using ih
  case scalar => intro v hv; rw [mask_scalar hv]
  case noEntry => rfl
  case entry =>
    intro key value entries ihv ih
    cases hkey : isSensitiveKey key with
    | true => simp [maskEntries, holdsSecretEntries, hkey]
    | false => simp [maskEntries, holdsSecretEntries, hkey, ihv, ih]
  case noItem => rfl
  case item => intro value items ihv ih; simp only [maskItems, holdsSecretItems, ihv, ih]

theorem leaks_mask_all :
    (∀ v, leaks (mask v) = leaks v)
      ∧ (∀ entries, leaksEntries (maskEntries entries) = leaksEntries entries)
      ∧ ∀ items, leaksItems (maskItems items) = leaksItems items := by
  apply value_induction
  case document => intro entries ih; simpa only [mask, leaks] using ih
  case array => intro items ih; simpa only [mask, leaks] using ih
  case scope =>
    intro code entries _
    simpa only [mask, leaks] using holdsSecret_mask_all.2.1 entries
  case scalar => intro v hv; rw [mask_scalar hv]
  case noEntry => rfl
  case entry =>
    intro key value entries ihv ih
    cases hkey : isSensitiveKey key with
    | true => simp [maskEntries, leaksEntries, hkey, ih]
    | false => simp [maskEntries, leaksEntries, hkey, ihv, ih]
  case noItem => rfl
  case item => intro value items ihv ih; simp only [maskItems, leaksItems, ihv, ih]

/- A value without a sensitive key is its own mask. -/
theorem mask_of_no_secret_all :
    (∀ v, holdsSecret v = false → mask v = v)
      ∧ (∀ entries, holdsSecretEntries entries = false → maskEntries entries = entries)
      ∧ ∀ items, holdsSecretItems items = false → maskItems items = items := by
  apply value_induction
  case document => intro entries ih h; rw [mask, ih (by simpa only [holdsSecret] using h)]
  case array => intro items ih h; rw [mask, ih (by simpa only [holdsSecret] using h)]
  case scope => intro code entries ih h; rw [mask, ih (by simpa only [holdsSecret] using h)]
  case scalar => intro v hv _; exact mask_scalar hv
  case noEntry => intro _; rfl
  case entry =>
    intro key value entries ihv ih h
    simp only [holdsSecretEntries, Bool.or_eq_false_iff] at h
    obtain ⟨⟨hkey, hvalue⟩, hentries⟩ := h
    simp only [maskEntries, hkey, ihv hvalue, ih hentries, Bool.false_eq_true, if_false]
  case noItem => intro _; rfl
  case item =>
    intro value items ihv ih h
    simp only [holdsSecretItems, Bool.or_eq_false_iff] at h
    simp only [maskItems, ihv h.1, ih h.2]

theorem redactedValue_mask_all :
    (∀ v, leaks v = false → redactedValue impls f (mask v) = redactedValue impls f v)
      ∧ (∀ entries, leaksEntries entries = false →
        redactedEntries impls f (maskEntries entries) = redactedEntries impls f entries)
      ∧ ∀ items, leaksItems items = false →
        redactedItems impls f (maskItems items) = redactedItems impls f items := by
  apply value_induction
  case document =>
    intro entries ih h
    simp only [leaks] at h
    simp only [mask, redactedValue, ih h]
  case array =>
    intro items ih h
    simp only [leaks] at h
    simp only [mask, redactedValue, ih h]
  case scope =>
    -- the scope is left to the crate, and nothing in it is masked
    intro code entries _ h
    simp only [leaks] at h
    rw [mask, mask_of_no_secret_all.2.1 entries h]
  case scalar => intro v hv _; rw [mask_scalar hv]
  case noEntry => intro _; rfl
  case entry =>
    intro key value entries ihv ih h
    simp only [leaksEntries, Bool.or_eq_false_iff] at h
    cases hkey : isSensitiveKey key with
    | true => simp only [maskEntries, redactedEntries, hkey, if_true, ih h.2]
    | false =>
      have hvalue : leaks value = false := by simpa [hkey] using h.1
      simp only [maskEntries, redactedEntries, hkey, Bool.false_eq_true, if_false, ihv hvalue, ih h.2]
  case noItem => intro _; rfl
  case item =>
    intro value items ihv ih h
    simp only [leaksItems, Bool.or_eq_false_iff] at h
    simp only [maskItems, redactedItems, ihv h.1, ih h.2]

/-! ### A scope with a sensitive key is shown -/

instance instNontrivialString : Nontrivial String := ⟨"", "x", by decide⟩

/-- A place inside a value. -/
inductive Hole where
  | here
  | item (before : List Bson) (inner : Hole) (after : List Bson)
  | entry (before : List (String × Bson)) (key : String) (inner : Hole)
      (after : List (String × Bson))
  | binding (code : String) (before : List (String × Bson)) (key : String) (inner : Hole)
      (after : List (String × Bson))

def Hole.plug : Hole → Bson → Bson
  | .here, v => v
  | .item before inner after, v => .array (before ++ inner.plug v :: after)
  | .entry before key inner after, v => .document (before ++ (key, inner.plug v) :: after)
  | .binding code before key inner after, v =>
    .javaScriptCodeWithScope code (before ++ (key, inner.plug v) :: after)

/-- `Debug` of a code with its scope shows both, so two different strings at one place of
the scope are shown differently. -/
def ShowsScope (debug : Bson → Str) : Prop :=
  ∀ code before key inner after, Function.Injective fun s =>
    debug (Hole.plug (.binding code before key inner after) (.string s))

theorem maskEntries_append (before after : List (String × Bson)) :
    maskEntries (before ++ after) = maskEntries before ++ maskEntries after := by
  induction before with
  | nil => rfl
  | cons e before ih =>
    obtain ⟨key, value⟩ := e
    simp only [List.cons_append, maskEntries, ih]

theorem maskItems_append (before after : List Bson) :
    maskItems (before ++ after) = maskItems before ++ maskItems after := by
  induction before with
  | nil => rfl
  | cons v before ih => simp only [List.cons_append, maskItems, ih]

theorem redactedEntries_append (before after : List (String × Bson)) :
    redactedEntries impls f (before ++ after)
      = redactedEntries impls f before ++ redactedEntries impls f after := by
  induction before with
  | nil => rfl
  | cons e before ih =>
    obtain ⟨key, value⟩ := e
    simp only [List.cons_append, redactedEntries, ih]

theorem redactedItems_append (before after : List Bson) :
    redactedItems impls f (before ++ after)
      = redactedItems impls f before ++ redactedItems impls f after := by
  induction before with
  | nil => rfl
  | cons v before ih => simp only [List.cons_append, redactedItems, ih]

/- The mask does not change when the value under a sensitive key does. -/
theorem exists_hole_all :
    (∀ v, holdsSecret v = true → ∃ c : Hole, ∀ w, mask (c.plug w) = mask v)
      ∧ (∀ entries, holdsSecretEntries entries = true →
        ∃ before key, ∃ c : Hole, ∃ after, ∀ w,
          maskEntries (before ++ (key, c.plug w) :: after) = maskEntries entries)
      ∧ ∀ items, holdsSecretItems items = true →
        ∃ before, ∃ c : Hole, ∃ after, ∀ w,
          maskItems (before ++ c.plug w :: after) = maskItems items := by
  apply value_induction
  case document =>
    intro entries ih h
    obtain ⟨before, key, c, after, hc⟩ := ih (by simpa only [holdsSecret] using h)
    exact ⟨.entry before key c after, fun w => by rw [Hole.plug, mask, hc w, mask]⟩
  case array =>
    intro items ih h
    obtain ⟨before, c, after, hc⟩ := ih (by simpa only [holdsSecret] using h)
    exact ⟨.item before c after, fun w => by rw [Hole.plug, mask, hc w, mask]⟩
  case scope =>
    intro code entries ih h
    obtain ⟨before, key, c, after, hc⟩ := ih (by simpa only [holdsSecret] using h)
    exact ⟨.binding code before key c after, fun w => by rw [Hole.plug, mask, hc w, mask]⟩
  case scalar =>
    intro v hv h
    rw [holdsSecret_scalar hv] at h
    cases h
  case noEntry => intro h; cases h
  case entry =>
    intro key value entries ihv ih h
    simp only [holdsSecretEntries, Bool.or_eq_true] at h
    rcases h with (hkey | hvalue) | hentries
    · -- the place of the value itself
      exact ⟨[], key, .here, entries, fun w => by
        simp only [List.nil_append, maskEntries, hkey, if_true]⟩
    · obtain ⟨c, hc⟩ := ihv hvalue
      exact ⟨[], key, c, entries, fun w => by simp only [List.nil_append, maskEntries, hc w]⟩
    · obtain ⟨before, key', c, after, hc⟩ := ih hentries
      exact ⟨(key, value) :: before, key', c, after, fun w => by
        simp only [List.cons_append, maskEntries, hc w]⟩
  case noItem => intro h; cases h
  case item =>
    intro value items ihv ih h
    simp only [holdsSecretItems, Bool.or_eq_true] at h
    rcases h with hvalue | hitems
    · obtain ⟨c, hc⟩ := ihv hvalue
      exact ⟨[], c, items, fun w => by simp only [List.nil_append, maskItems, hc w]⟩
    · obtain ⟨before, c, after, hc⟩ := ih hitems
      exact ⟨value :: before, c, after, fun w => by simp only [List.cons_append, maskItems, hc w]⟩

/- `Debug` of the entries as a map. -/
theorem reveals_entry (before after : List (String × Bson)) {key : String} {value : Bson}
    (hkey : isSensitiveKey key = false) (h : Reveals String mask (redactedValue impls f) value) :
    Reveals String maskEntries
      (fun entries => debugMap (impls.alternate f) (redactedEntries impls f entries))
      (before ++ (key, value) :: after) := by
  refine h.lift (fun u => before ++ (key, u) :: after) ?_ ?_
    (debugMap_injective (impls.alternate f) (redactedEntries impls f before) (impls.str f key)
      (redactedEntries impls f after))
  · intro u hu
    simp only [maskEntries_append, maskEntries, hu]
  · intro u _
    simp only [redactedEntries_append, redactedEntries, hkey, Bool.false_eq_true, if_false]

theorem reveals_item (before after : List Bson) {value : Bson}
    (h : Reveals String mask (redactedValue impls f) value) :
    Reveals String maskItems
      (fun items => debugList (impls.alternate f) (redactedItems impls f items))
      (before ++ value :: after) := by
  refine h.lift (fun u => before ++ u :: after) ?_ ?_
    (debugList_injective (impls.alternate f) (redactedItems impls f before)
      (redactedItems impls f after))
  · intro u hu
    simp only [maskItems_append, maskItems, hu]
  · intro u _
    simp only [redactedItems_append, redactedItems]

/- A leak is at one entry or item, and that one is revealed. -/
theorem reveals_of_leaks_all (hscope : ShowsScope (impls.bson f)) :
    (∀ v, leaks v = true → Reveals String mask (redactedValue impls f) v)
      ∧ (∀ entries, leaksEntries entries = true → ∃ before key value after,
        entries = before ++ (key, value) :: after ∧ isSensitiveKey key = false
          ∧ Reveals String mask (redactedValue impls f) value)
      ∧ ∀ items, leaksItems items = true → ∃ before value after,
        items = before ++ value :: after ∧ Reveals String mask (redactedValue impls f) value := by
  apply value_induction
  case document =>
    intro entries ih h
    obtain ⟨before, key, value, after, rfl, hkey, hvalue⟩ := ih (by simpa only [leaks] using h)
    refine (reveals_entry impls f before after hkey hvalue).lift Bson.document ?_ ?_ Function.injective_id
    · intro entries hentries
      rw [mask, hentries, mask]
    · intro entries _
      rw [redactedValue, id]
  case array =>
    intro items ih h
    obtain ⟨before, value, after, rfl, hvalue⟩ := ih (by simpa only [leaks] using h)
    refine (reveals_item impls f before after hvalue).lift Bson.array ?_ ?_ Function.injective_id
    · intro items hitems
      rw [mask, hitems, mask]
    · intro items _
      rw [redactedValue, id]
  case scope =>
    intro code entries _ h
    obtain ⟨before, key, c, after, hc⟩ := exists_hole_all.2.1 entries (by simpa only [leaks] using h)
    refine ⟨fun s => Hole.plug (.binding code before key c after) (.string s), ?_, ?_⟩
    · intro s
      simp only [Hole.plug, mask, hc]
    · exact hscope code before key c after
  case scalar =>
    intro v hv h
    rw [leaks_scalar hv] at h
    cases h
  case noEntry => intro h; cases h
  case entry =>
    intro key value entries ihv ih h
    simp only [leaksEntries, Bool.or_eq_true, Bool.and_eq_true, Bool.not_eq_true'] at h
    rcases h with ⟨hkey, hvalue⟩ | hentries
    · exact ⟨[], key, value, entries, rfl, hkey, ihv hvalue⟩
    · obtain ⟨before, key', value', after, rfl, hkey, hvalue⟩ := ih hentries
      exact ⟨(key, value) :: before, key', value', after, rfl, hkey, hvalue⟩
  case noItem => intro h; cases h
  case item =>
    intro value items ihv ih h
    simp only [leaksItems, Bool.or_eq_true] at h
    rcases h with hvalue | hitems
    · exact ⟨[], value, items, rfl, ihv hvalue⟩
    · obtain ⟨before, value', after, rfl, hvalue⟩ := ih hitems
      exact ⟨value :: before, value', after, rfl, hvalue⟩

/-! ### Documents -/

theorem keys_maskEntries (entries : List (String × Bson)) :
    (maskEntries entries).map Prod.fst = entries.map Prod.fst := by
  induction entries with
  | nil => rfl
  | cons e entries ih =>
    obtain ⟨key, value⟩ := e
    simp only [maskEntries, List.map_cons, ih]

/-- The document without what is stored under a sensitive key. -/
def maskDoc (d : Document) : Document :=
  ⟨maskEntries d.entries, by rw [keys_maskEntries]; exact d.nodup⟩

def leaksDoc (d : Document) : Bool := leaksEntries d.entries

theorem reveals_doc (hscope : ShowsScope (impls.bson f)) {d : Document} (h : leaksDoc d = true) :
    Reveals String maskDoc (redactedDoc impls f) d := by
  obtain ⟨before, key, value, after, hd, hkey, hvalue⟩ :=
    (reveals_of_leaks_all impls f hscope).2.1 d.entries h
  obtain ⟨g, hg, hshown⟩ := reveals_entry impls f before after hkey hvalue
  rw [← hd] at hg
  -- the keys are those of `d`, so each of the family is a document
  have hnodup : ∀ s, ((g s).map Prod.fst).Nodup := by
    intro s
    rw [← keys_maskEntries, hg s, keys_maskEntries]
    exact d.nodup
  refine ⟨fun s => ⟨g s, hnodup s⟩, ?_, hshown⟩
  intro s
  exact Document.ext (hg s)

/-- `RedactedDoc` shows no more than the mask of a document that does not leak. -/
theorem masked_redactedDoc : Masked maskDoc (redactedDoc impls f) leaksDoc where
  leak_view := by
    intro d
    exact leaks_mask_all.2.1 d.entries
  out_view := by
    intro d h
    show debugMap _ (redactedEntries impls f (maskEntries d.entries)) = _
    rw [(redactedValue_mask_all impls f).2.1 d.entries h, redactedDoc]

/-- And it shows more of one that does. -/
theorem exact_redactedDoc (hscope : ShowsScope (impls.bson f)) :
    Exact String maskDoc (redactedDoc impls f) leaksDoc :=
  ⟨masked_redactedDoc impls f, fun _ h => reveals_doc impls f hscope h⟩

end Redact

end MongodProxy
