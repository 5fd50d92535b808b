import MongodProxy.Lib.CStr
import MongodProxy.Lib.Items

/-!
# BSON documents

The data model of the `bson` crate as the proxy uses it. A `Document` is an
insertion-ordered map with unique keys (`IndexMap<String, Bson>`): `insert`
replaces in place or appends, `remove` keeps the order of what is left. The
byte coding of documents is the crate's, not the repository's, so it is a
parameter (`BsonCodec`) and what is relied on of it is stated as hypotheses.
-/

namespace MongodProxy

/-- A BSON value. A double is its IEEE-754 bit pattern; nested documents are
their entries in order. -/
inductive Bson where
  | double (bits : UInt64)
  | string (s : String)
  | array (xs : List Bson)
  | document (entries : List (String × Bson))
  | boolean (b : Bool)
  | null
  | regularExpression (pattern options : String)
  | javaScriptCode (code : String)
  | javaScriptCodeWithScope (code : String) (scope : List (String × Bson))
  | int32 (n : Int32)
  | int64 (n : Int64)
  | timestamp (time increment : UInt32)
  | binary (subtype : UInt8) (bytes : Bytes)
  | objectId (bytes : Bytes)
  | dateTime (millis : Int64)
  | symbol (s : String)
  | decimal128 (bytes : Bytes)
  | undefined
  | maxKey
  | minKey
  | dbPointer (ns : String) (id : Bytes)

/-- An insertion-ordered map from keys to values; no key occurs twice. -/
@[ext]
structure Document where
  entries : List (String × Bson)
  nodup : (entries.map Prod.fst).Nodup

namespace Document

def new : Document := ⟨[], List.nodup_nil⟩

def keys (d : Document) : List String := d.entries.map Prod.fst

def get (d : Document) (key : String) : Option Bson :=
  (d.entries.find? fun e => e.1 = key).map Prod.snd

/-- `Document::get_str`, without the reason of a failure. -/
def getStr (d : Document) (key : String) : Option String :=
  match d.get key with
  | some (.string s) => some s
  | _ => none

/-- `Document::insert`: an existing key keeps its place. -/
def insert (d : Document) (key : String) (value : Bson) : Document :=
  if h : key ∈ d.keys then
    ⟨d.entries.map fun e => if e.1 = key then (key, value) else e, by
      have hkeys : (d.entries.map fun e => if e.1 = key then (key, value) else e).map Prod.fst
          = d.entries.map Prod.fst := by
        rw [List.map_map]
        apply List.map_congr_left
        intro e _
        by_cases he : e.1 = key
        · simp [he]
        · simp [he]
      rw [hkeys]
      exact d.nodup⟩
  else
    ⟨d.entries ++ [(key, value)], by
      simp only [List.map_append, List.map_cons, List.map_nil]
      exact List.nodup_append.mpr ⟨d.nodup, by simp, by
        intro a ha b hb hab
        rw [List.mem_singleton] at hb
        exact h (by rw [← hb, ← hab]; exact ha)⟩⟩

theorem entries_insert_of_mem {d : Document} {key : String} (value : Bson) (h : key ∈ d.keys) :
    (d.insert key value).entries
      = d.entries.map fun e => if e.1 = key then (key, value) else e := by
  rw [insert, dif_pos h]

theorem entries_insert_of_not_mem {d : Document} {key : String} (value : Bson) (h : key ∉ d.keys) :
    (d.insert key value).entries = d.entries ++ [(key, value)] := by
  rw [insert, dif_neg h]

/-- `Document::remove`: the entry bound to `key` goes, the others keep their order. -/
def remove (d : Document) (key : String) : Document :=
  ⟨d.entries.eraseP fun e => e.1 = key,
    d.nodup.sublist (List.eraseP_sublist.map Prod.fst)⟩

theorem entries_remove (d : Document) (key : String) :
    (d.remove key).entries = d.entries.filter fun e => e.1 ≠ key := by
  obtain ⟨entries, nodup⟩ := d
  simp only [remove]
  induction entries with
  | nil => rfl
  | cons e entries ih =>
    rw [List.map_cons] at nodup
    obtain ⟨hfresh, htail⟩ := List.nodup_cons.mp nodup
    by_cases he : e.1 = key
    · have hrest : entries.filter (fun e' => decide (e'.1 ≠ key)) = entries := by
        apply List.filter_eq_self.mpr
        intro e' he'
        have hne : e'.1 ≠ key := fun heq =>
          hfresh (List.mem_map.mpr ⟨e', he', heq.trans he.symm⟩)
        exact decide_eq_true hne
      simp only [List.eraseP_cons_of_pos, he, decide_true, List.filter_cons, ne_eq, not_true,
        decide_false, Bool.false_eq_true, if_false]
      exact hrest.symm
    · have hstep := ih htail
      simp only [List.eraseP_cons_of_neg, he, decide_false, Bool.false_eq_true, not_false_eq_true,
        List.filter_cons, ne_eq, decide_true, if_true]
      rw [hstep]

end Document

/-! ### The crate's coding of documents -/

/-- What the proxy calls of the `bson` crate, with the crate's error type `β`.
`fromReader` sees the bytes not yet read and answers the document together
with the number of bytes it consumed. -/
structure BsonCodec (β : Type) where
  fromReader : Bytes → Except β (Document × ℕ)
  /-- `Document::to_writer` into a fresh buffer. -/
  toWriter : Document → Except β Bytes
  serializeToVec : Document → Except β Bytes

namespace BsonCodec

variable {β : Type}

/-- Reading back what was written: the document comes back and exactly its own
bytes are consumed. Every encoding has its length prefix and its terminator,
and the two serialisers agree. -/
structure ReadsBack (bson : BsonCodec β) : Prop where
  fromReader_toWriter : ∀ d w rest, bson.toWriter d = .ok w →
    bson.fromReader (w ++ rest) = .ok (d, w.length)
  toWriter_length : ∀ d w, bson.toWriter d = .ok w → 5 ≤ w.length
  serializeToVec_eq : ∀ d, bson.serializeToVec d = bson.toWriter d

/-- A successful read stays inside the input, consumes at least a length prefix
and a terminator, and depends on nothing past the bytes it consumed. -/
structure Delimited (bson : BsonCodec β) : Prop where
  consumed_le : ∀ bs d n, bson.fromReader bs = .ok (d, n) → n ≤ bs.length
  consumed_ge : ∀ bs d n, bson.fromReader bs = .ok (d, n) → 5 ≤ n
  reads_only : ∀ bs d n t, bson.fromReader bs = .ok (d, n) →
    bson.fromReader (bs.take n ++ t) = .ok (d, n)

theorem Delimited.append {bson : BsonCodec β} (h : bson.Delimited) {bs : Bytes} {d : Document}
    {n : ℕ} (t : Bytes) (hread : bson.fromReader bs = .ok (d, n)) :
    bson.fromReader (bs ++ t) = .ok (d, n) := by
  have hlocal := h.reads_only bs d n (bs.drop n ++ t) hread
  rwa [← List.append_assoc, List.take_append_drop] at hlocal

/-- A reader of documents, whatever it makes of the crate's errors. -/
theorem Delimited.reader {ε : Type} {bson : BsonCodec β} (h : bson.Delimited) (f : β → ε) :
    Items.Delimited fun bs => Outcome.ofResult f (bson.fromReader bs) where
  progress := by
    intro bs d n hread
    have := h.consumed_ge bs d n ((Outcome.ofResult_eq_ok _ _ _).mp hread)
    omega
  consumed_le := fun bs d n hread => h.consumed_le bs d n ((Outcome.ofResult_eq_ok _ _ _).mp hread)
  reads_only := by
    intro bs d n t hread
    have hagain := h.reads_only bs d n t ((Outcome.ofResult_eq_ok _ _ _).mp hread)
    simp only [hagain, Outcome.ofResult_ok]

/-- The document at the front of `bs` is canonical: written again it gives the
bytes it was read from. -/
def Canonical (bson : BsonCodec β) (bs : Bytes) : Prop :=
  ∀ d n, bson.fromReader bs = .ok (d, n) → bson.toWriter d = .ok (bs.take n)

/-- The coding of the empty document alone, which is enough to run the model on
concrete frames. -/
def emptyOnly : BsonCodec Unit where
  fromReader
    | 5 :: 0 :: 0 :: 0 :: 0 :: _ => .ok (.new, 5)
    | _ => .error ()
  toWriter d := if d.entries.isEmpty then .ok [5, 0, 0, 0, 0] else .error ()
  serializeToVec d := if d.entries.isEmpty then .ok [5, 0, 0, 0, 0] else .error ()

theorem emptyOnly_readsBack : emptyOnly.ReadsBack where
  fromReader_toWriter := by
    intro d w rest h
    simp only [emptyOnly] at h ⊢
    split_ifs at h with he
    rw [← Except.ok.inj h]
    have hd : d = .new := Document.ext (List.isEmpty_iff.mp he)
    rw [hd]
    rfl
  toWriter_length := by
    intro d w h
    simp only [emptyOnly] at h
    split_ifs at h
    rw [← Except.ok.inj h]
    decide
  serializeToVec_eq := fun _ => rfl

theorem emptyOnly_eq_ok (bs : Bytes) (d : Document) (n : ℕ)
    (h : emptyOnly.fromReader bs = .ok (d, n)) :
    ∃ rest, bs = 5 :: 0 :: 0 :: 0 :: 0 :: rest ∧ d = .new ∧ n = 5 := by
  simp only [emptyOnly] at h
  split at h
  · have hdn := Prod.mk.inj (Except.ok.inj h)
    exact ⟨_, rfl, hdn.1.symm, hdn.2.symm⟩
  · cases h

theorem emptyOnly_delimited : emptyOnly.Delimited where
  consumed_le := by
    intro bs d n h
    obtain ⟨rest, rfl, -, rfl⟩ := emptyOnly_eq_ok bs d n h
    simp
  consumed_ge := by
    intro bs d n h
    obtain ⟨rest, -, -, rfl⟩ := emptyOnly_eq_ok bs d n h
    exact Nat.le_refl 5
  reads_only := by
    intro bs d n t h
    obtain ⟨rest, rfl, rfl, rfl⟩ := emptyOnly_eq_ok bs d n h
    rfl

theorem emptyOnly_canonical (bs : Bytes) : emptyOnly.Canonical bs := by
  intro d n h
  obtain ⟨rest, rfl, rfl, rfl⟩ := emptyOnly_eq_ok bs d n h
  rfl

end BsonCodec

/-- Documents one after the other, each with `Document::to_writer`. -/
def writeDocuments {β : Type} (bson : BsonCodec β) : List Document → Except β Bytes :=
  Items.writeAll bson.toWriter

end MongodProxy
