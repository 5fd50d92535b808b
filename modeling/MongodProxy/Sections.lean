import MongodProxy.Transparency

/-!
# What the section loop of OP_MSG decides by itself

`parse_sections` reads one section after the other and no section looks past its
own end, so it can be cut at any section boundary, and a section that is malformed
inside its declared size stays malformed whatever follows. The loop takes any
sequence of kinds: whether a message has a body section is a matter of its kind
bytes, which nothing checks.
-/

namespace MongodProxy
open LittleEndian

variable {β : Type} {bson : BsonCodec β}

/-! ### Every failure is an error of the parser -/

namespace OpMsgGrammar

theorem document_errs : Items.Errs (document bson) := by
  intro bs e h
  obtain ⟨e', -, rfl⟩ := (Outcome.ofResult_eq_error _ _ _).mp h
  exact ⟨_, rfl⟩

theorem sequence_errs (hb : bson.Delimited) {payload : Bytes}
    {e : Outcome.Fail (OperationMessageParseError β)}
    (h : sequence bson payload = .error e) : ∃ e', e = .err e' := by
  simp only [sequence, Outcome.bind_eq_error, Outcome.okOr_eq_error] at h
  rcases h with ⟨-, rfl⟩ | ⟨ident, -, ⟨-, rfl⟩ | ⟨identifier, -, h | ⟨documents, -, h⟩⟩⟩
  · exact ⟨_, rfl⟩
  · exact ⟨_, rfl⟩
  · exact Items.many_errs (document bson) (document_delimited hb) document_errs _ _ h
  · cases h

theorem sequenceItem_errs (hb : bson.Delimited) {rest : Bytes}
    {e : Outcome.Fail (OperationMessageParseError β)}
    (h : sequenceItem bson rest = .error e) : ∃ e', e = .err e' := by
  unfold sequenceItem at h
  split_ifs at h
  · cases h
    exact ⟨_, rfl⟩
  · cases h
    exact ⟨_, rfl⟩
  · cases h
    exact ⟨_, rfl⟩
  · rcases (Outcome.bind_eq_error _ _ _).mp h with h | ⟨s, -, h⟩
    · exact sequence_errs hb h
    · cases h

theorem sectionItem_errs (hb : bson.Delimited) : Items.Errs (sectionItem bson) := by
  intro bs e h
  cases bs with
  | nil =>
    cases h
    exact ⟨_, rfl⟩
  | cons kind rest =>
    simp only [sectionItem] at h
    split_ifs at h
    · rcases (Outcome.bind_eq_error _ _ _).mp h with h | ⟨p, -, h⟩
      · exact document_errs _ _ h
      · cases h
    · rcases (Outcome.bind_eq_error _ _ _).mp h with h | ⟨p, -, h⟩
      · exact sequenceItem_errs hb h
      · cases h
    · cases h
      exact ⟨_, rfl⟩

/-! ### Sections are local -/

variable (bson) in
/-- An identifier with its terminator, and documents up to the end of the payload. -/
def ContentParses (payload : Bytes) : Prop :=
  ∃ ident identifier documents, CStr.untilNul payload = some ident ∧
    Text.ofUtf8 ident = some identifier ∧
    readDocuments bson (payload.drop (ident.length + 1)).length (payload.drop (ident.length + 1)) 0
      = .ok documents

theorem contentParses_of_sequence {payload : Bytes} {s : OpMsgSection}
    (h : sequence bson payload = .ok s) : ContentParses bson payload := by
  obtain ⟨ident, identifier, documents, hident, hutf, hdocs, -⟩ := sequence_eq_ok h
  refine ⟨ident, identifier, documents, hident, hutf, ?_⟩
  rw [readDocuments_eq, List.drop_zero]
  exact hdocs

/- The section fails by itself, and on nothing but its own bytes. -/
theorem sequenceItem_of_malformed (hb : bson.Delimited) {rest : Bytes}
    (hbad : ¬ ContentParses bson ((rest.take (declaredSize rest).toInt.toNat).drop 4)) :
    ∃ e, sequenceItem bson rest = Outcome.err e := by
  cases hs : sequenceItem bson rest with
  | ok found =>
    obtain ⟨-, hn, -, hseq⟩ := sequenceItem_eq_ok hs
    rw [hn] at hseq
    exact absurd (contentParses_of_sequence hseq) hbad
  | error e =>
    obtain ⟨e', rfl⟩ := sequenceItem_errs hb hs
    exact ⟨e', rfl⟩

end OpMsgGrammar

open OpMsgGrammar in
theorem parseSections_local (hb : bson.Delimited) (a : Bytes) (s : List OpMsgSection)
    (ha : parseSections bson a = .ok s) :
    (∀ b, match parseSections bson b with
      | .ok t => parseSections bson (a ++ b) = .ok (s ++ t)
      | .error _ => ∃ e, parseSections bson (a ++ b) = Outcome.err e) ∧
    ∀ rest : Bytes, 4 ≤ rest.length → (declaredSize rest).toInt ≤ rest.length →
      ¬ ContentParses bson ((rest.take (declaredSize rest).toInt.toNat).drop 4) →
      ∀ u, ∃ e, parseSections bson (a ++ 1 :: (rest ++ u)) = Outcome.err e := by
  have hd := sectionItem_delimited hb
  rw [parseSections_eq] at ha
  refine ⟨?_, ?_⟩
  · intro b
    have happ : parseSections bson (a ++ b)
        = (parseSections bson b >>= fun t => pure (s ++ t)) := by
      rw [parseSections_eq, parseSections_eq]
      exact Items.many_append (sectionItem bson) hd a b s ha
    cases hbs : parseSections bson b with
    | ok t =>
      rw [happ, hbs]
      rfl
    | error e =>
      rw [parseSections_eq] at hbs
      obtain ⟨e', rfl⟩ := Items.many_errs (sectionItem bson) hd (sectionItem_errs hb) b e hbs
      rw [happ, parseSections_eq, hbs]
      exact ⟨e', rfl⟩
  · intro rest h4 hfit hbad u
    have hsize := declaredSize_append u h4
    have htake : (rest ++ u).take (declaredSize rest).toInt.toNat
        = rest.take (declaredSize rest).toInt.toNat :=
      List.take_append_of_le_length (by omega)
    have hbad' : ¬ ContentParses bson
        (((rest ++ u).take (declaredSize (rest ++ u)).toInt.toNat).drop 4) := by
      rw [hsize, htake]
      exact hbad
    obtain ⟨e, he⟩ := sequenceItem_of_malformed hb hbad'
    have h10 : ¬ (1 : UInt8) = 0 := by decide
    have hitem : sectionItem bson (1 :: (rest ++ u)) = Outcome.err e := by
      simp only [sectionItem, if_neg h10, if_true, he, Outcome.err_bind]
    rw [parseSections_eq]
    exact ⟨e, Items.many_stuck (sectionItem bson) hd a _ s _ ha (List.cons_ne_nil _ _) hitem⟩

/- A body section, then a sequence whose one document would end in the next section. -/
theorem parseSections_overrun :
    parseSections BsonCodec.emptyOnly [0, 5, 0, 0, 0, 0, 0, 5, 0, 0, 0, 0]
        = .ok [.body .new, .body .new] ∧
      ∀ u, ∃ e, parseSections BsonCodec.emptyOnly
        ([0, 5, 0, 0, 0, 0] ++ 1 :: ([9, 0, 0, 0, 0x61, 0, 5, 0, 0] ++ u)) = Outcome.err e := by
  have h := parseSections_local BsonCodec.emptyOnly_delimited [0, 5, 0, 0, 0, 0] [.body .new] rfl
  have hbad : ¬ OpMsgGrammar.ContentParses BsonCodec.emptyOnly [0x61, 0, 5, 0, 0] := by
    rintro ⟨ident, identifier, documents, hident, -, hdocs⟩
    cases hident
    cases hdocs
  exact ⟨h.1 [0, 5, 0, 0, 0, 0], h.2 [9, 0, 0, 0, 0x61, 0, 5, 0, 0] (by decide) (by decide) hbad⟩

/-! ### Kind bytes -/

/- The kind bytes, found by the length field that follows each of them: the length of the
document after a kind 0, the size of the section after a kind 1. -/
def sectionKindsWithin : ℕ → Bytes → List UInt8
  | _, [] => []
  | 0, _ :: _ => []
  | fuel + 1, kind :: rest =>
    kind :: sectionKindsWithin fuel (rest.drop (toI32 (rest.take 4)).toInt.toNat)

def sectionKinds (bytes : Bytes) : List UInt8 := sectionKindsWithin bytes.length bytes

/-- A document is as long as its length prefix says. -/
def BsonCodec.LengthPrefixed (bson : BsonCodec β) : Prop :=
  ∀ bs d n, bson.fromReader bs = .ok (d, n) → n = (toI32 (bs.take 4)).toInt.toNat

namespace OpMsgGrammar

theorem sectionItem_kind (hp : bson.LengthPrefixed) {kind : UInt8} {rest : Bytes}
    {s : OpMsgSection} {n : ℕ} (h : sectionItem bson (kind :: rest) = .ok (s, n)) :
    n = (toI32 (rest.take 4)).toInt.toNat + 1 ∧ ((∃ d, s = .body d) ↔ kind = 0) := by
  simp only [sectionItem] at h
  split_ifs at h with h0 h1
  · obtain ⟨⟨doc, k⟩, hdoc, hs⟩ := (Outcome.bind_eq_ok _ _ _).mp h
    cases hs
    have hk := hp rest doc k ((Outcome.ofResult_eq_ok _ _ _).mp hdoc)
    exact ⟨by rw [hk], ⟨fun _ => h0, fun _ => ⟨doc, rfl⟩⟩⟩
  · obtain ⟨⟨s', k⟩, hseq, hs⟩ := (Outcome.bind_eq_ok _ _ _).mp h
    cases hs
    obtain ⟨-, hk, -, hcontent⟩ := sequenceItem_eq_ok hseq
    obtain ⟨ident, identifier, documents, -, -, -, rfl⟩ := sequence_eq_ok hcontent
    refine ⟨by rw [hk, declaredSize], ⟨?_, fun hkind => absurd hkind h0⟩⟩
    intro hbody
    obtain ⟨d, hd⟩ := hbody
    cases hd
  · cases h

theorem body_mem_iff_kind (hp : bson.LengthPrefixed) (fuel : ℕ) (bs : Bytes)
    (ss : List OpMsgSection) (h : Items.manyWithin (sectionItem bson) fuel bs = .ok ss) :
    (∃ d, .body d ∈ ss) ↔ 0 ∈ sectionKindsWithin fuel bs := by
  induction fuel generalizing bs ss with
  | zero =>
    cases bs with
    | nil =>
      cases h
      simp [sectionKindsWithin]
    | cons kind rest => cases h
  | succ fuel ih =>
    cases bs with
    | nil =>
      cases h
      simp [sectionKindsWithin]
    | cons kind rest =>
      simp only [Items.manyWithin, Outcome.bind_eq_ok] at h
      obtain ⟨⟨s, n⟩, hs, xs, hxs, hss⟩ := h
      cases hss
      obtain ⟨rfl, hkind⟩ := sectionItem_kind hp hs
      rw [List.drop_succ_cons] at hxs
      simp only [sectionKindsWithin, List.mem_cons, ← ih _ _ hxs, exists_or]
      rw [eq_comm (a := (0 : UInt8)), ← hkind]
      simp only [eq_comm]

end OpMsgGrammar

/- The bytes of a body between its flag word and its checksum. -/
def bodySections (bytes : Bytes) : Bytes :=
  OpMsgGrammar.sectionsPart (toU32 (bytes.take 4)) (bytes.drop 4)

/-- An accepted message has a body section exactly if one of its kind bytes is 0. -/
theorem OperationMessage.hasBody_iff (hp : bson.LengthPrefixed) (bytes : Bytes)
    (m : OperationMessage) (h : OperationMessage.fromBytes bson bytes = .ok m) :
    (m.sections ≠ [] ∧ ∃ d, .body d ∈ m.sections) ↔ 0 ∈ sectionKinds (bodySections bytes) := by
  rw [OpMsgGrammar.fromBytes_of_le bson bytes (OpMsgGrammar.length_of_fromBytes h)] at h
  obtain ⟨-, hss, -, -⟩ := OpMsgGrammar.messageOf_eq_ok h
  rw [sectionKinds, bodySections, ← OpMsgGrammar.body_mem_iff_kind hp _ _ _ hss]
  refine ⟨fun hm => hm.2, fun hm => ⟨?_, hm⟩⟩
  obtain ⟨d, hd⟩ := hm
  exact List.ne_nil_of_mem hd

theorem emptyOnly_lengthPrefixed : BsonCodec.emptyOnly.LengthPrefixed := by
  intro bs d n h
  obtain ⟨rest, rfl, -, rfl⟩ := BsonCodec.emptyOnly_eq_ok bs d n h
  rfl

theorem OperationMessage.hasBody_sample :
    ([.documentSequence "a" [], .body .new] : List OpMsgSection) ≠ [] ∧
      ∃ d, OpMsgSection.body d ∈ ([.documentSequence "a" [], .body .new] : List OpMsgSection) :=
  (OperationMessage.hasBody_iff emptyOnly_lengthPrefixed
    [0, 0, 0, 0, 1, 6, 0, 0, 0, 0x61, 0, 0, 5, 0, 0, 0, 0]
    ⟨⟨0⟩, [.documentSequence "a" [], .body .new], none⟩ rfl).mpr (by decide)

/- A checksum and no section, and a sequence alone: both are accepted. -/
theorem OperationMessage.accepted_without_body :
    (∃ m, OperationMessage.fromBytes BsonCodec.emptyOnly [1, 0, 0, 0, 0, 0, 0, 0] = .ok m ∧
      m.sections = []) ∧
    ∃ m, OperationMessage.fromBytes BsonCodec.emptyOnly [0, 0, 0, 0, 1, 6, 0, 0, 0, 0x61, 0] = .ok m ∧
      m.sections ≠ [] ∧ ¬ ∃ d, .body d ∈ m.sections := by
  refine ⟨⟨⟨⟨1⟩, [], some 0⟩, rfl, rfl⟩, ⟨⟨0⟩, [.documentSequence "a" []], none⟩, rfl, ?_, ?_⟩
  · exact List.cons_ne_nil _ _
  · rintro ⟨d, hd⟩
    cases List.mem_singleton.mp hd

end MongodProxy
