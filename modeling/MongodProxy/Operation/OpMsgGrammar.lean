import MongodProxy.Operation.OpMsg

/-!
# The section grammar of OP_MSG

The cursor loops of `parse_sections` are repetitions of one reader each over the
bytes that are left: `document` inside a kind-1 section, `sectionItem` outside.
The parser is proved equal to that form here; everything later argues about the
readers.
-/

namespace MongodProxy
open LittleEndian

namespace OpMsgGrammar

variable {β : Type} (bson : BsonCodec β)

/-- One document. -/
def document : Items.Reader UInt8 (OperationMessageParseError β) Document := fun bs =>
  Outcome.ofResult .invalidBson (bson.fromReader bs)

/-- The content of a kind-1 section, after its size field. -/
def sequence (payload : Bytes) : Outcome (OperationMessageParseError β) OpMsgSection := do
  let ident ← Outcome.okOr .documentSequenceIdentifierMissingNul (CStr.untilNul payload)
  let identifier ← Outcome.okOr (.documentSequenceIdentifierNotUtf8 ident) (Text.ofUtf8 ident)
  let documents ← Items.many (document bson) (payload.drop (ident.length + 1))
  pure (.documentSequence identifier documents)

/-- The declared size of a kind-1 section, from the bytes after the kind byte. -/
def declaredSize (rest : Bytes) : Int32 := toI32 (rest.take 4)

/-- A kind-1 section, from the bytes after the kind byte. -/
def sequenceItem (rest : Bytes) : Outcome (OperationMessageParseError β) (OpMsgSection × ℕ) :=
  if rest.length < 4 then
    Outcome.err (.invalidDocumentSequenceSize 0)
  else if (declaredSize rest).toInt < 5 then
    Outcome.err (.invalidDocumentSequenceSize (declaredSize rest))
  else if rest.length < (declaredSize rest).toInt.toNat then
    Outcome.err (.invalidDocumentSequenceSize (declaredSize rest))
  else do
    let s ← sequence bson ((rest.take (declaredSize rest).toInt.toNat).drop 4)
    pure (s, (declaredSize rest).toInt.toNat)

/-- One section: a kind byte and what it announces. -/
def sectionItem : Items.Reader UInt8 (OperationMessageParseError β) OpMsgSection
  | [] => Outcome.err (.notEnoughBytes 0 1)
  | kind :: rest =>
    if kind = 0 then do
      let (doc, n) ← document bson rest
      pure (.body doc, n + 1)
    else if kind = 1 then do
      let (s, n) ← sequenceItem bson rest
      pure (s, n + 1)
    else
      Outcome.err (.invalidKind kind)

/-- Every section up to the end of the input. -/
def sections (bs : Bytes) : Outcome (OperationMessageParseError β) (List OpMsgSection) :=
  Items.many (sectionItem bson) bs

/-! ### The cursor loops are these repetitions -/

theorem readDocuments_eq (fuel : ℕ) (docs : Bytes) (pos : ℕ) :
    readDocuments bson fuel docs pos = Items.manyWithin (document bson) fuel (docs.drop pos) := by
  induction fuel generalizing pos with
  | zero =>
    by_cases h : pos < docs.length
    · rw [List.drop_eq_getElem_cons h]
      simp only [readDocuments, if_pos h, Items.manyWithin]
    · rw [List.drop_eq_nil_of_le (by omega)]
      simp only [readDocuments, if_neg h, Items.manyWithin]
  | succ fuel ih =>
    by_cases h : pos < docs.length
    · have hcons := List.drop_eq_getElem_cons h
      simp only [readDocuments, if_pos h]
      rw [hcons]
      simp only [Items.manyWithin, document]
      rw [← hcons]
      cases hr : bson.fromReader (docs.drop pos) with
      | error e => rfl
      | ok p =>
        obtain ⟨doc, n⟩ := p
        simp only [Outcome.ofResult_ok, Outcome.ok_bind, ih, List.drop_drop]
    · rw [List.drop_eq_nil_of_le (by omega)]
      simp only [readDocuments, if_neg h, Items.manyWithin]

theorem getRange_drop (bytes : Bytes) (i n : ℕ) :
    Outcome.getRange bytes i (i + n)
      = if i + n ≤ bytes.length then some ((bytes.drop i).take n) else none := by
  simp only [Outcome.getRange, Nat.le_add_right, true_and, Nat.add_sub_cancel_left]

theorem documentSequenceAt_eq (bytes : Bytes) (pos : ℕ) :
    documentSequenceAt bson bytes pos
      = (sequenceItem bson (bytes.drop pos) >>= fun p => pure (p.1, pos + p.2)) := by
  have hlen : (bytes.drop pos).length = bytes.length - pos := List.length_drop ..
  simp only [documentSequenceAt, sequenceItem]
  rw [getRange_drop]
  by_cases h4 : pos + 4 ≤ bytes.length
  · have hnot4 : ¬ (bytes.drop pos).length < 4 := by omega
    have hsize : ((bytes.drop pos).take 4).length = 4 := by
      rw [List.length_take]
      omega
    rw [if_pos h4, if_neg hnot4]
    simp only [Outcome.okOr_some, Outcome.ok_bind, Outcome.arrayAt_eq _ 0 4 (Nat.le_of_eq hsize.symm),
      List.drop_zero]
    rw [List.take_of_length_le (Nat.le_of_eq hsize)]
    simp only [← declaredSize.eq_1]
    generalize hd : declaredSize (bytes.drop pos) = size
    by_cases h5 : size.toInt < 5
    · simp only [if_pos h5, Outcome.err_bind]
    · simp only [if_neg h5]
      by_cases hfit : pos + size.toInt.toNat ≤ bytes.length
      · have hnotfit : ¬ (bytes.drop pos).length < size.toInt.toNat := by omega
        have hpay : Outcome.getRange bytes (pos + 4) (pos + size.toInt.toNat)
            = some (((bytes.drop pos).take size.toInt.toNat).drop 4) := by
          rw [show pos + size.toInt.toNat = (pos + 4) + (size.toInt.toNat - 4) by omega,
            getRange_drop, if_pos (by omega), List.drop_take, List.drop_drop]
        simp only [if_neg hnotfit, Option.filter_some, hfit, decide_true, if_true,
          Outcome.okOr_some, Outcome.ok_bind, hpay, sequence]
        cases hnul : CStr.untilNul (((bytes.drop pos).take size.toInt.toNat).drop 4) with
        | none => rfl
        | some ident =>
          simp only [Outcome.okOr_some, Outcome.ok_bind]
          cases hutf : Text.ofUtf8 ident with
          | none => rfl
          | some identifier =>
            have hident := CStr.length_lt_of_untilNul _ _ hnul
            rw [List.length_drop, List.length_take] at hident
            have hdocs : Outcome.getRange bytes (pos + 4 + ident.length + 1)
                (pos + size.toInt.toNat)
                = some ((((bytes.drop pos).take size.toInt.toNat).drop 4).drop
                    (ident.length + 1)) := by
              rw [show pos + size.toInt.toNat = (pos + 4 + ident.length + 1)
                  + (size.toInt.toNat - (4 + (ident.length + 1))) by omega,
                getRange_drop, if_pos (by omega), List.drop_drop, List.drop_take, List.drop_drop]
              congr 3
              omega
            simp only [Outcome.okOr_some, Outcome.ok_bind, hdocs, readDocuments_eq,
              List.drop_zero, Items.many]
            cases Items.manyWithin (document bson)
              ((((bytes.drop pos).take size.toInt.toNat).drop 4).drop (ident.length + 1)).length
              ((((bytes.drop pos).take size.toInt.toNat).drop 4).drop (ident.length + 1)) <;> rfl
      · have hnotfit : (bytes.drop pos).length < size.toInt.toNat := by omega
        simp only [if_pos hnotfit, Option.filter_some, hfit, decide_false, Bool.false_eq_true,
          if_false, Outcome.okOr_none, Outcome.err_bind]
  · have hnot4 : (bytes.drop pos).length < 4 := by omega
    rw [if_neg h4, if_pos hnot4]
    rfl

theorem parseSectionsFrom_eq (fuel : ℕ) (bytes : Bytes) (pos : ℕ) :
    parseSectionsFrom bson fuel bytes pos
      = Items.manyWithin (sectionItem bson) fuel (bytes.drop pos) := by
  induction fuel generalizing pos with
  | zero =>
    by_cases h : pos < bytes.length
    · rw [List.drop_eq_getElem_cons h]
      simp only [parseSectionsFrom, if_pos h, Items.manyWithin]
    · rw [List.drop_eq_nil_of_le (by omega)]
      simp only [parseSectionsFrom, if_neg h, Items.manyWithin]
  | succ fuel ih =>
    by_cases h : pos < bytes.length
    · rw [List.drop_eq_getElem_cons h]
      simp only [parseSectionsFrom, if_pos h, List.getElem?_eq_getElem h, Outcome.okOr_some,
        Outcome.ok_bind, Items.manyWithin, sectionItem]
      generalize bytes[pos] = kind
      by_cases h0 : kind = 0
      · simp only [if_pos h0, document]
        cases hr : bson.fromReader (bytes.drop (pos + 1)) with
        | error e => rfl
        | ok p =>
          obtain ⟨doc, n⟩ := p
          simp only [Outcome.ofResult_ok, Outcome.ok_bind, Outcome.pure_eq_ok, ih,
            List.drop_succ_cons, List.drop_drop]
      · by_cases h1 : kind = 1
        · simp only [if_neg h0, if_pos h1]
          rw [documentSequenceAt_eq]
          cases hs : sequenceItem bson (bytes.drop (pos + 1)) with
          | error e => rfl
          | ok p =>
            obtain ⟨s, n⟩ := p
            simp only [Outcome.ok_bind, Outcome.pure_eq_ok, ih, List.drop_succ_cons,
              List.drop_drop]
        · simp only [if_neg h0, if_neg h1, Outcome.err_bind]
    · rw [List.drop_eq_nil_of_le (by omega)]
      simp only [parseSectionsFrom, if_neg h, Items.manyWithin]

theorem parseSections_eq (bytes : Bytes) : parseSections bson bytes = sections bson bytes := by
  simp only [parseSections, parseSectionsFrom_eq, List.drop_zero, sections, Items.many]

/-- What follows the length check of `from_bytes`, without the index checks. -/
def messageOf (rawFlags : UInt32) (afterFlags : Bytes) :
    Outcome (OperationMessageParseError β) OperationMessage :=
  if unknownRequired rawFlags ≠ 0 then
    Outcome.err (.unknownRequiredBits (unknownRequired rawFlags))
  else if (OperationMessageFlags.fromBitsTruncate rawFlags).contains .checksumPresent then
    if afterFlags.length < 4 then
      Outcome.err .missingChecksum
    else do
      let s ← sections bson (afterFlags.take (afterFlags.length - 4))
      pure ⟨.fromBitsTruncate rawFlags, s, some (toU32 (afterFlags.drop (afterFlags.length - 4)))⟩
  else do
    let s ← sections bson afterFlags
    pure ⟨.fromBitsTruncate rawFlags, s, none⟩

theorem fromBytes_of_le (bytes : Bytes) (h : OperationMessage.minLen ≤ bytes.length) :
    OperationMessage.fromBytes bson bytes
      = messageOf bson (toU32 (bytes.take 4)) (bytes.drop 4) := by
  have hlt : ¬ bytes.length < OperationMessage.minLen := by omega
  simp only [OperationMessage.minLen] at h
  simp only [OperationMessage.fromBytes, if_neg hlt, Outcome.arrayAt_eq bytes 0 4 (by omega),
    Outcome.ok_bind, List.drop_zero, messageOf, Outcome.sliceFrom_eq bytes 4 (by omega)]
  generalize toU32 (bytes.take 4) = rawFlags
  generalize bytes.drop 4 = afterFlags
  by_cases hu : unknownRequired rawFlags ≠ 0
  · simp only [if_pos hu]
  · simp only [if_neg hu]
    by_cases hc : (OperationMessageFlags.fromBitsTruncate rawFlags).contains .checksumPresent = true
    · simp only [if_pos hc]
      by_cases h4 : afterFlags.length < 4
      · simp only [if_pos h4, Outcome.err_bind]
      · have hsplit : afterFlags.length - 4 ≤ afterFlags.length := Nat.sub_le _ _
        have hlast : (afterFlags.drop (afterFlags.length - 4)).length = 4 := by
          rw [List.length_drop]
          omega
        simp only [if_neg h4, Outcome.splitAt_eq _ _ hsplit, Outcome.ok_bind,
          Outcome.arrayAt_eq _ 0 4 (Nat.le_of_eq hlast.symm), List.drop_zero, Outcome.pure_eq_ok,
          List.take_of_length_le (Nat.le_of_eq hlast), parseSections_eq]
    · simp only [if_neg hc, Outcome.pure_eq_ok, Outcome.ok_bind, parseSections_eq]

theorem fromBytes_of_lt (bytes : Bytes) (h : bytes.length < OperationMessage.minLen) :
    OperationMessage.fromBytes bson bytes
      = Outcome.err (.notEnoughBytes bytes.length OperationMessage.minLen) := by
  simp only [OperationMessage.fromBytes, if_pos h]

/-- A round consumes the kind byte at least. -/
theorem sectionItem_progress : Items.Progress (sectionItem bson) := by
  intro bs s n h
  cases bs with
  | nil => simp [sectionItem] at h
  | cons kind rest =>
    simp only [sectionItem] at h
    split_ifs at h
    · obtain ⟨p, -, hp⟩ := (Outcome.bind_eq_ok _ _ _).mp h
      have := congrArg Prod.snd (Except.ok.inj hp)
      simp only at this
      omega
    · obtain ⟨p, -, hp⟩ := (Outcome.bind_eq_ok _ _ _).mp h
      have := congrArg Prod.snd (Except.ok.inj hp)
      simp only at this
      omega
    · simp at h

variable {bson}

/-! ### Kind-1 sections by their size field -/

theorem declaredSize_append {rest : Bytes} (u : Bytes) (h : 4 ≤ rest.length) :
    declaredSize (rest ++ u) = declaredSize rest := by
  rw [declaredSize, declaredSize, List.take_append_of_le_length h]

theorem sequenceItem_of_short {rest : Bytes} (h : rest.length < 4) :
    sequenceItem bson rest = Outcome.err (.invalidDocumentSequenceSize 0) := by
  simp only [sequenceItem, if_pos h]

theorem sequenceItem_of_small {rest : Bytes} (h4 : 4 ≤ rest.length)
    (h5 : (declaredSize rest).toInt < 5) :
    sequenceItem bson rest
      = Outcome.err (.invalidDocumentSequenceSize (declaredSize rest)) := by
  simp only [sequenceItem, if_neg (Nat.not_lt.mpr h4), if_pos h5]

theorem sequenceItem_of_cut {rest : Bytes} (h4 : 4 ≤ rest.length)
    (hcut : rest.length < (declaredSize rest).toInt.toNat) :
    sequenceItem bson rest
      = Outcome.err (.invalidDocumentSequenceSize (declaredSize rest)) := by
  have h5 : ¬(declaredSize rest).toInt < 5 := by omega
  simp only [sequenceItem, if_neg (Nat.not_lt.mpr h4), if_neg h5, if_pos hcut]

theorem sequenceItem_of_fit {rest : Bytes} (h5 : 5 ≤ (declaredSize rest).toInt)
    (hfit : (declaredSize rest).toInt.toNat ≤ rest.length) :
    sequenceItem bson rest
      = (sequence bson ((rest.take (declaredSize rest).toInt.toNat).drop 4) >>= fun s =>
          pure (s, (declaredSize rest).toInt.toNat)) := by
  have h4 : ¬rest.length < 4 := by omega
  simp only [sequenceItem, if_neg h4, if_neg (Int.not_lt.mpr h5), if_neg (Nat.not_lt.mpr hfit)]

theorem sequenceItem_eq_ok {rest : Bytes} {s : OpMsgSection} {n : ℕ}
    (h : sequenceItem bson rest = .ok (s, n)) :
    5 ≤ (declaredSize rest).toInt ∧ n = (declaredSize rest).toInt.toNat ∧ n ≤ rest.length ∧
      sequence bson ((rest.take n).drop 4) = .ok s := by
  by_cases h4 : rest.length < 4
  · rw [sequenceItem_of_short h4] at h
    cases h
  · by_cases h5 : (declaredSize rest).toInt < 5
    · rw [sequenceItem_of_small (Nat.not_lt.mp h4) h5] at h
      cases h
    · by_cases hcut : rest.length < (declaredSize rest).toInt.toNat
      · rw [sequenceItem_of_cut (Nat.not_lt.mp h4) hcut] at h
        cases h
      · rw [sequenceItem_of_fit (Int.not_lt.mp h5) (Nat.not_lt.mp hcut), Outcome.bind_eq_ok] at h
        obtain ⟨s', hs, hpair⟩ := h
        cases hpair
        exact ⟨Int.not_lt.mp h5, rfl, Nat.not_lt.mp hcut, hs⟩

theorem sequence_eq_ok {payload : Bytes} {s : OpMsgSection} (h : sequence bson payload = .ok s) :
    ∃ ident identifier documents, CStr.untilNul payload = some ident ∧
      Text.ofUtf8 ident = some identifier ∧
      Items.many (document bson) (payload.drop (ident.length + 1)) = .ok documents ∧
      s = .documentSequence identifier documents := by
  simp only [sequence, Outcome.bind_eq_ok, Outcome.okOr_eq_ok] at h
  obtain ⟨ident, hident, identifier, hutf, documents, hdocs, hs⟩ := h
  exact ⟨ident, identifier, documents, hident, hutf, hdocs, (Except.ok.inj hs).symm⟩

/-! ### Readers that see only what they consume -/

theorem document_delimited (hb : bson.Delimited) : Items.Delimited (document bson) :=
  hb.reader OperationMessageParseError.invalidBson

theorem sequenceItem_reads_only {rest : Bytes} {s : OpMsgSection} {n : ℕ} (t : Bytes)
    (h : sequenceItem bson rest = .ok (s, n)) :
    sequenceItem bson (rest.take n ++ t) = .ok (s, n) := by
  obtain ⟨h5, hn, hle, hs⟩ := sequenceItem_eq_ok h
  have htake : (rest.take n).length = n := by
    rw [List.length_take]
    omega
  have hsize : declaredSize (rest.take n ++ t) = declaredSize rest := by
    rw [declaredSize_append t (by omega), declaredSize, declaredSize, List.take_take,
      show min 4 n = 4 by omega]
  have hfit : (declaredSize (rest.take n ++ t)).toInt.toNat ≤ (rest.take n ++ t).length := by
    rw [hsize, ← hn, List.length_append]
    omega
  rw [sequenceItem_of_fit (by rw [hsize]; exact h5) hfit, hsize, ← hn, List.take_left' htake, hs]
  rfl

theorem sectionItem_delimited (hb : bson.Delimited) : Items.Delimited (sectionItem bson) where
  progress := sectionItem_progress bson
  consumed_le := by
    intro bs s n h
    cases bs with
    | nil => cases h
    | cons kind rest =>
      simp only [sectionItem] at h
      split_ifs at h
      · obtain ⟨⟨doc, k⟩, hdoc, hs⟩ := (Outcome.bind_eq_ok _ _ _).mp h
        have hle := (document_delimited hb).consumed_le _ _ _ hdoc
        cases hs
        rw [List.length_cons]
        omega
      · obtain ⟨⟨s', k⟩, hseq, hs⟩ := (Outcome.bind_eq_ok _ _ _).mp h
        obtain ⟨-, -, hle, -⟩ := sequenceItem_eq_ok hseq
        cases hs
        rw [List.length_cons]
        omega
      · cases h
  reads_only := by
    intro bs s n t h
    cases bs with
    | nil => cases h
    | cons kind rest =>
      simp only [sectionItem] at h
      split_ifs at h with h0 h1
      · obtain ⟨⟨doc, k⟩, hdoc, hs⟩ := (Outcome.bind_eq_ok _ _ _).mp h
        cases hs
        simp only [List.take_succ_cons, List.cons_append, sectionItem, if_pos h0,
          (document_delimited hb).reads_only rest _ k t hdoc, Outcome.ok_bind, Outcome.pure_eq_ok]
      · obtain ⟨⟨s', k⟩, hseq, hs⟩ := (Outcome.bind_eq_ok _ _ _).mp h
        cases hs
        simp only [List.take_succ_cons, List.cons_append, sectionItem, if_neg h0, if_pos h1,
          sequenceItem_reads_only t hseq, Outcome.ok_bind, Outcome.pure_eq_ok]
      · cases h

/-! ### What the writer produces is in the grammar -/

theorem encodes_document (hb : bson.ReadsBack) (d : Document) (w : Bytes)
    (h : bson.toWriter d = .ok w) : Items.Encodes (document bson) d w := by
  have hlen := hb.toWriter_length d w h
  refine ⟨fun hnil => by simp [hnil] at hlen, fun rest => ?_⟩
  simp only [document, hb.fromReader_toWriter d w rest h, Outcome.ofResult_ok]

theorem many_writeDocuments (hb : bson.ReadsBack) (docs : List Document) (w : Bytes)
    (h : writeDocuments bson docs = .ok w) : Items.many (document bson) w = .ok docs := by
  obtain ⟨ws, rfl, hall⟩ := (Items.writeAll_eq_ok_iff _ _ _).mp h
  exact Items.many_flatten _ _ _ (hall.imp fun d p hp => encodes_document hb d p hp)

theorem encodes_section (hb : bson.ReadsBack) (s : OpMsgSection) (w : Bytes)
    (h : writeSection bson s = .ok w) : Items.Encodes (sectionItem bson) s w := by
  cases s with
  | body doc =>
    simp only [writeSection] at h
    cases hd : bson.toWriter doc with
    | error e => rw [hd] at h; cases h
    | ok p =>
      rw [hd] at h
      have hw : w = 0 :: p := (Except.ok.inj h).symm
      subst hw
      refine ⟨by simp, fun rest => ?_⟩
      simp only [List.cons_append, sectionItem, if_true, (encodes_document hb doc p hd).2 rest,
        Outcome.ok_bind, Outcome.pure_eq_ok, List.length_cons]
  | documentSequence identifier documents =>
    simp only [writeSection] at h
    cases hi : CStr.withNul (Text.utf8 identifier) with
    | error e => rw [hi] at h; cases h
    | ok ident =>
      cases hd : writeDocuments bson documents with
      | error e => rw [hi, hd] at h; cases h
      | ok docs =>
        rw [hi, hd] at h
        obtain ⟨hfree, rfl⟩ := CStr.withNul_eq_ok _ _ hi
        cases hs : i32OfNat (4 + (Text.utf8 identifier ++ [0]).length + docs.length) with
        | none => simp only [Except.mapError, bind, Except.bind, hs] at h; cases h
        | some size =>
          simp only [Except.mapError, bind, Except.bind, hs] at h
          have hw : w = 1 :: (ofI32 size ++ ((Text.utf8 identifier ++ [0]) ++ docs)) :=
            (Except.ok.inj h).symm
          have hsize := i32OfNat_eq_some _ _ hs
          simp only [List.length_append, List.length_cons, List.length_nil] at hsize
          subst hw
          refine ⟨by simp, fun rest => ?_⟩
          have hdecl : declaredSize (ofI32 size ++ ((Text.utf8 identifier ++ [0]) ++ docs) ++ rest)
              = size := by
            rw [declaredSize, List.append_assoc, List.take_left' (ofI32_length _), toI32_ofI32]
          have hlen : (ofI32 size ++ ((Text.utf8 identifier ++ [0]) ++ docs)).length
              = size.toInt.toNat := by
            simp only [List.length_append, ofI32_length, List.length_cons, List.length_nil]
            omega
          have hpay : ((ofI32 size ++ ((Text.utf8 identifier ++ [0]) ++ docs) ++ rest).take
              size.toInt.toNat).drop 4 = Text.utf8 identifier ++ 0 :: docs := by
            rw [List.take_left' hlen, List.drop_left' (ofI32_length _), List.append_assoc]
            rfl
          have hseq : sequence bson (Text.utf8 identifier ++ 0 :: docs)
              = .ok (.documentSequence identifier documents) := by
            have hdrop : (Text.utf8 identifier ++ 0 :: docs).drop ((Text.utf8 identifier).length + 1)
                = docs := by
              rw [← List.drop_drop, List.drop_left, List.drop_succ_cons, List.drop_zero]
            simp only [sequence, CStr.untilNul_append _ _ hfree, Outcome.okOr_some, Outcome.ok_bind,
              Text.ofUtf8_utf8, hdrop, many_writeDocuments hb _ _ hd, Outcome.pure_eq_ok]
          have hn4 : ¬ (ofI32 size ++ ((Text.utf8 identifier ++ [0]) ++ docs) ++ rest).length < 4 := by
            rw [List.length_append, hlen]
            omega
          have hn5 : ¬ size.toInt < 5 := by omega
          have hnfit : ¬ (ofI32 size ++ ((Text.utf8 identifier ++ [0]) ++ docs) ++ rest).length
              < size.toInt.toNat := by
            rw [List.length_append, hlen]
            omega
          have h10 : ¬ (1 : UInt8) = 0 := by decide
          simp only [List.cons_append, sectionItem, if_neg h10, if_true, sequenceItem, hdecl,
            if_neg hn4, if_neg hn5, if_neg hnfit, hpay, hseq, Outcome.ok_bind,
            Outcome.pure_eq_ok, List.length_cons, hlen]

theorem writeSections_ne_nil (hb : bson.ReadsBack) {ss : List OpMsgSection} {w : Bytes}
    (hne : ss ≠ []) (h : writeSections bson ss = .ok w) : w ≠ [] := by
  obtain ⟨s, ss, rfl⟩ := List.exists_cons_of_ne_nil hne
  simp only [writeSections, Items.writeAll, Outcome.bind_eq_ok] at h
  obtain ⟨p, hp, rest, -, hw⟩ := h
  have hpne := (encodes_section hb s p hp).1
  rw [← Except.ok.inj hw]
  exact List.append_ne_nil_of_left_ne_nil hpne rest

/-- The sections a message is written with are the sections read back. -/
theorem sections_writeSections (hb : bson.ReadsBack) (ss : List OpMsgSection) (w : Bytes)
    (h : writeSections bson ss = .ok w) : sections bson w = .ok ss := by
  obtain ⟨ws, rfl, hall⟩ := (Items.writeAll_eq_ok_iff _ _ _).mp h
  exact Items.many_flatten _ _ _ (hall.imp fun s p hp => encodes_section hb s p hp)

end OpMsgGrammar

end MongodProxy
