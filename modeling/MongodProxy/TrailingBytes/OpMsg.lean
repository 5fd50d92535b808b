import MongodProxy.Operation.OpMsgGrammar

/-!
# Bytes after an OP_MSG body

The section loop runs to the end of the bytes it is given, so a body is settled by
its own bytes only if it is rejected: for its flag word, or at a section that fails
whatever follows. With a checksum the bytes that follow the sections are at first the
checksum's, which moves to the end of what is there.
-/

namespace MongodProxy
open LittleEndian

variable {β : Type} {bson : BsonCodec β}

namespace OpMsgGrammar

/-! ### The errors of a section -/

theorem sequence_error (hb : bson.Delimited) {payload : Bytes}
    {f : Outcome.Fail (OperationMessageParseError β)} (h : sequence bson payload = .error f) :
    f = .err .documentSequenceIdentifierMissingNul ∨
      (∃ bytes, f = .err (.documentSequenceIdentifierNotUtf8 bytes)) ∨
      ∃ e, f = .err (.invalidBson e) := by
  unfold sequence at h
  rcases (Outcome.bind_eq_error _ _ _).mp h with h | ⟨ident, -, h⟩
  · exact .inl ((Outcome.okOr_eq_error _ _ _).mp h).2
  rcases (Outcome.bind_eq_error _ _ _).mp h with h | ⟨identifier, -, h⟩
  · exact .inr (.inl ⟨ident, ((Outcome.okOr_eq_error _ _ _).mp h).2⟩)
  rcases (Outcome.bind_eq_error _ _ _).mp h with h | ⟨documents, -, h⟩
  · obtain ⟨p, r, ds, -, -, -, hr⟩ := Items.many_error_split _ (document_delimited hb) _ _ h
    obtain ⟨e, -, he⟩ := (Outcome.ofResult_eq_error _ _ _).mp hr
    exact .inr (.inr ⟨e, he⟩)
  · cases h

/-- A payload that fits is not blamed on the size field. -/
theorem sequence_ne_size (hb : bson.Delimited) (payload : Bytes) (size : Int32) :
    sequence bson payload ≠ Outcome.err (.invalidDocumentSequenceSize size) := by
  intro h
  rcases sequence_error hb h with h | ⟨bytes, h⟩ | ⟨e, h⟩
  · cases h
  · cases h
  · cases h

/- The errors that do not come from a section. -/
def FromBody : OperationMessageParseError β → Prop
  | .notEnoughBytes _ _ => True
  | .missingChecksum => True
  | .unknownRequiredBits _ => True
  | _ => False

theorem sequenceItem_error (hb : bson.Delimited) {rest : Bytes}
    {f : Outcome.Fail (OperationMessageParseError β)} (h : sequenceItem bson rest = .error f) :
    ∃ e, f = .err e ∧ ¬FromBody e := by
  by_cases h4 : rest.length < 4
  · rw [sequenceItem_of_short h4] at h
    cases h
    exact ⟨_, rfl, id⟩
  · by_cases h5 : (declaredSize rest).toInt < 5
    · rw [sequenceItem_of_small (Nat.not_lt.mp h4) h5] at h
      cases h
      exact ⟨_, rfl, id⟩
    · by_cases hcut : rest.length < (declaredSize rest).toInt.toNat
      · rw [sequenceItem_of_cut (Nat.not_lt.mp h4) hcut] at h
        cases h
        exact ⟨_, rfl, id⟩
      · rw [sequenceItem_of_fit (Int.not_lt.mp h5) (Nat.not_lt.mp hcut)] at h
        rcases (Outcome.bind_eq_error _ _ _).mp h with h | ⟨s, -, h⟩
        · rcases sequence_error hb h with rfl | ⟨bytes, rfl⟩ | ⟨e, rfl⟩
          · exact ⟨_, rfl, id⟩
          · exact ⟨_, rfl, id⟩
          · exact ⟨_, rfl, id⟩
        · cases h

theorem sections_error (hb : bson.Delimited) {s : Bytes}
    {f : Outcome.Fail (OperationMessageParseError β)} (h : sections bson s = .error f) :
    ∃ e, f = .err e ∧ ¬FromBody e := by
  obtain ⟨p, r, xs, -, -, hr, he⟩ := Items.many_error_split _ (sectionItem_delimited hb) s f h
  obtain ⟨kind, rest, rfl⟩ := List.exists_cons_of_ne_nil hr
  simp only [sectionItem] at he
  split_ifs at he
  · rcases (Outcome.bind_eq_error _ _ _).mp he with he | ⟨found, -, he⟩
    · obtain ⟨e, -, rfl⟩ := (Outcome.ofResult_eq_error _ _ _).mp he
      exact ⟨_, rfl, id⟩
    · cases he
  · rcases (Outcome.bind_eq_error _ _ _).mp he with he | ⟨found, -, he⟩
    · exact sequenceItem_error hb he
    · cases he
  · cases he
    exact ⟨_, rfl, id⟩

/-! ### What may follow -/

/- `u` goes on after bytes whose continuation starts with `c`. -/
def Follows (c u : Bytes) : Prop := u <+: c ∨ c <+: u

theorem Follows.take {c u : Bytes} (h : Follows c u) (n : ℕ) : Follows c (u.take n) := by
  rcases h with h | h
  · exact .inl ((List.take_prefix n u).trans h)
  · exact List.prefix_or_prefix_of_prefix (List.take_prefix n u) h

/- The section that starts at the kind byte fails to parse, and goes on failing in the same way
with any continuation that starts with `c`. -/
def StuckSection (bson : BsonCodec β) (c : Bytes) : Bytes → Prop
  | [] => False
  | kind :: rest =>
    if kind = 0 then ∃ e, ∀ u, Follows c u → bson.fromReader (rest ++ u) = .error e
    else if kind = 1 then
      if rest.length < 4 then 4 ≤ (rest ++ c).length ∧ declaredSize (rest ++ c) = 0
      else (declaredSize rest).toInt < 5 ∨
        (declaredSize rest).toInt.toNat ≤ rest.length ∧
          ∃ e, sequence bson ((rest.take (declaredSize rest).toInt.toNat).drop 4) = .error e
    else True

/- The sections parse up to one that is stuck. -/
def Stuck (bson : BsonCodec β) (c s : Bytes) : Prop :=
  ∃ p r xs, s = p ++ r ∧ sections bson p = .ok xs ∧ StuckSection bson c r

theorem declaredSize_follows {c u rest : Bytes} (h : Follows c u) (hc : 4 ≤ (rest ++ c).length)
    (hu : 4 ≤ (rest ++ u).length) : declaredSize (rest ++ u) = declaredSize (rest ++ c) := by
  rcases h with ⟨v, rfl⟩ | ⟨v, rfl⟩
  · rw [← List.append_assoc, declaredSize_append v hu]
  · rw [← List.append_assoc, declaredSize_append v hc]

theorem StuckSection.fails {c r : Bytes} (h : StuckSection bson c r) :
    r ≠ [] ∧ ∃ e, ∀ u, Follows c u → sectionItem bson (r ++ u) = .error e := by
  cases r with
  | nil => exact h.elim
  | cons kind rest =>
    refine ⟨List.cons_ne_nil _ _, ?_⟩
    simp only [StuckSection] at h
    simp only [List.cons_append, sectionItem]
    by_cases h0 : kind = 0
    · simp only [if_pos h0] at h ⊢
      obtain ⟨e, he⟩ := h
      refine ⟨.err (.invalidBson e), ?_⟩
      intro u hu
      simp only [document, he u hu, Outcome.ofResult_error]
      rfl
    · by_cases h1 : kind = 1
      · simp only [if_neg h0, if_pos h1] at h ⊢
        by_cases h4 : rest.length < 4
        · -- the size field runs into what follows and reads zero there
          rw [if_pos h4] at h
          refine ⟨.err (.invalidDocumentSequenceSize 0), ?_⟩
          intro u hu
          by_cases hshort : (rest ++ u).length < 4
          · rw [sequenceItem_of_short hshort]
            rfl
          · have hzero : declaredSize (rest ++ u) = 0 :=
              (declaredSize_follows hu h.1 (Nat.not_lt.mp hshort)).trans h.2
            rw [sequenceItem_of_small (Nat.not_lt.mp hshort) (by rw [hzero]; decide), hzero]
            rfl
        · rw [if_neg h4] at h
          have hsize := fun u => declaredSize_append u (Nat.not_lt.mp h4)
          have hlong : ∀ u, 4 ≤ (rest ++ u).length := by
            intro u
            rw [List.length_append]
            omega
          by_cases h5 : (declaredSize rest).toInt < 5
          · refine ⟨.err (.invalidDocumentSequenceSize (declaredSize rest)), ?_⟩
            intro u _
            rw [sequenceItem_of_small (hlong u) (by rw [hsize]; exact h5), hsize]
            rfl
          · obtain ⟨hfit, e, he⟩ := h.resolve_left h5
            refine ⟨e, ?_⟩
            intro u _
            have hfitu : (declaredSize (rest ++ u)).toInt.toNat ≤ (rest ++ u).length := by
              rw [hsize, List.length_append]
              omega
            rw [sequenceItem_of_fit (by rw [hsize]; exact Int.not_lt.mp h5) hfitu, hsize,
              List.take_append_of_le_length hfit, he]
            rfl
      · refine ⟨.err (.invalidKind kind), ?_⟩
        intro u _
        simp only [if_neg h0, if_neg h1, Outcome.err]

theorem sections_single {r : Bytes} {s : OpMsgSection}
    (h : sectionItem bson r = .ok (s, r.length)) : sections bson r = .ok [s] := by
  have hpos := sectionItem_progress bson _ _ _ h
  have hne : r ≠ [] := List.length_pos_iff.mp hpos
  rw [sections, Items.many_of_ne_nil _ (sectionItem_progress bson) r hne, h]
  simp only [Outcome.ok_bind, List.drop_length, Items.many_nil, Outcome.pure_eq_ok]

theorem sections_of_error {r : Bytes} {e : Outcome.Fail (OperationMessageParseError β)}
    (hr : r ≠ []) (h : sectionItem bson r = .error e) : sections bson r = .error e := by
  rw [sections, Items.many_of_ne_nil _ (sectionItem_progress bson) r hr, h]
  rfl

/- A document that is cut short but could be completed is completed by some continuation. -/
theorem stuck_body (hb : bson.Delimited) {c rest : Bytes} {e : β}
    (he : bson.fromReader rest = .error e)
    (hall : ∀ u, Follows c u → sections bson (0 :: rest ++ u) = Outcome.err (.invalidBson e)) :
    ∀ u, Follows c u → bson.fromReader (rest ++ u) = .error e := by
  intro u hu
  cases hread : bson.fromReader (rest ++ u) with
  | error e' =>
    have hitem : sectionItem bson (0 :: rest ++ u) = Outcome.err (.invalidBson e') := by
      simp only [List.cons_append, sectionItem, if_true, document, hread, Outcome.ofResult_error,
        Outcome.err_bind]
    have hboth := (sections_of_error (List.cons_ne_nil _ _) hitem).symm.trans (hall u hu)
    cases hboth
    rfl
  | ok found =>
    obtain ⟨d, n⟩ := found
    have hle := hb.consumed_le _ _ _ hread
    have hlong : rest.length < n := by
      by_contra hshort
      have hread' := hb.reads_only _ _ _ (rest.drop n) hread
      rw [List.take_append_of_le_length (Nat.not_lt.mp hshort), List.take_append_drop, he] at hread'
      cases hread'
    have htake : (rest ++ u).take n = rest ++ u.take (n - rest.length) := by
      rw [List.take_append, List.take_of_length_le (Nat.le_of_lt hlong)]
    have hlen : (rest ++ u.take (n - rest.length)).length = n := by
      rw [← htake, List.length_take]
      omega
    have hexact : bson.fromReader (rest ++ u.take (n - rest.length)) = .ok (d, n) := by
      have hread' := hb.reads_only _ _ _ [] hread
      rwa [List.append_nil, htake] at hread'
    have hitem : sectionItem bson (0 :: rest ++ u.take (n - rest.length))
        = .ok (.body d, (0 :: rest ++ u.take (n - rest.length)).length) := by
      simp only [List.cons_append, sectionItem, if_true, document, hexact, Outcome.ofResult_ok,
        Outcome.ok_bind, Outcome.pure_eq_ok, List.length_cons, hlen]
    have hboth := (sections_single hitem).symm.trans (hall _ (hu.take (n - rest.length)))
    cases hboth

theorem exists_follows (c rest : Bytes) (n : ℕ) (h : rest.length ≤ n) :
    ∃ u, Follows c u ∧ (rest ++ u).length = n := by
  have hfollows : Follows c (c ++ List.replicate n 0) := .inr (List.prefix_append _ _)
  refine ⟨_, hfollows.take (n - rest.length), ?_⟩
  simp only [List.length_append, List.length_take, List.length_replicate]
  omega

theorem sections_fit_ne_size (hb : bson.Delimited) {w : Bytes} (h5 : 5 ≤ (declaredSize w).toInt)
    (hfit : w.length = (declaredSize w).toInt.toNat) (size : Int32) :
    sections bson (1 :: w) ≠ Outcome.err (.invalidDocumentSequenceSize size) := by
  have hitem : sectionItem bson (1 :: w)
      = (sequenceItem bson w >>= fun p => pure (p.1, p.2 + 1)) := rfl
  rw [sequenceItem_of_fit h5 (Nat.le_of_eq hfit.symm)] at hitem
  intro h
  cases hs : sequence bson ((w.take (declaredSize w).toInt.toNat).drop 4) with
  | ok s =>
    have hexact : sectionItem bson (1 :: w) = .ok (s, (1 :: w).length) := by
      rw [hitem, hs, List.length_cons, hfit]
      rfl
    cases (sections_single hexact).symm.trans h
  | error e =>
    have hfail : sectionItem bson (1 :: w) = .error e := by
      rw [hitem, hs]
      rfl
    have he := (sections_of_error (List.cons_ne_nil _ _) hfail).symm.trans h
    cases he
    exact sequence_ne_size hb _ size hs

theorem sections_small {w : Bytes} (h4 : 4 ≤ w.length) (h5 : (declaredSize w).toInt < 5) :
    sections bson (1 :: w) = Outcome.err (.invalidDocumentSequenceSize (declaredSize w)) := by
  have hitem : sectionItem bson (1 :: w)
      = (sequenceItem bson w >>= fun p => pure (p.1, p.2 + 1)) := rfl
  rw [sequenceItem_of_small h4 h5] at hitem
  exact sections_of_error (List.cons_ne_nil _ _) hitem

/- A size field with a high last byte is negative. -/
theorem declaredSize_neg {w : Bytes} (h : w.length < 4) :
    (declaredSize (w ++ [255, 255, 255, 255])).toInt < 0 := by
  have hlen : ((w ++ [255, 255, 255, 255]).take 4).length = 4 := by
    simp only [List.length_take, List.length_append, List.length_cons, List.length_nil]
    omega
  have h255 : (255 : UInt8).toNat = 255 := rfl
  apply toI32_neg _ hlen
  rcases w with - | ⟨a, - | ⟨b, - | ⟨c, - | ⟨d, w⟩⟩⟩⟩
  · simp only [List.nil_append, List.take, value, h255]
    omega
  · simp only [List.cons_append, List.nil_append, List.take, value, h255]
    omega
  · simp only [List.cons_append, List.nil_append, List.take, value, h255]
    omega
  · simp only [List.cons_append, List.nil_append, List.take, value, h255]
    omega
  · simp only [List.length_cons] at h
    omega

/- The same for a kind-1 section: a size field or a payload that is cut short. -/
theorem stuck_sequence (hb : bson.Delimited) {c rest : Bytes}
    {e : Outcome.Fail (OperationMessageParseError β)} (he : sequenceItem bson rest = .error e)
    (hall : ∀ u, Follows c u → sections bson (1 :: (rest ++ u)) = .error e) :
    if rest.length < 4 then 4 ≤ (rest ++ c).length ∧ declaredSize (rest ++ c) = 0
    else (declaredSize rest).toInt < 5 ∨
      (declaredSize rest).toInt.toNat ≤ rest.length ∧
        ∃ e, sequence bson ((rest.take (declaredSize rest).toInt.toNat).drop 4) = .error e := by
  by_cases h4 : rest.length < 4
  · rw [if_pos h4]
    rw [sequenceItem_of_short h4] at he
    cases he
    have hc : 4 ≤ (rest ++ c).length := by
      by_contra hshort
      have hneg := declaredSize_neg (Nat.not_le.mp hshort)
      have hlong : 4 ≤ (rest ++ c ++ [255, 255, 255, 255]).length := by
        rw [List.length_append]
        exact Nat.le_add_left _ _
      have hu := hall (c ++ [255, 255, 255, 255]) (.inr (List.prefix_append _ _))
      rw [← List.append_assoc, sections_small hlong (by omega), Outcome.err] at hu
      have hzero := OperationMessageParseError.invalidDocumentSequenceSize.inj
        (Outcome.Fail.err.inj (Except.error.inj hu))
      rw [hzero] at hneg
      exact absurd hneg (by decide)
    refine ⟨hc, ?_⟩
    by_cases h5 : (declaredSize (rest ++ c)).toInt < 5
    · have hu := hall c (.inl List.prefix_rfl)
      rw [sections_small hc h5, Outcome.err] at hu
      exact OperationMessageParseError.invalidDocumentSequenceSize.inj
        (Outcome.Fail.err.inj (Except.error.inj hu))
    · obtain ⟨u, hu, hlen⟩ := exists_follows c rest (declaredSize (rest ++ c)).toInt.toNat (by omega)
      have hsize := declaredSize_follows hu hc (by omega)
      exact absurd (hall u hu) (sections_fit_ne_size hb (by rw [hsize]; omega)
        (by rw [hsize]; exact hlen) 0)
  · rw [if_neg h4]
    by_cases h5 : (declaredSize rest).toInt < 5
    · exact .inl h5
    · refine .inr ?_
      by_cases hcut : rest.length < (declaredSize rest).toInt.toNat
      · rw [sequenceItem_of_cut (Nat.not_lt.mp h4) hcut] at he
        cases he
        obtain ⟨u, hu, hlen⟩ := exists_follows c rest (declaredSize rest).toInt.toNat
          (Nat.le_of_lt hcut)
        have hsize := declaredSize_append u (Nat.not_lt.mp h4)
        exact absurd (hall u hu) (sections_fit_ne_size hb (by rw [hsize]; omega)
          (by rw [hsize]; exact hlen) _)
      · refine ⟨Nat.not_lt.mp hcut, ?_⟩
        rw [sequenceItem_of_fit (Int.not_lt.mp h5) (Nat.not_lt.mp hcut)] at he
        rcases (Outcome.bind_eq_error _ _ _).mp he with he | ⟨s, -, he⟩
        · exact ⟨e, he⟩
        · cases he

theorem stuckSection_of_fails (hb : bson.Delimited) {c r : Bytes}
    {e : Outcome.Fail (OperationMessageParseError β)} (hr : r ≠ [])
    (he : sectionItem bson r = .error e)
    (hall : ∀ u, Follows c u → sections bson (r ++ u) = .error e) : StuckSection bson c r := by
  obtain ⟨kind, rest, rfl⟩ := List.exists_cons_of_ne_nil hr
  simp only [StuckSection]
  simp only [sectionItem] at he
  by_cases h0 : kind = 0
  · rw [if_pos h0]
    subst h0
    rw [if_pos rfl] at he
    rcases (Outcome.bind_eq_error _ _ _).mp he with he | ⟨found, -, he⟩
    · obtain ⟨eb, hread, rfl⟩ := (Outcome.ofResult_eq_error _ _ _).mp he
      exact ⟨eb, stuck_body hb hread hall⟩
    · cases he
  · by_cases h1 : kind = 1
    · rw [if_neg h0, if_pos h1]
      subst h1
      rw [if_neg h0, if_pos rfl] at he
      rcases (Outcome.bind_eq_error _ _ _).mp he with he | ⟨found, -, he⟩
      · exact stuck_sequence hb he hall
      · cases he
    · rw [if_neg h0, if_neg h1]
      trivial

theorem exists_follows_ne_nil (c : Bytes) : ∃ u, Follows c u ∧ u ≠ [] := by
  by_cases hc : c = []
  · exact ⟨[0], .inr (by rw [hc]; exact List.nil_prefix), List.cons_ne_nil _ _⟩
  · exact ⟨c, .inl List.prefix_rfl, hc⟩

theorem Stuck.error (hb : bson.Delimited) {c s : Bytes} (h : Stuck bson c s) :
    ∃ e, ∀ u, Follows c u → sections bson (s ++ u) = .error e := by
  obtain ⟨p, r, xs, rfl, hp, hstuck⟩ := h
  obtain ⟨hr, e, he⟩ := hstuck.fails
  refine ⟨e, ?_⟩
  intro u hu
  rw [List.append_assoc]
  exact Items.many_stuck _ (sectionItem_delimited hb) p (r ++ u) xs e hp
    (List.append_ne_nil_of_left_ne_nil hr u) (he u hu)

/-- What follows the sections is ignored exactly when they are stuck. -/
theorem sections_settled_iff (hb : bson.Delimited) (c s : Bytes) :
    (∀ u, Follows c u → sections bson (s ++ u) = sections bson s) ↔ Stuck bson c s := by
  have hd := sectionItem_delimited hb
  constructor
  · intro h
    cases hs : sections bson s with
    | ok xs =>
      -- all sections parse, so a continuation is one more section or an error
      obtain ⟨u, hu, hne⟩ := exists_follows_ne_nil c
      have hext := h u hu
      rw [hs, sections, Items.many_append _ hd s u xs hs, Outcome.bind_eq_ok] at hext
      obtain ⟨ys, hys, hxs⟩ := hext
      obtain ⟨x, n, zs, -, -, rfl⟩ := Items.many_eq_ok_of_ne_nil _ hd.progress u ys hne hys
      have hlen := congrArg List.length (Except.ok.inj hxs)
      simp only [List.length_append, List.length_cons] at hlen
      omega
    | error e =>
      obtain ⟨p, r, xs, rfl, hp, hr, he⟩ := Items.many_error_split _ hd s e hs
      refine ⟨p, r, xs, rfl, hp, stuckSection_of_fails hb hr he ?_⟩
      intro u hu
      have hext := h u hu
      rw [hs, List.append_assoc, sections, Items.many_append _ hd p _ xs hp] at hext
      rcases (Outcome.bind_eq_error _ _ _).mp hext with hrest | ⟨ys, -, hys⟩
      · exact hrest
      · cases hys
  · intro hstuck u hu
    obtain ⟨e, hall⟩ := hstuck.error hb
    have hnil := hall [] (.inl List.nil_prefix)
    rw [List.append_nil] at hnil
    rw [hall u hu, hnil]

/-! ### OP_MSG bodies -/

theorem sections_bind_ne (hb : bson.Delimited) (s : Bytes) (f : List OpMsgSection → OperationMessage)
    {e : OperationMessageParseError β} (he : FromBody e) :
    (sections bson s >>= fun xs => pure (f xs)) ≠ Outcome.err e := by
  intro h
  rcases (Outcome.bind_eq_error _ _ _).mp h with hs | ⟨xs, -, hxs⟩
  · obtain ⟨e', heq, hfrom⟩ := sections_error hb hs
    cases heq
    exact hfrom he
  · cases hxs

theorem messageOf_ne_notEnoughBytes (hb : bson.Delimited) (rawFlags : UInt32) (afterFlags : Bytes)
    (actual min : ℕ) :
    messageOf bson rawFlags afterFlags ≠ Outcome.err (.notEnoughBytes actual min) := by
  unfold messageOf
  split_ifs
  · intro h
    cases h
  · intro h
    cases h
  · exact sections_bind_ne hb _ _ trivial
  · exact sections_bind_ne hb _ _ trivial

/- The section bytes when `t` follows the body: the checksum moves to the end. -/
theorem take_checksum (s c t : Bytes) (hc : c.length = 4) :
    (s ++ c ++ t).take ((s ++ c ++ t).length - 4) = s ++ (c ++ t).take t.length := by
  have hlen : (s ++ c ++ t).length - 4 = s.length + t.length := by
    simp only [List.length_append]
    omega
  rw [hlen, List.append_assoc, List.take_length_add_append]

theorem exists_trailing {c u : Bytes} (hu : Follows c u) : ∃ t, (c ++ t).take t.length = u := by
  rcases hu with ⟨v, rfl⟩ | ⟨v, rfl⟩
  · exact ⟨u, by rw [List.append_assoc, List.take_left]⟩
  · refine ⟨v ++ c, ?_⟩
    rw [← List.append_assoc, List.take_left' (by simp only [List.length_append]; omega)]

/-- The same for a body with a checksum: it goes on with the checksum bytes. -/
theorem messageOf_checksum_settled_iff (hb : bson.Delimited) (rawFlags : UInt32) (s c : Bytes)
    (hc : c.length = 4) (hknown : ¬unknownRequired rawFlags ≠ 0)
    (hflag : (OperationMessageFlags.fromBitsTruncate rawFlags).contains .checksumPresent = true) :
    (∀ t, messageOf bson rawFlags (s ++ c ++ t) = messageOf bson rawFlags (s ++ c))
      ↔ Stuck bson c s := by
  have hmessage : ∀ t, messageOf bson rawFlags (s ++ c ++ t)
      = (sections bson (s ++ (c ++ t).take t.length) >>= fun xs =>
          pure ⟨.fromBitsTruncate rawFlags, xs,
            some (toU32 ((s ++ c ++ t).drop ((s ++ c ++ t).length - 4)))⟩) := by
    intro t
    have h4 : ¬(s ++ c ++ t).length < 4 := by
      simp only [List.length_append]
      omega
    simp only [messageOf, if_neg hknown, if_pos hflag, if_neg h4, take_checksum s c t hc]
  have hnone := hmessage []
  simp only [List.append_nil, List.length_nil, List.take_zero] at hnone
  rw [← sections_settled_iff hb c s]
  constructor
  · intro h u hu
    obtain ⟨t, rfl⟩ := exists_trailing hu
    have ht := h t
    rw [hmessage t, hnone] at ht
    exact Outcome.eq_of_bind_pure
      (fun _ _ hm => congrArg OperationMessage.sections hm) _ _ ht
  · intro h t
    obtain ⟨e, he⟩ := ((sections_settled_iff hb c s).mp h).error hb
    have ht := he ((c ++ t).take t.length) (Follows.take (.inr (List.prefix_append c t)) _)
    have h0 := he [] (.inl List.nil_prefix)
    rw [List.append_nil] at h0
    rw [hmessage t, hnone, ht, h0]
    rfl

theorem messageOf_settled_iff (hb : bson.Delimited) (rawFlags : UInt32) (afterFlags : Bytes) :
    (∀ t, messageOf bson rawFlags (afterFlags ++ t) = messageOf bson rawFlags afterFlags) ↔
      (unknownRequired rawFlags ≠ 0 ∨
        if (OperationMessageFlags.fromBitsTruncate rawFlags).contains .checksumPresent then
          4 ≤ afterFlags.length ∧ Stuck bson (afterFlags.drop (afterFlags.length - 4))
            (afterFlags.take (afterFlags.length - 4))
        else Stuck bson [] afterFlags) := by
  by_cases hknown : unknownRequired rawFlags ≠ 0
  · simp only [messageOf, if_pos hknown, implies_true, true_iff]
    exact .inl hknown
  · rw [or_iff_right hknown]
    by_cases hflag : (OperationMessageFlags.fromBitsTruncate rawFlags).contains .checksumPresent = true
    · rw [if_pos hflag]
      by_cases h4 : afterFlags.length < 4
      · -- with four more bytes there is a checksum
        constructor
        · intro h
          have ht := h [0, 0, 0, 0]
          have hlong : ¬(afterFlags ++ [0, 0, 0, 0]).length < 4 := by
            rw [List.length_append]
            exact Nat.not_lt.mpr (Nat.le_add_left _ _)
          simp only [messageOf, if_neg hknown, if_pos hflag, if_pos h4, if_neg hlong] at ht
          exact absurd ht (sections_bind_ne hb _ _ trivial)
        · rintro ⟨hle, -⟩
          omega
      · have hc : (afterFlags.drop (afterFlags.length - 4)).length = 4 := by
          rw [List.length_drop]
          omega
        have hiff := messageOf_checksum_settled_iff hb rawFlags
          (afterFlags.take (afterFlags.length - 4)) _ hc hknown hflag
        rw [List.take_append_drop] at hiff
        rw [hiff, and_iff_right (Nat.not_lt.mp h4)]
    · rw [if_neg hflag, ← sections_settled_iff hb [] afterFlags]
      simp only [messageOf, if_neg hknown, if_neg hflag]
      constructor
      · intro h u _
        exact Outcome.eq_of_bind_pure
          (fun _ _ hm => congrArg OperationMessage.sections hm) _ _ (h u)
      · intro h t
        rw [h t (.inr List.nil_prefix)]

/- What follows an OP_MSG body does not matter: its flag word is rejected, or a section is stuck.
A body with a checksum goes on with the checksum bytes. -/
def SettledBody (bson : BsonCodec β) (body : Bytes) : Prop :=
  5 ≤ body.length ∧
    (unknownRequired (toU32 (body.take 4)) ≠ 0 ∨
      if (OperationMessageFlags.fromBitsTruncate (toU32 (body.take 4))).contains .checksumPresent then
        4 ≤ (body.drop 4).length ∧ Stuck bson ((body.drop 4).drop ((body.drop 4).length - 4))
          ((body.drop 4).take ((body.drop 4).length - 4))
      else Stuck bson [] (body.drop 4))

theorem fromBytes_settled_iff (hb : bson.Delimited) (body : Bytes) :
    (∀ t, OperationMessage.fromBytes bson (body ++ t) = OperationMessage.fromBytes bson body)
      ↔ SettledBody bson body := by
  unfold SettledBody
  by_cases h5 : 5 ≤ body.length
  · rw [and_iff_right h5, ← messageOf_settled_iff hb]
    have happend : ∀ t, OperationMessage.fromBytes bson (body ++ t)
        = messageOf bson (toU32 (body.take 4)) (body.drop 4 ++ t) := by
      intro t
      have hle : OperationMessage.minLen ≤ (body ++ t).length := by
        rw [List.length_append, OperationMessage.minLen]
        omega
      rw [fromBytes_of_le bson _ hle, List.take_append_of_le_length (by omega),
        List.drop_append_of_le_length (by omega)]
    simp only [happend, fromBytes_of_le bson body h5]
  · constructor
    · intro h
      have hshort := h [0]
      rw [fromBytes_of_lt bson body (Nat.not_le.mp h5)] at hshort
      by_cases hlt : (body ++ [0]).length < OperationMessage.minLen
      · rw [fromBytes_of_lt bson _ hlt, Outcome.err_inj] at hshort
        have hlen := (OperationMessageParseError.notEnoughBytes.inj hshort).1
        rw [List.length_append, List.length_singleton] at hlen
        omega
      · rw [fromBytes_of_le bson _ (Nat.not_lt.mp hlt)] at hshort
        exact absurd hshort (messageOf_ne_notEnoughBytes hb _ _ _ _)
    · rintro ⟨hle, -⟩
      exact absurd hle h5

end OpMsgGrammar

end MongodProxy
