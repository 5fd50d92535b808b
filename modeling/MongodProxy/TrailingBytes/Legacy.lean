import MongodProxy.Operation.OpQuery
import MongodProxy.Operation.OpReply

/-!
# Bytes after the legacy bodies

A query without a selector takes the bytes after it for one, so it is settled only
with a selector of its own or when it is rejected. A reply says how many documents it
has and looks at nothing after them.
-/

namespace MongodProxy
open LittleEndian

variable {β : Type} {bson : BsonCodec β}

/-! ### OP_QUERY bodies -/

namespace OperationQuery

/- The documents of a query do not depend on what follows: the query document fails for good, or
a selector is there and is read, or fails, for good. -/
def SettledDocuments (bson : BsonCodec β) (reader : Bytes) : Prop :=
  (∃ e, ∀ u, bson.fromReader (reader ++ u) = .error e) ∨
    ∃ d n, bson.fromReader reader = .ok (d, n) ∧ reader.drop n ≠ [] ∧
      ∃ selector, ∀ u, bson.fromReader (reader.drop n ++ u) = selector

theorem documentsOf_eq_failedToParseQuery (reader : Bytes) (e : β) :
    documentsOf bson reader = Outcome.err (.failedToParseQuery e)
      ↔ bson.fromReader reader = .error e := by
  cases hread : bson.fromReader reader with
  | error e' =>
    simp only [documentsOf, hread, Outcome.ofResult_error, Outcome.err_bind, Outcome.err_inj,
      OperationQueryParseError.failedToParseQuery.injEq, Except.error.injEq]
  | ok found =>
    refine iff_of_false ?_ (fun h => by cases h)
    intro h
    simp only [documentsOf, hread, Outcome.ofResult_ok, Outcome.ok_bind] at h
    split_ifs at h
    · cases h
    · rcases (Outcome.bind_eq_error _ _ _).mp h with h | ⟨selector, -, h⟩
      · obtain ⟨e', -, he'⟩ := (Outcome.ofResult_eq_error _ _ _).mp h
        cases he'
      · cases h

/- After the query document what is left is a selector, if anything is left. -/
theorem documentsOf_append_of_ok (hb : bson.Delimited) {reader : Bytes} {d : Document} {n : ℕ}
    (hq : bson.fromReader reader = .ok (d, n)) (t : Bytes) :
    documentsOf bson (reader ++ t)
      = if reader.drop n ++ t = [] then pure (d, none)
        else Outcome.ofResult .failedToParseReturnFieldsSelector
            (bson.fromReader (reader.drop n ++ t)) >>= fun found => pure (d, some found.1) := by
  have hle := hb.consumed_le _ _ _ hq
  simp only [documentsOf, hb.append t hq, Outcome.ofResult_ok, Outcome.ok_bind,
    List.drop_append_of_le_length hle]

theorem documentsOf_of_ok (hb : bson.Delimited) {reader : Bytes} {d : Document} {n : ℕ}
    (hq : bson.fromReader reader = .ok (d, n)) :
    documentsOf bson reader
      = if reader.drop n = [] then pure (d, none)
        else Outcome.ofResult .failedToParseReturnFieldsSelector
            (bson.fromReader (reader.drop n)) >>= fun found => pure (d, some found.1) := by
  have hnil := documentsOf_append_of_ok hb hq []
  simp only [List.append_nil] at hnil
  exact hnil

/- Without a selector one more byte is a selector or an error. -/
theorem selector_of_settled (hb : bson.Delimited) {reader : Bytes} {d : Document} {n : ℕ}
    (hq : bson.fromReader reader = .ok (d, n))
    (h : documentsOf bson (reader ++ [0]) = documentsOf bson reader) : reader.drop n ≠ [] := by
  intro hempty
  rw [documentsOf_append_of_ok hb hq, documentsOf_of_ok hb hq, hempty] at h
  simp only [List.nil_append, List.cons_ne_nil, if_false, if_true] at h
  cases hs : bson.fromReader [0] with
  | ok selector =>
    rw [hs] at h
    cases h
  | error e =>
    rw [hs] at h
    cases h

theorem selector_append_of_settled (hb : bson.Delimited) {reader : Bytes} {d : Document} {n : ℕ}
    (hq : bson.fromReader reader = .ok (d, n)) (hne : reader.drop n ≠ []) {u : Bytes}
    (h : documentsOf bson (reader ++ u) = documentsOf bson reader) :
    bson.fromReader (reader.drop n ++ u) = bson.fromReader (reader.drop n) := by
  rw [documentsOf_append_of_ok hb hq, documentsOf_of_ok hb hq, if_neg hne,
    if_neg (List.append_ne_nil_of_left_ne_nil hne u)] at h
  cases hs : bson.fromReader (reader.drop n) with
  | ok selector => exact hb.append u hs
  | error e =>
    rw [hs] at h
    cases hsu : bson.fromReader (reader.drop n ++ u) with
    | ok selector =>
      rw [hsu] at h
      cases h
    | error e' =>
      rw [hsu] at h
      cases h
      rfl

theorem documentsOf_settled_iff (hb : bson.Delimited) (reader : Bytes) :
    (∀ t, documentsOf bson (reader ++ t) = documentsOf bson reader)
      ↔ SettledDocuments bson reader := by
  unfold SettledDocuments
  cases hq : bson.fromReader reader with
  | error e =>
    rw [(documentsOf_eq_failedToParseQuery reader e).mpr hq]
    simp only [documentsOf_eq_failedToParseQuery]
    constructor
    · intro h
      exact .inl ⟨e, h⟩
    · rintro (⟨e', he⟩ | ⟨d, n, hok, -⟩)
      · have h0 := he []
        rw [List.append_nil, hq] at h0
        cases h0
        exact he
      · cases hok
  | ok found =>
    obtain ⟨d, n⟩ := found
    have hstay : ¬∃ e, ∀ u, bson.fromReader (reader ++ u) = .error e := by
      rintro ⟨e, he⟩
      cases (hb.append [] hq).symm.trans (he [])
    rw [or_iff_right hstay]
    constructor
    · intro h
      have hne := selector_of_settled hb hq (h [0])
      exact ⟨d, n, rfl, hne, bson.fromReader (reader.drop n),
        fun u => selector_append_of_settled hb hq hne (h u)⟩
    · rintro ⟨d', n', hok, hne, selector, hsel⟩ t
      cases hok
      have h0 := hsel []
      rw [List.append_nil] at h0
      rw [documentsOf_append_of_ok hb hq, documentsOf_of_ok hb hq, if_neg hne,
        if_neg (List.append_ne_nil_of_left_ne_nil hne t), hsel t, h0]

theorem documentsOf_error {reader : Bytes} {f : Outcome.Fail (OperationQueryParseError β)}
    (h : documentsOf bson reader = .error f) :
    (∃ e, f = .err (.failedToParseQuery e)) ∨
      ∃ e, f = .err (.failedToParseReturnFieldsSelector e) := by
  unfold documentsOf at h
  rcases (Outcome.bind_eq_error _ _ _).mp h with h | ⟨⟨query, n⟩, -, h⟩
  · obtain ⟨e, -, he⟩ := (Outcome.ofResult_eq_error _ _ _).mp h
    exact .inl ⟨e, he⟩
  · dsimp only at h
    split_ifs at h
    · cases h
    · rcases (Outcome.bind_eq_error _ _ _).mp h with h | ⟨selector, -, h⟩
      · obtain ⟨e, -, he⟩ := (Outcome.ofResult_eq_error _ _ _).mp h
        exact .inr ⟨e, he⟩
      · cases h

theorem documentsOf_ne_notEnoughBytes (reader : Bytes) (f : Document × Option Document → OperationQuery)
    (actual min : ℕ) :
    (documentsOf bson reader >>= fun docs => pure (f docs))
      ≠ Outcome.err (.notEnoughBytes actual min) := by
  intro h
  rcases (Outcome.bind_eq_error _ _ _).mp h with h | ⟨docs, -, h⟩
  · rcases documentsOf_error h with ⟨e, he⟩ | ⟨e, he⟩
    · cases he
    · cases he
  · cases h

theorem tailOf_settled_iff (hb : bson.Delimited) (flags : OperationQueryFlags) (name : String)
    (actualLen : ℕ) (tail : Bytes) :
    (∀ t, tailOf bson flags name (actualLen + t.length) (tail ++ t)
        = tailOf bson flags name actualLen tail)
      ↔ tailMin ≤ tail.length ∧ SettledDocuments bson (tail.drop 8) := by
  by_cases hmin : tail.length < tailMin
  · constructor
    · intro h
      have h0 := h [0]
      simp only [tailOf, if_pos hmin, List.length_singleton] at h0
      split_ifs at h0
      · have hlen := (OperationQueryParseError.notEnoughBytes.inj ((Outcome.err_inj _ _).mp h0)).1
        omega
      · exact absurd h0 (documentsOf_ne_notEnoughBytes _ _ _ _)
    · rintro ⟨hle, -⟩
      omega
  · have htail : ∀ t, tailOf bson flags name (actualLen + t.length) (tail ++ t)
        = (documentsOf bson (tail.drop 8 ++ t) >>= fun docs => pure {
            flags := flags, fullCollectionName := name, query := docs.1
            returnFieldsSelector := docs.2
            numberToSkip := toI32 (tail.take 4)
            numberToReturn := toI32 ((tail.drop 4).take 4) }) := by
      intro t
      simp only [tailMin] at hmin
      have hmint : ¬(tail ++ t).length < tailMin := by
        rw [List.length_append, tailMin]
        omega
      simp only [tailOf, if_neg hmint]
      rw [List.drop_append_of_le_length (by omega), List.take_append_of_le_length (by omega),
        Outcome.field_append tail t 4 4 (by omega)]
    have hnil := htail []
    simp only [List.append_nil, List.length_nil, Nat.add_zero] at hnil
    rw [and_iff_right (Nat.not_lt.mp hmin), ← documentsOf_settled_iff hb]
    constructor
    · intro h t
      have ht := h t
      rw [htail t, hnil] at ht
      exact Outcome.eq_of_bind_pure (fun a b hq => by
        have hquery := congrArg query hq
        have hselector := congrArg returnFieldsSelector hq
        exact Prod.ext hquery hselector) _ _ ht
    · intro h t
      rw [htail t, hnil, h t]

/- What follows an OP_QUERY body does not matter: it is rejected for its flags or its name, or the
documents are settled. -/
def SettledBody (bson : BsonCodec β) (body : Bytes) : Prop :=
  minLen ≤ body.length ∧
    (OperationQueryFlags.fromBits (toU32 (body.take 4)) = none ∨
      ∃ name, CStr.untilNul (body.drop 4) = some name ∧
        (Text.ofUtf8 name = none ∨
          tailMin ≤ ((body.drop 4).drop (name.length + 1)).length ∧
            SettledDocuments bson (((body.drop 4).drop (name.length + 1)).drop 8)))

theorem queryOf_settled_iff (hb : bson.Delimited) (rawFlags : UInt32) (afterFlags : Bytes) :
    (∀ t, queryOf bson rawFlags (afterFlags ++ t) = queryOf bson rawFlags afterFlags) ↔
      (OperationQueryFlags.fromBits rawFlags = none ∨
        ∃ name, CStr.untilNul afterFlags = some name ∧
          (Text.ofUtf8 name = none ∨
            tailMin ≤ (afterFlags.drop (name.length + 1)).length ∧
              SettledDocuments bson ((afterFlags.drop (name.length + 1)).drop 8))) := by
  cases hflags : OperationQueryFlags.fromBits rawFlags with
  | none => simp only [queryOf, hflags, Outcome.okOr_none, Outcome.err_bind, implies_true, true_or]
  | some flags =>
    rw [or_iff_right (by simp)]
    cases hname : CStr.untilNul afterFlags with
    | none =>
      -- a NUL after the body ends the name
      have hfound := CStr.untilNul_append afterFlags [] ((CStr.untilNul_eq_none _).mp hname)
      constructor
      · intro h
        have h0 := h [0]
        simp only [queryOf, hflags, hname, hfound, Outcome.okOr_some, Outcome.okOr_none,
          Outcome.ok_bind, Outcome.err_bind] at h0
        cases hutf : Text.ofUtf8 afterFlags with
        | none =>
          rw [hutf] at h0
          cases h0
        | some text =>
          simp only [hutf, Outcome.okOr_some, Outcome.ok_bind, tailOf] at h0
          split_ifs at h0 with htail
          · cases h0
          · rw [List.length_drop, List.length_append, List.length_singleton, Nat.sub_self] at htail
            exact absurd (by decide) htail
      · rintro ⟨name, h, -⟩
        cases h
    | some name =>
      have hlen := CStr.length_lt_of_untilNul _ _ hname
      have hname' : ∀ t, CStr.untilNul (afterFlags ++ t) = some name :=
        fun t => CStr.untilNul_append_right _ _ t hname
      simp only [Option.some.injEq, exists_eq_left']
      cases hutf : Text.ofUtf8 name with
      | none =>
        simp only [queryOf, hflags, hname, hname', hutf, Outcome.okOr_some, Outcome.okOr_none,
          Outcome.ok_bind, Outcome.err_bind, implies_true, true_or]
      | some text =>
        rw [or_iff_right (by simp), ← tailOf_settled_iff hb flags text (4 + afterFlags.length)]
        simp only [queryOf, hflags, hname, hname', hutf, Outcome.okOr_some, Outcome.ok_bind,
          List.length_append, Nat.add_assoc, List.drop_append_of_le_length (Nat.succ_le_of_lt hlen)]

theorem queryOf_notEnoughBytes {rawFlags : UInt32} {afterFlags : Bytes} {actual min : ℕ}
    (h : queryOf bson rawFlags afterFlags = Outcome.err (.notEnoughBytes actual min)) :
    actual = 4 + afterFlags.length := by
  unfold queryOf at h
  rcases (Outcome.bind_eq_error _ _ _).mp h with h | ⟨flags, -, h⟩
  · obtain ⟨-, he⟩ := (Outcome.okOr_eq_error _ _ _).mp h
    cases he
  rcases (Outcome.bind_eq_error _ _ _).mp h with h | ⟨name, -, h⟩
  · obtain ⟨-, he⟩ := (Outcome.okOr_eq_error _ _ _).mp h
    cases he
  rcases (Outcome.bind_eq_error _ _ _).mp h with h | ⟨text, -, h⟩
  · obtain ⟨-, he⟩ := (Outcome.okOr_eq_error _ _ _).mp h
    cases he
  unfold tailOf at h
  split_ifs at h
  · cases h
    rfl
  · exact absurd h (documentsOf_ne_notEnoughBytes _ _ _ _)

theorem fromBytes_settled_iff (hb : bson.Delimited) (body : Bytes) :
    (∀ t, fromBytes bson (body ++ t) = fromBytes bson body) ↔ SettledBody bson body := by
  unfold SettledBody
  by_cases hmin : minLen ≤ body.length
  · rw [and_iff_right hmin, ← queryOf_settled_iff hb]
    have h4 : 4 ≤ body.length := by
      simp only [minLen] at hmin
      omega
    have happend : ∀ t, fromBytes bson (body ++ t)
        = queryOf bson (toU32 (body.take 4)) (body.drop 4 ++ t) := by
      intro t
      have hle : minLen ≤ (body ++ t).length := by
        rw [List.length_append]
        omega
      rw [fromBytes_of_le bson _ hle, List.take_append_of_le_length h4,
        List.drop_append_of_le_length h4]
    simp only [happend, fromBytes_of_le bson body hmin]
  · constructor
    · intro h
      have hshort := h [0]
      rw [fromBytes_of_lt bson body (Nat.not_le.mp hmin)] at hshort
      have hlen : (body ++ [0]).length = body.length + 1 := by simp
      by_cases hlt : (body ++ [0]).length < minLen
      · rw [fromBytes_of_lt bson _ hlt, Outcome.err_inj] at hshort
        have hactual := (OperationQueryParseError.notEnoughBytes.inj hshort).1
        omega
      · rw [fromBytes_of_le bson _ (Nat.not_lt.mp hlt)] at hshort
        have hactual := queryOf_notEnoughBytes hshort
        rw [List.length_drop, hlen] at hactual
        simp only [minLen] at hlt
        omega
    · rintro ⟨hle, -⟩
      exact absurd hle hmin

end OperationQuery

/-! ### OP_REPLY bodies -/

namespace OperationReply

theorem document_delimited (hb : bson.Delimited) (i : ℕ) : Items.Delimited (document bson i) :=
  hb.reader (OperationReplyParseError.failedToParseDocument i)

theorem document_error {i : ℕ} {bs : Bytes} {f : Outcome.Fail (OperationReplyParseError β)}
    (h : document bson i bs = .error f) : ∃ e, f = .err (.failedToParseDocument i e) := by
  obtain ⟨e, -, he⟩ := (Outcome.ofResult_eq_error _ _ _).mp h
  exact ⟨e, he⟩

/- What follows an OP_REPLY body does not matter: it is rejected for its flags, its documents are
all there, or one of them fails for good. -/
def SettledBody (bson : BsonCodec β) (body : Bytes) : Prop :=
  minLen ≤ body.length ∧
    (OperationReplyFlags.fromBits (toU32 (body.take 4)) = none ∨
      Items.Settled (document bson) 0 (numDocs (toI32 ((body.drop 16).take 4))) (body.drop minLen))

theorem replyOf_ne_notEnoughBytes (body : Bytes) (actual min : ℕ) :
    replyOf bson body ≠ Outcome.err (.notEnoughBytes actual min) := by
  intro h
  unfold replyOf at h
  rcases (Outcome.bind_eq_error _ _ _).mp h with h | ⟨flags, -, h⟩
  · obtain ⟨-, he⟩ := (Outcome.okOr_eq_error _ _ _).mp h
    cases he
  rcases (Outcome.bind_eq_error _ _ _).mp h with h | ⟨documents, -, h⟩
  · obtain ⟨j, r, -, hr⟩ := Items.times_error _ _ _ _ _ h
    obtain ⟨e, he⟩ := document_error hr
    cases he
  · cases h

theorem fromBytes_settled_iff (hb : bson.Delimited) (body : Bytes) :
    (∀ t, fromBytes bson (body ++ t) = fromBytes bson body) ↔ SettledBody bson body := by
  unfold SettledBody
  by_cases hmin : minLen ≤ body.length
  · have h20 : 20 ≤ body.length := hmin
    have hround : ∀ i j bs bs' f, document bson i bs = .error f → document bson j bs' = .error f →
        i = j := by
      intro i j bs bs' f hi hj
      obtain ⟨e, rfl⟩ := document_error hi
      obtain ⟨e', he'⟩ := document_error hj
      cases he'
      rfl
    rw [and_iff_right hmin, ← Items.times_settled_iff _ (document_delimited hb) hround]
    have happend : ∀ t, fromBytes bson (body ++ t) = replyOf bson (body ++ t) := by
      intro t
      apply fromBytes_of_le
      rw [List.length_append]
      omega
    have hfields := fun t => And.intro (Outcome.field_append body t 4 8 (by omega))
      (And.intro (Outcome.field_append body t 12 4 (by omega))
        (Outcome.field_append body t 16 4 (by omega)))
    have hflag : ∀ t, (body ++ t).take 4 = body.take 4 :=
      fun t => List.take_append_of_le_length (by omega)
    have hrest : ∀ t, (body ++ t).drop minLen = body.drop minLen ++ t :=
      fun t => List.drop_append_of_le_length h20
    simp only [happend, fromBytes_of_le bson body hmin, replyOf, hflag, hfields, hrest]
    cases OperationReplyFlags.fromBits (toU32 (body.take 4)) with
    | none => simp only [Outcome.okOr_none, Outcome.err_bind, implies_true, true_or]
    | some flags =>
      rw [or_iff_right (by simp)]
      simp only [Outcome.okOr_some, Outcome.ok_bind]
      constructor
      · intro h u
        exact Outcome.eq_of_bind_pure (fun _ _ hr => congrArg documents hr) _ _ (h u)
      · intro h t
        rw [h t]
  · constructor
    · intro h
      have hshort := h [0]
      rw [fromBytes_of_lt bson body (Nat.not_le.mp hmin)] at hshort
      by_cases hlt : (body ++ [0]).length < minLen
      · rw [fromBytes_of_lt bson _ hlt, Outcome.err_inj] at hshort
        have hactual := (OperationReplyParseError.notEnoughBytes.inj hshort).1
        rw [List.length_append, List.length_singleton] at hactual
        omega
      · rw [fromBytes_of_le bson _ (Nat.not_lt.mp hlt)] at hshort
        exact absurd hshort (replyOf_ne_notEnoughBytes _ _ _)
    · rintro ⟨hle, -⟩
      exact absurd hle hmin

end OperationReply

end MongodProxy
