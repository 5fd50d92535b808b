import MongodProxy.Serve.Explain.Layer

/-!
# What is explained (serve/explain: classify, build)

Two questions about the message `build_explain` makes of an admitted request. Is a write
with several statements turned down: only if they arrive in the first document sequence,
since that is where the check looks. What does the envelope hold: the client's command
without its session, and a single lifted-out statement put back into it.
-/

namespace MongodProxy.Explain
open MongodProxy

/-! ### Admitted requests -/

theorem classify_eq_some {req : Message} {plan : ClassifiedRequest} (h : classify req = some plan) :
    ∃ op name db, req.operation = .message op ∧ op.commandName = some name ∧
      Command.fromCommandName name = some plan.command ∧
      op.sections.findSome? OpMsgSection.asBody = some plan.body ∧
      plan.body.getStr "$db" = some db ∧ TrimmedName.tryNew db.toList = some plan.database ∧
      plan.docSequences = op.sections := by
  unfold classify at h
  cases hop : req.operation with
  | query q =>
    rw [hop] at h
    cases h
  | reply r =>
    rw [hop] at h
    cases h
  | message op =>
    rw [hop] at h
    simp only at h
    split_ifs at h
    simp only [Option.bind_eq_bind, Option.bind_eq_some_iff, Option.some.injEq] at h
    obtain ⟨name, hname, command, hcommand, body, hbody, db, hdb, database, hdatabase, rfl⟩ := h
    exact ⟨op, name, db, rfl, hname, hcommand, hbody, hdb, hdatabase, rfl⟩

/-! ### Write statements -/

/-- The documents of all kind-1 sections named `ident`. -/
def sequenceStatements (ident : String) : List OpMsgSection → ℕ
  | [] => 0
  | .documentSequence identifier documents :: rest =>
    (if identifier = ident then documents.length else 0) + sequenceStatements ident rest
  | .body _ :: rest => sequenceStatements ident rest

/-- The elements of the array bound to `ident` in the body. -/
def inlinedStatements (ident : String) (body : Document) : ℕ :=
  match body.get ident with
  | some (.array items) => items.length
  | _ => 0

def statementCount (ident : String) (plan : ClassifiedRequest) : ℕ :=
  inlinedStatements ident plan.body + sequenceStatements ident plan.docSequences

/- The key and section name under which a write command carries its statements. -/
def CarriesStatements (command : Command) (ident : String) : Prop :=
  command = .update ∧ ident = "updates" ∨ command = .delete ∧ ident = "deletes"

theorem sequenceIdent_eq_some_iff (command : Command) (ident : String) :
    sequenceIdent command = some ident ↔ CarriesStatements command ident := by
  cases command <;> simp [sequenceIdent, CarriesStatements, eq_comm]

/-- `firstSequence` answers the documents of the first section named `ident`. -/
theorem firstSequence_eq_some_iff (ident : String) (sections : List OpMsgSection)
    (documents : List Document) :
    firstSequence ident sections = some documents ↔
      ∃ front rest, sections = front ++ .documentSequence ident documents :: rest ∧
        ∀ ds, .documentSequence ident ds ∉ front := by
  rw [firstSequence, List.findSome?_eq_some_iff]
  constructor
  · intro h
    obtain ⟨front, s, rest, hsplit, hs, hfront⟩ := h
    cases s with
    | body doc => cases hs
    | documentSequence identifier ds =>
      simp only [Option.ite_none_right_eq_some, Option.some.injEq] at hs
      obtain ⟨rfl, rfl⟩ := hs
      refine ⟨front, rest, hsplit, ?_⟩
      intro ds hds
      have hnone := hfront _ hds
      simp at hnone
  · intro h
    obtain ⟨front, rest, hsplit, hfront⟩ := h
    refine ⟨front, _, rest, hsplit, by simp, ?_⟩
    intro s hs
    cases s with
    | body doc => rfl
    | documentSequence identifier ds =>
      have hident : identifier ≠ ident := by
        intro heq
        subst heq
        exact hfront ds hs
      simp [hident]

theorem isMultiOpWriteBatch_iff {command : Command} {ident : String}
    (hident : CarriesStatements command ident) (sections : List OpMsgSection) :
    isMultiOpWriteBatch command sections = true ↔
      ∃ front documents rest, sections = front ++ .documentSequence ident documents :: rest ∧
        (∀ ds, .documentSequence ident ds ∉ front) ∧ 1 < documents.length := by
  rw [isMultiOpWriteBatch, (sequenceIdent_eq_some_iff command ident).mpr hident]
  constructor
  · intro h
    cases hfirst : firstSequence ident sections with
    | none => simp [hfirst] at h
    | some documents =>
      obtain ⟨front, rest, hsplit, hfront⟩ := (firstSequence_eq_some_iff ..).mp hfirst
      exact ⟨front, documents, rest, hsplit, hfront, by simpa [hfirst] using h⟩
  · intro h
    obtain ⟨front, documents, rest, hsplit, hfront, hmany⟩ := h
    have hfirst := (firstSequence_eq_some_iff ident sections documents).mpr
      ⟨front, rest, hsplit, hfront⟩
    simpa [hfirst] using hmany

theorem buildExplain_unsupported_iff (plan : ClassifiedRequest) (rid : ExplainRequestId) :
    buildExplain plan rid = .unsupportedShape .multiOpWriteBatch ↔
      isMultiOpWriteBatch plan.command plan.docSequences = true := by
  unfold buildExplain
  split_ifs with h
  · simp [h]
  · simp [h]

/-- The prepared outcome of an admitted request that is turned down holds no message. -/
theorem prepare_no_message {β ε : Type} {req : Message} {plan : ClassifiedRequest}
    (hclass : classify req = some plan)
    (hnone : ∀ rid, buildExplain plan rid = .unsupportedShape .multiOpWriteBatch) (counter : Int32)
    {prepared : Prepared β ε} (hprep : (prepare counter req).1 = some prepared) (msg : Message) :
    prepared.buildOutcome ≠ .ok msg := by
  intro hmsg
  simp only [prepare, hclass] at hprep
  split at hprep
  · cases hprep
    cases hmsg
  · simp only [hnone] at hprep
    cases hprep
    cases hmsg

/-- An admitted write with several statements is turned down exactly if the first sequence that
carries them has more than one. -/
theorem multiOp_turned_down_iff {β ε : Type} (req : Message) (plan : ClassifiedRequest)
    (ident : String) (hclass : classify req = some plan)
    (hident : CarriesStatements plan.command ident) :
    (1 < statementCount ident plan →
      (∀ rid, buildExplain plan rid = .unsupportedShape .multiOpWriteBatch) ∧
        ∀ (counter : Int32) (prepared : Prepared β ε) (msg : Message),
          (prepare counter req).1 = some prepared → prepared.buildOutcome ≠ .ok msg) ↔
      statementCount ident plan ≤ 1 ∨ ∃ front documents rest,
        plan.docSequences = front ++ .documentSequence ident documents :: rest ∧
        (∀ ds, .documentSequence ident ds ∉ front) ∧ 1 < documents.length := by
  rw [← isMultiOpWriteBatch_iff hident]
  constructor
  · intro h
    by_cases hmany : 1 < statementCount ident plan
    · have hdown := (h hmany).1 ⟨-2, by decide⟩
      exact Or.inr ((buildExplain_unsupported_iff plan _).mp hdown)
    · exact Or.inl (Nat.le_of_not_lt hmany)
  · intro h hmany
    have hbatch : isMultiOpWriteBatch plan.command plan.docSequences = true := by
      rcases h with hfew | hbatch
      · omega
      · exact hbatch
    have hall : ∀ rid, buildExplain plan rid = .unsupportedShape .multiOpWriteBatch := by
      intro rid
      exact (buildExplain_unsupported_iff plan rid).mpr hbatch
    refine ⟨hall, ?_⟩
    intro counter prepared msg hprep
    exact prepare_no_message hclass hall counter hprep msg

def emptyUpdate : Document := ⟨[("q", .document []), ("u", .document [])], by decide⟩

/- The body of an update, without and with its statements. -/
def liftedBody : Document := ⟨[("update", .string "c"), ("$db", .string "d")], by decide⟩

def inlinedBody : Document :=
  ⟨[("update", .string "c"), ("$db", .string "d"),
    ("updates", .array [.document emptyUpdate.entries, .document emptyUpdate.entries])], by decide⟩

def updateRequest (sections : List OpMsgSection) : Message :=
  ⟨⟨7⟩, none, .message ⟨.empty, sections, none⟩⟩

theorem twoLifted_turned_down :
    ∃ plan, classify (updateRequest [.body liftedBody, .documentSequence "updates" [emptyUpdate, emptyUpdate]])
        = some plan ∧ 1 < statementCount "updates" plan ∧
      ∀ rid, buildExplain plan rid = .unsupportedShape .multiOpWriteBatch := by
  refine ⟨_, rfl, by decide, ?_⟩
  have hfirst : ∀ ds, OpMsgSection.documentSequence "updates" ds ∉ [.body liftedBody] := by simp
  exact ((multiOp_turned_down_iff (β := Unit) (ε := Unit)
    (updateRequest [.body liftedBody, .documentSequence "updates" [emptyUpdate, emptyUpdate]]) _ "updates" rfl
    (Or.inl ⟨rfl, rfl⟩)).mpr (Or.inr ⟨[.body liftedBody], [emptyUpdate, emptyUpdate], [], rfl, hfirst, by decide⟩)
    (by decide)).1

/-- Two statements in the body, or in two sequences, are explained. -/
theorem twoStatements_explained :
    (∃ plan msg, classify (updateRequest [.body inlinedBody]) = some plan ∧
      statementCount "updates" plan = 2 ∧ buildExplain plan ⟨-2, by decide⟩ = .built msg) ∧
    ∃ plan msg, classify (updateRequest [.body liftedBody, .documentSequence "updates" [emptyUpdate],
        .documentSequence "updates" [emptyUpdate]]) = some plan ∧
      statementCount "updates" plan = 2 ∧ buildExplain plan ⟨-2, by decide⟩ = .built msg :=
  ⟨⟨_, _, rfl, by decide, rfl⟩, ⟨_, _, rfl, by decide, rfl⟩⟩

/-! ### The envelope -/

/-- The fields of the session and of the envelope. -/
def sessionKeys : List String :=
  ["$db", "lsid", "txnNumber", "autocommit", "$clusterTime", "$readPreference", "$readConcern",
    "readConcern", "startTransaction", "stmtId"]

/- The first section named `ident` that holds exactly one document. -/
def FirstSingle (ident : String) (sections : List OpMsgSection) (doc : Document) : Prop :=
  ∃ front rest, sections = front ++ .documentSequence ident [doc] :: rest ∧
    ∀ d, .documentSequence ident [d] ∉ front

/- A statement bound in place, or as the last entry. -/
def bindStatement (ident : String) (doc : Document) (entries : List (String × Bson)) :
    List (String × Bson) :=
  if ident ∈ entries.map Prod.fst then
    entries.map fun e => if e.1 = ident then (ident, .array [.document doc.entries]) else e
  else entries ++ [(ident, .array [.document doc.entries])]

/-- What is explained: the command without its session, and with its one statement. -/
def IsExplained (command : Command) (sections : List OpMsgSection) (body : Document)
    (entries : List (String × Bson)) : Prop :=
  let kept := body.entries.filter fun e => e.1 ∉ sessionKeys
  (∃ ident doc, CarriesStatements command ident ∧ FirstSingle ident sections doc ∧
      entries = bindStatement ident doc kept) ∨
    ((∀ ident doc, CarriesStatements command ident → ¬ FirstSingle ident sections doc) ∧
      entries = kept)

/- Keys that are new and distinct are appended in their order. -/
theorem entries_foldl_insert (es : List (String × Bson)) (d : Document)
    (hnodup : (es.map Prod.fst).Nodup) (hnew : ∀ e ∈ es, e.1 ∉ d.keys) :
    (es.foldl (fun inner e => if shouldStripFromInner e.1 then inner else inner.insert e.1 e.2)
      d).entries = d.entries ++ es.filter fun e => e.1 ∉ sessionKeys := by
  induction es generalizing d with
  | nil => simp
  | cons e es ih =>
    rw [List.map_cons, List.nodup_cons] at hnodup
    rw [List.foldl_cons]
    by_cases hstrip : shouldStripFromInner e.1 = true
    · have hkey : e.1 ∈ sessionKeys := by simpa [shouldStripFromInner, sessionKeys] using hstrip
      rw [if_pos hstrip, ih d hnodup.2 (fun x hx => hnew x (List.mem_cons_of_mem e hx)),
        List.filter_cons_of_neg (by simpa using hkey)]
    · have hkey : e.1 ∉ sessionKeys := by simpa [shouldStripFromInner, sessionKeys] using hstrip
      have hentries := Document.entries_insert_of_not_mem e.2 (hnew e List.mem_cons_self)
      have hrest : ∀ x ∈ es, x.1 ∉ (d.insert e.1 e.2).keys := by
        intro x hx hin
        rw [Document.keys, hentries, List.map_append, List.mem_append] at hin
        rcases hin with hold | hself
        · exact hnew x (List.mem_cons_of_mem e hx) hold
        · rw [List.map_singleton, List.mem_singleton] at hself
          exact hnodup.1 (List.mem_map.mpr ⟨x, hx, hself⟩)
      rw [if_neg hstrip, ih _ hnodup.2 hrest, hentries,
        List.filter_cons_of_pos (by simpa using hkey), List.append_assoc, List.singleton_append]

theorem bindStatement_insert (ident : String) (doc inner : Document) :
    (inner.insert ident (.array [.document doc.entries])).entries
      = bindStatement ident doc inner.entries := by
  by_cases h : ident ∈ inner.entries.map Prod.fst
  · rw [Document.entries_insert_of_mem _ h, bindStatement, if_pos h]
  · rw [Document.entries_insert_of_not_mem _ h, bindStatement, if_neg h]

theorem firstSingle_iff (ident : String) (sections : List OpMsgSection) (doc : Document) :
    sections.findSome? (fun
      | .documentSequence identifier [doc] => if identifier = ident then some doc else none
      | _ => none) = some doc ↔ FirstSingle ident sections doc := by
  rw [List.findSome?_eq_some_iff]
  constructor
  · intro h
    obtain ⟨front, s, rest, hsplit, hs, hfront⟩ := h
    split at hs
    next identifier d =>
      simp only [Option.ite_none_right_eq_some, Option.some.injEq] at hs
      obtain ⟨rfl, rfl⟩ := hs
      refine ⟨front, rest, hsplit, ?_⟩
      intro d hd
      have hnone := hfront _ hd
      simp at hnone
    next => cases hs
  · intro h
    obtain ⟨front, rest, hsplit, hfront⟩ := h
    refine ⟨front, _, rest, hsplit, by simp, ?_⟩
    intro s hs
    split
    next identifier d =>
      have hident : identifier ≠ ident := by
        intro heq
        subst heq
        exact hfront d hs
      simp [hident]
    next => rfl

theorem CarriesStatements.unique {command : Command} {ident ident' : String}
    (h : CarriesStatements command ident) (h' : CarriesStatements command ident') : ident = ident' := by
  have hsome := (sequenceIdent_eq_some_iff command ident).mpr h
  have hsome' := (sequenceIdent_eq_some_iff command ident').mpr h'
  rw [hsome, Option.some.injEq] at hsome'
  exact hsome'

theorem innerCommand_isExplained (plan : ClassifiedRequest) :
    IsExplained plan.command plan.docSequences plan.body (innerCommand plan).entries := by
  have hkept := entries_foldl_insert plan.body.entries .new plan.body.nodup (by
    intro e _ hin
    cases hin)
  rw [show Document.new.entries = [] from rfl, List.nil_append] at hkept
  unfold innerCommand foldSingleOpDocSequence
  cases hident : sequenceIdent plan.command with
  | none =>
    refine Or.inr ⟨?_, hkept⟩
    intro ident doc hcarries _
    rw [(sequenceIdent_eq_some_iff _ _).mpr hcarries] at hident
    cases hident
  | some ident =>
    have hcarries := (sequenceIdent_eq_some_iff _ _).mp hident
    simp only
    split
    next hnone =>
      refine Or.inr ⟨?_, hkept⟩
      intro ident' doc hcarries' hsingle
      rw [← hcarries.unique hcarries'] at hsingle
      cases hnone.symm.trans ((firstSingle_iff ..).mpr hsingle)
    next doc hsome =>
      refine Or.inl ⟨ident, doc, hcarries, (firstSingle_iff ..).mp hsome, ?_⟩
      rw [bindStatement_insert, hkept]

theorem keys_bindStatement (ident : String) (doc : Document) (entries : List (String × Bson)) :
    (bindStatement ident doc entries).map Prod.fst = entries.map Prod.fst ∨
      (bindStatement ident doc entries).map Prod.fst = entries.map Prod.fst ++ [ident] := by
  unfold bindStatement
  split_ifs with h
  · left
    rw [List.map_map]
    apply List.map_congr_left
    intro e _
    by_cases he : e.1 = ident
    · simp [he]
    · simp [he]
  · right
    simp

theorem IsExplained.keys {command : Command} {sections : List OpMsgSection} {body : Document}
    {entries : List (String × Bson)} (h : IsExplained command sections body entries) :
    ∃ extra : List String, (∀ key ∈ extra, key ∉ sessionKeys) ∧
      entries.map Prod.fst = (body.entries.filter fun e => e.1 ∉ sessionKeys).map Prod.fst ++ extra := by
  rcases h with ⟨ident, doc, hcarries, -, rfl⟩ | ⟨-, rfl⟩
  · rcases keys_bindStatement ident doc (body.entries.filter fun e => e.1 ∉ sessionKeys) with hsame | hlast
    · exact ⟨[], by simp, by rw [hsame, List.append_nil]⟩
    · refine ⟨[ident], ?_, hlast⟩
      intro key hkey
      rw [List.mem_singleton.mp hkey]
      rcases hcarries with ⟨-, rfl⟩ | ⟨-, rfl⟩
      · decide
      · decide
  · exact ⟨[], by simp, by rw [List.append_nil]⟩

theorem IsExplained.no_session {command : Command} {sections : List OpMsgSection} {body : Document}
    {entries : List (String × Bson)} (h : IsExplained command sections body entries) :
    ∀ key ∈ sessionKeys, key ∉ entries.map Prod.fst := by
  intro key hkey hin
  obtain ⟨extra, hextra, hkeys⟩ := h.keys
  rw [hkeys, List.mem_append] at hin
  rcases hin with hkept | hlast
  · obtain ⟨e, he, rfl⟩ := List.mem_map.mp hkept
    have hfree := (List.mem_filter.mp he).2
    simp only [decide_eq_true_eq] at hfree
    exact hfree hkey
  · exact hextra key hlast hkey

theorem fromCommandName_not_session {name : String} {command : Command}
    (h : Command.fromCommandName name = some command) : name ∉ sessionKeys := by
  intro hin
  simp only [sessionKeys, List.mem_cons, List.not_mem_nil, or_false] at hin
  rcases hin with rfl | rfl | rfl | rfl | rfl | rfl | rfl | rfl | rfl | rfl <;> cases h

theorem IsExplained.head {command : Command} {sections : List OpMsgSection} {body : Document}
    {entries : List (String × Bson)} (h : IsExplained command sections body entries) {name : String}
    (hname : body.keys.head? = some name) (hfree : name ∉ sessionKeys) :
    (entries.map Prod.fst).head? = some name := by
  obtain ⟨extra, -, hkeys⟩ := h.keys
  rw [hkeys]
  cases hbody : body.entries with
  | nil =>
    rw [Document.keys, hbody] at hname
    cases hname
  | cons e rest =>
    rw [Document.keys, hbody, List.map_cons, List.head?_cons, Option.some.injEq] at hname
    rw [List.filter_cons_of_pos (by simpa [hname] using hfree), List.map_cons, List.cons_append,
      List.head?_cons, hname]

theorem envelope_entries (inner : Bson) (db : Bson) :
    (((Document.new.insert "explain" inner).insert "verbosity" (.string explainVerbosity)).insert
      "$db" db).entries
      = [("explain", inner), ("verbosity", .string "executionStats"), ("$db", db)] := by
  rfl

/-- The envelope holds the client's command, with its statement and without its session. -/
theorem explain_envelope (req : Message) (plan : ClassifiedRequest) (rid : ExplainRequestId)
    (msg : Message) (hclass : classify req = some plan) (hbuilt : buildExplain plan rid = .built msg) :
    ∃ op name body db inner envelope, req.operation = .message op ∧ op.commandName = some name ∧
      op.sections.findSome? OpMsgSection.asBody = some body ∧ body.getStr "$db" = some db ∧
      msg = ⟨⟨rid.val⟩, none, .message ⟨.empty, [.body envelope], none⟩⟩ ∧ rid.val < 0 ∧
      envelope.entries = [("explain", .document inner), ("verbosity", .string "executionStats"),
        ("$db", .string (String.ofList (trim db.toList)))] ∧
      IsExplained plan.command op.sections body inner ∧
      (inner.map Prod.fst).head? = some name ∧ ∀ key ∈ sessionKeys, key ∉ inner.map Prod.fst := by
  obtain ⟨op, name, db, hop, hname, hcommand, hbody, hdb, hdatabase, hsections⟩ :=
    classify_eq_some hclass
  have hexplained := innerCommand_isExplained plan
  have htrim : plan.database.val = trim db.toList := by
    unfold TrimmedName.tryNew at hdatabase
    split_ifs at hdatabase
    rw [Option.some.injEq] at hdatabase
    rw [← hdatabase]
  have hfirst : plan.body.keys.head? = some name := by
    rw [OperationMessage.commandName, hbody] at hname
    exact hname
  unfold buildExplain at hbuilt
  split_ifs at hbuilt
  simp only [BuildExplainOutcome.built.injEq] at hbuilt
  subst hbuilt
  refine ⟨op, name, plan.body, db, (innerCommand plan).entries, _, hop, hname, hbody, hdb, rfl,
    rid.negative, ?_, ?_, hexplained.head hfirst (fromCommandName_not_session hcommand),
    hexplained.no_session⟩
  · rw [envelope_entries, htrim]
  · rw [← hsections]
    exact hexplained

/- One lifted statement, which is put back. -/
theorem oneLifted_envelope :
    ∃ plan msg, classify (updateRequest [.body liftedBody, .documentSequence "updates" [emptyUpdate]])
        = some plan ∧ buildExplain plan ⟨-2, by decide⟩ = .built msg ∧
      ∃ inner envelope, msg = ⟨⟨-2⟩, none, .message ⟨.empty, [.body envelope], none⟩⟩ ∧
        IsExplained .update [.body liftedBody, .documentSequence "updates" [emptyUpdate]] liftedBody
          inner ∧ (inner.map Prod.fst).head? = some "update" := by
  refine ⟨_, _, rfl, rfl, ?_⟩
  obtain ⟨op, name, body, db, inner, envelope, hop, hname, hbody, -, hmsg, -, -, hexplained, hhead,
    -⟩ := explain_envelope
      (updateRequest [.body liftedBody, .documentSequence "updates" [emptyUpdate]]) _
      ⟨-2, by decide⟩ _ rfl rfl
  cases hop
  cases hbody
  cases hname
  exact ⟨inner, envelope, hmsg, hexplained, hhead⟩

end MongodProxy.Explain
