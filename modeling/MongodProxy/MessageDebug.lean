import MongodProxy.Redact

/-!
# Debug output of messages

The `Debug` implementations of op_msg.rs, op_query.rs and op_reply.rs, which send every
document through `RedactedDoc`, and the derived ones of `OperationMessage`, `Operation`
and `Message` above them.
-/

namespace MongodProxy
open DebugFmt Secrecy Redact

variable {F : Type} (impls : DebugImpls F) (f : F)

/-! ### The implementations -/

/- The documents of a section or a reply, as a list. -/
def debugDocuments (documents : List Document) : Str :=
  debugList (impls.alternate f) (documents.map (redactedDoc impls f))

def OpMsgSection.debug : OpMsgSection → Str
  | .body doc => debugTuple (impls.alternate f) "Body".toList [redactedDoc impls f doc]
  | .documentSequence identifier documents =>
    debugStruct (impls.alternate f) "DocumentSequence".toList
      [("identifier".toList, impls.str f identifier),
        ("document_count".toList, impls.int f documents.length),
        ("documents".toList, debugDocuments impls f documents)]

def OperationMessage.debug (m : OperationMessage) : Str :=
  debugStruct (impls.alternate f) "OperationMessage".toList
    [("flags".toList, impls.messageFlags f m.flags),
      ("sections".toList, debugList (impls.alternate f) (m.sections.map (OpMsgSection.debug impls f))),
      ("checksum".toList, debugOption (impls.alternate f) (m.checksum.map fun crc => impls.int f crc.toNat))]

def OperationQuery.debug (q : OperationQuery) : Str :=
  debugStruct (impls.alternate f) "OperationQuery".toList
    [("flags".toList, impls.queryFlags f q.flags),
      ("full_collection_name".toList, impls.str f q.fullCollectionName),
      ("number_to_skip".toList, impls.int f q.numberToSkip.toInt),
      ("number_to_return".toList, impls.int f q.numberToReturn.toInt),
      ("query".toList, redactedDoc impls f q.query),
      ("return_fields_selector".toList,
        debugOption (impls.alternate f) (q.returnFieldsSelector.map (redactedDoc impls f)))]

def OperationReply.debug (r : OperationReply) : Str :=
  debugStruct (impls.alternate f) "OperationReply".toList
    [("flags".toList, impls.replyFlags f r.flags),
      ("cursor_id".toList, impls.int f r.cursorId.toInt),
      ("starting_from".toList, impls.int f r.startingFrom.toInt),
      ("document_count".toList, impls.int f r.documents.length),
      ("documents".toList, debugDocuments impls f r.documents)]

def Operation.debug : Operation → Str
  | .query q => debugTuple (impls.alternate f) "Query".toList [q.debug impls f]
  | .message m => debugTuple (impls.alternate f) "Message".toList [m.debug impls f]
  | .reply r => debugTuple (impls.alternate f) "Reply".toList [r.debug impls f]

def Message.debug (m : Message) : Str :=
  debugStruct (impls.alternate f) "Message".toList
    [("request_id".toList, impls.requestId f m.requestId),
      ("response_to".toList, debugOption (impls.alternate f) (m.responseTo.map (impls.responseTo f))),
      ("operation".toList, m.operation.debug impls f)]

/-! ### What may be known of a message, and what leaks -/

def OpMsgSection.mask : OpMsgSection → OpMsgSection
  | .body doc => .body (maskDoc doc)
  | .documentSequence identifier documents => .documentSequence identifier (documents.map maskDoc)

def OperationMessage.mask (m : OperationMessage) : OperationMessage :=
  { m with sections := m.sections.map OpMsgSection.mask }

def OperationQuery.mask (q : OperationQuery) : OperationQuery :=
  { q with query := maskDoc q.query, returnFieldsSelector := q.returnFieldsSelector.map maskDoc }

def OperationReply.mask (r : OperationReply) : OperationReply :=
  { r with documents := r.documents.map maskDoc }

def Operation.mask : Operation → Operation
  | .query q => .query q.mask
  | .message m => .message m.mask
  | .reply r => .reply r.mask

/-- The message without what its documents store under sensitive keys. -/
def Message.mask (m : Message) : Message := { m with operation := m.operation.mask }

def OpMsgSection.leaks : OpMsgSection → Bool
  | .body doc => leaksDoc doc
  | .documentSequence _ documents => documents.any leaksDoc

def OperationMessage.leaks (m : OperationMessage) : Bool := m.sections.any OpMsgSection.leaks

def OperationQuery.leaks (q : OperationQuery) : Bool :=
  leaksDoc q.query || q.returnFieldsSelector.any leaksDoc

def OperationReply.leaks (r : OperationReply) : Bool := r.documents.any leaksDoc

def Operation.leaks : Operation → Bool
  | .query q => q.leaks
  | .message m => m.leaks
  | .reply r => r.leaks

/-- Some document of the message leaks. -/
def Message.leaks (m : Message) : Bool := m.operation.leaks

/-! ### Sections, operations and messages -/

theorem masked_documents : Masked (List.map maskDoc) (debugDocuments impls f)
    fun documents => documents.any leaksDoc :=
  masked_debugList (masked_redactedDoc impls f) (impls.alternate f)

theorem masked_section :
    Masked OpMsgSection.mask (OpMsgSection.debug impls f) OpMsgSection.leaks where
  leak_view := by
    intro s
    cases s with
    | body doc => exact (masked_redactedDoc impls f).leak_view doc
    | documentSequence identifier documents => exact (masked_documents impls f).leak_view documents
  out_view := by
    intro s h
    cases s with
    | body doc =>
      have hdoc := (masked_redactedDoc impls f).out_view doc h
      simp only [OpMsgSection.mask, OpMsgSection.debug, hdoc]
    | documentSequence identifier documents =>
      have hdocs := (masked_documents impls f).out_view documents h
      simp only [OpMsgSection.mask, OpMsgSection.debug, List.length_map, hdocs]

theorem masked_message :
    Masked OperationMessage.mask (OperationMessage.debug impls f) OperationMessage.leaks where
  leak_view := by
    intro m
    exact (masked_debugList (masked_section impls f) (impls.alternate f)).leak_view m.sections
  out_view := by
    intro m h
    have hsections := (masked_debugList (masked_section impls f)
      (impls.alternate f)).out_view m.sections h
    simp only [OperationMessage.debug, OperationMessage.mask, hsections]

theorem masked_selector : Masked (Option.map maskDoc)
    (fun selector => debugOption (impls.alternate f) (selector.map (redactedDoc impls f)))
    fun selector => selector.any leaksDoc :=
  masked_debugOption (masked_redactedDoc impls f) (impls.alternate f)

theorem masked_query :
    Masked OperationQuery.mask (OperationQuery.debug impls f) OperationQuery.leaks where
  leak_view := by
    intro q
    have hquery := (masked_redactedDoc impls f).leak_view q.query
    have hselector := (masked_selector impls f).leak_view q.returnFieldsSelector
    simp only [OperationQuery.leaks, OperationQuery.mask, hquery, hselector]
  out_view := by
    intro q h
    obtain ⟨hq, hs⟩ := Bool.or_eq_false_iff.mp h
    have hquery := (masked_redactedDoc impls f).out_view q.query hq
    have hselector := (masked_selector impls f).out_view q.returnFieldsSelector hs
    simp only [OperationQuery.debug, OperationQuery.mask, hquery, hselector]

theorem masked_reply :
    Masked OperationReply.mask (OperationReply.debug impls f) OperationReply.leaks where
  leak_view := by
    intro r
    exact (masked_documents impls f).leak_view r.documents
  out_view := by
    intro r h
    have hdocs := (masked_documents impls f).out_view r.documents h
    simp only [OperationReply.debug, OperationReply.mask, List.length_map, hdocs]

theorem masked_operation :
    Masked Operation.mask (Operation.debug impls f) Operation.leaks where
  leak_view := by
    intro o
    cases o with
    | query q => exact (masked_query impls f).leak_view q
    | message m => exact (masked_message impls f).leak_view m
    | reply r => exact (masked_reply impls f).leak_view r
  out_view := by
    intro o h
    cases o with
    | query q => simp only [Operation.debug, Operation.mask, (masked_query impls f).out_view q h]
    | message m => simp only [Operation.debug, Operation.mask, (masked_message impls f).out_view m h]
    | reply r => simp only [Operation.debug, Operation.mask, (masked_reply impls f).out_view r h]

/-- A message that does not leak is shown as its mask is. -/
theorem masked_wire_message :
    Masked Message.mask (Message.debug impls f) Message.leaks where
  leak_view := by
    intro m
    exact (masked_operation impls f).leak_view m.operation
  out_view := by
    intro m h
    have hoperation := (masked_operation impls f).out_view m.operation h
    simp only [Message.debug, Message.mask, hoperation]

section Exact

variable {impls f} (hscope : ShowsScope (impls.bson f))

include hscope

theorem exact_documents : Exact String (List.map maskDoc) (debugDocuments impls f)
    fun documents => documents.any leaksDoc :=
  exact_debugList (exact_redactedDoc impls f hscope) (impls.alternate f)

theorem exact_section :
    Exact String OpMsgSection.mask (OpMsgSection.debug impls f) OpMsgSection.leaks where
  toMasked := masked_section impls f
  reveals := by
    intro s h
    cases s with
    | body doc =>
      exact reveals_variant ((exact_redactedDoc impls f hscope).reveals doc h) OpMsgSection.body (fun _ => rfl)
        (fun _ => rfl)
    | documentSequence identifier documents =>
      refine ((exact_documents hscope).reveals documents h).lift
        (OpMsgSection.documentSequence identifier) ?_ ?_
        (debugStruct_injective (impls.alternate f) "DocumentSequence".toList
          [("identifier".toList, impls.str f identifier),
            ("document_count".toList, impls.int f documents.length)] "documents".toList [])
      · intro ds hds
        simp only [OpMsgSection.mask, hds]
      · intro ds hds
        -- equal masks are equally many
        have hlength : ds.length = documents.length := by simpa using congrArg List.length hds
        simp only [OpMsgSection.debug, hlength, List.cons_append, List.nil_append]

theorem exact_message :
    Exact String OperationMessage.mask (OperationMessage.debug impls f) OperationMessage.leaks where
  toMasked := masked_message impls f
  reveals := by
    intro m h
    refine ((exact_debugList (exact_section hscope) (impls.alternate f)).reveals m.sections h).lift
      (fun sections => { m with sections := sections }) ?_ ?_
      (debugStruct_injective (impls.alternate f) "OperationMessage".toList
        [("flags".toList, impls.messageFlags f m.flags)] "sections".toList
        [("checksum".toList,
          debugOption (impls.alternate f) (m.checksum.map fun crc => impls.int f crc.toNat))])
    · intro sections hsections
      simp only [OperationMessage.mask, hsections]
    · intro sections _
      rfl

theorem exact_selector : Exact String (Option.map maskDoc)
    (fun selector => debugOption (impls.alternate f) (selector.map (redactedDoc impls f)))
    fun selector => selector.any leaksDoc :=
  exact_debugOption (exact_redactedDoc impls f hscope) (impls.alternate f)

theorem exact_query :
    Exact String OperationQuery.mask (OperationQuery.debug impls f) OperationQuery.leaks where
  toMasked := masked_query impls f
  reveals := by
    intro q h
    rcases Bool.or_eq_true_iff.mp h with hq | hs
    · refine ((exact_redactedDoc impls f hscope).reveals q.query hq).lift
        (fun doc => { q with query := doc }) ?_ ?_
        (debugStruct_injective (impls.alternate f) "OperationQuery".toList
          [("flags".toList, impls.queryFlags f q.flags),
            ("full_collection_name".toList, impls.str f q.fullCollectionName),
            ("number_to_skip".toList, impls.int f q.numberToSkip.toInt),
            ("number_to_return".toList, impls.int f q.numberToReturn.toInt)] "query".toList
          [("return_fields_selector".toList,
            debugOption (impls.alternate f) (q.returnFieldsSelector.map (redactedDoc impls f)))])
      · intro doc hdoc
        simp only [OperationQuery.mask, hdoc]
      · intro doc _
        rfl
    · refine ((exact_selector hscope).reveals q.returnFieldsSelector hs).lift
        (fun selector => { q with returnFieldsSelector := selector }) ?_ ?_
        (debugStruct_injective (impls.alternate f) "OperationQuery".toList
          [("flags".toList, impls.queryFlags f q.flags),
            ("full_collection_name".toList, impls.str f q.fullCollectionName),
            ("number_to_skip".toList, impls.int f q.numberToSkip.toInt),
            ("number_to_return".toList, impls.int f q.numberToReturn.toInt),
            ("query".toList, redactedDoc impls f q.query)] "return_fields_selector".toList [])
      · intro selector hselector
        simp only [OperationQuery.mask, hselector]
      · intro selector _
        rfl

theorem exact_reply :
    Exact String OperationReply.mask (OperationReply.debug impls f) OperationReply.leaks where
  toMasked := masked_reply impls f
  reveals := by
    intro r h
    refine ((exact_documents hscope).reveals r.documents h).lift
      (fun documents => { r with documents := documents }) ?_ ?_
      (debugStruct_injective (impls.alternate f) "OperationReply".toList
        [("flags".toList, impls.replyFlags f r.flags),
          ("cursor_id".toList, impls.int f r.cursorId.toInt),
          ("starting_from".toList, impls.int f r.startingFrom.toInt),
          ("document_count".toList, impls.int f r.documents.length)] "documents".toList [])
    · intro documents hdocuments
      simp only [OperationReply.mask, hdocuments]
    · intro documents hdocuments
      have hlength : documents.length = r.documents.length := by
        simpa using congrArg List.length hdocuments
      simp only [OperationReply.debug, hlength, List.cons_append, List.nil_append]

theorem exact_operation :
    Exact String Operation.mask (Operation.debug impls f) Operation.leaks where
  toMasked := masked_operation impls f
  reveals := by
    intro o h
    cases o with
    | query q =>
      exact reveals_variant ((exact_query hscope).reveals q h) Operation.query (fun _ => rfl) (fun _ => rfl)
    | message m =>
      exact reveals_variant ((exact_message hscope).reveals m h) Operation.message (fun _ => rfl) (fun _ => rfl)
    | reply r =>
      exact reveals_variant ((exact_reply hscope).reveals r h) Operation.reply (fun _ => rfl) (fun _ => rfl)

theorem exact_wire_message :
    Exact String Message.mask (Message.debug impls f) Message.leaks where
  toMasked := masked_wire_message impls f
  reveals := by
    intro m h
    refine ((exact_operation hscope).reveals m.operation h).lift
      (fun operation => { m with operation := operation }) ?_ ?_
      (debugStruct_injective (impls.alternate f) "Message".toList
        [("request_id".toList, impls.requestId f m.requestId),
          ("response_to".toList,
            debugOption (impls.alternate f) (m.responseTo.map (impls.responseTo f)))]
        "operation".toList [])
    · intro operation hoperation
      simp only [Message.mask, hoperation]
    · intro operation _
      rfl

end Exact

/-- Debug output is the same for all documents, and for all messages, that differ only
under sensitive keys, exactly for those without a sensitive key in a scope. -/
theorem debug_hides_iff (hscope : ShowsScope (impls.bson f)) :
    (∀ d : Document,
      (∀ d', maskDoc d' = maskDoc d → redactedDoc impls f d' = redactedDoc impls f d)
        ↔ leaksDoc d = false)
      ∧ ∀ m : Message,
        (∀ m' : Message, m'.mask = m.mask → m'.debug impls f = m.debug impls f) ↔ m.leaks = false :=
  ⟨(exact_redactedDoc impls f hscope).hides_iff, (exact_wire_message hscope).hides_iff⟩

/-! ### The crate's output on sample documents -/

def quoted (s : String) : Str := '"' :: (s.toList ++ ['"'])

def stringText (alternate : Bool) (s : String) : Str :=
  debugTuple alternate "String".toList [quoted s]

def arrayText (items : Str) : Str := "Array(".toList ++ (items ++ ")".toList)

def documentText (entries : Str) : Str := "Document(".toList ++ (entries ++ ")".toList)

def codeText (alternate : Bool) (code : String) (scope : Str) : Str :=
  debugStruct alternate "JavaScriptCodeWithScope".toList
    [("code".toList, quoted code), ("scope".toList, scope)]

mutual

/- `Debug` of the values used below, as the `bson` crate writes it. -/
def sampleBson (alternate : Bool) : Bson → Str
  | .string s => stringText alternate s
  | .array items => arrayText (debugList alternate (sampleItems alternate items))
  | .document entries => documentText (debugMap alternate (sampleEntries alternate entries))
  | .javaScriptCodeWithScope code scope =>
    codeText alternate code (documentText (debugMap alternate (sampleEntries alternate scope)))
  | _ => "Null".toList

def sampleEntries (alternate : Bool) : List (String × Bson) → List (Str × Str)
  | [] => []
  | (key, value) :: entries =>
    (quoted key, sampleBson alternate value) :: sampleEntries alternate entries

def sampleItems (alternate : Bool) : List Bson → List Str
  | [] => []
  | item :: items => sampleBson alternate item :: sampleItems alternate items

end

theorem sampleEntries_append (alternate : Bool) (before after : List (String × Bson)) :
    sampleEntries alternate (before ++ after)
      = sampleEntries alternate before ++ sampleEntries alternate after := by
  induction before with
  | nil => rfl
  | cons e before ih =>
    obtain ⟨key, value⟩ := e
    simp only [List.cons_append, sampleEntries, ih]

theorem sampleItems_append (alternate : Bool) (before after : List Bson) :
    sampleItems alternate (before ++ after) = sampleItems alternate before ++ sampleItems alternate after := by
  induction before with
  | nil => rfl
  | cons v before ih => simp only [List.cons_append, sampleItems, ih]

theorem sampleBson_injective (alternate : Bool) (c : Hole) :
    Function.Injective fun s => sampleBson alternate (c.plug (.string s)) := by
  induction c with
  | here =>
    have hquoted : Function.Injective quoted := by
      intro s t h
      have hchars := List.append_cancel_right (List.cons_eq_cons.mp h).2
      exact String.toList_inj.mp hchars
    exact (debugTuple_injective alternate "String".toList [] []).comp hquoted
  | item before inner after ih =>
    simp only [Hole.plug, sampleBson, sampleItems_append, sampleItems]
    have hitems := (debugList_injective alternate (sampleItems alternate before)
      (sampleItems alternate after)).comp ih
    exact (append_injective "Array(".toList ")".toList).comp hitems
  | entry before key inner after ih =>
    simp only [Hole.plug, sampleBson, sampleEntries_append, sampleEntries]
    have hentries := (debugMap_injective alternate (sampleEntries alternate before) (quoted key)
      (sampleEntries alternate after)).comp ih
    exact (append_injective "Document(".toList ")".toList).comp hentries
  | binding code before key inner after ih =>
    simp only [Hole.plug, sampleBson, sampleEntries_append, sampleEntries]
    have hentries := (debugMap_injective alternate (sampleEntries alternate before) (quoted key)
      (sampleEntries alternate after)).comp ih
    have hscope := (append_injective "Document(".toList ")".toList).comp hentries
    exact (debugStruct_injective alternate "JavaScriptCodeWithScope".toList
      [("code".toList, quoted code)] "scope".toList []).comp hscope

/- The formatter's options are the alternate flag; the flag sets are the empty ones. -/
def sampleImpls : DebugImpls Bool where
  alternate := id
  str _ := quoted
  int _ n := (toString n).toList
  bson := sampleBson
  messageFlags _ _ := "OperationMessageFlags(0x0)".toList
  queryFlags _ _ := "OperationQueryFlags(0x0)".toList
  replyFlags _ _ := "OperationReplyFlags(0x0)".toList
  requestId alternate r := debugTuple alternate "RequestId".toList [(toString r.val.toInt).toList]
  responseTo alternate r := debugTuple alternate "ResponseTo".toList [(toString r.val.toInt).toList]

/- A handshake with a credential in a sub-document. -/
def sampleLogin : Document where
  entries := [("hello", .null), ("users", .array [.document [("PWD", .string "hunter2")]])]
  nodup := by decide

def sampleLoginMessage : Message where
  requestId := ⟨7⟩
  responseTo := none
  operation := .message { flags := ⟨0⟩, sections := [.body sampleLogin], checksum := none }

theorem sampleLogin_hidden :
    ShowsScope (sampleImpls.bson false)
      ∧ (∀ d', maskDoc d' = maskDoc sampleLogin →
        redactedDoc sampleImpls false d' = redactedDoc sampleImpls false sampleLogin)
      ∧ ∀ m' : Message, m'.mask = sampleLoginMessage.mask →
        m'.debug sampleImpls false = sampleLoginMessage.debug sampleImpls false := by
  have hscope : ShowsScope (sampleImpls.bson false) := by
    intro code before key inner after
    exact sampleBson_injective false _
  have hiff := debug_hides_iff sampleImpls false hscope
  exact ⟨hscope, (hiff.1 sampleLogin).mpr (by decide +kernel),
    (hiff.2 sampleLoginMessage).mpr (by decide +kernel)⟩

/- A function whose scope binds a password. -/
def scopedPassword (password : String) : Document where
  entries := [("fn", .javaScriptCodeWithScope "f" [("password", .string password)])]
  nodup := by simp

theorem scope_password_shown :
    maskDoc (scopedPassword "hunter2") = maskDoc (scopedPassword "swordfish")
      ∧ redactedDoc sampleImpls false (scopedPassword "hunter2")
        = "\x7b\"fn\": JavaScriptCodeWithScope \x7b code: \"f\", ".toList
          ++ "scope: Document(\x7b\"password\": String(\"hunter2\")\x7d) \x7d\x7d".toList
      ∧ redactedDoc sampleImpls false (scopedPassword "hunter2")
        ≠ redactedDoc sampleImpls false (scopedPassword "swordfish") := by
  refine ⟨?_, ?_, ?_⟩
  · rfl
  · decide +kernel
  · decide +kernel

end MongodProxy
