import MongodProxy.MessageDebug
import MongodProxy.Serve.Stack

/-!
# The log layer (serve/log.rs)

`LogService` emits two events for each request and for each reply, inside a span made for
the request: one at DEBUG with scalar fields only, one at TRACE with the `Debug` view of the
whole message. A subscriber that listens at DEBUG gets the first of each pair.
-/

namespace MongodProxy
open Service Layers Redact DebugFmt

/-- `Operation::op_kind`. -/
def Operation.opKind : Operation → String
  | .message _ => "OP_MSG"
  | .query _ => "OP_QUERY"
  | .reply _ => "OP_REPLY"

/-- `Display` of a `RequestId`. -/
def RequestId.display (id : RequestId) : Str := (toString id.val.toInt).toList

inductive LogLevel where
  | debug
  | trace
  deriving DecidableEq, Repr

/- The fields of the span `request`. -/
structure RequestSpan where
  requestId : Str
  op : Str
  deriving DecidableEq, Repr

structure LogEvent where
  span : RequestSpan
  level : LogLevel
  fields : List (String × Str)
  message : String
  deriving DecidableEq, Repr

/- The events of the layer beside those of the service below it. -/
inductive Logged (κ : Type) where
  | inner (e : κ)
  | log (e : LogEvent)

structure LoggedFuture (φ : Type) where
  fut : φ
  span : RequestSpan

structure LoggedStream (τ : Type) where
  inner : τ
  span : RequestSpan

namespace Log

variable {F : Type} (impls : DebugImpls F) (f : F)

def requestSpan (req : Message) : RequestSpan :=
  ⟨req.requestId.display, req.operation.opKind.toList⟩

/- `command_name().unwrap_or("")`. -/
def command (m : Message) : Str := (m.operation.commandName.getD "").toList

def requestEvent (req : Message) : LogEvent where
  span := requestSpan req
  level := .debug
  fields := [("direction", "request".toList), ("op", req.operation.opKind.toList),
    ("command", command req), ("request_id", req.requestId.display)]
  message := "received request"

def requestBody (req : Message) : LogEvent where
  span := requestSpan req
  level := .trace
  fields := [("direction", "request".toList), ("req", req.debug impls f)]
  message := "request body"

def responseEvent (span : RequestSpan) (reply : Message) : LogEvent where
  span := span
  level := .debug
  fields := [("direction", "response".toList), ("op", reply.operation.opKind.toList),
    ("command", command reply),
    ("request_id", debugOption (impls.alternate f) (reply.responseTo.map (impls.responseTo f))),
    ("response_id", reply.requestId.display)]
  message := "received response"

def responseBody (span : RequestSpan) (reply : Message) : LogEvent where
  span := span
  level := .trace
  fields := [("direction", "response".toList), ("message", reply.debug impls f)]
  message := "response body"

def onRequest (req : Message) : List LogEvent := [requestEvent req, requestBody impls f req]

def onResponse (span : RequestSpan) (reply : Message) : List LogEvent :=
  [responseEvent impls f span reply, responseBody impls f span reply]

variable {ι σ φ τ ε κ : Type}

/-- `LogService`. -/
def service (inner : Service ι σ φ τ Message ε κ) :
    Service ι σ (LoggedFuture φ) (LoggedStream τ) Message ε (Logged κ) where
  call s req :=
    let c := inner.call s req
    (⟨c.1, requestSpan req⟩, c.2.1, (onRequest impls f req).map .log ++ c.2.2.map .inner)
  pollCall i s fut :=
    let p := inner.pollCall i s fut.fut
    let answer := match p.answer with
      | .pending => .pending
      | .ready (.error e) => .ready (.error e)
      | .ready (.ok stream) => .ready (.ok ⟨stream, fut.span⟩)
    ⟨answer, ⟨p.self, fut.span⟩, p.state, p.events.map .inner⟩
  pollNext i s st :=
    let p := inner.pollNext i s st.inner
    match p.answer with
    | .pending => ⟨.pending, ⟨p.self, st.span⟩, p.state, p.events.map .inner⟩
    | .ready none => ⟨.ready none, ⟨p.self, st.span⟩, p.state, p.events.map .inner⟩
    | .ready (some (.ok message)) =>
      ⟨.ready (some (.ok message)), ⟨p.self, st.span⟩, p.state,
        p.events.map .inner ++ (onResponse impls f st.span message).map .log⟩
    | .ready (some (.error e)) =>
      ⟨.ready (some (.error e)), ⟨p.self, st.span⟩, p.state, p.events.map .inner⟩

/-- The log layer keeps the span of each request and changes no reply. -/
def overlay (inner : Service ι σ φ τ Message ε κ) :
    Overlay inner (service impls f inner) RequestSpan where
  mark := requestSpan
  fut span fut := ⟨fut, span⟩
  stream span t := ⟨t, span⟩
  reply _ m := m
  event := .inner
  onCall req := (onRequest impls f req).map .log
  onReply span reply := (onResponse impls f span reply).map .log
  call_eq := fun s req => rfl
  pollCall_eq := by
    intro i s span fut
    simp only [service]
    rcases (inner.pollCall i s fut).answer with - | (e | t)
    · rfl
    · rfl
    · rfl
  pollNext_eq := by
    intro i s span t
    simp only [service]
    rcases (inner.pollNext i s t).answer with - | (- | (e | m))
    · simp [Poll.map, replied]
    · simp [Poll.map, replied]
    · simp [Poll.map, replied, Except.map]
    · simp [Poll.map, replied, Except.map]

/-! ### What a run logs -/

/- A request that came in, or a reply that was given out. -/
inductive Frame (α : Type) where
  | request (x : α)
  | reply (x : α)
  deriving DecidableEq

def Frame.map {α α' : Type} (g : α → α') : Frame α → Frame α'
  | .request x => .request (g x)
  | .reply x => .reply (g x)

def Frame.get {α : Type} : Frame α → α
  | .request x => x
  | .reply x => x

def framesOf (log : List (LoopEvent κ)) : List (Frame Message) :=
  log.filterMap fun
    | .decoded req => some (.request req)
    | .given reply => some (.reply reply)
    | _ => none

/- The log without the layer's own events. -/
def erase (log : List (LoopEvent (Logged κ))) : List (LoopEvent κ) :=
  log.filterMap fun
    | .decoded req => some (.decoded req)
    | .service (.inner e) => some (.service e)
    | .service (.log _) => none
    | .given reply => some (.given reply)
    | .sent reply => some (.sent reply)

def logsOf (log : List (LoopEvent (Logged κ))) : List LogEvent :=
  log.filterMap fun
    | .service (.log e) => some e
    | _ => none

/-- Two events for each frame, those of a reply in the span of its request. -/
def expected : RequestSpan → List (Frame Message) → List LogEvent
  | _, [] => []
  | _, .request req :: frames => onRequest impls f req ++ expected (requestSpan req) frames
  | span, .reply reply :: frames => onResponse impls f span reply ++ expected span frames

@[simp] theorem erase_append (log log' : List (LoopEvent (Logged κ))) :
    erase (log ++ log') = erase log ++ erase log' := List.filterMap_append

@[simp] theorem logsOf_append (log log' : List (LoopEvent (Logged κ))) :
    logsOf (log ++ log') = logsOf log ++ logsOf log' := List.filterMap_append

theorem erase_logs (es : List LogEvent) :
    erase ((es.map .log).map .service : List (LoopEvent (Logged κ))) = [] := by
  induction es with
  | nil => rfl
  | cons e es ih => exact ih

theorem logsOf_logs (es : List LogEvent) :
    logsOf ((es.map .log).map .service : List (LoopEvent (Logged κ))) = es := by
  induction es with
  | nil => rfl
  | cons e es ih => exact congrArg (e :: ·) ih

theorem erase_logFrom (inner : Service ι σ φ τ Message ε κ) (span : RequestSpan)
    (log : List (LoopEvent κ)) : erase (logFrom (overlay impls f inner) span log) = log := by
  induction log generalizing span with
  | nil => rfl
  | cons e log ih =>
    cases e with
    | decoded req =>
      show LoopEvent.decoded req :: erase (((onRequest impls f req).map .log).map .service ++ _) = _
      rw [erase_append, erase_logs, List.nil_append, ih]
    | service e => exact congrArg (LoopEvent.service e :: ·) (ih span)
    | given reply =>
      show erase (((onResponse impls f span reply).map .log).map .service ++ _) = _
      rw [erase_append, erase_logs, List.nil_append]
      exact congrArg (LoopEvent.given reply :: ·) (ih span)
    | sent reply => exact congrArg (LoopEvent.sent reply :: ·) (ih span)

theorem logsOf_logFrom (inner : Service ι σ φ τ Message ε κ) (span : RequestSpan)
    (log : List (LoopEvent κ)) :
    logsOf (logFrom (overlay impls f inner) span log) = expected impls f span (framesOf log) := by
  induction log generalizing span with
  | nil => rfl
  | cons e log ih =>
    cases e with
    | decoded req =>
      show logsOf (((onRequest impls f req).map .log).map .service ++ _) = _
      rw [logsOf_append, logsOf_logs, ih]
      rfl
    | service e => exact ih span
    | given reply =>
      show logsOf (((onResponse impls f span reply).map .log).map .service
        ++ LoopEvent.given reply :: _) = _
      rw [logsOf_append, logsOf_logs]
      exact congrArg (onResponse impls f span reply ++ ·) (ih span)
    | sent reply => exact ih span

variable {β : Type}

/-- With and without the log layer a connection does the same: it ends alike, and its log
without the layer's events is the same. Those events are two for each request decoded and
for each reply given out, in that order, those of a reply in the span of its request. -/
theorem log_layer_transparent (inner : Service ι σ φ τ Message ε κ) (s : σ)
    (ios : List (ClientIo β ι)) (span : RequestSpan) :
    (∀ result, (Conn.run (service impls f inner) (Conn.start s) ios).phase = .closed result
        ↔ (Conn.run inner (Conn.start s) ios).phase = .closed result) ∧
      (Conn.run (service impls f inner) (Conn.start s : Conn β ε σ _ _ _) ios).state
        = (Conn.run inner (Conn.start s : Conn β ε σ φ τ κ) ios).state ∧
      erase (Conn.run (service impls f inner) (Conn.start s : Conn β ε σ _ _ _) ios).log
        = (Conn.run inner (Conn.start s : Conn β ε σ φ τ κ) ios).log ∧
      logsOf (Conn.run (service impls f inner) (Conn.start s : Conn β ε σ _ _ _) ios).log
        = expected impls f span
            (framesOf (Conn.run inner (Conn.start s : Conn β ε σ φ τ κ) ios).log) := by
  rw [run_start (overlay impls f inner) span]
  generalize Conn.run inner (Conn.start s : Conn β ε σ φ τ κ) ios = c
  refine ⟨?_, rfl, erase_logFrom impls f inner span c.log, logsOf_logFrom impls f inner span c.log⟩
  intro result
  obtain ⟨phase, s', log⟩ := c
  cases phase <;> simp [image, phaseOf]

/-! ### What the log tells of the messages -/

/- What the events at DEBUG are made of. -/
structure FrameMeta where
  op : String
  command : Option String
  requestId : RequestId
  responseTo : Option ResponseTo
  deriving DecidableEq

def metaOf (m : Message) : FrameMeta :=
  ⟨m.operation.opKind, m.operation.commandName, m.requestId, m.responseTo⟩

def debugOf (events : List LogEvent) : List LogEvent := events.filter (·.level = .debug)

theorem requestSpan_eq {m m' : Message} (h : metaOf m = metaOf m') :
    requestSpan m = requestSpan m' := by
  simp only [metaOf, FrameMeta.mk.injEq] at h
  simp only [requestSpan, h]

theorem requestEvent_eq {m m' : Message} (h : metaOf m = metaOf m') :
    requestEvent m = requestEvent m' := by
  have hspan := requestSpan_eq h
  simp only [metaOf, FrameMeta.mk.injEq] at h
  simp only [requestEvent, command, h, hspan]

theorem responseEvent_eq {m m' : Message} (h : metaOf m = metaOf m') (span : RequestSpan) :
    responseEvent impls f span m = responseEvent impls f span m' := by
  simp only [metaOf, FrameMeta.mk.injEq] at h
  simp only [responseEvent, command, h]

theorem debugOf_expected {frames frames' : List (Frame Message)} (span : RequestSpan)
    (h : frames.map (Frame.map metaOf) = frames'.map (Frame.map metaOf)) :
    debugOf (expected impls f span frames) = debugOf (expected impls f span frames') := by
  induction frames generalizing frames' span with
  | nil =>
    rw [List.map_nil] at h
    rw [List.map_eq_nil_iff.mp h.symm]
  | cons x frames ih =>
    cases frames' with
    | nil => simp at h
    | cons y frames' =>
      obtain ⟨hhead, htail⟩ := List.cons_eq_cons.mp h
      cases x with
      | request m =>
        cases y with
        | reply m' => cases hhead
        | request m' =>
          have hm : metaOf m = metaOf m' := Frame.request.inj hhead
          have hspan := requestSpan_eq hm
          show requestEvent m :: debugOf (expected impls f _ _)
            = requestEvent m' :: debugOf (expected impls f _ _)
          rw [requestEvent_eq hm, hspan, ih _ htail]
      | reply m =>
        cases y with
        | request m' => cases hhead
        | reply m' =>
          have hm : metaOf m = metaOf m' := Frame.reply.inj hhead
          show responseEvent impls f span m :: debugOf (expected impls f _ _)
            = responseEvent impls f span m' :: debugOf (expected impls f _ _)
          rw [responseEvent_eq impls f hm, ih _ htail]

/- Masking keeps the keys, and with them the name of the command. -/
theorem commandName_mask (om : OperationMessage) : om.mask.commandName = om.commandName := by
  obtain ⟨flags, sections, checksum⟩ := om
  simp only [OperationMessage.commandName, OperationMessage.mask]
  induction sections with
  | nil => rfl
  | cons s sections ih =>
    cases s with
    | body doc =>
      show (maskDoc doc).keys.head? = doc.keys.head?
      rw [Document.keys, maskDoc, keys_maskEntries]
      rfl
    | documentSequence identifier documents => exact ih

theorem metaOf_mask (m : Message) : metaOf m.mask = metaOf m := by
  obtain ⟨requestId, responseTo, operation⟩ := m
  cases operation with
  | query q =>
    have hkeys : (maskDoc q.query).keys = q.query.keys := by
      rw [Document.keys, maskDoc, keys_maskEntries]
      rfl
    simp only [metaOf, Message.mask, Operation.mask, OperationQuery.mask, Operation.opKind,
      Operation.commandName, hkeys]
  | reply r => rfl
  | message om =>
    simp only [metaOf, Message.mask, Operation.mask, Operation.opKind, Operation.commandName,
      commandName_mask]

theorem expected_mask (span : RequestSpan) (frames : List (Frame Message))
    (h : ∀ x ∈ frames, x.get.leaks = false) :
    expected impls f span (frames.map (Frame.map Message.mask)) = expected impls f span frames := by
  induction frames generalizing span with
  | nil => rfl
  | cons x frames ih =>
    have hx := h x List.mem_cons_self
    have htail := fun span => ih span (fun y hy => h y (List.mem_cons_of_mem _ hy))
    cases x with
    | request m =>
      have hdebug := (masked_wire_message impls f).out_view m hx
      have hspan := requestSpan_eq (metaOf_mask m)
      have hbody : requestBody impls f m.mask = requestBody impls f m := by
        simp only [requestBody, hdebug, hspan]
      show onRequest impls f m.mask ++ expected impls f (requestSpan m.mask) _ = _
      rw [hspan, htail, onRequest, requestEvent_eq (metaOf_mask m), hbody]
      rfl
    | reply m =>
      have hdebug := (masked_wire_message impls f).out_view m hx
      have hbody : responseBody impls f span m.mask = responseBody impls f span m := by
        simp only [responseBody, hdebug]
      show onResponse impls f span m.mask ++ expected impls f span _ = _
      rw [htail, onResponse, responseEvent_eq impls f (metaOf_mask m), hbody]
      rfl

/-- The log of frames of which none leaks is that of their masks. -/
theorem masked_expected (span : RequestSpan) :
    Secrecy.Masked (List.map (Frame.map Message.mask)) (expected impls f span)
      fun frames => frames.any fun x => x.get.leaks where
  leak_view := by
    intro frames
    have hget : ∀ x : Frame Message, (x.map Message.mask).get.leaks = x.get.leaks := by
      intro x
      cases x with
      | request m => exact (masked_wire_message impls f).leak_view m
      | reply m => exact (masked_wire_message impls f).leak_view m
    simp only [List.any_map, Function.comp_def, hget]
  out_view := by
    intro frames h
    refine expected_mask impls f span frames fun x hx => ?_
    simpa using List.any_eq_false.mp h x hx

section
variable {ι' σ' φ' τ' ε' κ' β' : Type}

/-- What the log of a connection tells. At DEBUG it is the same for any two connections whose
frames have the same opcodes, command names and ids, whatever is in them. With TRACE it is
the same for any two whose frames differ only under sensitive keys, if no frame has a
sensitive key inside the scope of a code. -/
theorem log_layer_hides (inner : Service ι σ φ τ Message ε κ) (s : σ) (ios : List (ClientIo β ι))
    (inner' : Service ι' σ' φ' τ' Message ε' κ') (s' : σ') (ios' : List (ClientIo β' ι')) :
    ((framesOf (Conn.run inner (Conn.start s : Conn β ε σ φ τ κ) ios).log).map (Frame.map metaOf)
        = (framesOf (Conn.run inner' (Conn.start s' : Conn β' ε' σ' φ' τ' κ') ios').log).map
            (Frame.map metaOf) →
      debugOf (logsOf (Conn.run (service impls f inner) (Conn.start s : Conn β ε σ _ _ _) ios).log)
        = debugOf (logsOf
            (Conn.run (service impls f inner') (Conn.start s' : Conn β' ε' σ' _ _ _) ios').log)) ∧
    ((framesOf (Conn.run inner (Conn.start s : Conn β ε σ φ τ κ) ios).log).map
          (Frame.map Message.mask)
        = (framesOf (Conn.run inner' (Conn.start s' : Conn β' ε' σ' φ' τ' κ') ios').log).map
            (Frame.map Message.mask) →
      (∀ x ∈ framesOf (Conn.run inner (Conn.start s : Conn β ε σ φ τ κ) ios).log,
        x.get.leaks = false) →
      logsOf (Conn.run (service impls f inner) (Conn.start s : Conn β ε σ _ _ _) ios).log
        = logsOf (Conn.run (service impls f inner') (Conn.start s' : Conn β' ε' σ' _ _ _) ios').log) := by
  have hspan : RequestSpan := ⟨[], []⟩
  rw [run_start (overlay impls f inner) hspan, run_start (overlay impls f inner') hspan]
  simp only [image, logsOf_logFrom]
  constructor
  · exact debugOf_expected impls f hspan
  · intro hmask hclean
    refine ((masked_expected impls f hspan).hides ?_ _ hmask.symm).symm
    rw [List.any_eq_false]
    intro x hx
    simp [hclean x hx]

end

/- A login with another password. -/
def otherLogin : Document where
  entries := [("hello", .null), ("users", .array [.document [("PWD", .string "swordfish")]])]
  nodup := by decide

def loginMessage (d : Document) : Message where
  requestId := ⟨7⟩
  responseTo := none
  operation := .message { flags := ⟨0⟩, sections := [.body d], checksum := none }

/- A client that sends the message, to a proxy whose upstream is silent. -/
def loginRun (d : Document) : List (ClientIo Unit (UpstreamIo Unit)) :=
  [⟨.ready (some (.ok (loginMessage d))), .pending, ⟨false, .pending, .pending⟩⟩]

theorem logins_alike :
    logsOf (Conn.run (service sampleImpls false ProxyClient.service)
        (Conn.start ⟨false⟩ : Conn Unit _ _ _ _ _) (loginRun sampleLogin)).log
      = logsOf (Conn.run (service sampleImpls false ProxyClient.service)
        (Conn.start ⟨false⟩ : Conn Unit _ _ _ _ _) (loginRun otherLogin)).log := by
  refine (log_layer_hides sampleImpls false ProxyClient.service ⟨false⟩ (loginRun sampleLogin)
    ProxyClient.service ⟨false⟩ (loginRun otherLogin)).2 ?_ ?_
  · have hmask : (loginMessage sampleLogin).mask = (loginMessage otherLogin).mask := by
      have hdoc : maskDoc sampleLogin = maskDoc otherLogin := by
        apply Document.ext
        have hkey : isSensitiveKey "PWD" = true := by decide +kernel
        have husers : isSensitiveKey "users" = false := by decide +kernel
        simp [maskDoc, sampleLogin, otherLogin, maskEntries, mask, maskItems, hkey, husers]
      simp only [loginMessage, Message.mask, Operation.mask, OperationMessage.mask, List.map_cons,
        List.map_nil, OpMsgSection.mask, hdoc]
    show [Frame.request _] = [Frame.request _]
    rw [hmask]
  · intro x hx
    have hx : x ∈ [Frame.request (loginMessage sampleLogin)] := hx
    rw [List.mem_singleton.mp hx]
    decide +kernel

end Log

end MongodProxy
