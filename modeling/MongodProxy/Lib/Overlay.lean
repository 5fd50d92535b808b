import MongodProxy.Lib.Service

/-!
# Layers over a service

An overlay passes every request on as it is, keeps a mark of it while the request is being
answered, and maps each reply by that mark. It may emit events of its own: when a request
comes in and when a reply goes out. Nothing else differs from the service below: every
poll of the layer is one poll of the service below.
-/

def Poll.map {α β : Type} (f : α → β) : Poll α → Poll β
  | .pending => .pending
  | .ready a => .ready (f a)

namespace Service

variable {ι σ φ φ' τ τ' μ ε κ κ' γ : Type}

/- The reply a poll of a stream gives, if it gives one. -/
def replied : Poll (Option (Except ε μ)) → List μ
  | .ready (some (.ok m)) => [m]
  | _ => []

/-- `S'` is a layer over `S`. A future or a stream of the layer is one of the service below
together with the mark of its request. -/
structure Overlay (S : Service ι σ φ τ μ ε κ) (S' : Service ι σ φ' τ' μ ε κ') (γ : Type) where
  mark : μ → γ
  fut : γ → φ → φ'
  stream : γ → τ → τ'
  reply : γ → μ → μ
  event : κ → κ'
  onCall : μ → List κ'
  onReply : γ → μ → List κ'
  call_eq : ∀ s req, S'.call s req = (fut (mark req) (S.call s req).1, (S.call s req).2.1,
    onCall req ++ (S.call s req).2.2.map event)
  pollCall_eq : ∀ i s g f, S'.pollCall i s (fut g f)
    = ⟨(S.pollCall i s f).answer.map (Except.map (stream g)), fut g (S.pollCall i s f).self,
        (S.pollCall i s f).state, (S.pollCall i s f).events.map event⟩
  pollNext_eq : ∀ i s g t, S'.pollNext i s (stream g t)
    = ⟨(S.pollNext i s t).answer.map (Option.map (Except.map (reply g))),
        stream g (S.pollNext i s t).self, (S.pollNext i s t).state,
        (S.pollNext i s t).events.map event
          ++ (replied (S.pollNext i s t).answer).flatMap (onReply g)⟩

end Service
