import Mathlib.Logic.Relation
import MongodProxy.Serve.SharedUpstream

/-!
# The shared socket never locks up

The mutex of a `ProxyClient` is held exactly as long as some call owns its guard, and the
owner never waits for another call: it is writing, or the upstream has its request and
will answer. So from every state that calls on clones of one client can reach together,
a schedule that only polls them and lets the upstream go on ends every call that was begun.
-/

namespace MongodProxy

namespace Shared

variable {β κ : Type} {req : κ → Message}

/-! ### Whose guard it is -/

/-- A mutex that is locked is locked by somebody. -/
def Held (s : System κ) : Prop := s.inner.locked = true → ∃ k, Owning (s.status k)

theorem held_of_owning {s : System κ} (k : κ) (hk : Owning (s.status k)) : Held s :=
  fun _ => ⟨k, hk⟩

theorem held_of_unlocked {s : System κ} (hl : s.inner.locked = false) : Held s := by
  intro hc
  rw [hl] at hc
  cases hc

variable [DecidableEq κ]

theorem Held.update {s : System κ} (h : Held s) {k : κ} {st : CallStatus}
    (hk : ¬ Owning (s.status k)) : Held { s with status := Function.update s.status k st } := by
  intro hl
  obtain ⟨j, hj⟩ := h hl
  have hjk : j ≠ k := by
    rintro rfl
    exact hk hj
  refine ⟨j, ?_⟩
  dsimp only
  rwa [Function.update_of_ne hjk]

theorem held_pollCalling {s : System κ} (h : Held s) {k : κ} {f : ProxyClientRequestFuture}
    (hk : s.status k = .calling f) (io : PollIo β) : Held (pollCalling s k io f) := by
  have hsame : Function.update s.status k (.calling f) = s.status := by
    rw [← hk, Function.update_eq_self]
  obtain ⟨request, fireAndForget, stage⟩ := f
  cases stage with
  | locking =>
    by_cases hlock : s.inner.locked = false ∧ io.grant = true
    · apply held_of_owning k
      simp only [pollCalling, ProxyClient.pollCall, if_pos hlock, Function.update_self]
      rfl
    · simp only [pollCalling, ProxyClient.pollCall, if_neg hlock, hsame]
      exact h
  | sending =>
    rcases hio : io.send with - | (e | u)
    · simp only [pollCalling, ProxyClient.pollCall, hio, hsame]
      exact h
    · apply held_of_unlocked
      simp only [pollCalling, ProxyClient.pollCall, hio]
    · cases fireAndForget with
      | true =>
        apply held_of_unlocked
        simp only [pollCalling, ProxyClient.pollCall, hio, if_true]
      | false =>
        apply held_of_owning k
        simp only [pollCalling, ProxyClient.pollCall, hio, Bool.false_eq_true, if_false,
          Function.update_self]
        rfl

theorem held_pollStreaming {s : System κ} (h : Held s) {k : κ} {t : ProxyResponseStream}
    (hk : s.status k = .streaming t) (io : PollIo β) : Held (pollStreaming s k io t) := by
  cases t with
  | done =>
    have hnot : ¬ Owning (s.status k) := by
      rw [hk]
      exact fun hc => by cases hc
    exact h.update hnot
  | streaming =>
    have hown : ∀ s' : System κ, s'.status = Function.update s.status k (.streaming .streaming) →
        Held s' := by
      intro s' hs'
      apply held_of_owning k
      rw [hs', Function.update_self]
      rfl
    cases ha : io.arrived with
    | false =>
      apply hown
      simp only [pollStreaming, ha, ProxyClient.pollNext]
    | true =>
      cases hf : s.fromServer with
      | nil =>
        apply hown
        simp only [pollStreaming, ha, hf, ProxyClient.pollNext]
      | cons m rest =>
        cases hm : moreToCome m.operation with
        | true =>
          apply hown
          simp only [pollStreaming, ha, hf, ProxyClient.pollNext, hm, if_true]
        | false =>
          apply held_of_unlocked
          simp only [pollStreaming, ha, hf, ProxyClient.pollNext, hm, Bool.false_eq_true, if_false]

theorem Held.step {s : System κ} (h : Held s) (a : Action β κ) : Held (step req s a) := by
  cases a with
  | call k =>
    cases hk : s.status k with
    | idle =>
      have hnot : ¬ Owning (s.status k) := by
        rw [hk]
        exact fun hc => hc
      simp only [Shared.step, hk, ProxyClient.call]
      exact h.update hnot
    | calling f => simpa only [Shared.step, hk] using h
    | streaming t => simpa only [Shared.step, hk] using h
    | ended => simpa only [Shared.step, hk] using h
    | failed => simpa only [Shared.step, hk] using h
  | poll k io =>
    cases hk : s.status k with
    | idle => simpa only [Shared.step, hk] using h
    | calling f =>
      simp only [Shared.step, hk]
      exact held_pollCalling h hk io
    | streaming t =>
      simp only [Shared.step, hk]
      exact held_pollStreaming h hk io
    | ended => simpa only [Shared.step, hk] using h
    | failed => simpa only [Shared.step, hk] using h
  | serve =>
    simp only [Shared.step]
    split
    · split_ifs <;> exact h
    · exact h
  | reply m =>
    simp only [Shared.step]
    split
    · exact h
    · split_ifs <;> exact h

/-! ### What the next poll does when the socket is ready -/

/-- The mutex is granted, the socket takes the frame and what is in flight has arrived. -/
def ready : PollIo β := ⟨true, .ready (.ok ()), true⟩

section
variable {s : System κ} {k : κ}

theorem step_grant {f : ProxyClientRequestFuture} (hk : s.status k = .calling f)
    (hstage : f.stage = .locking) (hl : s.inner.locked = false) :
    step req s (.poll k (ready : PollIo β)) = { s with
      status := Function.update s.status k (.calling { f with stage := .sending })
      inner := ⟨true⟩ } := by
  obtain ⟨request, fireAndForget, stage⟩ := f
  subst hstage
  simp only [step, hk, pollCalling, ProxyClient.pollCall, hl, ready, and_self, if_true,
    List.map_nil, List.append_nil]

theorem step_forget {f : ProxyClientRequestFuture} (hk : s.status k = .calling f)
    (hstage : f.stage = .sending) (hfire : f.fireAndForget = true) :
    step req s (.poll k (ready : PollIo β)) = { s with
      status := Function.update s.status k (.streaming .done)
      inner := ⟨false⟩
      toServer := s.toServer ++ [k] } := by
  obtain ⟨request, fireAndForget, stage⟩ := f
  subst hstage hfire
  simp only [step, hk, pollCalling, ProxyClient.pollCall, ready, if_true, List.map_cons,
    List.map_nil]

theorem step_send {f : ProxyClientRequestFuture} (hk : s.status k = .calling f)
    (hstage : f.stage = .sending) (hfire : f.fireAndForget = false) :
    step req s (.poll k (ready : PollIo β)) = { s with
      status := Function.update s.status k (.streaming .streaming)
      toServer := s.toServer ++ [k] } := by
  obtain ⟨request, fireAndForget, stage⟩ := f
  subst hstage hfire
  simp only [step, hk, pollCalling, ProxyClient.pollCall, ready, Bool.false_eq_true, if_false,
    List.map_cons, List.map_nil]

theorem step_more {m : Message} {rest : List Message} (hk : s.status k = .streaming .streaming)
    (hf : s.fromServer = m :: rest) (hm : moreToCome m.operation = true) :
    step req s (.poll k (ready : PollIo β)) = { s with
      fromServer := rest
      yielded := Function.update s.yielded k (s.yielded k ++ [m]) } := by
  have hsame : Function.update s.status k (.streaming .streaming) = s.status := by
    rw [← hk, Function.update_eq_self]
  simp only [step, hk, pollStreaming, ready, hf, ProxyClient.pollNext, hm, if_true,
    List.length_cons, List.length_nil, Nat.zero_add, List.drop_succ_cons, List.drop_zero, hsame]

theorem step_last {m : Message} {rest : List Message} (hk : s.status k = .streaming .streaming)
    (hf : s.fromServer = m :: rest) (hm : moreToCome m.operation = false) :
    step req s (.poll k (ready : PollIo β)) = { s with
      status := Function.update s.status k (.streaming .done)
      inner := ⟨false⟩
      fromServer := rest
      yielded := Function.update s.yielded k (s.yielded k ++ [m]) } := by
  simp only [step, hk, pollStreaming, ready, hf, ProxyClient.pollNext, hm, Bool.false_eq_true,
    if_false, List.length_cons, List.length_nil, Nat.zero_add, List.drop_succ_cons, List.drop_zero]

theorem step_end (hk : s.status k = .streaming .done) :
    step req s (.poll k (ready : PollIo β))
      = { s with status := Function.update s.status k .ended } := by
  simp only [step, hk, pollStreaming, ProxyClient.pollNext, List.length_nil, List.drop_zero,
    List.append_nil, Function.update_eq_self]

end

/-! ### The owner lets go -/

/- No new call is begun, and the socket is ready at every poll. -/
def Action.Helps : Action β κ → Prop
  | .call _ => False
  | .poll _ io => io = ready
  | .serve => True
  | .reply _ => True

variable (β req) in
/-- What a schedule of polls and of the upstream's own moves leads to. -/
def Leads : System κ → System κ → Prop :=
  Relation.ReflTransGen fun s s' => ∃ a : Action β κ, a.Helps ∧ step req s a = s'

theorem leads_step (s : System κ) {a : Action β κ} (ha : a.Helps) : Leads β req s (step req s a) :=
  .single ⟨a, ha, rfl⟩

theorem Leads.inv {s s' : System κ} (hpath : Leads β req s s') (h : Inv req s) : Inv req s' := by
  induction hpath with
  | refl => exact h
  | tail _ hlast ih =>
    obtain ⟨a, -, rfl⟩ := hlast
    exact ih.step a

theorem Leads.held {s s' : System κ} (hpath : Leads β req s s') (h : Held s) : Held s' := by
  induction hpath with
  | refl => exact h
  | tail _ hlast ih =>
    obtain ⟨a, -, rfl⟩ := hlast
    exact ih.step a

/-- The call has its answer, the guard is free, and no other call has moved. -/
structure Released (k : κ) (s s' : System κ) : Prop where
  unlocked : s'.inner.locked = false
  done : s'.status k = .streaming .done
  others : ∀ j, j ≠ k → s'.status j = s.status j

omit [DecidableEq κ] in
theorem Released.of_eq {k : κ} {s s₁ s' : System κ} (h : Released k s₁ s')
    (heq : ∀ j, j ≠ k → s₁.status j = s.status j) : Released k s s' :=
  ⟨h.unlocked, h.done, fun j hj => (h.others j hj).trans (heq j hj)⟩

/- The upstream has answered in full: reply after reply, by induction on what is in flight. -/
theorem release_answered (n : ℕ) {k : κ} {s : System κ} (h : Inv req s)
    (hn : s.fromServer.length = n) (hk : s.status k = .streaming .streaming)
    (ht : s.toServer = []) (hs : s.serving = none) :
    ∃ s', Leads β req s s' ∧ Released k s s' := by
  induction n generalizing s with
  | zero =>
    have hnil : s.fromServer = [] := List.length_eq_zero_iff.mp hn
    exfalso
    cases h.line_streaming hk with
    | queued _ before h1 => simp [ht] at h1
    | serving _ h1 h2 => cases hs.symm.trans h2
    | served _ h1 h2 h3 h4 h5 =>
      obtain ⟨more, last, heq, -, hlast⟩ := h5
      have hmem : last ∈ s.yielded k := by
        rw [h3, hnil, List.append_nil] at heq
        rw [heq]
        simp
      rw [h4 last hmem] at hlast
      cases hlast
  | succ n ih =>
    obtain ⟨m, rest, hf⟩ := List.exists_cons_of_length_eq_add_one hn
    have hpath : Leads β req s (step req s (.poll k ready)) := leads_step s rfl
    cases hm : moreToCome m.operation with
    | true =>
      have hinv := hpath.inv h
      rw [step_more hk hf hm] at hpath hinv
      have hlen : rest.length = n := by
        rw [hf, List.length_cons] at hn
        omega
      obtain ⟨s', hpath', hrel⟩ := ih hinv hlen hk ht hs
      exact ⟨s', hpath.trans hpath', hrel.of_eq fun _ _ => rfl⟩
    | false =>
      rw [step_last hk hf hm] at hpath
      refine ⟨_, hpath, rfl, ?_, ?_⟩
      · exact Function.update_self ..
      · intro j hj
        exact Function.update_of_ne hj ..

/- A reply that fits every request and announces no other. -/
def closing : Message := ⟨⟨0⟩, none, .reply ⟨⟨0⟩, 0, 0, []⟩⟩

theorem release_serving {k : κ} {s : System κ} (h : Inv req s)
    (hk : s.status k = .streaming .streaming) (ht : s.toServer = []) (hs : s.serving = some k) :
    ∃ s', Leads β req s s' ∧ Released k s s' := by
  have hfits : fits (req k) closing = true := by
    unfold fits closing
    cases (req k).operation <;> rfl
  have hpath : Leads β req s (step req s (.reply closing)) := leads_step s trivial
  have hinv := hpath.inv h
  have hmore : moreToCome closing.operation = false := rfl
  simp only [step, hs, hfits, if_true, hmore, Bool.false_eq_true, if_false] at hpath hinv
  obtain ⟨s', hpath', hrel⟩ := release_answered (β := β) _ hinv rfl hk ht rfl
  exact ⟨s', hpath.trans hpath', hrel.of_eq fun _ _ => rfl⟩

/- The requests before it want no reply. -/
theorem release_queued (before : List κ) {k : κ} {s : System κ} (h : Inv req s)
    (hk : s.status k = .streaming .streaming) (ht : s.toServer = before ++ [k])
    (hb : ∀ j ∈ before, moreToCome (req j).operation = true) (hs : s.serving = none) :
    ∃ s', Leads β req s s' ∧ Released k s s' := by
  induction before generalizing s with
  | nil =>
    have hwants : moreToCome (req k).operation = false := by
      have hcall := h.call k
      rw [hk] at hcall
      exact hcall
    have hpath : Leads β req s (step req s .serve) := leads_step s trivial
    have hinv := hpath.inv h
    simp only [step, hs, ht, List.nil_append, hwants, Bool.false_eq_true, if_false] at hpath hinv
    obtain ⟨s', hpath', hrel⟩ := release_serving (β := β) hinv hk rfl rfl
    exact ⟨s', hpath.trans hpath', hrel.of_eq fun _ _ => rfl⟩
  | cons b before ih =>
    have hforget := hb b (List.mem_cons_self ..)
    have hpath : Leads β req s (step req s .serve) := leads_step s trivial
    have hinv := hpath.inv h
    simp only [step, hs, ht, List.cons_append, hforget, if_true] at hpath hinv
    obtain ⟨s', hpath', hrel⟩ := ih hinv hk rfl (fun j hj => hb j (List.mem_cons_of_mem _ hj)) rfl
    exact ⟨s', hpath.trans hpath', hrel.of_eq fun _ _ => rfl⟩

theorem release_streaming {k : κ} {s : System κ} (h : Inv req s)
    (hk : s.status k = .streaming .streaming) : ∃ s', Leads β req s s' ∧ Released k s s' := by
  cases h.line_streaming hk with
  | queued _ before h1 h2 h3 h4 h5 h6 => exact release_queued before h hk h1 h2 h3
  | serving _ h1 h2 h3 h4 => exact release_serving h hk h1 h2
  | served _ h1 h2 h3 h4 h5 => exact release_answered _ h rfl hk h1 h2

theorem release_sending {k : κ} {f : ProxyClientRequestFuture} {s : System κ} (h : Inv req s)
    (hk : s.status k = .calling f) (hstage : f.stage = .sending) :
    ∃ s', Leads β req s s' ∧ Released k s s' := by
  have hpath : Leads β req s (step req s (.poll k ready)) := leads_step s rfl
  cases hfire : f.fireAndForget with
  | true =>
    rw [step_forget hk hstage hfire] at hpath
    refine ⟨_, hpath, rfl, ?_, ?_⟩
    · exact Function.update_self ..
    · intro j hj
      exact Function.update_of_ne hj ..
  | false =>
    have hinv := hpath.inv h
    rw [step_send hk hstage hfire] at hpath hinv
    obtain ⟨s', hpath', hrel⟩ := release_streaming (β := β) hinv (Function.update_self ..)
    refine ⟨s', hpath.trans hpath', hrel.of_eq ?_⟩
    intro j hj
    exact Function.update_of_ne hj ..

/-- Whoever owns the guard can be brought to let go of it. -/
theorem release_owner {k : κ} {s : System κ} (h : Inv req s) (hk : Owning (s.status k)) :
    ∃ s', Leads β req s s' ∧ Released k s s' := by
  cases hst : s.status k with
  | idle =>
    rw [hst] at hk
    exact hk.elim
  | calling f =>
    rw [hst] at hk
    exact release_sending h hst hk
  | streaming t =>
    rw [hst] at hk
    cases hk
    exact release_streaming h hst
  | ended =>
    rw [hst] at hk
    exact hk.elim
  | failed =>
    rw [hst] at hk
    exact hk.elim

/-! ### Every call ends -/

theorem end_released {k : κ} {s s' : System κ} (hpath : Leads β req s s') (hrel : Released k s s') :
    ∃ s'', Leads β req s s'' ∧ s''.status k = .ended := by
  have hend : Leads β req s' (step req s' (.poll k ready)) := leads_step s' rfl
  rw [step_end hrel.done] at hend
  exact ⟨_, hpath.trans hend, Function.update_self ..⟩

/- The call takes the guard and then gives it back. -/
theorem end_waiting {k : κ} {f : ProxyClientRequestFuture} {s : System κ} (h : Inv req s)
    (hk : s.status k = .calling f) (hstage : f.stage = .locking) (hl : s.inner.locked = false) :
    ∃ s', Leads β req s s' ∧ s'.status k = .ended := by
  have hpath : Leads β req s (step req s (.poll k ready)) := leads_step s rfl
  have hinv := hpath.inv h
  rw [step_grant hk hstage hl] at hpath hinv
  obtain ⟨s₁, hpath₁, hrel⟩ := release_sending (β := β) hinv (Function.update_self ..) rfl
  obtain ⟨s₂, hpath₂, hend⟩ := end_released hpath₁ hrel
  exact ⟨s₂, hpath.trans hpath₂, hend⟩

/-- Begun, and its future has not failed. -/
def Begun : CallStatus → Prop
  | .idle => False
  | .failed => False
  | _ => True

theorem call_ends {k : κ} {s : System κ} (h : Inv req s) (hheld : Held s)
    (hk : Begun (s.status k)) : ∃ s', Leads β req s s' ∧ s'.status k = .ended := by
  cases hst : s.status k with
  | idle =>
    rw [hst] at hk
    exact hk.elim
  | failed =>
    rw [hst] at hk
    exact hk.elim
  | ended => exact ⟨s, .refl, hst⟩
  | streaming t =>
    cases t with
    | done =>
      have hpath : Leads β req s (step req s (.poll k ready)) := leads_step s rfl
      rw [step_end hst] at hpath
      exact ⟨_, hpath, Function.update_self ..⟩
    | streaming =>
      obtain ⟨s₁, hpath, hrel⟩ := release_streaming (β := β) h hst
      exact end_released hpath hrel
  | calling f =>
    cases hstage : f.stage with
    | sending =>
      obtain ⟨s₁, hpath, hrel⟩ := release_sending (β := β) h hst hstage
      exact end_released hpath hrel
    | locking =>
      cases hl : s.inner.locked with
      | false => exact end_waiting h hst hstage hl
      | true =>
        -- the owner goes first; it is another call
        obtain ⟨j, hj⟩ := hheld hl
        obtain ⟨s₁, hpath, hrel⟩ := release_owner (β := β) h hj
        have hkj : k ≠ j := by
          rintro rfl
          rw [hst] at hj
          cases hstage.symm.trans hj
        have hk₁ : s₁.status k = .calling f := (hrel.others k hkj).trans hst
        obtain ⟨s₂, hpath₂, hend⟩ := end_waiting (β := β) (hpath.inv h) hk₁ hstage hrel.unlocked
        exact ⟨s₂, hpath.trans hpath₂, hend⟩

/- An ended call is never touched again. -/
theorem step_ended {k : κ} {s : System κ} (hk : s.status k = .ended) (a : Action β κ) :
    (step req s a).status k = .ended := by
  have hkeep : ∀ (j : κ) (st : CallStatus), s.status j ≠ .ended →
      Function.update s.status j st k = .ended := by
    intro j st hj
    have hkj : k ≠ j := by
      rintro rfl
      exact hj hk
    rw [Function.update_of_ne hkj, hk]
  cases a with
  | call j =>
    cases hj : s.status j with
    | idle =>
      simp only [step, hj, ProxyClient.call]
      exact hkeep j _ (by simp [hj])
    | calling f => simpa only [step, hj] using hk
    | streaming t => simpa only [step, hj] using hk
    | ended => simpa only [step, hj] using hk
    | failed => simpa only [step, hj] using hk
  | poll j io =>
    cases hj : s.status j with
    | idle => simpa only [step, hj] using hk
    | calling f =>
      simp only [step, hj]
      exact hkeep j _ (by simp [hj])
    | streaming t =>
      simp only [step, hj]
      exact hkeep j _ (by simp [hj])
    | ended => simpa only [step, hj] using hk
    | failed => simpa only [step, hj] using hk
  | serve =>
    simp only [step]
    split
    · split_ifs <;> exact hk
    · exact hk
  | reply m =>
    simp only [step]
    split
    · exact hk
    · split_ifs <;> exact hk

theorem begun_update {s : System κ} {k : κ} (hk : Begun (s.status k)) (j : κ) {st : CallStatus}
    (hst : Begun st) : Begun (Function.update s.status j st k) := by
  by_cases hkj : k = j
  · subst hkj
    rwa [Function.update_self]
  · rwa [Function.update_of_ne hkj]

/- With the socket ready nothing fails. -/
theorem step_begun {s : System κ} {k : κ} (hk : Begun (s.status k)) {a : Action β κ}
    (ha : a.Helps) : Begun ((step req s a).status k) := by
  cases a with
  | call j => exact ha.elim
  | poll j io =>
    have hio : io = ready := ha
    subst hio
    cases hj : s.status j with
    | idle => simpa only [step, hj] using hk
    | calling f =>
      obtain ⟨request, fireAndForget, stage⟩ := f
      simp only [step, hj]
      apply begun_update hk
      cases stage with
      | locking =>
        by_cases hlock : s.inner.locked = false ∧ (ready : PollIo β).grant = true
        · simp only [ProxyClient.pollCall, if_pos hlock, Begun]
        · simp only [ProxyClient.pollCall, if_neg hlock, Begun]
      | sending => cases fireAndForget <;> trivial
    | streaming t =>
      simp only [step, hj]
      apply begun_update hk
      cases t with
      | done => trivial
      | streaming =>
        cases hf : s.fromServer with
        | nil => trivial
        | cons m rest =>
          cases hm : moreToCome m.operation with
          | true => simp only [ready, ProxyClient.pollNext, hm, if_true, Begun]
          | false =>
            simp only [ready, ProxyClient.pollNext, hm, Bool.false_eq_true, if_false, Begun]
    | ended => simpa only [step, hj] using hk
    | failed => simpa only [step, hj] using hk
  | serve =>
    simp only [step]
    split
    · split_ifs <;> exact hk
    · exact hk
  | reply m =>
    simp only [step]
    split
    · exact hk
    · split_ifs <;> exact hk

theorem Leads.begun {k : κ} {s s' : System κ} (hpath : Leads β req s s') (hk : Begun (s.status k)) :
    Begun (s'.status k) := by
  induction hpath with
  | refl => exact hk
  | tail _ hlast ih =>
    obtain ⟨a, ha, rfl⟩ := hlast
    exact step_begun ih ha

theorem Leads.ended {k : κ} {s s' : System κ} (hpath : Leads β req s s')
    (hk : s.status k = .ended) : s'.status k = .ended := by
  induction hpath with
  | refl => exact hk
  | tail _ hlast ih =>
    obtain ⟨a, -, rfl⟩ := hlast
    exact step_ended ih a

/- One call after the other. -/
theorem calls_end (ks : List κ) {s : System κ} (h : Inv req s) (hheld : Held s) :
    ∃ s', Leads β req s s' ∧ ∀ k ∈ ks, Begun (s.status k) → s'.status k = .ended := by
  induction ks generalizing s with
  | nil => exact ⟨s, .refl, fun k hk => by cases hk⟩
  | cons j ks ih =>
    by_cases hj : Begun (s.status j)
    · obtain ⟨s₁, hpath₁, hend⟩ := call_ends (β := β) h hheld hj
      obtain ⟨s₂, hpath₂, hall⟩ := ih (hpath₁.inv h) (hpath₁.held hheld)
      refine ⟨s₂, hpath₁.trans hpath₂, ?_⟩
      intro k hk hbegun
      rcases List.mem_cons.mp hk with rfl | hk
      · exact hpath₂.ended hend
      · exact hall k hk (hpath₁.begun hbegun)
    · obtain ⟨s₁, hpath₁, hall⟩ := ih h hheld
      refine ⟨s₁, hpath₁, ?_⟩
      intro k hk hbegun
      rcases List.mem_cons.mp hk with rfl | hk
      · exact absurd hbegun hj
      · exact hall k hk hbegun

theorem Leads.actions {s s' : System κ} (hpath : Leads β req s s') :
    ∃ more : List (Action β κ), (∀ a ∈ more, a.Helps) ∧ more.foldl (step req) s = s' := by
  induction hpath with
  | refl => exact ⟨[], by simp, rfl⟩
  | tail _ hlast ih =>
    obtain ⟨a, ha, rfl⟩ := hlast
    obtain ⟨more, hmore, rfl⟩ := ih
    refine ⟨more ++ [a], ?_, by rw [List.foldl_append, List.foldl_cons, List.foldl_nil]⟩
    intro b hb
    rcases List.mem_append.mp hb with hb | hb
    · exact hmore b hb
    · rw [List.mem_singleton.mp hb]
      exact ha

theorem held_run (acts : List (Action β κ)) : Held (run req acts) := by
  unfold run
  suffices hgen : ∀ s, Held s → Held (acts.foldl (step req) s) from
    hgen _ (held_of_unlocked rfl)
  induction acts with
  | nil => exact fun s hs => hs
  | cons a acts ih => exact fun s hs => ih _ (hs.step a)

/-- Whatever the interleaving was: the mutex is locked exactly if a call owns its guard, and then
one call does; and any number of the calls begun can be brought to their end, with the complete
answer to each, by a schedule that begins no other call. -/
theorem no_call_is_stuck (acts : List (Action β κ)) :
    ((run req acts).inner.locked = true ↔ ∃ k, Owning ((run req acts).status k)) ∧
    (∀ j k, Owning ((run req acts).status j) → Owning ((run req acts).status k) → j = k) ∧
    ∀ ks : List κ, ∃ more : List (Action β κ), (∀ a ∈ more, a.Helps) ∧
      ∀ k ∈ ks, Begun ((run req acts).status k) →
        (run req (acts ++ more)).status k = .ended ∧
          Answer (req k) ((run req (acts ++ more)).yielded k) := by
  have h : Inv req (run req acts) := inv_run acts
  refine ⟨⟨held_run acts, ?_⟩, h.unique, ?_⟩
  · rintro ⟨k, hk⟩
    by_contra hl
    exact h.unlocked (by simpa using hl) k hk
  · intro ks
    obtain ⟨s', hpath, hall⟩ := calls_end (β := β) ks h (held_run acts)
    obtain ⟨more, hmore, hrun⟩ := hpath.actions
    have happend : run req (acts ++ more) = s' := by
      rw [← hrun]
      exact List.foldl_append ..
    refine ⟨more, hmore, ?_⟩
    rw [happend]
    intro k hk hbegun
    have hend := hall k hk hbegun
    have hcall := (hpath.inv h).call k
    rw [hend] at hcall
    refine ⟨hend, ?_⟩
    rw [hcall.1]
    exact hcall.2

end Shared

end MongodProxy
