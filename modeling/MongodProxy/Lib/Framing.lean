import Mathlib.Tactic.Common

/-!
# Frames in a stream that arrives in chunks

A framer looks at the front of a stream and says whether to wait for more, to
give up, or where the first frame ends. Its answers, once given, do not depend
on what arrives later; that is all a decoder needs for its results to be the
same however the stream is cut up.
-/

namespace Framing

variable {α μ ε δ : Type}

inductive Cut (μ ε : Type) where
  | wait
  | reject (e : ε)
  | frame (n : ℕ) (r : Except ε μ)

structure Framer (α μ ε : Type) where
  cut : List α → Cut μ ε
  reject_append : ∀ bs t e, cut bs = .reject e → cut (bs ++ t) = .reject e
  frame_append : ∀ bs t n r, cut bs = .frame n r → cut (bs ++ t) = .frame n r
  frame_pos : ∀ bs n r, cut bs = .frame n r → 0 < n
  frame_le : ∀ bs n r, cut bs = .frame n r → n ≤ bs.length

/-! ### The stream as a whole -/

/- The items, the error the scan stopped with, if any, and what is not consumed. -/
structure Scan (α μ ε : Type) where
  items : List μ
  stop : Option ε
  rest : List α

def Scan.cons (x : μ) (s : Scan α μ ε) : Scan α μ ε := ⟨x :: s.items, s.stop, s.rest⟩

namespace Framer

variable (F : Framer α μ ε)

/-- Frame after frame from the front, up to the first error. A rejection consumes
nothing; a frame that does not parse is consumed. -/
def scan (bs : List α) : Scan α μ ε :=
  match _h : F.cut bs with
  | .wait => ⟨[], none, bs⟩
  | .reject e => ⟨[], some e, bs⟩
  | .frame n (.error e) => ⟨[], some e, bs.drop n⟩
  | .frame n (.ok x) => (scan (bs.drop n)).cons x
termination_by bs.length
decreasing_by
  have hpos := F.frame_pos _ _ _ _h
  have hle := F.frame_le _ _ _ _h
  rw [List.length_drop]
  omega

theorem scan_wait {bs : List α} (h : F.cut bs = .wait) : F.scan bs = ⟨[], none, bs⟩ := by
  rw [scan]
  split <;> simp_all

theorem scan_reject {bs : List α} {e : ε} (h : F.cut bs = .reject e) :
    F.scan bs = ⟨[], some e, bs⟩ := by
  rw [scan]
  split <;> simp_all

theorem scan_frame_error {bs : List α} {n : ℕ} {e : ε} (h : F.cut bs = .frame n (.error e)) :
    F.scan bs = ⟨[], some e, bs.drop n⟩ := by
  rw [scan]
  split <;> simp_all

theorem scan_frame_ok {bs : List α} {n : ℕ} {x : μ} (h : F.cut bs = .frame n (.ok x)) :
    F.scan bs = (F.scan (bs.drop n)).cons x := by
  rw [scan]
  split <;> simp_all

/-- Where a scan stops with an error: at a rejection, with nothing consumed, or right after
the frame that does not parse. -/
theorem scan_stop {bs : List α} {e : ε} (h : (F.scan bs).stop = some e) :
    ∃ done tail, bs = done ++ tail ∧ ((F.cut tail = .reject e ∧ (F.scan bs).rest = tail) ∨
      ∃ n, F.cut tail = .frame n (.error e) ∧ (F.scan bs).rest = tail.drop n) := by
  induction hk : bs.length using Nat.strongRecOn generalizing bs with
  | _ k ih =>
    cases hc : F.cut bs with
    | wait =>
      rw [F.scan_wait hc] at h
      cases h
    | reject e' =>
      rw [F.scan_reject hc] at h ⊢
      cases h
      exact ⟨[], bs, rfl, Or.inl ⟨hc, rfl⟩⟩
    | frame n res =>
      have hpos := F.frame_pos _ _ _ hc
      have hle := F.frame_le _ _ _ hc
      cases res with
      | error e' =>
        rw [F.scan_frame_error hc] at h ⊢
        cases h
        exact ⟨[], bs, rfl, Or.inr ⟨n, hc, rfl⟩⟩
      | ok x =>
        rw [F.scan_frame_ok hc] at h ⊢
        have hlen : (bs.drop n).length < k := by
          rw [List.length_drop]
          omega
        obtain ⟨done, tail, hsplit, hend⟩ := ih _ hlen h rfl
        refine ⟨bs.take n ++ done, tail, ?_, hend⟩
        rw [List.append_assoc, ← hsplit, List.take_append_drop]

end Framer

/-! ### The stream in chunks -/

/- One call of a decoder: its answer, its state and the buffer afterwards. -/
abbrev Decode (δ α μ ε : Type) := δ → List α → Except ε (Option μ) × δ × List α

structure Fed (δ α μ ε : Type) where
  items : List μ
  stop : Option ε
  decoder : δ
  buf : List α
  unfed : List (List α)

/- Calls `decode` until it asks for more or fails; `none` when `fuel` calls do not get there. -/
def drainWithin (decode : Decode δ α μ ε) : ℕ → δ → List α → Option (Fed δ α μ ε)
  | 0, _, _ => none
  | fuel + 1, d, buf =>
    match decode d buf with
    | (.ok none, d', buf') => some ⟨[], none, d', buf', []⟩
    | (.error e, d', buf') => some ⟨[], some e, d', buf', []⟩
    | (.ok (some x), d', buf') =>
      (drainWithin decode fuel d' buf').map fun r => { r with items := x :: r.items }

/-- Appends chunk after chunk to the buffer and drains it, up to the first error. -/
def feed (decode : Decode δ α μ ε) : δ → List α → List (List α) → Option (Fed δ α μ ε)
  | d, buf, [] => some ⟨[], none, d, buf, []⟩
  | d, buf, chunk :: chunks => do
    let r ← drainWithin decode ((buf ++ chunk).length + 1) d (buf ++ chunk)
    match r.stop with
    | some _ => pure { r with unfed := chunks }
    | none =>
      let r' ← feed decode r.decoder r.buf chunks
      pure { r' with items := r.items ++ r'.items }

/-- `decode` gives the framer's answers whenever its state fits the buffer, as `inv` says.
After a frame it is back in the state `fresh`. -/
structure Implements (F : Framer α μ ε) (decode : Decode δ α μ ε) (inv : δ → List α → Prop)
    (fresh : δ) : Prop where
  fresh_inv : ∀ buf, inv fresh buf
  append_inv : ∀ d buf t, inv d buf → inv d (buf ++ t)
  wait : ∀ d buf, inv d buf → F.cut buf = .wait →
    ∃ d', decode d buf = (.ok none, d', buf) ∧ inv d' buf
  reject : ∀ d buf e, inv d buf → F.cut buf = .reject e →
    ∃ d', decode d buf = (.error e, d', buf)
  frame : ∀ d buf n r, inv d buf → F.cut buf = .frame n r →
    decode d buf = (r.map some, fresh, buf.drop n)

section
variable {F : Framer α μ ε} {decode : Decode δ α μ ε} {inv : δ → List α → Prop} {fresh : δ}

/- What draining leaves behind. -/
structure Drained (F : Framer α μ ε) (inv : δ → List α → Prop) (fresh : δ) (bs : List α)
    (r : Fed δ α μ ε) : Prop where
  items : r.items = (F.scan bs).items
  stop : r.stop = (F.scan bs).stop
  buf : r.buf = (F.scan bs).rest
  quiet : r.stop = none → F.cut r.buf = .wait ∧ inv r.decoder r.buf
  failed : ∀ e, r.stop = some e → r.decoder = fresh ∨ F.cut r.buf = .reject e

theorem drainWithin_scan (h : Implements F decode inv fresh) (fuel : ℕ) (d : δ) (buf : List α)
    (hinv : inv d buf) (hf : buf.length < fuel) :
    ∃ r, drainWithin decode fuel d buf = some r ∧ Drained F inv fresh buf r := by
  induction fuel generalizing d buf with
  | zero => omega
  | succ fuel ih =>
    unfold drainWithin
    cases hc : F.cut buf with
    | wait =>
      obtain ⟨d', hd, hinv'⟩ := h.wait d buf hinv hc
      rw [hd]
      refine ⟨_, rfl, ?_⟩
      constructor
      · rw [F.scan_wait hc]
      · rw [F.scan_wait hc]
      · rw [F.scan_wait hc]
      · exact fun _ => ⟨hc, hinv'⟩
      · exact fun e he => by cases he
    | reject e =>
      obtain ⟨d', hd⟩ := h.reject d buf e hinv hc
      rw [hd]
      refine ⟨_, rfl, ?_⟩
      constructor
      · rw [F.scan_reject hc]
      · rw [F.scan_reject hc]
      · rw [F.scan_reject hc]
      · exact fun hn => by cases hn
      · intro e' he
        rw [← Option.some.inj he]
        exact Or.inr hc
    | frame n res =>
      have hd := h.frame d buf n res hinv hc
      rw [hd]
      cases res with
      | error e =>
        refine ⟨_, rfl, ?_⟩
        constructor
        · rw [F.scan_frame_error hc]
        · rw [F.scan_frame_error hc]
        · rw [F.scan_frame_error hc]
        · exact fun hn => by cases hn
        · exact fun _ _ => Or.inl rfl
      | ok x =>
        have hpos := F.frame_pos _ _ _ hc
        have hle := F.frame_le _ _ _ hc
        obtain ⟨r, hr, hscan⟩ := ih fresh (buf.drop n) (h.fresh_inv _) (by
          rw [List.length_drop]
          omega)
        simp only [Except.map, hr, Option.map_some]
        refine ⟨_, rfl, ?_⟩
        have heq := F.scan_frame_ok hc
        constructor
        · rw [heq, hscan.items]
          rfl
        · rw [heq, hscan.stop]
          rfl
        · rw [heq, hscan.buf]
          rfl
        · exact hscan.quiet
        · exact hscan.failed

/-! A scan of `a` is where a scan of `a ++ b` has got to when only `a` has arrived. -/

theorem scan_append_stop (F : Framer α μ ε) (a b : List α) (e : ε)
    (h : (F.scan a).stop = some e) :
    F.scan (a ++ b) = ⟨(F.scan a).items, some e, (F.scan a).rest ++ b⟩ := by
  induction hk : a.length using Nat.strongRecOn generalizing a with
  | _ k ih =>
    cases hc : F.cut a with
    | wait =>
      rw [F.scan_wait hc] at h
      cases h
    | reject e' =>
      rw [F.scan_reject hc] at h ⊢
      rw [F.scan_reject (F.reject_append a b e' hc)]
      simp only at h ⊢
      rw [h]
    | frame n res =>
      have hpos := F.frame_pos _ _ _ hc
      have hle := F.frame_le _ _ _ hc
      have hcb := F.frame_append a b n res hc
      have hdrop : (a ++ b).drop n = a.drop n ++ b := List.drop_append_of_le_length hle
      cases res with
      | error e' =>
        rw [F.scan_frame_error hc] at h ⊢
        rw [F.scan_frame_error hcb, hdrop]
        simp only at h ⊢
        rw [h]
      | ok x =>
        rw [F.scan_frame_ok hc] at h ⊢
        have hlen : (a.drop n).length < k := by
          rw [List.length_drop]
          omega
        rw [F.scan_frame_ok hcb, hdrop, ih _ hlen (a.drop n) h rfl]
        rfl

theorem scan_append_quiet (F : Framer α μ ε) (a b : List α) (h : (F.scan a).stop = none) :
    F.scan (a ++ b)
      = ⟨(F.scan a).items ++ (F.scan ((F.scan a).rest ++ b)).items,
          (F.scan ((F.scan a).rest ++ b)).stop, (F.scan ((F.scan a).rest ++ b)).rest⟩ := by
  induction hk : a.length using Nat.strongRecOn generalizing a with
  | _ k ih =>
    cases hc : F.cut a with
    | wait =>
      rw [F.scan_wait hc]
      rfl
    | reject e' =>
      rw [F.scan_reject hc] at h
      cases h
    | frame n res =>
      have hpos := F.frame_pos _ _ _ hc
      have hle := F.frame_le _ _ _ hc
      have hcb := F.frame_append a b n res hc
      have hdrop : (a ++ b).drop n = a.drop n ++ b := List.drop_append_of_le_length hle
      cases res with
      | error e' =>
        rw [F.scan_frame_error hc] at h
        cases h
      | ok x =>
        rw [F.scan_frame_ok hc] at h ⊢
        have hlen : (a.drop n).length < k := by
          rw [List.length_drop]
          omega
        rw [F.scan_frame_ok hcb, hdrop, ih _ hlen (a.drop n) h rfl]
        rfl

/- What feeding chunks leaves behind, compared with the scan of the whole. -/
structure Agrees (F : Framer α μ ε) (fresh : δ) (bs : List α) (r : Fed δ α μ ε) : Prop where
  items : r.items = (F.scan bs).items
  stop : r.stop = (F.scan bs).stop
  rest : r.buf ++ r.unfed.flatten = (F.scan bs).rest
  fed : r.stop = none → r.unfed = []
  failed : ∀ e, r.stop = some e → r.decoder = fresh ∨ F.cut r.buf = .reject e

/-- Feeding the chunks gives what scanning their concatenation gives. -/
theorem feed_scan (h : Implements F decode inv fresh) (chunks : List (List α)) (d : δ)
    (buf : List α) (hinv : inv d buf) (hq : chunks = [] → F.cut buf = .wait) :
    ∃ r, feed decode d buf chunks = some r ∧ Agrees F fresh (buf ++ chunks.flatten) r := by
  induction chunks generalizing d buf with
  | nil =>
    refine ⟨_, rfl, ?_⟩
    have hs := F.scan_wait (hq rfl)
    rw [List.flatten_nil, List.append_nil]
    constructor
    · rw [hs]
    · rw [hs]
    · rw [hs]
      exact List.append_nil buf
    · exact fun _ => rfl
    · exact fun e he => by cases he
  | cons chunk chunks ih =>
    obtain ⟨r, hr, hd⟩ := drainWithin_scan h ((buf ++ chunk).length + 1) d (buf ++ chunk)
      (h.append_inv d buf chunk hinv) (Nat.lt_succ_self _)
    have hflat : buf ++ (chunk :: chunks).flatten = (buf ++ chunk) ++ chunks.flatten := by
      rw [List.flatten_cons, List.append_assoc]
    rw [hflat]
    simp only [feed, hr, Option.bind_eq_bind, Option.bind_some]
    cases hstop : r.stop with
    | some e =>
      refine ⟨_, rfl, ?_⟩
      have hscan := scan_append_stop F (buf ++ chunk) chunks.flatten e (hd.stop ▸ hstop)
      constructor
      · rw [hscan, hd.items]
      · rw [hscan]
      · rw [hscan, hd.buf]
      · exact fun hn => by cases hn
      · exact fun e' he => hd.failed e' (hstop.trans he)
    | none =>
      obtain ⟨hwait, hinv'⟩ := hd.quiet hstop
      obtain ⟨r', hr', ha⟩ := ih r.decoder r.buf hinv' (fun _ => hwait)
      have hscan := scan_append_quiet F (buf ++ chunk) chunks.flatten (hd.stop ▸ hstop)
      simp only [hr', Option.bind_some]
      refine ⟨_, rfl, ?_⟩
      rw [hd.buf] at ha
      constructor
      · rw [hscan, hd.items, ha.items]
      · rw [hscan]
        exact ha.stop
      · rw [hscan]
        exact ha.rest
      · exact ha.fed
      · exact ha.failed

end

end Framing
