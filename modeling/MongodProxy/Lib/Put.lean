import Mathlib.Tactic.Common
import MongodProxy.Lib.LittleEndian

/-!
# Writing into a buffer

A writer appends to a byte buffer and may fail; the buffer it leaves behind is
part of its result in both cases. `put` is the only primitive that touches the
buffer.
-/

/-- A computation that writes into a byte buffer. -/
abbrev Put (ε α : Type) := ExceptT ε (StateM Bytes) α

namespace Put

variable {ε ε' α β : Type}

/-- Run on a buffer: the outcome and the buffer afterwards. -/
def exec (x : Put ε α) (dst : Bytes) : Except ε α × Bytes := (ExceptT.run x).run dst

def put (bs : Bytes) : Put ε Unit := modify fun dst => dst ++ bs

/-- A step that does not touch the buffer. -/
def lift (x : Except ε α) : Put ε α :=
  match x with
  | .ok a => pure a
  | .error e => throw e

/-- The conversion of the error that `?` makes. -/
def mapErr (f : ε → ε') (x : Put ε Unit) : Put ε' Unit := x.adapt f

@[simp] theorem exec_put (bs dst : Bytes) : (put bs : Put ε Unit).exec dst = (.ok (), dst ++ bs) :=
  rfl

@[simp] theorem exec_lift (x : Except ε α) (dst : Bytes) : (lift x).exec dst = (x, dst) := by
  cases x <;> rfl

theorem exec_bind (x : Put ε α) (f : α → Put ε β) (dst : Bytes) :
    (x >>= f).exec dst =
      match x.exec dst with
      | (.ok a, dst') => (f a).exec dst'
      | (.error e, dst') => (.error e, dst') := by
  simp only [exec, ExceptT.run_bind, StateT.run_bind]
  show (match (ExceptT.run x).run dst with | (r, s) => _) = _
  rcases (ExceptT.run x).run dst with ⟨r, s⟩
  cases r <;> rfl

theorem exec_mapErr (f : ε → ε') (x : Put ε Unit) (dst : Bytes) :
    (x.mapErr f).exec dst = ((x.exec dst).1.mapError f, (x.exec dst).2) := by
  rfl

/-- `x` appends the frame `frame` computes, or fails and leaves the buffer as it was. -/
def Appends (x : Put ε Unit) (frame : Except ε Bytes) : Prop :=
  ∀ dst, x.exec dst =
    match frame with
    | .ok f => (.ok (), dst ++ f)
    | .error e => (.error e, dst)

theorem Appends.lift_bind {x : Except ε α} {g : α → Put ε Unit} {frame : α → Except ε Bytes}
    (h : ∀ a, (g a).Appends (frame a)) : (Put.lift x >>= g).Appends (x >>= frame) := by
  intro dst
  rw [exec_bind, exec_lift]
  cases x with
  | ok a => exact h a dst
  | error e => rfl

theorem Appends.mapErr {x : Put ε Unit} {frame : Except ε Bytes} (f : ε → ε')
    (h : x.Appends frame) : (x.mapErr f).Appends (frame.mapError f) := by
  intro dst
  rw [exec_mapErr, h dst]
  cases frame <;> rfl

end Put
