import Mathlib.Logic.Nontrivial.Basic
import Mathlib.Tactic.Common

/-!
# What an output tells about a secret

A two-run property: `view` is what may be known of a value and `out` what is shown of it.
A value is hidden if all values with its view are shown alike. It is revealed if some of
them, one for each of a family of secrets, are all shown differently.
-/

namespace Secrecy

open Function

variable {α γ τ ρ β δ σ : Type}

def Hides (view : α → β) (out : α → τ) (x : α) : Prop :=
  ∀ y, view y = view x → out y = out x

def Reveals (σ : Type) (view : α → β) (out : α → τ) (x : α) : Prop :=
  ∃ g : σ → α, (∀ s, view (g s) = view x) ∧ Injective fun s => out (g s)

theorem Reveals.not_hides [Nontrivial σ] {view : α → β} {out : α → τ} {x : α}
    (h : Reveals σ view out x) : ¬ Hides view out x := by
  intro hhides
  obtain ⟨g, hview, hshown⟩ := h
  obtain ⟨s, t, hne⟩ := exists_pair_ne σ
  have halike : out (g s) = out (g t) := (hhides _ (hview s)).trans (hhides _ (hview t)).symm
  exact hne (hshown halike)

/-- What is revealed inside a larger value is revealed by it, if the larger one shows it. -/
theorem Reveals.lift {view : α → β} {out : α → τ} {x : α} (h : Reveals σ view out x)
    {view' : γ → δ} {out' : γ → ρ} (inside : α → γ) {shown : τ → ρ}
    (hview : ∀ y, view y = view x → view' (inside y) = view' (inside x))
    (hout : ∀ y, view y = view x → out' (inside y) = shown (out y)) (hshown : Injective shown) :
    Reveals σ view' out' (inside x) := by
  obtain ⟨g, hg, hinj⟩ := h
  refine ⟨fun s => inside (g s), fun s => hview _ (hg s), ?_⟩
  intro s t h
  have hs := hout _ (hg s)
  have ht := hout _ (hg t)
  exact hinj (hshown (hs.symm.trans (h.trans ht)))

/-- The view is itself a value, and what does not leak is shown as its view is. -/
structure Masked (view : α → α) (out : α → τ) (leak : α → Bool) : Prop where
  leak_view : ∀ x, leak (view x) = leak x
  out_view : ∀ x, leak x = false → out (view x) = out x

theorem Masked.hides {view : α → α} {out : α → τ} {leak : α → Bool} (h : Masked view out leak)
    {x : α} (hx : leak x = false) : Hides view out x := by
  intro y hy
  have hclean : leak y = false := by
    rw [← h.leak_view y, hy, h.leak_view x]
    exact hx
  rw [← h.out_view y hclean, hy, h.out_view x hx]

/-- What leaks is revealed. -/
structure Exact (σ : Type) (view : α → α) (out : α → τ) (leak : α → Bool) : Prop
    extends Masked view out leak where
  reveals : ∀ x, leak x = true → Reveals σ view out x

theorem Exact.hides_iff [Nontrivial σ] {view : α → α} {out : α → τ} {leak : α → Bool}
    (h : Exact σ view out leak) (x : α) : Hides view out x ↔ leak x = false := by
  constructor
  · intro hhides
    by_contra hx
    exact (h.reveals x (by simpa using hx)).not_hides hhides
  · exact h.hides

end Secrecy
