import Mathlib.Logic.Function.Basic
import Mathlib.Tactic.Common

/-!
# Counted loops that may stop

The C code walks over screens, page tables and buffers with `for` loops whose body may
take a fault.  This file gives such a loop a meaning over an arbitrary state type and one
induction rule for it.  Nothing here mentions the kernel.

* `forRange body i n s` runs `body i`, ..., `body (i + n - 1)` in order and stops with
  `none` as soon as one of them does.
* `forRange_invariant` is the loop rule: an invariant indexed by the counter that holds at
  entry and that no iteration breaks holds at exit, and the loop does run to its end.
* `forRange_of_some` is the same rule for a loop that is known to run to its end, and
  `forRange_preserves` its case of a fact that does not depend on the counter.
* `WhileEnds` says that a `while` loop terminates, after how many iterations, and in which state.
-/

namespace JuddOS
namespace Support

variable {σ : Type*}

/-- The loop `for (j = i; j < i + n; j++) body(j)` over a state; `none` stops the loop. -/
def forRange (body : Nat → σ → Option σ) : Nat → Nat → σ → Option σ
  | _, 0, s => some s
  | i, n + 1, s => (body i s).bind (forRange body (i + 1) n)

@[simp] theorem forRange_zero (body : Nat → σ → Option σ) (i : Nat) (s : σ) :
    forRange body i 0 s = some s := rfl

theorem forRange_succ (body : Nat → σ → Option σ) (i n : Nat) (s : σ) :
    forRange body i (n + 1) s = (body i s).bind (forRange body (i + 1) n) := rfl

/-- The last iteration on its own. -/
theorem forRange_snoc (body : Nat → σ → Option σ) (i n : Nat) (s : σ) :
    forRange body i (n + 1) s = (forRange body i n s).bind (body (i + n)) := by
  induction n generalizing i s with
  | zero =>
      rw [forRange_succ, forRange_zero, Option.bind_some]
      exact Option.bind_fun_some _
  | succ n ih =>
      rw [forRange_succ, forRange_succ, Option.bind_assoc]
      refine Option.bind_congr fun s₁ _ => ?_
      rw [ih, Nat.add_assoc, Nat.add_comm 1 n]

/-- **The loop rule.**  `Inv j` is what holds before iteration `j`. -/
theorem forRange_invariant {body : Nat → σ → Option σ} (Inv : Nat → σ → Prop)
    {i n : Nat} {s : σ} (hentry : Inv i s)
    (hbody : ∀ j s, i ≤ j → j < i + n → Inv j s →
      ∃ s', body j s = some s' ∧ Inv (j + 1) s') :
    ∃ s', forRange body i n s = some s' ∧ Inv (i + n) s' := by
  induction n generalizing i s with
  | zero => exact ⟨s, rfl, hentry⟩
  | succ n ih =>
      obtain ⟨s₁, hs₁, hinv₁⟩ := hbody i s (Nat.le_refl i) (by omega) hentry
      obtain ⟨s', hs', hinv'⟩ := ih hinv₁ fun j s hij hjn hinv =>
        hbody j s (by omega) (by omega) hinv
      refine ⟨s', ?_, ?_⟩
      · rw [forRange_succ, hs₁]
        exact hs'
      · rw [show i + (n + 1) = i + 1 + n by omega]
        exact hinv'

/-- **The loop rule for a loop that is known to run to its end.** -/
theorem forRange_of_some {body : Nat → σ → Option σ} (Inv : Nat → σ → Prop) {i n : Nat} {s s' : σ}
    (hentry : Inv i s)
    (hbody : ∀ j s s', i ≤ j → j < i + n → Inv j s → body j s = some s' → Inv (j + 1) s')
    (hrun : forRange body i n s = some s') : Inv (i + n) s' := by
  induction n generalizing i s with
  | zero =>
      cases hrun
      exact hentry
  | succ n ih =>
      rw [forRange_succ, Option.bind_eq_some_iff] at hrun
      obtain ⟨s₁, hs₁, hrest⟩ := hrun
      have hinv := ih (hbody i s s₁ (Nat.le_refl i) (by omega) hentry hs₁)
        (fun j s s' hij hjn => hbody j s s' (by omega) (by omega)) hrest
      rw [show i + (n + 1) = i + 1 + n by omega]
      exact hinv

/-- A fact that no iteration breaks survives a loop that runs to its end. -/
theorem forRange_preserves {body : Nat → σ → Option σ} (P : σ → Prop)
    (hbody : ∀ j s s', P s → body j s = some s' → P s') {i n : Nat} {s s' : σ} (hs : P s)
    (hrun : forRange body i n s = some s') : P s' :=
  forRange_of_some (fun _ => P) hs (fun j s s' _ _ => hbody j s s') hrun

/-- `while (guard) body` is left after a number of iterations, in the state of the last
argument. -/
inductive WhileEnds (guard : σ → Prop) (body : σ → σ) : σ → Nat → σ → Prop
  | leave {s : σ} (hdone : ¬ guard s) : WhileEnds guard body s 0 s
  | again {s s' : σ} {n : Nat} (hgo : guard s) (rest : WhileEnds guard body (body s) n s') :
      WhileEnds guard body s (n + 1) s'

/-- The guard of a loop that has been left is false. -/
theorem WhileEnds.guard_false {guard : σ → Prop} {body : σ → σ} {s s' : σ} {n : Nat}
    (h : WhileEnds guard body s n s') : ¬ guard s' := by
  induction h with
  | leave hdone => exact hdone
  | again _ _ ih => exact ih

end Support
end JuddOS
