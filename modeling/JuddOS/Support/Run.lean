import Mathlib.Logic.Relation
import Mathlib.Tactic.Common

/-!
# Runs of labelled transition systems

A system is a relation `step : σ → ε → σ → Prop` between a state, the event that happens
in it and the state after.  Runs are finite sequences of steps.  The rules below are the
only inductions over runs that the development makes.

* `Run.invariant`: what holds at the start and is kept by every step holds at the end.
* `Run.invariant_of_guard`: the same when the steps of the run all satisfy a guard, for a
  system that is only correct under a condition on its steps.
* `Run.invariant_history`: the same for a relation between the events so far and the state.
* `Run.simulates`: a forward simulation between two systems carries runs over.
* `Run.and_iff`: two conditions on steps that agree under an invariant have the same runs.
-/

namespace JuddOS
namespace Support

variable {σ ε τ δ : Type*}

/-- A finite run from one state to another with the events that happened, oldest first. -/
inductive Run (step : σ → ε → σ → Prop) : σ → List ε → σ → Prop
  | nil (s : σ) : Run step s [] s
  | snoc {s s₁ s₂ : σ} {es : List ε} {e : ε} (before : Run step s es s₁)
      (last : step s₁ e s₂) : Run step s (es ++ [e]) s₂

namespace Run

variable {step : σ → ε → σ → Prop}

theorem single {s s' : σ} {e : ε} (h : step s e s') : Run step s [e] s' :=
  .snoc (.nil s) h

/-- A run of one event is one step. -/
theorem of_single {s s' : σ} {e : ε} (h : Run step s [e] s') : step s e s' := by
  generalize hes : [e] = es at h
  cases h with
  | nil => cases hes
  | snoc before last =>
      cases before with
      | nil =>
          cases hes
          exact last
      | snoc _ _ =>
          have hlen := congrArg List.length hes
          simp at hlen

/-- The last step of a run. -/
theorem of_concat {s s' : σ} {es : List ε} {e : ε} (h : Run step s (es ++ [e]) s') :
    ∃ s₁, Run step s es s₁ ∧ step s₁ e s' := by
  generalize hes : es ++ [e] = es' at h
  cases h with
  | nil => exact absurd hes (by simp)
  | snoc before last =>
      obtain ⟨rfl, heq⟩ := List.append_inj' hes rfl
      cases heq
      exact ⟨_, before, last⟩

theorem append {s s₁ s₂ : σ} {es es' : List ε} (h : Run step s es s₁)
    (h' : Run step s₁ es' s₂) : Run step s (es ++ es') s₂ := by
  induction h' with
  | nil => simpa using h
  | snoc _ last ih =>
      rw [← List.append_assoc]
      exact .snoc ih last

/-- **Invariant rule.** -/
theorem invariant {s s' : σ} {es : List ε} (P : σ → Prop) (hrun : Run step s es s')
    (hstart : P s) (hstep : ∀ a e b, P a → step a e b → P b) : P s' := by
  induction hrun with
  | nil => exact hstart
  | snoc _ last ih => exact hstep _ _ _ ih last

/-- **Invariant rule under a guard.**  Every step of the run is known to satisfy `G`. -/
theorem invariant_of_guard {G : σ → ε → Prop} {s s' : σ} {es : List ε} (P : σ → Prop)
    (hrun : Run (fun a e b => step a e b ∧ G a e) s es s') (hstart : P s)
    (hstep : ∀ a e b, P a → G a e → step a e b → P b) : P s' :=
  hrun.invariant P hstart fun a e b ha h => hstep a e b ha h.2 h.1

/-- **Invariant rule with the events so far.** -/
theorem invariant_history {s s' : σ} {es : List ε} (P : List ε → σ → Prop)
    (hrun : Run step s es s') (hstart : P [] s)
    (hstep : ∀ es a e b, P es a → step a e b → P (es ++ [e]) b) : P es s' := by
  induction hrun with
  | nil => exact hstart
  | snoc _ last ih => exact hstep _ _ _ _ ih last

/-- **Forward simulation.**  `R` relates the two start states, and every step of the first
system from related states is matched by a run of the second one. -/
theorem simulates {step' : τ → δ → τ → Prop} (R : σ → τ → Prop) {s s' : σ} {t : τ}
    {es : List ε} (hrun : Run step s es s') (hstart : R s t)
    (hstep : ∀ a e b x, R a x → step a e b → ∃ ds y, Run step' x ds y ∧ R b y) :
    ∃ ds t', Run step' t ds t' ∧ R s' t' := by
  induction hrun with
  | nil => exact ⟨[], t, .nil t, hstart⟩
  | snoc _ last ih =>
      obtain ⟨ds, x, hx, hR⟩ := ih
      obtain ⟨ds', y, hy, hR'⟩ := hstep _ _ _ x hR last
      exact ⟨ds ++ ds', y, hx.append hy, hR'⟩

/-- The same steps are a run of any system that has them. -/
theorem mono {step' : σ → ε → σ → Prop} {s s' : σ} {es : List ε} (hrun : Run step s es s')
    (himp : ∀ a e b, step a e b → step' a e b) : Run step' s es s' := by
  induction hrun with
  | nil => exact .nil _
  | snoc _ last ih => exact .snoc ih (himp _ _ _ last)

/-- The steps of a run meet a second condition, by an invariant. -/
theorem and_imp {P Q : σ → ε → σ → Prop} {s s' : σ} {es : List ε} (I : σ → Prop) (hstart : I s)
    (hrun : Run (fun a e b => step a e b ∧ P a e b) s es s')
    (himp : ∀ a e b, I a → step a e b → P a e b → Q a e b ∧ I b) :
    Run (fun a e b => step a e b ∧ Q a e b) s es s' := by
  have hboth : Run (fun a e b => step a e b ∧ Q a e b) s es s' ∧ I s' := by
    induction hrun with
    | nil => exact ⟨.nil _, hstart⟩
    | snoc _ last ih =>
        obtain ⟨hbefore, hI⟩ := ih
        obtain ⟨hQ, hI'⟩ := himp _ _ _ hI last.1 last.2
        exact ⟨.snoc hbefore ⟨last.1, hQ⟩, hI'⟩
  exact hboth.1

/-- **Two conditions on the steps of a run.**  When they agree on every step from a state with the
invariant, and such a step keeps the invariant, the runs whose steps meet one are those whose steps
meet the other. -/
theorem and_iff {P Q : σ → ε → σ → Prop} {s s' : σ} {es : List ε} (I : σ → Prop) (hstart : I s)
    (hiff : ∀ a e b, I a → step a e b → (P a e b ↔ Q a e b))
    (hkeep : ∀ a e b, I a → step a e b → P a e b → I b) :
    Run (fun a e b => step a e b ∧ P a e b) s es s' ↔
      Run (fun a e b => step a e b ∧ Q a e b) s es s' :=
  ⟨fun hrun => hrun.and_imp I hstart fun a e b ha hstep hP =>
      ⟨(hiff a e b ha hstep).mp hP, hkeep a e b ha hstep hP⟩,
    fun hrun => hrun.and_imp I hstart fun a e b ha hstep hQ =>
      ⟨(hiff a e b ha hstep).mpr hQ, hkeep a e b ha hstep ((hiff a e b ha hstep).mpr hQ)⟩⟩

end Run

end Support
end JuddOS
