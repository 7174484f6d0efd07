import Mathlib.Data.List.Nodup
import Mathlib.Logic.Function.Basic
import Mathlib.Tactic.Common

/-!
# Stacks of distinct elements

Several call stacks over one set of elements, of which one is current: an element can be
pushed on the current stack when it is on none, the current stack can be popped, and another
stack can become the current one.

`Separate` says that no element is on two stacks or twice on one.  Every step keeps it
(`Step.separate`), so the stacks never share an element.
-/

namespace JuddOS
namespace Support

variable {ι α : Type*}

/-- The stacks, top first, and the current one. -/
structure Stacks (ι α : Type*) where
  chain : ι → List α
  current : ι

namespace Stacks

/-- Make another stack the current one. -/
def switch (σ : Stacks ι α) (i : ι) : Stacks ι α := { σ with current := i }

@[simp] theorem switch_current (σ : Stacks ι α) (i : ι) : (σ.switch i).current = i := rfl

@[simp] theorem switch_chain (σ : Stacks ι α) (i : ι) : (σ.switch i).chain = σ.chain := rfl

variable [DecidableEq ι]

/-- Push an element on the current stack. -/
def push (σ : Stacks ι α) (a : α) : Stacks ι α :=
  { σ with chain := Function.update σ.chain σ.current (a :: σ.chain σ.current) }

/-- Pop the current stack. -/
def pop (σ : Stacks ι α) : Stacks ι α :=
  { σ with chain := Function.update σ.chain σ.current (σ.chain σ.current).tail }

@[simp] theorem push_current (σ : Stacks ι α) (a : α) : (σ.push a).current = σ.current := rfl

@[simp] theorem push_chain_self (σ : Stacks ι α) (a : α) :
    (σ.push a).chain σ.current = a :: σ.chain σ.current := by
  simp [push]

theorem push_chain_of_ne (σ : Stacks ι α) (a : α) {i : ι} (h : i ≠ σ.current) :
    (σ.push a).chain i = σ.chain i := by
  simp [push, h]

@[simp] theorem pop_current (σ : Stacks ι α) : σ.pop.current = σ.current := rfl

@[simp] theorem pop_chain_self (σ : Stacks ι α) :
    σ.pop.chain σ.current = (σ.chain σ.current).tail := by
  simp [pop]

theorem pop_chain_of_ne (σ : Stacks ι α) {i : ι} (h : i ≠ σ.current) :
    σ.pop.chain i = σ.chain i := by
  simp [pop, h]

/-- What is on a stack after a push. -/
theorem mem_push {σ : Stacks ι α} {a b : α} {i : ι} (h : b ∈ (σ.push a).chain i) :
    (i = σ.current ∧ b = a) ∨ b ∈ σ.chain i := by
  rcases eq_or_ne i σ.current with rfl | hi
  · rw [push_chain_self, List.mem_cons] at h
    exact h.imp_left fun h => ⟨rfl, h⟩
  · rw [push_chain_of_ne σ a hi] at h
    exact .inr h

theorem mem_pop {σ : Stacks ι α} {b : α} {i : ι} (h : b ∈ σ.pop.chain i) : b ∈ σ.chain i := by
  rcases eq_or_ne i σ.current with rfl | hi
  · rw [pop_chain_self] at h
    exact List.mem_of_mem_tail h
  · rwa [pop_chain_of_ne σ hi] at h

/-- What can be done to the stacks. -/
inductive Op (ι α : Type*)
  | push (a : α)
  | pop
  | switch (i : ι)

/-- The steps: only a new element can be pushed. -/
inductive Step : Stacks ι α → Op ι α → Stacks ι α → Prop
  | push {σ : Stacks ι α} {a : α} (h : ∀ i, a ∉ σ.chain i) : Step σ (.push a) (σ.push a)
  | pop {σ : Stacks ι α} : Step σ .pop σ.pop
  | switch {σ : Stacks ι α} (i : ι) : Step σ (.switch i) (σ.switch i)

/-- No element is on two stacks or twice on one. -/
structure Separate (σ : Stacks ι α) : Prop where
  nodup : ∀ i, (σ.chain i).Nodup
  eq_of_mem : ∀ i j a, a ∈ σ.chain i → a ∈ σ.chain j → i = j

theorem Separate.push {σ : Stacks ι α} {a : α} (hsep : σ.Separate) (hfresh : ∀ i, a ∉ σ.chain i) :
    (σ.push a).Separate where
  nodup i := by
    rcases eq_or_ne i σ.current with rfl | hi
    · rw [push_chain_self]
      exact List.nodup_cons.mpr ⟨hfresh _, hsep.nodup _⟩
    · rw [push_chain_of_ne σ a hi]
      exact hsep.nodup i
  eq_of_mem i j b hbi hbj := by
    rcases mem_push hbi with ⟨rfl, rfl⟩ | hold
    · rcases mem_push hbj with ⟨rfl, -⟩ | hold'
      · rfl
      · exact absurd hold' (hfresh j)
    · rcases mem_push hbj with ⟨rfl, rfl⟩ | hold'
      · exact absurd hold (hfresh i)
      · exact hsep.eq_of_mem i j b hold hold'

theorem Separate.pop {σ : Stacks ι α} (hsep : σ.Separate) : σ.pop.Separate where
  nodup i := by
    rcases eq_or_ne i σ.current with rfl | hi
    · rw [pop_chain_self]
      exact (hsep.nodup _).tail
    · rw [pop_chain_of_ne σ hi]
      exact hsep.nodup i
  eq_of_mem i j b hbi hbj := hsep.eq_of_mem i j b (mem_pop hbi) (mem_pop hbj)

/-- **Every step keeps the stacks separate.** -/
theorem Step.separate {σ σ' : Stacks ι α} {op : Op ι α} (h : Step σ op σ')
    (hsep : σ.Separate) : σ'.Separate := by
  cases h with
  | push hfresh => exact hsep.push hfresh
  | pop => exact hsep.pop
  | switch i => exact ⟨hsep.nodup, hsep.eq_of_mem⟩

end Stacks

end Support
end JuddOS
