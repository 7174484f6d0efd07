import JuddOS.Support.Run
import JuddOS.Support.Stacks

/-!
# Call stacks

`Stacks` as the call stacks of several threads, of which one is scheduled.  The scheduled thread can
call, and return unless it is at the bottom of its stack; another thread can be resumed, or started
when its stack is empty.

* `CallStep.bottom`: the bottom of a stack never changes.
* `CallStep.below`: what is under an element stays there as long as the element does.
-/

namespace JuddOS
namespace Support

namespace Stacks

variable {ι α : Type*}

/-- What threads do. -/
inductive Call (ι α : Type*)
  | call (a : α)
  | ret
  | resume (i : ι)
  | start (i : ι) (a : α)

/-- The stack that is scheduled, when the step schedules another one. -/
def Call.target : Call ι α → Option ι
  | .call _ | .ret => none
  | .resume i | .start i _ => some i

theorem eq_of_chain {σ τ : Stacks ι α} (hchain : ∀ i, σ.chain i = τ.chain i)
    (hcurrent : σ.current = τ.current) : σ = τ := by
  obtain ⟨chain, current⟩ := σ
  obtain rfl : chain = τ.chain := funext hchain
  obtain rfl : current = τ.current := hcurrent
  rfl

variable [DecidableEq ι]

/-- The steps. -/
inductive CallStep : Stacks ι α → Call ι α → Stacks ι α → Prop
  | call {σ : Stacks ι α} {a : α} (hrunning : σ.chain σ.current ≠ [])
      (hfresh : ∀ i, a ∉ σ.chain i) : CallStep σ (.call a) (σ.push a)
  | ret {σ : Stacks ι α} {a b : α} {rest : List α} (hcaller : σ.chain σ.current = a :: b :: rest) :
      CallStep σ .ret σ.pop
  | resume {σ : Stacks ι α} {i : ι} (hwaits : σ.chain i ≠ []) :
      CallStep σ (.resume i) (σ.switch i)
  | start {σ : Stacks ι α} {i : ι} {a : α} (hempty : σ.chain i = [])
      (hfresh : ∀ j, a ∉ σ.chain j) : CallStep σ (.start i a) ((σ.switch i).push a)

/-- The runs. -/
abbrev CallSteps : Stacks ι α → List (Call ι α) → Stacks ι α → Prop := Run CallStep

section Step

variable {σ σ' : Stacks ι α} {c : Call ι α}

theorem CallStep.separate (h : CallStep σ c σ') (hsep : σ.Separate) : σ'.Separate := by
  cases h with
  | call _ hfresh => exact hsep.push hfresh
  | ret => exact hsep.pop
  | resume => exact ⟨hsep.nodup, hsep.eq_of_mem⟩
  | start _ hfresh => exact Separate.push ⟨hsep.nodup, hsep.eq_of_mem⟩ hfresh

omit [DecidableEq ι] in
/-- What is under an element is on top of no stack. -/
theorem Separate.below_not_top (hsep : σ.Separate) {i j : ι} {a b : α} {below rest : List α}
    (hin : a :: below <:+ σ.chain i) (hb : b ∈ below) : σ.chain j ≠ b :: rest := by
  intro htop
  have hmem : b ∈ σ.chain i := hin.subset (List.mem_cons_of_mem a hb)
  have hmem' : b ∈ σ.chain j := htop ▸ List.mem_cons_self ..
  obtain rfl := hsep.eq_of_mem i j b hmem hmem'
  have hnodup := hsep.nodup i
  have hnodup' := hin.sublist.nodup hnodup
  rw [htop] at hin hnodup
  rcases List.suffix_cons_iff.mp hin with heq | hunder
  · obtain ⟨rfl, -⟩ := List.cons.inj heq
    exact (List.nodup_cons.mp hnodup').1 hb
  · exact (List.nodup_cons.mp hnodup).1 (hunder.subset (List.mem_cons_of_mem a hb))

/-- Two suffixes with the same second element. -/
theorem head_eq_of_suffix {a a' b : α} {rest rest' : List α} (hnodup : (b :: rest').Nodup)
    (h : a :: b :: rest <:+ a' :: b :: rest') : a = a' := by
  have hb := (List.nodup_cons.mp hnodup).1
  rcases List.suffix_cons_iff.mp h with heq | hunder
  · exact (List.cons.inj heq).1
  · have hmem : ∀ l, l <:+ rest' → b ∉ l := fun l hl hbl => hb (hl.subset hbl)
    rcases List.suffix_cons_iff.mp hunder with heq | hunder
    · obtain ⟨-, heq⟩ := List.cons.inj heq
      exact absurd (List.mem_cons_self ..) (hmem (b :: rest) (heq ▸ List.suffix_rfl))
    · exact absurd (List.mem_cons_of_mem a (List.mem_cons_self ..)) (hmem _ hunder)

omit [DecidableEq ι] in
/-- An element has one element on top of it at most. -/
theorem Separate.caller_unique (hsep : σ.Separate) {i j : ι} {a a' b : α} {rest rest' : List α}
    (h : a :: b :: rest <:+ σ.chain i) (h' : a' :: b :: rest' <:+ σ.chain j) : a = a' := by
  have hmem : ∀ {c : α} {r : List α} {t : ι}, c :: b :: r <:+ σ.chain t → b ∈ σ.chain t :=
    fun hin => hin.subset (List.mem_cons_of_mem _ (List.mem_cons_self ..))
  obtain rfl := hsep.eq_of_mem i j b (hmem h) (hmem h')
  have hnodup : ∀ {c : α} {r : List α}, c :: b :: r <:+ σ.chain i → (b :: r).Nodup :=
    fun hin => (List.nodup_cons.mp (hin.sublist.nodup (hsep.nodup i))).2
  rcases List.suffix_or_suffix_of_suffix h h' with hle | hle
  · exact head_eq_of_suffix (hnodup h') hle
  · exact (head_eq_of_suffix (hnodup h) hle).symm

/-- A stack grows by one element. -/
theorem suffix_push (σ : Stacks ι α) (a : α) (i : ι) : σ.chain i <:+ (σ.push a).chain i := by
  by_cases hi : i = σ.current
  · subst hi
    rw [push_chain_self]
    exact List.suffix_cons ..
  · exact (push_chain_of_ne σ a hi).symm ▸ List.suffix_rfl

/-- **What is under an element** stays there as long as the element does. -/
theorem CallStep.below (h : CallStep σ c σ') (hsep : σ.Separate) {i : ι} {a : α} {rest : List α}
    (hin : a :: rest <:+ σ.chain i) (hstay : a ∈ σ'.chain i) : a :: rest <:+ σ'.chain i := by
  cases h with
  | call => exact hin.trans (suffix_push σ _ i)
  | resume => exact hin
  | @start j b => exact hin.trans (suffix_push (σ.switch j) b i)
  | @ret b c below hcaller =>
      by_cases hi : i = σ.current
      · subst hi
        have hnodup := hsep.nodup σ.current
        rw [pop_chain_self, hcaller, List.tail_cons] at hstay ⊢
        rw [hcaller] at hin hnodup
        -- the element is not the one that is popped
        refine (List.suffix_cons_iff.mp hin).resolve_left fun heq => ?_
        obtain ⟨rfl, -⟩ := List.cons.inj heq
        exact (List.nodup_cons.mp hnodup).1 hstay
      · rwa [pop_chain_of_ne σ hi]

/-- **The bottom of a stack** never changes. -/
theorem CallStep.bottom (h : CallStep σ c σ') {i : ι} {a : α} (hlast : [a] <:+ σ.chain i) :
    [a] <:+ σ'.chain i := by
  cases h with
  | call => exact hlast.trans (suffix_push σ _ i)
  | resume => exact hlast
  | @start j b => exact hlast.trans (suffix_push (σ.switch j) b i)
  | @ret b c below hcaller =>
      by_cases hi : i = σ.current
      · subst hi
        rw [pop_chain_self, hcaller, List.tail_cons]
        rw [hcaller] at hlast
        refine (List.suffix_cons_iff.mp hlast).resolve_left fun heq => ?_
        cases heq
      · rwa [pop_chain_of_ne σ hi]

/-- The thread that is scheduled has something to run. -/
theorem CallStep.running (h : CallStep σ c σ') : σ'.chain σ'.current ≠ [] := by
  cases h with
  | @call a =>
      rw [push_current, push_chain_self]
      exact List.cons_ne_nil a _
  | @ret a b rest hcaller =>
      rw [pop_current, pop_chain_self, hcaller]
      exact List.cons_ne_nil b rest
  | resume hwaits => exact hwaits
  | @start i a =>
      rw [push_current, push_chain_self]
      exact List.cons_ne_nil a _

end Step

end Stacks

end Support
end JuddOS
