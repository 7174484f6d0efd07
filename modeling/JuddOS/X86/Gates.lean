import Mathlib.Algebra.Group.Nat.Defs
import Mathlib.Tactic.Common

/-!
# Gates

The eight bytes of an entry of the interrupt descriptor table as the processor reads them.

`deliver` is what the processor does with a vector.  An `int` instruction may use the gates whose
privilege level is not below its own; an interrupt of a device and an exception may use all.  When
the processor refuses, it raises an exception itself (`arrives`).
-/

namespace JuddOS
namespace X86

/-- The `n` bits of `w` from bit `i` on. -/
def bits (w : UInt32) (i n : Nat) : Nat := w.toNat / 2 ^ i % 2 ^ n

/-- An entry of a descriptor table: its two doublewords. -/
structure Quad where
  lo : UInt32
  hi : UInt32
  deriving DecidableEq

/-- A 32-bit interrupt gate, which clears the interrupt flag, or trap gate, which does not. -/
structure GateEntry where
  offset : Nat
  selector : Nat
  clearsIf : Bool
  dpl : Nat
  present : Bool
  deriving DecidableEq

/-- The gate in an entry.  The kind of the entry is in five bits. -/
def Quad.gate (q : Quad) : Option GateEntry :=
  if bits q.hi 9 4 = 0b0111 then
    some
      { offset := bits q.lo 0 16 + bits q.hi 16 16 * 2 ^ 16
        selector := bits q.lo 16 16
        clearsIf := bits q.hi 8 1 = 0
        dpl := bits q.hi 13 2
        present := bits q.hi 15 1 = 1 }
  else none

/-- Where a vector comes from. -/
inductive Source
  | hardware
  /-- An `int` instruction at a privilege level. -/
  | software (cpl : Nat)

def Source.refused (g : GateEntry) : Source → Bool
  | hardware => false
  | software cpl => g.dpl < cpl

/-- Why the processor refuses, with the vector it raises. -/
inductive Refusal
  | notPresent
  | generalProtection
  deriving DecidableEq

def Refusal.vector : Refusal → UInt8
  | notPresent => 0x0B
  | generalProtection => 0x0D

/-- A vector and the interrupt descriptor table. -/
def deliver (idt : UInt8 → Quad) (v : UInt8) (source : Source) : Except Refusal GateEntry :=
  match (idt v).gate with
  | none => .error .generalProtection
  | some g =>
      if source.refused g then .error .generalProtection
      else if g.present then .ok g
      else .error .notPresent

/-- The gate that is used in the end. -/
def arrives (idt : UInt8 → Quad) (v : UInt8) (source : Source) : Option GateEntry :=
  match deliver idt v source with
  | .ok g => some g
  | .error refusal =>
      match deliver idt refusal.vector .hardware with
      | .ok g => some g
      | .error _ => none

section Deliver

variable {idt : UInt8 → Quad} {v : UInt8} {source : Source} {g : GateEntry}

theorem deliver_of_gate (hgate : (idt v).gate = some g) (hpresent : g.present = true)
    (hallowed : source.refused g = false) : deliver idt v source = .ok g := by
  rw [deliver, hgate]
  dsimp only
  rw [hallowed, hpresent]
  rfl

theorem arrives_of_gate (hgate : (idt v).gate = some g) (hpresent : g.present = true)
    (hallowed : source.refused g = false) : arrives idt v source = some g := by
  rw [arrives, deliver_of_gate hgate hpresent hallowed]

/-- A vector that may not be used ends in the handler of general protection. -/
theorem arrives_of_refused
    (hrefused : ∀ g, (idt v).gate = some g → source.refused g = true)
    (hgate : (idt 0x0D).gate = some g) (hpresent : g.present = true) :
    arrives idt v source = some g := by
  have herror : deliver idt v source = .error .generalProtection := by
    rw [deliver]
    cases hv : (idt v).gate with
    | none => rfl
    | some g' =>
        dsimp only
        rw [if_pos (hrefused g' hv)]
  have hprotection : deliver idt Refusal.generalProtection.vector .hardware = .ok g :=
    deliver_of_gate hgate hpresent rfl
  rw [arrives, herror]
  dsimp only
  rw [hprotection]

end Deliver

end X86
end JuddOS
