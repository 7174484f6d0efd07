import Mathlib.Tactic.Common

/-!
# EFLAGS, the instructions that change the interrupt flag, and gates

A processor is seen through its flags register, its privilege level and the words of the current
stack that hold flags or return addresses.  `ρ` is the type of return addresses.

* `exec` is one instruction and `run` a sequence; `none` is a general protection fault, or a stack
  whose top is not what the instruction takes.
* `enter` is the entry through a gate; an interrupt gate clears the interrupt flag and a trap gate
  does not.
-/

namespace JuddOS
namespace X86

/-- The flags register. -/
abbrev Eflags := BitVec 32

namespace Eflags

/-- IF, bit 9. -/
def interrupt (f : Eflags) : Bool := f.getLsbD 9

/-- The I/O privilege level, bits 12 and 13. -/
def iopl (f : Eflags) : BitVec 2 := f.extractLsb' 12 2

/-- A flag is cleared. -/
def clear (f : Eflags) (i : Nat) : Eflags := f &&& ~~~ (1#32 <<< i)

/-- A flag is set. -/
def set (f : Eflags) (i : Nat) : Eflags := f ||| (1#32 <<< i)

/-- The bits of `mask` stay as they were in `old`. -/
def keep (mask old new : Eflags) : Eflags := (new &&& ~~~ mask) ||| (old &&& mask)

@[simp] theorem interrupt_clear_self (f : Eflags) : (f.clear 9).interrupt = false := by
  simp [interrupt, clear]

theorem interrupt_or (f mask : Eflags) :
    (f ||| mask).interrupt = (f.interrupt || mask.interrupt) := by
  simp [interrupt]

end Eflags

/-- A word of the stack. -/
inductive Saved (ρ : Type*)
  /-- Flags pushed by `pushfl`. -/
  | flags (f : Eflags)
  /-- What a gate pushes: the flags, and the privilege level it came from. -/
  | frame (f : Eflags) (user : Bool)
  /-- A return address. -/
  | ret (address : ρ)

/-- The processor. -/
structure Cpu (ρ : Type*) where
  eflags : Eflags
  user : Bool
  stack : List (Saved ρ)

/-- The instructions. -/
inductive Instr (ρ : Type*)
  | cli
  | sti
  | pushfl
  | popfl
  | call (address : ρ)
  | ret
  | iret
  /-- Pop flags, or them with a mask, and push a frame for user mode that holds them. -/
  | userFrame (mask : Eflags)

namespace Cpu

variable {ρ : Type*}

/-- `cli` and `sti` are allowed. -/
def MayTouchIf (c : Cpu ρ) : Prop := c.user = true → c.eflags.iopl = 3#2

instance (c : Cpu ρ) : Decidable c.MayTouchIf :=
  inferInstanceAs (Decidable (c.user = true → c.eflags.iopl = 3#2))

/-- The flags after `popfl`: in user mode the I/O privilege level stays, and so does IF unless that
level allows to change it. -/
def popped (c : Cpu ρ) (f : Eflags) : Eflags :=
  if c.user = false then f
  else if c.eflags.iopl = 3#2 then Eflags.keep 0x3000 c.eflags f
  else Eflags.keep 0x3200 c.eflags f

/-- One instruction. -/
def exec (c : Cpu ρ) : Instr ρ → Option (Cpu ρ)
  | .cli => if c.MayTouchIf then some { c with eflags := c.eflags.clear 9 } else none
  | .sti => if c.MayTouchIf then some { c with eflags := c.eflags.set 9 } else none
  | .pushfl => some { c with stack := .flags c.eflags :: c.stack }
  | .popfl =>
      match c.stack with
      | .flags f :: rest => some { c with eflags := c.popped f, stack := rest }
      | _ => none
  | .call address => some { c with stack := .ret address :: c.stack }
  | .ret =>
      match c.stack with
      | .ret _ :: rest => some { c with stack := rest }
      | _ => none
  | .iret =>
      match c.stack with
      | .frame f user :: rest =>
          if c.user then none else some { eflags := f, user := user, stack := rest }
      | _ => none
  | .userFrame mask =>
      match c.stack with
      | .flags f :: rest => some { c with stack := .frame (f ||| mask) true :: rest }
      | _ => none

/-- A sequence of instructions. -/
def run (c : Cpu ρ) : List (Instr ρ) → Option (Cpu ρ)
  | [] => some c
  | i :: is => (c.exec i).bind fun c => c.run is

end Cpu

/-- The kind of a gate. -/
inductive Gate
  | interrupt | trap
  deriving DecidableEq

/-- Entry through a gate.  From user mode the processor takes the stack that the task-state segment
names, which is empty then.  TF, NT, RF and VM are cleared, and IF by an interrupt gate. -/
def Cpu.enter {ρ : Type*} (gate : Gate) (c : Cpu ρ) : Cpu ρ where
  eflags :=
    let f := (((c.eflags.clear 8).clear 14).clear 16).clear 17
    if gate = .interrupt then f.clear 9 else f
  user := false
  stack := .frame c.eflags c.user :: if c.user then [] else c.stack

end X86
end JuddOS
