import JuddOS.Boot
import JuddOS.ExecuteProgram
import JuddOS.Support.Run

/-!
# The processes as a machine

Two step functions on the kernel together with the list of the processes that are alive.

* `ProcState.step`: `execute`, `halt` and `pit_handler` are one step each.
* `Sys.step`: a `halt` is a sequence of statements, and a tick may fall between any two of
  them.  A terminal with an open `halt` has a `HaltFrame`, the local variables of that call
  and how far it has come.

An `execute` or `halt` enters on the kernel stack that `tss.esp0` names, which has room for the
arrays of `execute` (`MayExecute`); before there is a process, `entry` starts the first shell.  A
page fault in the kernel is the end of a run.
-/

namespace JuddOS

open Support

/-- What can happen to the processes. -/
inductive ProcEvent
  /-- `execute` by the process on the scheduled terminal, or by `entry`. -/
  | execute (command : CString) (exeCheck : Buf) (esp ebp : Nat)
  /-- `halt` of that process. -/
  | halt (esp : Nat)
  /-- A timer tick. -/
  | tick (exeCheck : Buf) (esp ebp ebpExecute : Nat)

/-- An address on the kernel stack that the processor switched to. -/
def OnKernelStack (k : Kernel) (esp : Nat) : Prop := getCurrPcb esp = getCurrPcb k.tssEsp0

instance (k : Kernel) (esp : Nat) : Decidable (OnKernelStack k esp) :=
  inferInstanceAs (Decidable (_ = _))

/-- The argument string of a command fits the `args` field of a PCB. -/
def ShortArgs (command : List UInt8) : Prop := ∀ p ∈ parseCommand 0 command, p.2.length < 128

instance (command : List UInt8) : Decidable (ShortArgs command) :=
  inferInstanceAs (Decidable (∀ p ∈ parseCommand 0 command, p.2.length < 128))

/-- The two arrays of `execute` fit on the kernel stack, between `esp` and the 284 bytes of the
PCB.  To align each of them the compiler leaves at most 32 bytes free. -/
def RoomForArrays (esp : Nat) (command : List UInt8) : Prop :=
  getCurrPcb esp + 284 + 2 * (command.length + 33) ≤ esp

instance (esp : Nat) (command : List UInt8) : Decidable (RoomForArrays esp command) :=
  inferInstanceAs (Decidable (_ ≤ esp))

/-- There is room for the name of the shell on a kernel stack that is empty. -/
theorem roomForArrays_shell {p : Nat} (hp : p < 6) :
    RoomForArrays (kernelStackTop p) shellCommand := by
  have hall : ∀ p : Fin 6, RoomForArrays (kernelStackTop p) shellCommand := by decide
  exact hall ⟨p, hp⟩

/-- Who may call `execute`: `entry`, for the first shell, and afterwards the process on the
scheduled terminal. -/
def MayExecute (k : Kernel) (live : List Nat) (command : CString) (esp ebp : Nat) : Prop :=
  (live = [] ∧ command.val = shellCommand) ∨
    (live ≠ [] ∧ OnKernelStack k esp ∧ OnKernelStack k ebp ∧ ShortArgs command.val ∧
      RoomForArrays esp command.val)

instance (k : Kernel) (live : List Nat) (command : CString) (esp ebp : Nat) :
    Decidable (MayExecute k live command esp ebp) :=
  inferInstanceAs (Decidable (_ ∨ _))

/-! ## Atomic calls -/

/-- The kernel and the process numbers in use. -/
structure ProcState where
  kernel : Kernel
  live : List Nat

namespace ProcState

/-- One call. -/
def step (fs : Image) (s : ProcState) : ProcEvent → Option ProcState
  | .execute command exeCheck esp ebp =>
      if MayExecute s.kernel s.live command esp ebp then
        match execute fs command.val exeCheck esp ebp s.kernel with
        | .returned k => some { s with kernel := k }
        | .user k => some { kernel := k, live := k.availablePid :: s.live }
        | _ => none
      else none
  | .halt esp =>
      if s.live ≠ [] ∧ OnKernelStack s.kernel esp then
        match JuddOS.halt esp s.kernel with
        | .user k => some { s with kernel := k }
        | .frame k _ =>
            some { kernel := k, live := s.live.erase (s.kernel.pcb (getCurrPcb esp)).pid }
        | _ => none
      else none
  | .tick exeCheck esp ebp ebpExecute =>
      match pitHandler fs exeCheck esp ebp ebpExecute s.kernel with
      | .user k => some { kernel := k, live := k.availablePid :: s.live }
      | .frame k _ => some { s with kernel := k }
      | _ => none

/-- The system before the first shell. -/
def boot (m : PowerOn) : ProcState := { kernel := bootKernel m, live := [] }

/-- The runs of the system. -/
abbrev Steps (fs : Image) : ProcState → List ProcEvent → ProcState → Prop :=
  Run fun s e s' => s.step fs e = some s'

end ProcState

/-! ## `halt` one statement at a time -/

/-- The last statement of `halt` that was executed. -/
inductive HaltPc
  | entered | restored | released | freed | mapped | recorded | closed
  deriving DecidableEq

namespace HaltPc

/-- `tss.esp0` is that of the caller. -/
def esp0Restored : HaltPc → Bool
  | entered => false
  | _ => true

/-- `pid_bits` is cleared. -/
def pidReleased : HaltPc → Bool
  | entered | restored => false
  | _ => true

/-- `most_recent_pcb` is the parent. -/
def recentSet : HaltPc → Bool
  | recorded | closed => true
  | _ => false

end HaltPc

/-- A call of `halt` that is under way.  `stale` is history: the page of the parent was
mapped, but a tick came back with the page of the halting process. -/
structure HaltFrame where
  currentPcb : Nat
  parentPcb : Nat
  pc : HaltPc
  stale : Bool

/-- A tick returns to the page of `most_recent_pcb`, so what it does to the mapping depends on
how far the call has come. -/
def HaltFrame.preempted (f : HaltFrame) : HaltFrame :=
  match f.pc with
  | .mapped => { f with stale := true }
  | .recorded | .closed => { f with stale := false }
  | _ => f

/-- The kernel, the process numbers in use and the open calls of `halt`.  `resumed` is the
parent that control has just reached. -/
structure Sys where
  kernel : Kernel
  live : List Nat
  halting : Tid → Option HaltFrame
  resumed : Option Nat

/-- What can happen in the fine-grained system. -/
inductive SysEvent
  | execute (command : CString) (exeCheck : Buf) (esp ebp : Nat)
  | haltCall (esp : Nat)
  | haltStatement
  | tick (exeCheck : Buf) (esp ebp ebpExecute : Nat)

namespace Sys

/-- The calls of `halt` after a tick has left the scheduled terminal. -/
def preempt (s : Sys) : Tid → Option HaltFrame :=
  Function.update s.halting s.kernel.terminalNum
    ((s.halting s.kernel.terminalNum).map HaltFrame.preempted)

/-- Go on to the next statement of the call `f` on the scheduled terminal. -/
def advance (s : Sys) (f : HaltFrame) (pc : HaltPc) (k : Kernel) : Sys :=
  { s with
    kernel := k, resumed := none
    halting := Function.update s.halting s.kernel.terminalNum (some { f with pc := pc }) }

/-- The call on the scheduled terminal is over. -/
def leaveHalt (s : Sys) (k : Kernel) (resumed : Option Nat) : Sys :=
  { s with
    kernel := k, resumed := resumed
    halting := Function.update s.halting s.kernel.terminalNum none }

/-- The next statement of `halt` on the scheduled terminal. -/
def haltStatement (s : Sys) (f : HaltFrame) : Sys :=
  match f.pc with
  | .entered => s.advance f .restored (haltRestoreEsp0 f.currentPcb s.kernel)
  | .restored =>
      if f.parentPcb = 0 then
        s.leaveHalt { s.kernel with
          tssEsp0 := kernelStackTop (s.kernel.pcb f.currentPcb).pid } none
      else
        { s.advance f .released (haltReleasePid f.currentPcb s.kernel) with
          live := s.live.erase (s.kernel.pcb f.currentPcb).pid }
  | .released => s.advance f .freed (haltFreeMemory f.currentPcb s.kernel)
  | .freed => s.advance { f with stale := false } .mapped (haltMapParent f.parentPcb s.kernel)
  | .mapped => s.advance f .recorded (haltSetRecent f.parentPcb s.kernel)
  | .recorded => s.advance f .closed (haltCloseFds f.currentPcb s.kernel)
  | .closed => s.leaveHalt s.kernel (some f.parentPcb)

/-- One step of the fine-grained system. -/
def step (fs : Image) (s : Sys) : SysEvent → Option Sys
  | .execute command exeCheck esp ebp =>
      if (s.halting s.kernel.terminalNum).isNone ∧
          MayExecute s.kernel s.live command esp ebp then
        match JuddOS.execute fs command.val exeCheck esp ebp s.kernel with
        | .returned k => some { s with kernel := k, resumed := none }
        | .user k => some { s with kernel := k, live := k.availablePid :: s.live, resumed := none }
        | _ => none
      else none
  | .haltCall esp =>
      if (s.halting s.kernel.terminalNum).isNone ∧ s.live ≠ [] ∧
          OnKernelStack s.kernel esp then
        some { s with
          resumed := none
          halting := Function.update s.halting s.kernel.terminalNum
            (some { currentPcb := getCurrPcb esp
                    parentPcb := (s.kernel.pcb (getCurrPcb esp)).parent
                    pc := .entered
                    stale := false }) }
      else none
  | .haltStatement => (s.halting s.kernel.terminalNum).map s.haltStatement
  | .tick exeCheck esp ebp ebpExecute =>
      match pitHandler fs exeCheck esp ebp ebpExecute s.kernel with
      | .user k =>
          some { kernel := k, live := k.availablePid :: s.live, halting := s.preempt,
                 resumed := none }
      | .frame k _ => some { s with kernel := k, halting := s.preempt, resumed := none }
      | _ => none

/-- The system before the first shell. -/
def boot (m : PowerOn) : Sys :=
  { kernel := bootKernel m, live := [], halting := fun _ => none, resumed := none }

end Sys

end JuddOS
