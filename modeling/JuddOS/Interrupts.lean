import JuddOS.Descriptors
import JuddOS.EndOfInterrupt
import JuddOS.Keyboard

/-!
# `interrupt_handler.c`: exceptions and interrupts

The handlers of the exceptions differ in the message that they print.  After the message they call
`halt`, which does not come back: the process that caused the exception ends, or the root shell of
its terminal is started again.

The handlers of the interrupts acknowledge their line and call the function of the device.
`pit_handler` and `rtc_handler` acknowledge the line a second time.
-/

namespace JuddOS

/-! ## Exceptions -/

/-- The bytes of a message. -/
def message (s : String) : List UInt8 := s.toList.map fun c => UInt8.ofNat c.toNat

/-- The handler of an exception, with the message that it writes: `terminal_write` and `halt`. -/
def exceptionHandler (chars : List UInt8) (esp : Nat) (k : Kernel) : Option Outcome :=
  (terminalWrite (some (Buf.ofList chars)) (Int32.ofNat chars.length) k).map fun r => halt esp r.2

def pageFaultHandler := exceptionHandler (message "PFAULT ERROR\n")
def divByZeroHandler := exceptionHandler (message "DIV_BY_ZERO_ERROR\n")
def singleStepIntHandler := exceptionHandler (message "SINGLE_STEP_INT_ERROR\n")
def nmiHandler := exceptionHandler (message "NMI_ERROR\n")
def breakpointHandler := exceptionHandler (message "BREAKPOINT(INT3)_ERROR\n")
def overflowHandler := exceptionHandler (message "OVERFLOW(INTO)_ERROR\n")
def boundsHandler := exceptionHandler (message "BOUNDS_ERROR\n")
def invalidOpcodeHandler := exceptionHandler (message "INVALID_OPCODE(UD2)_ERROR\n")
def coprocessorNaHandler := exceptionHandler (message "COPROCESSOR_NA_ERROR\n")
def doubleFaultHandler := exceptionHandler (message "DOUBLE_FAULT_ERROR\n")
def coprocessorSoHandler := exceptionHandler (message "COPROCESSOR_SO_ERROR\n")
def invalidTssHandler := exceptionHandler (message "INVALID_TSS_ERROR\n")
def segNotPresentHandler := exceptionHandler (message "SEG_NOT_PRESENT_ERROR\n")
def stackFaultHandler := exceptionHandler (message "STACK_FAULT_ERROR\n")
def generalPfaultHandler := exceptionHandler (message "GENERAL_PFAULT_ERROR\n")
def reservedHandler := exceptionHandler (message "RESERVED_ERROR\n")
def mathFaultHandler := exceptionHandler (message "MATH_FAULT\n")
def alignmentCheckHandler := exceptionHandler (message "ALIGNMENT_CHECK_ERROR\n")
def machineCheckHandler := exceptionHandler (message "MACHINE_CHECK_ERROR\n")
def simdFpExcepHandler := exceptionHandler (message "SIMD_FP_EXCEPTION\n")
def virtualExcepHandler := exceptionHandler (message "VIRTUALIZATION_EXCEPTION\n")
def ctrlProtExcepHandler := exceptionHandler (message "CONTROL_PROTECTION_EXCEPTION\n")

/-- The exceptions, by the vectors of `idt.h` from 0 on. -/
inductive Exception
  | divByZero | singleStepInt | nmi | breakpoint | overflow | bounds | invalidOpcode
  | coprocessorNa | doubleFault | coprocessorSo | invalidTss | segNotPresent | stackFault
  | generalPfault | pageFault | reserved | mathFault | alignmentCheck | machineCheck | simdFpExcep
  | virtualExcep | ctrlProtExcep
  deriving DecidableEq

/-- The function that the wrapper of an exception calls. -/
def Exception.handler : Exception → Nat → Kernel → Option Outcome
  | divByZero => divByZeroHandler
  | singleStepInt => singleStepIntHandler
  | nmi => nmiHandler
  | breakpoint => breakpointHandler
  | overflow => overflowHandler
  | bounds => boundsHandler
  | invalidOpcode => invalidOpcodeHandler
  | coprocessorNa => coprocessorNaHandler
  | doubleFault => doubleFaultHandler
  | coprocessorSo => coprocessorSoHandler
  | invalidTss => invalidTssHandler
  | segNotPresent => segNotPresentHandler
  | stackFault => stackFaultHandler
  | generalPfault => generalPfaultHandler
  | pageFault => pageFaultHandler
  | reserved => reservedHandler
  | mathFault => mathFaultHandler
  | alignmentCheck => alignmentCheckHandler
  | machineCheck => machineCheckHandler
  | simdFpExcep => simdFpExcepHandler
  | virtualExcep => virtualExcepHandler
  | ctrlProtExcep => ctrlProtExcepHandler

/-- Every handler is one of the family, with a message whose length is a count of bytes. -/
theorem Exception.handler_eq (x : Exception) :
    ∃ chars, x.handler = exceptionHandler chars ∧ ¬ Int32.ofNat chars.length < 0 := by
  cases x <;> exact ⟨_, rfl, by decide⟩

/-! ## Interrupts -/

abbrev irq8 : UInt32 := 8
abbrev keyboardIrq : UInt32 := 1
abbrev pitIrq : UInt32 := 0
abbrev rtcC : UInt8 := 0x0C

/-- `send_eoi`, on the controllers that the state of the clock holds. -/
def Rtc.sendEoi (irqNum : UInt32) (r : Rtc) : Rtc := { r with irq := r.irq.sendEoi irqNum }

/-- `rtc_handler`.  The byte of register C is read and dropped. -/
def rtcHandler (r : Rtc) : Rtc :=
  let r := r.sendEoi irq8
  let r := { r with rtcSignal := true }
  r.select rtcC

/-- `IRQ_RTC_handler`. -/
def irqRtcHandler (r : Rtc) : Rtc := rtcHandler (r.sendEoi irq8)

/-- `IRQ_KEYBOARD_handler`. -/
def irqKeyboardHandler (scan : UInt8) (past : UInt32) (k : Kernel) (r : Rtc) :
    Option (Kernel × Rtc) :=
  (keyboardHandlerMain scan past k).map (·, r.sendEoi keyboardIrq)

/-- `IRQ_PIT_handler`; the second `send_eoi` is the first statement of `pit_handler`. -/
def irqPitHandler (fs : Image) (exeCheck : Buf) (esp ebp ebpExecute : Nat) (k : Kernel) (r : Rtc) :
    Outcome × Rtc :=
  (pitHandler fs exeCheck esp ebp ebpExecute k, (r.sendEoi pitIrq).sendEoi pitIrq)

/-! ## The controllers -/

namespace I8259

open X86

/-- Line `n` is in service: its bit is set, and for a line of the slave the bit of the cascade. -/
def acknowledge (n : Nat) (s : I8259) : I8259 :=
  if n < 8 then { s with master := { s.master with isr := s.master.isr ||| (1 <<< UInt8.ofNat n) } }
  else
    { s with
      master := { s.master with isr := s.master.isr ||| (1 <<< (2 : UInt8)) }
      slave := { s.slave with isr := s.slave.isr ||| (1 <<< UInt8.ofNat (n - 8)) } }

/-- The controllers deliver the interrupts of a line: neither it nor the cascade is masked. -/
def Delivers (s : I8259) (n : Nat) : Prop :=
  s.lineMasked n = false ∧ (8 ≤ n → s.lineMasked 2 = false)

instance (s : I8259) (n : Nat) : Decidable (s.Delivers n) :=
  inferInstanceAs (Decidable (_ ∧ _))

/-- The vector of a line. -/
def vectorOf (s : I8259) (n : Nat) : Nat :=
  if n < 8 then s.master.vector.toNat + n else s.slave.vector.toNat + (n - 8)

end I8259

end JuddOS
