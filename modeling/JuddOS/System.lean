import JuddOS.Interrupts
import JuddOS.KernelEvents

/-!
# The whole system

Everything that can happen after `entry`, one event at a time: the system calls of the process
that runs, its stores to memory and the exceptions it causes, and the interrupts of the keyboard,
the clock and the timer.  An interrupt comes when the controllers deliver its line; the line is in
service until a handler acknowledges it.

What `read` and `getargs` put into the buffer of their caller is not part of the call here.  The
buffers are in the user memory of their callers, and these are stores of the caller then.  The
kernel does not test the pointer: a call with one into the kernel's own memory is left out.

An event is a whole call, or a whole handler; nothing comes in between, but for the wait of
`terminal_read`, and a `read` of the clock is the event of its return.  `Os.step` is `none`, and no
run goes on, where the kernel itself would fault: at a tick that finds the next terminal off and no
process number left, when a program is longer than its page, and when a string or a cursor leads
out of the mapped memory.  The code goes on there through `PAGE_FAULT_handler`, in the middle of a
call.  Commands have less than 128 bytes of arguments and leave room for the two arrays of
`execute` on the kernel stack (`MayExecute`).

An event is a sequence of events of the kernel (`Os.step_kernelSteps`), and only an interrupt of
the timer has a tick in it.
-/

namespace JuddOS

open Support X86

/-- The system. -/
structure Os where
  proc : ProcState
  fileIndex : UInt32
  rtc : Rtc

/-- What can happen. -/
inductive OsEvent
  /-- `execute`, `halt`, `vidmap` and `terminal_write`, the statements of a waiting
  `terminal_read`, and stores. -/
  | machine (e : MachineEvent)
  | call (c : FileCall) (stale : Buf) (esp : Nat)
  | exception (x : Exception) (esp : Nat)
  | keyboardIrq (scan : UInt8) (past : UInt32)
  | rtcIrq
  | pitIrq (exeCheck : Buf) (esp ebp ebpExecute : Nat)

/-- The events of the machine that are interrupts. -/
def MachineEvent.isInterrupt : MachineEvent → Bool
  | .proc e => e.isTick
  | .key .. => true
  | _ => false

/-- The timer tick. -/
def OsEvent.isTick : OsEvent → Bool
  | .pitIrq .. => true
  | _ => false

/-- The controllers and the clock after `entry`: `i8259_init`, `keyboard_init`, `rtc_init` and
`pit_init`. -/
def entryDevices (master slave : Pic8259) (index : UInt8) (reg : UInt8 → UInt8) : Rtc :=
  let r : Rtc :=
    { rtcSignal := false, index := index, reg := reg
      irq := I8259.i8259Init (I8259.unset master slave) }
  let r := r.enableIrq keyboardIrq
  let r := rtcInit r
  r.enableIrq pitIrq

namespace Os

/-- The state that the calls on descriptors work on. -/
def io (o : Os) : Io := ⟨o.proc.kernel, o.fileIndex, o.rtc⟩

def setIo (o : Os) (io : Io) : Os where
  proc := { o.proc with kernel := io.kernel }
  fileIndex := io.fileIndex
  rtc := io.rtc

/-- A line is in service. -/
def accept (n : Nat) (o : Os) : Option Rtc :=
  if o.rtc.irq.Delivers n then some { o.rtc with irq := o.rtc.irq.acknowledge n } else none

/-- What becomes of the processes when a function ends in `outcome` that `halt` would end in. -/
def afterHandler (s : ProcState) (esp : Nat) : Outcome → Option ProcState
  | .user k => some { s with kernel := k }
  | .frame k _ => some { kernel := k, live := s.live.erase (s.kernel.pcb (getCurrPcb esp)).pid }
  | _ => none

/-- One event. -/
def step (fs : Image) (o : Os) : OsEvent → Option Os
  | .machine e =>
      if e.isInterrupt then none
      else (o.proc.machineStep fs e).map fun s => { o with proc := s }
  | .call c stale esp =>
      if o.proc.live ≠ [] ∧ OnKernelStack o.proc.kernel esp then
        match c.run fs stale (fun _ io => io) esp o.io with
        | .returned _ _ io => some (o.setIo io)
        | _ => none
      else none
  | .exception x esp =>
      if o.proc.live ≠ [] ∧ OnKernelStack o.proc.kernel esp then
        ((x.handler esp o.proc.kernel).bind (afterHandler o.proc esp)).map fun s =>
          { o with proc := s }
      else none
  | .keyboardIrq scan past => do
      let r ← o.accept 1
      let (k, r) ← irqKeyboardHandler scan past o.proc.kernel r
      some { o with proc := { o.proc with kernel := k }, rtc := r }
  | .rtcIrq => do
      let r ← o.accept 8
      some { o with rtc := irqRtcHandler r }
  | .pitIrq exeCheck esp ebp ebpExecute => do
      let r ← o.accept 0
      let (outcome, r) := irqPitHandler fs exeCheck esp ebp ebpExecute o.proc.kernel r
      match outcome with
      | .user k =>
          some { o with proc := { kernel := k, live := k.availablePid :: o.proc.live }, rtc := r }
      | .frame k _ => some { o with proc := { o.proc with kernel := k }, rtc := r }
      | _ => none

/-- The runs of the system. -/
abbrev Steps (fs : Image) : Os → List OsEvent → Os → Prop :=
  Run fun o e o' => o.step fs e = some o'

/-- The system before the first shell. -/
def boot (m : PowerOn) (master slave : Pic8259) (index : UInt8) (reg : UInt8 → UInt8) : Os where
  proc := .boot m
  fileIndex := 0
  rtc := entryDevices master slave index reg

end Os

/-! ## The cases of an event -/

section Step

variable {fs : Image} {o o' : Os} {e : OsEvent}

/-- What an event does: a tick, events of the machine without one, or a call on a descriptor. -/
inductive OsDone (fs : Image) (o : Os) : OsEvent → Os → Prop
  | tick {exeCheck : Buf} {esp ebp ebpExecute : Nat} {s : ProcState} (r : Rtc)
      (hstep : o.proc.step fs (.tick exeCheck esp ebp ebpExecute) = some s) :
      OsDone fs o (.pitIrq exeCheck esp ebp ebpExecute) { o with proc := s, rtc := r }
  | machine {e : OsEvent} {es : List MachineEvent} {s : ProcState} (r : Rtc)
      (he : e.isTick = false) (htick : NoTick (es.map .machine)) (hbrief : Brief (es.map .machine))
      (hrun : o.proc.MachineSteps fs es s) : OsDone fs o e { o with proc := s, rtc := r }
  | call {c : FileCall} {stale : Buf} {esp : Nat} {v : Int32} {io : Io} (hlive : o.proc.live ≠ [])
      (hesp : OnKernelStack o.proc.kernel esp)
      (hrun : c.run fs stale (fun _ io => io) esp o.io = .returned v () io) :
      OsDone fs o (.call c stale esp) (o.setIo io)

/-- One event of the machine that is no tick. -/
theorem OsDone.single {e' : MachineEvent} {s : ProcState} (r : Rtc)
    (hstep : o.proc.machineStep fs e' = some s) (he : e.isTick = false) (he' : e'.isTick = false) :
    OsDone fs o e { o with proc := s, rtc := r } := by
  refine .machine r he ?_ ?_ (.single hstep)
  · exact NoTick.single (e := .machine e') he'
  · exact .single (.machine e')

/-- The handler of an exception writes and halts. -/
theorem exceptionHandler_done (fs : Image) {s s' : ProcState} {chars : List UInt8} {esp : Nat}
    (hlive : s.live ≠ []) (hesp : OnKernelStack s.kernel esp)
    (h : (exceptionHandler chars esp s.kernel).bind (Os.afterHandler s esp) = some s') :
    ∃ k, s.machineStep fs (.write (some (Buf.ofList chars)) (Int32.ofNat chars.length)) =
        some { s with kernel := k } ∧
      { s with kernel := k }.step fs (.halt esp) = some s' ∧
      exceptionHandler chars esp s.kernel = some (halt esp k) := by
  rw [exceptionHandler] at h
  cases hwrite : terminalWrite (some (Buf.ofList chars)) (Int32.ofNat chars.length) s.kernel with
  | none =>
      rw [hwrite] at h
      cases h
  | some r =>
      obtain ⟨v, k⟩ := r
      have hhandler : exceptionHandler chars esp s.kernel = some (halt esp k) := by
        rw [exceptionHandler, hwrite]
        rfl
      rw [hwrite] at h
      have hbook := terminalWrite_bookkeeping hwrite
      have hesp0 : k.tssEsp0 = s.kernel.tssEsp0 := congrArg Bookkeeping.tssEsp0 hbook
      have hpcb : k.pcb = s.kernel.pcb := congrArg Bookkeeping.pcb hbook
      have hesp' : OnKernelStack k esp := by
        rw [OnKernelStack, hesp0]
        exact hesp
      refine ⟨k, ?_, ?_, hhandler⟩
      · have hexec : (terminalWrite (some (Buf.ofList chars)) (Int32.ofNat chars.length)
            s.kernel).map Prod.snd = some k := by
          rw [hwrite]
          rfl
        exact congrArg (Option.map fun k => ({ s with kernel := k } : ProcState)) hexec
      · rw [ProcState.step, if_pos ⟨hlive, hesp'⟩]
        dsimp only [Option.map_some, Option.bind_some] at h
        cases hout : halt esp k with
        | returned k' | fault =>
            rw [hout] at h
            cases h
        | user k' =>
            rw [hout] at h
            exact h
        | frame k' ebp =>
            rw [hout, Os.afterHandler, ← hpcb] at h
            exact h

/-- **The cases of an event.** -/
theorem Os.step_done (hstep : o.step fs e = some o') : OsDone fs o e o' := by
  cases e with
  | machine e =>
      rw [Os.step] at hstep
      split at hstep
      case isTrue => cases hstep
      case isFalse hinterrupt =>
        rw [Option.map_eq_some_iff] at hstep
        obtain ⟨s, hmachine, rfl⟩ := hstep
        have htick : e.isTick = false := by
          cases e with
          | proc e => exact Bool.eq_false_iff.mpr hinterrupt
          | _ => rfl
        exact .single o.rtc hmachine rfl htick
  | call c stale esp =>
      rw [Os.step] at hstep
      split at hstep
      case isFalse => cases hstep
      case isTrue hguard =>
        cases hreply : c.run fs stale (fun _ io => io) esp o.io with
        | returned v r io =>
            rw [hreply] at hstep
            cases hstep
            exact .call hguard.1 hguard.2 hreply
        | waiting | nullCall | fault =>
            rw [hreply] at hstep
            cases hstep
  | exception x esp =>
      rw [Os.step] at hstep
      split at hstep
      case isFalse => cases hstep
      case isTrue hguard =>
        rw [Option.map_eq_some_iff] at hstep
        obtain ⟨s, hhandler, rfl⟩ := hstep
        obtain ⟨chars, hx, -⟩ := x.handler_eq
        rw [hx] at hhandler
        obtain ⟨k, hwrite, hhalt, -⟩ := exceptionHandler_done fs hguard.1 hguard.2 hhandler
        have hthen : ({ o.proc with kernel := k } : ProcState).machineStep fs (.proc (.halt esp)) =
            some s := hhalt
        refine .machine o.rtc rfl ?_ ?_ ((Run.single hwrite).append (.single hthen))
        · exact (NoTick.single (e := .machine (.write _ _)) rfl).append
            (.single (e := .machine (.proc (.halt esp))) rfl)
        · rintro e he
          rw [List.mem_singleton.mp he]
          rfl
  | keyboardIrq scan past =>
      rw [Os.step] at hstep
      obtain ⟨r, -, hstep⟩ := Option.bind_eq_some_iff.mp hstep
      obtain ⟨⟨k, r'⟩, hkey, hstep⟩ := Option.bind_eq_some_iff.mp hstep
      cases hstep
      rw [irqKeyboardHandler, Option.map_eq_some_iff] at hkey
      obtain ⟨k', hrun, heq⟩ := hkey
      cases heq
      exact .single _ (ProcState.machineStep_key hrun fs) rfl rfl
  | rtcIrq =>
      rw [Os.step] at hstep
      obtain ⟨r, -, hstep⟩ := Option.bind_eq_some_iff.mp hstep
      cases hstep
      exact .machine _ rfl (by rintro _ ⟨⟩) (by rintro _ ⟨⟩) (.nil _)
  | pitIrq exeCheck esp ebp ebpExecute =>
      rw [Os.step] at hstep
      obtain ⟨r, -, hstep⟩ := Option.bind_eq_some_iff.mp hstep
      dsimp only [irqPitHandler] at hstep
      cases hout : pitHandler fs exeCheck esp ebp ebpExecute o.proc.kernel with
      | returned k | fault =>
          rw [hout] at hstep
          cases hstep
      | user k =>
          rw [hout] at hstep
          cases hstep
          refine .tick _ ?_
          rw [ProcState.step, hout]
      | frame k ebp' =>
          rw [hout] at hstep
          cases hstep
          refine .tick _ ?_
          rw [ProcState.step, hout]

/-- Events of the machine as events of the kernel. -/
theorem ProcState.MachineSteps.kernel {s s' : ProcState} {es : List MachineEvent}
    (hrun : s.MachineSteps fs es s') : s.KernelSteps fs (es.map .machine) s' := by
  induction hrun with
  | nil => exact .nil _
  | snoc _ last ih =>
      rw [List.map_append]
      exact .snoc ih last

/-- **An event as events of the kernel**, with a tick exactly when it is one. -/
theorem Os.step_kernelSteps (hstep : o.step fs e = some o') :
    ∃ es, o.proc.KernelSteps fs es o'.proc ∧ Brief es ∧
      (e.isTick = false ∧ NoTick es ∨
        ∃ exeCheck esp ebp ebpExecute, e = .pitIrq exeCheck esp ebp ebpExecute ∧
          es = [.machine (.proc (.tick exeCheck esp ebp ebpExecute))]) := by
  cases Os.step_done hstep with
  | @tick exeCheck esp ebp ebpExecute s r htick =>
      have hevent : o.proc.kernelStep fs
          (.machine (.proc (.tick exeCheck esp ebp ebpExecute))) = some s := htick
      exact ⟨_, .single hevent, .single _, .inr ⟨_, _, _, _, rfl, rfl⟩⟩
  | machine r he htick hbrief hrun => exact ⟨_, hrun.kernel, hbrief, .inl ⟨he, htick⟩⟩
  | @call c stale esp v io hlive hesp hrun =>
      have hchange := c.change fs stale esp o.io
      rw [hrun] at hchange
      obtain ⟨es, hes, hbrief, hrun⟩ := hchange.kernel.kernelSteps hlive hesp fs
      exact ⟨es, hrun, hbrief, .inl ⟨rfl, hes⟩⟩

/-- A call that returns. -/
theorem Os.step_of_call {c : FileCall} {stale : Buf} {esp : Nat} {v : Int32} {io : Io}
    (hlive : o.proc.live ≠ []) (hesp : OnKernelStack o.proc.kernel esp)
    (h : c.run fs stale (fun _ io => io) esp o.io = .returned v () io) :
    o.step fs (.call c stale esp) = some (o.setIo io) := by
  rw [Os.step, if_pos ⟨hlive, hesp⟩, h]

/-- An interrupt of the timer is a tick. -/
theorem Os.step_tick {exeCheck : Buf} {esp ebp ebpExecute : Nat}
    (hstep : o.step fs (.pitIrq exeCheck esp ebp ebpExecute) = some o') :
    o.proc.step fs (.tick exeCheck esp ebp ebpExecute) = some o'.proc := by
  cases Os.step_done hstep with
  | tick r htick => exact htick
  | machine r he => cases he

end Step

end JuddOS
