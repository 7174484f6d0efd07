import JuddOS.CallReturn
import JuddOS.InterruptFlag
import JuddOS.KernelFrames

/-!
# The computer

The system with its processor: the registers of the code that runs, and the memory in which the
kernel stacks lie.  `Computer.Step` is one event of the system together with what the wrappers and
the functions of the kernel do to the registers.

* The timer parks the code that it interrupts and jumps through the frame of another process, or
  starts a shell.  `execute` leaves its caller on the stack, and `halt` jumps through that frame.
* Other calls and the program itself may change the registers of the process that runs in any way,
  and write to its own kernel stack only (`OwnStack`).  Memory that is no kernel stack may change
  at any time.

A handler is one step, so interrupts that come after its `sti` are taken after its `iret`.
-/

namespace JuddOS

open Support X86 X86.Asm

abbrev userCs : BitVec 16 := 0x0023

abbrev userDs : BitVec 16 := 0x002B

/-! ## Kernel stacks -/

/-- The lowest address of a kernel stack, where the PCB is. -/
def stackBottom (p : Nat) : Word := BitVec.ofNat 32 (pcbAddr p)

/-- Of the kernel stacks, only the one of `p` changes. -/
def OwnStack (p : Nat) (m m' : Memory) : Prop :=
  ∀ q, q < 6 → q ≠ p → ∀ a, height (stackBottom q) a < 0x2000 → m' a = m a

theorem stackBottom_toNat (p : Nat) : (stackBottom p).toNat = 0x800000 - 0x2000 * (p + 1) := by
  rw [stackBottom, pcbAddr_eq, BitVec.toNat_ofNat]
  exact Nat.mod_eq_of_lt (Nat.lt_of_le_of_lt (Nat.sub_le _ _) (by decide))

/-- Kernel stacks do not overlap. -/
theorem height_other {p q : Nat} (hp : p < 6) (hq : q < 6) (hne : q ≠ p) {a : Word}
    (ha : height (stackBottom q) a < 0x2000) : 0x2000 ≤ height (stackBottom p) a := by
  have hbottom := stackBottom_toNat p
  have hbottom' := stackBottom_toNat q
  generalize stackBottom p = b at *
  generalize stackBottom q = b' at *
  rw [height, BitVec.toNat_sub] at ha ⊢
  have hlt := a.isLt
  omega

theorem OwnStack.of_stays {p : Nat} (hp : p < 6) {esp : Word} {m m' : Memory}
    (h : Stays (stackBottom p) esp m m') (htop : height (stackBottom p) esp ≤ 0x2000) :
    OwnStack p m m' :=
  fun _ hq hne a ha => h a (htop.trans (height_other hp hq hne ha))

theorem OwnStack.trans {p : Nat} {m m' m'' : Memory} (h : OwnStack p m m')
    (h' : OwnStack p m' m'') : OwnStack p m m'' :=
  fun q hq hne a ha => (h' q hq hne a ha).trans (h q hq hne a ha)

/-- An address of a kernel stack. -/
theorem toNat_of_height {p : Nat} (hp : p < 6) {a : Word} (ha : height (stackBottom p) a < 0x2000) :
    a.toNat = pcbAddr p + height (stackBottom p) a ∧ getCurrPcb a.toNat = pcbAddr p := by
  have hbottom := stackBottom_toNat p
  rw [pcbAddr_eq, getCurrPcb_eq a.isLt]
  generalize stackBottom p = b at *
  rw [height, BitVec.toNat_sub] at ha ⊢
  have hlt := a.isLt
  omega

/-- The stack that the processor takes from the task-state segment. -/
theorem height_kernelStackTop {p : Nat} (hp : p < 6) :
    height (stackBottom p) (BitVec.ofNat 32 (kernelStackTop p)) = 0x1FFC := by
  have hbottom := stackBottom_toNat p
  have htop : (BitVec.ofNat 32 (kernelStackTop p)).toNat = 0x800000 - 0x2000 * p - 4 := by
    rw [BitVec.toNat_ofNat]
    exact Nat.mod_eq_of_lt (Nat.lt_of_le_of_lt ((Nat.sub_le _ _).trans (Nat.sub_le _ _))
      (by decide))
  generalize BitVec.ofNat 32 (kernelStackTop p) = t at *
  generalize stackBottom p = b at *
  rw [height, BitVec.toNat_sub]
  omega

/-! ## Steps -/

/-- Where the calls in the wrappers and in `IRQ_PIT_handler` return to. -/
structure ReturnAddresses where
  irqPit : Word
  irqPitHandler : Word
  systemCall : Word

/-- The system and the processor. -/
structure Computer where
  os : Os
  cpu : Context
  segs : Seg → BitVec 16
  mem : Memory

namespace Computer

def pid (c : Computer) : Nat := c.os.proc.kernel.runningPid

def esp0 (c : Computer) : Word := BitVec.ofNat 32 c.os.proc.kernel.tssEsp0

/-- The code that runs is interrupted. -/
def interrupted (c : Computer) (gate : Gate) : State := c.cpu.interrupted gate c.esp0 c.segs c.mem

/-- Code of the kernel leaves room for interrupts on its stack. -/
def KernelRoom (c : Computer) : Prop :=
  c.cpu.user = false → OnStack (stackBottom c.pid) c.esp0 c.cpu

end Computer

def OsEvent.isIrq : OsEvent → Bool
  | .keyboardIrq .. | .rtcIrq | .pitIrq .. => true
  | _ => false

/-- What `execute_cswitch` gives the program. -/
structure StartsUser (k : Kernel) (x : Context) : Prop where
  cs : x.cs = userCs
  ss : x.ss = userDs
  eip : x.eip = (mostRecent k k.terminalNum).eip.toBitVec
  esp : x.regs .esp = BitVec.ofNat 32 (mostRecent k k.terminalNum).esp
  eflags : ∃ f : Eflags, x.eflags = f ||| eflagsIfMask

/-- The status that a process with the registers `x` ends with.  `halt` is system call 1 and takes
the low byte of EBX; the handlers of exceptions call `halt(-1)`. -/
def OsEvent.Status (e : OsEvent) (x : Context) (status : UInt8) : Prop :=
  match e with
  | .exception .. => status = -1
  | _ => x.user = true ∧ x.regs .eax = 1 ∧ status.toBitVec = (x.regs .ebx).setWidth 8

/-- One step. -/
inductive Computer.Step (code : ReturnAddresses) (fs : Image) (c : Computer) :
    Option OsEvent → Computer → Prop
  /-- The process goes on without the kernel. -/
  | computes {c' : Computer} (hos : c'.os = c.os) (hown : OwnStack c.pid c.mem c'.mem) :
      Step code fs c none c'
  /-- A call of the kernel that comes back to the process, or starts it again. -/
  | continues {e : OsEvent} {c' : Computer} (hstep : c.os.step fs e = some c'.os)
      (hirq : e.isIrq = false) (hruns : c'.pid = c.pid)
      (hown : OwnStack c.pid c.mem c'.mem) : Step code fs c (some e) c'
  /-- The keyboard or the clock. -/
  | device {e : OsEvent} {o : Os} {s : State} {ret : Word} (hroom : c.KernelRoom)
      (hstep : c.os.step fs e = some o) (hirq : e.isIrq = true) (htick : e.isTick = false)
      (hesp : s.regs .esp = (irqCall ret (c.interrupted .trap)).regs .esp + 4)
      (hstays : Stays (stackBottom c.pid) ((irqCall ret (c.interrupted .trap)).regs .esp + 4)
        (irqCall ret (c.interrupted .trap)).mem s.mem) :
      Step code fs c (some e) ⟨o, irqReturn s, s.segs, s.mem⟩
  /-- The timer goes on with another process. -/
  | resumes {exeCheck : Buf} {ebpExecute ebp : Nat} {s r : State} {o : Os} {x : Context}
      (segs : Seg → BitVec 16) {mem : Memory} (hroom : c.KernelRoom)
      (hswitch : ReachesSwitch (stackBottom c.pid) code.irqPitHandler
        (irqCall code.irqPit (c.interrupted .trap)) s)
      (hstep : c.os.step fs (.pitIrq exeCheck (s.regs .esp).toNat (s.regs .ebp).toNat
        ebpExecute) = some o)
      (hout : pitHandler fs exeCheck (s.regs .esp).toNat (s.regs .ebp).toNat ebpExecute
        c.os.proc.kernel = .frame o.proc.kernel ebp)
      (hbody : Stays (stackBottom c.pid) (s.regs .ebp) s.mem r.mem)
      (hgoes : Switches (stackBottom o.proc.kernel.runningPid) code.irqPit code.irqPitHandler
        (BitVec.ofNat 32 ebp) r x mem) :
      Step code fs c (some (.pitIrq exeCheck (s.regs .esp).toNat (s.regs .ebp).toNat ebpExecute))
        ⟨o, x, segs, mem⟩
  /-- The timer starts a shell. -/
  | opens {exeCheck : Buf} {ebpExecute : Nat} {s : State} {o : Os} {x : Context}
      (segs : Seg → BitVec 16) {mem : Memory} (hroom : c.KernelRoom)
      (hswitch : ReachesSwitch (stackBottom c.pid) code.irqPitHandler
        (irqCall code.irqPit (c.interrupted .trap)) s)
      (hstep : c.os.step fs (.pitIrq exeCheck (s.regs .esp).toNat (s.regs .ebp).toNat
        ebpExecute) = some o)
      (hout : pitHandler fs exeCheck (s.regs .esp).toNat (s.regs .ebp).toNat ebpExecute
        c.os.proc.kernel = .user o.proc.kernel)
      (hbody : Stays (stackBottom c.pid) (s.regs .ebp) s.mem mem)
      (hx : StartsUser o.proc.kernel x) :
      Step code fs c (some (.pitIrq exeCheck (s.regs .esp).toNat (s.regs .ebp).toNat ebpExecute))
        ⟨o, x, segs, mem⟩
  /-- A program calls `execute`, which starts another one. -/
  | executes {command : CString} {exeCheck : Buf} {s : State} {o : Os} {x : Context}
      (segs : Seg → BitVec 16) {mem : Memory} (huser : c.cpu.user = true)
      (hnumber : c.cpu.regs .eax = 2)
      (hstart : ReachesStart (stackBottom c.pid) code.systemCall (c.interrupted .interrupt) s)
      (hstep : c.os.step fs (.machine (.proc (.execute command exeCheck (s.regs .esp).toNat
        (s.regs .ebp).toNat))) = some o)
      (hstarted : o.proc.live ≠ c.os.proc.live)
      (hbody : Stays (stackBottom c.pid) (s.regs .ebp) s.mem mem)
      (hx : StartsUser o.proc.kernel x) :
      Step code fs c (some (.machine (.proc (.execute command exeCheck (s.regs .esp).toNat
        (s.regs .ebp).toNat)))) ⟨o, x, segs, mem⟩
  /-- A process ends, by `halt` or by an exception, and its caller goes on. -/
  | returns {e : OsEvent} {ebp : Nat} {status : UInt8} {r : State} {o : Os} {x : Context}
      (segs : Seg → BitVec 16) {mem : Memory} (hstep : c.os.step fs e = some o)
      (hend : c.pid ∉ o.proc.live) (hback : ComesBack c.os ebp e o) (hstatus : e.Status c.cpu status)
      (hown : OwnStack c.pid c.mem r.mem)
      (hanswers : Answers code.systemCall (BitVec.ofNat 32 ebp) (status.toBitVec.setWidth 32) r x
        mem) :
      Step code fs c (some e) ⟨o, x, segs, mem⟩

/-- The runs of the computer, with the registers that are seen after each step. -/
abbrev Computer.Steps (code : ReturnAddresses) (fs : Image) :
    Computer → List (Option OsEvent × Context) → Computer → Prop :=
  Run fun c l c' => c.Step code fs l.1 c' ∧ c'.cpu = l.2

end JuddOS
