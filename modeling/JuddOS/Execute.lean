import JuddOS.Kernel
import JuddOS.ReadData

/-!
# `syscalls.c`: `execute` and `halt`, and `pit.c`: `pit_handler`

The functions that start, end and switch processes.  A function that leaves by `iret` or by
jumping through a saved frame does not return, so its result says how control goes on
(`Outcome`).

What a function finds on the stack is an argument here: `esp` and `ebp` are the registers
at the point where the source reads them, and `exeCheck` is what the uninitialised array of
`execute_setup` holds.  An argument string of 128 bytes or more would be stored past the
`args` field of the PCB; the runs that later files consider do not have one.  `execute` begins
here with the call of `execute_setup`: the arrays that it clears before are in
`CommandArrays.lean`, which also says for which commands they make no difference.
-/

namespace JuddOS

/-- How control goes on after a function that may not return. -/
inductive Outcome
  /-- The function returns -1. -/
  | returned (k : Kernel)
  /-- `iret` to a user program. -/
  | user (k : Kernel)
  /-- `leave; ret` through the frame at `ebp`. -/
  | frame (k : Kernel) (ebp : Nat)
  /-- A page fault in the kernel. -/
  | fault

/-- `get_curr_pcb`. -/
def getCurrPcb (esp : Nat) : Nat := esp &&& pcbCalcOffset

/-- The PCB address computed from a process number. -/
def pcbAddr (pid : Nat) : Nat := kernelStackStart - kernelStackSize * (pid + 1)

/-- The top of the kernel stack of a process, the value of `tss.esp0` while it runs. -/
def kernelStackTop (pid : Nat) : Nat := kernelStackStart - kernelStackSize * pid - 4

theorem pcbAddr_eq (pid : Nat) : pcbAddr pid = 0x800000 - 0x2000 * (pid + 1) := by
  unfold pcbAddr
  simp only [kernelStackStart, kernelStackSize]

/-! ## Parsing the command -/

/-- The characters at which both parse loops stop. -/
def endsCommand (c : UInt8) : Bool := c = 0 ∨ c = chNewline ∨ c = chReturn

/-- The inner parse loop: the rest of the line is `args`. -/
def parseArgs : List UInt8 → List UInt8
  | [] => []
  | c :: rest => if endsCommand c then [] else c :: parseArgs rest

/-- The outer parse loop from index `i` on, over the bytes of the command before its NUL.
The result is `fname` and `args`; `none` is the return of -1 for a long name. -/
def parseCommand : Nat → List UInt8 → Option (List UInt8 × List UInt8)
  | _, [] => some ([], [])
  | i, c :: rest =>
      if endsCommand c then some ([], [])
      else if c = chSpace then
        if i ≥ filenameSize then none else some ([], parseArgs rest)
      else (parseCommand (i + 1) rest).map fun p => (c :: p.1, p.2)

/-! ## `execute` -/

/-- `while (i < MAX_PROCESS_NUM && pid_bits[i] == 1) i++`. -/
def firstFreePid (pidBits : Nat → UInt8) : Nat → Nat → Nat
  | 0, i => i
  | n + 1, i => if pidBits i = 1 then firstFreePid pidBits n (i + 1) else i

/-- `exe_check` against `exe_B0` .. `exe_B3`. -/
def hasExeMagic (exeCheck : Buf) : Bool :=
  exeCheck 0 = 0x7f ∧ exeCheck 1 = 0x45 ∧ exeCheck 2 = 0x4c ∧ exeCheck 3 = 0x46

/-- `execute_setup`; the result is `args`, or `none` for -1. -/
def executeSetup (fs : Image) (command : List UInt8) (exeCheck : Buf) (k : Kernel) :
    Kernel × Option (List UInt8) :=
  if command.head? = none ∨ command.head? = some chSpace then (k, none)
  else
    match parseCommand 0 command with
    | none => ({ k with sizeOfArgs := 0 }, none)
    | some (fname, args) =>
        let k := { k with
          sizeOfArgs := args.length
          openedFile := (fileOpen fs (Buf.ofList fname) k.openedFile).2 }
        let (ret, buf) := readData fs (dentryInodeNum k.openedFile) 0 (some exeCheck) 4
        if ret = -1 then (k, none)
        else if hasExeMagic (buf.getD exeCheck) = false then (k, none)
        else
          let i := firstFreePid k.pidBits 6 0
          if i = 6 then (k, none)
          else
            let k := { k with
              availablePid := i
              pidBits := Function.update k.pidBits i 1
              paging := setProcessMemory i k.paging }
            (k, some args)

/-- The descriptor table that `execute_fillpcb` leaves. -/
def initialFdArray (old : Nat → Fd) : Nat → Fd := fun i =>
  if i = 0 then ⟨some .stdin, 0, 0, 1⟩
  else if i = 1 then ⟨some .stdout, 0, 0, 1⟩
  else if i < fdArraySize then Fd.free
  else old i

/-- `execute_fillpcb`. -/
def executeFillpcb (pcbNew esp : Nat) (k : Kernel) : Kernel :=
  k.setPcb pcbNew fun pcb => { pcb with
    parent := if k.availablePid = 0 then 0 else getCurrPcb esp
    pid := k.availablePid
    fdArray := initialFdArray pcb.fdArray }

/-- Step 5 of `execute` and the bookkeeping up to the context switch. -/
def startProcess (fs : Image) (args : List UInt8) (esp ebp : Nat) (k : Kernel) : Kernel :=
  let pcbNew := pcbAddr k.availablePid
  let k := executeFillpcb pcbNew esp k
  let k :=
    if (k.terminalArr k.terminalNum).active = false then
      let k := k.setTerminal k.terminalNum fun t => { t with active := true }
      k.setPcb pcbNew fun pcb => { pcb with parent := 0, tid := k.terminalNum }
    else
      let k := k.setPcb pcbNew fun pcb => { pcb with parent := getCurrPcb esp }
      k.setPcb pcbNew fun pcb => { pcb with tid := (k.pcb (k.pcb pcbNew).parent).tid }
  let k := k.setTerminal k.terminalNum fun t => { t with mostRecentPcb := pcbNew }
  let k := k.setPcb pcbNew fun pcb => { pcb with args := args ++ [0], argsSize := k.sizeOfArgs }
  let k := k.setPcb pcbNew fun pcb => { pcb with ebp := ebp }
  let k := k.setPcb pcbNew fun pcb => { pcb with esp0 := k.tssEsp0 }
  let k := { k with tssEsp0 := kernelStackTop (k.pcb pcbNew).pid }
  let k := k.setPcb pcbNew fun pcb => { pcb with esp := virtualAddrStart + userSpaceSize - 4 }
  let eipBuf := Buf.ofWord (k.pcb pcbNew).eip
  let (_, buf) := readData fs (dentryInodeNum k.openedFile) 24 (some eipBuf) 4
  k.setPcb pcbNew fun pcb => { pcb with eip := (buf.getD eipBuf).word 0 }

/-- `execute` from the call of `execute_setup` on.  The program is read to `FILE_LOCATION` through
the page just mapped. -/
def execute (fs : Image) (command : List UInt8) (exeCheck : Buf) (esp ebp : Nat) (k : Kernel) :
    Outcome :=
  match executeSetup fs command exeCheck k with
  | (k, none) => .returned k
  | (k, some args) =>
      let old : Buf := fun j => (k.peek (fileLocation + j)).getD 0
      let (ret, buf) := readData fs (dentryInodeNum k.openedFile) 0 (some old)
        (UInt32.ofNat pageSize)
      if ret = -1 then .returned k
      else
        match k.pokeRange fileLocation ret.toInt.toNat (buf.getD old) with
        | none => .fault
        | some k => .user (startProcess fs args esp ebp k)

/-! ## `halt` -/

/-- Step 1 of `halt`: `tss.esp0 = current_pcb->esp0`. -/
def haltRestoreEsp0 (currentPcb : Nat) (k : Kernel) : Kernel :=
  { k with tssEsp0 := (k.pcb currentPcb).esp0 }

/-- `pid_bits[current_pcb->pid] = 0`. -/
def haltReleasePid (currentPcb : Nat) (k : Kernel) : Kernel :=
  { k with pidBits := Function.update k.pidBits (k.pcb currentPcb).pid 0 }

/-- `free_process_memory(current_pcb->pid)`. -/
def haltFreeMemory (currentPcb : Nat) (k : Kernel) : Kernel :=
  { k with paging := freeProcessMemory (k.pcb currentPcb).pid k.paging }

/-- `set_process_memory(parent_pcb->pid)`. -/
def haltMapParent (parentPcb : Nat) (k : Kernel) : Kernel :=
  { k with paging := setProcessMemory (k.pcb parentPcb).pid k.paging }

/-- `terminal_arr[terminal_num].most_recent_pcb = parent_pcb`. -/
def haltSetRecent (parentPcb : Nat) (k : Kernel) : Kernel :=
  k.setTerminal k.terminalNum fun t => { t with mostRecentPcb := parentPcb }

/-- Step 3 of `halt`: close the descriptors. -/
def haltCloseFds (currentPcb : Nat) (k : Kernel) : Kernel :=
  k.setPcb currentPcb fun pcb => { pcb with
    fdArray := fun i => if i < fdArraySize then Fd.free else pcb.fdArray i }

/-- `halt`.  A root shell is started again; a process with a parent leaves through the frame
of the `execute` that started it. -/
def halt (esp : Nat) (k : Kernel) : Outcome :=
  let currentPcb := getCurrPcb esp
  let parentPcb := (k.pcb currentPcb).parent
  let k := haltRestoreEsp0 currentPcb k
  if parentPcb = 0 then
    .user { k with tssEsp0 := kernelStackTop (k.pcb currentPcb).pid }
  else
    let k := haltReleasePid currentPcb k
    let k := haltFreeMemory currentPcb k
    let k := haltMapParent parentPcb k
    let k := haltSetRecent parentPcb k
    let k := haltCloseFds currentPcb k
    .frame k (k.pcb currentPcb).ebp

/-! ## `pit_handler` -/

/-- `"shell\n"`. -/
def shellCommand : List UInt8 := [0x73, 0x68, 0x65, 0x6c, 0x6c, 0x0a]

/-- The rest of `pit_handler` once the next terminal is on.  Address 0 is not mapped, so a
`NULL` `most_recent_pcb` is a page fault. -/
def resumeTerminal (next : Tid) (k : Kernel) : Outcome :=
  if (k.terminalArr next).mostRecentPcb = 0 then .fault
  else
    let k := { k with
      paging := setProcessMemory (k.pcb (k.terminalArr next).mostRecentPcb).pid k.paging }
    let k := { k with tssEsp0 := (k.terminalArr next).esp0 }
    .frame k (k.terminalArr next).ebp

/-- The first half of `pit_handler`: leave the current terminal. -/
def leaveTerminal (ebp : Nat) (k : Kernel) : Kernel :=
  let curr := k.terminalNum
  let k := { k with terminalNum := k.terminalNum + 1 }
  let k := k.setTerminal curr fun t => { t with ebp := ebp }
  k.setTerminal curr fun t => { t with esp0 := k.tssEsp0 }

/-- `pit_handler`; `ebpExecute` is the frame pointer inside the nested `execute`. -/
def pitHandler (fs : Image) (exeCheck : Buf) (esp ebp ebpExecute : Nat) (k : Kernel) : Outcome :=
  let k := leaveTerminal ebp k
  if (k.terminalArr k.terminalNum).active = false then
    match execute fs shellCommand exeCheck esp ebpExecute k with
    | .returned k => resumeTerminal k.terminalNum k
    | outcome => outcome
  else resumeTerminal k.terminalNum k

end JuddOS
