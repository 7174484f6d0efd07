import JuddOS.Loader
import JuddOS.Rtc
import JuddOS.TerminalRead

/-!
# `syscalls.c`: `open`, `close`, `read` and `write`

A descriptor names a table of functions, and a slot of a table may be `NULL`.  `readCall` and
`writeCall` go through both, so a call through `NULL` is a result of its own (`Reply.nullCall`).

A call that waits lets interrupts through: `interrupts i` is what they do to the state in the
`i`-th stretch of the wait, between two tests of its condition.  Everything a call does
runs on the kernel stack of its process, so one `esp` stands for all of it.  `stale` is what the
local `dentry_t` holds before it is filled.

The second half says what each function does to a descriptor table.
-/

namespace JuddOS

open Image

/-- The state that the calls work on: the kernel, `file_index` of `filesystem.c`, and the clock. -/
structure Io where
  kernel : Kernel
  fileIndex : UInt32
  rtc : Rtc

/-- The descriptor table of a PCB. -/
def Io.fds (io : Io) (addr : Nat) : Nat → Fd := (io.kernel.pcb addr).fdArray

/-- Change one descriptor. -/
def Io.setFd (addr fd : Nat) (f : Fd → Fd) (io : Io) : Io :=
  { io with
    kernel := io.kernel.setPcb addr fun pcb =>
      { pcb with fdArray := Function.update pcb.fdArray fd (f (pcb.fdArray fd)) } }

/-- What becomes of a call. -/
inductive Reply (α : Type)
  /-- The call returns a value and leaves a result. -/
  | returned (value : Int32) (result : α) (io : Io)
  /-- The call still waits. -/
  | waiting
  /-- The call goes through a `NULL` function pointer. -/
  | nullCall
  /-- A page fault in the kernel, or a copy that leaves the object it fills. -/
  | fault

/-- The caller's buffer after a call, and where the call stored: the first byte and the number of
bytes of each store. -/
structure Written where
  buf : Option Buf
  stores : List (Nat × Nat)

/-! ## The functions of the tables -/

/-- The functions in the read slots. -/
inductive ReadFn
  | terminalRead | fileRead | dirRead | rtcRead
  deriving DecidableEq

/-- The functions in the write slots. -/
inductive WriteFn
  | terminalWrite | fileWrite | dirWrite | rtcWrite
  deriving DecidableEq

/-- The read slots of the tables. -/
def FopsTable.read : FopsTable → Option ReadFn
  | .file => some .fileRead
  | .dir => some .dirRead
  | .rtc => some .rtcRead
  | .stdin => some .terminalRead
  | .stdout => none

/-- The write slots of the tables. -/
def FopsTable.write : FopsTable → Option WriteFn
  | .file => some .fileWrite
  | .dir => some .dirWrite
  | .rtc => some .rtcWrite
  | .stdin => none
  | .stdout => some .terminalWrite

/-- `terminal_read`. -/
def terminalRead (interrupts : Nat → Io → Io) (buf : Option Buf) (nbytes : Int32) (io : Io) :
    Reply Written :=
  let io := { io with kernel := plantReturn io.kernel }
  match buf with
  | none => .returned (-1) ⟨none, []⟩ io
  | some bytes =>
      if nbytes < 0 then .returned (-1) ⟨some bytes, []⟩ io
      else
        -- `enter_flag != 1 || terminal_num != terminal_num_display`, from left to right
        let io := interrupts 0 io
        if io.kernel.enterFlag = false then .waiting
        else
          let io := interrupts 1 io
          if io.kernel.terminalNum ≠ io.kernel.terminalNumDisplay then .waiting
          else
            -- `cli` comes after the loop
            let io := interrupts 2 io
            let ((cnt, bytes), kernel) := takeLine bytes nbytes io.kernel
            .returned (UInt32.ofNat cnt).toInt32
              ⟨some bytes, (List.range cnt).map fun i => (i, 1)⟩ { io with kernel := kernel }

/-- `memset(buf, 0, n)`. -/
def clearBytes (buf : Buf) (n : Nat) : Buf := fun j => if j < n then 0 else buf j

/-- `file_read`.  With `NULL` for `buf` the first store of `memset` faults; `read_data` refuses
`NULL`. -/
def fileRead (fs : Image) (esp : Nat) (fd : Int32) (buf : Option Buf) (nbytes : Int32) (io : Io) :
    Reply Written :=
  let length := nbytes.toUInt32
  match buf with
  | none => if length = 0 then .returned 0 ⟨none, []⟩ io else .fault
  | some bytes =>
      let bytes := clearBytes bytes length.toNat
      let currentPcb := getCurrPcb esp
      let current := io.fds currentPcb fd.toInt.toNat
      let (readBytes, buf) := readData fs current.inode current.filePos (some bytes) length
      let written : Written :=
        ⟨buf, (0, length.toNat) :: readStores fs current.inode current.filePos bytes length⟩
      if readBytes ≠ -1 then
        .returned readBytes written
          (io.setFd currentPcb fd.toInt.toNat fun f =>
            { f with filePos := current.filePos + readBytes.toUInt32 })
      else .returned 0 written io

/-- `strcpy` of the name at `ptr` leaves the 64 bytes of a `dentry_t`. -/
def Image.NameOverruns (fs : Image) (ptr : Nat) : Prop := dentrySize ≤ strlen (fs.bufAt ptr)

instance (fs : Image) (ptr : Nat) : Decidable (fs.NameOverruns ptr) :=
  inferInstanceAs (Decidable (dentrySize ≤ strlen (fs.bufAt ptr)))

/-- `read_dentry_by_index`.  Its caller passes the address of an object for `dentry`. -/
def readDentryByIndex (fs : Image) (index : UInt32) (dentry : Buf) : Int32 × Buf :=
  if index ≥ fs.numDentries then (-1, dentry)
  else
    let dentry := clearDentry dentry
    let ptr := dentrySize + dentrySize * index.toNat
    (0, copyDentry dentry (fs.bufAt ptr))

/-- `dir_read`. -/
def dirRead (fs : Image) (stale : Buf) (buf : Option Buf) (nbytes : Int32) (io : Io) :
    Reply Written :=
  if io.fileIndex = fs.numDentries then .returned 0 ⟨buf, []⟩ { io with fileIndex := 0 }
  else
    let (ret, readFile) := readDentryByIndex fs io.fileIndex stale
    if ret = 0 then
      if fs.NameOverruns (dentrySize + dentrySize * io.fileIndex.toNat) then .fault
      else
        let copiedBytes := (UInt32.ofNat (strlen readFile)).toInt32
        let copiedBytes := if copiedBytes > nbytes then nbytes else copiedBytes
        match buf with
        | none => .fault
        | some bytes =>
            -- the whole name field is copied, whatever `copied_bytes` is
            .returned copiedBytes ⟨some (memcpy bytes 0 readFile filenameSize), [(0, filenameSize)]⟩
              { io with fileIndex := io.fileIndex + 1 }
    else .returned (-1) ⟨buf, []⟩ io

/-- `rtc_read`. -/
def rtcReadCall (interrupts : Nat → Io → Io) (buf : Option Buf) (io : Io) : Reply Written :=
  let io := interrupts 0 io
  if io.rtc.rtcSignal = false then .waiting
  else .returned (rtcRead io.rtc).1 ⟨buf, []⟩ { io with rtc := (rtcRead io.rtc).2 }

/-- A call of the function in a read slot. -/
def ReadFn.call (fs : Image) (stale : Buf) (interrupts : Nat → Io → Io) (esp : Nat) (fd : Int32)
    (buf : Option Buf) (nbytes : Int32) (io : Io) : ReadFn → Reply Written
  | .terminalRead => JuddOS.terminalRead interrupts buf nbytes io
  | .fileRead => JuddOS.fileRead fs esp fd buf nbytes io
  | .dirRead => JuddOS.dirRead fs stale buf nbytes io
  | .rtcRead => rtcReadCall interrupts buf io

/-- A call of the function in a write slot.  `rtc_write` reads the word at `buf` first. -/
def WriteFn.call (buf : Option Buf) (nbytes : Int32) (io : Io) : WriteFn → Reply Unit
  | .terminalWrite =>
      match JuddOS.terminalWrite buf nbytes io.kernel with
      | none => .fault
      | some (ret, kernel) => .returned ret () { io with kernel := kernel }
  | .fileWrite => .returned (-1) () io
  | .dirWrite => .returned (-1) () io
  | .rtcWrite =>
      match buf with
      | none => .fault
      | some bytes =>
          .returned (JuddOS.rtcWrite bytes nbytes io.rtc).1 ()
            { io with rtc := (JuddOS.rtcWrite bytes nbytes io.rtc).2 }

/-! ## The system calls -/

/-- `read`. -/
def readCall (fs : Image) (stale : Buf) (interrupts : Nat → Io → Io) (esp : Nat) (fd : Int32)
    (buf : Option Buf) (nbytes : Int32) (io : Io) : Reply Written :=
  let current := io.fds (getCurrPcb esp) fd.toInt.toNat
  if fd < 0 ∨ fd ≥ 8 ∨ fd = 1 ∨ current.flags = 0 then .returned (-1) ⟨buf, []⟩ io
  else
    match current.fxnTblPtr with
    | none => .nullCall
    | some table =>
        match table.read with
        | none => .nullCall
        | some fn => fn.call fs stale interrupts esp fd buf nbytes io

/-- `write`. -/
def writeCall (esp : Nat) (fd : Int32) (buf : Option Buf) (nbytes : Int32) (io : Io) :
    Reply Unit :=
  let current := io.fds (getCurrPcb esp) fd.toInt.toNat
  if fd < 0 ∨ fd ≥ 8 ∨ fd = 0 ∨ current.flags = 0 then .returned (-1) () io
  else
    match current.fxnTblPtr with
    | none => .nullCall
    | some table =>
        match table.write with
        | none => .nullCall
        | some fn => fn.call buf nbytes io

/-- The search of `open` for a free descriptor, with the number of iterations left. -/
def firstFreeFd (fdArray : Nat → Fd) : Nat → Nat → Nat
  | 0, i => i
  | n + 1, i => if (fdArray i).flags = 0 then i else firstFreeFd fdArray n (i + 1)

/-- The two loops of `open` that measure a name of at most `n` bytes. -/
def sizeWithin (name : Buf) : Nat → Nat → Nat
  | 0, i => i
  | n + 1, i => if name i = 0 then i else sizeWithin name n (i + 1)

/-- The directory entry that `read_dentry_by_name` copies. -/
def foundEntry (fs : Image) (fname : Buf) : Option Nat :=
  let search := findDentry fs fname (fs.numDentries.toNat + 1) 0 dentrySize
  if search.1 ≥ fs.numDentries.toNat then none else some search.1

/-- `open`.  The test of `filename` against `""` is left out: such a pointer points to a NUL. -/
def openCall (fs : Image) (stale : Buf) (esp : Nat) (filename : Option Buf) (io : Io) :
    Reply Unit :=
  match filename with
  | none => .returned (-1) () io
  | some filename =>
      if filename 0 = 0 ∨ filename 0 = chSpace then .returned (-1) () io
      else
        let currentPcb := getCurrPcb esp
        let (ret, currentDentry) := readDentryByName fs filename stale
        if ret = -1 then .returned (-1) () io
        else if ∃ e ∈ foundEntry fs filename, fs.NameOverruns (dentrySize * (e + 1)) then .fault
        else
          let i := firstFreeFd (io.fds currentPcb) 6 2
          if i = fdArraySize then .returned (-1) () io
          else if dentryFiletype currentDentry = 0 then
            let io := io.setFd currentPcb i fun _ => ⟨some .rtc, 0, 0, 1⟩
            .returned (Int32.ofNat i) () { io with rtc := (rtcOpen io.rtc).2 }
          else if dentryFiletype currentDentry = 1 then
            .returned (Int32.ofNat i) () (io.setFd currentPcb i fun _ => ⟨some .dir, 0, 0, 1⟩)
          else if dentryFiletype currentDentry = 2 then
            let sizeOfDentryFilename := sizeWithin currentDentry filenameSize 0
            let sizeOfFilename := sizeWithin filename (filenameSize + 1) 0
            if sizeOfFilename ≠ sizeOfDentryFilename then .returned (-1) () io
            else if strncmp currentDentry filename sizeOfFilename ≠ 0 then .returned (-1) () io
            else
              .returned (Int32.ofNat i) ()
                (io.setFd currentPcb i fun _ =>
                  ⟨some .file, dentryInodeNum currentDentry, 0, 1⟩)
          else .returned (-1) () io

/-- `close`. -/
def closeCall (esp : Nat) (fd : Int32) (io : Io) : Reply Unit :=
  if fd < 2 ∨ fd ≥ 8 then .returned (-1) () io
  else
    let currentPcb := getCurrPcb esp
    if (io.fds currentPcb fd.toInt.toNat).flags = 0 then .returned (-1) () io
    else .returned 0 () (io.setFd currentPcb fd.toInt.toNat fun f => { f with flags := 0 })

end JuddOS
