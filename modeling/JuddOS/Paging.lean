import JuddOS.X86.PageWalk
import Mathlib.Data.Fin.Basic
import Mathlib.Tactic.FinCases

/-!
# `paging.c`: the kernel's page tables

The three global tables and the functions that write them.  A table is a function from the
entry index, and a loop whose iterations write different entries is written as the table
that it leaves.

* `initPaging`, `setProcessMemory`, `freeProcessMemory` and `setUpVirtualToVideo` are the
  functions of the source; each statement of the source is one field update here.
* `Paging.walk` is the hardware's walk over `Page_Directory_Entry`.  The frames of
  `Page_Table_Entry` and `Page_Table_Entry_For_Video` are chosen by the linker
  (`Layout`); every other frame holds arbitrary memory (`elsewhere`).
* The lemmas give what each function does to the entries that a walk reads.  Later files
  use these and never unfold the functions.
-/

namespace JuddOS

open X86

@[simp] abbrev numPte : Nat := 1024
@[simp] abbrev sizeOfEntry : Nat := 4096
@[simp] abbrev vidMemOffset : Nat := 0xb8
@[simp] abbrev addrStartOffset : Nat := 0x1000
@[simp] abbrev kernelSpaceOffset : Nat := 0x400000
@[simp] abbrev userSpaceOffset : Nat := 0x800000
@[simp] abbrev userSpaceSize : Nat := 0x400000
@[simp] abbrev userVirtualAddr : Nat := 32
@[simp] abbrev vidBufAddrBase : Nat := 0x800000 + 0x400000 * 6
@[simp] abbrev virtualVideoAddress : Nat := 0x08500000
@[simp] abbrev virtualAddrStart : Nat := 0x08000000
@[simp] abbrev videoAddr : Nat := 0xB8000

/-- An index into `terminal_arr`, below `NUM_TERMINALS`. -/
abbrev Tid : Type := Fin 3

/-- What the numerals of `Tid` need. -/
instance tid_neZero : NeZero 3 := ⟨by decide⟩

/-- A process number, below `MAX_PROCESS_NUM`. -/
abbrev Pid : Type := Fin 6

/-- Where the linker put the two page tables, as frame numbers (`address >> ALIGN`). -/
structure Layout where
  pageTable : BitVec 20
  pageTableForVideo : BitVec 20
  ne : pageTable ≠ pageTableForVideo

/-- The global tables of `paging.h`. -/
structure Paging where
  pageDirectoryEntry : Nat → Pde
  pageTableEntry : Nat → Pte
  pageTableEntryForVideo : Nat → Pte
  layout : Layout
  /-- The memory outside the two page tables, read as page tables. -/
  elsewhere : BitVec 20 → Nat → Pte

namespace Paging

/-- The tables as the loader leaves them: all bytes zero. -/
def zeroed (layout : Layout) (elsewhere : BitVec 20 → Nat → Pte) : Paging where
  pageDirectoryEntry _ := Pde.ofVal 0
  pageTableEntry _ := Pte.ofVal 0
  pageTableEntryForVideo _ := Pte.ofVal 0
  layout := layout
  elsewhere := elsewhere

/-- The page table held by a frame. -/
def tables (p : Paging) (frame : BitVec 20) : Nat → Pte :=
  if frame = p.layout.pageTable then p.pageTableEntry
  else if frame = p.layout.pageTableForVideo then p.pageTableEntryForVideo
  else p.elsewhere frame

/-- The hardware walk over `Page_Directory_Entry`. -/
def walk (p : Paging) (v : Nat) : Option Translation :=
  X86.walk p.pageDirectoryEntry p.tables v

/-- The physical address a kernel access to `v` goes to; `none` is a page fault. -/
def translate (p : Paging) (v : Nat) : Option Nat := (p.walk v).map (·.phys)

/-- Update one directory entry. -/
def setPde (p : Paging) (i : Nat) (f : Pde → Pde) : Paging :=
  { p with pageDirectoryEntry :=
      Function.update p.pageDirectoryEntry i (f (p.pageDirectoryEntry i)) }

/-- Update one entry of the video page table. -/
def setVideoPte (p : Paging) (i : Nat) (pte : Pte) : Paging :=
  { p with pageTableEntryForVideo := Function.update p.pageTableEntryForVideo i pte }

@[simp] theorem setPde_self (p : Paging) (i : Nat) (f : Pde → Pde) :
    (p.setPde i f).pageDirectoryEntry i = f (p.pageDirectoryEntry i) := by
  simp [setPde]

theorem setPde_of_ne (p : Paging) {i j : Nat} (f : Pde → Pde) (h : j ≠ i) :
    (p.setPde i f).pageDirectoryEntry j = p.pageDirectoryEntry j := by
  simp [setPde, h]

@[simp] theorem tables_setPde (p : Paging) (i : Nat) (f : Pde → Pde) :
    (p.setPde i f).tables = p.tables := rfl

@[simp] theorem tables_pageTable (p : Paging) :
    p.tables p.layout.pageTable = p.pageTableEntry := by
  simp [tables]

@[simp] theorem tables_video (p : Paging) :
    p.tables p.layout.pageTableForVideo = p.pageTableEntryForVideo := by
  simp [tables, p.layout.ne.symm]

end Paging

/-- `READ_WRITE_BIT` and `PRESENT_BIT` as table-entry values. -/
def readWriteBit : BitVec 32 := 0x00000002
def presentBit : BitVec 32 := 0x00000001

/-- `init_paging`.  The store to `Page_Table_Entry_For_Video[NUM_PTE]` after the loop is
past the end of that table and has no effect on any of the three. -/
def initPaging (p : Paging) : Paging :=
  let p := { p with
    pageDirectoryEntry := fun i =>
      if i < numPte then Pde.ofVal readWriteBit else p.pageDirectoryEntry i
    pageTableEntry := fun i =>
      if i < numPte then
        if i = vidMemOffset then
          Pte.ofVal (BitVec.ofNat 32 (i * addrStartOffset) ||| readWriteBit ||| presentBit)
        else Pte.ofVal (BitVec.ofNat 32 (i * addrStartOffset) ||| readWriteBit)
      else p.pageTableEntry i }
  let p := p.setPde 0 fun e =>
    { e with present := true, readWrite := true, pageTableAddr := p.layout.pageTable }
  p.setPde 1 fun e =>
    { e with
      present := true, readWrite := true, pageSize := true
      pageTableAddr := BitVec.ofNat 20 (kernelSpaceOffset / 2 ^ 12) }

/-- `set_process_memory`. -/
def setProcessMemory (pid : Nat) (p : Paging) : Paging :=
  p.setPde userVirtualAddr fun e =>
    { e with
      present := true, readWrite := true, userSupervisor := true, pageSize := true
      pageTableAddr :=
        BitVec.ofNat 20 (userSpaceOffset / 2 ^ 12 + pid * (userSpaceSize / 2 ^ 12)) }

/-- `free_process_memory`. -/
def freeProcessMemory (pid : Nat) (p : Paging) : Paging :=
  p.setPde userVirtualAddr fun e =>
    { e with
      present := false, readWrite := false, userSupervisor := false, pageSize := false
      pageTableAddr :=
        BitVec.ofNat 20 (userSpaceOffset / 2 ^ 12 + pid * (userSpaceSize / 2 ^ 12)) }

/-- The value stored for a page of video memory or of a video buffer, with
`user_supervisor` set by the next statement. -/
def videoPte (addr : Nat) : Pte :=
  { Pte.ofVal (BitVec.ofNat 32 addr ||| readWriteBit ||| presentBit) with
    userSupervisor := true }

/-- `set_up_virtual_to_video`: terminal `tid` is shown, the other two go to their buffers.
`vidmemAddr` is the field of `terminal_arr`. -/
def setUpVirtualToVideo (vidmemAddr : Tid → Nat) (tid : Tid)
    (p : Paging) : Paging :=
  let buf1Tid := tid + 1
  let buf2Tid := tid + 2
  let dirEnt := dirIndex (vidmemAddr tid)
  let p := p.setPde dirEnt fun e =>
    { e with present := true, readWrite := true, userSupervisor := true, pageSize := false }
  let p := p.setVideoPte (tableIndex (vidmemAddr tid)) (videoPte (vidMemOffset * addrStartOffset))
  let p := p.setVideoPte (tableIndex (vidmemAddr buf1Tid))
    (videoPte (vidBufAddrBase + buf1Tid.val * addrStartOffset))
  let p := p.setVideoPte (tableIndex (vidmemAddr buf2Tid))
    (videoPte (vidBufAddrBase + buf2Tid.val * addrStartOffset))
  p.setPde dirEnt fun e => { e with pageTableAddr := p.layout.pageTableForVideo }

/-- The addresses that `terminal_init` gives to the terminals. -/
def terminalVidmem (i : Tid) : Nat := virtualVideoAddress + i.val * sizeOfEntry

/-- First physical address of the page of process `pid`. -/
def processFrame (pid : Nat) : Nat := userSpaceOffset + pid * userSpaceSize

/-- First physical address of the buffer of terminal `i`. -/
def videoBuffer (i : Tid) : Nat := vidBufAddrBase + i.val * addrStartOffset

/-! ## The process page -/

/-- The directory entry that maps the page of `pid`. -/
structure MapsProcess (p : Paging) (pid : Nat) : Prop where
  present : (p.pageDirectoryEntry userVirtualAddr).present = true
  user : (p.pageDirectoryEntry userVirtualAddr).userSupervisor = true
  large : (p.pageDirectoryEntry userVirtualAddr).pageSize = true
  frame : (p.pageDirectoryEntry userVirtualAddr).pageTableAddr =
    BitVec.ofNat 20 (userSpaceOffset / 2 ^ 12 + pid * (userSpaceSize / 2 ^ 12))

theorem mapsProcess_setProcessMemory (pid : Nat) (p : Paging) :
    MapsProcess (setProcessMemory pid p) pid := by
  constructor <;> simp [setProcessMemory]

theorem processFrame_toNat {pid : Nat} (h : pid < 6) :
    (BitVec.ofNat 20 (userSpaceOffset / 2 ^ 12 + pid * (userSpaceSize / 2 ^ 12))).toNat / 2 ^ 10
      * 2 ^ 22 = processFrame pid := by
  simp only [userSpaceOffset, userSpaceSize, processFrame, BitVec.toNat_ofNat]
  omega

/-- A mapped process page is translated to the process's 4 MB frame. -/
theorem MapsProcess.walk {p : Paging} {pid : Nat} (h : MapsProcess p pid)
    (hpid : pid < 6) {o : Nat} (ho : o < userSpaceSize) :
    p.walk (virtualAddrStart + o) = some ⟨processFrame pid + o, true⟩ := by
  simp only [userSpaceSize] at ho
  have hindex : dirIndex (virtualAddrStart + o) = userVirtualAddr := by
    simp only [dirIndex, virtualAddrStart, userVirtualAddr]
    omega
  have hoffset : (virtualAddrStart + o) % 2 ^ 22 = o := by
    simp only [virtualAddrStart]
    omega
  rw [Paging.walk, walk_large (by rw [hindex]) h.present h.large, h.frame,
    processFrame_toNat hpid, hoffset, h.user]

theorem MapsProcess.translate {p : Paging} {pid : Nat} (h : MapsProcess p pid)
    (hpid : pid < 6) {o : Nat} (ho : o < userSpaceSize) :
    p.translate (virtualAddrStart + o) = some (processFrame pid + o) := by
  rw [Paging.translate, h.walk hpid ho]
  rfl

/-- Two live mappings name the same process. -/
theorem MapsProcess.unique {p : Paging} {pid pid' : Nat} (h : MapsProcess p pid)
    (h' : MapsProcess p pid') (hpid : pid < 6) (hpid' : pid' < 6) :
    pid = pid' := by
  have hframes : processFrame pid = processFrame pid' := by
    rw [← processFrame_toNat hpid, ← processFrame_toNat hpid', ← h.frame, ← h'.frame]
  simp only [processFrame, userSpaceOffset, userSpaceSize] at hframes
  omega

/-! ## The video pages -/

theorem tableIndex_terminalVidmem (i : Tid) :
    tableIndex (terminalVidmem i) = 256 + i.val := by
  simp only [tableIndex, terminalVidmem, virtualVideoAddress, sizeOfEntry]
  omega

theorem dirIndex_terminalVidmem (i : Tid) : dirIndex (terminalVidmem i) = 33 := by
  simp only [dirIndex, terminalVidmem, virtualVideoAddress, sizeOfEntry]
  omega

/-- Physical page shown at the virtual page of terminal `i` while `tid` is displayed. -/
def videoPage (tid i : Tid) : Nat := if i = tid then videoAddr else videoBuffer i

theorem videoPte_present (addr : Nat) : (videoPte addr).present = true := by
  simp [videoPte, Pte.ofVal, presentBit]

theorem videoPte_pageAddr (tid i : Tid) :
    (videoPte (videoPage tid i)).pageAddr.toNat * 2 ^ 12 = videoPage tid i := by
  revert tid i
  decide

/-- **What `set_up_virtual_to_video` does to the video page table**, once `terminal_init`
has given the terminals their addresses. -/
theorem setUpVirtualToVideo_videoPte (tid : Tid) (p : Paging) (j : Nat) :
    (setUpVirtualToVideo terminalVidmem tid p).pageTableEntryForVideo j =
      if h : 256 ≤ j ∧ j < 259 then
        videoPte (videoPage tid ⟨j - 256, by omega⟩)
      else p.pageTableEntryForVideo j := by
  simp only [setUpVirtualToVideo, Paging.setPde, Paging.setVideoPte, tableIndex_terminalVidmem]
  by_cases hj : 256 ≤ j ∧ j < 259
  · rw [dif_pos hj]
    obtain ⟨i, hi⟩ : ∃ i : Tid, j = 256 + i.val :=
      ⟨⟨j - 256, by omega⟩, by simp; omega⟩
    subst hi
    have hi : (⟨256 + i.val - 256, by omega⟩ : Tid) = i := by
      ext
      simp
    rw [hi]
    fin_cases tid <;> fin_cases i <;> rfl
  · rw [dif_neg hj]
    have hne : ∀ i : Tid, j ≠ 256 + i.val := by
      intro i hji
      omega
    simp [Function.update_of_ne, hne]

/-- What it does to the page directory. -/
theorem setUpVirtualToVideo_pde (tid : Tid) (p : Paging) :
    (setUpVirtualToVideo terminalVidmem tid p).pageDirectoryEntry 33 =
      { p.pageDirectoryEntry 33 with
        present := true, readWrite := true, userSupervisor := true, pageSize := false
        pageTableAddr := p.layout.pageTableForVideo } := by
  simp [setUpVirtualToVideo, Paging.setPde, Paging.setVideoPte, dirIndex_terminalVidmem]

theorem setUpVirtualToVideo_pde_of_ne (tid : Tid) (p : Paging) {j : Nat}
    (hj : j ≠ 33) :
    (setUpVirtualToVideo terminalVidmem tid p).pageDirectoryEntry j =
      p.pageDirectoryEntry j := by
  simp [setUpVirtualToVideo, Paging.setPde, Paging.setVideoPte, dirIndex_terminalVidmem, hj]

end JuddOS
