import JuddOS.FileSystem
import JuddOS.Support.Loop
import JuddOS.Paging

/-!
# The kernel's global state

One record holds what the C files keep in global variables, together with physical memory,
the VGA cursor registers and the task-state segment.  `none` as the result of a function is
a page fault in the kernel.

* `Pcb` and `Terminal` are `pcb_t` and `terminal_t`.  A PCB is addressed by its address; 0
  is `NULL`.
* `peek` and `poke` are accesses to a virtual address through the page tables; nothing
  else reads or writes `phys`.
-/

namespace JuddOS

@[simp] abbrev kernelStackStart : Nat := 0x00800000
@[simp] abbrev kernelStackSize : Nat := 0x2000
@[simp] abbrev pageSize : Nat := 0x00400000
@[simp] abbrev fileLocation : Nat := 0x08048000
@[simp] abbrev fdArraySize : Nat := 8
@[simp] abbrev screenBufSize : Nat := 128
@[simp] abbrev numCols : Nat := 80
@[simp] abbrev numRows : Nat := 25
@[simp] abbrev attrib : UInt8 := 0x7
@[simp] abbrev chSpace : UInt8 := 0x20
@[simp] abbrev chNewline : UInt8 := 0x0a
@[simp] abbrev chReturn : UInt8 := 0x0d

/-- `PCB_CALC_OFFSET`. -/
abbrev pcbCalcOffset : Nat := 0xFFFFE000

/-- The file-operation tables of `syscalls.c`. -/
inductive FopsTable
  | file | dir | rtc | stdin | stdout
  deriving DecidableEq

/-- `fd_t`; `none` is a `NULL` table pointer. -/
structure Fd where
  fxnTblPtr : Option FopsTable
  inode : UInt32
  filePos : UInt32
  flags : UInt32
  deriving DecidableEq

/-- A free descriptor. -/
def Fd.free : Fd := ⟨none, 0, 0, 0⟩

/-- `pcb_t`.  `args` is what `strcpy` has stored from the start of the field on, its NUL
included. -/
structure Pcb where
  parent : Nat
  pid : Nat
  tid : Tid
  esp0 : Nat
  ebp : Nat
  eip : UInt32
  esp : Nat
  fdArray : Nat → Fd
  args : List UInt8
  argsSize : Nat

/-- `terminal_t`. -/
structure Terminal where
  mostRecentPcb : Nat
  ebp : Nat
  esp0 : Nat
  cursorX : Nat
  cursorY : Nat
  screenBuf : Buf
  screenBufTop : Nat
  vidmemAddr : Nat
  active : Bool

/-- The global variables, memory and device registers. -/
structure Kernel where
  -- paging.c, and physical memory
  paging : Paging
  phys : Nat → UInt8
  -- syscalls.c and the TSS
  tssEsp0 : Nat
  pidBits : Nat → UInt8
  pcb : Nat → Pcb
  availablePid : Nat
  sizeOfArgs : Nat
  -- filesystem.c
  openedFile : Buf
  -- pit.c
  terminalArr : Tid → Terminal
  terminalNum : Tid
  -- keyboard.c
  terminalNumDisplay : Tid
  ctrlFlag : Bool
  altFlag : Bool
  shiftFlag : Bool
  capsFlag : Bool
  bufFlag : Nat
  backFlag : Bool
  ctrlFlagL : Bool
  enterFlag : Bool
  terminalZeroFlag : Bool
  terminalOneFlag : Bool
  terminalTwoFlag : Bool
  -- lib.c
  screenX : Nat
  screenY : Nat
  /-- The position in the VGA cursor registers. -/
  vgaCursor : Nat
  /-- History of the character stores of `putc_addr` and `terminal_write`: the terminal each
  was meant for and its offset from that terminal's `vidmem_addr`. -/
  charStores : List (Tid × Nat)

/-- What the kernel finds when it is entered and does not set itself: where the linker put
the page tables, the rest of memory, the area of the PCBs and the VGA cursor, and where the
boot messages, which depend on the machine, leave the cursor of `putc`. -/
structure PowerOn where
  layout : Layout
  elsewhere : BitVec 20 → Nat → X86.Pte
  phys : Nat → UInt8
  pcb : Nat → Pcb
  vgaCursor : Nat
  screenX : Nat
  screenY : Nat

/-- A machine whose memory is zero. -/
def PowerOn.blank : PowerOn where
  layout := { pageTable := 0, pageTableForVideo := 1, ne := by decide }
  elsewhere _ _ := X86.Pte.ofVal 0
  phys _ := 0
  pcb _ :=
    { parent := 0, pid := 0, tid := 0, esp0 := 0, ebp := 0, eip := 0, esp := 0
      fdArray := fun _ => Fd.free, args := [], argsSize := 0 }
  vgaCursor := 0
  screenX := 0
  screenY := 0

/-- The kernel when `entry` is called: the global variables are zero. -/
def Kernel.zeroed (m : PowerOn) : Kernel where
  paging := Paging.zeroed m.layout m.elsewhere
  phys := m.phys
  tssEsp0 := 0
  pidBits _ := 0
  pcb := m.pcb
  availablePid := 0
  sizeOfArgs := 0
  openedFile _ := 0
  terminalArr _ :=
    { mostRecentPcb := 0, ebp := 0, esp0 := 0, cursorX := 0, cursorY := 0
      screenBuf := fun _ => 0, screenBufTop := 0, vidmemAddr := 0, active := false }
  terminalNum := 0
  terminalNumDisplay := 0
  ctrlFlag := false
  altFlag := false
  shiftFlag := false
  capsFlag := false
  bufFlag := 0
  backFlag := false
  ctrlFlagL := false
  enterFlag := false
  terminalZeroFlag := false
  terminalOneFlag := false
  terminalTwoFlag := false
  screenX := 0
  screenY := 0
  vgaCursor := m.vgaCursor
  charStores := []

namespace Kernel

/-- Change one element of `terminal_arr`. -/
def setTerminal (k : Kernel) (t : Tid) (f : Terminal → Terminal) : Kernel :=
  { k with terminalArr := Function.update k.terminalArr t (f (k.terminalArr t)) }

/-- Change the PCB at an address. -/
def setPcb (k : Kernel) (addr : Nat) (f : Pcb → Pcb) : Kernel :=
  { k with pcb := Function.update k.pcb addr (f (k.pcb addr)) }

@[simp] theorem setTerminal_self (k : Kernel) (t : Tid) (f : Terminal → Terminal) :
    (k.setTerminal t f).terminalArr t = f (k.terminalArr t) := by
  simp [setTerminal]

theorem setTerminal_of_ne (k : Kernel) {t u : Tid} (f : Terminal → Terminal) (h : u ≠ t) :
    (k.setTerminal t f).terminalArr u = k.terminalArr u := by
  simp [setTerminal, h]

/-- Two assignments to one terminal are one. -/
theorem setTerminal_setTerminal (k : Kernel) (t : Tid) (f g : Terminal → Terminal) :
    (k.setTerminal t f).setTerminal t g = k.setTerminal t fun u => g (f u) := by
  simp [setTerminal]

@[simp] theorem setPcb_self (k : Kernel) (addr : Nat) (f : Pcb → Pcb) :
    (k.setPcb addr f).pcb addr = f (k.pcb addr) := by
  simp [setPcb]

theorem setPcb_of_ne (k : Kernel) {addr addr' : Nat} (f : Pcb → Pcb) (h : addr' ≠ addr) :
    (k.setPcb addr f).pcb addr' = k.pcb addr' := by
  simp [setPcb, h]

/-- Read the byte at a virtual address. -/
def peek (k : Kernel) (v : Nat) : Option UInt8 := (k.paging.translate v).map k.phys

/-- Write the byte at a virtual address. -/
def poke (k : Kernel) (v : Nat) (b : UInt8) : Option Kernel :=
  (k.paging.translate v).map fun a => { k with phys := Function.update k.phys a b }

/-- Write `n` bytes from a virtual address on, in order. -/
def pokeRange (k : Kernel) (v n : Nat) (bytes : Buf) : Option Kernel :=
  Support.forRange (fun j k => k.poke (v + j) (bytes j)) 0 n k

/-- Read `n` bytes from a virtual address on. -/
def peekRange (k : Kernel) (v n : Nat) : Option Buf :=
  if ∀ j, j < n → (k.paging.translate (v + j)).isSome then
    some fun j => (k.peek (v + j)).getD 0
  else none

theorem poke_eq {k : Kernel} {v a : Nat} {b : UInt8} (h : k.paging.translate v = some a) :
    k.poke v b = some { k with phys := Function.update k.phys a b } := by
  simp [poke, h]

/-- A write changes memory and nothing else. -/
theorem poke_frame {k k' : Kernel} {v : Nat} {b : UInt8} (h : k.poke v b = some k') :
    k' = { k with phys := k'.phys } := by
  rw [poke, Option.map_eq_some_iff] at h
  obtain ⟨a, -, rfl⟩ := h
  rfl

/-- **A loop of stores.**  `mem i` is what memory holds before iteration `i`. -/
theorem forRange_phys {k : Kernel} {i n : Nat} (body : Nat → Kernel → Option Kernel)
    (mem : Nat → Nat → UInt8) (hentry : mem i = k.phys)
    (hbody : ∀ j, i ≤ j → j < i + n →
      body j { k with phys := mem j } = some { k with phys := mem (j + 1) }) :
    Support.forRange body i n k = some { k with phys := mem (i + n) } := by
  obtain ⟨k', hrun, hinv⟩ := Support.forRange_invariant
    (fun j k' => k' = { k with phys := mem j }) (show k = { k with phys := mem i } by rw [hentry])
    (by
      rintro j k₁ hij hjn rfl
      exact ⟨_, hbody j hij hjn, rfl⟩)
  rw [hrun, hinv]

/-- Writing to virtual addresses that are mapped to consecutive physical ones. -/
theorem pokeRange_eq {k : Kernel} {v n base : Nat} {bytes : Buf}
    (h : ∀ j, j < n → k.paging.translate (v + j) = some (base + j)) :
    k.pokeRange v n bytes = some { k with phys := memcpy k.phys base bytes n } := by
  have hbody : ∀ j, 0 ≤ j → j < 0 + n →
      poke { k with phys := memcpy k.phys base bytes j } (v + j) (bytes j) =
        some { k with phys := memcpy k.phys base bytes (j + 1) } := by
    intro j _ hj
    rw [memcpy_succ]
    exact poke_eq (h j (by omega))
  have hloop := forRange_phys (fun j k => k.poke (v + j) (bytes j))
    (fun j => memcpy k.phys base bytes j) (memcpy_zero k.phys bytes base) hbody
  rw [Nat.zero_add] at hloop
  exact hloop

theorem pokeRange_frame {k k' : Kernel} {v n : Nat} {bytes : Buf}
    (h : k.pokeRange v n bytes = some k') : k' = { k with phys := k'.phys } :=
  Support.forRange_preserves (fun k' => k' = { k with phys := k'.phys })
    (fun _ k₁ _ hk₁ hpoke => by rw [poke_frame hpoke, hk₁]) rfl h

/-- Reading from virtual addresses that are mapped to consecutive physical ones. -/
theorem peekRange_eq {k : Kernel} {v n base : Nat}
    (h : ∀ j, j < n → k.paging.translate (v + j) = some (base + j)) :
    ∃ bytes : Buf, k.peekRange v n = some bytes ∧ ∀ j, j < n → bytes j = k.phys (base + j) := by
  have hmapped : ∀ j, j < n → (k.paging.translate (v + j)).isSome := by
    intro j hj
    rw [h j hj]
    rfl
  refine ⟨_, if_pos hmapped, fun j hj => ?_⟩
  rw [peek, h j hj]
  rfl

/-- A write to a range of which one address is not mapped faults. -/
theorem pokeRange_fault {k : Kernel} {v n j : Nat} {bytes : Buf} (hj : j < n)
    (h : k.paging.translate (v + j) = none) : k.pokeRange v n bytes = none := by
  have hloop : ∀ n i (k : Kernel), i ≤ j → j < i + n → k.paging.translate (v + j) = none →
      Support.forRange (fun j (k : Kernel) => k.poke (v + j) (bytes j)) i n k = none := by
    intro n
    induction n with
    | zero =>
        intro i k hi hj _
        omega
    | succ n ih =>
        intro i k hi hj h
        rw [Support.forRange_succ, Option.bind_eq_none_iff]
        intro k' hk'
        by_cases hij : i = j
        · rw [hij] at hk'
          simp [poke, h] at hk'
        · refine ih (i + 1) k' (by omega) (by omega) ?_
          rw [poke_frame hk']
          exact h
  exact hloop n 0 k (Nat.zero_le j) (by omega) h

/-- When a write to a range does not fault. -/
theorem pokeRange_isSome_iff {k : Kernel} {v n : Nat} {bytes : Buf} :
    (k.pokeRange v n bytes).isSome ↔ ∀ j, j < n → (k.paging.translate (v + j)).isSome := by
  constructor
  · intro hsome j hj
    by_contra hnone
    rw [Option.not_isSome_iff_eq_none] at hnone
    rw [pokeRange_fault hj hnone] at hsome
    cases hsome
  · intro hmapped
    have hbody : ∀ j (k₁ : Kernel), 0 ≤ j → j < 0 + n → k₁.paging = k.paging →
        ∃ k', k₁.poke (v + j) (bytes j) = some k' ∧ k'.paging = k.paging := by
      intro j k₁ _ hj hk₁
      obtain ⟨a, ha⟩ := Option.isSome_iff_exists.mp (hmapped j (by omega))
      rw [← hk₁] at ha
      exact ⟨_, poke_eq ha, hk₁⟩
    obtain ⟨k', hrun, -⟩ := Support.forRange_invariant
      (fun _ (k' : Kernel) => k'.paging = k.paging) rfl hbody
    rw [pokeRange, hrun]
    rfl

end Kernel

end JuddOS
