import JuddOS.Video

/-!
# `terminal_init` of `pit.c`, and `entry` of `kernel.c`

`entry` initialises the devices and tables in the order of the source, up to the point where
it starts the first shell.  Only the calls that touch the modelled state are there; the boot
messages are the arbitrary cursor of `putc` in `PowerOn`.

`entry_booted` says what state the system starts from.
-/

namespace JuddOS

open Support

/-- `fill_terminal_attribute`. -/
def fillTerminalAttribute (k : Kernel) : Option Kernel := do
  let k ← blankCells (k.terminalArr 1).vidmemAddr 0 (numRows * numCols) k
  blankCells (k.terminalArr 2).vidmemAddr 0 (numRows * numCols) k

/-- `terminal_init`. -/
def terminalInit (k : Kernel) : Option Kernel :=
  let k := { k with terminalNumDisplay := 0 }
  let k := { k with
    terminalArr := fun i => { k.terminalArr i with active := false, vidmemAddr := terminalVidmem i } }
  let k := { k with
    paging := setUpVirtualToVideo (fun t => (k.terminalArr t).vidmemAddr) k.terminalNumDisplay
      k.paging }
  fillTerminalAttribute k

/-- `entry`, up to `terminal_init`. -/
def entryTerminals (m : PowerOn) : Option Kernel := do
  let k ← keyboardInit { Kernel.zeroed m with tssEsp0 := 0x800000 }
  terminalInit { k with paging := initPaging k.paging, openedFile := clearDentry k.openedFile }

/-- `entry`, up to the first `execute`. -/
def entry (m : PowerOn) : Option Kernel := do
  let k ← entryTerminals m
  -- `pit_init`, and the boot messages
  clear { k with terminalNum := 0, screenX := m.screenX, screenY := m.screenY }

/-- The terminals after `terminal_init`. -/
def initialTerminal (t : Tid) : Terminal :=
  { mostRecentPcb := 0, ebp := 0, esp0 := 0, cursorX := 0, cursorY := 0
    screenBuf := fun _ => 0, screenBufTop := 0, vidmemAddr := terminalVidmem t, active := false }

/-- Memory once the two hidden screens are blank. -/
def hiddenBlanked (phys : Buf) : Buf :=
  blankedCells (blankedCells phys (videoBuffer 1) 0 (numRows * numCols)) (videoBuffer 2) 0
    (numRows * numCols)

theorem initCursor_eq (k : Kernel) :
    initCursor k = some
      { k with
        terminalArr := fun t => { k.terminalArr t with cursorX := 0, cursorY := 0 }
        vgaCursor := 0 } := by
  have hstep : ∀ (t : Tid) (k : Kernel),
      updateCursorOf t (k.setTerminal t fun t => { t with cursorX := 0, cursorY := 0 }) = some
      { k.setTerminal t fun t => { t with cursorX := 0, cursorY := 0 } with vgaCursor := 0 } := by
    intro t k
    rw [updateCursorOf, Kernel.setTerminal_self]
    exact updateCursor_inside (show 0 < numCols by decide) (show 0 < numRows by decide) _
  simp only [initCursor, forRange_succ, forRange_zero, hstep, Option.bind_some]
  congr 2
  funext t
  fin_cases t <;> rfl

theorem videoPage_hidden (t : Tid) (h : t ≠ 0) : videoPage 0 t = videoBuffer t := if_neg h

/-- Blanking a whole screen of 4096 mapped bytes. -/
theorem blankScreen_eq {k : Kernel} {vidmem base : Nat}
    (h : ∀ j, j < 4096 → k.paging.translate (vidmem + j) = some (base + j)) :
    blankCells vidmem 0 (numRows * numCols) k =
      some { k with phys := blankedCells k.phys base 0 (numRows * numCols) } :=
  blankCells_eq fun j hj => h j (by simp only [numRows, numCols] at hj; omega)

theorem fillTerminalAttribute_eq {k : Kernel}
    (hvidmem : ∀ t, (k.terminalArr t).vidmemAddr = terminalVidmem t)
    (hscreens : ScreensMapped k.paging 0) :
    fillTerminalAttribute k = some { k with phys := hiddenBlanked k.phys } := by
  have hone : blankCells (terminalVidmem 1) 0 (numRows * numCols) k = _ :=
    blankScreen_eq fun _ hj => hscreens.translate 1 hj
  have htwo : blankCells (terminalVidmem 2) 0 (numRows * numCols)
      { k with phys := blankedCells k.phys (videoPage 0 1) 0 (numRows * numCols) } = _ :=
    blankScreen_eq fun _ hj => hscreens.translate 2 hj
  rw [fillTerminalAttribute, hvidmem, hone, Option.bind_eq_bind, Option.bind_some]
  dsimp only
  rw [hvidmem, htwo, hiddenBlanked, ← videoPage_hidden 1 (by decide),
    ← videoPage_hidden 2 (by decide)]

/-- **`terminal_init`** shows terminal 0, gives each terminal its page and blanks the two
that are hidden. -/
theorem terminalInit_eq (k : Kernel) :
    terminalInit k = some
      { k with
        terminalNumDisplay := 0
        terminalArr := fun i =>
          { k.terminalArr i with active := false, vidmemAddr := terminalVidmem i }
        paging := setUpVirtualToVideo terminalVidmem 0 k.paging
        phys := hiddenBlanked k.phys } :=
  fillTerminalAttribute_eq (fun _ => rfl) (screensMapped_setUpVirtualToVideo 0 k.paging)

/-- What `entry` leaves for the first shell. -/
structure Booted (m : PowerOn) (k : Kernel) : Prop where
  paging : k.paging = setUpVirtualToVideo terminalVidmem 0
    (initPaging (Paging.zeroed m.layout m.elsewhere))
  phys : k.phys = blankedCells (hiddenBlanked m.phys) videoAddr 0 (numRows * numCols)
  tssEsp0 : k.tssEsp0 = 0x800000
  pidBits : k.pidBits = fun _ => 0
  pcb : k.pcb = m.pcb
  terminalArr : k.terminalArr = initialTerminal
  terminalNum : k.terminalNum = 0
  terminalNumDisplay : k.terminalNumDisplay = 0
  noFlags : k.ctrlFlag = false ∧ k.altFlag = false ∧ k.shiftFlag = false ∧ k.capsFlag = false ∧
    k.bufFlag = 0 ∧ k.backFlag = false ∧ k.ctrlFlagL = false ∧ k.enterFlag = false ∧
    k.terminalZeroFlag = false ∧ k.terminalOneFlag = false ∧ k.terminalTwoFlag = false
  screen : k.screenX = m.screenX ∧ k.screenY = m.screenY
  charStores : k.charStores = []

/-- The state after `terminal_init`. -/
theorem entryTerminals_eq (m : PowerOn) :
    ∃ opened, entryTerminals m = some
      { Kernel.zeroed m with
        tssEsp0 := 0x800000
        openedFile := opened
        terminalArr := initialTerminal
        paging := setUpVirtualToVideo terminalVidmem 0
          (initPaging (Paging.zeroed m.layout m.elsewhere))
        phys := hiddenBlanked m.phys
        vgaCursor := 0 } := by
  -- `keyboard_init` leaves a kernel that is zeroed but for `tss.esp0`
  obtain ⟨k, hk, heq⟩ : ∃ k, keyboardInit { Kernel.zeroed m with tssEsp0 := 0x800000 } =
      some k ∧ k = { Kernel.zeroed m with
        tssEsp0 := 0x800000
        terminalArr := fun t => { initialTerminal t with vidmemAddr := 0 }
        vgaCursor := 0 } := ⟨_, initCursor_eq _, rfl⟩
  refine ⟨clearDentry k.openedFile, ?_⟩
  rw [entryTerminals, hk, Option.bind_eq_bind, Option.bind_some, terminalInit_eq, heq]
  rfl

/-- **The state in which the first shell is started.** -/
theorem entry_booted (m : PowerOn) : ∃ k, entry m = some k ∧ Booted m k := by
  obtain ⟨opened, hterm⟩ := entryTerminals_eq m
  obtain ⟨k, hk, heq⟩ : ∃ k, entryTerminals m = some k ∧ _ = k := ⟨_, hterm, rfl⟩
  have hvga : VgaMapped k.paging := by
    rw [← heq]
    exact (vgaMapped_initPaging m.layout m.elsewhere).setUpVirtualToVideo 0
  have hphys : k.phys = hiddenBlanked m.phys := by rw [← heq]
  obtain ⟨k', hk', heq'⟩ : ∃ k', clear
      { k with terminalNum := 0, screenX := m.screenX, screenY := m.screenY } = some k' ∧
      k' = { k with
        terminalNum := 0, screenX := m.screenX, screenY := m.screenY
        phys := blankedCells k.phys videoAddr 0 (numRows * numCols) } :=
    ⟨_, blankScreen_eq fun _ hj => hvga.translate hj, rfl⟩
  refine ⟨k', ?_, ?_⟩
  · rw [entry, hk, Option.bind_eq_bind, Option.bind_some, hk']
  · rw [heq', hphys, ← heq]
    exact ⟨rfl, rfl, rfl, rfl, rfl, rfl, rfl, rfl,
      ⟨rfl, rfl, rfl, rfl, rfl, rfl, rfl, rfl, rfl, rfl, rfl⟩, ⟨rfl, rfl⟩, rfl⟩

/-- The kernel that `entry` leaves. -/
def bootKernel (m : PowerOn) : Kernel := (entry m).getD (Kernel.zeroed m)

theorem booted_bootKernel (m : PowerOn) : Booted m (bootKernel m) := by
  obtain ⟨k, hk, hbooted⟩ := entry_booted m
  rw [bootKernel, hk]
  exact hbooted

end JuddOS
