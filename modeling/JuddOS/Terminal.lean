import JuddOS.Kernel

/-!
# `terminal.c`, and the screen functions of `lib.c` and `keyboard.c` it goes with

Characters are stored through the virtual address of a terminal or through `video_mem`,
two bytes to a cell.  The scrolling loops of `scroll_up` and of `enter_press` are the same
loops on two addresses (`scrollCells`), and so are the loops that blank a screen
(`blankCells`).

`scrollCells_eq` and `blankCells_eq` give what these loops leave in memory when the whole
screen is mapped.
-/

namespace JuddOS

open Support

/-- The bytes of one screen. -/
abbrev sizeOfVidmem : Nat := 80 * 25 * 2

/-- The two stores that fill cell `i` of the screen at `vidmem`. -/
def pokeCell (vidmem i : Nat) (c : UInt8) (k : Kernel) : Option Kernel := do
  let k ← k.poke (vidmem + 2 * i) c
  k.poke (vidmem + 2 * i + 1) attrib

/-- `for (i = start; i < start + n; i++)` of the loops that blank cells. -/
def blankCells (vidmem start n : Nat) (k : Kernel) : Option Kernel :=
  forRange (fun i k => pokeCell vidmem i chSpace k) start n k

/-- One iteration of the loop that moves rows up. -/
def raiseCell (vidmem i : Nat) (k : Kernel) : Option Kernel := do
  let c ← k.peek (vidmem + 2 * (i + numCols))
  pokeCell vidmem i c k

/-- The two loops that move every row of a screen up by one and blank the last row. -/
def scrollCells (vidmem : Nat) (k : Kernel) : Option Kernel := do
  let k ← forRange (raiseCell vidmem) 0 ((numRows - 1) * numCols) k
  blankCells vidmem ((numRows - 1) * numCols) numCols k

/-- `clear` of `lib.c`. -/
def clear (k : Kernel) : Option Kernel := blankCells videoAddr 0 (numRows * numCols) k

/-- `scroll_up`. -/
def scrollUp (k : Kernel) : Option Kernel := do
  let k ← scrollCells (k.terminalArr k.terminalNum).vidmemAddr k
  some (k.setTerminal k.terminalNum fun t => { t with cursorY := numRows - 1, cursorX := 0 })

/-- `update_cursor`. -/
def updateCursor (x y : Nat) (k : Kernel) : Option Kernel := do
  let (x, y) := if x ≥ numCols then (0, y + 1) else (x, y)
  let (k, y) ← if y ≥ numRows then (scrollUp k).map (·, numRows - 1) else some (k, y)
  some { k with vgaCursor := (y * numCols + x) % 2 ^ 16 }

/-- The two stores of a character at the cursor of terminal `t`. -/
def storeChar (t : Tid) (c : UInt8) (k : Kernel) : Option Kernel :=
  let cell := numCols * (k.terminalArr t).cursorY + (k.terminalArr t).cursorX
  let k := { k with charStores := (t, 2 * cell) :: k.charStores }
  pokeCell (k.terminalArr t).vidmemAddr cell c k

/-- `putc_addr`.  Its body does not use the position it is given. -/
def putcAddr (c : UInt8) (k : Kernel) : Option Kernel :=
  if c = chNewline ∨ c = chReturn then some k
  else do
    let shown := k.terminalNumDisplay
    let k :=
      if (k.terminalArr shown).cursorX = numCols then
        k.setTerminal shown fun t => { t with cursorX := 0, cursorY := (t.cursorY + 1) % 256 }
      else k
    let k ← if (k.terminalArr shown).cursorY ≥ numRows then scrollUp k else some k
    storeChar shown c k

/-- `if (cursor_y == NUM_ROWS) scroll_up()` on the scheduled terminal. -/
def scrollAtEnd (k : Kernel) : Option Kernel :=
  if (k.terminalArr k.terminalNum).cursorY = numRows then scrollUp k else some k

/-- One iteration of the loop of `terminal_write`. -/
def writeChar (c : UInt8) (k : Kernel) : Option Kernel := do
  let k ←
    if (k.terminalArr k.terminalNum).cursorX = numCols then
      scrollAtEnd (k.setTerminal k.terminalNum fun t =>
        { t with cursorX := 0, cursorY := (t.cursorY + 1) % 256 })
    else some k
  let k ←
    if c = chNewline ∨ c = chReturn then
      scrollAtEnd (k.setTerminal k.terminalNum fun t =>
        { t with cursorY := (t.cursorY + 1) % 256, cursorX := 0 })
    else do
      let k ← storeChar k.terminalNum c k
      some (k.setTerminal k.terminalNum fun t => { t with cursorX := (t.cursorX + 1) % 256 })
  let k :=
    if (k.terminalArr k.terminalNum).cursorX ≥ numCols then
      k.setTerminal k.terminalNum fun t =>
        { t with cursorX := 0, cursorY := (t.cursorY + 1) % 256 }
    else k
  let k :=
    if (k.terminalArr k.terminalNum).cursorY ≥ numRows then
      k.setTerminal k.terminalNum fun t => { t with cursorY := numRows - 1 }
    else k
  some k

/-- `terminal_write`; `none` for `buf` is `NULL`, else the `nbytes` characters at it. -/
def terminalWrite (buf : Option Buf) (nbytes : Int32) (k : Kernel) : Option (Int32 × Kernel) :=
  match buf with
  | none => some (-1, k)
  | some buf =>
      if nbytes < 0 then some (-1, k)
      else do
        let k ← forRange (fun i k => writeChar (buf i) k) 0 nbytes.toInt.toNat k
        let k ←
          if k.terminalNum = k.terminalNumDisplay then
            updateCursor (k.terminalArr k.terminalNum).cursorX
              (k.terminalArr k.terminalNum).cursorY k
          else some k
        some (0, k)

/-- `putc` of `lib.c`. -/
def putc (c : UInt8) (k : Kernel) : Option Kernel :=
  if c = chNewline ∨ c = chReturn then
    some { k with screenY := k.screenY + 1, screenX := 0 }
  else do
    let k ← pokeCell videoAddr (numCols * k.screenY + k.screenX) c k
    let k := { k with screenX := (k.screenX + 1) % numCols }
    some { k with screenY := (k.screenY + k.screenX / numCols) % numRows }

/-- `clearbuf` of `keyboard.c`. -/
def clearbuf (k : Kernel) : Kernel :=
  k.setTerminal k.terminalNumDisplay fun t =>
    { t with
      screenBuf := fun i => if i < screenBufSize then 0 else t.screenBuf i
      screenBufTop := 0 }

/-! ## What the loops leave in memory -/

/-- Memory after cells `start`, ..., `start + n - 1` of the screen at `base` were blanked. -/
def blankedCells (phys : Buf) (base start n : Nat) : Buf := fun a =>
  if base + 2 * start ≤ a ∧ a < base + 2 * (start + n) then
    if (a - base) % 2 = 0 then chSpace else attrib
  else phys a

/-- Memory after the first `n` cells of the screen at `base` were taken from the next row. -/
def raisedCells (phys : Buf) (base n : Nat) : Buf := fun a =>
  if base ≤ a ∧ a < base + 2 * n then
    if (a - base) % 2 = 0 then phys (a + 2 * numCols) else attrib
  else phys a

/-- Memory after the screen at `base` was scrolled. -/
def scrolledCells (phys : Buf) (base : Nat) : Buf :=
  blankedCells (raisedCells phys base ((numRows - 1) * numCols)) base
    ((numRows - 1) * numCols) numCols

/-- Memory after the two stores to a cell. -/
def cellStored (phys : Buf) (base i : Nat) (c : UInt8) : Buf :=
  Function.update (Function.update phys (base + 2 * i) c) (base + 2 * i + 1) attrib

theorem pokeCell_eq {k : Kernel} {vidmem base i : Nat} (c : UInt8)
    (h : k.paging.translate (vidmem + 2 * i) = some (base + 2 * i))
    (h' : k.paging.translate (vidmem + 2 * i + 1) = some (base + 2 * i + 1)) :
    pokeCell vidmem i c k = some { k with phys := cellStored k.phys base i c } := by
  rw [pokeCell, Kernel.poke_eq h]
  exact Kernel.poke_eq h'

theorem blankedCells_succ (phys : Buf) (base start n : Nat) :
    cellStored (blankedCells phys base start n) base (start + n) chSpace =
      blankedCells phys base start (n + 1) := by
  funext a
  simp only [blankedCells, cellStored, Function.update_apply]
  grind

theorem raisedCells_succ (phys : Buf) (base n : Nat) :
    cellStored (raisedCells phys base n) base n (phys (base + 2 * n + 2 * numCols)) =
      raisedCells phys base (n + 1) := by
  funext a
  simp only [raisedCells, cellStored, Function.update_apply]
  grind

/-- **Blanking cells of a mapped screen.** -/
theorem blankCells_eq {k : Kernel} {vidmem base start n : Nat}
    (h : ∀ j, j < 2 * (start + n) → k.paging.translate (vidmem + j) = some (base + j)) :
    blankCells vidmem start n k = some { k with phys := blankedCells k.phys base start n } := by
  have hentry : blankedCells k.phys base start (start - start) = k.phys := by
    funext a
    rw [blankedCells, if_neg (by omega)]
  have hbody : ∀ i, start ≤ i → i < start + n →
      pokeCell vidmem i chSpace { k with phys := blankedCells k.phys base start (i - start) } =
        some { k with phys := blankedCells k.phys base start (i + 1 - start) } := by
    intro i hi hin
    have hsucc := blankedCells_succ k.phys base start (i - start)
    rw [show start + (i - start) = i by omega, show i - start + 1 = i + 1 - start by omega]
      at hsucc
    rw [← hsucc]
    exact pokeCell_eq _ (h (2 * i) (by omega)) (h (2 * i + 1) (by omega))
  have hloop := Kernel.forRange_phys (pokeCell vidmem · chSpace)
    (fun i => blankedCells k.phys base start (i - start)) hentry hbody
  rw [Nat.add_sub_cancel_left] at hloop
  exact hloop

/-- The first loop of a scroll. -/
theorem raiseCells_eq {k : Kernel} {vidmem base n : Nat}
    (h : ∀ j, j < 2 * (n + numCols) → k.paging.translate (vidmem + j) = some (base + j)) :
    forRange (raiseCell vidmem) 0 n k = some { k with phys := raisedCells k.phys base n } := by
  have hentry : raisedCells k.phys base 0 = k.phys := by
    funext a
    rw [raisedCells, if_neg (by omega)]
  have hbody : ∀ i, 0 ≤ i → i < 0 + n →
      raiseCell vidmem i { k with phys := raisedCells k.phys base i } =
        some { k with phys := raisedCells k.phys base (i + 1) } := by
    intro i _ hi
    simp only [numCols] at h
    have hpeek : Kernel.peek { k with phys := raisedCells k.phys base i }
        (vidmem + 2 * (i + numCols)) = some (k.phys (base + 2 * i + 2 * numCols)) := by
      have hcell : base + 2 * (i + 80) = base + 2 * i + 2 * 80 := by omega
      simp only [Kernel.peek, numCols, h (2 * (i + 80)) (by omega), Option.map_some, raisedCells,
        hcell]
      rw [if_neg (by omega)]
    rw [raiseCell, hpeek, ← raisedCells_succ]
    exact pokeCell_eq _ (h (2 * i) (by omega)) (h (2 * i + 1) (by omega))
  have hloop := Kernel.forRange_phys (raiseCell vidmem) (raisedCells k.phys base) hentry hbody
  rw [Nat.zero_add] at hloop
  exact hloop

/-- **Scrolling a mapped screen.** -/
theorem scrollCells_eq {k : Kernel} {vidmem base : Nat}
    (h : ∀ j, j < sizeOfVidmem → k.paging.translate (vidmem + j) = some (base + j)) :
    scrollCells vidmem k = some { k with phys := scrolledCells k.phys base } := by
  have hraise : forRange (raiseCell vidmem) 0 ((numRows - 1) * numCols) k =
      some { k with phys := raisedCells k.phys base ((numRows - 1) * numCols) } :=
    raiseCells_eq fun j hj => h j (by simpa using hj)
  have hblank : blankCells vidmem ((numRows - 1) * numCols) numCols
        { k with phys := raisedCells k.phys base ((numRows - 1) * numCols) } =
      some { k with phys := scrolledCells k.phys base } :=
    blankCells_eq fun j hj => h j (by simpa using hj)
  rw [scrollCells, hraise, ← hblank, Option.bind_eq_bind, Option.bind_some]

/-! ## Frames -/

theorem pokeCell_frame {vidmem i : Nat} {c : UInt8} {k k' : Kernel}
    (h : pokeCell vidmem i c k = some k') : k' = { k with phys := k'.phys } := by
  rw [pokeCell, Option.bind_eq_bind, Option.bind_eq_some_iff] at h
  obtain ⟨k₁, h₁, h₂⟩ := h
  rw [Kernel.poke_frame h₂, Kernel.poke_frame h₁]

theorem blankCells_frame {vidmem start n : Nat} {k k' : Kernel}
    (h : blankCells vidmem start n k = some k') : k' = { k with phys := k'.phys } :=
  forRange_preserves (fun k' => k' = { k with phys := k'.phys })
    (fun _ k₁ _ hk₁ hcell => by rw [pokeCell_frame hcell, hk₁]) rfl h

theorem scrollCells_frame {vidmem : Nat} {k k' : Kernel} (h : scrollCells vidmem k = some k') :
    k' = { k with phys := k'.phys } := by
  rw [scrollCells, Option.bind_eq_bind, Option.bind_eq_some_iff] at h
  obtain ⟨k₁, hraise, hblank⟩ := h
  have hraised : k₁ = { k with phys := k₁.phys } := by
    refine forRange_preserves (fun k' => k' = { k with phys := k'.phys }) ?_ rfl hraise
    intro i k₂ k₃ hk₂ hcell
    rw [raiseCell, Option.bind_eq_bind, Option.bind_eq_some_iff] at hcell
    obtain ⟨c, -, hpoke⟩ := hcell
    rw [pokeCell_frame hpoke, hk₂]
  rw [blankCells_frame hblank, hraised]

/-- `scroll_up` writes to memory and moves the cursor of the scheduled terminal. -/
theorem scrollUp_frame {k k' : Kernel} (h : scrollUp k = some k') :
    ∃ phys, k' = Kernel.setTerminal { k with phys := phys } k.terminalNum
      fun t => { t with cursorY := numRows - 1, cursorX := 0 } := by
  rw [scrollUp, Option.bind_eq_bind, Option.bind_eq_some_iff] at h
  obtain ⟨k₁, hcells, hk'⟩ := h
  cases hk'
  refine ⟨k₁.phys, ?_⟩
  rw [scrollCells_frame hcells]

/-- `putc` writes to memory and moves its own cursor. -/
theorem putc_frame {c : UInt8} {k k' : Kernel} (h : putc c k = some k') :
    k' = { k with phys := k'.phys, screenX := k'.screenX, screenY := k'.screenY } := by
  rw [putc] at h
  split at h
  · cases h
    rfl
  · rw [Option.bind_eq_bind, Option.bind_eq_some_iff] at h
    obtain ⟨k₁, h₁, h₂⟩ := h
    cases h₂
    rw [pokeCell_frame h₁]

/-! ## The body of the loop of `terminal_write` -/

/-- The first part of the body of the loop of `terminal_write`. -/
def wrapRow (k : Kernel) : Option Kernel :=
  if (k.terminalArr k.terminalNum).cursorX = numCols then
    scrollAtEnd (k.setTerminal k.terminalNum fun t =>
      { t with cursorX := 0, cursorY := (t.cursorY + 1) % 256 })
  else some k

/-- The second part: the character. -/
def writeGlyph (c : UInt8) (k : Kernel) : Option Kernel :=
  if c = chNewline ∨ c = chReturn then
    scrollAtEnd (k.setTerminal k.terminalNum fun t =>
      { t with cursorY := (t.cursorY + 1) % 256, cursorX := 0 })
  else
    (storeChar k.terminalNum c k).map fun k =>
      k.setTerminal k.terminalNum fun t => { t with cursorX := (t.cursorX + 1) % 256 }

/-- The two tests at its end. -/
def clampCursor (k : Kernel) : Kernel :=
  let k :=
    if (k.terminalArr k.terminalNum).cursorX ≥ numCols then
      k.setTerminal k.terminalNum fun t =>
        { t with cursorX := 0, cursorY := (t.cursorY + 1) % 256 }
    else k
  if (k.terminalArr k.terminalNum).cursorY ≥ numRows then
    k.setTerminal k.terminalNum fun t => { t with cursorY := numRows - 1 }
  else k

/-- One iteration of `terminal_write` in its three parts. -/
theorem writeChar_eq (c : UInt8) (k : Kernel) :
    writeChar c k = (wrapRow k).bind fun k => (writeGlyph c k).map clampCursor := by
  have hglyph : ∀ k : Kernel,
      (if c = chNewline ∨ c = chReturn then
        (scrollAtEnd (k.setTerminal k.terminalNum fun t =>
          { t with cursorY := (t.cursorY + 1) % 256, cursorX := 0 })).bind
            fun k => some (clampCursor k)
      else
        (storeChar k.terminalNum c k).bind fun k =>
          some (clampCursor (k.setTerminal k.terminalNum fun t =>
            { t with cursorX := (t.cursorX + 1) % 256 }))) =
      (writeGlyph c k).map clampCursor := by
    intro k
    unfold writeGlyph
    split
    · rw [Option.map_eq_bind]
      rfl
    · rw [Option.map_map, Option.map_eq_bind]
      rfl
  unfold writeChar wrapRow
  simp only [Option.bind_eq_bind]
  split
  · refine Option.bind_congr fun k₁ _ => ?_
    rw [← hglyph k₁]
    simp only [Option.bind_some]
    rfl
  · rw [Option.bind_some, Option.bind_some, ← hglyph k]
    simp only [Option.bind_some]
    rfl

end JuddOS
