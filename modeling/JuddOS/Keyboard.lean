import JuddOS.Terminal

/-!
# `keyboard.c`

The keyboard interrupt handler and what it calls.  The unsigned characters that the source
uses as flags are Booleans here, except `buf_flag`.

`scantable_small` is read without a bounds check.  A scan code from 69 on reads into the next
row; in the last row it reads past the array, and `past` is the word that is found there.
-/

namespace JuddOS

open Support

/-- `scantable_small`, row by row: shift, caps, alt, control and normal.  Characters have their
ASCII codes. -/
def scantableSmall : List (List UInt32) := [
  [
    0, 4097, 33, 64, 35, 36, 37, 94, 38, 42, 40, 41, 95, 43, 8, 16384, 81, 87, 69, 82, 84, 89,
    85, 73, 79, 80, 123, 125, 10, 16387, 65, 83, 68, 70, 71, 72, 74, 75, 76, 58, 34, 126, 16386,
    124, 90, 88, 67, 86, 66, 78, 77, 60, 62, 63, 16390, 42, 16392, 32, 16385, 117, 116, 115,
    4612, 4613, 4614, 4615, 4616, 4617, 4618],
  [
    0, 4097, 49, 50, 51, 52, 53, 54, 55, 56, 57, 48, 45, 61, 8, 16384, 81, 87, 69, 82, 84, 89,
    85, 73, 79, 80, 91, 93, 10, 16387, 65, 83, 68, 70, 71, 72, 74, 75, 76, 59, 39, 96, 16386, 92,
    90, 88, 67, 86, 66, 78, 77, 44, 46, 47, 16390, 42, 16392, 32, 16385, 117, 116, 115, 4612,
    4613, 4614, 4615, 4616, 4617, 4618],
  [
    0, 4097, 118, 50, 51, 52, 53, 54, 55, 56, 57, 48, 45, 61, 8, 16384, 113, 119, 101, 114, 116,
    121, 117, 105, 111, 112, 91, 93, 10, 16387, 97, 115, 100, 102, 103, 104, 106, 107, 108, 59,
    39, 96, 16386, 92, 122, 120, 99, 118, 98, 110, 109, 44, 46, 47, 16390, 42, 16392, 32, 16385,
    16384, 16400, 16416, 4612, 4613, 4614, 4615, 4616, 4617, 4618],
  [
    0, 4097, 49, 50, 51, 52, 53, 54, 55, 56, 57, 48, 45, 61, 8, 16384, 113, 119, 101, 114, 116,
    121, 117, 105, 111, 112, 91, 93, 10, 16387, 97, 115, 100, 102, 103, 104, 106, 107, 119, 59,
    39, 96, 16386, 92, 122, 120, 99, 118, 98, 110, 109, 44, 46, 47, 16390, 42, 16392, 32, 16385,
    117, 116, 115, 4612, 4613, 4614, 4615, 4616, 4617, 4618],
  [
    0, 4097, 49, 50, 51, 52, 53, 54, 55, 56, 57, 48, 45, 61, 8, 16384, 113, 119, 101, 114, 116,
    121, 117, 105, 111, 112, 91, 93, 10, 16387, 97, 115, 100, 102, 103, 104, 106, 107, 108, 59,
    39, 96, 16386, 92, 122, 120, 99, 118, 98, 110, 109, 44, 46, 47, 16390, 42, 16392, 32, 16385,
    117, 116, 115, 4612, 4613, 4614, 4615, 4616, 4617, 4618]]

/-- `scantable_small[row][scan]`. -/
def scantable (row scan : Nat) (past : UInt32) : UInt32 :=
  scantableSmall.flatten.getD (69 * row + scan) past

def keyReturn : UInt32 := 10
def keyBackspace : UInt32 := 8
def tf1Key : UInt32 := 0x4000
def tf2Key : UInt32 := 0x4010
def tf3Key : UInt32 := 0x4020
/-- `DBH`, the code that prints the buffer. -/
def dbh : UInt32 := 118
/-- `CRL`, the code of control-L. -/
def crl : UInt32 := 119

/-- The scan codes that the first test of `translate` drops. -/
def ignoredScan (scan : Nat) (altFlag : Bool) : Bool :=
  scan = 1 ∨ scan = 15 ∨ scan = 58 ∨ (62 ≤ scan ∧ scan ≤ 68) ∨ scan = 87 ∨ scan = 88 ∨
    (90 ≤ scan ∧ scan ≤ 108) ∨ (69 ≤ scan ∧ scan ≤ 83) ∨ scan = 55 ∨
    ((scan = 61 ∨ scan = 60 ∨ scan = 59) ∧ altFlag = false)

/-- The table entry that the modifiers choose. -/
def keyCode (scan : Nat) (past : UInt32) (k : Kernel) : UInt32 :=
  if k.shiftFlag ∧ ¬ k.capsFlag then scantable 0 scan past
  else if k.capsFlag ∧ ¬ k.shiftFlag ∧ ¬ k.ctrlFlag ∧ ¬ k.altFlag then scantable 1 scan past
  else if k.altFlag then scantable 2 scan past
  else if k.ctrlFlag then scantable 3 scan past
  else if (¬ k.shiftFlag ∧ ¬ k.capsFlag ∧ ¬ k.altFlag ∧ ¬ k.ctrlFlag) ∨
      (k.capsFlag ∧ k.shiftFlag) then scantable 4 scan past
  else 0

/-- The debugging aid of `translate`: print the line being edited and a bar. -/
def printBuf (k : Kernel) : Option Kernel := do
  let k ← forRange (fun i k => putc ((k.terminalArr k.terminalNumDisplay).screenBuf i) k) 0
    (k.terminalArr k.terminalNumDisplay).screenBufTop k
  putc 0x7c k

/-- The branch of `translate` for a key press. -/
def translatePress (scan : Nat) (past : UInt32) (k : Kernel) : Option (UInt8 × Kernel) :=
  let ascii := keyCode scan past k
  if ascii = keyBackspace then some (ascii.toUInt8, { k with backFlag := true })
  else if k.altFlag ∧ ascii = tf1Key then
    some (ascii.toUInt8, { k with terminalZeroFlag := true })
  else if k.altFlag ∧ ascii = tf2Key then
    some (ascii.toUInt8, { k with terminalOneFlag := true })
  else if k.altFlag ∧ ascii = tf3Key then
    some (ascii.toUInt8, { k with terminalTwoFlag := true })
  else if ascii = crl ∧ k.ctrlFlag then some (ascii.toUInt8, { k with ctrlFlagL := true })
  else if ascii = dbh ∧ k.altFlag then (printBuf k).map (ascii.toUInt8, ·)
  else if ascii = keyReturn then some (ascii.toUInt8, { k with enterFlag := true })
  else some (ascii.toUInt8, { k with bufFlag := 3 })

/-- `translate`. -/
def translate (scan : Nat) (past : UInt32) (k : Kernel) : Option (UInt8 × Kernel) :=
  if ignoredScan scan k.altFlag then some (0, k)
  else if scan = 29 then some (0, { k with ctrlFlag := true })
  else if scan = 157 then some (0, { k with ctrlFlag := false })
  else if scan = 56 then some (0, { k with altFlag := true })
  else if scan = 184 then some (0, { k with altFlag := false })
  else if scan = 42 ∨ scan = 54 then some (0, { k with shiftFlag := true })
  else if scan = 170 ∨ scan = 182 then some (0, { k with shiftFlag := false })
  else if scan = 186 then some (0, { k with capsFlag := !k.capsFlag })
  else if scan < 120 then translatePress scan past k
  else some (0, k)

/-- `update_cursor` with the cursor of terminal `t`. -/
def updateCursorOf (t : Tid) (k : Kernel) : Option Kernel :=
  updateCursor (k.terminalArr t).cursorX (k.terminalArr t).cursorY k

/-- `init_cursor`. -/
def initCursor (k : Kernel) : Option Kernel :=
  forRange (fun i k =>
    let t : Tid := Fin.ofNat 3 i
    updateCursorOf t (k.setTerminal t fun t => { t with cursorX := 0, cursorY := 0 })) 0 3 k

/-- The assignments of `add2buf` to the line. -/
def appendToLine (ascii : UInt8) (t : Terminal) : Terminal :=
  { t with
    screenBuf := Function.update t.screenBuf t.screenBufTop ascii
    screenBufTop := t.screenBufTop + 1 }

/-- `add2buf`. -/
def add2buf (ascii : UInt8) (k : Kernel) : Option Kernel :=
  let shown := k.terminalNumDisplay
  if (k.terminalArr shown).screenBufTop < screenBufSize - 1 then do
    let k ← putcAddr ascii k
    let k := k.setTerminal shown (appendToLine ascii)
    if (k.terminalArr shown).cursorX < numCols - 1 then
      updateCursorOf shown (k.setTerminal shown fun t => { t with cursorX := t.cursorX + 1 })
    else
      updateCursorOf shown (k.setTerminal shown fun t =>
        { t with cursorX := 0, cursorY := (t.cursorY + 1) % 256 })
  else some k

/-- `enter_press`.  The scrolling loops work on `video_mem`. -/
def enterPress (ascii : UInt8) (k : Kernel) : Option Kernel :=
  let shown := k.terminalNumDisplay
  let checkTerminal := k.terminalArr shown
  let bufVal := checkTerminal.screenBufTop
  if bufVal = 0 ∨ (checkTerminal.screenBuf (bufVal - 1) ≠ chNewline ∧
      checkTerminal.screenBuf (bufVal - 1) ≠ chReturn) then do
    let k ← add2buf ascii k
    let k := k.setTerminal shown fun t =>
      { t with cursorX := 0, cursorY := (t.cursorY + 1) % 256 }
    if (k.terminalArr shown).cursorY ≥ numRows then
      let k ← scrollCells videoAddr k
      some (k.setTerminal shown fun t => { t with cursorY := numRows - 1 })
    else some k
  else some k

/-- The assignments of `delete_char_from_buf` to the line. -/
def dropFromLine (t : Terminal) : Terminal :=
  { t with
    screenBufTop := t.screenBufTop - 1
    screenBuf := Function.update t.screenBuf (t.screenBufTop - 1) 0 }

/-- `delete_char_from_buf`. -/
def deleteCharFromBuf (k : Kernel) : Option Kernel :=
  let shown := k.terminalNumDisplay
  if (k.terminalArr shown).screenBufTop > 0 then
    let k := k.setTerminal shown dropFromLine
    if (k.terminalArr shown).cursorX > 0 then
      updateCursorOf shown (k.setTerminal shown fun t => { t with cursorX := t.cursorX - 1 })
    else
      updateCursorOf shown (k.setTerminal shown fun t =>
        { t with cursorX := numCols - 1, cursorY := (t.cursorY + 255) % 256 })
  else some k

/-- `delete_char_from_screen`. -/
def deleteCharFromScreen (k : Kernel) : Option Kernel := putcAddr 0 k

/-- `swap_terminal`. -/
def swapTerminal (index : Tid) (k : Kernel) : Option Kernel :=
  if index = k.terminalNumDisplay then some k
  else do
    let temp ← k.peekRange (k.terminalArr index).vidmemAddr sizeOfVidmem
    let k := { k with
      paging := setUpVirtualToVideo (fun t => (k.terminalArr t).vidmemAddr) index k.paging }
    let shown ← k.peekRange videoAddr sizeOfVidmem
    let k ← k.pokeRange (k.terminalArr k.terminalNumDisplay).vidmemAddr sizeOfVidmem shown
    let k ← k.pokeRange (k.terminalArr index).vidmemAddr sizeOfVidmem temp
    updateCursorOf index { k with terminalNumDisplay := index }

/-- What `keyboard_handler_main` does with the key. -/
def dispatchKey (ascii : UInt8) (k : Kernel) : Option Kernel :=
  if k.ctrlFlagL then do
    let k ← clear (clearbuf k)
    initCursor k
  else if k.terminalZeroFlag then swapTerminal 0 k
  else if k.terminalOneFlag then swapTerminal 1 k
  else if k.terminalTwoFlag then swapTerminal 2 k
  else if k.enterFlag then enterPress ascii k
  else if k.bufFlag = 3 ∧ ascii ≠ 0 then add2buf ascii k
  else if k.backFlag then do
    let k ← deleteCharFromBuf k
    deleteCharFromScreen k
  else some k

/-- The flags that `keyboard_handler_main` resets before it returns. -/
def resetFlags (k : Kernel) : Kernel :=
  { k with
    bufFlag := 0, backFlag := false, ctrlFlagL := false, terminalZeroFlag := false
    terminalOneFlag := false, terminalTwoFlag := false }

/-- `keyboard_handler_main`, for the scan code read from the keyboard port. -/
def keyboardHandlerMain (scan : UInt8) (past : UInt32) (k : Kernel) : Option Kernel := do
  let (ascii, k) ← translate scan.toNat past k
  let k ← dispatchKey ascii k
  some (resetFlags k)

/-- `keyboard_init`. -/
def keyboardInit (k : Kernel) : Option Kernel :=
  initCursor { k with
    ctrlFlag := false, altFlag := false, shiftFlag := false, capsFlag := false
    bufFlag := 0, backFlag := false, enterFlag := false }

end JuddOS
