import JuddOS.KeyEvents
import JuddOS.TerminalRead

/-!
# The line buffers

Each terminal has the line that is being edited on it, `screen_buf` and `screen_buf_top`.  This
file follows the three lines through the functions of `terminal.c` and `keyboard.c`, whatever
these do to the screens.

* `Draws` is what a function that only draws leaves alone: the lines, the two terminal numbers,
  `enter_flag` and the modifiers.
* `editLine` is what a key makes of the line of the displayed terminal, and `handleKey_lines` says
  that this is all that happens to the lines.
* `keyboardHandlerMain_lines` says what a complete call does to all of these.
-/

namespace JuddOS

open Support

/-- The line buffer of a terminal. -/
@[ext] structure Line where
  screenBuf : Buf
  screenBufTop : Nat

def Terminal.line (t : Terminal) : Line := ⟨t.screenBuf, t.screenBufTop⟩

/-- The three lines. -/
def Kernel.lines (k : Kernel) : Tid → Line := fun t => (k.terminalArr t).line

/-- The flags of the modifier keys. -/
def Kernel.modifiers (k : Kernel) : Bool × Bool × Bool × Bool :=
  (k.ctrlFlag, k.altFlag, k.shiftFlag, k.capsFlag)

/-- The key of a scan code, from the modifiers alone. -/
theorem keyOf_eq {k : Kernel} {scan : UInt8} {past : UInt32} {key : Key}
    {ctrl alt shift caps : Bool} (h : k.modifiers = (ctrl, alt, shift, caps))
    (hkey : keyOf scan past { Kernel.zeroed .blank with
      ctrlFlag := ctrl, altFlag := alt, shiftFlag := shift, capsFlag := caps } = key) :
    keyOf scan past k = key := by
  simp only [Kernel.modifiers, Prod.mk.injEq] at h
  rw [← hkey]
  exact keyOf_congr scan past h.1 h.2.1 h.2.2.1 h.2.2.2

/-- The modifiers after a scan code. -/
def modifiersAfter (scan : Nat) : Bool × Bool × Bool × Bool → Bool × Bool × Bool × Bool
  | (ctrl, alt, shift, caps) =>
      if ignoredScan scan alt then (ctrl, alt, shift, caps)
      else if scan = 29 then (true, alt, shift, caps)
      else if scan = 157 then (false, alt, shift, caps)
      else if scan = 56 then (ctrl, true, shift, caps)
      else if scan = 184 then (ctrl, false, shift, caps)
      else if scan = 42 ∨ scan = 54 then (ctrl, alt, true, caps)
      else if scan = 170 ∨ scan = 182 then (ctrl, alt, false, caps)
      else if scan = 186 then (ctrl, alt, shift, !caps)
      else (ctrl, alt, shift, caps)

theorem setModifiers_modifiers (scan : Nat) (k : Kernel) :
    (setModifiers scan k).modifiers = modifiersAfter scan k.modifiers := by
  unfold setModifiers modifiersAfter Kernel.modifiers
  dsimp only
  split_ifs <;> rfl

/-- The flags that belong to one key. -/
def Kernel.keyFlags (k : Kernel) : Nat × Bool × Bool × Bool × Bool × Bool :=
  (k.bufFlag, k.backFlag, k.ctrlFlagL, k.terminalZeroFlag, k.terminalOneFlag, k.terminalTwoFlag)

/-- What a function that only draws leaves alone. -/
structure Draws (k k' : Kernel) : Prop where
  lines : k'.lines = k.lines
  terminalNum : k'.terminalNum = k.terminalNum
  display : k'.terminalNumDisplay = k.terminalNumDisplay
  enterFlag : k'.enterFlag = k.enterFlag
  modifiers : k'.modifiers = k.modifiers
  keyFlags : k'.keyFlags = k.keyFlags

namespace Draws

theorem refl (k : Kernel) : Draws k k := ⟨rfl, rfl, rfl, rfl, rfl, rfl⟩

theorem trans {k k₁ k₂ : Kernel} (h : Draws k k₁) (h' : Draws k₁ k₂) : Draws k k₂ where
  lines := h'.lines.trans h.lines
  terminalNum := h'.terminalNum.trans h.terminalNum
  display := h'.display.trans h.display
  enterFlag := h'.enterFlag.trans h.enterFlag
  modifiers := h'.modifiers.trans h.modifiers
  keyFlags := h'.keyFlags.trans h.keyFlags

/-- An assignment to a terminal that is not to its line. -/
theorem setTerminal (k : Kernel) (t : Tid) {f : Terminal → Terminal}
    (hf : ∀ t, (f t).line = t.line) : Draws k (k.setTerminal t f) where
  lines := by
    funext u
    by_cases hu : u = t
    · subst hu
      rw [Kernel.lines, Kernel.setTerminal_self, hf, Kernel.lines]
    · rw [Kernel.lines, Kernel.setTerminal_of_ne k f hu, Kernel.lines]
  terminalNum := rfl
  display := rfl
  enterFlag := rfl
  modifiers := rfl
  keyFlags := rfl

end Draws

theorem NoKeyPending.of_keyFlags {k k' : Kernel} (h : NoKeyPending k)
    (hflags : k'.keyFlags = k.keyFlags) : NoKeyPending k' := by
  simp only [Kernel.keyFlags, h.bufFlag, h.backFlag, h.ctrlFlagL, h.terminalZeroFlag,
    h.terminalOneFlag, h.terminalTwoFlag, Prod.mk.injEq] at hflags
  obtain ⟨hbuf, hback, hctrlL, hzero, hone, htwo⟩ := hflags
  exact ⟨hbuf, hback, hctrlL, hzero, hone, htwo⟩

theorem NoKeyPending.draws {k k' : Kernel} (h : NoKeyPending k) (hdraws : Draws k k') :
    NoKeyPending k' :=
  h.of_keyFlags hdraws.keyFlags

/-- A change of memory, the cursors and the VGA controller. -/
theorem Draws.of_undrawn {k k' : Kernel} (h : k'.undrawn = k.undrawn) : Draws k k' where
  lines := read_of_undrawn Kernel.lines (fun _ => rfl) h
  terminalNum := read_of_undrawn Kernel.terminalNum (fun _ => rfl) h
  display := read_of_undrawn Kernel.terminalNumDisplay (fun _ => rfl) h
  enterFlag := read_of_undrawn Kernel.enterFlag (fun _ => rfl) h
  modifiers := read_of_undrawn Kernel.modifiers (fun _ => rfl) h
  keyFlags := read_of_undrawn Kernel.keyFlags (fun _ => rfl) h

/-- **`terminal_write`** only draws. -/
theorem terminalWrite_draws {buf : Option Buf} {nbytes v : Int32} {k k' : Kernel}
    (h : terminalWrite buf nbytes k = some (v, k')) : Draws k k' :=
  .of_undrawn (terminalWrite_undrawn h)

/-! ## Functions that edit the line of the displayed terminal -/

namespace Line

/-- A character at the end, if there is room. -/
def add (c : UInt8) (line : Line) : Line :=
  if line.screenBufTop < screenBufSize - 1 then
    ⟨Function.update line.screenBuf line.screenBufTop c, line.screenBufTop + 1⟩
  else line

/-- Drop the last character. -/
def drop (line : Line) : Line :=
  if line.screenBufTop > 0 then
    ⟨Function.update line.screenBuf (line.screenBufTop - 1) 0, line.screenBufTop - 1⟩
  else line

/-- `clearbuf`. -/
def empty (line : Line) : Line :=
  ⟨fun i => if i < screenBufSize then 0 else line.screenBuf i, 0⟩

/-- The test of `enter_press`. -/
def isOpen (line : Line) : Bool :=
  line.screenBufTop = 0 ∨ (line.screenBuf (line.screenBufTop - 1) ≠ chNewline ∧
    line.screenBuf (line.screenBufTop - 1) ≠ chReturn)

/-- `enter_press`. -/
def press (c : UInt8) (line : Line) : Line := if line.isOpen then line.add c else line

/-- The text ends before the last byte of the buffer, which `terminal_read` fills. -/
def Fits (line : Line) : Prop := line.screenBufTop < screenBufSize

theorem Fits.add {line : Line} (h : line.Fits) (c : UInt8) : (line.add c).Fits := by
  unfold Line.add
  split
  case isTrue hroom => exact Nat.succ_lt_succ hroom
  case isFalse => exact h

theorem Fits.press {line : Line} (h : line.Fits) (c : UInt8) : (line.press c).Fits := by
  unfold Line.press
  split
  · exact h.add c
  · exact h

theorem Fits.drop {line : Line} (h : line.Fits) : line.drop.Fits := by
  unfold Line.drop
  split
  · exact Nat.lt_of_le_of_lt (Nat.sub_le _ _) h
  · exact h

theorem fits_empty (line : Line) : line.empty.Fits := show 0 < screenBufSize by decide

theorem Fits.ite {b : Bool} {line line' : Line} (h : line.Fits) (h' : line'.Fits) :
    (if b then line else line').Fits := by
  split
  · exact h
  · exact h'

end Line

/-- The displayed terminal's line is edited by `f`. -/
structure EditsLine (f : Line → Line) (k k' : Kernel) : Prop where
  lines : k'.lines =
    Function.update k.lines k.terminalNumDisplay (f (k.lines k.terminalNumDisplay))
  terminalNum : k'.terminalNum = k.terminalNum
  display : k'.terminalNumDisplay = k.terminalNumDisplay
  enterFlag : k'.enterFlag = k.enterFlag
  modifiers : k'.modifiers = k.modifiers

namespace EditsLine

variable {f : Line → Line} {k k₁ k' : Kernel}

/-- Only drawing is no edit. -/
theorem of_draws (h : Draws k k')
    (hsame : f (k.lines k.terminalNumDisplay) = k.lines k.terminalNumDisplay) :
    EditsLine f k k' where
  lines := by
    rw [hsame, Function.update_eq_self]
    exact h.lines
  terminalNum := h.terminalNum
  display := h.display
  enterFlag := h.enterFlag
  modifiers := h.modifiers

theorem draws_trans (h : Draws k k₁) (h' : EditsLine f k₁ k') : EditsLine f k k' where
  lines := by
    rw [h'.lines, h.lines, h.display]
  terminalNum := h'.terminalNum.trans h.terminalNum
  display := h'.display.trans h.display
  enterFlag := h'.enterFlag.trans h.enterFlag
  modifiers := h'.modifiers.trans h.modifiers

theorem trans_draws (h : EditsLine f k k₁) (h' : Draws k₁ k') : EditsLine f k k' where
  lines := h'.lines.trans h.lines
  terminalNum := h'.terminalNum.trans h.terminalNum
  display := h'.display.trans h.display
  enterFlag := h'.enterFlag.trans h.enterFlag
  modifiers := h'.modifiers.trans h.modifiers

/-- An assignment to the line. -/
theorem setTerminal (k : Kernel) {g : Terminal → Terminal}
    (hg : (g (k.terminalArr k.terminalNumDisplay)).line = f (k.lines k.terminalNumDisplay)) :
    EditsLine f k (k.setTerminal k.terminalNumDisplay g) where
  lines := by
    funext u
    by_cases hu : u = k.terminalNumDisplay
    · subst hu
      rw [Kernel.lines, Kernel.setTerminal_self, hg, Function.update_self]
    · rw [Kernel.lines, Kernel.setTerminal_of_ne k g hu, Function.update_of_ne hu, Kernel.lines]
  terminalNum := rfl
  display := rfl
  enterFlag := rfl
  modifiers := rfl

end EditsLine

theorem add2buf_lines {c : UInt8} {k k' : Kernel} (h : add2buf c k = some k') :
    EditsLine (Line.add c) k k' := by
  rw [add2buf] at h
  dsimp only at h
  split at h
  case isFalse hfull =>
    cases h
    exact .of_draws (.refl k) (if_neg hfull)
  case isTrue hroom =>
    rw [Option.bind_eq_bind, Option.bind_eq_some_iff] at h
    obtain ⟨k₁, hput, hmove⟩ := h
    have hdraws := Draws.of_undrawn (putcAddr_undrawn hput)
    have hadd : EditsLine (Line.add c) k₁
        (k₁.setTerminal k₁.terminalNumDisplay (appendToLine c)) := by
      refine .setTerminal k₁ ?_
      have hline : k₁.lines k₁.terminalNumDisplay = k.lines k.terminalNumDisplay := by
        rw [hdraws.lines, hdraws.display]
      rw [Line.add, if_pos (by rw [hline]; exact hroom)]
      rfl
    rw [← hdraws.display] at hmove
    generalize k₁.setTerminal k₁.terminalNumDisplay (appendToLine c) = k₂ at hadd hmove
    have hedit := EditsLine.draws_trans hdraws hadd
    split at hmove
    · exact hedit.trans_draws
        ((Draws.setTerminal k₂ _ (by intro t; rfl)).trans
          (.of_undrawn (updateCursor_undrawn hmove)))
    · exact hedit.trans_draws
        ((Draws.setTerminal k₂ _ (by intro t; rfl)).trans
          (.of_undrawn (updateCursor_undrawn hmove)))

theorem enterPress_lines {c : UInt8} {k k' : Kernel} (h : enterPress c k = some k') :
    EditsLine (Line.press c) k k' := by
  rw [enterPress] at h
  dsimp only at h
  split at h
  case isFalse hclosed =>
    cases h
    refine .of_draws (.refl k) ?_
    rw [Line.press, if_neg]
    rw [Line.isOpen, decide_eq_true_eq]
    exact hclosed
  case isTrue hopen =>
    rw [Option.bind_eq_bind, Option.bind_eq_some_iff] at h
    obtain ⟨k₁, hadd, hrest⟩ := h
    have hedit := add2buf_lines hadd
    have hpress : Line.press c (k.lines k.terminalNumDisplay) =
        Line.add c (k.lines k.terminalNumDisplay) := by
      rw [Line.press, if_pos]
      rw [Line.isOpen, decide_eq_true_eq]
      exact hopen
    have hedit' : EditsLine (Line.press c) k k₁ :=
      ⟨by rw [hedit.lines, hpress], hedit.2, hedit.3, hedit.4, hedit.5⟩
    -- The newline moves the cursor and perhaps scrolls.
    have hmoved : Draws k₁ (k₁.setTerminal k.terminalNumDisplay fun t =>
        { t with cursorX := 0, cursorY := (t.cursorY + 1) % 256 }) := .setTerminal k₁ _ fun _ => rfl
    generalize (k₁.setTerminal k.terminalNumDisplay fun t =>
        { t with cursorX := 0, cursorY := (t.cursorY + 1) % 256 }) = k₂ at hmoved hrest
    split at hrest
    · rw [Option.bind_eq_some_iff] at hrest
      obtain ⟨k₃, hscroll, hk'⟩ := hrest
      cases hk'
      have hscrolled : Draws k₂ k₃ := by
        rw [scrollCells_frame hscroll]
        exact ⟨rfl, rfl, rfl, rfl, rfl, rfl⟩
      exact hedit'.trans_draws
        ((hmoved.trans hscrolled).trans (.setTerminal k₃ _ fun _ => rfl))
    · cases hrest
      exact hedit'.trans_draws hmoved

theorem deleteCharFromBuf_lines {k k' : Kernel} (h : deleteCharFromBuf k = some k') :
    EditsLine Line.drop k k' := by
  rw [deleteCharFromBuf] at h
  dsimp only at h
  split at h
  case isFalse hempty =>
    cases h
    exact .of_draws (.refl k) (if_neg hempty)
  case isTrue htext =>
    have hdrop : EditsLine Line.drop k (k.setTerminal k.terminalNumDisplay dropFromLine) := by
      refine .setTerminal k ?_
      rw [Line.drop, if_pos (show (k.lines k.terminalNumDisplay).screenBufTop > 0 from htext)]
      rfl
    generalize k.setTerminal k.terminalNumDisplay dropFromLine = k₁ at hdrop h
    -- The cursor goes back in its row, or to the end of the row above.
    split at h
    · have hback := Draws.setTerminal k₁ k.terminalNumDisplay
        (f := fun t => { t with cursorX := t.cursorX - 1 }) fun _ => rfl
      exact hdrop.trans_draws (hback.trans (.of_undrawn (updateCursor_undrawn h)))
    · have hback := Draws.setTerminal k₁ k.terminalNumDisplay
        (f := fun t => { t with cursorX := numCols - 1, cursorY := (t.cursorY + 255) % 256 })
        fun _ => rfl
      exact hdrop.trans_draws (hback.trans (.of_undrawn (updateCursor_undrawn h)))

theorem clearbuf_lines (k : Kernel) : EditsLine Line.empty k (clearbuf k) :=
  .setTerminal k rfl

/-! ## Keys -/

/-- What a key makes of the line of the displayed terminal; `entered` is `enter_flag`. -/
def editLine (key : Key) (entered : Bool) (line : Line) : Line :=
  match key with
  | .idle => if entered then line.press 0 else line
  | .erase => if entered then line.press keyBackspace.toUInt8 else line.drop
  | .switch _ => line
  | .clear => line.empty
  | .show => if entered then line.press dbh.toUInt8 else line
  | .enter => line.press keyReturn.toUInt8
  | .char ascii =>
      if entered then line.press ascii else if ascii ≠ 0 then line.add ascii else line

theorem Line.Fits.editLine {line : Line} (h : line.Fits) (key : Key) (entered : Bool) :
    (editLine key entered line).Fits := by
  cases key with
  | idle => exact .ite (h.press 0) h
  | erase => exact .ite (h.press _) h.drop
  | switch index => exact h
  | clear => exact line.fits_empty
  | «show» => exact .ite (h.press _) h
  | enter => exact h.press _
  | char ascii =>
      refine .ite (h.press ascii) ?_
      split
      · exact h.add ascii
      · exact h

/-- The terminal that is displayed after a key. -/
def Key.display (key : Key) (shown : Tid) : Tid :=
  match key with
  | .switch index => index
  | _ => shown

/-- `enter_flag` after a key. -/
def Key.entered (key : Key) (entered : Bool) : Bool := entered || key = .enter

/-- What a key does to the lines, the terminal numbers and `enter_flag`. -/
structure KeyEdits (key : Key) (k k' : Kernel) : Prop where
  lines : k'.lines = Function.update k.lines k.terminalNumDisplay
    (editLine key k.enterFlag (k.lines k.terminalNumDisplay))
  terminalNum : k'.terminalNum = k.terminalNum
  display : k'.terminalNumDisplay = key.display k.terminalNumDisplay
  enterFlag : k'.enterFlag = key.entered k.enterFlag
  modifiers : k'.modifiers = k.modifiers

/-- An edit of the displayed line that leaves `enter_flag` alone. -/
theorem KeyEdits.of_edits {key : Key} {f : Line → Line} {k k' : Kernel} (h : EditsLine f k k')
    (hline : f (k.lines k.terminalNumDisplay) =
      editLine key k.enterFlag (k.lines k.terminalNumDisplay))
    (hdisplay : key.display k.terminalNumDisplay = k.terminalNumDisplay)
    (hentered : key ≠ .enter) : KeyEdits key k k' where
  lines := by
    rw [h.lines, hline]
  terminalNum := h.terminalNum
  display := by
    rw [h.display, hdisplay]
  enterFlag := by
    rw [h.enterFlag, Key.entered, decide_eq_false hentered, Bool.or_false]
  modifiers := h.modifiers

theorem swapTerminal_lines {index : Tid} {k k' : Kernel} (h : swapTerminal index k = some k') :
    k'.lines = k.lines ∧ k'.terminalNum = k.terminalNum ∧ k'.terminalNumDisplay = index ∧
      k'.enterFlag = k.enterFlag ∧ k'.modifiers = k.modifiers := by
  rw [swapTerminal] at h
  split at h
  case isTrue hsame =>
    cases h
    exact ⟨rfl, rfl, hsame.symm, rfl, rfl⟩
  case isFalse hne =>
    simp only [Option.bind_eq_bind, Option.bind_eq_some_iff] at h
    obtain ⟨temp, -, shown, -, k₁, hold, k₂, hnew, hcursor⟩ := h
    have hdraws := Draws.of_undrawn (updateCursor_undrawn hcursor)
    have hframe := (Kernel.pokeRange_frame hnew).trans
      (congrArg (fun k₁ : Kernel => { k₁ with phys := k₂.phys }) (Kernel.pokeRange_frame hold))
    rw [hframe] at hdraws
    exact ⟨hdraws.lines, hdraws.terminalNum, hdraws.display, hdraws.enterFlag, hdraws.modifiers⟩

/-- The flags that say which key it is are no part of a line. -/
theorem EditsLine.of_flags {f : Line → Line} {k k' : Kernel} {buf : Nat} {back ctrlL : Bool}
    (h : EditsLine f { k with bufFlag := buf, backFlag := back, ctrlFlagL := ctrlL } k') :
    EditsLine f k k' :=
  ⟨h.1, h.2, h.3, h.4, h.5⟩

/-- **What a key does to the lines.** -/
theorem handleKey_lines {key : Key} {k k' : Kernel} (h : handleKey key k = some k') :
    KeyEdits key k k' := by
  cases key with
  | idle =>
      dsimp only [handleKey] at h
      split at h
      case isTrue hentered => exact .of_edits (enterPress_lines h) (if_pos hentered).symm rfl (by rintro ⟨⟩)
      case isFalse hclear =>
        cases h
        exact .of_edits (.of_draws (f := id) (.refl k) rfl) (if_neg hclear).symm rfl (by rintro ⟨⟩)
  | erase =>
      dsimp only [handleKey] at h
      split at h
      case isTrue hentered =>
        have hedit := EditsLine.of_flags (enterPress_lines h)
        exact .of_edits hedit (if_pos hentered).symm rfl (by rintro ⟨⟩)
      case isFalse hclear =>
        rw [Option.bind_eq_some_iff] at h
        obtain ⟨k₁, hbuf, hscreen⟩ := h
        -- Blanking the cell on the screen is drawing.
        have hedit := (deleteCharFromBuf_lines hbuf).trans_draws
          (.of_undrawn (putcAddr_undrawn hscreen))
        exact .of_edits hedit.of_flags (if_neg hclear).symm rfl (by rintro ⟨⟩)
  | switch index =>
      dsimp only [handleKey] at h
      -- A switch shows another line; it edits none.
      obtain ⟨hlines, hnum, hdisplay, hflag, hmodifiers⟩ := swapTerminal_lines h
      refine ⟨?_, hnum.trans ?_, hdisplay, hflag.trans ?_, hmodifiers.trans ?_⟩
      · rw [hlines]
        dsimp only [editLine]
        rw [Function.update_eq_self]
        fin_cases index <;> rfl
      · fin_cases index <;> rfl
      · rw [Key.entered]
        fin_cases index <;> simp [setSwitchFlag]
      · fin_cases index <;> rfl
  | clear =>
      dsimp only [handleKey] at h
      rw [Option.bind_eq_some_iff] at h
      obtain ⟨k₁, hclear, hcursor⟩ := h
      have hedit := (clearbuf_lines _).trans_draws
        (.of_undrawn ((initCursor_undrawn hcursor).trans (clear_undrawn hclear)))
      exact .of_edits hedit.of_flags rfl rfl (by rintro ⟨⟩)
  | «show» =>
      dsimp only [handleKey] at h
      rw [Option.bind_eq_bind, Option.bind_eq_some_iff] at h
      obtain ⟨k₁, hprint, hrest⟩ := h
      have hdraws := Draws.of_undrawn (printBuf_undrawn hprint)
      rw [hdraws.enterFlag] at hrest
      split at hrest
      case isTrue hentered =>
        exact .of_edits (.draws_trans hdraws (enterPress_lines hrest)) (if_pos hentered).symm rfl
          (by rintro ⟨⟩)
      case isFalse hclear =>
        cases hrest
        exact .of_edits (.of_draws (f := id) hdraws rfl) (if_neg hclear).symm rfl (by rintro ⟨⟩)
  | enter =>
      have hedit := enterPress_lines h
      exact ⟨hedit.1, hedit.2, hedit.3, hedit.4.trans (by simp [Key.entered]), hedit.5⟩
  | char ascii =>
      dsimp only [handleKey] at h
      split at h
      case isTrue hentered =>
        have hedit := EditsLine.of_flags (enterPress_lines h)
        exact .of_edits hedit (if_pos hentered).symm rfl (by rintro ⟨⟩)
      case isFalse hclear =>
        have hline : ∀ line, editLine (.char ascii) k.enterFlag line =
            if ascii ≠ 0 then line.add ascii else line := fun _ => if_neg hclear
        split at h
        case isTrue hascii =>
          have hedit := add2buf_lines h
          refine .of_edits hedit.of_flags ?_ rfl (by rintro ⟨⟩)
          rw [hline, if_pos hascii]
        case isFalse hzero =>
          cases h
          have hedit := EditsLine.of_draws (f := id) (.refl { k with bufFlag := 3 }) rfl
          refine .of_edits hedit.of_flags ?_ rfl (by rintro ⟨⟩)
          rw [hline, if_neg hzero]
          rfl

theorem setModifiers_lines (scan : Nat) (k : Kernel) :
    (setModifiers scan k).lines = k.lines ∧
      (setModifiers scan k).terminalNum = k.terminalNum ∧
      (setModifiers scan k).terminalNumDisplay = k.terminalNumDisplay ∧
      (setModifiers scan k).enterFlag = k.enterFlag := by
  unfold setModifiers
  split_ifs <;> exact ⟨rfl, rfl, rfl, rfl⟩

/-- What a complete call does to the lines, the terminal numbers and the flags. -/
structure KeyHandled (scan : UInt8) (key : Key) (k k' : Kernel) : Prop where
  keys : NoKeyPending k'
  lines : k'.lines = Function.update k.lines k.terminalNumDisplay
    (editLine key k.enterFlag (k.lines k.terminalNumDisplay))
  terminalNum : k'.terminalNum = k.terminalNum
  display : k'.terminalNumDisplay = key.display k.terminalNumDisplay
  enterFlag : k'.enterFlag = key.entered k.enterFlag
  modifiers : k'.modifiers = modifiersAfter scan.toNat k.modifiers

/-- **What `keyboard_handler_main` does to the lines.** -/
theorem keyboardHandlerMain_lines {scan : UInt8} {past : UInt32} {k k' : Kernel}
    (hkeys : NoKeyPending k) (h : keyboardHandlerMain scan past k = some k') :
    KeyHandled scan (keyOf scan past k) k k' := by
  have hpending := keyboardHandlerMain_keys h
  rw [keyboardHandlerMain_eq scan past hkeys, Option.map_eq_some_iff] at h
  obtain ⟨k₁, hkey, rfl⟩ := h
  obtain ⟨hlines, hnum, hdisplay, hentered, hmodifiers⟩ := handleKey_lines hkey
  -- the modifiers are set first, and are no part of the lines
  obtain ⟨hlines₀, hnum₀, hdisplay₀, hentered₀⟩ := setModifiers_lines scan.toNat k
  rw [hlines₀, hdisplay₀, hentered₀] at hlines
  rw [hdisplay₀] at hdisplay
  rw [hentered₀] at hentered
  rw [setModifiers_modifiers] at hmodifiers
  exact ⟨hpending, hlines, hnum.trans hnum₀, hdisplay, hentered, hmodifiers⟩

/-- The line of the displayed terminal after a key that does not display another one. -/
theorem KeyHandled.shown {scan : UInt8} {key : Key} {k k' : Kernel} (h : KeyHandled scan key k k')
    (hkey : ∀ index, key ≠ .switch index) : k'.terminalNumDisplay = k.terminalNumDisplay ∧
      k'.lines k'.terminalNumDisplay =
        editLine key k.enterFlag (k.lines k.terminalNumDisplay) := by
  have hsame : key.display k.terminalNumDisplay = k.terminalNumDisplay := by
    cases key with
    | switch index => exact absurd rfl (hkey index)
    | idle | erase | clear | «show» | enter | char => rfl
  have hdisplay := h.display
  rw [hsame] at hdisplay
  exact ⟨hdisplay, by rw [h.lines, hdisplay, Function.update_self]⟩

/-- A key that only changes the modifiers. -/
theorem keyboardHandlerMain_idle {scan : UInt8} {past : UInt32} {k : Kernel}
    (hkeys : NoKeyPending k) (hkey : keyOf scan past k = .idle) (hclear : k.enterFlag = false) :
    keyboardHandlerMain scan past k = some (resetFlags (setModifiers scan.toNat k)) := by
  have hentered := (setModifiers_lines scan.toNat k).2.2.2
  rw [hclear] at hentered
  rw [keyboardHandlerMain_eq scan past hkeys, hkey, handleKey, hentered,
    if_neg Bool.false_ne_true, Option.map_some]

end JuddOS
