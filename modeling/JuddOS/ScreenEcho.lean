import JuddOS.ClearedLines
import JuddOS.CursorMoves

/-!
# The echo of a line

The line buffer and the screen are updated by different functions.  While `enter_flag` is clear they
stay together: the cells before the cursor hold the line (`Echoes`), also when the cursor wraps in
either direction and when the last row is scrolled away.

While `enter_flag` is set each character is followed by a new line, so the cell before the cursor
does not depend on what was typed (`pressed_cell`).  `screen_echoes_iff` puts the two together.
-/

namespace JuddOS

open Support

/-- **The screen echoes the line.** -/
structure Echoes (k : Kernel) : Prop where
  inside : OnScreen k.shown
  fits : k.shown.screenBufTop ≤ k.shown.position
  cells : ∀ i, i < k.shown.screenBufTop →
    k.shownCell (k.shown.position - k.shown.screenBufTop + i) = k.shown.screenBuf i

/-- A line in which nothing has been typed is echoed anywhere on the screen. -/
theorem echoes_of_empty {k : Kernel} (hinside : OnScreen k.shown)
    (hempty : k.shown.screenBufTop = 0) : Echoes k where
  inside := hinside
  fits := by
    rw [hempty]
    exact Nat.zero_le _
  cells i hi := by
    rw [hempty] at hi
    exact absurd hi (Nat.not_lt_zero i)

theorem SameConsole.shownCell {k k₁ : Kernel} (h : SameConsole k k₁) :
    k₁.shownCell = k.shownCell := by
  funext i
  rw [Kernel.shownCell, h.phys]
  rfl

theorem Echoes.of_same {k k₁ : Kernel} (h : Echoes k) (hsame : SameConsole k k₁) : Echoes k₁ := by
  obtain ⟨hinside, hfits, hcells⟩ := h
  rw [← hsame.shown] at hinside hfits hcells
  rw [← hsame.shownCell] at hcells
  exact ⟨hinside, hfits, hcells⟩

/-! ## Characters and Backspace -/

/-- The line of the displayed terminal, from what a function does to the lines. -/
theorem EditsLine.shown_line {f : Line → Line} {k k' : Kernel} (h : EditsLine f k k') :
    k'.shown.line = f k.shown.line := by
  have hline := congrFun h.lines k'.terminalNumDisplay
  rw [h.display, Function.update_self] at hline
  rw [Kernel.shown, h.display]
  exact hline

/-- **A character.**  On the last cell of the screen the line is scrolled with its row. -/
theorem Echoes.add {k k' : Kernel} (h : Echoes k) (hmapped : VideoMapped k)
    (hown : k.terminalNum = k.terminalNumDisplay) {c : UInt8} (hplain : endsLine c = false)
    (hrun : add2buf c k = some k') : Echoes k' := by
  by_cases hroom : k.shown.screenBufTop < screenBufSize - 1
  case neg =>
    -- a full line takes no character
    rw [add2buf] at hrun
    cases (if_neg hroom).symm.trans hrun
    exact h
  obtain ⟨k₁, k₂, hspec, hputs, hmoved⟩ := add2buf_moves hmapped h.inside hroom c
  cases hspec.symm.trans hrun
  obtain ⟨hcol, hrow, hnext⟩ := h.inside.next
  have hcell : k.shown.position < 2000 := h.inside.cell_lt
  have hfits := h.fits
  have hline := (add2buf_lines hrun).shown_line
  rw [Line.add, if_pos (show k.shown.line.screenBufTop < screenBufSize - 1 from hroom)] at hline
  have htop : k'.shown.screenBufTop = k.shown.screenBufTop + 1 := congrArg Line.screenBufTop hline
  have hbuf : k'.shown.screenBuf =
      Function.update k.shown.screenBuf k.shown.screenBufTop c := congrArg Line.screenBuf hline
  -- the line and the new character, where they were stored
  have hstored : ∀ i, i < k.shown.screenBufTop + 1 →
      k₁.shownCell (k.shown.position - k.shown.screenBufTop + i) = k'.shown.screenBuf i := by
    intro i hi
    rw [hputs.cells hplain, hbuf]
    by_cases hlast : i = k.shown.screenBufTop
    · rw [if_pos (by omega), hlast, Function.update_self]
    · rw [if_neg (by omega), Function.update_of_ne hlast]
      exact h.cells i (by omega)
  have hown₁ : k₁.terminalNum = k₁.terminalNumDisplay := by
    rw [hputs.keeps.terminalNum, hputs.keeps.display, hown]
  rcases Nat.lt_or_ge k.shown.next.2 numRows with hin | hbelow
  · obtain ⟨hx, hy, hcells⟩ := hmoved.inside hin
    have hposition : k'.shown.position = k.shown.position + 1 := by
      rw [Terminal.position, hx, hy, hnext]
    refine ⟨⟨by rw [hx]; exact hcol, by rw [hy]; exact hin⟩, by omega, fun i hi => ?_⟩
    rw [hcells, ← hstored i (by omega)]
    congr 1
    omega
  · -- the cursor was in the last cell
    obtain ⟨hx, hy, hraised⟩ := hmoved.own hbelow hown₁
    have hposition : k'.shown.position = 1920 := by
      rw [Terminal.position, hx, hy]
      rfl
    have hroom' : k.shown.screenBufTop < 127 := hroom
    have hlast : k.shown.position = 1999 := by
      have heq : k.shown.next.2 = numRows := Nat.le_antisymm hrow hbelow
      rw [heq] at hnext
      simp only [numCols, numRows] at hnext
      omega
    refine ⟨⟨by rw [hx]; decide, by rw [hy]; decide⟩, by omega, fun i hi => ?_⟩
    rw [hraised _ (by simp only [numRows, numCols]; omega),
      if_pos (by simp only [numRows, numCols]; omega), ← hstored i (by omega)]
    congr 1
    simp only [numCols]
    omega

/-- **Backspace.**  With text before it the cursor is not in the first cell. -/
theorem Echoes.erase {k k' : Kernel} (h : Echoes k) (hmapped : VideoMapped k)
    (hrun : (deleteCharFromBuf k).bind deleteCharFromScreen = some k') : Echoes k' := by
  rw [Option.bind_eq_some_iff] at hrun
  obtain ⟨k₁, hdelete, hput⟩ := hrun
  have hline := (deleteCharFromBuf_lines hdelete).shown_line
  have hfits := h.fits
  by_cases htext : 0 < k.shown.screenBufTop
  case neg =>
    -- no text: the cell at the cursor is blanked
    rw [deleteCharFromBuf] at hdelete
    cases (if_neg htext).symm.trans hdelete
    obtain ⟨k₂, hspec, hputs⟩ := putcAddr_puts hmapped h.inside 0
    cases hspec.symm.trans hput
    refine echoes_of_empty ?_ ?_
    · rw [hputs.shown]
      exact h.inside
    · rw [hputs.shown]
      omega
  rw [Line.drop, if_pos (show k.shown.line.screenBufTop > 0 from htext)] at hline
  have htop : k₁.shown.screenBufTop = k.shown.screenBufTop - 1 := congrArg Line.screenBufTop hline
  have hbuf : k₁.shown.screenBuf =
      Function.update k.shown.screenBuf (k.shown.screenBufTop - 1) 0 :=
    congrArg Line.screenBuf hline
  obtain ⟨k₂, hspec, hmoved⟩ := deleteCharFromBuf_moves hmapped h.inside htext
  cases hspec.symm.trans hdelete
  obtain ⟨hcol, hback, -⟩ := h.inside.back
  obtain ⟨hin, hposition⟩ := hback (by omega)
  obtain ⟨hx, hy, hcells⟩ := hmoved.inside hin
  have hinside₁ : OnScreen k₁.shown := ⟨by rw [hx]; exact hcol, by rw [hy]; exact hin⟩
  have hposition₁ : k₁.shown.position + 1 = k.shown.position := by
    rw [Terminal.position, hx, hy, hposition]
  obtain ⟨k₃, hspec', hputs⟩ := putcAddr_puts (hmoved.keeps.mapped hmapped) hinside₁ 0
  cases hspec'.symm.trans hput
  have hshown := hputs.shown
  refine ⟨by rw [hshown]; exact hinside₁, by rw [hshown]; omega, fun i hi => ?_⟩
  rw [hshown, htop] at hi
  -- the cells of what is left of the line are before the one that is blanked
  rw [hshown, hputs.cells rfl, if_neg (by omega), hcells, hbuf, Function.update_of_ne (by omega),
    ← h.cells i (by omega)]
  congr 1
  omega

/-! ## Runs -/

/-- What is kept while a line is typed with `enter_flag` clear. -/
structure EchoReady (k : Kernel) : Prop where
  ready : TypingReady k
  clear : k.enterFlag = false
  line : (k.lines k.terminalNumDisplay).Fits
  echoes : Echoes k

/-- **One key** with `enter_flag` clear. -/
theorem echoes_handleKey {key : Key} {k k' : Kernel} (h : Echoes k) (hmapped : VideoMapped k)
    (hown : k.terminalNum = k.terminalNumDisplay) (hclear : k.enterFlag = false)
    (htyping : key.Typing) (henter : key ≠ .enter) (hrun : handleKey key k = some k') :
    Echoes k' := by
  have hnot : ¬ k.enterFlag = true := Bool.eq_false_iff.mp hclear
  cases key with
  | idle =>
      cases (if_neg hnot).symm.trans hrun
      exact h
  | erase =>
      have hflagged := sameConsole_backFlag k
      exact (h.of_same hflagged).erase (hflagged.mapped hmapped) ((if_neg hnot).symm.trans hrun)
  | char c =>
      have hflagged := sameConsole_bufFlag k 3
      obtain ⟨hzero, hplain⟩ := htyping.plain
      have hadd : add2buf c { k with bufFlag := 3 } = some k' :=
        ((if_neg hnot).trans (if_pos hzero)).symm.trans hrun
      exact (h.of_same hflagged).add (hflagged.mapped hmapped) hown hplain hadd
  | enter => exact absurd rfl henter
  | switch | clear | «show» => exact htyping.elim

/-- **A call of `terminal_read`** stores its return behind the text. -/
theorem echoes_plantReturn {k : Kernel} (h : Echoes k)
    (hfits : k.shown.screenBufTop < screenBufSize) : Echoes (plantReturn k) := by
  have hself : (plantReturn k).shown =
      { k.shown with
        screenBuf := Function.update k.shown.screenBuf (screenBufSize - 1) chReturn } :=
    Kernel.setTerminal_self _ _ _
  obtain ⟨hinside, htop, hcells⟩ := h
  refine ⟨by rw [hself]; exact ⟨hinside.1, hinside.2⟩, by rw [hself]; exact htop, ?_⟩
  rw [hself]
  intro i hi
  have hi' : i < k.shown.screenBufTop := hi
  have hbefore : Function.update k.shown.screenBuf (screenBufSize - 1) chReturn i =
      k.shown.screenBuf i := Function.update_of_ne (by omega) ..
  exact (hcells i hi).trans hbefore.symm

theorem EchoReady.step {k k' : Kernel} {e : LineEvent} (h : EchoReady k) (hstep : LineStep k e k')
    (hkey : ∀ key, e = .key key → key.Typing ∧ key ≠ .enter) : EchoReady k' := by
  have hready := h.ready.line hstep fun key he => .inl (hkey key he).1
  cases hstep with
  | @key _ scan past hrun =>
      obtain ⟨htyping, henter⟩ := hkey _ rfl
      have hedits := keyboardHandlerMain_lines h.ready.keys hrun
      have hflag : k'.enterFlag = false := by
        rw [hedits.enterFlag, h.clear, Key.entered, decide_eq_false henter]
        rfl
      have hline : (k'.lines k'.terminalNumDisplay).Fits := by
        rw [(hedits.shown htyping.ne_switch).2]
        exact h.line.editLine _ _
      refine ⟨hready, hflag, hline, ?_⟩
      -- the flags are no part of what is echoed
      have hsame := sameConsole_setModifiers k scan.toNat
      have hown : (setModifiers scan.toNat k).terminalNum =
          (setModifiers scan.toNat k).terminalNumDisplay := by
        rw [hsame.terminalNum, hsame.display, h.ready.shown]
      rw [keyboardHandlerMain_eq scan past h.ready.keys, Option.map_eq_some_iff] at hrun
      obtain ⟨k₁, hhandle, rfl⟩ := hrun
      have hclear := (setModifiers_lines scan.toNat k).2.2.2.trans h.clear
      have hechoes := echoes_handleKey (h.echoes.of_same hsame) (hsame.mapped h.ready.mapped) hown
        hclear htyping henter hhandle
      exact hechoes.of_same (sameConsole_resetFlags k₁)
  | call =>
      have hline : ((plantReturn k).lines (plantReturn k).terminalNumDisplay).Fits := by
        have hself := Kernel.setTerminal_self k k.terminalNumDisplay fun t =>
          { t with screenBuf := Function.update t.screenBuf (screenBufSize - 1) chReturn }
        have htop := congrArg Terminal.screenBufTop hself
        exact htop.trans_lt h.line
      exact ⟨hready, h.clear, hline, echoes_plantReturn h.echoes h.line⟩

theorem EchoReady.run {k k' : Kernel} {es : List LineEvent} (h : EchoReady k)
    (hrun : Run LineStep k es k') (hkeys : ∀ key ∈ keysOf es, key.Typing ∧ key ≠ .enter) :
    EchoReady k' :=
  lineRun_invariant (fun _ => EchoReady) hrun hkeys h fun _ _ _ _ hready hstep hkey =>
    hready.step hstep hkey

/-! ## Typing while `enter_flag` is set -/

/-- The last cell of the row in which the cursor is after a character. -/
def Kernel.lastCell (k : Kernel) : UInt8 :=
  if numRows ≤ k.shown.next.2 then chSpace
  else k.shownCell (numCols * k.shown.next.2 + (numCols - 1))

/-- A first character that is handed to `enter_press`. -/
structure PressedCell (c : UInt8) (k k' : Kernel) : Prop where
  pressed : enterPress c k = some k'
  top : k'.shown.screenBufTop = 1
  buf : k'.shown.screenBuf 0 = c
  cell : k'.shownCell (k'.shown.position - 1) = k.lastCell

/-- The cell before the new cursor is the last one of the row above, whatever the character is. -/
theorem pressed_cell {k : Kernel} (h : VideoMapped k) (hinside : OnScreen k.shown)
    (hown : k.terminalNum = k.terminalNumDisplay) (hempty : k.shown.screenBufTop = 0) {c : UInt8}
    (hplain : endsLine c = false) : ∃ k', PressedCell c k k' := by
  have hopen : LineOpen k := .inl hempty
  have hroom : k.shown.screenBufTop < screenBufSize - 1 := by
    rw [hempty]
    decide
  have hcell : k.shown.position < 2000 := hinside.cell_lt
  obtain ⟨hcol, hrow, hnext⟩ := hinside.next
  simp only [numCols, numRows] at hcol hrow hnext
  obtain ⟨k₁, k₂, k', hrun, hputs, hmoved, hnew⟩ := enterPress_moves h hinside hopen hroom c
  have hown₁ : k₁.terminalNum = k₁.terminalNumDisplay := by
    rw [hputs.keeps.terminalNum, hputs.keeps.display, hown]
  -- the row of the cursor after the character, which `update_cursor` keeps on the screen
  have hrow₂ : k₂.shown.cursorY = min k.shown.next.2 (numRows - 1) := by
    rcases Nat.lt_or_ge k.shown.next.2 numRows with hin | hbelow
    · rw [(hmoved.inside hin).2.1]
      simp only [numRows] at hin ⊢
      omega
    · rw [(hmoved.own hbelow hown₁).2.1]
      simp only [numRows] at hbelow ⊢
      omega
  simp only [numRows] at hrow₂
  have hedit := (enterPress_lines hrun).shown_line
  have hpress : k.shown.line.press c = k.shown.line.add c := if_pos (by
    rw [Line.isOpen, decide_eq_true_eq]
    exact hopen)
  rw [hpress, Line.add, if_pos (show k.shown.line.screenBufTop < screenBufSize - 1 from hroom)]
    at hedit
  have htop : k'.shown.screenBufTop = k.shown.screenBufTop + 1 := congrArg Line.screenBufTop hedit
  have hbuf : k'.shown.screenBuf =
      Function.update k.shown.screenBuf k.shown.screenBufTop c := congrArg Line.screenBuf hedit
  refine ⟨k', hrun, by rw [htop, hempty], by rw [hbuf, hempty, Function.update_self], ?_⟩
  have hx := hnew.cursorX
  have hy := hnew.cursorY
  rw [hrow₂] at hy
  simp only [numRows] at hy
  have hposition : k'.shown.position = 80 * min (min k.shown.next.2 24 + 1) 24 := by
    rw [Terminal.position, hx, hy]
    rfl
  rw [hposition, Kernel.lastCell]
  by_cases hbelow : numRows ≤ k.shown.next.2
  · -- Both the character and the new line scroll; the cell comes from the blanked row.
    rw [if_pos hbelow]
    obtain ⟨-, -, hraised₂⟩ := hmoved.own hbelow hown₁
    simp only [numRows] at hbelow
    have hraised := hnew.scrolls (by simp only [numRows]; omega)
    rw [hraised _ (by simp only [numRows, numCols]; omega),
      if_pos (by simp only [numRows, numCols]; omega),
      hraised₂ _ (by simp only [numRows, numCols]; omega),
      if_neg (by simp only [numRows, numCols]; omega)]
  · rw [if_neg hbelow]
    obtain ⟨-, -, hcells⟩ := hmoved.inside (Nat.lt_of_not_le hbelow)
    simp only [numRows] at hbelow
    -- the last cell of the row, which is not the one of the character
    have hlast : k₂.shownCell (80 * k.shown.next.2 + 79) =
        k.shownCell (80 * k.shown.next.2 + 79) := by
      rw [hcells, hputs.cells hplain, if_neg (by omega)]
    simp only [numCols]
    by_cases hscroll : numRows ≤ k₂.shown.cursorY + 1
    · have hraised := hnew.scrolls hscroll
      simp only [numRows] at hscroll
      rw [hraised _ (by simp only [numRows, numCols]; omega),
        if_pos (by simp only [numRows, numCols]; omega), ← hlast]
      congr 1
      simp only [numCols]
      omega
    · rw [hnew.stays (Nat.lt_of_not_le hscroll), ← hlast]
      simp only [numRows] at hscroll
      congr 1
      omega

/-- The keys of the letters a and b give letters with any modifiers. -/
theorem letter_keys (k : Kernel) :
    (keyOf 30 0 k = .char 97 ∨ keyOf 30 0 k = .char 65) ∧
      (keyOf 48 0 k = .char 98 ∨ keyOf 48 0 k = .char 66) := by
  obtain ⟨ctrl, alt, shift, caps, hmodifiers⟩ : ∃ ctrl alt shift caps,
    k.modifiers = (ctrl, alt, shift, caps) := ⟨_, _, _, _, rfl⟩
  have h30 := keyOf_eq (k := k) hmodifiers (Eq.refl (keyOf 30 0 _))
  have h48 := keyOf_eq (k := k) hmodifiers (Eq.refl (keyOf 48 0 _))
  rw [h30, h48]
  cases ctrl <;> cases alt <;> cases shift <;> cases caps <;> decide

/-- A character that is typed while `enter_flag` is set. -/
theorem exists_pressed {k : Kernel} (h : TypingReady k) (hset : k.enterFlag = true)
    (hinside : OnScreen k.shown) (hempty : k.shown.screenBufTop = 0) {scan : UInt8} {c : UInt8}
    (hkey : keyOf scan 0 k = .char c) (hplain : endsLine c = false) :
    ∃ k', LineStep k (.key (.char c)) k' ∧ (Echoes k' → c = k.lastCell) := by
  have hflag := sameConsole_bufFlag k 3
  have hpress : setModifiers scan.toNat k = k := by
    cases hdrop : dropsScan scan.toNat k with
    | true =>
        rw [keyOf, if_pos hdrop] at hkey
        cases hkey
    | false => exact (translate_of_press 0 hdrop).2
  obtain ⟨k₁, hrun, htop, hbuf, hcell⟩ :=
    pressed_cell (hflag.mapped h.mapped) hinside h.shown hempty hplain
  have hhandler : keyboardHandlerMain scan 0 k = some (resetFlags k₁) := by
    rw [keyboardHandlerMain_eq scan 0 h.keys, hkey, hpress]
    exact congrArg (Option.map resetFlags) ((if_pos hset).trans hrun)
  refine ⟨resetFlags k₁, ?_, fun hechoes => ?_⟩
  · rw [← hkey]
    exact .key hhandler
  · have hechoes₁ : Echoes k₁ := hechoes.of_same ⟨rfl, rfl, rfl, rfl, rfl, rfl⟩
    have hecho := hechoes₁.cells 0 (by omega)
    rw [htop, hbuf, Nat.add_zero, hcell] at hecho
    exact hecho.symm

/-- **Typing with `enter_flag` set is not echoed**: one of two letters is not. -/
theorem echo_fails {k : Kernel} (h : TypingReady k) (hset : k.enterFlag = true)
    (hinside : OnScreen k.shown) (hempty : k.shown.screenBufTop = 0) :
    ∃ c k', (Key.char c).Typing ∧ LineStep k (.key (.char c)) k' ∧ ¬ Echoes k' := by
  obtain ⟨ha, hb⟩ := letter_keys k
  -- The two letters cannot both be the character that is in the cell.
  obtain ⟨a, hkeya, haset⟩ : ∃ a, keyOf 30 0 k = .char a ∧ (a = 97 ∨ a = 65) := by
    rcases ha with h97 | h65
    · exact ⟨97, h97, .inl rfl⟩
    · exact ⟨65, h65, .inr rfl⟩
  obtain ⟨b, hkeyb, hbset⟩ : ∃ b, keyOf 48 0 k = .char b ∧ (b = 98 ∨ b = 66) := by
    rcases hb with h98 | h66
    · exact ⟨98, h98, .inl rfl⟩
    · exact ⟨66, h66, .inr rfl⟩
  have haplain : (Key.char a).Typing ∧ endsLine a = false := by
    rcases haset with rfl | rfl <;> decide
  have hbplain : (Key.char b).Typing ∧ endsLine b = false := by
    rcases hbset with rfl | rfl <;> decide
  have hne : a ≠ b := by
    rcases haset with rfl | rfl <;> rcases hbset with rfl | rfl <;> decide
  by_cases hav : a = k.lastCell
  · obtain ⟨k', hstep, hecho⟩ := exists_pressed h hset hinside hempty hkeyb hbplain.2
    exact ⟨b, k', hbplain.1, hstep, fun hechoes => hne (hav.trans (hecho hechoes).symm)⟩
  · obtain ⟨k', hstep, hecho⟩ := exists_pressed h hset hinside hempty hkeya haplain.2
    exact ⟨a, k', haplain.1, hstep, fun hechoes => hav (hecho hechoes)⟩

/-! ## When the screen echoes the line -/

/-- **The echo.**  From an empty line with the cursor anywhere on the screen, every sequence of
characters and Backspaces is echoed exactly when `enter_flag` is clear at the start. -/
theorem screen_echoes_iff {fs : Image} {m : PowerOn} {es₀ : List MachineEvent} {s : ProcState}
    (hreach : ProcState.MachineSteps fs (.boot m) es₀ s)
    (hshown : s.kernel.terminalNum = s.kernel.terminalNumDisplay)
    (hinside : OnScreen s.kernel.shown) (hempty : s.kernel.shown.screenBufTop = 0) :
    (∀ es k, Run LineStep s.kernel es k → (∀ key ∈ keysOf es, key.Typing ∧ key ≠ .enter) →
      Echoes k) ↔ s.kernel.enterFlag = false := by
  have hready := typingReady_of_run hreach hshown
  constructor
  · intro hall
    by_contra hset
    obtain ⟨c, k', htyping, hstep, hfails⟩ :=
      echo_fails hready (Bool.of_not_eq_false hset) hinside hempty
    refine hfails (hall _ k' (.single hstep) ?_)
    simpa [keysOf, LineEvent.key?] using htyping
  · intro hclear es k hrun hkeys
    have hline : (s.kernel.lines s.kernel.terminalNumDisplay).Fits := by
      have htop : (s.kernel.lines s.kernel.terminalNumDisplay).screenBufTop = 0 := hempty
      rw [Line.Fits, htop]
      decide
    have hstart : EchoReady s.kernel := ⟨hready, hclear, hline, echoes_of_empty hinside hempty⟩
    exact (hstart.run hrun hkeys).echoes

/-- Where a line starts, with the cursor on the screen. -/
theorem LineStart.shown_empty {k : Kernel} (h : LineStart k) : k.shown.screenBufTop = 0 := h.empty

theorem onScreen_shown {k : Kernel} (h : ScreensReady k) : OnScreen k.shown := h.cursor _

/-- After boot the cursor is on the screen and the line is empty. -/
theorem shown_boot (m : PowerOn) : OnScreen (ProcState.boot m).kernel.shown ∧
    (ProcState.boot m).kernel.shown.screenBufTop = 0 :=
  ⟨onScreen_shown (consoleReady_bootKernel m).screens, (lineStart_boot m).shown_empty⟩

/-- After boot the screen echoes what is typed. -/
theorem screen_echoes_iff_boot :
    (∀ es k, Run LineStep (ProcState.boot .blank).kernel es k →
      (∀ key ∈ keysOf es, key.Typing ∧ key ≠ .enter) → Echoes k) ↔
      (ProcState.boot .blank).kernel.enterFlag = false := by
  have hreach : ProcState.MachineSteps shellImage (.boot .blank) [] (.boot .blank) := .nil _
  obtain ⟨hinside, hempty⟩ := shown_boot .blank
  exact screen_echoes_iff hreach (lineStart_boot .blank).shown hinside hempty

/-- Keys and calls are events of the machine. -/
theorem LineStep.machine (fs : Image) {s : ProcState} {e : LineEvent} {k : Kernel}
    (hstep : LineStep s.kernel e k) :
    ∃ e', s.machineStep fs e' = some { s with kernel := k } := by
  cases hstep with
  | @key _ scan past hrun =>
      exact ⟨.key scan past, ProcState.machineStep_key hrun fs⟩
  | call => exact ⟨.plantReturn, rfl⟩

/-- The keys of a line are events of the machine. -/
theorem LineStep.machineSteps (fs : Image) (s : ProcState) {es : List LineEvent} {k : Kernel}
    (hrun : Run LineStep s.kernel es k) :
    ∃ es', ProcState.MachineSteps fs s es' { s with kernel := k } := by
  have hstep : ∀ k₁ e k₂ (s₁ : ProcState), s₁ = { s with kernel := k₁ } → LineStep k₁ e k₂ →
      ∃ es s₂, ProcState.MachineSteps fs s₁ es s₂ ∧ s₂ = { s with kernel := k₂ } := by
    intro k₁ e k₂ s₁ hs₁ hstep
    rw [hs₁]
    obtain ⟨e', hmachine⟩ := LineStep.machine fs (s := { s with kernel := k₁ }) hstep
    exact ⟨[e'], _, Run.single hmachine, rfl⟩
  obtain ⟨es', s', hmachine, rfl⟩ :=
    hrun.simulates (fun k s' => s' = { s with kernel := k }) rfl hstep
  exact ⟨es', hmachine⟩

/-- Control-L blanks the screen, and puts the cursors in the first cell. -/
theorem LineStep.blank {k k' : Kernel} (h : TypingReady k)
    (hstep : LineStep k (.key .clear) k') : k'.shown.cursorX = 0 ∧ k'.shown.cursorY = 0 ∧
      ∀ i, i < numRows * numCols → k'.shownCell i = chSpace := by
  generalize he : LineEvent.key .clear = e at hstep
  cases hstep with
  | call => cases he
  | @key _ scan past hrun =>
      have hkey : keyOf scan past k = .clear := (LineEvent.key.inj he).symm
      rw [keyboardHandlerMain_eq scan past h.keys, hkey, Option.map_eq_some_iff] at hrun
      obtain ⟨k₁, hhandle, rfl⟩ := hrun
      have hsame := sameConsole_setModifiers k scan.toNat
      have hmapped := hsame.mapped h.mapped
      generalize setModifiers scan.toNat k = k₀ at hhandle hmapped
      dsimp only [handleKey] at hhandle
      rw [Option.bind_eq_some_iff] at hhandle
      obtain ⟨k₂, hclear, hcursor⟩ := hhandle
      rw [initCursor_eq] at hcursor
      cases hcursor
      refine ⟨rfl, rfl, fun i hi => ?_⟩
      have hflag := sameConsole_ctrlFlagL k₀
      have hkeeps : Keeps _ (clearbuf { k₀ with ctrlFlagL := true }) :=
        keeps_setTerminal _ k₀.terminalNumDisplay fun _ => rfl
      have hblank := blankScreen_eq fun _ hj =>
        (hkeeps.mapped (hflag.mapped hmapped)).vga.translate hj
      have hphys := congrArg Kernel.phys (Option.some.inj (hclear.symm.trans hblank))
      have hcell : k₂.phys (videoAddr + 2 * i) = chSpace := by
        rw [hphys]
        refine (if_pos (by omega)).trans (if_pos ?_)
        omega
      exact hcell

/-- After Enter and control-L the letter a is not echoed. -/
theorem echo_fails_after_clear :
    ¬ ∀ (fs : Image) (m : PowerOn) (es₀ : List MachineEvent) (s : ProcState),
      ProcState.MachineSteps fs (.boot m) es₀ s →
      s.kernel.terminalNum = s.kernel.terminalNumDisplay → OnScreen s.kernel.shown →
      s.kernel.shown.screenBufTop = 0 → ∀ es k, Run LineStep s.kernel es k →
      (∀ key ∈ keysOf es, key.Typing ∧ key ≠ .enter) → Echoes k := by
  intro hall
  have hstart := lineStart_boot .blank
  have hready := typingReady_boot .blank
  obtain ⟨k₂, k₃, hbefore, hready₂, hstep₃, hready₃, hmodifiers₃⟩ := exists_run_clear .blank
  -- The line is empty, but `enter_flag` is still set.
  have hheld := hstart.cleared hready.keys hbefore hstep₃ (.nil k₃) (by decide)
  have hset : k₃.enterFlag = true := hheld.entered
  have hempty : k₃.shown.screenBufTop = 0 := by
    have htext := congrArg List.length hheld.holds.2
    rw [Line.text_length] at htext
    exact htext
  obtain ⟨hx, hy, hblank⟩ := LineStep.blank hready₂ hstep₃
  have hinside : OnScreen k₃.shown := ⟨by rw [hx]; decide, by rw [hy]; decide⟩
  have hlast : k₃.lastCell = chSpace := by
    have hnext : k₃.shown.next = (1, 0) := by
      rw [Terminal.next, hx, hy]
      rfl
    rw [Kernel.lastCell, hnext, if_neg (by decide)]
    exact hblank _ (by decide)
  have hkey : keyOf 30 0 k₃ = .char 97 := keyOf_eq hmodifiers₃ rfl
  obtain ⟨k', hstep, hecho⟩ := exists_pressed hready₃ hset hinside hempty hkey rfl
  obtain ⟨es₀, hreach⟩ := LineStep.machineSteps shellImage (.boot .blank) (hbefore.snoc hstep₃)
  have hechoes := hall shellImage .blank es₀ _ hreach hready₃.shown hinside hempty _ k'
    (.single hstep) (by decide)
  -- the cell before the cursor is still blank
  have hspace := hecho hechoes
  rw [hlast] at hspace
  exact absurd hspace (by decide)

end JuddOS
