import JuddOS.KeyIsolation

/-!
# Moves of the cursor

What the functions of a key do to the displayed screen, cell by cell, and to the two places where
the cursor is kept: the terminal, and the registers of the VGA controller.

* `PutChar` is a character at the cursor.
* `CursorPut` is an assignment to the displayed cursor and the `update_cursor` after it.  The
  controller always gets a row of the screen; the terminal gets one only if the row was on the
  screen, or if `scroll_up` concerned the displayed terminal.
* `NewLine` is the end of `enter_press`, which calls no `update_cursor`.

`InSync` says that the two places agree, and `CursorPut.inSync_iff` when they do after a move.
-/

namespace JuddOS

open Support

/-- The number of the cell at the cursor. -/
def Terminal.position (t : Terminal) : Nat := numCols * t.cursorY + t.cursorX

/-- The displayed terminal. -/
def Kernel.shown (k : Kernel) : Terminal := k.terminalArr k.terminalNumDisplay

theorem SameConsole.shown {k k₁ : Kernel} (h : SameConsole k k₁) : k₁.shown = k.shown := by
  rw [Kernel.shown, h.terminalArr, h.display]
  rfl

/-- A character of video memory. -/
def Kernel.shownCell (k : Kernel) (i : Nat) : UInt8 := k.phys (videoAddr + 2 * i)

/-- **The hardware cursor** is where the displayed terminal has its cursor. -/
def InSync (k : Kernel) : Prop := k.vgaCursor = k.shown.position

/-! ## Cells -/

theorem cellStored_cell (phys : Buf) (base i j : Nat) (c : UInt8) :
    cellStored phys base i c (base + 2 * j) = if j = i then c else phys (base + 2 * j) := by
  unfold cellStored
  rw [Function.update_of_ne (by omega)]
  by_cases hj : j = i
  · rw [if_pos hj, hj, Function.update_self]
  · rw [if_neg hj, Function.update_of_ne (by omega)]

/-- The cells of a scrolled screen come from the row below. -/
theorem scrolledCells_cell (phys : Buf) (base : Nat) {j : Nat} (hj : j < numRows * numCols) :
    scrolledCells phys base (base + 2 * j) =
      if j < (numRows - 1) * numCols then phys (base + 2 * (j + numCols)) else chSpace := by
  simp only [numRows, numCols] at hj ⊢
  unfold scrolledCells blankedCells raisedCells
  simp only [numRows, numCols]
  by_cases hrow : j < 1920
  · rw [if_neg (by omega), if_pos (by omega), if_pos (by omega), if_pos (by omega)]
    congr 1
  · rw [if_pos (by omega), if_pos (by omega), if_neg (by omega)]

/-- What was on the displayed screen, a row higher. -/
def Raised (k k' : Kernel) : Prop :=
  ∀ i, i < numRows * numCols → k'.shownCell i =
    if i < (numRows - 1) * numCols then k.shownCell (i + numCols) else chSpace

theorem raised_of_phys {k k' : Kernel} (h : k'.phys = scrolledCells k.phys videoAddr) :
    Raised k k' := by
  intro i hi
  rw [Kernel.shownCell, h, scrolledCells_cell _ _ hi]
  rfl

/-! ## Characters -/

/-- A character is stored at the displayed cursor.  Newlines and returns are not stored. -/
structure PutChar (c : UInt8) (k k' : Kernel) : Prop where
  keeps : Keeps k k'
  terminalArr : k'.terminalArr = k.terminalArr
  vga : k'.vgaCursor = k.vgaCursor
  cells : endsLine c = false →
    ∀ i, k'.shownCell i = if i = k.shown.position then c else k.shownCell i

theorem PutChar.shown {c : UInt8} {k k' : Kernel} (h : PutChar c k k') : k'.shown = k.shown := by
  rw [Kernel.shown, h.terminalArr, h.keeps.display]
  rfl

theorem putcAddr_puts {k : Kernel} (h : VideoMapped k) (hd : OnScreen k.shown) (c : UInt8) :
    ∃ k', putcAddr c k = some k' ∧ PutChar c k k' := by
  have hcell : k.shown.position < 2000 := hd.cell_lt
  unfold putcAddr
  by_cases hc : c = chNewline ∨ c = chReturn
  · refine ⟨k, if_pos hc, .refl k, rfl, rfl, fun hplain => ?_⟩
    rw [endsLine, decide_eq_false_iff_not] at hplain
    exact absurd hc hplain
  · have hx : (k.terminalArr k.terminalNumDisplay).cursorX ≠ numCols := Nat.ne_of_lt hd.cursorX
    have hy : ¬ (k.terminalArr k.terminalNumDisplay).cursorY ≥ numRows :=
      Nat.not_le_of_lt hd.cursorY
    obtain ⟨k', hstore, hkeeps, -, hterm⟩ := storeChar_spec h hd c
    have heq := h.storeChar_eq k.terminalNumDisplay c
      (show k.shown.position < 2048 by omega)
    rw [if_neg hc]
    dsimp only
    rw [if_neg hx, if_neg hy]
    refine ⟨k', hstore, hkeeps, hterm, ?_, fun _ i => ?_⟩
    · cases hstore.symm.trans heq
      rfl
    · cases hstore.symm.trans heq
      have hpage := videoPage_self k.terminalNumDisplay
      rw [Kernel.shownCell]
      dsimp only
      rw [hpage, cellStored_cell]
      rfl

/-! ## Moves -/

/-- The displayed terminal gets the cursor `(x, y)`, and `update_cursor` is called with it. -/
structure CursorPut (x y : Nat) (k k' : Kernel) : Prop where
  keeps : Keeps k k'
  vga : k'.vgaCursor = numCols * min y (numRows - 1) + x
  inside : y < numRows → k'.shown.cursorX = x ∧ k'.shown.cursorY = y ∧
    k'.shownCell = k.shownCell
  own : numRows ≤ y → k.terminalNum = k.terminalNumDisplay →
    k'.shown.cursorX = 0 ∧ k'.shown.cursorY = numRows - 1 ∧ Raised k k'
  other : numRows ≤ y → k.terminalNum ≠ k.terminalNumDisplay →
    k'.shown.cursorX = x ∧ k'.shown.cursorY = y

theorem moveCursor_puts {k : Kernel} (h : VideoMapped k) {x y : Nat} (hx : x < numCols)
    {f : Terminal → Terminal} (hf : ∀ t, (f t).vidmemAddr = t.vidmemAddr)
    (hfx : (f k.shown).cursorX = x) (hfy : (f k.shown).cursorY = y) :
    ∃ k', updateCursorOf k.terminalNumDisplay (k.setTerminal k.terminalNumDisplay f) = some k' ∧
      CursorPut x y k k' := by
  have hself : (k.setTerminal k.terminalNumDisplay f).terminalArr k.terminalNumDisplay =
      f k.shown := Kernel.setTerminal_self _ _ _
  obtain ⟨k', hupdate, hmoved⟩ := moveCursor_spec h k.terminalNumDisplay hx hf hfx hfy
  have hrun := hupdate
  rw [updateCursorOf, hself, hfx, hfy] at hrun
  have hshown : k'.shown = k'.terminalArr k.terminalNumDisplay := by
    rw [Kernel.shown, hmoved.keeps.display]
  have hkeeps := hmoved.keeps
  rcases Nat.lt_or_ge y numRows with hy | hy
  · -- on the screen `update_cursor` writes the registers only
    rw [updateCursor_inside hx hy] at hrun
    cases hrun
    refine ⟨_, hupdate, hkeeps, ?_, fun _ => ⟨?_, ?_, rfl⟩,
      fun hge => absurd hy (Nat.not_lt.mpr hge), fun hge => absurd hy (Nat.not_lt.mpr hge)⟩
    · dsimp only
      simp only [numCols, numRows] at hx hy ⊢
      omega
    · rw [hshown]
      exact (congrArg Terminal.cursorX hself).trans hfx
    · rw [hshown]
      exact (congrArg Terminal.cursorY hself).trans hfy
  · have hmapped := (keeps_setTerminal k k.terminalNumDisplay hf).mapped h
    obtain ⟨k₂, hscroll, -, -, hscrolled⟩ := scrollUp_spec hmapped
    rw [updateCursor_below hx hy, hscroll, Option.map_some] at hrun
    have hphys₂ : k₂.phys = scrolledCells k.phys (videoPage k.terminalNumDisplay k.terminalNum) :=
      congrArg Kernel.phys (Option.some.inj (hscroll.symm.trans hmapped.scrollUp_eq))
    have hk' := Option.some.inj hrun
    have hphys : k'.phys = k₂.phys := (congrArg Kernel.phys hk').symm
    have hterm : k'.terminalArr = k₂.terminalArr := (congrArg Kernel.terminalArr hk').symm
    have hvga : k'.vgaCursor = ((numRows - 1) * numCols + x) % 2 ^ 16 :=
      (congrArg Kernel.vgaCursor hk').symm
    refine ⟨k', hupdate, hkeeps, ?_, fun hlt => absurd hlt (Nat.not_lt.mpr hy),
      fun _ hown => ?_, fun _ hne => ?_⟩
    · rw [hvga]
      simp only [numCols, numRows] at hx hy ⊢
      omega
    · -- the scroll concerns the displayed terminal
      have hnum : (k.setTerminal k.terminalNumDisplay f).terminalNum = k.terminalNumDisplay := hown
      rw [hnum] at hscrolled
      rw [hown, videoPage_self] at hphys₂
      rw [hshown, hterm, hscrolled]
      exact ⟨rfl, rfl, raised_of_phys (hphys.trans hphys₂)⟩
    · rw [hshown]
      exact (hmoved.other hy hne.symm).1

/-- Below the screen the row is corrected if the terminal is the scheduled one. -/
theorem CursorPut.cursorY_cases {x y : Nat} {k k' : Kernel} (h : CursorPut x y k k') :
    k'.shown.cursorY = y ∨ k'.shown.cursorY = numRows - 1 ∧ numRows ≤ y := by
  rcases Nat.lt_or_ge y numRows with hin | hbelow
  · exact .inl (h.inside hin).2.1
  · by_cases hown : k.terminalNum = k.terminalNumDisplay
    · exact .inr ⟨(h.own hbelow hown).2.1, hbelow⟩
    · exact .inl (h.other hbelow hown).2

/-- **When the controller agrees after a move.** -/
theorem CursorPut.inSync_iff {x y : Nat} {k k' : Kernel} (h : CursorPut x y k k')
    (hx : x < numCols) :
    InSync k' ↔ y < numRows ∨ k.terminalNum = k.terminalNumDisplay ∧ x = 0 := by
  have hvga := h.vga
  unfold InSync Terminal.position
  rw [hvga]
  simp only [numCols, numRows] at hx ⊢
  rcases Nat.lt_or_ge y numRows with hy | hy
  · obtain ⟨hcursorX, hcursorY, -⟩ := h.inside hy
    rw [hcursorX, hcursorY]
    simp only [numRows] at hy
    exact ⟨fun _ => .inl hy, fun _ => by omega⟩
  · by_cases hown : k.terminalNum = k.terminalNumDisplay
    · obtain ⟨hcursorX, hcursorY, -⟩ := h.own hy hown
      rw [hcursorX, hcursorY]
      simp only [numRows] at hy ⊢
      exact ⟨fun heq => .inr ⟨hown, by omega⟩, fun hor => by omega⟩
    · obtain ⟨hcursorX, hcursorY⟩ := h.other hy hown
      rw [hcursorX, hcursorY]
      simp only [numRows] at hy
      refine ⟨fun heq => by omega, ?_⟩
      rintro (hlt | ⟨heq, -⟩)
      · omega
      · exact absurd heq hown

/-! ## Typing and erasing -/

/-- The column and the row after the cursor. -/
def Terminal.next (t : Terminal) : Nat × Nat :=
  if t.cursorX < numCols - 1 then (t.cursorX + 1, t.cursorY) else (0, t.cursorY + 1)

/-- The column and the row before the cursor.  The row is an unsigned character. -/
def Terminal.back (t : Terminal) : Nat × Nat :=
  if 0 < t.cursorX then (t.cursorX - 1, t.cursorY) else (numCols - 1, (t.cursorY + 255) % 256)

theorem OnScreen.next {t : Terminal} (h : OnScreen t) :
    t.next.1 < numCols ∧ t.next.2 ≤ numRows ∧
      numCols * t.next.2 + t.next.1 = t.position + 1 := by
  obtain ⟨hx, hy⟩ := h
  unfold Terminal.next Terminal.position
  simp only [numCols, numRows] at hx hy ⊢
  split <;> dsimp only <;> omega

/-- Before any cell but the first one is the cell before it. -/
theorem OnScreen.back {t : Terminal} (h : OnScreen t) :
    t.back.1 < numCols ∧ (0 < t.position → t.back.2 < numRows ∧
      numCols * t.back.2 + t.back.1 + 1 = t.position) ∧
      (t.position = 0 → t.back = (numCols - 1, 255)) := by
  obtain ⟨hx, hy⟩ := h
  unfold Terminal.back Terminal.position
  simp only [numCols, numRows] at hx hy ⊢
  split
  case isTrue hpos => exact ⟨by dsimp only; omega, fun _ => by dsimp only; omega, by omega⟩
  case isFalse hzero =>
    refine ⟨by dsimp only; omega, fun hne => by dsimp only; omega, fun heq => ?_⟩
    have hrow : t.cursorY = 0 := by omega
    rw [hrow]

/-- A character of the line is stored, and the cursor goes on. -/
theorem add2buf_moves {k : Kernel} (h : VideoMapped k) (hd : OnScreen k.shown)
    (hroom : k.shown.screenBufTop < screenBufSize - 1) (c : UInt8) :
    ∃ k₁ k', add2buf c k = some k' ∧ PutChar c k k₁ ∧
      CursorPut k.shown.next.1 k.shown.next.2 k₁ k' := by
  obtain ⟨k₁, hput, hputs⟩ := putcAddr_puts h hd c
  have hmapped₁ := hputs.keeps.mapped h
  have hdisplay := hputs.keeps.display
  have hself := hputs.shown
  have hrow : k.shown.cursorY < numRows := hd.cursorY
  have hcol : k.shown.cursorX < numCols := hd.cursorX
  have hline : (k₁.setTerminal k.terminalNumDisplay (appendToLine c)).terminalArr
      k.terminalNumDisplay = appendToLine c k.shown := by
    rw [Kernel.setTerminal_self, hputs.terminalArr]
    rfl
  have hroom₀ : (k.terminalArr k.terminalNumDisplay).screenBufTop < screenBufSize - 1 := hroom
  rw [add2buf]
  dsimp only
  -- appending to the line and moving the cursor are one assignment
  rw [if_pos hroom₀, hput, Option.bind_eq_bind, Option.bind_some, hline,
    Kernel.setTerminal_setTerminal, Kernel.setTerminal_setTerminal, ← hdisplay]
  unfold Terminal.next
  by_cases hlt : k.shown.cursorX < numCols - 1
  · obtain ⟨k', hrun, hmoved⟩ := moveCursor_puts hmapped₁
      (x := k.shown.cursorX + 1) (y := k.shown.cursorY)
      (f := fun t => { appendToLine c t with cursorX := (appendToLine c t).cursorX + 1 })
      (Nat.add_lt_of_lt_sub hlt) (fun _ => rfl) (by rw [hself]; rfl) (by rw [hself]; rfl)
    rw [if_pos hlt]
    exact ⟨k₁, k', (if_pos hlt).trans hrun, hputs, hmoved⟩
  · obtain ⟨k', hrun, hmoved⟩ := moveCursor_puts hmapped₁
      (x := 0) (y := k.shown.cursorY + 1)
      (f := fun t => { appendToLine c t with
        cursorX := 0, cursorY := ((appendToLine c t).cursorY + 1) % 256 })
      (show 0 < numCols by decide) (fun _ => rfl) rfl (by
        rw [hself]
        show (k.shown.cursorY + 1) % 256 = _
        simp only [numRows] at hrow
        omega)
    rw [if_neg hlt]
    exact ⟨k₁, k', (if_neg hlt).trans hrun, hputs, hmoved⟩

theorem deleteCharFromBuf_moves {k : Kernel} (h : VideoMapped k) (hd : OnScreen k.shown)
    (htext : 0 < k.shown.screenBufTop) :
    ∃ k', deleteCharFromBuf k = some k' ∧ CursorPut k.shown.back.1 k.shown.back.2 k k' := by
  have hcol : k.shown.cursorX < numCols := hd.cursorX
  have hline : (k.setTerminal k.terminalNumDisplay dropFromLine).terminalArr
      k.terminalNumDisplay = dropFromLine k.shown := Kernel.setTerminal_self _ _ _
  have htext₀ : (k.terminalArr k.terminalNumDisplay).screenBufTop > 0 := htext
  rw [deleteCharFromBuf]
  dsimp only
  rw [if_pos htext₀, hline, Kernel.setTerminal_setTerminal, Kernel.setTerminal_setTerminal]
  unfold Terminal.back
  by_cases hpos : 0 < k.shown.cursorX
  · obtain ⟨k', hrun, hmoved⟩ := moveCursor_puts h
      (x := k.shown.cursorX - 1) (y := k.shown.cursorY)
      (f := fun t => { dropFromLine t with cursorX := (dropFromLine t).cursorX - 1 })
      (Nat.lt_of_le_of_lt (Nat.sub_le _ _) hcol) (fun _ => rfl) rfl rfl
    rw [if_pos hpos]
    exact ⟨k', (if_pos hpos).trans hrun, hmoved⟩
  · obtain ⟨k', hrun, hmoved⟩ := moveCursor_puts h
      (x := numCols - 1) (y := (k.shown.cursorY + 255) % 256)
      (f := fun t => { dropFromLine t with
        cursorX := numCols - 1, cursorY := ((dropFromLine t).cursorY + 255) % 256 })
      (show numCols - 1 < numCols by decide) (fun _ => rfl) rfl rfl
    rw [if_neg hpos]
    exact ⟨k', (if_neg hpos).trans hrun, hmoved⟩

/-! ## Enter -/

/-- What `enter_press` does after `add2buf`. -/
def newLine (shown : Tid) (k : Kernel) : Option Kernel :=
  let k := k.setTerminal shown fun t =>
    { t with cursorX := 0, cursorY := (t.cursorY + 1) % 256 }
  if (k.terminalArr shown).cursorY ≥ numRows then
    (scrollCells videoAddr k).map fun k => k.setTerminal shown fun t =>
      { t with cursorY := numRows - 1 }
  else some k

theorem enterPress_open {k : Kernel} (h : LineOpen k) (c : UInt8) :
    enterPress c k = (add2buf c k).bind (newLine k.terminalNumDisplay) := by
  rw [enterPress]
  refine (if_pos h).trans ?_
  rw [Option.bind_eq_bind]
  congr 1
  funext k₁
  unfold newLine
  dsimp only
  split
  · cases scrollCells videoAddr _ <;> rfl
  · rfl

/-- The displayed cursor goes to the start of the next row, and the controller is not told. -/
structure NewLine (k k' : Kernel) : Prop where
  keeps : Keeps k k'
  vga : k'.vgaCursor = k.vgaCursor
  cursorX : k'.shown.cursorX = 0
  cursorY : k'.shown.cursorY = min (k.shown.cursorY + 1) (numRows - 1)
  stays : k.shown.cursorY + 1 < numRows → k'.shownCell = k.shownCell
  scrolls : numRows ≤ k.shown.cursorY + 1 → Raised k k'

theorem newLine_moves {k : Kernel} (h : VideoMapped k) (hrow : k.shown.cursorY ≤ numRows) :
    ∃ k', newLine k.terminalNumDisplay k = some k' ∧ NewLine k k' := by
  have hkeeps₁ := keeps_setTerminal k k.terminalNumDisplay
    (f := fun t => { t with cursorX := 0, cursorY := (t.cursorY + 1) % 256 }) fun _ => rfl
  have hself : (k.setTerminal k.terminalNumDisplay fun t =>
      { t with cursorX := 0, cursorY := (t.cursorY + 1) % 256 }).terminalArr
        k.terminalNumDisplay =
      { k.shown with cursorX := 0, cursorY := (k.shown.cursorY + 1) % 256 } :=
    Kernel.setTerminal_self _ _ _
  have hmod : (k.shown.cursorY + 1) % 256 = k.shown.cursorY + 1 := by
    simp only [numRows] at hrow
    omega
  rw [hmod] at hself
  have hphys₁ : (k.setTerminal k.terminalNumDisplay fun t =>
      { t with cursorX := 0, cursorY := (t.cursorY + 1) % 256 }).phys = k.phys := rfl
  have hvga₁ : (k.setTerminal k.terminalNumDisplay fun t =>
      { t with cursorX := 0, cursorY := (t.cursorY + 1) % 256 }).vgaCursor = k.vgaCursor := rfl
  unfold newLine
  dsimp only
  generalize (k.setTerminal k.terminalNumDisplay fun t =>
    { t with cursorX := 0, cursorY := (t.cursorY + 1) % 256 }) = k₁ at *
  have hshown₁ : k₁.shown = { k.shown with cursorX := 0, cursorY := k.shown.cursorY + 1 } := by
    rw [Kernel.shown, hkeeps₁.display, hself]
  rw [hself]
  by_cases hbelow : k.shown.cursorY + 1 ≥ numRows
  · rw [if_pos hbelow]
    have hvga := (hkeeps₁.mapped h).vga
    have hscroll : scrollCells videoAddr k₁ =
        some { k₁ with phys := scrolledCells k₁.phys videoAddr } :=
      scrollCells_eq fun j hj => hvga.translate (by simp only [sizeOfVidmem] at hj; omega)
    have hset := keeps_setTerminal { k₁ with phys := scrolledCells k₁.phys videoAddr }
      k.terminalNumDisplay (f := fun t => { t with cursorY := numRows - 1 }) fun _ => rfl
    have hkeeps₂ : Keeps k₁ { k₁ with phys := scrolledCells k₁.phys videoAddr } :=
      ⟨rfl, rfl, rfl, fun _ => rfl, fun _ he => .inl he⟩
    have hkeeps := (hkeeps₁.trans hkeeps₂).trans hset
    rw [hscroll, Option.map_some]
    have hraised : Raised k ({ k₁ with phys := scrolledCells k₁.phys videoAddr }.setTerminal
        k.terminalNumDisplay fun t => { t with cursorY := numRows - 1 }) := by
      apply raised_of_phys
      rw [← hphys₁]
      rfl
    have hlast : (Kernel.setTerminal { k₁ with phys := scrolledCells k₁.phys videoAddr }
        k.terminalNumDisplay fun t => { t with cursorY := numRows - 1 }).shown =
        { k₁.shown with cursorY := numRows - 1 } := by
      rw [Kernel.shown, hkeeps.display, Kernel.setTerminal_self, Kernel.shown, hkeeps₁.display]
    refine ⟨_, rfl, hkeeps, hvga₁, ?_, ?_, fun hlt => absurd hbelow (Nat.not_le_of_lt hlt),
      fun _ => hraised⟩
    · rw [hlast, hshown₁]
    · rw [hlast]
      simp only [numRows] at hbelow ⊢
      omega
  · rw [if_neg hbelow]
    refine ⟨k₁, rfl, hkeeps₁, hvga₁, ?_, ?_, fun _ => ?_, fun hge => absurd hge hbelow⟩
    · rw [hshown₁]
    · rw [hshown₁]
      simp only [numRows] at hbelow ⊢
      omega
    · funext i
      rw [Kernel.shownCell, hphys₁]
      rfl

/-- A character is handed to `enter_press`: two moves, of which `update_cursor` makes the first. -/
theorem enterPress_moves {k : Kernel} (h : VideoMapped k) (hd : OnScreen k.shown)
    (hopen : LineOpen k) (hroom : k.shown.screenBufTop < screenBufSize - 1) (c : UInt8) :
    ∃ k₁ k₂ k', enterPress c k = some k' ∧ PutChar c k k₁ ∧
      CursorPut k.shown.next.1 k.shown.next.2 k₁ k₂ ∧ NewLine k₂ k' := by
  obtain ⟨k₁, k₂, hadd, hputs, hmoved⟩ := add2buf_moves h hd hroom c
  have hkeeps₂ := hputs.keeps.trans hmoved.keeps
  have hrow₂ : k₂.shown.cursorY ≤ numRows := by
    have hnext := hd.next.2.1
    rcases hmoved.cursorY_cases with hy | ⟨hy, -⟩ <;> omega
  obtain ⟨k', hline, hnew⟩ := newLine_moves (hkeeps₂.mapped h) hrow₂
  rw [hkeeps₂.display] at hline
  refine ⟨k₁, k₂, k', ?_, hputs, hmoved, hnew⟩
  rw [enterPress_open hopen, hadd, Option.bind_some, hline]

end JuddOS
