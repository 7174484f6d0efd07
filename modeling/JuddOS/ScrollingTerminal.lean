import JuddOS.Support.Roll
import JuddOS.Console

/-!
# `terminal_write` as a scrolling terminal

The reference is a sheet of text (`Roll`): characters are appended at the cursor, rows end at a
newline, a carriage return and after column 79, and the screen shows the last 25 rows.

`terminal_write` scrolls when a newline leaves row 24.  It does not when a character in column 79
does: there the call of `scroll_up` is commented out, the cursor goes back to the start of row 24
and the row is overwritten.

* `writeChar_phys`: what one character leaves in video memory.
* `ShowsSheet.step`: one character keeps the screen at the end of the sheet unless it skips a
  scroll.
* `terminal_scrolls_iff`: the same for every string.
-/

namespace JuddOS

open Support

/-! ## The reference -/

/-- The characters that end a row. -/
def EndsRow (c : UInt8) : Prop := c = chNewline ∨ c = chReturn

instance : DecidablePred EndsRow := fun c =>
  inferInstanceAs (Decidable (c = chNewline ∨ c = chReturn))

/-- A sheet of text behind the screen of a terminal. -/
abbrev Sheet : Type := Roll UInt8 chSpace numRows numCols

/-- The character in column `x` of row `y` of the scheduled terminal. -/
def screenChar (k : Kernel) (y x : Nat) : UInt8 :=
  logicalScreens k k.terminalNum (2 * (numCols * y + x))

/-- The screen of the scheduled terminal, with nothing above it and nothing below. -/
def sheetOf (k : Kernel) (h : OnScreen (k.terminalArr k.terminalNum)) : Sheet where
  text r c := if r < numRows then screenChar k r c else chSpace
  top := 0
  row := (k.terminalArr k.terminalNum).cursorY
  col := (k.terminalArr k.terminalNum).cursorX
  top_le := Nat.zero_le _
  row_lt := by
    rw [Nat.zero_add]
    exact h.cursorY
  col_lt := h.cursorX
  fresh r c hr := if_neg (by omega)

/-- The sheet after the first `n` characters of a buffer were appended at the cursor. -/
def sheetAfter (k : Kernel) (h : OnScreen (k.terminalArr k.terminalNum)) (buf : Buf) (n : Nat) :
    Sheet :=
  (sheetOf k h).after EndsRow buf n

/-- The screen is the end of the sheet, and the cursor is where the text ends. -/
structure ShowsSheet (k : Kernel) (p : Sheet) : Prop where
  cells : ∀ y < numRows, ∀ x < numCols, screenChar k y x = p.window y x
  cursor : (k.terminalArr k.terminalNum).cursor = p.cursor

/-- **A scrolling terminal.**  After a write the screen is the end of the sheet, and every character
of the string whose row is still on the screen is there. -/
def Scrolls (k : Kernel) (h : OnScreen (k.terminalArr k.terminalNum)) (buf : Buf)
    (nbytes : Int32) : Prop :=
  ∃ k', terminalWrite (some buf) nbytes k = some (0, k') ∧
    ShowsSheet k' (sheetAfter k h buf nbytes.toInt.toNat) ∧
    ∀ i < nbytes.toInt.toNat, ¬ EndsRow (buf i) →
      (sheetAfter k h buf nbytes.toInt.toNat).top ≤ (sheetAfter k h buf i).row →
      screenChar k'
        ((sheetAfter k h buf i).row - (sheetAfter k h buf nbytes.toInt.toNat).top)
        (sheetAfter k h buf i).col = buf i

/-- A character is written in the last cell of the screen, and the screen is not blank then. -/
def SkipsScroll (c : UInt8) (p : Sheet) : Prop := ¬ EndsRow c ∧ p.AtCorner ∧ ¬ (p.mark c).Blank

/-! ### Its cursor -/

theorem sheet_cursor (p : Sheet) (c : UInt8) :
    (p.put EndsRow c).cursor = nextCursor c p.cursor := by
  have hcol : p.col + 1 = numCols ↔ p.col = numCols - 1 := by
    simp only [numCols]
    omega
  have hlast : (EndsRow c ∨ p.col + 1 = numCols) ↔
      (c = chNewline ∨ c = chReturn ∨ p.col = numCols - 1) := by
    rw [EndsRow, or_assoc, hcol]
  rw [p.put_cursor, nextCursor]
  exact if_congr hlast rfl rfl

/-- The cursor of the code and the cursor of the reference never part. -/
theorem sheetAfter_cursor {k : Kernel} (h : OnScreen (k.terminalArr k.terminalNum)) (buf : Buf)
    (n : Nat) :
    (sheetAfter k h buf n).cursor = cursorAfter buf (k.terminalArr k.terminalNum).cursor n := by
  induction n with
  | zero => rfl
  | succ n ih =>
      have hnext := sheet_cursor (sheetAfter k h buf n) (buf n)
      rw [ih] at hnext
      exact hnext

theorem atCorner_iff (p : Sheet) : p.AtCorner ↔ p.cursor = (numCols - 1, numRows - 1) := by
  have htop := p.top_le
  simp only [Roll.AtCorner, Roll.cursor, Prod.mk.injEq, numCols, numRows]
  omega

/-! ## One character -/

theorem scrolledCells_char (phys : Buf) (base : Nat) {y x : Nat} (hy : y < numRows)
    (hx : x < numCols) :
    scrolledCells phys base (base + 2 * (numCols * y + x)) =
      if y + 1 < numRows then phys (base + 2 * (numCols * (y + 1) + x)) else chSpace := by
  have heven : (base + 2 * (numCols * y + x) - base) % 2 = 0 := by omega
  simp only [numCols, numRows] at hy hx
  unfold scrolledCells blankedCells raisedCells
  simp only [numCols, numRows] at heven ⊢
  by_cases hlast : y + 1 < 25
  · rw [if_neg (by omega), if_pos (by omega), if_pos heven, if_pos hlast]
    congr 1
    omega
  · rw [if_pos (by omega), if_pos heven, if_neg hlast]

theorem cellStored_char (phys : Buf) (base : Nat) (c : UInt8) {y x y' x' : Nat} (hx : x < numCols)
    (hx' : x' < numCols) :
    cellStored phys base (numCols * y' + x') c (base + 2 * (numCols * y + x)) =
      if x = x' ∧ y = y' then c else phys (base + 2 * (numCols * y + x)) := by
  simp only [numCols] at hx hx' ⊢
  unfold cellStored
  rw [Function.update_of_ne (by omega)]
  by_cases hcell : x = x' ∧ y = y'
  · rw [if_pos hcell, hcell.1, hcell.2, Function.update_self]
  · rw [if_neg hcell, Function.update_of_ne (by omega)]

variable {k k' : Kernel} {p : Sheet} {c : UInt8}

theorem VideoMapped.screenChar_eq (h : VideoMapped k) {y x : Nat} (hy : y < numRows)
    (hx : x < numCols) :
    screenChar k y x =
      k.phys (videoPage k.terminalNumDisplay k.terminalNum + 2 * (numCols * y + x)) := by
  rw [screenChar, logicalScreens, h.peek k.terminalNum (by
    simp only [numCols, numRows] at hy hx ⊢
    omega), Option.getD_some]

theorem clampCursor_phys (k : Kernel) : (clampCursor k).phys = k.phys := by
  unfold clampCursor
  dsimp only
  split <;> split <;> rfl

/-- A newline leaves the screen alone or scrolls it. -/
theorem writeGlyph_endsRow (h : VideoMapped k)
    (hy : (k.terminalArr k.terminalNum).cursorY < numRows) (hbreak : c = chNewline ∨ c = chReturn)
    (hglyph : writeGlyph c k = some k') :
    k'.phys =
      if (k.terminalArr k.terminalNum).cursorY + 1 < numRows then k.phys
      else scrolledCells k.phys (videoPage k.terminalNumDisplay k.terminalNum) := by
  have hkeeps := (nextRow_writes hy).keeps
  rw [writeGlyph_eq_nextRow hy hbreak] at hglyph
  by_cases hbelow : (k.terminalArr k.terminalNum).cursorY + 1 < numRows
  · rw [if_pos hbelow] at hglyph ⊢
    cases hglyph
    rfl
  · rw [if_neg hbelow, (hkeeps.mapped h).scrollUp_eq] at hglyph
    rw [if_neg hbelow]
    cases hglyph
    rfl

/-- **One character** in memory. -/
theorem writeChar_phys (h : VideoMapped k) (hscreen : OnScreen (k.terminalArr k.terminalNum))
    (hwrite : writeChar c k = some k') :
    k'.phys =
      if EndsRow c then
        if (k.terminalArr k.terminalNum).cursorY + 1 < numRows then k.phys
        else scrolledCells k.phys (videoPage k.terminalNumDisplay k.terminalNum)
      else cellStored k.phys (videoPage k.terminalNumDisplay k.terminalNum)
        (numCols * (k.terminalArr k.terminalNum).cursorY +
          (k.terminalArr k.terminalNum).cursorX) c := by
  have hwrap : wrapRow k = some k := if_neg (Nat.ne_of_lt hscreen.cursorX)
  rw [writeChar_eq, hwrap, Option.bind_some, Option.map_eq_some_iff] at hwrite
  obtain ⟨k₁, hglyph, rfl⟩ := hwrite
  rw [clampCursor_phys]
  by_cases hbreak : EndsRow c
  · rw [if_pos hbreak]
    exact writeGlyph_endsRow h hscreen.cursorY hbreak hglyph
  · have hother : ¬ (c = chNewline ∨ c = chReturn) := hbreak
    have hcell := Nat.lt_trans hscreen.cell_lt (by decide : 2000 < 2048)
    rw [writeGlyph, if_neg hother, h.storeChar_eq k.terminalNum c hcell, Option.map_some] at hglyph
    cases hglyph
    rw [if_neg hbreak]
    rfl

namespace ShowsSheet

theorem onScreen (h : ShowsSheet k p) : OnScreen (k.terminalArr k.terminalNum) := by
  have htop := p.top_le
  have hrow := p.row_lt
  have hinside : p.row - p.top < numRows := by omega
  exact .of_cursor h.cursor p.col_lt hinside

/-- A newline does what a line feed does. -/
theorem endsRow (h : ShowsSheet k p) (hmapped : VideoMapped k) (hbreak : EndsRow c)
    (hkeeps : Keeps k k') (hwrite : writeChar c k = some k') :
    ∀ y < numRows, ∀ x < numCols, screenChar k' y x = p.feed.window y x := by
  intro y hy x hx
  have hrow : (k.terminalArr k.terminalNum).cursorY = p.row - p.top :=
    congrArg Prod.snd h.cursor
  have htop := p.top_le
  rw [(hkeeps.mapped hmapped).screenChar_eq hy hx, hkeeps.display, hkeeps.terminalNum,
    writeChar_phys hmapped h.onScreen hwrite, if_pos hbreak, hrow, p.feed_window]
  by_cases hinside : p.row + 1 < p.top + numRows
  · rw [if_pos (by omega), if_pos hinside, ← hmapped.screenChar_eq hy hx]
    exact h.cells y hy x hx
  · rw [if_neg (by omega), if_neg hinside, scrolledCells_char _ _ hy hx]
    by_cases hlast : y + 1 < numRows
    · rw [if_pos hlast, ← hmapped.screenChar_eq hlast hx]
      exact h.cells (y + 1) hlast x hx
    · rw [if_neg hlast, p.window_below (Nat.not_lt.mp hlast)]

/-- Any other character is only stored. -/
theorem stored (h : ShowsSheet k p) (hmapped : VideoMapped k) (hbreak : ¬ EndsRow c)
    (hkeeps : Keeps k k') (hwrite : writeChar c k = some k') :
    ∀ y < numRows, ∀ x < numCols, screenChar k' y x = (p.mark c).window y x := by
  intro y hy x hx
  rw [(hkeeps.mapped hmapped).screenChar_eq hy hx, hkeeps.display, hkeeps.terminalNum,
    writeChar_phys hmapped h.onScreen hwrite, if_neg hbreak,
    cellStored_char _ _ _ hx h.onScreen.cursorX, p.mark_window, ← h.cursor,
    ← hmapped.screenChar_eq hy hx, h.cells y hy x hx]
  rfl

/-- **One character** keeps the screen at the end of the sheet exactly when it skips no scroll. -/
theorem step (h : ShowsSheet k p) (hmapped : VideoMapped k) (c : UInt8) :
    ∃ k', writeChar c k = some k' ∧ Keeps k k' ∧
      (ShowsSheet k' (p.put EndsRow c) ↔ ¬ SkipsScroll c p) := by
  obtain ⟨k', hwrite, hwrites⟩ := writeChar_spec hmapped rfl h.onScreen.cursorX h.onScreen.cursorY c
  have hkeeps := hwrites.keeps
  have hcursor : (k'.terminalArr k'.terminalNum).cursor = (p.put EndsRow c).cursor := by
    rw [sheet_cursor, ← h.cursor]
    exact hwrites.cursor_eq
  refine ⟨k', hwrite, hkeeps, ?_⟩
  by_cases hbreak : EndsRow c
  · rw [p.put_of_break hbreak] at hcursor ⊢
    exact iff_of_true ⟨h.endsRow hmapped hbreak hkeeps hwrite, hcursor⟩ fun hskip => hskip.1 hbreak
  · rw [p.put_of_not_break hbreak] at hcursor ⊢
    have hcells := h.stored hmapped hbreak hkeeps hwrite
    by_cases hcorner : p.AtCorner
    · -- The sheet moves and the screen does not.
      have hsame := (p.mark c).feed_window_eq_iff hcorner.2
      rw [(p.mark c).advance_of_last hcorner.1] at hcursor ⊢
      constructor
      · intro hshows hskip
        refine hskip.2.2 (hsame.mp fun y hy x hx => ?_)
        rw [← hshows.cells y hy x hx, hcells y hy x hx]
      · intro hskip
        have hblank : (p.mark c).Blank := by
          by_contra hblank
          exact hskip ⟨hbreak, hcorner, hblank⟩
        refine ⟨fun y hy x hx => ?_, hcursor⟩
        rw [hcells y hy x hx, hsame.mpr hblank y hy x hx]
    · have haway := (p.mark c).advance_window hcorner
      refine iff_of_true ⟨?_, hcursor⟩ fun hskip => hcorner hskip.2.1
      rw [haway]
      exact hcells

end ShowsSheet

/-! ## Strings -/

theorem showsSheet_sheetOf (h : OnScreen (k.terminalArr k.terminalNum)) :
    ShowsSheet k (sheetOf k h) where
  cells y hy x _ := by
    have hy' : 0 + y < numRows := by rwa [Nat.zero_add]
    have hwindow : (sheetOf k h).window y x = screenChar k (0 + y) x := if_pos hy'
    rw [hwindow, Nat.zero_add]
  cursor := rfl

/-- A string that skips no scroll. -/
theorem showsSheet_loop (hmapped : VideoMapped k) (h : OnScreen (k.terminalArr k.terminalNum))
    (buf : Buf) {n : Nat} (hsafe : ∀ i < n, ¬ SkipsScroll (buf i) (sheetAfter k h buf i)) :
    ∃ k', forRange (fun i k => writeChar (buf i) k) 0 n k = some k' ∧ Keeps k k' ∧
      ShowsSheet k' (sheetAfter k h buf n) := by
  obtain ⟨k', hloop, hkeeps, hshows⟩ := forRange_invariant (n := n)
    (fun i k' => Keeps k k' ∧ ShowsSheet k' (sheetAfter k h buf i)) (i := 0)
    ⟨.refl k, showsSheet_sheetOf h⟩ fun i k₁ _ hi hbefore => by
      obtain ⟨k₂, hwrite, hkeeps, hiff⟩ := hbefore.2.step (hbefore.1.mapped hmapped) (buf i)
      exact ⟨k₂, hwrite, hbefore.1.trans hkeeps, hiff.mpr (hsafe i (by omega))⟩
  rw [Nat.zero_add] at hshows
  exact ⟨k', hloop, hkeeps, hshows⟩

/-- What is on the screen of a scrolling terminal stays until its row has left it. -/
theorem ShowsSheet.printed (h : OnScreen (k.terminalArr k.terminalNum)) {buf : Buf} {n : Nat}
    (hshows : ShowsSheet k' (sheetAfter k h buf n)) {i : Nat} (hi : i < n)
    (hprinted : ¬ EndsRow (buf i))
    (hvisible : (sheetAfter k h buf n).top ≤ (sheetAfter k h buf i).row) :
    screenChar k' ((sheetAfter k h buf i).row - (sheetAfter k h buf n).top)
      (sheetAfter k h buf i).col = buf i := by
  obtain ⟨hbehind, htext⟩ := (sheetOf k h).after_text buf hi hprinted
  have hrow : (sheetAfter k h buf i).row ≤ (sheetAfter k h buf n).row := by
    rcases hbehind with hlt | ⟨heq, -⟩
    · exact Nat.le_of_lt hlt
    · exact Nat.le_of_eq heq
  have hlast := (sheetAfter k h buf n).row_lt
  rw [hshows.cells _ (by omega) _ (sheetAfter k h buf i).col_lt, Roll.window,
    Nat.add_sub_cancel' hvisible]
  exact htext

/-- The screen after the call is the one after its loop. -/
theorem ShowsSheet.of_loop {k₁ : Kernel} (hsame : SameConsole k₁ k') :
    ShowsSheet k' p ↔ ShowsSheet k₁ p := by
  have hscreen : screenChar k' = screenChar k₁ := by
    funext y x
    rw [screenChar, screenChar, logicalScreens, logicalScreens, hsame.terminalArr,
      hsame.terminalNum, Kernel.peek, Kernel.peek, hsame.paging, hsame.phys]
  have hcursor : (k'.terminalArr k'.terminalNum).cursor =
      (k₁.terminalArr k₁.terminalNum).cursor := by
    rw [hsame.terminalArr, hsame.terminalNum]
  constructor
  · intro h
    exact ⟨hscreen ▸ h.cells, hcursor ▸ h.cursor⟩
  · intro h
    exact ⟨hscreen ▸ h.cells, hcursor ▸ h.cursor⟩

/-- What the call does is what its loop does. -/
theorem terminalWrite_loop (hmapped : VideoMapped k)
    (h : OnScreen (k.terminalArr k.terminalNum)) (buf : Buf) {n : Nat} {nbytes : Int32}
    (hn : nbytes.toInt = n) :
    ∃ k₁ k', forRange (fun i k => writeChar (buf i) k) 0 n k = some k₁ ∧ Keeps k k₁ ∧
      terminalWrite (some buf) nbytes k = some (0, k') ∧ SameConsole k₁ k' := by
  obtain ⟨k₁, hloop, hwrites⟩ := writeLoop_spec hmapped h buf n
  have hinside := cursorAfter_inside buf h n
  have hcount : nbytes.toInt.toNat = n := by omega
  have hnonneg : ¬ nbytes < 0 := by
    have hzero := Int32.toInt_zero
    rw [Int32.lt_iff_toInt_lt, hzero]
    omega
  rw [← hcount] at hloop
  obtain ⟨k', hwrite, hsame⟩ :=
    terminalWrite_of_loop hnonneg hloop (.of_cursor hwrites.cursor_eq hinside.1 hinside.2)
  rw [hcount] at hloop
  exact ⟨k₁, k', hloop, hwrites.keeps, hwrite, hsame⟩

/-- A terminal that scrolls for `n` and for `n + 1` characters skips no scroll in between. -/
theorem Scrolls.not_skips (hmapped : VideoMapped k) (h : OnScreen (k.terminalArr k.terminalNum))
    {buf : Buf} {n : Nat} {nbytes nbytes' : Int32} (hn : nbytes.toInt = n)
    (hn' : nbytes'.toInt = (n + 1 : Nat)) (hbefore : Scrolls k h buf nbytes)
    (hafter : Scrolls k h buf nbytes') : ¬ SkipsScroll (buf n) (sheetAfter k h buf n) := by
  obtain ⟨k₁, k₁', hloop₁, hkeeps₁, hwrite₁, hsame₁⟩ := terminalWrite_loop hmapped h buf hn
  obtain ⟨k₂, k₂', hloop₂, -, hwrite₂, hsame₂⟩ := terminalWrite_loop hmapped h buf hn'
  obtain ⟨l₁, hcall₁, hshows₁, -⟩ := hbefore
  obtain ⟨l₂, hcall₂, hshows₂, -⟩ := hafter
  cases hwrite₁.symm.trans hcall₁
  cases hwrite₂.symm.trans hcall₂
  rw [hn, Int.toNat_natCast, ShowsSheet.of_loop hsame₁] at hshows₁
  rw [hn', Int.toNat_natCast, ShowsSheet.of_loop hsame₂] at hshows₂
  obtain ⟨k₃, hwrite₃, -, hiff⟩ := hshows₁.step (hkeeps₁.mapped hmapped) (buf n)
  rw [forRange_snoc, hloop₁, Option.bind_some, Nat.zero_add, hwrite₃] at hloop₂
  cases hloop₂
  exact hiff.mp hshows₂

/-- A string that skips no scroll is written as on a scrolling terminal. -/
theorem scrolls_of_safe (hmapped : VideoMapped k) (h : OnScreen (k.terminalArr k.terminalNum))
    {buf : Buf} {n : Nat} {nbytes : Int32} (hn : nbytes.toInt = n)
    (hsafe : ∀ i < n, ¬ SkipsScroll (buf i) (sheetAfter k h buf i)) : Scrolls k h buf nbytes := by
  obtain ⟨k₁, k', hloop, -, hwrite, hsame⟩ := terminalWrite_loop hmapped h buf hn
  obtain ⟨k₂, hloop₂, -, hshows⟩ := showsSheet_loop hmapped h buf hsafe
  cases hloop.symm.trans hloop₂
  rw [← ShowsSheet.of_loop hsame] at hshows
  have hcount : nbytes.toInt.toNat = n := by omega
  unfold Scrolls
  rw [hcount]
  exact ⟨k', hwrite, hshows, fun i hi hprinted hvisible => hshows.printed h hi hprinted hvisible⟩

theorem scrolls_iff (hmapped : VideoMapped k) (h : OnScreen (k.terminalArr k.terminalNum))
    (buf : Buf) {nbytes : Int32} (hn : 0 ≤ nbytes) :
    (∀ n : Int32, 0 ≤ n → n ≤ nbytes → Scrolls k h buf n) ↔
      ∀ i < nbytes.toInt.toNat, ¬ SkipsScroll (buf i) (sheetAfter k h buf i) := by
  have hzero := Int32.toInt_zero
  have hmax := nbytes.toInt_lt
  rw [Int32.le_iff_toInt_le, hzero] at hn
  constructor
  · intro hall i hi
    have hint : ∀ j : Nat, j ≤ nbytes.toInt.toNat → (Int32.ofNat j).toInt = j := fun j hj =>
      Int32.toInt_ofNat_of_lt (by omega)
    have hscrolls : ∀ j : Nat, j ≤ nbytes.toInt.toNat → Scrolls k h buf (Int32.ofNat j) := by
      intro j hj
      refine hall _ ?_ ?_ <;> rw [Int32.le_iff_toInt_le, hint j hj]
      · omega
      · omega
    exact (hscrolls i (Nat.le_of_lt hi)).not_skips hmapped h (hint i (Nat.le_of_lt hi))
      (hint (i + 1) hi) (hscrolls (i + 1) hi)
  · intro hsafe n hnonneg hle
    rw [Int32.le_iff_toInt_le, hzero] at hnonneg
    rw [Int32.le_iff_toInt_le] at hle
    exact scrolls_of_safe hmapped h (n := n.toInt.toNat) (by omega) fun i hi =>
      hsafe i (by omega)

/-- **`terminal_write` is a scrolling terminal**, for a string and all that it begins with, exactly
when no character skips a scroll. -/
theorem terminal_scrolls_iff {k : Kernel} (hmapped : VideoMapped k)
    (h : OnScreen (k.terminalArr k.terminalNum)) (buf : Buf) {nbytes : Int32} (hn : 0 ≤ nbytes) :
    (∀ n : Int32, 0 ≤ n → n ≤ nbytes → Scrolls k h buf n) ↔
      ∀ i < nbytes.toInt.toNat, ¬ SkipsScroll (buf i) (sheetAfter k h buf i) :=
  scrolls_iff hmapped h buf hn

theorem terminal_scrolls_letter :
    Scrolls (bootKernel .blank) ((consoleReady_bootKernel .blank).screens.cursor _)
      (fun _ => 0x61) 1 := by
  have hready := consoleReady_bootKernel .blank
  refine (terminal_scrolls_iff hready.screens.mapped _ (fun _ => 0x61)
    (show (0 : Int32) ≤ 1 by decide)).mpr ?_ 1 (by decide) (by decide)
  intro i hi hskip
  have hstart := (booted_bootKernel .blank).cursor (bootKernel .blank).terminalNum
  have hzero : i = 0 := Nat.lt_one_iff.mp hi
  have hcorner := (atCorner_iff _).mp hskip.2.1
  rw [hzero, sheetAfter_cursor, hstart] at hcorner
  exact absurd hcorner (by decide)

theorem cornerText_skips {k : Kernel} (h : OnScreen (k.terminalArr k.terminalNum))
    (hstart : (k.terminalArr k.terminalNum).cursor = (0, 0)) :
    SkipsScroll (cornerText 103) (sheetAfter k h cornerText 103) := by
  have hcursor := sheetAfter_cursor h cornerText 103
  rw [hstart, cornerText_cursor] at hcursor
  refine ⟨by decide, (atCorner_iff _).mpr hcursor, fun hblank => ?_⟩
  have hcell := hblank 24 (by decide) 79 (by decide)
  rw [Roll.mark_window, hcursor, if_pos ⟨rfl, rfl⟩] at hcell
  exact absurd hcell (by decide)

/-- 24 newlines and 80 letters: the last letter is in the last cell, and the screen stays. -/
theorem terminal_keeps_full_row :
    ¬ ∀ (k : Kernel) (_ : VideoMapped k) (h : OnScreen (k.terminalArr k.terminalNum)) (buf : Buf)
      (nbytes : Int32), 0 ≤ nbytes → Scrolls k h buf nbytes := by
  intro hall
  have hready := consoleReady_bootKernel .blank
  have hstart := (booted_bootKernel .blank).cursor (bootKernel .blank).terminalNum
  have hscreen := hready.screens.cursor (bootKernel .blank).terminalNum
  have hscrolls := hall _ hready.screens.mapped hscreen cornerText
  have hbefore : Scrolls _ hscreen cornerText 103 := hscrolls 103 (by decide)
  have hafter : Scrolls _ hscreen cornerText 104 := hscrolls 104 (by decide)
  exact hbefore.not_skips hready.screens.mapped hscreen (n := 103) rfl rfl hafter
    (cornerText_skips hscreen hstart)

end JuddOS
