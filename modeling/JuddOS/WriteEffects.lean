import JuddOS.KeyEffects

/-!
# What `terminal_write` does to the terminals

The call works on the scheduled terminal.  `nextCursor` is where a character leaves the cursor,
and `terminalWrite_spec` follows it through the whole buffer: with a cursor on the screen every
character is stored on the screen, the cursor stays there, and nothing of the other two terminals
changes.
-/

namespace JuddOS

open Support

def Terminal.cursor (t : Terminal) : Nat × Nat := (t.cursorX, t.cursorY)

/-- The cursor after a character written at `cursor`. -/
def nextCursor (c : UInt8) (cursor : Nat × Nat) : Nat × Nat :=
  if c = chNewline ∨ c = chReturn ∨ cursor.1 = numCols - 1 then
    (0, min (cursor.2 + 1) (numRows - 1))
  else (cursor.1 + 1, cursor.2)

/-- The cursor after the first `n` characters of a buffer. -/
def cursorAfter (buf : Buf) (cursor : Nat × Nat) : Nat → Nat × Nat
  | 0 => cursor
  | n + 1 => nextCursor (buf n) (cursorAfter buf cursor n)

/-- The cursor of a terminal is at `cursor`. -/
theorem OnScreen.of_cursor {t : Terminal} {x y : Nat} (h : t.cursor = (x, y)) (hx : x < numCols)
    (hy : y < numRows) : OnScreen t := by
  cases h
  exact ⟨hx, hy⟩

theorem nextCursor_inside (c : UInt8) {x y : Nat} (hx : x < numCols) (hy : y < numRows) :
    (nextCursor c (x, y)).1 < numCols ∧ (nextCursor c (x, y)).2 < numRows := by
  unfold nextCursor
  simp only [numCols, numRows] at hx hy ⊢
  split <;> dsimp only <;> omega

theorem cursorAfter_inside (buf : Buf) {t : Terminal} (h : OnScreen t) (n : Nat) :
    (cursorAfter buf t.cursor n).1 < numCols ∧ (cursorAfter buf t.cursor n).2 < numRows := by
  induction n with
  | zero => exact ⟨h.cursorX, h.cursorY⟩
  | succ n ih => exact nextCursor_inside _ ih.1 ih.2

/-- What writing does to the kernel: the scheduled terminal's cursor goes to `cursor`. -/
structure Writes (cursor : Nat × Nat) (k k' : Kernel) : Prop where
  keeps : Keeps k k'
  only : OnlyTerminal k.terminalNum k k'
  moved : (k'.terminalArr k.terminalNum).cursor = cursor

namespace Writes

variable {k k₁ k₂ : Kernel} {cursor cursor' : Nat × Nat}

/-- The scheduled terminal is the same afterwards. -/
theorem cursor_eq (h : Writes cursor k k₁) : (k₁.terminalArr k₁.terminalNum).cursor = cursor := by
  rw [h.keeps.terminalNum]
  exact h.moved

theorem refl (k : Kernel) : Writes (k.terminalArr k.terminalNum).cursor k k :=
  ⟨.refl k, .refl _ k, rfl⟩

theorem trans (h : Writes cursor k k₁) (h' : Writes cursor' k₁ k₂) : Writes cursor' k k₂ where
  keeps := h.keeps.trans h'.keeps
  only := by
    have honly := h'.only
    rw [h.keeps.terminalNum] at honly
    exact h.only.trans honly h.keeps
  moved := by
    have hmoved := h'.moved
    rw [h.keeps.terminalNum] at hmoved
    exact hmoved

/-- An assignment to the cursor of the scheduled terminal. -/
theorem setTerminal (k : Kernel) {f : Terminal → Terminal}
    (hf : ∀ t, (f t).vidmemAddr = t.vidmemAddr) :
    Writes (f (k.terminalArr k.terminalNum)).cursor k (k.setTerminal k.terminalNum f) where
  keeps := keeps_setTerminal k _ hf
  only := onlyTerminal_setTerminal k _ f
  moved := by
    rw [Kernel.setTerminal_self]

end Writes

theorem clampCursor_spec {k : Kernel} {x y : Nat}
    (hcursor : (k.terminalArr k.terminalNum).cursor = (x, y)) (hx : x ≤ numCols)
    (hy : y < numRows) :
    Writes (if x = numCols then (0, min (y + 1) (numRows - 1)) else (x, y)) k (clampCursor k) := by
  cases hcursor
  simp only [numCols, numRows] at hx hy
  rw [clampCursor]
  by_cases hend : (k.terminalArr k.terminalNum).cursorX = numCols
  · -- The cursor wraps to the next row, and stays in the last one.
    rw [if_pos hend, if_pos (Nat.le_of_eq hend.symm)]
    have hwrap := Writes.setTerminal k (f := fun t =>
      { t with cursorX := 0, cursorY := (t.cursorY + 1) % 256 }) fun _ => rfl
    generalize (k.setTerminal k.terminalNum fun t =>
      { t with cursorX := 0, cursorY := (t.cursorY + 1) % 256 }) = k₁ at hwrap ⊢
    have hcol : (k₁.terminalArr k₁.terminalNum).cursorX = 0 :=
      congrArg Prod.fst hwrap.cursor_eq
    have hrow : (k₁.terminalArr k₁.terminalNum).cursorY =
        ((k.terminalArr k.terminalNum).cursorY + 1) % 256 := congrArg Prod.snd hwrap.cursor_eq
    split
    case isTrue hbelow =>
      have hlast := hwrap.trans (Writes.setTerminal k₁ (f := fun t =>
        { t with cursorY := numRows - 1 }) fun _ => rfl)
      have hmin : min ((k.terminalArr k.terminalNum).cursorY + 1) (numRows - 1) = numRows - 1 := by
        simp only [numRows] at hbelow ⊢
        omega
      rw [hmin]
      exact ⟨hlast.keeps, hlast.only, hlast.moved.trans (congrArg (·, numRows - 1) hcol)⟩
    case isFalse hinside =>
      have hmin : min ((k.terminalArr k.terminalNum).cursorY + 1) (numRows - 1) =
          ((k.terminalArr k.terminalNum).cursorY + 1) % 256 := by
        simp only [numRows] at hinside ⊢
        omega
      rw [hmin]
      exact hwrap
  · have hinside : ¬ (k.terminalArr k.terminalNum).cursorX ≥ numCols := by
      simp only [numCols] at hend ⊢
      omega
    have hrow : ¬ (k.terminalArr k.terminalNum).cursorY ≥ numRows := by
      simp only [numRows]
      omega
    rw [if_neg hend, if_neg hinside, if_neg hrow]
    exact .refl k

/-- The cursor goes to the start of the next row. -/
def nextRow (k : Kernel) : Kernel :=
  k.setTerminal k.terminalNum fun t => { t with cursorY := (t.cursorY + 1) % 256, cursorX := 0 }

theorem nextRow_writes {k : Kernel} (hy : (k.terminalArr k.terminalNum).cursorY < numRows) :
    Writes (0, (k.terminalArr k.terminalNum).cursorY + 1) k (nextRow k) := by
  have hnew := Writes.setTerminal k (f := fun t =>
    { t with cursorY := (t.cursorY + 1) % 256, cursorX := 0 }) fun _ => rfl
  -- The row is a byte, and 25 fits.
  have hmod : ((k.terminalArr k.terminalNum).cursorY + 1) % 256 =
      (k.terminalArr k.terminalNum).cursorY + 1 := by
    simp only [numRows] at hy
    omega
  exact ⟨hnew.keeps, hnew.only, hnew.moved.trans (congrArg (Prod.mk 0) hmod)⟩

/-- A newline or a return scrolls below the last row. -/
theorem writeGlyph_eq_nextRow {k : Kernel}
    (hy : (k.terminalArr k.terminalNum).cursorY < numRows) {c : UInt8}
    (hnewline : c = chNewline ∨ c = chReturn) :
    writeGlyph c k =
      if (k.terminalArr k.terminalNum).cursorY + 1 < numRows then some (nextRow k)
      else scrollUp (nextRow k) := by
  have hrow : ((nextRow k).terminalArr (nextRow k).terminalNum).cursorY =
      (k.terminalArr k.terminalNum).cursorY + 1 :=
    congrArg Prod.snd (nextRow_writes hy).cursor_eq
  have hglyph : writeGlyph c k = scrollAtEnd (nextRow k) := if_pos hnewline
  rw [hglyph, scrollAtEnd, hrow]
  by_cases hbelow : (k.terminalArr k.terminalNum).cursorY + 1 < numRows
  · rw [if_neg (Nat.ne_of_lt hbelow), if_pos hbelow]
  · rw [if_pos (Nat.le_antisymm hy (Nat.not_lt.mp hbelow)), if_neg hbelow]

theorem writeGlyph_newline {k : Kernel} (h : VideoMapped k)
    (hy : (k.terminalArr k.terminalNum).cursorY < numRows) {c : UInt8}
    (hnewline : c = chNewline ∨ c = chReturn) :
    ∃ k', writeGlyph c k = some k' ∧
      Writes (0, min ((k.terminalArr k.terminalNum).cursorY + 1) (numRows - 1)) k k' := by
  have hnew := nextRow_writes hy
  rw [writeGlyph_eq_nextRow hy hnewline]
  split
  case isTrue hinside =>
    rw [Nat.min_eq_left (Nat.le_sub_one_of_lt hinside)]
    exact ⟨_, rfl, hnew⟩
  case isFalse hbelow =>
    obtain ⟨k₂, hscroll, hkeeps, honly, hterm⟩ := scrollUp_spec (hnew.keeps.mapped h)
    have hscrolled : Writes (0, numRows - 1) (nextRow k) k₂ := ⟨hkeeps, honly, by rw [hterm]; rfl⟩
    have hmin : min ((k.terminalArr k.terminalNum).cursorY + 1) (numRows - 1) = numRows - 1 := by
      simp only [numRows] at hbelow ⊢
      omega
    rw [hmin]
    exact ⟨k₂, hscroll, hnew.trans hscrolled⟩

/-- Any other character goes to the cell at the cursor. -/
theorem writeGlyph_char {k : Kernel} (h : VideoMapped k)
    (hscreen : OnScreen (k.terminalArr k.terminalNum)) {c : UInt8}
    (hnewline : ¬ (c = chNewline ∨ c = chReturn)) :
    ∃ k', writeGlyph c k = some k' ∧
      Writes ((k.terminalArr k.terminalNum).cursorX + 1, (k.terminalArr k.terminalNum).cursorY)
        k k' := by
  obtain ⟨k₁, hstore, hkeeps, honly, hterm⟩ := storeChar_spec h hscreen c
  have hstored : Writes (k.terminalArr k.terminalNum).cursor k k₁ := ⟨hkeeps, honly, by rw [hterm]⟩
  have hright := Writes.setTerminal k₁ (f := fun t =>
    { t with cursorX := (t.cursorX + 1) % 256 }) fun _ => rfl
  rw [hkeeps.terminalNum, hterm] at hright
  rw [writeGlyph, if_neg hnewline, hstore, Option.map_some, hkeeps.terminalNum]
  -- The byte does not overflow in a column of the screen.
  have hmod : ((k.terminalArr k.terminalNum).cursorX + 1) % 256 =
      (k.terminalArr k.terminalNum).cursorX + 1 := by
    have hx := hscreen.cursorX
    simp only [numCols] at hx
    omega
  have hmoved := hstored.trans hright
  exact ⟨_, rfl, hmoved.keeps, hmoved.only,
    hmoved.moved.trans (congrArg (·, (k.terminalArr k.terminalNum).cursorY) hmod)⟩

/-- **One character.** -/
theorem writeChar_spec {k : Kernel} (h : VideoMapped k) {x y : Nat}
    (hcursor : (k.terminalArr k.terminalNum).cursor = (x, y)) (hx : x < numCols)
    (hy : y < numRows) (c : UInt8) :
    ∃ k', writeChar c k = some k' ∧ Writes (nextCursor c (x, y)) k k' := by
  have hscreen := OnScreen.of_cursor hcursor hx hy
  have hwrap : wrapRow k = some k := if_neg (Nat.ne_of_lt hscreen.cursorX)
  rw [writeChar_eq, hwrap, Option.bind_some]
  cases hcursor
  by_cases hnewline : c = chNewline ∨ c = chReturn
  · obtain ⟨k₁, hglyph, hwrites⟩ := writeGlyph_newline h hy hnewline
    have hclamp := hwrites.trans (clampCursor_spec hwrites.cursor_eq (by decide) (by
      simp only [numRows]
      omega))
    have hnext : nextCursor c ((k.terminalArr k.terminalNum).cursorX,
        (k.terminalArr k.terminalNum).cursorY) =
          (0, min ((k.terminalArr k.terminalNum).cursorY + 1) (numRows - 1)) :=
      if_pos (or_assoc.mp (.inl hnewline))
    refine ⟨clampCursor k₁, by rw [hglyph, Option.map_some], ?_⟩
    rw [hnext]
    exact hclamp
  · obtain ⟨k₁, hglyph, hwrites⟩ := writeGlyph_char h hscreen hnewline
    have hclamp := hwrites.trans (clampCursor_spec hwrites.cursor_eq hx hy)
    have hnext : nextCursor c ((k.terminalArr k.terminalNum).cursorX,
        (k.terminalArr k.terminalNum).cursorY) =
          if (k.terminalArr k.terminalNum).cursorX + 1 = numCols then
            (0, min ((k.terminalArr k.terminalNum).cursorY + 1) (numRows - 1))
          else ((k.terminalArr k.terminalNum).cursorX + 1,
            (k.terminalArr k.terminalNum).cursorY) := by
      rw [not_or] at hnewline
      simp only [nextCursor, hnewline.1, hnewline.2, false_or, numCols]
      split <;> split <;> first | rfl | omega
    refine ⟨clampCursor k₁, by rw [hglyph, Option.map_some], ?_⟩
    rw [hnext]
    exact hclamp

/-- The loop of `terminal_write`. -/
theorem writeLoop_spec {k : Kernel} (h : VideoMapped k)
    (hscreen : OnScreen (k.terminalArr k.terminalNum)) (buf : Buf) (n : Nat) :
    ∃ k', forRange (fun i k => writeChar (buf i) k) 0 n k = some k' ∧
      Writes (cursorAfter buf (k.terminalArr k.terminalNum).cursor n) k k' := by
  have hinside := cursorAfter_inside buf hscreen
  -- The cursor before iteration `i` is the one after `i` characters.
  obtain ⟨k₁, hloop, hwrites⟩ := forRange_invariant (n := n)
    (fun i k₁ => Writes (cursorAfter buf (k.terminalArr k.terminalNum).cursor i) k k₁)
    (i := 0) (Writes.refl k) fun i k₁ _ _ hbefore => by
      obtain ⟨k₂, hchar, hnext⟩ := writeChar_spec (hbefore.keeps.mapped h) hbefore.cursor_eq
        (hinside i).1 (hinside i).2 (buf i)
      exact ⟨k₂, hchar, hbefore.trans hnext⟩
  rw [Nat.zero_add] at hwrites
  exact ⟨k₁, hloop, hwrites⟩

/-- After it the call only moves the hardware cursor. -/
theorem terminalWrite_of_loop {k k₁ : Kernel} {buf : Buf} {nbytes : Int32} (hn : ¬ nbytes < 0)
    (hloop : forRange (fun i k => writeChar (buf i) k) 0 nbytes.toInt.toNat k = some k₁)
    (hscreen : OnScreen (k₁.terminalArr k₁.terminalNum)) :
    ∃ k', terminalWrite (some buf) nbytes k = some (0, k') ∧ SameConsole k₁ k' := by
  rw [terminalWrite]
  dsimp only
  rw [if_neg hn, hloop, Option.bind_eq_bind, Option.bind_some]
  split
  · rw [updateCursor_inside hscreen.cursorX hscreen.cursorY]
    exact ⟨_, rfl, sameConsole_vgaCursor k₁ _⟩
  · exact ⟨k₁, rfl, sameConsole_refl k₁⟩

/-- **`terminal_write`** stays on the screen of the scheduled terminal. -/
theorem terminalWrite_spec {k : Kernel} (h : VideoMapped k)
    (hscreen : OnScreen (k.terminalArr k.terminalNum)) (buf : Buf) {nbytes : Int32}
    (hn : ¬ nbytes < 0) :
    ∃ k', terminalWrite (some buf) nbytes k = some (0, k') ∧
      Writes (cursorAfter buf (k.terminalArr k.terminalNum).cursor nbytes.toInt.toNat) k k' := by
  obtain ⟨k₁, hloop, hwrites⟩ := writeLoop_spec h hscreen buf nbytes.toInt.toNat
  have hend := cursorAfter_inside buf hscreen nbytes.toInt.toNat
  obtain ⟨k', hwrite, hsame⟩ :=
    terminalWrite_of_loop hn hloop (.of_cursor hwrites.cursor_eq hend.1 hend.2)
  refine ⟨k', hwrite, hsame.keeps_after hwrites.keeps, hsame.only_after hwrites.only, ?_⟩
  rw [hsame.terminalArr]
  exact hwrites.moved

/-- Every call of `terminal_write` leaves the cursors on the screens and stores inside them. -/
theorem terminalWrite_inside {k k' : Kernel} {v : Int32} {buf : Option Buf} {nbytes : Int32}
    (h : VideoMapped k) (hscreens : ∀ t, OnScreen (k.terminalArr t))
    (hwrite : terminalWrite buf nbytes k = some (v, k')) :
    Keeps k k' ∧ ∀ t, OnScreen (k'.terminalArr t) := by
  have hrefused : some (-1, k) = some (v, k') →
      Keeps k k' ∧ ∀ t, OnScreen (k'.terminalArr t) := by
    intro hsame
    cases hsame
    exact ⟨.refl k, hscreens⟩
  cases buf with
  | none => exact hrefused hwrite
  | some bytes =>
      by_cases hn : nbytes < 0
      · rw [terminalWrite] at hwrite
        dsimp only at hwrite
        rw [if_pos hn] at hwrite
        exact hrefused hwrite
      · obtain ⟨k₁, hspec, hwrites⟩ := terminalWrite_spec h (hscreens k.terminalNum) bytes hn
        cases hspec.symm.trans hwrite
        refine ⟨hwrites.keeps, fun t => ?_⟩
        by_cases ht : t = k.terminalNum
        · have hinside := cursorAfter_inside bytes (hscreens k.terminalNum) nbytes.toInt.toNat
          rw [ht]
          exact .of_cursor hwrites.moved hinside.1 hinside.2
        · rw [hwrites.only.terminal t ht]
          exact hscreens t

end JuddOS
