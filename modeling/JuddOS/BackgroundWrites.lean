import JuddOS.ScrollingTerminal

/-!
# Background output

A process may write while another terminal is displayed.  Its characters then go to the buffer of
its own terminal, through the same virtual address.

What `terminal_write` makes of a screen is a function of the screen, the cursor and the characters
(`screenAfter`).  Which physical page the screen is in does not matter, nor do the other terminals;
`background_write` compares two kernels in which they differ.
-/

namespace JuddOS

open Support

/-! ## Screens on their own -/

/-- A screen after one character written at `cursor`. -/
def screenAfterChar (c : UInt8) (cursor : Nat × Nat) (screen : Buf) : Buf :=
  if EndsRow c then
    if cursor.2 + 1 < numRows then screen else scrolledCells screen 0
  else cellStored screen 0 (numCols * cursor.2 + cursor.1) c

/-- A screen after the first `n` characters of a buffer. -/
def screenAfter (buf : Buf) (cursor : Nat × Nat) (screen : Buf) : Nat → Buf
  | 0 => screen
  | n + 1 => screenAfterChar (buf n) (cursorAfter buf cursor n) (screenAfter buf cursor screen n)

/-- The screen that is at `base` in memory. -/
def screenAt (phys : Buf) (base : Nat) : Buf := fun j => phys (base + j)

/-- Scrolling is the same at every address. -/
theorem scrolledCells_at (phys : Buf) (base : Nat) :
    screenAt (scrolledCells phys base) base = scrolledCells (screenAt phys base) 0 := by
  funext j
  simp only [screenAt, scrolledCells, blankedCells, raisedCells, Nat.zero_add, Nat.sub_zero,
    Nat.zero_le, true_and, Nat.add_lt_add_iff_left, Nat.add_le_add_iff_left, Nat.le_add_right,
    Nat.add_sub_cancel_left, Nat.add_assoc]

theorem cellStored_at (phys : Buf) (base i : Nat) (c : UInt8) :
    screenAt (cellStored phys base i c) base = cellStored (screenAt phys base) 0 i c := by
  funext j
  simp only [screenAt, cellStored, Function.update_apply, Nat.zero_add, Nat.add_assoc,
    Nat.add_left_cancel_iff]

/-- Scrolling reads nothing behind the screen. -/
theorem scrolledCells_congr {screen screen' : Buf}
    (h : ∀ j, j < sizeOfVidmem → screen j = screen' j) :
    ∀ j, j < sizeOfVidmem → scrolledCells screen 0 j = scrolledCells screen' 0 j := by
  intro j hj
  simp only [sizeOfVidmem] at h
  simp only [scrolledCells, blankedCells, raisedCells, numRows, numCols]
  split_ifs with hlast heven hraised heven
  · rfl
  · rfl
  · exact h _ (by omega)
  · rfl
  · exact h _ hj

theorem screenAfterChar_congr (c : UInt8) (cursor : Nat × Nat) {screen screen' : Buf}
    (h : ∀ j, j < sizeOfVidmem → screen j = screen' j) :
    ∀ j, j < sizeOfVidmem →
      screenAfterChar c cursor screen j = screenAfterChar c cursor screen' j := by
  unfold screenAfterChar
  intro j hj
  split
  · split
    · exact h j hj
    · exact scrolledCells_congr h j hj
  · simp only [cellStored, Function.update_apply, h j hj]

/-- What is written depends on the screen alone. -/
theorem screenAfter_congr (buf : Buf) (cursor : Nat × Nat) {screen screen' : Buf}
    (h : ∀ j, j < sizeOfVidmem → screen j = screen' j) (n : Nat) :
    ∀ j, j < sizeOfVidmem →
      screenAfter buf cursor screen n j = screenAfter buf cursor screen' n j := by
  induction n with
  | zero => exact h
  | succ n ih => exact screenAfterChar_congr _ _ ih

/-! ## One call -/

/-- What a write to the scheduled terminal `t` may do. -/
structure WritesOnly (t : Tid) (k k' : Kernel) : Prop where
  cursor : OnScreen (k'.terminalArr t)
  memory : ∀ a, (∀ j, j < sizeOfVidmem → a ≠ videoPage k.terminalNumDisplay t + j) →
    k'.phys a = k.phys a
  terminals : ∀ u, u ≠ t → k'.terminalArr u = k.terminalArr u
  screens : ∀ u, u ≠ t → ∀ j, j < sizeOfVidmem →
    logicalScreens k' u j = logicalScreens k u j

variable {k k' : Kernel}

/-- The screen of a terminal in physical memory. -/
theorem VideoMapped.logicalScreens_eq (h : VideoMapped k) (t : Tid) {j : Nat}
    (hj : j < sizeOfVidmem) :
    logicalScreens k t j = screenAt k.phys (videoPage k.terminalNumDisplay t) j := by
  simp only [sizeOfVidmem] at hj
  rw [logicalScreens, h.peek t (by omega), Option.getD_some]
  rfl

/-- Nothing but the screen of the scheduled terminal changes. -/
structure ScreenOnly (k k' : Kernel) : Prop where
  memory : ∀ a, (∀ j, j < sizeOfVidmem →
    a ≠ videoPage k.terminalNumDisplay k.terminalNum + j) → k'.phys a = k.phys a
  keeps : Keeps k k'

theorem ScreenOnly.trans {k₁ k₂ : Kernel} (h : ScreenOnly k k₁) (h' : ScreenOnly k₁ k₂) :
    ScreenOnly k k₂ where
  memory a ha := by
    refine (h'.memory a ?_).trans (h.memory a ha)
    rw [h.keeps.display, h.keeps.terminalNum]
    exact ha
  keeps := h.keeps.trans h'.keeps

/-- **One character**, on the screen and around it. -/
theorem writeChar_screen (h : VideoMapped k) (hscreen : OnScreen (k.terminalArr k.terminalNum))
    (c : UInt8) (hkeeps : Keeps k k') (hwrite : writeChar c k = some k') :
    ScreenOnly k k' ∧
      screenAt k'.phys (videoPage k.terminalNumDisplay k.terminalNum) =
        screenAfterChar c (k.terminalArr k.terminalNum).cursor
          (screenAt k.phys (videoPage k.terminalNumDisplay k.terminalNum)) := by
  have hcell := hscreen.cell_lt
  have hphys := writeChar_phys h hscreen hwrite
  generalize hbase : videoPage k.terminalNumDisplay k.terminalNum = base at hphys ⊢
  have houtside : ∀ a, (∀ j, j < sizeOfVidmem → a ≠ base + j) →
      ¬ (base ≤ a ∧ a < base + sizeOfVidmem) := by
    rintro a ha ⟨hlow, hhigh⟩
    exact ha (a - base) (by omega) (by omega)
  rw [hphys]
  refine ⟨⟨fun a ha => ?_, hkeeps⟩, ?_⟩
  · -- a scroll and a character stay inside the 4000 bytes
    rw [hbase] at ha
    have hout := houtside a ha
    rw [hphys]
    split
    · split
      · rfl
      · exact scrolledCells_outside _ (by simp only [sizeOfVidmem] at hout; omega)
    · simp only [sizeOfVidmem] at hout
      rw [cellStored, Function.update_of_ne (by omega), Function.update_of_ne (by omega)]
  · unfold screenAfterChar
    rw [Terminal.cursor]
    split
    · split
      · rfl
      · exact scrolledCells_at _ _
    · exact cellStored_at _ _ _ _

/-- **The loop of `terminal_write`**, character by character. -/
theorem writeLoop_screen (h : VideoMapped k) (hscreen : OnScreen (k.terminalArr k.terminalNum))
    (buf : Buf) (n : Nat) :
    ∃ k', forRange (fun i k => writeChar (buf i) k) 0 n k = some k' ∧
      Writes (cursorAfter buf (k.terminalArr k.terminalNum).cursor n) k k' ∧
      ScreenOnly k k' ∧
      screenAt k'.phys (videoPage k.terminalNumDisplay k.terminalNum) =
        screenAfter buf (k.terminalArr k.terminalNum).cursor
          (screenAt k.phys (videoPage k.terminalNumDisplay k.terminalNum)) n := by
  have hinside := cursorAfter_inside buf hscreen
  obtain ⟨k₁, hloop, hwrites, honly, heq⟩ := forRange_invariant (n := n)
    (fun i k₁ => Writes (cursorAfter buf (k.terminalArr k.terminalNum).cursor i) k k₁ ∧
      ScreenOnly k k₁ ∧
      screenAt k₁.phys (videoPage k.terminalNumDisplay k.terminalNum) =
        screenAfter buf (k.terminalArr k.terminalNum).cursor
          (screenAt k.phys (videoPage k.terminalNumDisplay k.terminalNum)) i)
    (i := 0) ⟨.refl k, ⟨fun _ _ => rfl, .refl k⟩, rfl⟩
    fun i k₁ _ _ hbefore => by
      obtain ⟨hwrites, honly, heq⟩ := hbefore
      have hmapped := hwrites.keeps.mapped h
      obtain ⟨k₂, hchar, hnext⟩ := writeChar_spec hmapped hwrites.cursor_eq
        (hinside i).1 (hinside i).2 (buf i)
      have hon : OnScreen (k₁.terminalArr k₁.terminalNum) :=
        .of_cursor hwrites.cursor_eq (hinside i).1 (hinside i).2
      obtain ⟨honly', heq'⟩ := writeChar_screen hmapped hon (buf i) hnext.keeps hchar
      refine ⟨k₂, hchar, hwrites.trans hnext, honly.trans honly', ?_⟩
      rw [hwrites.keeps.display, hwrites.keeps.terminalNum] at heq'
      rw [heq', heq, hwrites.moved]
      rfl
  rw [Nat.zero_add] at hwrites heq
  exact ⟨k₁, hloop, hwrites, honly, heq⟩

/-- **`terminal_write` on its own**: what it leaves on the screen and at the cursor, and what it
leaves alone. -/
theorem terminalWrite_screen (h : VideoMapped k) {t : Tid} (hnum : k.terminalNum = t)
    (hscreen : OnScreen (k.terminalArr t)) (buf : Buf) {nbytes : Int32} (hn : ¬ nbytes < 0) :
    ∃ k', terminalWrite (some buf) nbytes k = some (0, k') ∧ WritesOnly t k k' ∧
      (k'.terminalArr t).cursor =
        cursorAfter buf (k.terminalArr t).cursor nbytes.toInt.toNat ∧
      ∀ j, j < sizeOfVidmem → logicalScreens k' t j =
        screenAfter buf (k.terminalArr t).cursor (logicalScreens k t) nbytes.toInt.toNat j := by
  subst hnum
  obtain ⟨k₁, hloop, hwrites, honly, heq⟩ := writeLoop_screen h hscreen buf nbytes.toInt.toNat
  have hend := cursorAfter_inside buf hscreen nbytes.toInt.toNat
  obtain ⟨k', hwrite, hsame⟩ :=
    terminalWrite_of_loop hn hloop (.of_cursor hwrites.cursor_eq hend.1 hend.2)
  have hmapped := (hsame.keeps_after hwrites.keeps).mapped h
  have honly' := hsame.only_after hwrites.only
  have hmoved : (k'.terminalArr k.terminalNum).cursor =
      cursorAfter buf (k.terminalArr k.terminalNum).cursor nbytes.toInt.toNat := by
    rw [hsame.terminalArr]
    exact hwrites.moved
  have hdisplay : k'.terminalNumDisplay = k.terminalNumDisplay :=
    hsame.display.trans hwrites.keeps.display
  refine ⟨k', hwrite, ⟨.of_cursor hmoved hend.1 hend.2, ?_, honly'.terminal, ?_⟩, hmoved, ?_⟩
  · intro a ha
    rw [hsame.phys]
    exact honly.memory a ha
  · intro u hu j hj
    rw [hmapped.logicalScreens_eq u hj, h.logicalScreens_eq u hj, hdisplay]
    exact honly'.screen u hu j hj
  · intro j hj
    rw [hmapped.logicalScreens_eq _ hj, hdisplay, hsame.phys, heq]
    exact screenAfter_congr _ _ (fun i hi => (h.logicalScreens_eq _ hi).symm) _ j hj

/-! ## Two runs -/

/-- **Background output equals foreground output.**  Two kernels have the same screen and the same
cursor for the scheduled terminal `t`; which terminal is displayed, and everything else, may differ.
Then `terminal_write` of the same bytes answers the same in both, stores only inside the screen of
`t` and leaves its cursor on it, leaves the other two terminals alone, and the two screens and
cursors of `t` are the same again. -/
theorem background_write (k₁ k₂ : Kernel) (h₁ : VideoMapped k₁) (h₂ : VideoMapped k₂) (t : Tid)
    (hnum₁ : k₁.terminalNum = t) (hnum₂ : k₂.terminalNum = t)
    (hscreen : OnScreen (k₁.terminalArr t))
    (hcursor : (k₂.terminalArr t).cursor = (k₁.terminalArr t).cursor)
    (hsame : ∀ j, j < sizeOfVidmem → logicalScreens k₂ t j = logicalScreens k₁ t j)
    (buf : Option Buf) (nbytes : Int32) :
    ∃ v k₁' k₂', terminalWrite buf nbytes k₁ = some (v, k₁') ∧
      terminalWrite buf nbytes k₂ = some (v, k₂') ∧
      WritesOnly t k₁ k₁' ∧ WritesOnly t k₂ k₂' ∧
      (k₂'.terminalArr t).cursor = (k₁'.terminalArr t).cursor ∧
      ∀ j, j < sizeOfVidmem → logicalScreens k₂' t j = logicalScreens k₁' t j := by
  have hscreen₂ : OnScreen (k₂.terminalArr t) :=
    .of_cursor hcursor hscreen.cursorX hscreen.cursorY
  have hrefuses : ∀ k : Kernel, OnScreen (k.terminalArr t) → WritesOnly t k k := fun k hk =>
    ⟨hk, fun _ _ => rfl, fun _ _ => rfl, fun _ _ _ _ => rfl⟩
  cases buf with
  | none => exact ⟨-1, k₁, k₂, rfl, rfl, hrefuses k₁ hscreen, hrefuses k₂ hscreen₂, hcursor, hsame⟩
  | some bytes =>
      by_cases hn : nbytes < 0
      · exact ⟨-1, k₁, k₂, if_pos hn, if_pos hn, hrefuses k₁ hscreen, hrefuses k₂ hscreen₂,
          hcursor, hsame⟩
      · obtain ⟨k₁', hwrite₁, honly₁, hmoved₁, heq₁⟩ :=
          terminalWrite_screen h₁ hnum₁ hscreen bytes hn
        obtain ⟨k₂', hwrite₂, honly₂, hmoved₂, heq₂⟩ :=
          terminalWrite_screen h₂ hnum₂ hscreen₂ bytes hn
        refine ⟨0, k₁', k₂', hwrite₁, hwrite₂, honly₁, honly₂, ?_, fun j hj => ?_⟩
        · rw [hmoved₁, hmoved₂, hcursor]
        · rw [heq₁ j hj, heq₂ j hj, hcursor]
          exact screenAfter_congr _ _ hsame _ j hj

/-- A letter after boot, with terminal 0 displayed and with terminal 1 displayed. -/
theorem background_write_letter :
    ∃ k₂ : Kernel, k₂.terminalNumDisplay = 1 ∧ ∃ v k₁' k₂',
      terminalWrite (some fun _ => 0x61) 1 (bootKernel .blank) = some (v, k₁') ∧
      terminalWrite (some fun _ => 0x61) 1 k₂ = some (v, k₂') ∧
      WritesOnly 0 (bootKernel .blank) k₁' ∧ WritesOnly 0 k₂ k₂' ∧
      (k₂'.terminalArr 0).cursor = (k₁'.terminalArr 0).cursor ∧
      ∀ j, j < sizeOfVidmem → logicalScreens k₂' 0 j = logicalScreens k₁' 0 j := by
  have hbooted := booted_bootKernel .blank
  have hready := (consoleReady_bootKernel .blank).screens
  obtain ⟨k₂, hswap, hready₂, hshows, hdisplay⟩ := hready.swap hready.shows_logicalScreens 1
  obtain ⟨-, -, hterminals, -⟩ := hready.swap_frame hswap
  have hnum := (swapTerminal_lines hswap).2.1
  refine ⟨k₂, hdisplay, background_write (bootKernel .blank) k₂ hready.mapped hready₂.mapped 0
    hbooted.terminalNum (hnum.trans hbooted.terminalNum) (hready.cursor 0) ?_ ?_ _ 1⟩
  · rw [hterminals]
  · intro j hj
    rw [logicalScreens, hshows 0 j hj, Option.getD_some]

end JuddOS
