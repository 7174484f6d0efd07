import JuddOS.Lines
import JuddOS.WriteEffects

/-!
# When a key stays on the displayed terminal

A key is handed to `enter_press`, to `add2buf` or to `delete_char_from_buf`, or it clears the
screen, prints the line or switches the terminal.

* `CursorSafe` is the condition under which no cursor leaves its screen: the scheduled terminal
  is displayed, or the key is not one that moves the displayed cursor over an end of the screen.
* `Isolating` is the condition under which the key concerns the displayed terminal only.

`handleKey_contained` is what follows from each.
-/

namespace JuddOS

open Support X86

/-- The key is handed to `enter_press`; `entered` is `enter_flag`. -/
def Key.presses (key : Key) (entered : Bool) : Bool :=
  match key with
  | .enter => true
  | .idle | .erase | .show | .char _ => entered
  | .switch _ | .clear => false

/-- The key is handed to `add2buf`. -/
def Key.types (key : Key) (entered : Bool) : Bool :=
  match key with
  | .char ascii => !entered && ascii ≠ 0
  | _ => false

/-- The key is handed to `delete_char_from_buf`. -/
def Key.erases (key : Key) (entered : Bool) : Bool :=
  match key with
  | .erase => !entered
  | _ => false

/-- **The key moves no cursor off its screen.** -/
structure CursorSafe (key : Key) (k : Kernel) : Prop where
  types : key.types k.enterFlag = true →
    k.terminalNum = k.terminalNumDisplay ∨ ¬ FillsScreen k
  erases : key.erases k.enterFlag = true →
    k.terminalNum = k.terminalNumDisplay ∨ ¬ ErasesHome k

/-- **The key concerns the displayed terminal only.**  Control-L does if the other cursors are in
the first cell anyway; the debugging aid does while the cursor of `putc` is on the screen, or one
row below as a newline leaves it. -/
structure Isolating (key : Key) (k : Kernel) : Prop extends CursorSafe key k where
  presses : key.presses k.enterFlag = true →
    k.terminalNum = k.terminalNumDisplay ∨ ¬ (LineOpen k ∧ FillsScreen k)
  clears : key = .clear → ∀ t, t ≠ k.terminalNumDisplay →
    (k.terminalArr t).cursorX = 0 ∧ (k.terminalArr t).cursorY = 0
  shows : key = .show → k.screenX < numCols ∧ k.screenY ≤ numRows

/-! ## Flags -/

namespace SameConsole

variable {k k₁ k' : Kernel}

theorem fillsScreen (h : SameConsole k k₁) (hfills : FillsScreen k₁) : FillsScreen k := by
  obtain ⟨hroom, hx, hy⟩ := hfills
  rw [h.terminalArr, h.display] at hroom hx hy
  exact ⟨hroom, hx, hy⟩

theorem erasesHome (h : SameConsole k k₁) (herases : ErasesHome k₁) : ErasesHome k := by
  obtain ⟨htext, hx, hy⟩ := herases
  rw [h.terminalArr, h.display] at htext hx hy
  exact ⟨htext, hx, hy⟩

theorem lineOpen (h : SameConsole k k₁) (hopen : LineOpen k₁) : LineOpen k := by
  unfold LineOpen at hopen ⊢
  rw [h.terminalArr, h.display] at hopen
  exact hopen

theorem keeps (h : SameConsole k k₁) (hkeeps : Keeps k₁ k') : Keeps k k' where
  paging := hkeeps.paging.trans h.paging
  terminalNum := hkeeps.terminalNum.trans h.terminalNum
  display := hkeeps.display.trans h.display
  vidmem t := by
    rw [hkeeps.vidmem t, h.terminalArr]
  stores e he := by
    have hstores := hkeeps.stores e he
    rw [h.charStores] at hstores
    exact hstores

theorem only (h : SameConsole k k₁) {d : Tid} (honly : OnlyTerminal d k₁ k') :
    OnlyTerminal d k k' where
  terminal t ht := by
    rw [honly.terminal t ht, h.terminalArr]
  screen t ht j hj := by
    have hscreen := honly.screen t ht j hj
    rw [h.display, h.phys] at hscreen
    exact hscreen

theorem charAdded (h : SameConsole k k₁) (hadded : CharAdded k₁ k') : CharAdded k k' where
  keeps := h.keeps hadded.keeps
  isolated hsafe := by
    rw [← h.terminalNum, ← h.display] at hsafe
    obtain ⟨honly, hshown⟩ := hadded.isolated (hsafe.imp_right fun hnot hfills =>
      hnot (h.fillsScreen hfills))
    rw [h.display] at honly hshown
    exact ⟨h.only honly, hshown⟩
  leaks hne hfills := by
    have hfills₁ : FillsScreen k₁ := by
      obtain ⟨hroom, hx, hy⟩ := hfills
      rw [← h.terminalArr, ← h.display] at hroom hx hy
      exact ⟨hroom, hx, hy⟩
    have hleaks := hadded.leaks (by rw [h.terminalNum, h.display]; exact hne) hfills₁
    rw [h.terminalNum, h.display, h.terminalArr] at hleaks
    exact hleaks

theorem screens (h : SameConsole k k₁) (hready : ScreensReady k) : ScreensReady k₁ where
  mapped := h.mapped hready.mapped
  cursor t := by
    rw [h.terminalArr]
    exact hready.cursor t

end SameConsole

section Flags

variable (k : Kernel)

theorem sameConsole_backFlag : SameConsole k { k with backFlag := true } :=
  ⟨rfl, rfl, rfl, rfl, rfl, rfl⟩

theorem sameConsole_ctrlFlagL : SameConsole k { k with ctrlFlagL := true } :=
  ⟨rfl, rfl, rfl, rfl, rfl, rfl⟩

theorem sameConsole_bufFlag (n : Nat) : SameConsole k { k with bufFlag := n } :=
  ⟨rfl, rfl, rfl, rfl, rfl, rfl⟩

theorem sameConsole_enterFlag (b : Bool) : SameConsole k { k with enterFlag := b } :=
  ⟨rfl, rfl, rfl, rfl, rfl, rfl⟩

theorem sameConsole_resetFlags : SameConsole k (resetFlags k) := ⟨rfl, rfl, rfl, rfl, rfl, rfl⟩

/-- The cursor of `putc`. -/
theorem sameConsole_screen (x y : Nat) : SameConsole k { k with screenX := x, screenY := y } :=
  ⟨rfl, rfl, rfl, rfl, rfl, rfl⟩

theorem sameConsole_setModifiers (scan : Nat) : SameConsole k (setModifiers scan k) := by
  unfold setModifiers
  split_ifs <;> exact ⟨rfl, rfl, rfl, rfl, rfl, rfl⟩

theorem sameConsole_setSwitchFlag (index : Tid) : SameConsole k (setSwitchFlag index k) := by
  fin_cases index <;> exact ⟨rfl, rfl, rfl, rfl, rfl, rfl⟩

end Flags

/-- The modifiers do not matter for the two conditions. -/
theorem CursorSafe.setModifiers {key : Key} {k : Kernel} (h : CursorSafe key k) (scan : Nat) :
    CursorSafe key (setModifiers scan k) := by
  have hsame := sameConsole_setModifiers k scan
  have hentered := (setModifiers_lines scan k).2.2.2
  refine ⟨fun htypes => ?_, fun herases => ?_⟩ <;> rw [hsame.terminalNum, hsame.display]
  · rw [hentered] at htypes
    exact (h.types htypes).imp_right fun hnot hfills => hnot (hsame.fillsScreen hfills)
  · rw [hentered] at herases
    exact (h.erases herases).imp_right fun hnot hhome => hnot (hsame.erasesHome hhome)

theorem setModifiers_screen (scan : Nat) (k : Kernel) :
    (setModifiers scan k).screenX = k.screenX ∧ (setModifiers scan k).screenY = k.screenY := by
  unfold setModifiers
  split_ifs <;> exact ⟨rfl, rfl⟩

theorem Isolating.setModifiers {key : Key} {k : Kernel} (h : Isolating key k) (scan : Nat) :
    Isolating key (setModifiers scan k) := by
  have hsame := sameConsole_setModifiers k scan
  have hentered := (setModifiers_lines scan k).2.2.2
  refine ⟨h.toCursorSafe.setModifiers scan, fun hpresses => ?_, fun hclear => ?_, fun hshow => ?_⟩
  · rw [hentered] at hpresses
    rw [hsame.terminalNum, hsame.display]
    exact (h.presses hpresses).imp_right fun hnot hfills =>
      hnot ⟨hsame.lineOpen hfills.1, hsame.fillsScreen hfills.2⟩
  · rw [hsame.terminalArr, hsame.display]
    exact h.clears hclear
  · rw [(setModifiers_screen scan k).1, (setModifiers_screen scan k).2]
    exact h.shows hshow

/-! ## Printing -/

/-- In the first 4 MB only the VGA page is mapped. -/
def VgaAlone (p : Paging) : Prop :=
  ∀ i, i < numPte → (p.pageTableEntry i).present = true → i = vidMemOffset

theorem vgaAlone_initPaging (p : Paging) : VgaAlone (initPaging p) := by
  intro i hi hpresent
  by_contra hne
  have hentry : (initPaging p).pageTableEntry i =
      Pte.ofVal (BitVec.ofNat 32 (i * addrStartOffset) ||| readWriteBit) :=
    (if_pos hi).trans (if_neg hne)
  rw [hentry] at hpresent
  have hbit : (BitVec.ofNat 32 (i * addrStartOffset)).getLsbD 0 = false := by
    rw [BitVec.getLsbD_ofNat, Nat.testBit_zero, Bool.and_eq_false_iff]
    right
    rw [decide_eq_false_iff_not]
    simp only [addrStartOffset]
    omega
  have hzero : readWriteBit.getLsbD 0 = false := rfl
  rw [Pte.ofVal, BitVec.getLsbD_or, hbit, hzero] at hpresent
  cases hpresent

/-- Any low address that is mapped is in the VGA page. -/
theorem VgaMapped.translate_low {p : Paging} (h : VgaMapped p) (halone : VgaAlone p) {v a : Nat}
    (hv : v < 2 ^ 22) (ht : p.translate v = some a) : videoAddr ≤ a ∧ a < videoAddr + 4096 := by
  have hdir : dirIndex v = 0 := by
    simp only [dirIndex]
    omega
  have hindex : tableIndex v < numPte := by
    simp only [tableIndex, numPte]
    omega
  by_cases hpte : (p.pageTableEntry (tableIndex v)).present = true
  · have hpage := halone _ hindex hpte
    have haddr : v = videoAddr + v % 4096 := by
      simp only [tableIndex, vidMemOffset, videoAddr] at hpage ⊢
      omega
    have hself := h.translate (j := v % 4096) (by omega)
    rw [← haddr, ht] at hself
    cases hself
    omega
  · -- the walk ends at the table
    rw [Bool.not_eq_true] at hpte
    have hnone : p.walk v = none := by
      rw [Paging.walk, X86.walk]
      simp only [hdir, h.present, h.small, h.table, Paging.tables_pageTable, hpte]
      rfl
    rw [Paging.translate, hnone] at ht
    cases ht

/-- A store to a low address stays in the page of the displayed terminal. -/
theorem poke_low {k k' : Kernel} (h : VideoMapped k) (halone : VgaAlone k.paging) {v : Nat}
    {b : UInt8} (hv : v < 2 ^ 22) (hpoke : k.poke v b = some k') :
    OnlyTerminal k.terminalNumDisplay k k' := by
  rw [Kernel.poke, Option.map_eq_some_iff] at hpoke
  obtain ⟨a, ha, rfl⟩ := hpoke
  have hpage := h.vga.translate_low halone hv ha
  refine onlyTerminal_of_phys k _ _ fun a' ha' => ?_
  rw [videoPage_self] at ha'
  rw [Function.update_of_ne (by omega)]

/-- What printing keeps: everything of the other terminals, and the cursor of `putc` in row
`row` at most. -/
structure Prints (row : Nat) (k k' : Kernel) : Prop where
  keeps : Keeps k k'
  only : OnlyTerminal k.terminalNumDisplay k k'
  col : k'.screenX < numCols
  row : k'.screenY ≤ row

theorem Prints.trans {k k₁ k₂ : Kernel} {row row' : Nat} (h : Prints row k k₁)
    (h' : Prints row' k₁ k₂) : Prints row' k k₂ where
  keeps := h.keeps.trans h'.keeps
  only := by
    have honly := h'.only
    rw [h.keeps.display] at honly
    exact h.only.trans honly h.keeps
  col := h'.col
  row := h'.row

theorem putc_spec {k k' : Kernel} (h : VideoMapped k) (halone : VgaAlone k.paging) {c : UInt8}
    {row : Nat} (hx : k.screenX < numCols) (hy : k.screenY ≤ row) (hrow : row ≤ 10000)
    (hputc : putc c k = some k') : Prints (row + 1) k k' := by
  rw [putc] at hputc
  split at hputc
  · cases hputc
    have hsame := sameConsole_screen k 0 (k.screenY + 1)
    exact ⟨hsame.keeps_after (.refl k), hsame.only_after (.refl _ k), show 0 < numCols by decide,
      Nat.succ_le_succ hy⟩
  · rw [Option.bind_eq_bind, Option.bind_eq_some_iff] at hputc
    obtain ⟨k₂, hcell, hk'⟩ := hputc
    cases hk'
    have hframe := pokeCell_frame hcell
    rw [pokeCell, Option.bind_eq_bind, Option.bind_eq_some_iff] at hcell
    obtain ⟨k₁, hchar, hattrib⟩ := hcell
    simp only [numCols] at hx
    -- Both stores go to the page of the displayed screen.
    have honly₁ := poke_low h halone (by simp only [videoAddr, numCols]; omega) hchar
    have hframe₁ := Kernel.poke_frame hchar
    have hkeeps₁ : Keeps k k₁ := by
      rw [hframe₁]
      exact ⟨rfl, rfl, rfl, fun _ => rfl, fun _ he => .inl he⟩
    have halone₁ : VgaAlone k₁.paging := by
      rw [hkeeps₁.paging]
      exact halone
    have honly₂ := poke_low (hkeeps₁.mapped h) halone₁
      (by simp only [videoAddr, numCols]; omega) hattrib
    rw [hkeeps₁.display] at honly₂
    have honly := honly₁.trans honly₂ hkeeps₁
    have hkeeps : Keeps k k₂ := by
      rw [hframe]
      exact ⟨rfl, rfl, rfl, fun _ => rfl, fun _ he => .inl he⟩
    have hX : k₂.screenX = k.screenX := by rw [hframe]
    have hY : k₂.screenY = k.screenY := by rw [hframe]
    refine ⟨(sameConsole_screen k₂ _ _).keeps_after hkeeps,
      (sameConsole_screen k₂ _ _).only_after honly, Nat.mod_lt _ (by decide), ?_⟩
    dsimp only
    rw [hX, hY]
    simp only [numCols, numRows]
    omega

/-- Printing the line. -/
theorem printBuf_spec {k k' : Kernel} (h : VideoMapped k) (halone : VgaAlone k.paging)
    (hx : k.screenX < numCols) (hy : k.screenY ≤ numRows)
    (hline : (k.lines k.terminalNumDisplay).screenBufTop < screenBufSize)
    (hprint : printBuf k = some k') : OnlyTerminal k.terminalNumDisplay k k' := by
  rw [printBuf, Option.bind_eq_bind, Option.bind_eq_some_iff] at hprint
  obtain ⟨k₁, hloop, hbar⟩ := hprint
  have htop : (k.terminalArr k.terminalNumDisplay).screenBufTop < 128 := hline
  have hmapped : ∀ {k₁ row}, Prints row k k₁ → VideoMapped k₁ ∧ VgaAlone k₁.paging := by
    intro k₁ row hbefore
    refine ⟨hbefore.keeps.mapped h, ?_⟩
    rw [hbefore.keeps.paging]
    exact halone
  -- Each character moves the cursor down by one row at most.
  have hlines :
      Prints (numRows + (0 + (k.terminalArr k.terminalNumDisplay).screenBufTop)) k k₁ := by
    refine forRange_of_some (fun i k₁ => Prints (numRows + i) k k₁)
      ⟨.refl k, .refl _ k, hx, hy⟩ (fun i k₁ k₂ _ hi hbefore hputc => ?_) hloop
    obtain ⟨hmapped₁, halone₁⟩ := hmapped hbefore
    have hafter := putc_spec hmapped₁ halone₁ hbefore.col hbefore.row
      (by simp only [numRows]; omega) hputc
    exact hbefore.trans hafter
  obtain ⟨hmapped₁, halone₁⟩ := hmapped hlines
  exact (hlines.trans (putc_spec hmapped₁ halone₁ hlines.col hlines.row
    (by simp only [numRows]; omega) hbar)).only

/-! ## Keys -/

/-- What a key that is not a switch does when no cursor leaves its screen. -/
structure KeyContained (k k' : Kernel) (isolating : Prop) : Prop where
  keeps : Keeps k k'
  cursors : ∀ t, OnScreen (k'.terminalArr t)
  isolated : isolating → OnlyTerminal k.terminalNumDisplay k k'

section Routes

variable {k k' : Kernel} {isolating : Prop}

theorem KeyContained.refl (hcursors : ∀ t, OnScreen (k.terminalArr t)) :
    KeyContained k k isolating :=
  ⟨.refl k, hcursors, fun _ => .refl _ k⟩

/-- The displayed terminal, and the others when nothing of them changes. -/
theorem KeyContained.of_only (hcursors : ∀ t, OnScreen (k.terminalArr t)) (hkeeps : Keeps k k')
    (honly : OnlyTerminal k.terminalNumDisplay k k')
    (hshown : OnScreen (k'.terminalArr k.terminalNumDisplay)) : KeyContained k k' isolating where
  keeps := hkeeps
  cursors t := by
    by_cases ht : t = k.terminalNumDisplay
    · rw [ht]
      exact hshown
    · rw [honly.terminal t ht]
      exact hcursors t
  isolated _ := honly

/-- The flags that are set before. -/
theorem KeyContained.of_same {k₁ : Kernel} (h : SameConsole k k₁)
    (hcontained : KeyContained k₁ k' isolating) : KeyContained k k' isolating where
  keeps := h.keeps hcontained.keeps
  cursors := hcontained.cursors
  isolated hiso := by
    have honly := hcontained.isolated hiso
    rw [h.display] at honly
    exact h.only honly

/-- The flags that are reset at the end. -/
theorem KeyContained.resetFlags {k₁ : Kernel} (h : KeyContained k k₁ isolating) :
    KeyContained k (resetFlags k₁) isolating where
  keeps := (sameConsole_resetFlags k₁).keeps_after h.keeps
  cursors := h.cursors
  isolated hiso := (sameConsole_resetFlags k₁).only_after (h.isolated hiso)

/-- A key that is handed to `enter_press`. -/
theorem KeyContained.of_press {k₁ : Kernel} (h : SameConsole k k₁) (hmapped : VideoMapped k)
    (hcursors : ∀ t, OnScreen (k.terminalArr t))
    (hsafe : isolating → k.terminalNum = k.terminalNumDisplay ∨ ¬ (LineOpen k ∧ FillsScreen k))
    {c : UInt8} (hpress : enterPress c k₁ = some k') : KeyContained k k' isolating := by
  have hcursors₁ : ∀ t, OnScreen (k₁.terminalArr t) := by
    rw [h.terminalArr]
    exact hcursors
  obtain ⟨k₂, hspec, hpressed⟩ := enterPress_spec (h.mapped hmapped)
    (hcursors₁ k₁.terminalNumDisplay) c
  cases hspec.symm.trans hpress
  refine .of_same h ⟨hpressed.keeps, fun t => ?_, fun hiso => hpressed.isolated ?_⟩
  · by_cases ht : t = k₁.terminalNumDisplay
    · rw [ht]
      exact hpressed.shown
    · exact hpressed.others t ht (hcursors₁ t)
  · rw [h.terminalNum, h.display]
    exact (hsafe hiso).imp_right fun hnot hfills =>
      hnot ⟨h.lineOpen hfills.1, h.fillsScreen hfills.2⟩

end Routes

/-- The debugging aid prints a line, and presses enter when `enter_flag` is set. -/
theorem show_contained {k k' : Kernel} (h : VideoMapped k)
    (hcursors : ∀ t, OnScreen (k.terminalArr t)) (halone : VgaAlone k.paging)
    (hline : (k.lines k.terminalNumDisplay).screenBufTop < screenBufSize)
    (hrun : handleKey .show k = some k') : KeyContained k k' (Isolating .show k) := by
  dsimp only [handleKey] at hrun
  rw [Option.bind_eq_bind, Option.bind_eq_some_iff] at hrun
  obtain ⟨k₁, hprint, hrest⟩ := hrun
  have hframe := printBuf_frame hprint
  have hkeeps₁ : Keeps k k₁ := by
    rw [hframe]
    exact ⟨rfl, rfl, rfl, fun _ => rfl, fun _ he => .inl he⟩
  have honly₁ : Isolating .show k → OnlyTerminal k.terminalNumDisplay k k₁ := fun hiso =>
    printBuf_spec h halone (hiso.shows rfl).1 (hiso.shows rfl).2 hline hprint
  have hcursors₁ : ∀ t, OnScreen (k₁.terminalArr t) := by
    rw [hframe]
    exact hcursors
  split at hrest
  case isTrue hentered =>
    rw [hframe] at hentered
    have hsafe₁ : Isolating .show k →
        k₁.terminalNum = k₁.terminalNumDisplay ∨ ¬ (LineOpen k₁ ∧ FillsScreen k₁) := by
      intro hiso
      rw [hkeeps₁.terminalNum, hkeeps₁.display]
      refine (hiso.presses hentered).imp_right fun hnot hfills => hnot ?_
      -- Printing changes neither the line nor the cursor.
      rw [hframe] at hfills
      exact ⟨hfills.1, hfills.2.1, hfills.2.2, hfills.2.3⟩
    have hpress := KeyContained.of_press (sameConsole_refl k₁) (hkeeps₁.mapped h)
      hcursors₁ hsafe₁ hrest
    refine ⟨hkeeps₁.trans hpress.keeps, hpress.cursors, fun hiso => ?_⟩
    have honly := hpress.isolated hiso
    rw [hkeeps₁.display] at honly
    exact (honly₁ hiso).trans honly hkeeps₁
  case isFalse =>
    cases hrest
    exact ⟨hkeeps₁, hcursors₁, honly₁⟩

/-- **A key that is not a switch** keeps the cursors on the screens when it is safe, and concerns
the displayed terminal only when it is isolating. -/
theorem handleKey_contained {key : Key} {k k' : Kernel} (h : VideoMapped k)
    (hcursors : ∀ t, OnScreen (k.terminalArr t)) (halone : VgaAlone k.paging)
    (hline : (k.lines k.terminalNumDisplay).screenBufTop < screenBufSize)
    (hkey : ∀ index, key ≠ .switch index) (hsafe : CursorSafe key k)
    (hrun : handleKey key k = some k') : KeyContained k k' (Isolating key k) := by
  have hshown := hcursors k.terminalNumDisplay
  cases key with
  | idle =>
      dsimp only [handleKey] at hrun
      split at hrun
      case isTrue hentered =>
        exact .of_press (sameConsole_refl k) h hcursors
          (fun hiso => hiso.presses hentered) hrun
      case isFalse =>
        cases hrun
        exact .refl hcursors
  | erase =>
      have hsame := sameConsole_backFlag k
      dsimp only [handleKey] at hrun
      split at hrun
      case isTrue hentered =>
        exact .of_press hsame h hcursors (fun hiso => hiso.presses hentered) hrun
      case isFalse hclear =>
        have herases : Key.erase.erases k.enterFlag = true := by
          rw [Key.erases, Bool.eq_false_iff.mpr hclear]
          rfl
        obtain ⟨k₁, hspec, hstays⟩ := erase_spec (hsame.mapped h) hshown
          ((hsafe.erases herases).imp_right fun hnot hhome => hnot (hsame.erasesHome hhome))
        cases hspec.symm.trans hrun
        exact .of_same hsame (.of_only hcursors hstays.keeps hstays.only hstays.shown)
  | switch index => exact absurd rfl (hkey index)
  | clear =>
      have hsame := sameConsole_ctrlFlagL k
      obtain ⟨k₁, hspec, hkeeps, hzero, honly⟩ := clearScreen_spec (hsame.mapped h)
      cases hspec.symm.trans hrun
      refine .of_same hsame ⟨hkeeps, fun t => ?_, fun hiso => honly (hiso.clears rfl)⟩
      rw [OnScreen.iff, (hzero t).1, (hzero t).2]
      decide
  | «show» => exact show_contained h hcursors halone hline hrun
  | enter =>
      have hsame := sameConsole_enterFlag k true
      exact .of_press hsame h hcursors (fun hiso => hiso.presses rfl) hrun
  | char ascii =>
      have hsame := sameConsole_bufFlag k 3
      dsimp only [handleKey] at hrun
      split at hrun
      case isTrue hentered =>
        exact .of_press hsame h hcursors (fun hiso => hiso.presses hentered) hrun
      case isFalse hclear =>
        split at hrun
        case isTrue hascii =>
          have htypes : (Key.char ascii).types k.enterFlag = true := by
            rw [Key.types, Bool.eq_false_iff.mpr hclear]
            simpa using hascii
          obtain ⟨k₁, hspec, hadded⟩ := add2buf_spec (hsame.mapped h) hshown ascii
          cases hspec.symm.trans hrun
          obtain ⟨honly, hshown'⟩ := hadded.isolated ((hsafe.types htypes).imp_right
            fun hnot hfills => hnot (hsame.fillsScreen hfills))
          exact .of_same hsame (.of_only hcursors hadded.keeps honly hshown')
        case isFalse =>
          cases hrun
          exact .of_same hsame (.refl hcursors)

/-- **No key faults** but perhaps the debugging aid. -/
theorem handleKey_total {key : Key} {k : Kernel} (h : ScreensReady k) (hsafe : CursorSafe key k)
    (hshow : key ≠ .show) : ∃ k', handleKey key k = some k' := by
  -- Four of the routes go to `enter_press`.
  have hpress : ∀ {k₁}, SameConsole k k₁ → ∀ c, ∃ k', enterPress c k₁ = some k' := by
    intro k₁ hsame c
    have hready := hsame.screens h
    obtain ⟨k', hspec, -⟩ := enterPress_spec hready.mapped (hready.cursor _) c
    exact ⟨k', hspec⟩
  cases key with
  | idle =>
      dsimp only [handleKey]
      split
      · exact hpress (sameConsole_refl k) 0
      · exact ⟨k, rfl⟩
  | erase =>
      have hsame := sameConsole_backFlag k
      dsimp only [handleKey]
      split
      case isTrue => exact hpress hsame _
      case isFalse hclear =>
        have herases : Key.erase.erases k.enterFlag = true := by
          rw [Key.erases, Bool.eq_false_iff.mpr hclear]
          rfl
        obtain ⟨k', hspec, -⟩ := erase_spec (hsame.mapped h.mapped) (h.cursor _)
          ((hsafe.erases herases).imp_right fun hnot hhome => hnot (hsame.erasesHome hhome))
        exact ⟨k', hspec⟩
  | switch index =>
      have hready := (sameConsole_setSwitchFlag k index).screens h
      obtain ⟨k', hspec, -⟩ := hready.swap hready.shows_logicalScreens index
      exact ⟨k', hspec⟩
  | clear =>
      have hsame := sameConsole_ctrlFlagL k
      obtain ⟨k', hspec, -⟩ := clearScreen_spec (hsame.mapped h.mapped)
      exact ⟨k', hspec⟩
  | «show» => exact absurd rfl hshow
  | enter =>
      have hsame := sameConsole_enterFlag k true
      exact hpress hsame _
  | char ascii =>
      have hsame := sameConsole_bufFlag k 3
      dsimp only [handleKey]
      split
      case isTrue => exact hpress hsame ascii
      case isFalse =>
        split
        case isTrue =>
          obtain ⟨k', hspec, -⟩ := add2buf_spec (hsame.mapped h.mapped) (h.cursor _) ascii
          exact ⟨k', hspec⟩
        case isFalse => exact ⟨_, rfl⟩

end JuddOS
