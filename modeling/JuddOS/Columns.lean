import JuddOS.KeyIsolation
import JuddOS.Machine

/-!
# The columns of the cursors

A key or a write may leave the cursor of a hidden terminal below its screen, but never beside it:
in every reachable state each cursor is in one of the 80 columns (`InColumns`).

That is enough for typing.  While the displayed terminal is scheduled, `scroll_up` puts a row below
the screen right before anything is stored, and no key that types can fault (`TypingReady.key`).
-/

namespace JuddOS

open Support

/-- Every cursor is in a column of its screen. -/
def InColumns (k : Kernel) : Prop := ∀ t, (k.terminalArr t).cursorX < numCols

namespace InColumns

variable {k k' : Kernel}

/-- An assignment to a terminal. -/
theorem setTerminal (h : InColumns k) (t : Tid) {f : Terminal → Terminal}
    (hf : (f (k.terminalArr t)).cursorX < numCols) : InColumns (k.setTerminal t f) := by
  intro u
  by_cases hu : u = t
  · rw [hu, Kernel.setTerminal_self]
    exact hf
  · rw [Kernel.setTerminal_of_ne k f hu]
    exact h u

theorem scrollUp (h : InColumns k) (hrun : scrollUp k = some k') : InColumns k' := by
  obtain ⟨phys, rfl⟩ := scrollUp_frame hrun
  have hphys : InColumns { k with phys := phys } := h
  exact hphys.setTerminal _ (show 0 < numCols by decide)

theorem updateCursor (h : InColumns k) {x y : Nat} (hrun : updateCursor x y k = some k') :
    InColumns k' := by
  unfold JuddOS.updateCursor at hrun
  generalize (if x ≥ numCols then (0, y + 1) else (x, y)) = position at hrun
  dsimp only at hrun
  split at hrun
  · rw [Option.bind_eq_bind, Option.bind_eq_some_iff] at hrun
    obtain ⟨p, hmap, hk'⟩ := hrun
    rw [Option.map_eq_some_iff] at hmap
    obtain ⟨k₁, hup, rfl⟩ := hmap
    cases hk'
    have hscrolled := h.scrollUp hup
    exact hscrolled
  · cases hrun
    exact h

theorem storeChar (h : InColumns k) {t : Tid} {c : UInt8} (hrun : storeChar t c k = some k') :
    InColumns k' := by
  unfold JuddOS.storeChar at hrun
  rw [pokeCell_frame hrun]
  exact h

theorem putcAddr (h : InColumns k) {c : UInt8} (hrun : putcAddr c k = some k') :
    InColumns k' := by
  unfold JuddOS.putcAddr at hrun
  split at hrun
  · cases hrun
    exact h
  · dsimp only at hrun
    rw [if_neg (Nat.ne_of_lt (h _))] at hrun
    split at hrun
    · rw [Option.bind_eq_bind, Option.bind_eq_some_iff] at hrun
      obtain ⟨k₁, hscroll, hstore⟩ := hrun
      exact (h.scrollUp hscroll).storeChar hstore
    · exact h.storeChar hrun

theorem add2buf (h : InColumns k) {c : UInt8} (hrun : add2buf c k = some k') :
    InColumns k' := by
  rw [JuddOS.add2buf] at hrun
  dsimp only at hrun
  split at hrun
  case isFalse =>
    cases hrun
    exact h
  case isTrue =>
    rw [Option.bind_eq_bind, Option.bind_eq_some_iff] at hrun
    obtain ⟨k₁, hput, hmove⟩ := hrun
    have hadded := (h.putcAddr hput).setTerminal k.terminalNumDisplay (f := appendToLine c)
      (h.putcAddr hput _)
    generalize k₁.setTerminal k.terminalNumDisplay (appendToLine c) = k₂ at hadded hmove
    split at hmove
    case isTrue hlt =>
      exact (hadded.setTerminal k.terminalNumDisplay
        (f := fun t => { t with cursorX := t.cursorX + 1 })
        (Nat.add_lt_of_lt_sub hlt)).updateCursor hmove
    case isFalse =>
      exact (hadded.setTerminal k.terminalNumDisplay
        (f := fun t => { t with cursorX := 0, cursorY := (t.cursorY + 1) % 256 })
        (show 0 < numCols by decide)).updateCursor hmove

theorem enterPress (h : InColumns k) {c : UInt8} (hrun : enterPress c k = some k') :
    InColumns k' := by
  rw [JuddOS.enterPress] at hrun
  dsimp only at hrun
  split at hrun
  case isFalse =>
    cases hrun
    exact h
  case isTrue =>
    rw [Option.bind_eq_bind, Option.bind_eq_some_iff] at hrun
    obtain ⟨k₁, hadd, hrest⟩ := hrun
    have hmoved := (h.add2buf hadd).setTerminal k.terminalNumDisplay
      (f := fun t => { t with cursorX := 0, cursorY := (t.cursorY + 1) % 256 })
      (show 0 < numCols by decide)
    generalize (k₁.setTerminal k.terminalNumDisplay fun t =>
      { t with cursorX := 0, cursorY := (t.cursorY + 1) % 256 }) = k₂ at hmoved hrest
    split at hrest
    · rw [Option.bind_eq_some_iff] at hrest
      obtain ⟨k₃, hscroll, hk'⟩ := hrest
      cases hk'
      have hscrolled : InColumns k₃ := by
        rw [scrollCells_frame hscroll]
        exact hmoved
      exact hscrolled.setTerminal _ (hscrolled _)
    · cases hrest
      exact hmoved

theorem deleteCharFromBuf (h : InColumns k) (hrun : deleteCharFromBuf k = some k') :
    InColumns k' := by
  rw [JuddOS.deleteCharFromBuf] at hrun
  dsimp only at hrun
  split at hrun
  case isFalse =>
    cases hrun
    exact h
  case isTrue =>
    have hdropped := h.setTerminal k.terminalNumDisplay (f := dropFromLine) (h _)
    generalize k.setTerminal k.terminalNumDisplay dropFromLine = k₁ at hdropped hrun
    split at hrun
    · exact (hdropped.setTerminal k.terminalNumDisplay
        (f := fun t => { t with cursorX := t.cursorX - 1 })
        (Nat.lt_of_le_of_lt (Nat.sub_le _ _) (hdropped _))).updateCursor hrun
    · exact (hdropped.setTerminal k.terminalNumDisplay
        (f := fun t => { t with cursorX := numCols - 1, cursorY := (t.cursorY + 255) % 256 })
        (show numCols - 1 < numCols by decide)).updateCursor hrun

theorem initCursor (hrun : initCursor k = some k') : InColumns k' := by
  rw [initCursor_eq] at hrun
  cases hrun
  exact fun _ => show 0 < numCols by decide

theorem swapTerminal (h : InColumns k) {index : Tid} (hrun : swapTerminal index k = some k') :
    InColumns k' := by
  rw [JuddOS.swapTerminal] at hrun
  split at hrun
  · cases hrun
    exact h
  · simp only [Option.bind_eq_bind, Option.bind_eq_some_iff] at hrun
    obtain ⟨temp, -, shown, -, k₁, hold, k₂, hnew, hcursor⟩ := hrun
    have hframe := (Kernel.pokeRange_frame hnew).trans
      (congrArg (fun k₁ : Kernel => { k₁ with phys := k₂.phys }) (Kernel.pokeRange_frame hold))
    rw [hframe] at hcursor
    have hsame : InColumns { k with
        paging := JuddOS.setUpVirtualToVideo (fun t => (k.terminalArr t).vidmemAddr) index k.paging
        phys := k₂.phys
        terminalNumDisplay := index } := h
    exact hsame.updateCursor hcursor

/-- A key. -/
theorem handleKey (h : InColumns k) {key : Key} (hrun : handleKey key k = some k') :
    InColumns k' := by
  cases key with
  | idle =>
      dsimp only [JuddOS.handleKey] at hrun
      split at hrun
      · exact h.enterPress hrun
      · cases hrun
        exact h
  | erase =>
      have hflag : InColumns { k with backFlag := true } := h
      dsimp only [JuddOS.handleKey] at hrun
      split at hrun
      · exact hflag.enterPress hrun
      · rw [Option.bind_eq_some_iff] at hrun
        obtain ⟨k₁, hbuf, hscreen⟩ := hrun
        exact (hflag.deleteCharFromBuf hbuf).putcAddr hscreen
  | switch index =>
      have hflag : InColumns (setSwitchFlag index k) := by
        fin_cases index <;> exact h
      exact hflag.swapTerminal hrun
  | clear =>
      dsimp only [JuddOS.handleKey] at hrun
      rw [Option.bind_eq_some_iff] at hrun
      obtain ⟨k₁, -, hcursor⟩ := hrun
      exact initCursor hcursor
  | «show» =>
      dsimp only [JuddOS.handleKey] at hrun
      rw [Option.bind_eq_bind, Option.bind_eq_some_iff] at hrun
      obtain ⟨k₁, hprint, hrest⟩ := hrun
      have hprinted : InColumns k₁ := by
        rw [printBuf_frame hprint]
        exact h
      split at hrest
      · exact hprinted.enterPress hrest
      · cases hrest
        exact hprinted
  | enter =>
      have hflag : InColumns { k with enterFlag := true } := h
      exact hflag.enterPress hrun
  | char ascii =>
      have hflag : InColumns { k with bufFlag := 3 } := h
      dsimp only [JuddOS.handleKey] at hrun
      split at hrun
      · exact hflag.enterPress hrun
      · split at hrun
        · exact hflag.add2buf hrun
        · cases hrun
          exact hflag

theorem keyboardHandlerMain (h : InColumns k) (hkeys : NoKeyPending k) {scan : UInt8}
    {past : UInt32} (hrun : keyboardHandlerMain scan past k = some k') : InColumns k' := by
  rw [keyboardHandlerMain_eq scan past hkeys, Option.map_eq_some_iff] at hrun
  obtain ⟨k₁, hkey, rfl⟩ := hrun
  have hmod : InColumns (setModifiers scan.toNat k) := by
    intro t
    rw [(sameConsole_setModifiers k scan.toNat).terminalArr]
    exact h t
  have hhandled := hmod.handleKey hkey
  exact hhandled

/-! ## `terminal_write` -/

theorem scrollAtEnd (h : InColumns k) (hrun : scrollAtEnd k = some k') : InColumns k' := by
  unfold JuddOS.scrollAtEnd at hrun
  split at hrun
  · exact h.scrollUp hrun
  · cases hrun
    exact h

/-- The test at the end of the loop body puts the column of the scheduled terminal right. -/
theorem clampCursor (h : ∀ t, t ≠ k.terminalNum → (k.terminalArr t).cursorX < numCols) :
    InColumns (clampCursor k) := by
  have hwrapped : InColumns (if (k.terminalArr k.terminalNum).cursorX ≥ numCols then
      k.setTerminal k.terminalNum fun t =>
        { t with cursorX := 0, cursorY := (t.cursorY + 1) % 256 } else k) := by
    intro u
    split
    case isTrue =>
      by_cases hu : u = k.terminalNum
      · rw [hu, Kernel.setTerminal_self]
        exact show 0 < numCols by decide
      · rw [Kernel.setTerminal_of_ne k _ hu]
        exact h u hu
    case isFalse hinside =>
      by_cases hu : u = k.terminalNum
      · rw [hu]
        exact Nat.lt_of_not_le hinside
      · exact h u hu
  unfold JuddOS.clampCursor
  dsimp only
  generalize (if (k.terminalArr k.terminalNum).cursorX ≥ numCols then _ else k) = k₁ at hwrapped
  split
  · exact hwrapped.setTerminal _ (hwrapped _)
  · exact hwrapped

theorem writeChar (h : InColumns k) {c : UInt8} (hrun : writeChar c k = some k') :
    InColumns k' := by
  have hwrap : wrapRow k = some k := if_neg (Nat.ne_of_lt (h _))
  rw [writeChar_eq, hwrap, Option.bind_some, Option.map_eq_some_iff] at hrun
  obtain ⟨k₁, hglyph, rfl⟩ := hrun
  refine clampCursor fun t ht => ?_
  unfold writeGlyph at hglyph
  split at hglyph
  · have hmoved := h.setTerminal k.terminalNum
      (f := fun t => { t with cursorY := (t.cursorY + 1) % 256, cursorX := 0 })
      (show 0 < numCols by decide)
    exact hmoved.scrollAtEnd hglyph t
  · rw [Option.map_eq_some_iff] at hglyph
    obtain ⟨k₂, hstore, rfl⟩ := hglyph
    have hstored := h.storeChar hstore
    have hother : t ≠ k₂.terminalNum := ht
    rw [Kernel.setTerminal_of_ne k₂ _ hother]
    exact hstored t

theorem terminalWrite (h : InColumns k) {buf : Option Buf} {nbytes v : Int32}
    (hrun : terminalWrite buf nbytes k = some (v, k')) : InColumns k' := by
  unfold JuddOS.terminalWrite at hrun
  cases buf with
  | none =>
      cases hrun
      exact h
  | some bytes =>
      dsimp only at hrun
      split at hrun
      · cases hrun
        exact h
      · rw [Option.bind_eq_bind, Option.bind_eq_some_iff] at hrun
        obtain ⟨k₁, hloop, hrest⟩ := hrun
        have hlooped : InColumns k₁ :=
          forRange_preserves InColumns (fun _ _ _ hk hchar => hk.writeChar hchar) h hloop
        split at hrest
        · rw [Option.bind_eq_some_iff] at hrest
          obtain ⟨k₂, hcursor, hk'⟩ := hrest
          cases hk'
          exact hlooped.updateCursor hcursor
        · cases hrest
          exact hlooped

/-! ## `terminal_read` -/

theorem plantReturn (h : InColumns k) : InColumns (plantReturn k) := by
  unfold JuddOS.plantReturn
  apply h.setTerminal
  exact h _

theorem takeLine (h : InColumns k) (buf : Buf) (nbytes : Int32) :
    InColumns (takeLine buf nbytes k).2 := by
  have hwoken : InColumns { k with enterFlag := false } := h
  have hcleared : InColumns (clearbuf { k with enterFlag := false }) := by
    unfold clearbuf
    apply hwoken.setTerminal
    exact hwoken _
  exact hcleared

end InColumns

/-! ## Every reachable state -/

theorem inColumns_boot (m : PowerOn) : InColumns (bootKernel m) := by
  intro t
  rw [(booted_bootKernel m).terminalArr]
  exact show 0 < numCols by decide

theorem MachineReady.columns_step {fs : Image} {s s' : ProcState} {e : MachineEvent}
    (hready : MachineReady s) (h : InColumns s.kernel) (hstep : s.machineStep fs e = some s') :
    InColumns s'.kernel := by
  cases machineStep_done hstep with
  | proc hstep =>
      intro t
      have hcursor := (ProcState.step_spares hstep).cursor t
      have hx : (s'.kernel.terminalArr t).cursorX = (s.kernel.terminalArr t).cursorX :=
        congrArg Prod.fst hcursor
      rw [hx]
      exact h t
  | key hrun => exact h.keyboardHandlerMain hready.keys hrun
  | write hrun => exact h.terminalWrite hrun
  | plantReturn => exact h.plantReturn
  | takeLine buf nbytes => exact h.takeLine buf nbytes
  | vidmap | store => exact h

/-- **The cursors are in their columns** in every reachable state. -/
theorem inColumns_of_run {fs : Image} {m : PowerOn} {es : List MachineEvent} {s : ProcState}
    (hrun : ProcState.MachineSteps fs (.boot m) es s) : MachineReady s ∧ InColumns s.kernel :=
  hrun.invariant (fun s => MachineReady s ∧ InColumns s.kernel)
    ⟨machineReady_boot m, inColumns_boot m⟩ fun _ _ _ h hstep =>
      ⟨h.1.step hstep, h.1.columns_step h.2 hstep⟩

/-! ## Keys that type -/

/-- `putc_addr` while the displayed terminal is scheduled. -/
theorem putcAddr_total {k : Kernel} (h : VideoMapped k) (hcolumns : InColumns k)
    (hnum : k.terminalNum = k.terminalNumDisplay) (c : UInt8) :
    ∃ k', putcAddr c k = some k' ∧ Keeps k k' := by
  have hx := hcolumns k.terminalNumDisplay
  by_cases hy : (k.terminalArr k.terminalNumDisplay).cursorY < numRows
  · obtain ⟨k', hput, hkeeps, -⟩ := putcAddr_spec h ⟨hx, hy⟩ c
    exact ⟨k', hput, hkeeps⟩
  · -- a row below the screen is scrolled away before the character is stored
    obtain ⟨k₁, hscroll, hkeeps₁, -, hself⟩ := scrollUp_spec h
    have hshown : OnScreen (k₁.terminalArr k.terminalNumDisplay) := by
      rw [← hnum, hself]
      exact ⟨show 0 < numCols by decide, show numRows - 1 < numRows by decide⟩
    obtain ⟨k', hstore, hkeeps, -⟩ := storeChar_spec (hkeeps₁.mapped h) hshown c
    unfold putcAddr
    by_cases hc : c = chNewline ∨ c = chReturn
    · exact ⟨k, if_pos hc, .refl k⟩
    · refine ⟨k', ?_, hkeeps₁.trans hkeeps⟩
      rw [if_neg hc]
      dsimp only
      rw [if_neg (Nat.ne_of_lt hx), if_pos (Nat.not_lt.mp hy), hscroll]
      exact hstore

/-- The cursor of a terminal is moved within the columns. -/
theorem moveCursor_total {k : Kernel} (h : VideoMapped k) (t : Tid) {f : Terminal → Terminal}
    (hf : ∀ t, (f t).vidmemAddr = t.vidmemAddr) (hx : (f (k.terminalArr t)).cursorX < numCols) :
    ∃ k', updateCursorOf t (k.setTerminal t f) = some k' ∧ Keeps k k' := by
  obtain ⟨k', hupdate, hmoved⟩ := moveCursor_spec h t hx hf rfl rfl
  exact ⟨k', hupdate, hmoved.keeps⟩

theorem add2buf_total {k : Kernel} (h : VideoMapped k) (hcolumns : InColumns k)
    (hnum : k.terminalNum = k.terminalNumDisplay) (c : UInt8) :
    ∃ k', add2buf c k = some k' ∧ Keeps k k' := by
  rw [add2buf]
  dsimp only
  split
  case isFalse => exact ⟨k, rfl, .refl k⟩
  case isTrue =>
    obtain ⟨k₁, hput, hkeeps₁⟩ := putcAddr_total h hcolumns hnum c
    have hkeeps₂ := hkeeps₁.trans
      (keeps_setTerminal k₁ k.terminalNumDisplay (f := appendToLine c) fun _ => rfl)
    rw [hput, Option.bind_eq_bind, Option.bind_some]
    generalize k₁.setTerminal k.terminalNumDisplay (appendToLine c) = k₂ at hkeeps₂
    split
    case isTrue hlt =>
      obtain ⟨k', hmove, hkeeps⟩ := moveCursor_total (hkeeps₂.mapped h) k.terminalNumDisplay
        (f := fun t => { t with cursorX := t.cursorX + 1 }) (fun _ => rfl)
        (Nat.add_lt_of_lt_sub hlt)
      exact ⟨k', hmove, hkeeps₂.trans hkeeps⟩
    case isFalse =>
      obtain ⟨k', hmove, hkeeps⟩ := moveCursor_total (hkeeps₂.mapped h) k.terminalNumDisplay
        (f := fun t => { t with cursorX := 0, cursorY := (t.cursorY + 1) % 256 }) (fun _ => rfl)
        (show 0 < numCols by decide)
      exact ⟨k', hmove, hkeeps₂.trans hkeeps⟩

theorem enterPress_total {k : Kernel} (h : VideoMapped k) (hcolumns : InColumns k)
    (hnum : k.terminalNum = k.terminalNumDisplay) (c : UInt8) :
    ∃ k', enterPress c k = some k' ∧ Keeps k k' := by
  rw [enterPress]
  dsimp only
  split
  case isFalse => exact ⟨k, rfl, .refl k⟩
  case isTrue =>
    obtain ⟨k₁, hadd, hkeeps₁⟩ := add2buf_total h hcolumns hnum c
    have hkeeps₂ := hkeeps₁.trans (keeps_setTerminal k₁ k.terminalNumDisplay
      (f := fun t => { t with cursorX := 0, cursorY := (t.cursorY + 1) % 256 }) fun _ => rfl)
    rw [hadd, Option.bind_eq_bind, Option.bind_some]
    generalize (k₁.setTerminal k.terminalNumDisplay fun t =>
      { t with cursorX := 0, cursorY := (t.cursorY + 1) % 256 }) = k₂ at hkeeps₂
    split
    · obtain ⟨k₃, hscroll, hkeeps₃, -⟩ := scrollVideo_spec (hkeeps₂.mapped h)
      have hkeeps := keeps_setTerminal k₃ k.terminalNumDisplay
        (f := fun t => { t with cursorY := numRows - 1 }) fun _ => rfl
      rw [hscroll]
      exact ⟨_, rfl, (hkeeps₂.trans hkeeps₃).trans hkeeps⟩
    · exact ⟨k₂, rfl, hkeeps₂⟩

theorem erase_total {k : Kernel} (h : VideoMapped k) (hcolumns : InColumns k)
    (hnum : k.terminalNum = k.terminalNumDisplay) :
    ∃ k', (deleteCharFromBuf k).bind deleteCharFromScreen = some k' ∧ Keeps k k' := by
  have hdelete : ∃ k₁, deleteCharFromBuf k = some k₁ ∧ Keeps k k₁ := by
    rw [deleteCharFromBuf]
    dsimp only
    split
    case isFalse => exact ⟨k, rfl, .refl k⟩
    case isTrue =>
      have hkeeps₁ := keeps_setTerminal k k.terminalNumDisplay (f := dropFromLine) fun _ => rfl
      have hcolumns₁ := hcolumns.setTerminal k.terminalNumDisplay (f := dropFromLine)
        (hcolumns _)
      generalize k.setTerminal k.terminalNumDisplay dropFromLine = k₁ at hkeeps₁ hcolumns₁
      split
      · obtain ⟨k', hmove, hkeeps⟩ := moveCursor_total (hkeeps₁.mapped h) k.terminalNumDisplay
          (f := fun t => { t with cursorX := t.cursorX - 1 }) (fun _ => rfl)
          (Nat.lt_of_le_of_lt (Nat.sub_le _ _) (hcolumns₁ _))
        exact ⟨k', hmove, hkeeps₁.trans hkeeps⟩
      · obtain ⟨k', hmove, hkeeps⟩ := moveCursor_total (hkeeps₁.mapped h) k.terminalNumDisplay
          (f := fun t => { t with cursorX := numCols - 1, cursorY := (t.cursorY + 255) % 256 })
          (fun _ => rfl) (show numCols - 1 < numCols by decide)
        exact ⟨k', hmove, hkeeps₁.trans hkeeps⟩
  obtain ⟨k₁, hrun, hkeeps⟩ := hdelete
  have hnum₁ : k₁.terminalNum = k₁.terminalNumDisplay := by
    rw [hkeeps.terminalNum, hkeeps.display, hnum]
  obtain ⟨k', hput, hkeeps'⟩ := putcAddr_total (hkeeps.mapped h)
    (hcolumns.deleteCharFromBuf hrun) hnum₁ 0
  rw [hrun]
  exact ⟨k', hput, hkeeps.trans hkeeps'⟩

/-- The keys of a line of text; idle scan codes come with the modifiers. -/
def Key.Typing : Key → Prop
  | .idle | .erase | .enter => True
  | .char ascii => 0x20 ≤ ascii ∧ ascii ≤ 0x7e
  | .switch _ | .clear | .show => False

instance (key : Key) : Decidable key.Typing := by
  cases key <;> unfold Key.Typing <;> infer_instance

/-- A kernel whose displayed terminal is scheduled, and can be typed on. -/
structure TypingReady (k : Kernel) : Prop where
  mapped : VideoMapped k
  columns : InColumns k
  keys : NoKeyPending k
  shown : k.terminalNum = k.terminalNumDisplay

namespace TypingReady

variable {k k' : Kernel}

/-- After a function that keeps the pages and the terminal numbers. -/
theorem of_keeps (h : TypingReady k) (hkeeps : Keeps k k') (hcolumns : InColumns k')
    (hkeys : NoKeyPending k') : TypingReady k' where
  mapped := hkeeps.mapped h.mapped
  columns := hcolumns
  keys := hkeys
  shown := by
    rw [hkeeps.terminalNum, hkeeps.display, h.shown]

theorem plantReturn (h : TypingReady k) : TypingReady (plantReturn k) := by
  have hkeys := h.keys
  refine h.of_keeps ?_ h.columns.plantReturn ⟨hkeys.1, hkeys.2, hkeys.3, hkeys.4, hkeys.5, hkeys.6⟩
  exact keeps_setTerminal k k.terminalNumDisplay fun _ => rfl

/-- What the handler does for a key that types or clears the screen. -/
theorem handleKey_total (h : TypingReady k) {key : Key} (hkey : key.Typing ∨ key = .clear) :
    ∃ k', handleKey key k = some k' ∧ Keeps k k' := by
  obtain ⟨hmapped, hcolumns, -, hnum⟩ := h
  cases key with
  | idle =>
      dsimp only [handleKey]
      split
      · exact enterPress_total hmapped hcolumns hnum 0
      · exact ⟨k, rfl, .refl k⟩
  | erase =>
      have hflag := sameConsole_backFlag k
      have hcolumns₁ : InColumns { k with backFlag := true } := hcolumns
      dsimp only [handleKey]
      split
      · obtain ⟨k', hrun, hkeeps⟩ := enterPress_total (hflag.mapped hmapped) hcolumns₁ hnum
          keyBackspace.toUInt8
        exact ⟨k', hrun, hflag.keeps hkeeps⟩
      · obtain ⟨k', hrun, hkeeps⟩ := erase_total (hflag.mapped hmapped) hcolumns₁ hnum
        exact ⟨k', hrun, hflag.keeps hkeeps⟩
  | enter =>
      have hflag := sameConsole_enterFlag k true
      have hcolumns₁ : InColumns { k with enterFlag := true } := hcolumns
      obtain ⟨k', hrun, hkeeps⟩ := enterPress_total (hflag.mapped hmapped) hcolumns₁ hnum
        keyReturn.toUInt8
      exact ⟨k', hrun, hflag.keeps hkeeps⟩
  | char ascii =>
      have hflag := sameConsole_bufFlag k 3
      have hcolumns₁ : InColumns { k with bufFlag := 3 } := hcolumns
      dsimp only [handleKey]
      split
      · obtain ⟨k', hrun, hkeeps⟩ := enterPress_total (hflag.mapped hmapped) hcolumns₁ hnum ascii
        exact ⟨k', hrun, hflag.keeps hkeeps⟩
      · split
        · obtain ⟨k', hrun, hkeeps⟩ := add2buf_total (hflag.mapped hmapped) hcolumns₁ hnum ascii
          exact ⟨k', hrun, hflag.keeps hkeeps⟩
        · exact ⟨_, rfl, hflag.keeps (.refl _)⟩
  | clear =>
      have hflag := sameConsole_ctrlFlagL k
      obtain ⟨k', hrun, hkeeps, -⟩ := clearScreen_spec (hflag.mapped hmapped)
      exact ⟨k', hrun, hflag.keeps hkeeps⟩
  | switch index => exact absurd hkey (by simp [Key.Typing])
  | «show» => exact absurd hkey (by simp [Key.Typing])

/-- **Typing never faults** on a terminal that is both scheduled and displayed. -/
theorem key (h : TypingReady k) {scan : UInt8} {past : UInt32}
    (hkey : (keyOf scan past k).Typing ∨ keyOf scan past k = .clear) :
    ∃ k', keyboardHandlerMain scan past k = some k' ∧ TypingReady k' := by
  have hsame := sameConsole_setModifiers k scan.toNat
  have hkeeps₁ := hsame.keeps (.refl _)
  have hcolumns₁ : InColumns (setModifiers scan.toNat k) := by
    intro t
    rw [hsame.terminalArr]
    exact h.columns t
  have hready₁ := h.of_keeps hkeeps₁ hcolumns₁ (h.keys.setModifiers scan.toNat)
  obtain ⟨k₁, hrun, hkeeps⟩ := hready₁.handleKey_total hkey
  have hhandler : keyboardHandlerMain scan past k = some (resetFlags k₁) := by
    rw [keyboardHandlerMain_eq scan past h.keys, hrun, Option.map_some]
  have hreset := (sameConsole_resetFlags k₁).keeps_after (hkeeps₁.trans hkeeps)
  exact ⟨_, hhandler, h.of_keeps hreset (h.columns.keyboardHandlerMain h.keys hhandler)
    (noKeyPending_resetFlags k₁)⟩

end TypingReady

end JuddOS
