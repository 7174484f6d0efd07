import JuddOS.CursorMoves
import JuddOS.Machine
import JuddOS.ProcessTable
import JuddOS.Sessions

/-!
# The hardware cursor

`update_cursor` writes the position to the VGA controller, but `enter_press` moves the cursor of the
displayed terminal after its last call of it, and below or above the screen `update_cursor` writes
another row than the one that the terminal keeps.

* `KeyTracks` is the condition on a key, and `keyboardHandlerMain_inSync_iff` says that it is exact.
* `terminal_write`, a switch of the terminal and control-L leave the two in step.
* `inSync_iff_of_run`: in a run of the machine the controller has the position of the displayed
  cursor after every event exactly when every key meets the condition.
-/

namespace JuddOS

open Support

/-- What `enter_press` adds to the line leaves the cursor where the controller was told: the
character or the full line ends in front of the last row. -/
def PressTracks (k : Kernel) : Prop :=
  if k.shown.screenBufTop < screenBufSize - 1 then
    k.shown.cursorX = numCols - 1 ∧ numRows - 2 ≤ k.shown.cursorY
  else k.shown.cursorX = 0 ∧ k.shown.cursorY = numRows - 1

/-- **The key leaves the hardware cursor right.** -/
structure KeyTracks (key : Key) (k : Kernel) : Prop where
  presses : key.presses k.enterFlag = true → LineOpen k → PressTracks k
  types : key.types k.enterFlag = true → k.terminalNum = k.terminalNumDisplay ∨ ¬ FillsScreen k
  erases : key.erases k.enterFlag = true → ¬ ErasesHome k

theorem KeyTracks.cursorSafe {key : Key} {k : Kernel} (h : KeyTracks key k) : CursorSafe key k :=
  ⟨h.types, fun herases => .inr (h.erases herases)⟩

/-! ## The functions of a key -/

section Keys

variable {k k' : Kernel}

theorem add2buf_inSync_iff (h : VideoMapped k) (hd : OnScreen k.shown) (hsync : InSync k)
    {c : UInt8} (hrun : add2buf c k = some k') :
    InSync k' ↔ k.terminalNum = k.terminalNumDisplay ∨ ¬ FillsScreen k := by
  by_cases hroom : k.shown.screenBufTop < screenBufSize - 1
  case neg =>
    rw [add2buf] at hrun
    cases (if_neg hroom).symm.trans hrun
    exact ⟨fun _ => .inr fun hfills => hroom hfills.room, fun _ => hsync⟩
  obtain ⟨k₁, k₂, hadd, hputs, hmoved⟩ := add2buf_moves h hd hroom c
  cases hadd.symm.trans hrun
  have hcol : k.shown.cursorX < numCols := hd.cursorX
  have hrow : k.shown.cursorY < numRows := hd.cursorY
  rw [hmoved.inSync_iff hd.next.1, hputs.keeps.terminalNum, hputs.keeps.display]
  unfold Terminal.next
  split
  case isTrue hlt =>
    refine ⟨fun _ => .inr fun hfills => ?_, fun _ => .inl hrow⟩
    have hlast : k.shown.cursorX = numCols - 1 := hfills.cursorX
    omega
  case isFalse hge =>
    dsimp only
    -- the row below is on the screen unless the cursor was in the last cell
    have hlast : k.shown.cursorX = numCols - 1 := by
      simp only [numCols] at hcol hge ⊢
      omega
    constructor
    · rintro (hin | ⟨hown, -⟩)
      · refine .inr fun hfills => ?_
        have hend : k.shown.cursorY = numRows - 1 := hfills.cursorY
        simp only [numRows] at hin hend
        omega
      · exact .inl hown
    · rintro (hown | hnot)
      · exact .inr ⟨hown, rfl⟩
      · left
        by_contra hin
        refine hnot ⟨hroom, hlast, ?_⟩
        show k.shown.cursorY = numRows - 1
        simp only [numRows] at hrow hin ⊢
        omega

/-- Of the two moves of `enter_press` the controller is told the first one. -/
theorem enterPress_inSync_iff (h : VideoMapped k) (hd : OnScreen k.shown) (hsync : InSync k)
    {c : UInt8} (hrun : enterPress c k = some k') :
    InSync k' ↔ (LineOpen k → PressTracks k) := by
  by_cases hopen : LineOpen k
  case neg =>
    rw [enterPress] at hrun
    cases (if_neg hopen).symm.trans hrun
    exact ⟨fun _ hline => absurd hline hopen, fun _ => hsync⟩
  have hcol : k.shown.cursorX < numCols := hd.cursorX
  have hrow : k.shown.cursorY < numRows := hd.cursorY
  unfold PressTracks
  by_cases hroom : k.shown.screenBufTop < screenBufSize - 1
  · obtain ⟨k₁, k₂, k₃, hpress, -, hmoved, hnew⟩ := enterPress_moves h hd hopen hroom c
    cases hpress.symm.trans hrun
    have hrow₂ := hmoved.cursorY_cases
    rw [if_pos hroom, InSync, Terminal.position, hnew.vga, hmoved.vga, hnew.cursorX, hnew.cursorY]
    have hnext : k.shown.next = if k.shown.cursorX < numCols - 1 then
        (k.shown.cursorX + 1, k.shown.cursorY) else (0, k.shown.cursorY + 1) := rfl
    simp only [numCols, numRows] at hcol hrow hrow₂ hnext ⊢
    by_cases hlt : k.shown.cursorX < 80 - 1
    · rw [if_pos hlt] at hnext
      rw [hnext] at hrow₂ ⊢
      dsimp only at hrow₂ ⊢
      exact ⟨fun heq => by omega, fun htracks => by have := htracks hopen; omega⟩
    · rw [if_neg hlt] at hnext
      rw [hnext] at hrow₂ ⊢
      dsimp only at hrow₂ ⊢
      exact ⟨fun heq _ => by omega, fun htracks => by have := htracks hopen; omega⟩
  · -- A full line takes nothing, and the controller is not told at all.
    have hadd : add2buf c k = some k := if_neg hroom
    obtain ⟨k₃, hline, hnew⟩ := newLine_moves h (Nat.le_of_lt hrow)
    rw [enterPress_open hopen, hadd, Option.bind_some] at hrun
    cases hline.symm.trans hrun
    have hposition : k.vgaCursor = k.shown.position := hsync
    rw [if_neg hroom, InSync, Terminal.position, hnew.vga, hposition, hnew.cursorX, hnew.cursorY,
      Terminal.position]
    simp only [numCols, numRows] at hcol hrow ⊢
    exact ⟨fun heq _ => by omega, fun htracks => by have := htracks hopen; omega⟩

/-- `putc_addr` leaves the cursor alone when it does not scroll the displayed terminal. -/
theorem putcAddr_cursor (hcol : k.shown.cursorX < numCols)
    (hsafe : k.terminalNum ≠ k.terminalNumDisplay ∨ k.shown.cursorY < numRows) {c : UInt8}
    (hrun : putcAddr c k = some k') : k'.shown = k.shown ∧ k'.vgaCursor = k.vgaCursor := by
  have hstore : ∀ {k₁}, storeChar k.terminalNumDisplay c k₁ = some k' →
      k'.terminalArr = k₁.terminalArr ∧ k'.terminalNumDisplay = k₁.terminalNumDisplay ∧
        k'.vgaCursor = k₁.vgaCursor := by
    intro k₁ hcell
    unfold storeChar at hcell
    rw [pokeCell_frame hcell]
    exact ⟨rfl, rfl, rfl⟩
  have hne : (k.terminalArr k.terminalNumDisplay).cursorX ≠ numCols := Nat.ne_of_lt hcol
  unfold putcAddr at hrun
  split at hrun
  · cases hrun
    exact ⟨rfl, rfl⟩
  · dsimp only at hrun
    rw [if_neg hne] at hrun
    split at hrun
    case isTrue hbelow =>
      -- another terminal is scrolled
      have hother := hsafe.resolve_right (Nat.not_lt.mpr hbelow)
      rw [Option.bind_eq_bind, Option.bind_eq_some_iff] at hrun
      obtain ⟨k₁, hscroll, hcell⟩ := hrun
      obtain ⟨phys, rfl⟩ := scrollUp_frame hscroll
      obtain ⟨hterm, hdisplay, hvga⟩ := hstore hcell
      refine ⟨?_, hvga⟩
      rw [Kernel.shown, hterm, hdisplay]
      exact Kernel.setTerminal_of_ne _ _ hother.symm
    case isFalse =>
      obtain ⟨hterm, hdisplay, hvga⟩ := hstore hrun
      refine ⟨?_, hvga⟩
      rw [Kernel.shown, hterm, hdisplay]
      rfl

/-- Backspace goes back over the start of the screen only from the first cell. -/
theorem erase_inSync_iff (h : VideoMapped k) (hd : OnScreen k.shown) (hsync : InSync k)
    (hrun : (deleteCharFromBuf k).bind deleteCharFromScreen = some k') :
    InSync k' ↔ ¬ ErasesHome k := by
  rw [Option.bind_eq_some_iff] at hrun
  obtain ⟨k₁, hdelete, hput⟩ := hrun
  by_cases htext : 0 < k.shown.screenBufTop
  case neg =>
    rw [deleteCharFromBuf] at hdelete
    cases (if_neg htext).symm.trans hdelete
    obtain ⟨hshown, hvga⟩ := putcAddr_cursor hd.cursorX (.inr hd.cursorY) hput
    refine ⟨fun _ hhome => htext hhome.text, fun _ => ?_⟩
    rw [InSync, hvga, hshown]
    exact hsync
  obtain ⟨k₂, hspec, hmoved⟩ := deleteCharFromBuf_moves h hd htext
  cases hspec.symm.trans hdelete
  obtain ⟨hcol, hback, hhome⟩ := hd.back
  have hnum := hmoved.keeps.terminalNum
  have hdisplay := hmoved.keeps.display
  -- the character behind the cursor is blanked where the cursor went
  have hcursor : k'.shown = k₁.shown ∧ k'.vgaCursor = k₁.vgaCursor := by
    rcases Nat.lt_or_ge k.shown.back.2 numRows with hin | hbelow
    · obtain ⟨hx, hy, -⟩ := hmoved.inside hin
      exact putcAddr_cursor (by rw [hx]; exact hcol) (.inr (by rw [hy]; exact hin)) hput
    · by_cases hown : k.terminalNum = k.terminalNumDisplay
      · obtain ⟨hx, hy, -⟩ := hmoved.own hbelow hown
        exact putcAddr_cursor (by rw [hx]; decide) (.inr (by rw [hy]; decide)) hput
      · obtain ⟨hx, hy⟩ := hmoved.other hbelow hown
        refine putcAddr_cursor (by rw [hx]; exact hcol) (.inl ?_) hput
        rw [hnum, hdisplay]
        exact hown
  have hsame : InSync k' ↔ InSync k₁ := by
    rw [InSync, InSync, hcursor.1, hcursor.2]
  rw [hsame, hmoved.inSync_iff hcol]
  rcases Nat.eq_zero_or_pos k.shown.position with hzero | hpos
  · rw [hhome hzero]
    have hfirst : ErasesHome k := by
      unfold Terminal.position at hzero
      simp only [numCols] at hzero
      exact ⟨htext, show k.shown.cursorX = 0 by omega, show k.shown.cursorY = 0 by omega⟩
    refine ⟨?_, fun hnot => absurd hfirst hnot⟩
    rintro (hlt | ⟨-, heq⟩)
    · exact absurd hlt (by decide)
    · exact absurd heq (by decide)
  · refine ⟨fun _ herases => ?_, fun _ => .inl (hback hpos).1⟩
    have hx : k.shown.cursorX = 0 := herases.cursorX
    have hy : k.shown.cursorY = 0 := herases.cursorY
    rw [Terminal.position, hx, hy] at hpos
    exact absurd hpos (by decide)

/-- A switch tells the controller. -/
theorem swapTerminal_inSync (h : ScreensReady k) (hsync : InSync k) {index : Tid}
    (hrun : swapTerminal index k = some k') : InSync k' := by
  rw [swapTerminal] at hrun
  split at hrun
  · cases hrun
    exact hsync
  · simp only [Option.bind_eq_bind, Option.bind_eq_some_iff] at hrun
    obtain ⟨temp, -, shown, -, k₁, hold, k₂, hnew, hcursor⟩ := hrun
    have hterm : k₂.terminalArr = k.terminalArr := by
      rw [Kernel.pokeRange_frame hnew, Kernel.pokeRange_frame hold]
    obtain ⟨hcol, hrow⟩ := h.cursor index
    rw [updateCursorOf, hterm, updateCursor_inside hcol hrow] at hcursor
    cases hcursor
    have hposition : (k.terminalArr index).cursorY * numCols + (k.terminalArr index).cursorX <
        2 ^ 16 := by
      simp only [numCols, numRows] at hcol hrow ⊢
      omega
    rw [InSync, Kernel.shown]
    dsimp only
    rw [Nat.mod_eq_of_lt hposition, Terminal.position, Nat.mul_comm]

theorem initCursor_inSync (hrun : initCursor k = some k') : InSync k' := by
  rw [initCursor_eq] at hrun
  cases hrun
  rfl

/-! ## Keys -/

/-- A key that is handed to `enter_press` is handed to nothing else. -/
theorem Key.presses_only {key : Key} {entered : Bool} (h : key.presses entered = true) :
    key.types entered = false ∧ key.erases entered = false := by
  cases key with
  | idle | «show» | enter => exact ⟨rfl, rfl⟩
  | switch | clear => cases h
  | erase | char =>
      have hset : entered = true := h
      rw [hset]
      exact ⟨rfl, rfl⟩

theorem KeyTracks.of_press {key : Key} (hpresses : key.presses k.enterFlag = true) :
    KeyTracks key k ↔ (LineOpen k → PressTracks k) := by
  obtain ⟨htypes, herases⟩ := Key.presses_only hpresses
  refine ⟨fun h => h.presses hpresses, fun h => ⟨fun _ => h, ?_, ?_⟩⟩
  · rw [htypes]
    exact nofun
  · rw [herases]
    exact nofun

/-- A key that does not move the cursor of a terminal without the controller. -/
theorem KeyTracks.of_idle {key : Key} (hpresses : key.presses k.enterFlag = false)
    (htypes : key.types k.enterFlag = false) (herases : key.erases k.enterFlag = false) :
    KeyTracks key k :=
  ⟨by rw [hpresses]; exact nofun, by rw [htypes]; exact nofun, by rw [herases]; exact nofun⟩

/-- A key that is handed to `enter_press` once its flags are set, which are no part of the
condition. -/
theorem press_inSync_iff {key : Key} {k₁ : Kernel} {c : UInt8} (h : VideoMapped k₁)
    (hd : OnScreen k.shown) (hsync : InSync k) (hshown : k₁.shown = k.shown)
    (hvga : k₁.vgaCursor = k.vgaCursor) (hpresses : key.presses k.enterFlag = true)
    (hrun : enterPress c k₁ = some k') : InSync k' ↔ KeyTracks key k := by
  have hd₁ : OnScreen k₁.shown := by
    rw [hshown]
    exact hd
  have hsync₁ : InSync k₁ := by
    rw [InSync, hvga, hshown]
    exact hsync
  have hopen : LineOpen k₁ ↔ LineOpen k := by
    have hterminal : k₁.terminalArr k₁.terminalNumDisplay = k.terminalArr k.terminalNumDisplay :=
      hshown
    rw [LineOpen, hterminal]
    exact Iff.rfl
  have htracks : PressTracks k₁ ↔ PressTracks k := by
    unfold PressTracks
    rw [hshown]
  have hiff := enterPress_inSync_iff h hd₁ hsync₁ hrun
  rw [hopen, htracks] at hiff
  rw [hiff, KeyTracks.of_press hpresses]

/-- Backspace while `enter_flag` is clear. -/
theorem handleKey_erase_inSync_iff (h : VideoMapped k) (hd : OnScreen k.shown) (hsync : InSync k)
    (hclear : k.enterFlag = false)
    (hrun : (deleteCharFromBuf { k with backFlag := true }).bind deleteCharFromScreen = some k') :
    InSync k' ↔ KeyTracks .erase k := by
  have hmapped := (sameConsole_backFlag k).mapped h
  have hsync₁ : InSync { k with backFlag := true } := hsync
  have hhome : ErasesHome { k with backFlag := true } ↔ ErasesHome k :=
    ⟨fun h => ⟨h.1, h.2, h.3⟩, fun h => ⟨h.1, h.2, h.3⟩⟩
  have hiff := erase_inSync_iff hmapped hd hsync₁ hrun
  rw [hiff, hhome]
  have herases : Key.erase.erases k.enterFlag = true := congrArg Bool.not hclear
  refine ⟨fun hnot => ⟨fun hpresses => ?_, nofun, fun _ => hnot⟩, fun h => h.erases herases⟩
  have hset : k.enterFlag = true := hpresses
  rw [hclear] at hset
  cases hset

/-- A character while `enter_flag` is clear. -/
theorem handleKey_char_inSync_iff (h : VideoMapped k) (hd : OnScreen k.shown) (hsync : InSync k)
    (hclear : k.enterFlag = false) {ascii : UInt8} (hascii : ascii ≠ 0)
    (hrun : add2buf ascii { k with bufFlag := 3 } = some k') :
    InSync k' ↔ KeyTracks (.char ascii) k := by
  have hmapped := (sameConsole_bufFlag k 3).mapped h
  have hsync₁ : InSync { k with bufFlag := 3 } := hsync
  have hfills : FillsScreen { k with bufFlag := 3 } ↔ FillsScreen k :=
    ⟨fun h => ⟨h.1, h.2, h.3⟩, fun h => ⟨h.1, h.2, h.3⟩⟩
  have hiff := add2buf_inSync_iff hmapped hd hsync₁ hrun
  rw [hiff, hfills]
  have htypes : (Key.char ascii).types k.enterFlag = true := by
    rw [Key.types, hclear, decide_eq_true hascii]
    rfl
  refine ⟨fun hsafe => ⟨fun hpresses => ?_, fun _ => hsafe, by rintro ⟨⟩⟩, fun h => h.types htypes⟩
  have hset : k.enterFlag = true := hpresses
  rw [hclear] at hset
  cases hset

/-- **What a key does to the hardware cursor.** -/
theorem handleKey_inSync_iff {key : Key} (h : ScreensReady k) (hsync : InSync k)
    (hrun : handleKey key k = some k') : InSync k' ↔ KeyTracks key k := by
  have hd : OnScreen k.shown := h.cursor _
  cases key with
  | idle =>
      dsimp only [handleKey] at hrun
      split at hrun
      case isTrue hset => exact press_inSync_iff h.mapped hd hsync rfl rfl hset hrun
      case isFalse hclear =>
        cases hrun
        exact ⟨fun _ => .of_idle (Bool.eq_false_iff.mpr hclear) rfl rfl, fun _ => hsync⟩
  | erase =>
      have hmapped := (sameConsole_backFlag k).mapped h.mapped
      dsimp only [handleKey] at hrun
      split at hrun
      case isTrue hset => exact press_inSync_iff hmapped hd hsync rfl rfl hset hrun
      case isFalse hclear =>
        exact handleKey_erase_inSync_iff h.mapped hd hsync (Bool.eq_false_iff.mpr hclear) hrun
  | switch index =>
      have hready := (sameConsole_setSwitchFlag k index).screens h
      have hsync₁ : InSync (setSwitchFlag index k) := by
        fin_cases index <;> exact hsync
      exact ⟨fun _ => .of_idle rfl rfl rfl, fun _ => swapTerminal_inSync hready hsync₁ hrun⟩
  | clear =>
      dsimp only [handleKey] at hrun
      rw [Option.bind_eq_some_iff] at hrun
      obtain ⟨k₁, -, hcursor⟩ := hrun
      exact ⟨fun _ => .of_idle rfl rfl rfl, fun _ => initCursor_inSync hcursor⟩
  | «show» =>
      dsimp only [handleKey] at hrun
      rw [Option.bind_eq_bind, Option.bind_eq_some_iff] at hrun
      obtain ⟨k₁, hprint, hrest⟩ := hrun
      -- printing moves a cursor of its own
      have hframe := printBuf_frame hprint
      have hkeeps : Keeps k k₁ := by
        rw [hframe]
        exact ⟨rfl, rfl, rfl, fun _ => rfl, fun _ he => .inl he⟩
      have hshown : k₁.shown = k.shown := by rw [hframe]; rfl
      have hvga : k₁.vgaCursor = k.vgaCursor := by rw [hframe]
      have hset₁ : k₁.enterFlag = k.enterFlag := by rw [hframe]
      rw [hset₁] at hrest
      split at hrest
      case isTrue hset =>
        exact press_inSync_iff (hkeeps.mapped h.mapped) hd hsync hshown hvga hset hrest
      case isFalse hclear =>
        cases hrest
        refine ⟨fun _ => .of_idle (Bool.eq_false_iff.mpr hclear) rfl rfl, fun _ => ?_⟩
        rw [InSync, hvga, hshown]
        exact hsync
  | enter =>
      have hmapped := (sameConsole_enterFlag k true).mapped h.mapped
      exact press_inSync_iff hmapped hd hsync rfl rfl rfl hrun
  | char ascii =>
      have hmapped := (sameConsole_bufFlag k 3).mapped h.mapped
      dsimp only [handleKey] at hrun
      split at hrun
      case isTrue hset => exact press_inSync_iff hmapped hd hsync rfl rfl hset hrun
      case isFalse hclear =>
        have hclear' : k.enterFlag = false := Bool.eq_false_iff.mpr hclear
        split at hrun
        case isTrue hascii =>
          exact handleKey_char_inSync_iff h.mapped hd hsync hclear' hascii hrun
        case isFalse hzero =>
          cases hrun
          have htypes : (Key.char ascii).types k.enterFlag = false := by
            rw [Key.types, decide_eq_false hzero, Bool.and_false]
          exact ⟨fun _ => .of_idle hclear' htypes rfl, fun _ => hsync⟩

theorem setModifiers_vgaCursor (scan : Nat) (k : Kernel) :
    (setModifiers scan k).vgaCursor = k.vgaCursor := by
  unfold setModifiers
  split_ifs <;> rfl

/-- The condition is one on the screens and `enter_flag`. -/
theorem KeyTracks.of_same {key : Key} {k k₁ : Kernel} (h : KeyTracks key k)
    (hsame : SameConsole k k₁) (hentered : k₁.enterFlag = k.enterFlag) : KeyTracks key k₁ := by
  have hterminal : k₁.terminalArr k₁.terminalNumDisplay = k.terminalArr k.terminalNumDisplay :=
    hsame.shown
  obtain ⟨hpresses, htypes, herases⟩ := h
  rw [← hentered] at hpresses htypes herases
  refine ⟨fun hkey hopen => ?_, fun hkey => ?_, fun hkey hhome => ?_⟩
  · rw [LineOpen, hterminal] at hopen
    rw [PressTracks, Kernel.shown, hterminal]
    exact hpresses hkey hopen
  · rw [hsame.terminalNum, hsame.display]
    exact (htypes hkey).imp_right (mt hsame.fillsScreen)
  · exact herases hkey (hsame.erasesHome hhome)

/-- The modifiers do not matter. -/
theorem keyTracks_setModifiers (key : Key) (scan : Nat) (k : Kernel) :
    KeyTracks key (setModifiers scan k) ↔ KeyTracks key k := by
  have hsame := sameConsole_setModifiers k scan
  have hentered := (setModifiers_lines scan k).2.2.2
  exact ⟨fun h => h.of_same hsame.symm hentered.symm, fun h => h.of_same hsame hentered⟩

/-- **A complete call of `keyboard_handler_main`.** -/
theorem keyboardHandlerMain_inSync_iff (h : ScreensReady k) (hkeys : NoKeyPending k)
    (hsync : InSync k) {scan : UInt8} {past : UInt32}
    (hrun : keyboardHandlerMain scan past k = some k') :
    InSync k' ↔ KeyTracks (keyOf scan past k) k := by
  rw [keyboardHandlerMain_eq scan past hkeys, Option.map_eq_some_iff] at hrun
  obtain ⟨k₁, hhandle, rfl⟩ := hrun
  have hsame := sameConsole_setModifiers k scan.toNat
  have hsync₁ : InSync (setModifiers scan.toNat k) := by
    rw [InSync, setModifiers_vgaCursor, hsame.shown]
    exact hsync
  have hiff := handleKey_inSync_iff (hsame.screens h) hsync₁ hhandle
  rw [keyTracks_setModifiers] at hiff
  exact hiff

/-! ## `terminal_write` -/

theorem scrollAtEnd_vgaCursor (hrun : scrollAtEnd k = some k') : k'.vgaCursor = k.vgaCursor := by
  unfold scrollAtEnd at hrun
  split at hrun
  · obtain ⟨phys, rfl⟩ := scrollUp_frame hrun
    rfl
  · cases hrun
    rfl

theorem writeChar_vgaCursor {c : UInt8} (hrun : writeChar c k = some k') :
    k'.vgaCursor = k.vgaCursor := by
  rw [writeChar_eq, Option.bind_eq_some_iff] at hrun
  obtain ⟨k₁, hwrap, hrest⟩ := hrun
  rw [Option.map_eq_some_iff] at hrest
  obtain ⟨k₂, hglyph, rfl⟩ := hrest
  have hwrapped : k₁.vgaCursor = k.vgaCursor := by
    unfold wrapRow at hwrap
    split at hwrap
    · have hscrolled := scrollAtEnd_vgaCursor hwrap
      exact hscrolled
    · cases hwrap
      rfl
  have hwritten : k₂.vgaCursor = k₁.vgaCursor := by
    unfold writeGlyph at hglyph
    split at hglyph
    · have hscrolled := scrollAtEnd_vgaCursor hglyph
      exact hscrolled
    · rw [Option.map_eq_some_iff] at hglyph
      obtain ⟨k₃, hstore, rfl⟩ := hglyph
      unfold storeChar at hstore
      rw [pokeCell_frame hstore]
      rfl
  have hclamped : (clampCursor k₂).vgaCursor = k₂.vgaCursor := by
    unfold clampCursor
    dsimp only
    split <;> split <;> rfl
  rw [hclamped, hwritten, hwrapped]

/-- **A complete call of `terminal_write`** tells the controller when its terminal is displayed. -/
theorem terminalWrite_inSync (h : ScreensReady k) (hsync : InSync k) {buf : Option Buf}
    {nbytes v : Int32} (hrun : terminalWrite buf nbytes k = some (v, k')) : InSync k' := by
  unfold terminalWrite at hrun
  cases buf with
  | none =>
      cases hrun
      exact hsync
  | some bytes =>
      dsimp only at hrun
      split at hrun
      · cases hrun
        exact hsync
      · obtain ⟨k₁, hloop, hwrites⟩ := writeLoop_spec h.mapped (h.cursor k.terminalNum) bytes
          nbytes.toInt.toNat
        have hend := cursorAfter_inside bytes (h.cursor k.terminalNum) nbytes.toInt.toNat
        have hinside := OnScreen.of_cursor hwrites.cursor_eq hend.1 hend.2
        rw [hloop, Option.bind_eq_bind, Option.bind_some] at hrun
        split at hrun
        case isTrue hown =>
          rw [updateCursor_inside hinside.cursorX hinside.cursorY] at hrun
          cases hrun
          have hcell := hinside.cell_lt
          rw [InSync, Kernel.shown]
          dsimp only
          rw [← hown, Terminal.position, Nat.mul_comm, Nat.mod_eq_of_lt (by omega)]
        case isFalse hother =>
          cases hrun
          -- the displayed terminal is not the one that is written to
          have hvga : k'.vgaCursor = k.vgaCursor :=
            forRange_preserves (fun k₁ : Kernel => k₁.vgaCursor = k.vgaCursor)
              (fun _ _ _ hk hchar => (writeChar_vgaCursor hchar).trans hk) rfl hloop
          rw [hwrites.keeps.terminalNum, hwrites.keeps.display] at hother
          have hshown : k'.shown = k.shown := by
            rw [Kernel.shown, hwrites.keeps.display]
            exact hwrites.only.terminal _ (Ne.symm hother)
          rw [InSync, hvga, hshown]
          exact hsync

end Keys

/-! ## Runs of the machine -/

/-- The condition on an event. -/
def MachineEvent.Tracks (k : Kernel) : MachineEvent → Prop
  | .key scan past => KeyTracks (keyOf scan past k) k
  | _ => True

/-- A step that leaves the displayed cursor and the controller alone. -/
theorem InSync.of_same {k k' : Kernel} (hsync : InSync k) (hvga : k'.vgaCursor = k.vgaCursor)
    (hcursor : k'.shown.cursor = k.shown.cursor) : InSync k' := by
  have hx : k'.shown.cursorX = k.shown.cursorX := congrArg Prod.fst hcursor
  have hy : k'.shown.cursorY = k.shown.cursorY := congrArg Prod.snd hcursor
  rw [InSync, hvga, Terminal.position, hx, hy]
  exact hsync

/-- An assignment to the displayed terminal that is not one to its cursor. -/
theorem InSync.setTerminal {k : Kernel} (hsync : InSync k) {f : Terminal → Terminal}
    (hcursor : ∀ t, (f t).cursor = t.cursor) :
    InSync (k.setTerminal k.terminalNumDisplay f) := by
  refine hsync.of_same rfl ?_
  have hshown : (k.setTerminal k.terminalNumDisplay f).shown = f k.shown :=
    Kernel.setTerminal_self k k.terminalNumDisplay f
  rw [hshown, hcursor]

theorem SparesScreens.inSync {k k' : Kernel} (h : SparesScreens k k') (hsync : InSync k) :
    InSync k' := by
  refine hsync.of_same (congrArg ConsoleState.vgaCursor h.console) ?_
  rw [Kernel.shown, h.display]
  exact h.cursor k.terminalNumDisplay

/-- The processes leave the console as it is. -/
theorem SparesScreens.consoleReady {k k' : Kernel} (h : SparesScreens k k')
    (hready : ConsoleReady k) : ConsoleReady k' := by
  obtain ⟨e, hpaging⟩ := h.paging
  have hlines : k'.lines = k.lines := congrArg ConsoleState.lines h.console
  have hstores : k'.charStores = k.charStores := congrArg ConsoleState.charStores h.console
  refine ⟨⟨⟨fun t => (h.vidmem t).trans (hready.screens.mapped.vidmem t), ?_, ?_⟩, fun t => ?_⟩,
    ?_, h.keys hready.keys, ?_, ?_⟩
  · rw [hpaging]
    exact hready.screens.mapped.vga.setPde (by decide) _
  · rw [hpaging, h.display]
    exact hready.screens.mapped.screens.setPde (by decide) _
  · exact OnScreen.of_cursor (h.cursor t) (hready.screens.cursor t).cursorX
      (hready.screens.cursor t).cursorY
  · -- the 4 MB below the process page have a table of their own
    rw [hpaging]
    exact hready.alone
  · rw [hlines]
    exact hready.lines
  · rw [hstores]
    exact hready.stores

/-- Memory is no part of the condition. -/
theorem ConsoleReady.memory {k : Kernel} (h : ConsoleReady k) (phys : Buf) :
    ConsoleReady { k with phys := phys } :=
  ⟨⟨⟨h.1.1.1, h.1.1.2, h.1.1.3⟩, h.1.2⟩, h.2, ⟨h.3.1, h.3.2, h.3.3, h.3.4, h.3.5, h.3.6⟩, h.4, h.5⟩

/-- **One event of the machine**: both invariants, and when the controller stays right. -/
theorem machineStep_inSync_iff {fs : Image} {s s' : ProcState} {e : MachineEvent}
    (hready : ConsoleReady s.kernel) (hsync : InSync s.kernel)
    (hstep : s.machineStep fs e = some s') :
    (InSync s'.kernel ↔ e.Tracks s.kernel) ∧ (e.Tracks s.kernel → ConsoleReady s'.kernel) := by
  have hkept : InSync s'.kernel → ConsoleReady s'.kernel →
      (InSync s'.kernel ↔ True) ∧ (True → ConsoleReady s'.kernel) :=
    fun hsync' hready' => ⟨⟨fun _ => trivial, fun _ => hsync'⟩, fun _ => hready'⟩
  cases machineStep_done hstep with
  | key hrun =>
      exact ⟨keyboardHandlerMain_inSync_iff hready.screens hready.keys hsync hrun,
        fun htracks => hready.key htracks.cursorSafe hrun⟩
  | proc hstep =>
      have hspares := ProcState.step_spares hstep
      exact hkept (hspares.inSync hsync) (hspares.consoleReady hready)
  | @write buf nbytes v k' hrun =>
      have hexec := congrArg (Option.map Prod.snd) hrun
      exact hkept (terminalWrite_inSync hready.screens hsync hrun)
        (hready.step (e := .write buf nbytes) trivial hexec)
  | plantReturn => exact hkept (hsync.setTerminal fun _ => rfl) hready.plantReturn
  | takeLine buf nbytes =>
      have hclear : InSync { s.kernel with enterFlag := false } := hsync
      have hsync' : InSync (takeLine buf nbytes s.kernel).2 := hclear.setTerminal fun _ => rfl
      exact hkept hsync' (hready.takeLine buf nbytes)
  | vidmap | store => exact hkept hsync (hready.memory _)

theorem clear_vgaCursor {k k' : Kernel} (hrun : clear k = some k') :
    k'.vgaCursor = k.vgaCursor :=
  forRange_preserves (fun k₁ : Kernel => k₁.vgaCursor = k.vgaCursor)
    (fun _ _ _ hk hcell => by rw [pokeCell_frame hcell]; exact hk) rfl hrun

/-- `clear` does not touch the controller, which `keyboard_init` and `terminal_init` set. -/
theorem inSync_bootKernel (m : PowerOn) : InSync (bootKernel m) := by
  obtain ⟨opened, hterm⟩ := entryTerminals_eq m
  obtain ⟨k₁, hk₁, heq⟩ : ∃ k, entryTerminals m = some k ∧ _ = k := ⟨_, hterm, rfl⟩
  obtain ⟨k, hentry, hboot⟩ := entry_booted m
  have hkernel : bootKernel m = k := by rw [bootKernel, hentry, Option.getD_some]
  rw [entry, hk₁, Option.bind_eq_bind, Option.bind_some] at hentry
  have hvga : k.vgaCursor = 0 := by
    have hframe := clear_vgaCursor hentry
    rw [hframe, ← heq]
  rw [hkernel, InSync, hvga, Kernel.shown, hboot.terminalArr, hboot.terminalNumDisplay]
  rfl

/-- **Runs of the machine.**  The controller has the position of the displayed cursor after boot,
and after every event exactly when every key meets the condition. -/
theorem inSync_iff_of_run (fs : Image) (m : PowerOn) (es : List MachineEvent) (s : ProcState) :
    InSync (ProcState.boot m).kernel ∧
      (Run (fun s e s' => s.machineStep fs e = some s' ∧ InSync s'.kernel) (.boot m) es s ↔
        Run (fun s e s' => s.machineStep fs e = some s' ∧ e.Tracks s.kernel) (.boot m) es s) := by
  refine ⟨inSync_bootKernel m, Run.and_iff (fun s => ConsoleReady s.kernel ∧ InSync s.kernel)
    ⟨consoleReady_bootKernel m, inSync_bootKernel m⟩ (fun a e b ha hstep => ?_)
    fun a e b ha hstep hsync => ?_⟩
  · exact (machineStep_inSync_iff ha.1 ha.2 hstep).1
  · obtain ⟨hiff, hready⟩ := machineStep_inSync_iff ha.1 ha.2 hstep
    exact ⟨hready (hiff.mp hsync), hsync⟩

/-- In the first cell of an empty line a character leaves the controller behind. -/
theorem not_pressTracks_initial {k : Kernel} (hshown : k.shown = initialTerminal 0) :
    LineOpen k ∧ ¬ PressTracks k := by
  have hempty : k.shown.screenBufTop = 0 := by rw [hshown]; rfl
  have hroom : k.shown.screenBufTop < screenBufSize - 1 := by
    rw [hempty]
    decide
  refine ⟨.inl hempty, fun hpress => ?_⟩
  rw [PressTracks, if_pos hroom, hshown] at hpress
  exact absurd hpress.1 (by decide)

/-- The first Enter after boot moves the cursor to a row that the controller is not told of. -/
theorem exists_enter_boot (m : PowerOn) :
    ∃ k, keyboardHandlerMain 28 0 (ProcState.boot m).kernel = some k ∧ ¬ InSync k := by
  have hready : ConsoleReady (ProcState.boot m).kernel := consoleReady_bootKernel m
  have hsync : InSync (ProcState.boot m).kernel := inSync_bootKernel m
  have hboot : Booted m (ProcState.boot m).kernel := booted_bootKernel m
  have hkey : keyOf 28 0 (ProcState.boot m).kernel = .enter := keyOf_eq hboot.idle.1 rfl
  have hsafe : CursorSafe (keyOf 28 0 (ProcState.boot m).kernel) (ProcState.boot m).kernel := by
    rw [hkey]
    exact ⟨nofun, nofun⟩
  obtain ⟨k, hrun⟩ := hready.key_total hsafe (by rw [hkey]; nofun)
  refine ⟨k, hrun, fun hafter => ?_⟩
  have htracks := (keyboardHandlerMain_inSync_iff hready.screens hready.keys hsync hrun).mp hafter
  rw [hkey] at htracks
  have hshown : (ProcState.boot m).kernel.shown = initialTerminal 0 := by
    rw [Kernel.shown, hboot.terminalArr, hboot.terminalNumDisplay]
  obtain ⟨hopen, hpress⟩ := not_pressTracks_initial hshown
  exact hpress (htracks.presses rfl hopen)

/-- After boot and Enter the controller has the first row, and the terminal the second. -/
theorem enter_desynchronizes :
    ¬ ∀ (fs : Image) (m : PowerOn) (es : List MachineEvent) (s : ProcState),
      ProcState.MachineSteps fs (.boot m) es s → InSync s.kernel := by
  intro hall
  obtain ⟨k, hrun, hnot⟩ := exists_enter_boot .blank
  have hstep := ProcState.machineStep_key hrun shellImage
  exact hnot (hall shellImage .blank _ _ (.single hstep))

end JuddOS
