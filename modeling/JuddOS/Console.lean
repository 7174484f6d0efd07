import JuddOS.Execute
import JuddOS.KeyIsolation

/-!
# Runs of the console

The keyboard, the timer and `terminal_write` share the three terminals.  A run starts when `entry`
has initialised everything, and its events come in any order.

* `ConsoleReady` is the invariant: the pages are mapped, every cursor is on its screen, every line
  fits its buffer and every character was stored on the screen it was meant for.
* `cursors_of_run`: it holds as long as no key moves the displayed cursor over an end of its screen
  while another terminal is scheduled.
-/

namespace JuddOS

open Support

/-- What happens to the console.  Of a timer interrupt it sees that the next terminal is
scheduled. -/
inductive ConsoleEvent
  | key (scan : UInt8) (past : UInt32)
  | tick (ebp : Nat)
  | write (buf : Option Buf) (nbytes : Int32)

namespace ConsoleEvent

def exec (k : Kernel) : ConsoleEvent → Option Kernel
  | key scan past => keyboardHandlerMain scan past k
  | tick ebp => some (leaveTerminal ebp k)
  | write buf nbytes => (terminalWrite buf nbytes k).map Prod.snd

/-- No cursor leaves its screen. -/
def Safe (k : Kernel) : ConsoleEvent → Prop
  | key scan past => CursorSafe (keyOf scan past k) k
  | _ => True

end ConsoleEvent

/-- A run of the console in which each event is possible. -/
def consoleStep (k : Kernel) (e : ConsoleEvent) (k' : Kernel) : Prop := e.exec k = some k'

/-- The invariant. -/
structure ConsoleReady (k : Kernel) : Prop where
  screens : ScreensReady k
  alone : VgaAlone k.paging
  keys : NoKeyPending k
  lines : ∀ t, (k.lines t).Fits
  stores : ∀ e ∈ k.charStores, InsideScreen e.2

theorem consoleReady_bootKernel (m : PowerOn) : ConsoleReady (bootKernel m) := by
  have hboot := booted_bootKernel m
  obtain ⟨-, -, -, -, hbuf, hback, hctrlL, -, hzero, hone, htwo⟩ := hboot.noFlags
  refine ⟨⟨⟨fun t => ?_, ?_, ?_⟩, fun t => ?_⟩, ?_, ⟨hbuf, hback, hctrlL, hzero, hone, htwo⟩,
    fun t => ?_, fun e he => ?_⟩
  · rw [hboot.terminalArr]
    rfl
  · rw [hboot.paging]
    exact (vgaMapped_initPaging m.layout m.elsewhere).setUpVirtualToVideo 0
  · rw [hboot.paging, hboot.terminalNumDisplay]
    exact screensMapped_setUpVirtualToVideo 0 _
  · rw [hboot.terminalArr]
    exact ⟨show 0 < numCols by decide, show 0 < numRows by decide⟩
  · rw [hboot.paging]
    exact vgaAlone_initPaging _
  · rw [Kernel.lines, hboot.terminalArr]
    exact show 0 < screenBufSize by decide
  · rw [hboot.charStores] at he
    cases he

namespace ConsoleReady

variable {k k' : Kernel}

/-- What keeps the pages and the cursors, and lets the lines fit. -/
theorem of_keeps (h : ConsoleReady k) (hkeeps : Keeps k k')
    (hcursors : ∀ t, OnScreen (k'.terminalArr t)) (hkeys : NoKeyPending k')
    (hlines : ∀ t, (k'.lines t).Fits) : ConsoleReady k' where
  screens := ⟨hkeeps.mapped h.screens.mapped, hcursors⟩
  alone := by
    rw [hkeeps.paging]
    exact h.alone
  keys := hkeys
  lines := hlines
  stores e he := (hkeeps.stores e he).elim (h.stores e) id

/-- An assignment to a flag. -/
theorem of_same (h : ConsoleReady k) (hsame : SameConsole k k') (hkeys : NoKeyPending k') :
    ConsoleReady k' := by
  refine h.of_keeps (hsame.keeps_after (.refl k)) (hsame.screens h.screens).cursor hkeys fun t => ?_
  rw [Kernel.lines, hsame.terminalArr]
  exact h.lines t

/-- An assignment to a terminal that leaves its screen alone. -/
theorem setTerminal (h : ConsoleReady k) (t : Tid) {f : Terminal → Terminal}
    (hvidmem : ∀ t, (f t).vidmemAddr = t.vidmemAddr) (hcursor : ∀ t, (f t).cursor = t.cursor)
    (hfits : (f (k.terminalArr t)).line.Fits) : ConsoleReady (k.setTerminal t f) := by
  have hkeeps := keeps_setTerminal k t hvidmem
  obtain ⟨hbuf, hback, hctrlL, hzero, hone, htwo⟩ := h.keys
  refine h.of_keeps hkeeps (fun u => ?_) ⟨hbuf, hback, hctrlL, hzero, hone, htwo⟩ fun u => ?_
  · by_cases hu : u = t
    · rw [hu, Kernel.setTerminal_self]
      have hscreen := h.screens.cursor t
      exact .of_cursor (hcursor _) hscreen.cursorX hscreen.cursorY
    · rw [Kernel.setTerminal_of_ne k f hu]
      exact h.screens.cursor u
  · rw [Kernel.lines]
    by_cases hu : u = t
    · rw [hu, Kernel.setTerminal_self]
      exact hfits
    · rw [Kernel.setTerminal_of_ne k f hu]
      exact h.lines u

theorem tick (h : ConsoleReady k) (ebp : Nat) : ConsoleReady (leaveTerminal ebp k) := by
  have hnext : ConsoleReady { k with terminalNum := k.terminalNum + 1 } :=
    ⟨⟨⟨h.screens.mapped.1, h.screens.mapped.2, h.screens.mapped.3⟩, h.screens.cursor⟩, h.alone,
      ⟨h.keys.1, h.keys.2, h.keys.3, h.keys.4, h.keys.5, h.keys.6⟩, h.lines, h.stores⟩
  have hebp := hnext.setTerminal k.terminalNum (f := fun t => { t with ebp := ebp })
    (fun _ => rfl) (fun _ => rfl) (h.lines _)
  exact hebp.setTerminal k.terminalNum (f := fun t => { t with esp0 := k.tssEsp0 })
    (fun _ => rfl) (fun _ => rfl) (hebp.lines _)

end ConsoleReady

/-! ## Keys -/

/-- A switch moves two screens and changes which terminal is displayed. -/
theorem ScreensReady.swap_frame {k k' : Kernel} (h : ScreensReady k) {index : Tid}
    (hswap : swapTerminal index k = some k') :
    ScreensReady k' ∧ k'.paging.pageTableEntry = k.paging.pageTableEntry ∧
      k'.terminalArr = k.terminalArr ∧ k'.charStores = k.charStores := by
  obtain ⟨k₁, hk₁, hready, -⟩ := h.swap h.shows_logicalScreens index
  cases hk₁.symm.trans hswap
  refine ⟨hready, ?_⟩
  by_cases hsame : index = k.terminalNumDisplay
  · rw [swapTerminal, if_pos hsame] at hswap
    cases hswap
    exact ⟨rfl, rfl, rfl⟩
  · obtain ⟨temp, shown, cursor, -, -, heq⟩ := h.swapTerminal_eq hsame
    cases heq.symm.trans hswap
    exact ⟨rfl, rfl, rfl⟩

section Keys

variable {k k' : Kernel} {scan : UInt8} {past : UInt32}

/-- The lines after a key. -/
theorem ConsoleReady.lines_key (h : ConsoleReady k)
    (hrun : keyboardHandlerMain scan past k = some k') (t : Tid) : (k'.lines t).Fits := by
  rw [(keyboardHandlerMain_lines h.keys hrun).lines]
  by_cases ht : t = k.terminalNumDisplay
  · rw [ht, Function.update_self]
    exact (h.lines _).editLine _ _
  · rw [Function.update_of_ne ht]
    exact h.lines t

/-- **A key that is not a switch.** -/
theorem ConsoleReady.contained (h : ConsoleReady k)
    (hkey : ∀ index, keyOf scan past k ≠ .switch index) (hsafe : CursorSafe (keyOf scan past k) k)
    (hrun : keyboardHandlerMain scan past k = some k') :
    KeyContained k k' (Isolating (keyOf scan past k) k) := by
  rw [keyboardHandlerMain_eq scan past h.keys, Option.map_eq_some_iff] at hrun
  obtain ⟨k₁, hkeyrun, rfl⟩ := hrun
  have hsame := sameConsole_setModifiers k scan.toNat
  have hready := hsame.screens h.screens
  have hline : ((setModifiers scan.toNat k).lines
      (setModifiers scan.toNat k).terminalNumDisplay).Fits := by
    rw [(setModifiers_lines scan.toNat k).1]
    exact h.lines _
  have halone : VgaAlone (setModifiers scan.toNat k).paging := by
    rw [hsame.paging]
    exact h.alone
  have hcontained := handleKey_contained hready.mapped hready.cursor halone hline hkey
    (hsafe.setModifiers _) hkeyrun
  have hreset := (KeyContained.of_same hsame hcontained).resetFlags
  exact ⟨hreset.keeps, hreset.cursors, fun hiso => hreset.isolated (hiso.setModifiers _)⟩

/-- **A key** keeps the invariant when it is safe. -/
theorem ConsoleReady.key (h : ConsoleReady k) (hsafe : CursorSafe (keyOf scan past k) k)
    (hrun : keyboardHandlerMain scan past k = some k') : ConsoleReady k' := by
  have hlines := h.lines_key hrun
  by_cases hkey : ∃ index, keyOf scan past k = .switch index
  · obtain ⟨index, hswitch⟩ := hkey
    rw [keyboardHandlerMain_eq scan past h.keys, Option.map_eq_some_iff, hswitch] at hrun
    obtain ⟨k₁, hswap, rfl⟩ := hrun
    have hsame := sameConsole_setModifiers k scan.toNat
    have hflag := sameConsole_setSwitchFlag (setModifiers scan.toNat k) index
    obtain ⟨hready, hpte, -, hstores⟩ :=
      (hflag.screens (hsame.screens h.screens)).swap_frame hswap
    rw [hflag.paging, hsame.paging] at hpte
    rw [hflag.charStores, hsame.charStores] at hstores
    refine ⟨⟨⟨hready.mapped.1, hready.mapped.2, hready.mapped.3⟩, hready.cursor⟩, ?_,
      noKeyPending_resetFlags k₁, hlines, fun e he => h.stores e ?_⟩
    · intro i hi hpresent
      have hentry : k₁.paging.pageTableEntry i = k.paging.pageTableEntry i := congrFun hpte i
      exact h.alone i hi (hentry ▸ hpresent)
    · exact hstores ▸ he
  · rw [not_exists] at hkey
    have hcontained := h.contained hkey hsafe hrun
    exact h.of_keeps hcontained.keeps hcontained.cursors (keyboardHandlerMain_keys hrun) hlines

/-- No key faults but perhaps the debugging aid. -/
theorem ConsoleReady.key_total (h : ConsoleReady k) (hsafe : CursorSafe (keyOf scan past k) k)
    (hshow : keyOf scan past k ≠ .show) : ∃ k', keyboardHandlerMain scan past k = some k' := by
  have hready := (sameConsole_setModifiers k scan.toNat).screens h.screens
  obtain ⟨k₁, hkey⟩ := handleKey_total hready (hsafe.setModifiers scan.toNat) hshow
  refine ⟨resetFlags k₁, ?_⟩
  rw [keyboardHandlerMain_eq scan past h.keys, hkey, Option.map_some]

end Keys

/-! ## Runs -/

/-- **One event.** -/
theorem ConsoleReady.step {k k' : Kernel} {e : ConsoleEvent} (h : ConsoleReady k)
    (hsafe : e.Safe k) (hstep : consoleStep k e k') : ConsoleReady k' := by
  cases e with
  | key scan past => exact h.key hsafe hstep
  | tick ebp =>
      cases hstep
      exact h.tick ebp
  | write buf nbytes =>
      rw [consoleStep, ConsoleEvent.exec, Option.map_eq_some_iff] at hstep
      obtain ⟨⟨v, k₁⟩, hwrite, rfl⟩ := hstep
      obtain ⟨hkeeps, hcursors⟩ := terminalWrite_inside h.screens.mapped h.screens.cursor hwrite
      have hdraws := terminalWrite_draws hwrite
      refine h.of_keeps hkeeps hcursors (h.keys.draws hdraws) fun t => ?_
      rw [hdraws.lines]
      exact h.lines t

theorem consoleReady_of_run {m : PowerOn} {es : List ConsoleEvent} {k : Kernel}
    (hrun : Run (fun k e k' => consoleStep k e k' ∧ e.Safe k) (bootKernel m) es k) :
    ConsoleReady k :=
  hrun.invariant_of_guard ConsoleReady (consoleReady_bootKernel m)
    fun _ _ _ hready hsafe hstep => hready.step hsafe hstep

/-- Every cursor is on its screen, and every character was stored on the screen of the terminal it
was meant for. -/
structure CursorsInside (k : Kernel) : Prop where
  cursors : ∀ t, OnScreen (k.terminalArr t)
  stores : ∀ e ∈ k.charStores, InsideScreen e.2

/-! ### A tick, and a character -/

theorem leaveTerminal_cursor (ebp : Nat) (k : Kernel) (t : Tid) :
    ((leaveTerminal ebp k).terminalArr t).cursor = (k.terminalArr t).cursor := by
  by_cases ht : t = k.terminalNum
  · rw [leaveTerminal, ht, Kernel.setTerminal_self, Kernel.setTerminal_self]
    rfl
  · rw [leaveTerminal, Kernel.setTerminal_of_ne _ _ ht, Kernel.setTerminal_of_ne _ _ ht]

theorem leaveTerminal_frame (ebp : Nat) (k : Kernel) :
    (leaveTerminal ebp k).terminalNum = k.terminalNum + 1 ∧
      (leaveTerminal ebp k).terminalNumDisplay = k.terminalNumDisplay ∧
      (leaveTerminal ebp k).modifiers = k.modifiers ∧
      (leaveTerminal ebp k).enterFlag = k.enterFlag :=
  ⟨rfl, rfl, rfl, rfl⟩

theorem leaveTerminal_lines (ebp : Nat) (k : Kernel) :
    (leaveTerminal ebp k).lines = k.lines := by
  have hebp := Draws.setTerminal { k with terminalNum := k.terminalNum + 1 } k.terminalNum
    (f := fun t => { t with ebp := ebp }) fun _ => rfl
  have hesp := Draws.setTerminal (Kernel.setTerminal { k with terminalNum := k.terminalNum + 1 }
    k.terminalNum fun t => { t with ebp := ebp }) k.terminalNum
    (f := fun t => { t with esp0 := k.tssEsp0 }) fun _ => rfl
  exact hesp.lines.trans hebp.lines

/-- A character while `enter_flag` is clear. -/
theorem ConsoleReady.key_char {k : Kernel} {scan : UInt8} {past : UInt32} {ascii : UInt8}
    (h : ConsoleReady k) (hkey : keyOf scan past k = .char ascii) (hclear : k.enterFlag = false)
    (hascii : ascii ≠ 0) :
    ∃ k', keyboardHandlerMain scan past k = some k' ∧ CharAdded k k' := by
  have hmod := sameConsole_setModifiers k scan.toNat
  have hentered := (setModifiers_lines scan.toNat k).2.2.2
  have hrun := keyboardHandlerMain_eq scan past h.keys
  rw [hkey] at hrun
  rw [hclear] at hentered
  generalize setModifiers scan.toNat k = k₀ at hmod hentered hrun
  have hsame := hmod.trans (sameConsole_bufFlag k₀ 3)
  have hready := hsame.screens h.screens
  obtain ⟨k₁, hadd, hadded⟩ := add2buf_spec hready.mapped (hready.cursor _) ascii
  have htyped : handleKey (.char ascii) k₀ = some k₁ := by
    refine (if_neg ?_).trans ((if_pos hascii).trans hadd)
    rw [hentered]
    exact Bool.false_ne_true
  refine ⟨resetFlags k₁, ?_, ?_⟩
  · rw [hrun, htyped, Option.map_some]
  · obtain ⟨hkeeps, hisolated, hleaks⟩ := hsame.charAdded hadded
    have hreset := sameConsole_resetFlags k₁
    exact ⟨hreset.keeps_after hkeeps, fun hsafe =>
      ⟨hreset.only_after (hisolated hsafe).1, (hisolated hsafe).2⟩, hleaks⟩

/-- Every terminal starts in the first cell of its screen. -/
theorem Booted.cursor {m : PowerOn} {k : Kernel} (h : Booted m k) (t : Tid) :
    (k.terminalArr t).cursor = (0, 0) := by
  rw [h.terminalArr]
  rfl

theorem Booted.idle {m : PowerOn} {k : Kernel} (h : Booted m k) :
    k.modifiers = (false, false, false, false) ∧ k.enterFlag = false := by
  obtain ⟨hctrl, halt, hshift, hcaps, -, -, -, hentered, -⟩ := h.noFlags
  rw [Kernel.modifiers, hctrl, halt, hshift, hcaps, hentered]
  exact ⟨rfl, rfl⟩

/-- **The cursors stay on the screens** along every run of keys, ticks and writes in which no key
moves the displayed cursor over an end of its screen while another terminal is scheduled. -/
theorem cursors_of_run (m : PowerOn) {es : List ConsoleEvent} {k : Kernel}
    (hrun : Run (fun k e k' => consoleStep k e k' ∧ e.Safe k) (bootKernel m) es k) :
    CursorsInside k := by
  have hready := consoleReady_of_run hrun
  exact ⟨hready.screens.cursor, hready.stores⟩

/-- A letter is written on terminal 1 while terminal 0 is displayed, and control is pressed. -/
structure HiddenLetter (k : Kernel) : Prop where
  run : Run (fun k e k' => consoleStep k e k' ∧ e.Safe k) (bootKernel .blank)
    [.tick 0, .write (some fun _ => 0x61) 1, .key 29 0] k
  scheduled : k.terminalNum = 1
  display : k.terminalNumDisplay = 0
  modifiers : k.modifiers = (true, false, false, false)
  entered : k.enterFlag = false
  shown : (k.terminalArr 0).cursor = (0, 0)
  hidden : (k.terminalArr 1).cursor = (1, 0)

theorem exists_hiddenLetter : ∃ k, HiddenLetter k := by
  have hbooted := booted_bootKernel .blank
  have hready₁ := (consoleReady_bootKernel .blank).tick 0
  obtain ⟨hmodifiers, hentered⟩ := hbooted.idle
  have hcursor : ∀ t, ((leaveTerminal 0 (bootKernel .blank)).terminalArr t).cursor = (0, 0) := by
    intro t
    rw [leaveTerminal_cursor, hbooted.cursor]
  obtain ⟨hnum₁, hshown₁, hmodifiers₁, hentered₁⟩ := leaveTerminal_frame 0 (bootKernel .blank)
  rw [hbooted.terminalNum] at hnum₁
  rw [hbooted.terminalNumDisplay] at hshown₁
  rw [hmodifiers] at hmodifiers₁
  rw [hentered] at hentered₁
  have hstep₁ : consoleStep (bootKernel .blank) (.tick 0) (leaveTerminal 0 (bootKernel .blank)) :=
    rfl
  generalize leaveTerminal 0 (bootKernel .blank) = k₁ at *
  obtain ⟨k₂, hwrite, hwrites⟩ := terminalWrite_spec hready₁.screens.mapped
    (hready₁.screens.cursor k₁.terminalNum) (fun _ => 0x61) (show ¬ (1 : Int32) < 0 by decide)
  have hstep₂ : consoleStep k₁ (.write (some fun _ => 0x61) 1) k₂ :=
    congrArg (Option.map Prod.snd) hwrite
  have hdraws := terminalWrite_draws hwrite
  have hready₂ := hready₁.step (e := .write (some fun _ => 0x61) 1) trivial hstep₂
  rw [hcursor] at hwrites
  have hentered₂ := hdraws.enterFlag.trans hentered₁
  have hmodifiers₂ := hdraws.modifiers.trans hmodifiers₁
  -- Control is a modifier.
  have hkey : keyOf 29 0 k₂ = .idle := keyOf_eq hmodifiers₂ rfl
  have hstep₃ := keyboardHandlerMain_idle hready₂.keys hkey hentered₂
  have hctrl : setModifiers (29 : UInt8).toNat k₂ = { k₂ with ctrlFlag := true } := by
    unfold setModifiers
    cases k₂.altFlag <;> rfl
  rw [hctrl] at hstep₃
  have hsafe : ConsoleEvent.Safe k₂ (.key 29 0) := by
    rw [ConsoleEvent.Safe, hkey]
    exact ⟨nofun, nofun⟩
  refine ⟨_, (((Run.single ⟨hstep₁, trivial⟩).snoc ⟨hstep₂, trivial⟩).snoc ⟨hstep₃, hsafe⟩),
    hdraws.terminalNum.trans hnum₁, hdraws.display.trans hshown₁, ?_, hentered₂, ?_, ?_⟩
  · have hmod : k₂.modifiers = (false, false, false, false) := hmodifiers₂
    simp only [Kernel.modifiers, Prod.mk.injEq] at hmod
    simp only [Kernel.modifiers, resetFlags, hmod]
  · have hother := hwrites.only.terminal 0 (by rw [hnum₁]; decide)
    exact (congrArg Terminal.cursor hother).trans (hcursor 0)
  · have hmoved := hwrites.moved
    rw [hnum₁] at hmoved
    exact hmoved

theorem cursors_of_run_hidden_letter : ∃ k, HiddenLetter k ∧ CursorsInside k := by
  obtain ⟨k, hk⟩ := exists_hiddenLetter
  exact ⟨k, hk, cursors_of_run .blank hk.run⟩

/-- 24 newlines and 79 characters. -/
def cornerText : Buf := fun i => if i < 24 then chNewline else 0x61

theorem cornerText_cursor : cursorAfter cornerText (0, 0) 103 = (79, 24) := by
  decide +kernel

/-- A character in the last cell of the displayed screen, while terminal 1 is scheduled. -/
theorem cursors_fail_in_corner :
    ¬ ∀ (m : PowerOn) (es : List ConsoleEvent) (k : Kernel),
      Run consoleStep (bootKernel m) es k → CursorsInside k := by
  intro h
  have hbooted := booted_bootKernel .blank
  have hready := consoleReady_bootKernel .blank
  have hnum := hbooted.terminalNum
  have hstart := hbooted.cursor (bootKernel .blank).terminalNum
  have hlines : ((bootKernel .blank).lines 0).screenBufTop = 0 := by
    rw [Kernel.lines, hbooted.terminalArr]
    rfl
  obtain ⟨hmodifiers, hentered⟩ := hbooted.idle
  have hshown := hbooted.terminalNumDisplay
  have hruns := h .blank
  generalize bootKernel .blank = k at *
  obtain ⟨k₁, hwrite, hwrites⟩ := terminalWrite_spec hready.screens.mapped
    (hready.screens.cursor k.terminalNum) cornerText (show ¬ (103 : Int32) < 0 by decide)
  have hstep₁ : consoleStep k (.write (some cornerText) 103) k₁ :=
    congrArg (Option.map Prod.snd) hwrite
  rw [hstart] at hwrites
  have hcorner := hwrites.moved.trans cornerText_cursor
  have hdraws := terminalWrite_draws hwrite
  rw [hnum] at hcorner
  -- After the tick terminal 1 is scheduled, and terminal 0 displayed.
  have hready₂ := (hready.step (e := .write (some cornerText) 103) trivial hstep₁).tick 0
  have hstep₂ : consoleStep k₁ (.tick 0) (leaveTerminal 0 k₁) := rfl
  obtain ⟨hnum₂, hshown₂, hmodifiers₂, hentered₂⟩ := leaveTerminal_frame 0 k₁
  rw [hdraws.terminalNum, hnum] at hnum₂
  rw [hdraws.display, hshown] at hshown₂
  rw [hdraws.modifiers, hmodifiers] at hmodifiers₂
  rw [hdraws.enterFlag, hentered] at hentered₂
  have hcorner₂ := (leaveTerminal_cursor 0 k₁ 0).trans hcorner
  have hlines₂ : ((leaveTerminal 0 k₁).lines 0).screenBufTop = 0 := by
    rw [leaveTerminal_lines, hdraws.lines, hlines]
  generalize leaveTerminal 0 k₁ = k₂ at *
  -- The letter is stored in the last cell.
  have hkey : keyOf 30 0 k₂ = .char 0x61 := keyOf_eq hmodifiers₂ rfl
  obtain ⟨k₃, hstep₃, hadded⟩ := hready₂.key_char hkey hentered₂ (by decide)
  obtain ⟨⟨-, hrow⟩, -⟩ := hadded.leaks (by rw [hnum₂, hshown₂]; decide) <| by
    refine ⟨?_, ?_, ?_⟩ <;> rw [hshown₂]
    · exact Nat.lt_of_le_of_lt (Nat.le_of_eq hlines₂) (by decide)
    · exact congrArg Prod.fst hcorner₂
    · exact congrArg Prod.snd hcorner₂
  have hlast : consoleStep k₂ (.key 30 0) k₃ := hstep₃
  have hinside := (hruns _ k₃ (((Run.single hstep₁).snoc hstep₂).snoc hlast)).cursors
    k₂.terminalNumDisplay
  have hrow' := hinside.cursorY
  rw [hrow] at hrow'
  exact Nat.lt_irrefl _ hrow'

end JuddOS
