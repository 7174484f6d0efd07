import JuddOS.Sessions

/-!
# Reading lines on three terminals

What the reads of a session return.

* `SessionReady` is the invariant: each buffer holds what its editor says, and `enter_flag` is set
  exactly when the line of the displayed terminal is complete.
* `reads_of_run`: every read takes the completed line of its own terminal, and Enter leaves the
  other terminals alone, in every run in which each event is `Proper`.
-/

namespace JuddOS

open Support

/-! ## What a read should do -/

/-- A read of terminal `t` may return: Enter has completed the line of `t` since the last one did,
and a call with room for it gets exactly this line. -/
def Session.MayReturn (s : Session) (t : Tid) (nbytes : Int32) (chars : List UInt8) : Prop :=
  ∃ text, s.editor t = .entered text ∧ (128 ≤ nbytes → chars = text ++ [lineEnd text])

/-- **Input stays on its terminal.**  Every return is one that may happen, and pressing Enter
changes neither another terminal nor the place of its reader. -/
def InputStays (s : Session) (e : SessionEvent) (s' : Session) : Prop :=
  match e with
  | .console (.key scan past) => keyOf scan past s.kernel = .enter →
      ∀ t, t ≠ s.kernel.terminalNumDisplay →
        s'.kernel.terminalArr t = s.kernel.terminalArr t ∧ s'.reader t = s.reader t
  | .call t buf nbytes => buf = none ∨ nbytes < 0 → s.MayReturn t nbytes []
  | .ret t => ∀ buf nbytes, s.reader t = .leaving buf nbytes →
      s.MayReturn t nbytes (delivered (takeLine buf nbytes s.kernel).1)
  | _ => True

/-- Enter was pressed while `t` was displayed, and no read of `t` has returned since then. -/
def EnteredSince (m : PowerOn) (es : List SessionEvent) (t : Tid) : Prop :=
  ∃ before s scan past after, es = before ++ .console (.key scan past) :: after ∧
    Run SessionStep (bootSession m) before s ∧ keyOf scan past s.kernel = .enter ∧
    s.kernel.terminalNumDisplay = t ∧ .ret t ∉ after

/-- The newline of Enter takes the cursor of the displayed terminal below the screen before
`enter_press` can put it right. -/
structure PushesDown (k : Kernel) : Prop where
  lineOpen : LineOpen k
  room : (k.terminalArr k.terminalNumDisplay).screenBufTop < screenBufSize - 1
  below : numRows ≤
    if (k.terminalArr k.terminalNumDisplay).cursorX < numCols - 1 then
      (k.terminalArr k.terminalNumDisplay).cursorY
    else ((k.terminalArr k.terminalNumDisplay).cursorY + 1) % 256

theorem SameConsole.pushesDown {k k₁ : Kernel} (h : SameConsole k k₁) (hdown : PushesDown k₁) :
    PushesDown k := by
  obtain ⟨hopen, hroom, hbelow⟩ := hdown
  rw [h.terminalArr, h.display] at hroom hbelow
  exact ⟨h.lineOpen hopen, hroom, hbelow⟩

/-- The condition on a key. -/
structure KeyProper (s : Session) (key : Key) : Prop extends
    Editor.Accepts key s.kernel.enterFlag where
  /-- No other terminal is shown between Enter and the return of the read. -/
  switch : ∀ index, key = .switch index → index ≠ s.kernel.terminalNumDisplay →
    s.kernel.enterFlag = false ∧ ∀ t buf nbytes, s.reader t ≠ .flagSeen buf nbytes
  enter : key = .enter →
    s.kernel.terminalNum = s.kernel.terminalNumDisplay ∨ ¬ PushesDown s.kernel

/-- **The condition on an event.**  A line that fills the buffer must still have the return at its
end that `terminal_read` has put there. -/
def SessionEvent.Proper (s : Session) : SessionEvent → Prop
  | .console (.key scan past) => KeyProper s (keyOf scan past s.kernel)
  | .call _ buf nbytes => ¬ (buf = none ∨ nbytes < 0)
  | .ret t => ∀ buf nbytes, s.reader t = .leaving buf nbytes → 128 ≤ nbytes →
      (s.kernel.lines s.kernel.terminalNumDisplay).isOpen = true →
      (s.kernel.lines s.kernel.terminalNumDisplay).screenBuf (screenBufSize - 1) = chReturn
  | _ => True

/-! ## The invariant -/

structure SessionReady (s : Session) : Prop where
  keys : NoKeyPending s.kernel
  fits : ∀ t, (s.kernel.lines t).Fits
  holds : ∀ t, (s.editor t).Holds (s.kernel.lines t)
  entered_iff : ∀ t, (∃ text, s.editor t = .entered text) ↔
    s.kernel.enterFlag = true ∧ s.kernel.terminalNumDisplay = t
  seen : ∀ t buf nbytes, s.reader t = .flagSeen buf nbytes →
    s.kernel.terminalNumDisplay = t → s.kernel.enterFlag = true
  leaving : ∀ t buf nbytes, s.reader t = .leaving buf nbytes →
    s.kernel.terminalNumDisplay = t ∧ s.kernel.enterFlag = true

theorem sessionReady_bootSession (m : PowerOn) : SessionReady (bootSession m) := by
  have hready := consoleReady_bootKernel m
  have hbooted := booted_bootKernel m
  refine ⟨hready.keys, hready.lines, fun t => ⟨nofun, ?_⟩, fun t => ⟨nofun, fun h => ?_⟩, nofun,
    nofun⟩
  · show (Kernel.lines (bootKernel m) t).text = []
    rw [Kernel.lines, hbooted.terminalArr]
    rfl
  · have hclear : (bootKernel m).enterFlag = false := hbooted.idle.2
    have hset : (bootKernel m).enterFlag = true := h.1
    rw [hclear] at hset
    cases hset

/-- A key changes the displayed terminal only when no line is complete and no reader has seen the
flag. -/
theorem KeyProper.display_eq {s : Session} {key : Key} (h : KeyProper s key)
    (hset : s.kernel.enterFlag = true ∨ ∃ t buf nbytes, s.reader t = .flagSeen buf nbytes) :
    key.display s.kernel.terminalNumDisplay = s.kernel.terminalNumDisplay := by
  cases key with
  | switch index =>
      by_contra hne
      obtain ⟨hclear, hnone⟩ := h.switch index rfl hne
      rcases hset with hflag | ⟨t, buf, nbytes, hseen⟩
      · rw [hclear] at hflag
        cases hflag
      · exact hnone t buf nbytes hseen
  | _ => rfl

/-- When the editor of the displayed terminal is complete after a key. -/
theorem Editor.key_entered_iff (editor : Editor) (key : Key) :
    (∃ text, editor.key key = .entered text) ↔
      (∃ text, editor = .entered text) ∨ key = .enter := by
  cases editor with
  | entered text => simp [Editor.key]
  | typing text =>
      cases key with
      | char c =>
          rw [Editor.key]
          split <;> simp
      | _ => simp [Editor.key]

namespace SessionReady

variable {s : Session} {k : Kernel}

/-- An event that leaves the lines, the displayed terminal and `enter_flag` alone. -/
theorem of_same (h : SessionReady s) (hkeys : NoKeyPending k) (hlines : k.lines = s.kernel.lines)
    (hshown : k.terminalNumDisplay = s.kernel.terminalNumDisplay)
    (hflag : k.enterFlag = s.kernel.enterFlag) : SessionReady { s with kernel := k } where
  keys := hkeys
  fits t := by
    rw [hlines]
    exact h.fits t
  holds t := by
    rw [hlines]
    exact h.holds t
  entered_iff t := by
    rw [hflag, hshown]
    exact h.entered_iff t
  seen t buf nbytes hseen hdisplay := by
    rw [hshown] at hdisplay
    rw [hflag]
    exact h.seen t buf nbytes hseen hdisplay
  leaving t buf nbytes hleaving := by
    rw [hshown, hflag]
    exact h.leaving t buf nbytes hleaving

/-- **A key.** -/
theorem key (h : SessionReady s) {scan : UInt8} {past : UInt32}
    (hproper : KeyProper s (keyOf scan past s.kernel))
    (hrun : keyboardHandlerMain scan past s.kernel = some k) :
    SessionReady { s with kernel := k, editor := s.typed (.key scan past) } := by
  obtain ⟨hkeys, hlines, -, hshown, hflag, -⟩ := keyboardHandlerMain_lines h.keys hrun
  have heditor : s.typed (.key scan past) = Function.update s.editor s.kernel.terminalNumDisplay
      ((s.editor s.kernel.terminalNumDisplay).key (keyOf scan past s.kernel)) := rfl
  rw [heditor]
  generalize keyOf scan past s.kernel = key at *
  have hentered : s.kernel.enterFlag = true ↔
      ∃ text, s.editor s.kernel.terminalNumDisplay = .entered text := by
    rw [h.entered_iff]
    exact ⟨fun hset => ⟨hset, rfl⟩, fun hset => hset.1⟩
  -- No key clears `enter_flag`; only a read does.
  have hflagstays : s.kernel.enterFlag = true → k.enterFlag = true := by
    intro hset
    rw [hflag, hset]
    rfl
  refine ⟨hkeys, fun t => ?_, fun t => ?_, fun t => ?_, fun t buf nbytes hseen hdisplay => ?_,
    fun t buf nbytes hleaving => ?_⟩
  · rw [hlines]
    by_cases ht : t = s.kernel.terminalNumDisplay
    · rw [ht, Function.update_self]
      exact (h.fits _).editLine _ _
    · rw [Function.update_of_ne ht]
      exact h.fits t
  · dsimp only
    rw [hlines]
    by_cases ht : t = s.kernel.terminalNumDisplay
    · rw [ht, Function.update_self, Function.update_self]
      exact holds_editLine (h.holds _) hproper.toAccepts hentered
    · rw [Function.update_of_ne ht, Function.update_of_ne ht]
      exact h.holds t
  · dsimp only
    rw [hflag, hshown, Key.entered, Bool.or_eq_true, decide_eq_true_eq]
    by_cases ht : t = s.kernel.terminalNumDisplay
    · rw [ht, Function.update_self, Editor.key_entered_iff, ← hentered]
      constructor
      · rintro (hset | rfl)
        · exact ⟨.inl hset, hproper.display_eq (.inl hset)⟩
        · exact ⟨.inr rfl, rfl⟩
      · exact fun hset => hset.1
    · rw [Function.update_of_ne ht, h.entered_iff]
      constructor
      · rintro ⟨-, hsame⟩
        exact absurd hsame.symm ht
      · rintro ⟨hset, hsame⟩
        refine absurd ?_ ht
        rcases hset with hset | rfl
        · rw [← hsame, hproper.display_eq (.inl hset)]
        · exact hsame.symm
  · dsimp only at hseen hdisplay ⊢
    rw [hshown, hproper.display_eq (.inr ⟨t, buf, nbytes, hseen⟩)] at hdisplay
    exact hflagstays (h.seen t buf nbytes hseen hdisplay)
  · obtain ⟨hdisplay, hset⟩ := h.leaving t buf nbytes hleaving
    dsimp only
    rw [hshown, hproper.display_eq (.inl hset)]
    exact ⟨hdisplay, hflagstays hset⟩

/-- A reader that goes to a place in the loop. -/
theorem setReader (h : SessionReady s) (t : Tid) {r : Reader}
    (hseen : ∀ buf nbytes, r = .flagSeen buf nbytes →
      s.kernel.terminalNumDisplay = t → s.kernel.enterFlag = true)
    (hleaving : ∀ buf nbytes, r = .leaving buf nbytes →
      s.kernel.terminalNumDisplay = t ∧ s.kernel.enterFlag = true) :
    SessionReady (s.setReader t r) where
  keys := h.keys
  fits := h.fits
  holds := h.holds
  entered_iff := h.entered_iff
  seen u buf nbytes hu := by
    by_cases hut : u = t
    · subst hut
      rw [Session.setReader_self] at hu
      exact hseen buf nbytes hu
    · rw [Session.setReader_of_ne s r hut] at hu
      exact h.seen u buf nbytes hu
  leaving u buf nbytes hu := by
    by_cases hut : u = t
    · subst hut
      rw [Session.setReader_self] at hu
      exact hleaving buf nbytes hu
    · rw [Session.setReader_of_ne s r hut] at hu
      exact h.leaving u buf nbytes hu

/-- The return that a call stores is past the text. -/
theorem plantReturn (h : SessionReady s) :
    SessionReady { s with kernel := plantReturn s.kernel } := by
  have hedit : EditsLine
      (fun line => ⟨Function.update line.screenBuf (screenBufSize - 1) chReturn, line.screenBufTop⟩)
      s.kernel (JuddOS.plantReturn s.kernel) := .setTerminal s.kernel rfl
  obtain ⟨hbuf, hback, hctrlL, hzero, hone, htwo⟩ := h.keys
  refine ⟨⟨hbuf, hback, hctrlL, hzero, hone, htwo⟩, fun t => ?_, fun t => ?_, h.entered_iff, h.seen,
    h.leaving⟩
  · rw [hedit.lines]
    by_cases ht : t = s.kernel.terminalNumDisplay
    · rw [ht, Function.update_self]
      exact h.fits _
    · rw [Function.update_of_ne ht]
      exact h.fits t
  · rw [hedit.lines]
    by_cases ht : t = s.kernel.terminalNumDisplay
    · rw [ht, Function.update_self]
      refine (h.holds _).congr (Line.text_update _ _ ?_)
      exact Nat.le_pred_of_lt (h.fits _)
    · rw [Function.update_of_ne ht]
      exact h.holds t

/-- **A return** starts a new line on its terminal, which is the displayed one. -/
theorem ret (h : SessionReady s) {t : Tid} {buf : Buf} {nbytes : Int32}
    (hleaving : s.reader t = .leaving buf nbytes) :
    SessionReady
      { kernel := (takeLine buf nbytes s.kernel).2
        reader := Function.update s.reader t .away
        editor := Function.update s.editor t (.typing []) } := by
  obtain ⟨hshown, -⟩ := h.leaving t buf nbytes hleaving
  have hedit : EditsLine Line.empty { s.kernel with enterFlag := false }
      (takeLine buf nbytes s.kernel).2 := clearbuf_lines _
  have hlines : (takeLine buf nbytes s.kernel).2.lines =
      Function.update s.kernel.lines t (s.kernel.lines t).empty := by
    rw [← hshown]
    exact hedit.lines
  have hclear : (takeLine buf nbytes s.kernel).2.enterFlag = false := hedit.enterFlag
  have hdisplay : (takeLine buf nbytes s.kernel).2.terminalNumDisplay = t :=
    hedit.display.trans hshown
  obtain ⟨hbuf, hback, hctrlL, hzero, hone, htwo⟩ := h.keys
  refine ⟨⟨hbuf, hback, hctrlL, hzero, hone, htwo⟩, fun u => ?_, fun u => ?_, fun u => ?_,
    fun u buf' nbytes' hu hsame => ?_, fun u buf' nbytes' hu => ?_⟩
  · rw [hlines]
    by_cases hut : u = t
    · rw [hut, Function.update_self]
      exact Line.fits_empty _
    · rw [Function.update_of_ne hut]
      exact h.fits u
  · dsimp only
    rw [hlines]
    by_cases hut : u = t
    · rw [hut, Function.update_self, Function.update_self]
      exact ⟨nofun, Line.text_empty _⟩
    · rw [Function.update_of_ne hut, Function.update_of_ne hut]
      exact h.holds u
  · dsimp only
    rw [hclear]
    by_cases hut : u = t
    · rw [hut, Function.update_self]
      exact ⟨nofun, nofun⟩
    · rw [Function.update_of_ne hut, h.entered_iff, hshown]
      exact ⟨fun hset => absurd hset.2.symm hut, nofun⟩
  · -- The reader of the displayed terminal has just returned.
    dsimp only at hu hsame
    rw [hdisplay] at hsame
    rw [← hsame, Function.update_self] at hu
    cases hu
  · dsimp only at hu
    by_cases hut : u = t
    · rw [hut, Function.update_self] at hu
      cases hu
    · rw [Function.update_of_ne hut] at hu
      obtain ⟨hother, -⟩ := h.leaving u buf' nbytes' hu
      exact absurd (hother.symm.trans hshown) hut

end SessionReady

/-! ## Enter and the other terminals -/

theorem scrollUp_others {k k' : Kernel} (h : scrollUp k = some k') {t : Tid}
    (ht : t ≠ k.terminalNum) : k'.terminalArr t = k.terminalArr t := by
  obtain ⟨phys, rfl⟩ := scrollUp_frame h
  exact Kernel.setTerminal_of_ne _ _ ht

theorem updateCursor_others {x y : Nat} {k k' : Kernel} (h : updateCursor x y k = some k')
    (hx : x < numCols) {t : Tid} (ht : y < numRows ∨ t ≠ k.terminalNum) :
    k'.terminalArr t = k.terminalArr t := by
  rcases Nat.lt_or_ge y numRows with hy | hy
  · rw [updateCursor_inside hx hy] at h
    cases h
    rfl
  · have hother : t ≠ k.terminalNum := ht.resolve_left (Nat.not_lt.mpr hy)
    rw [updateCursor_below hx hy, Option.map_eq_some_iff] at h
    obtain ⟨k₁, hscroll, rfl⟩ := h
    have hsame := scrollUp_others hscroll hother
    exact hsame

/-- The newline is added to the line without being drawn. -/
theorem add2buf_newline_others {k k' : Kernel} (h : add2buf chNewline k = some k')
    (hopen : LineOpen k) (hsafe : k.terminalNum = k.terminalNumDisplay ∨ ¬ PushesDown k) {t : Tid}
    (ht : t ≠ k.terminalNumDisplay) : k'.terminalArr t = k.terminalArr t := by
  rw [add2buf] at h
  split at h
  case isFalse =>
    cases h
    rfl
  case isTrue hroom =>
    have hput : putcAddr chNewline k = some k := if_pos (.inl rfl)
    rw [hput, Option.bind_eq_bind, Option.bind_some] at h
    dsimp only at h
    have hself : (k.setTerminal k.terminalNumDisplay (appendToLine chNewline)).terminalArr
        k.terminalNumDisplay = appendToLine chNewline (k.terminalArr k.terminalNumDisplay) :=
      Kernel.setTerminal_self _ _ _
    have hother := k.setTerminal_of_ne (appendToLine chNewline) ht
    -- The row that `update_cursor` is called with.
    have hrow : (if (k.terminalArr k.terminalNumDisplay).cursorX < numCols - 1 then
          (k.terminalArr k.terminalNumDisplay).cursorY
        else ((k.terminalArr k.terminalNumDisplay).cursorY + 1) % 256) < numRows ∨
        t ≠ k.terminalNum := by
      rcases hsafe with hown | hnot
      · right
        rw [hown]
        exact ht
      · left
        by_contra hbelow
        exact hnot ⟨hopen, hroom, Nat.le_of_not_lt hbelow⟩
    rw [← hother]
    have hnum : (k.setTerminal k.terminalNumDisplay (appendToLine chNewline)).terminalNum =
        k.terminalNum := rfl
    generalize k.setTerminal k.terminalNumDisplay (appendToLine chNewline) = k₁ at *
    have hcol : (k₁.terminalArr k.terminalNumDisplay).cursorX =
        (k.terminalArr k.terminalNumDisplay).cursorX := by
      rw [hself]
      rfl
    have hline : (k₁.terminalArr k.terminalNumDisplay).cursorY =
        (k.terminalArr k.terminalNumDisplay).cursorY := by
      rw [hself]
      rfl
    rw [hcol] at h
    split at h
    case isTrue hinside =>
      rw [if_pos hinside] at hrow
      rw [updateCursorOf, Kernel.setTerminal_self] at h
      refine (updateCursor_others h ?_ ?_).trans (k₁.setTerminal_of_ne _ ht)
      · simp only [numCols] at hinside ⊢
        omega
      · rw [hline]
        exact hrow.imp_right fun hne => hnum ▸ hne
    case isFalse hend =>
      rw [if_neg hend] at hrow
      rw [updateCursorOf, Kernel.setTerminal_self] at h
      refine (updateCursor_others h (show 0 < numCols by decide) ?_).trans
        (k₁.setTerminal_of_ne _ ht)
      dsimp only
      rw [hline]
      exact hrow.imp_right fun hne => hnum ▸ hne

/-- **Enter** stays on the displayed terminal unless it pushes the cursor below the screen while
another one is scheduled. -/
theorem enterPress_newline_others {k k' : Kernel} (h : enterPress chNewline k = some k')
    (hsafe : k.terminalNum = k.terminalNumDisplay ∨ ¬ PushesDown k) {t : Tid}
    (ht : t ≠ k.terminalNumDisplay) : k'.terminalArr t = k.terminalArr t := by
  rw [enterPress] at h
  split at h
  case isFalse =>
    cases h
    rfl
  case isTrue hopen =>
    rw [Option.bind_eq_bind, Option.bind_eq_some_iff] at h
    obtain ⟨k₁, hadd, hrest⟩ := h
    rw [← add2buf_newline_others hadd hopen hsafe ht]
    have hmoved := k₁.setTerminal_of_ne
      (fun t => { t with cursorX := 0, cursorY := (t.cursorY + 1) % 256 }) ht
    dsimp only at hrest
    split at hrest
    · rw [Option.bind_eq_some_iff] at hrest
      obtain ⟨k₂, hscroll, hk'⟩ := hrest
      cases hk'
      rw [Kernel.setTerminal_of_ne k₂ _ ht, scrollCells_frame hscroll]
      exact hmoved
    · cases hrest
      exact hmoved

/-! ## Runs -/

/-- **One step** keeps the invariant. -/
theorem SessionReady.step {s s' : Session} {e : SessionEvent} (h : SessionReady s)
    (hproper : e.Proper s) (hstep : SessionStep s e s') : SessionReady s' := by
  cases hstep with
  | @console e k hrun =>
      cases e with
      | key scan past => exact h.key hproper hrun
      | tick ebp =>
          cases hrun
          obtain ⟨-, hshown, -, hflag⟩ := leaveTerminal_frame ebp s.kernel
          obtain ⟨hbuf, hback, hctrlL, hzero, hone, htwo⟩ := h.keys
          exact h.of_same ⟨hbuf, hback, hctrlL, hzero, hone, htwo⟩
            (leaveTerminal_lines ebp s.kernel) hshown hflag
      | write buf nbytes =>
          rw [consoleStep, ConsoleEvent.exec, Option.map_eq_some_iff] at hrun
          obtain ⟨⟨v, k₁⟩, hwrite, rfl⟩ := hrun
          have hdraws := terminalWrite_draws hwrite
          exact h.of_same (h.keys.draws hdraws) hdraws.lines hdraws.display hdraws.enterFlag
  | refused => exact h.plantReturn
  | call => exact h.plantReturn.setReader _ (by rintro _ _ ⟨⟩) (by rintro _ _ ⟨⟩)
  | spin => exact h
  | seen hrun hwaiting hflag =>
      exact h.setReader _ (fun _ _ _ _ => hflag) (by rintro _ _ ⟨⟩)
  | again => exact h.setReader _ (by rintro _ _ ⟨⟩) (by rintro _ _ ⟨⟩)
  | @leave t buf nbytes hrun hseen hshown =>
      have hdisplay : s.kernel.terminalNumDisplay = t := hshown.symm.trans hrun
      exact h.setReader t (by rintro _ _ ⟨⟩) fun _ _ _ =>
        ⟨hdisplay, h.seen t buf nbytes hseen hdisplay⟩
  | ret hrun hleaving => exact h.ret hleaving

theorem sessionReady_of_run {m : PowerOn} {es : List SessionEvent} {s : Session}
    (hrun : Run (fun s e s' => SessionStep s e s' ∧ e.Proper s) (bootSession m) es s) :
    SessionReady s :=
  hrun.invariant_of_guard SessionReady (sessionReady_bootSession m)
    fun _ _ _ hready hproper hstep => hready.step hproper hstep

theorem readLimit_of_le {nbytes : Int32} (h : 128 ≤ nbytes) : readLimit nbytes = screenBufSize := by
  unfold readLimit
  split
  · rfl
  · rename_i hle
    have hint := Int32.le_iff_toInt_le.mp h
    have hint' := Int32.le_iff_toInt_le.mp (Int32.not_lt.mp hle)
    have h128 : (128 : Int32).toInt = 128 := rfl
    simp only [screenBufSize]
    omega

/-- A read that is past the loop takes the completed line of its terminal. -/
theorem SessionReady.mayReturn {s : Session} (h : SessionReady s) {t : Tid} {buf : Buf}
    {nbytes : Int32} (hleaving : s.reader t = .leaving buf nbytes)
    (hfull : 128 ≤ nbytes → (s.kernel.lines s.kernel.terminalNumDisplay).isOpen = true →
      (s.kernel.lines s.kernel.terminalNumDisplay).screenBuf (screenBufSize - 1) = chReturn) :
    s.MayReturn t nbytes (delivered (takeLine buf nbytes s.kernel).1) := by
  obtain ⟨hshown, hset⟩ := h.leaving t buf nbytes hleaving
  obtain ⟨text, htext⟩ := (h.entered_iff t).mpr ⟨hset, hshown⟩
  have hholds := h.holds t
  rw [htext] at hholds
  refine ⟨text, htext, fun hn => ?_⟩
  have hfull' := hfull hn
  rw [hshown] at hfull'
  have htaken : (takeLine buf nbytes s.kernel).1 =
      copyLine (s.kernel.lines t).screenBuf screenBufSize 0 buf := by
    rw [← readLimit_of_le hn, ← hshown]
    rfl
  rw [htaken]
  exact hholds.delivers (h.fits t) hfull' buf

theorem EnteredSince.snoc {m : PowerOn} {es : List SessionEvent} {t : Tid}
    (h : EnteredSince m es t) {e : SessionEvent} (hret : e ≠ .ret t) :
    EnteredSince m (es ++ [e]) t := by
  obtain ⟨before, s, scan, past, after, rfl, hrun, hkey, hshown, hnone⟩ := h
  refine ⟨before, s, scan, past, after ++ [e], by simp, hrun, hkey, hshown, fun hmem => ?_⟩
  rcases List.mem_append.mp hmem with hold | hlast
  · exact hnone hold
  · exact hret (List.mem_singleton.mp hlast).symm

/-- **A line is complete** only when Enter was pressed on its terminal since its last read
returned. -/
theorem enteredSince_of_run {m : PowerOn} {es : List SessionEvent} {s : Session}
    (hrun : Run SessionStep (bootSession m) es s) {t : Tid} {text : List UInt8}
    (htext : s.editor t = .entered text) : EnteredSince m es t := by
  induction hrun generalizing text with
  | nil => cases htext
  | @snoc s₁ s₂ es e before last ih =>
      -- Any other event leaves the editor of `t` alone.
      have hold : ∀ {text'}, s₁.editor t = .entered text' → e ≠ .ret t →
          EnteredSince m (es ++ [e]) t := fun hentered hret => (ih hentered).snoc hret
      cases last with
      | @console e k hexec =>
          cases e with
          | key scan past =>
              by_cases ht : t = s₁.kernel.terminalNumDisplay
              · have hkey : (s₁.editor t).key (keyOf scan past s₁.kernel) = .entered text := by
                  rw [ht] at htext ⊢
                  exact (Function.update_self ..).symm.trans htext
                rcases (Editor.key_entered_iff _ _).mp ⟨text, hkey⟩ with ⟨text', hentered⟩ | henter
                · exact hold hentered nofun
                · exact ⟨es, s₁, scan, past, [], rfl, before, henter, ht.symm, nofun⟩
              · exact hold ((Function.update_of_ne ht ..).symm.trans htext) nofun
          | tick ebp => exact hold htext nofun
          | write buf nbytes => exact hold htext nofun
      | @ret u buf nbytes hnum hleaving =>
          by_cases ht : t = u
          · subst ht
            have hnew : Editor.typing [] = .entered text :=
              (Function.update_self ..).symm.trans htext
            cases hnew
          · refine hold ((Function.update_of_ne ht ..).symm.trans htext) fun hret => ?_
            cases hret
            exact ht rfl
      | _ => exact hold htext nofun

/-- **Input stays on its terminal** in every run of proper events: a read returns only after Enter
on its own terminal and with the line that this completed, and Enter changes no other terminal. -/
theorem reads_of_run (m : PowerOn) {es : List SessionEvent} {s s' : Session} {e : SessionEvent}
    (hrun : Run (fun s e s' => SessionStep s e s' ∧ e.Proper s) (bootSession m) es s)
    (hstep : SessionStep s e s') (hproper : e.Proper s) :
    InputStays s e s' ∧ ∀ t, e = .ret t → EnteredSince m es t := by
  have hready := sessionReady_of_run hrun
  -- A reader past the loop is on the displayed terminal, whose line is complete.
  have hsince : ∀ t buf nbytes, s.reader t = .leaving buf nbytes → EnteredSince m es t := by
    intro t buf nbytes hleaving
    obtain ⟨hshown, hset⟩ := hready.leaving t buf nbytes hleaving
    obtain ⟨text, htext⟩ := (hready.entered_iff t).mpr ⟨hset, hshown⟩
    exact enteredSince_of_run (hrun.mono fun _ _ _ hstep => hstep.1) htext
  refine ⟨?_, fun t ht => ?_⟩
  case refine_2 =>
    subst ht
    cases hstep with
    | ret hrun' hleaving => exact hsince t _ _ hleaving
  cases hstep with
  | @console e k hexec =>
      cases e with
      | key scan past =>
          intro henter t ht
          refine ⟨?_, rfl⟩
          have hkey : keyboardHandlerMain scan past s.kernel = some k := hexec
          have hsafe := KeyProper.enter hproper henter
          -- Enter sets `enter_flag` and goes to `enter_press` with a newline.
          rw [keyboardHandlerMain_eq scan past hready.keys, henter, Option.map_eq_some_iff] at hkey
          obtain ⟨k₁, hpress, rfl⟩ := hkey
          have hmod := sameConsole_setModifiers s.kernel scan.toNat
          generalize setModifiers scan.toNat s.kernel = k₀ at hmod hpress
          have hsame := hmod.trans (sameConsole_enterFlag k₀ true)
          have hnewline : enterPress chNewline { k₀ with enterFlag := true } = some k₁ := hpress
          generalize { k₀ with enterFlag := true } = k₂ at hsame hnewline
          rw [← hsame.terminalNum, ← hsame.display] at hsafe
          rw [← hsame.display] at ht
          have hothers := enterPress_newline_others hnewline
            (hsafe.imp_right fun hnot hdown => hnot (hsame.pushesDown hdown)) ht
          rw [hsame.terminalArr] at hothers
          exact hothers
      | tick ebp => trivial
      | write buf nbytes => trivial
  | refused hrun' haway hrefused => exact absurd hrefused hproper
  | call hrun' haway hn =>
      rintro (hnone | hneg)
      · cases hnone
      · exact absurd hneg hn
  | ret hrun' hleaving =>
      intro buf nbytes hleaving'
      exact hready.mayReturn hleaving' (hproper buf nbytes hleaving')
  | _ => trivial

/-! ### Two short runs -/

/-- Where the console is: the modifiers, `enter_flag`, and the scheduled and the displayed
terminal. -/
structure ConsoleAt (k : Kernel) (modifiers : Bool × Bool × Bool × Bool) (entered : Bool)
    (scheduled shown : Tid) : Prop where
  ready : ConsoleReady k
  modifiers : k.modifiers = modifiers
  entered : k.enterFlag = entered
  scheduled : k.terminalNum = scheduled
  shown : k.terminalNumDisplay = shown

theorem consoleAt_bootSession (m : PowerOn) :
    ConsoleAt (bootSession m).kernel (false, false, false, false) false 0 0 := by
  have hbooted := booted_bootKernel m
  exact ⟨consoleReady_bootKernel m, hbooted.idle.1, hbooted.idle.2, hbooted.terminalNum,
    hbooted.terminalNumDisplay⟩

/-- A key in a session. -/
theorem ConsoleAt.key {s : Session} {ctrl alt shift caps entered : Bool} {scheduled shown : Tid}
    (h : ConsoleAt s.kernel (ctrl, alt, shift, caps) entered scheduled shown) (scan : UInt8)
    (key : Key) (hkey : keyOf scan 0 { Kernel.zeroed .blank with
      ctrlFlag := ctrl, altFlag := alt, shiftFlag := shift, capsFlag := caps } = key)
    (hsafe : CursorSafe key s.kernel) (hshow : key ≠ .show) :
    ∃ s', SessionStep s (.console (.key scan 0)) s' ∧ keyOf scan 0 s.kernel = key ∧
      ConsoleAt s'.kernel (modifiersAfter scan.toNat (ctrl, alt, shift, caps))
        (key.entered entered) scheduled (key.display shown) ∧
      s'.reader = s.reader ∧
      s'.editor = Function.update s.editor shown ((s.editor shown).key key) := by
  have hof := keyOf_eq h.modifiers hkey
  rw [← hof] at hsafe hshow
  obtain ⟨k', hrun⟩ := h.ready.key_total hsafe hshow
  have hedits := keyboardHandlerMain_lines h.ready.keys hrun
  have hstep : consoleStep s.kernel (.key scan 0) k' := hrun
  refine ⟨_, .console hstep, hof, ⟨h.ready.key hsafe hrun, ?_, ?_, ?_, ?_⟩, rfl, ?_⟩
  · rw [hedits.modifiers, h.modifiers]
  · rw [hedits.enterFlag, h.entered, hof]
  · rw [hedits.terminalNum, h.scheduled]
  · rw [hedits.display, h.shown, hof]
  · rw [← h.shown, ← hof]
    rfl

/-- A call while the line is complete gets through the loop at once. -/
theorem read_through {s : Session} {t : Tid} (buf : Buf) (hnum : s.kernel.terminalNum = t)
    (hshown : s.kernel.terminalNumDisplay = t) (hset : s.kernel.enterFlag = true)
    (haway : s.reader t = .away) :
    ∃ s', Run (fun s e s' => SessionStep s e s' ∧ e.Proper s) s
        [.call t (some buf) 128, .test t, .compare t] s' ∧
      s'.kernel.terminalNum = t ∧ s'.reader t = .leaving buf 128 ∧ s'.editor = s.editor := by
  obtain ⟨s₁, heq⟩ : ∃ s₁, s₁ = Session.setReader { s with kernel := plantReturn s.kernel } t
    (.waiting buf 128) := ⟨_, rfl⟩
  have hcall : SessionStep s (.call t (some buf) 128) s₁ := by
    rw [heq]
    exact .call hnum haway (by decide)
  have hproper : SessionEvent.Proper s (.call t (some buf) 128) := by
    rintro (hnone | hneg)
    · cases hnone
    · exact absurd hneg (by decide)
  have hnum₁ : s₁.kernel.terminalNum = t := by
    rw [heq]
    exact hnum
  have hshown₁ : s₁.kernel.terminalNumDisplay = t := by
    rw [heq]
    exact hshown
  have hset₁ : s₁.kernel.enterFlag = true := by
    rw [heq]
    exact hset
  have hwaiting : s₁.reader t = .waiting buf 128 := by
    rw [heq, Session.setReader_self]
  have hseen := SessionStep.seen hnum₁ hwaiting hset₁
  have hleave := SessionStep.leave (s := s₁.setReader t (.flagSeen buf 128)) hnum₁
    (Session.setReader_self ..) (hnum₁.trans hshown₁.symm)
  refine ⟨_, ((Run.single ⟨hcall, hproper⟩).snoc ⟨hseen, trivial⟩).snoc ⟨hleave, trivial⟩, hnum₁,
    Session.setReader_self .., ?_⟩
  show s₁.editor = s.editor
  rw [heq]
  rfl

/-- A letter and Enter, and a read that gets them. -/
theorem reads_of_run_line :
    ∃ es s s', Run (fun s e s' => SessionStep s e s' ∧ e.Proper s) (bootSession .blank) es s ∧
      SessionStep s (.ret 0) s' ∧ s.editor 0 = .entered [0x61] ∧
      InputStays s (.ret 0) s' ∧ ∀ t, SessionEvent.ret 0 = .ret t → EnteredSince .blank es t := by
  have hboot := consoleAt_bootSession .blank
  obtain ⟨s₁, hstep₁, hkey₁, hat₁, hreader₁, heditor₁⟩ := hboot.key 30 (.char 0x61) rfl
    ⟨fun _ => .inl (hboot.scheduled.trans hboot.shown.symm), nofun⟩ nofun
  obtain ⟨s₂, hstep₂, hkey₂, hat₂, hreader₂, heditor₂⟩ :=
    hat₁.key 28 .enter rfl ⟨nofun, nofun⟩ nofun
  have hproper₁ : SessionEvent.Proper (bootSession .blank) (.console (.key 30 0)) := by
    rw [SessionEvent.Proper, hkey₁]
    refine ⟨⟨nofun, fun c hc _ => ?_⟩, nofun, nofun⟩
    cases hc
    rfl
  have hproper₂ : SessionEvent.Proper s₁ (.console (.key 28 0)) := by
    rw [SessionEvent.Proper, hkey₂]
    exact ⟨⟨nofun, nofun⟩, nofun, fun _ => .inl (hat₁.scheduled.trans hat₁.shown.symm)⟩
  have haway : s₂.reader 0 = .away := by
    rw [hreader₂, hreader₁]
    rfl
  have htext : s₂.editor 0 = .entered [0x61] := by
    rw [heditor₂, heditor₁]
    rfl
  obtain ⟨s₃, hread, hnum, hleaving, heditor⟩ :=
    read_through (fun _ => 0) hat₂.scheduled hat₂.shown hat₂.entered haway
  have hrun := ((Run.single ⟨hstep₁, hproper₁⟩).snoc ⟨hstep₂, hproper₂⟩).append hread
  rw [← heditor] at htext
  have hproper : SessionEvent.Proper s₃ (.ret 0) := by
    intro buf nbytes hbuf _ hopen
    have hready := sessionReady_of_run hrun
    rw [(hready.leaving 0 buf nbytes hbuf).1] at hopen
    have hholds := hready.holds 0
    rw [htext] at hholds
    exact absurd hopen (hholds.closed (by decide))
  exact ⟨_, s₃, _, hrun, .ret hnum hleaving, htext,
    reads_of_run .blank hrun (.ret hnum hleaving) hproper⟩

/-- Enter on terminal 0, where nobody reads, completes a read of terminal 1 after a switch. -/
theorem reads_fail_after_switch :
    ¬ ∀ (m : PowerOn) (es : List SessionEvent) (s s' : Session) (e : SessionEvent),
      Run SessionStep (bootSession m) es s → SessionStep s e s' →
        InputStays s e s' ∧ ∀ t, e = .ret t → EnteredSince m es t := by
  intro h
  obtain ⟨s₁, hstep₁, -, hat₁, hreader₁, heditor₁⟩ :=
    (consoleAt_bootSession .blank).key 28 .enter rfl ⟨nofun, nofun⟩ nofun
  obtain ⟨s₂, hstep₂, -, hat₂, hreader₂, heditor₂⟩ :=
    hat₁.key 56 .idle rfl ⟨nofun, nofun⟩ nofun
  obtain ⟨s₃, hstep₃, -, hat₃, hreader₃, heditor₃⟩ :=
    hat₂.key 60 (.switch 1) rfl ⟨nofun, nofun⟩ nofun
  have haway : s₃.reader 1 = .away := by
    rw [hreader₃, hreader₂, hreader₁]
    rfl
  have htyping : s₃.editor 1 = .typing [] := by
    rw [heditor₃, heditor₂, heditor₁]
    rfl
  -- Terminal 1 is scheduled and reads, though nothing has been entered on it.
  have htick : SessionStep s₃ (.console (.tick 0))
      { s₃ with kernel := leaveTerminal 0 s₃.kernel } := .console rfl
  obtain ⟨hnum, hshown, -, hset⟩ := leaveTerminal_frame 0 s₃.kernel
  rw [hat₃.scheduled] at hnum
  rw [hat₃.shown] at hshown
  rw [hat₃.entered] at hset
  obtain ⟨s₄, hread, hnum₄, hleaving, heditor₄⟩ :=
    read_through (s := { s₃ with kernel := leaveTerminal 0 s₃.kernel }) (fun _ => 0) hnum hshown
      hset haway
  have hrun := ((((Run.single hstep₁).snoc hstep₂).snoc hstep₃).snoc htick).append
    (hread.mono fun _ _ _ hstep => hstep.1)
  obtain ⟨text, htext, -⟩ := (h .blank _ s₄ _ (.ret 1) hrun (.ret hnum₄ hleaving)).1 _ _ hleaving
  rw [heditor₄] at htext
  have hentered : s₃.editor 1 = .entered text := htext
  rw [htyping] at hentered
  cases hentered

end JuddOS
