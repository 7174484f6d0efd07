import JuddOS.Console
import JuddOS.LineEditor

/-!
# Sessions

The processes of the terminals call `terminal_read` while keys, ticks and writes go on.  A process
moves only while its terminal is scheduled, and it can be interrupted before the call stores its
return character, at each of the two tests of the waiting loop and between the loop and `cli`.

`Session` is the kernel with the place of each reader in its call; beside it stands what has been
typed on each terminal, as an `Editor` that starts a new line when a read of its terminal returns.

`keys_isolated_of_run` says when a key concerns the displayed terminal only, in every state of a
session in which the cursors stay on the screens.
-/

namespace JuddOS

open Support

/-- Where the process of a terminal is in `terminal_read`. -/
inductive Reader
  | away
  /-- In the loop, at the test of `enter_flag`. -/
  | waiting (buf : Buf) (nbytes : Int32)
  /-- `enter_flag` was set; the terminal numbers are compared next. -/
  | flagSeen (buf : Buf) (nbytes : Int32)
  /-- Past the loop. -/
  | leaving (buf : Buf) (nbytes : Int32)

/-- The kernel, the readers, and the history of what has been typed. -/
structure Session where
  kernel : Kernel
  reader : Tid → Reader
  editor : Tid → Editor

inductive SessionEvent
  | console (e : ConsoleEvent)
  | call (t : Tid) (buf : Option Buf) (nbytes : Int32)
  | test (t : Tid)
  | compare (t : Tid)
  | ret (t : Tid)

namespace Session

/-- What the editors make of a console event. -/
def typed (s : Session) : ConsoleEvent → Tid → Editor
  | .key scan past =>
      let shown := s.kernel.terminalNumDisplay
      Function.update s.editor shown ((s.editor shown).key (keyOf scan past s.kernel))
  | _ => s.editor

def setReader (s : Session) (t : Tid) (r : Reader) : Session :=
  { s with reader := Function.update s.reader t r }

theorem setReader_self (s : Session) (t : Tid) (r : Reader) : (s.setReader t r).reader t = r :=
  Function.update_self ..

theorem setReader_of_ne (s : Session) {t u : Tid} (r : Reader) (h : u ≠ t) :
    (s.setReader t r).reader u = s.reader u :=
  Function.update_of_ne h ..

end Session

/-- The steps.  `terminal_read` gives up at once without a buffer or with a negative length. -/
inductive SessionStep : Session → SessionEvent → Session → Prop
  | console {s : Session} {e : ConsoleEvent} {k : Kernel} (h : consoleStep s.kernel e k) :
      SessionStep s (.console e) { s with kernel := k, editor := s.typed e }
  | refused {s : Session} {t : Tid} {buf : Option Buf} {nbytes : Int32}
      (hrun : s.kernel.terminalNum = t) (haway : s.reader t = .away)
      (hrefused : buf = none ∨ nbytes < 0) :
      SessionStep s (.call t buf nbytes) { s with kernel := plantReturn s.kernel }
  | call {s : Session} {t : Tid} {buf : Buf} {nbytes : Int32}
      (hrun : s.kernel.terminalNum = t) (haway : s.reader t = .away) (hn : ¬ nbytes < 0) :
      SessionStep s (.call t (some buf) nbytes)
        (Session.setReader { s with kernel := plantReturn s.kernel } t (.waiting buf nbytes))
  | spin {s : Session} {t : Tid} {buf : Buf} {nbytes : Int32}
      (hrun : s.kernel.terminalNum = t) (hwaiting : s.reader t = .waiting buf nbytes)
      (hflag : s.kernel.enterFlag = false) : SessionStep s (.test t) s
  | seen {s : Session} {t : Tid} {buf : Buf} {nbytes : Int32}
      (hrun : s.kernel.terminalNum = t) (hwaiting : s.reader t = .waiting buf nbytes)
      (hflag : s.kernel.enterFlag = true) :
      SessionStep s (.test t) (s.setReader t (.flagSeen buf nbytes))
  | again {s : Session} {t : Tid} {buf : Buf} {nbytes : Int32}
      (hrun : s.kernel.terminalNum = t) (hseen : s.reader t = .flagSeen buf nbytes)
      (hother : s.kernel.terminalNum ≠ s.kernel.terminalNumDisplay) :
      SessionStep s (.compare t) (s.setReader t (.waiting buf nbytes))
  | leave {s : Session} {t : Tid} {buf : Buf} {nbytes : Int32}
      (hrun : s.kernel.terminalNum = t) (hseen : s.reader t = .flagSeen buf nbytes)
      (hshown : s.kernel.terminalNum = s.kernel.terminalNumDisplay) :
      SessionStep s (.compare t) (s.setReader t (.leaving buf nbytes))
  | ret {s : Session} {t : Tid} {buf : Buf} {nbytes : Int32}
      (hrun : s.kernel.terminalNum = t) (hleaving : s.reader t = .leaving buf nbytes) :
      SessionStep s (.ret t)
        { kernel := (takeLine buf nbytes s.kernel).2
          reader := Function.update s.reader t .away
          editor := Function.update s.editor t (.typing []) }

/-- After `entry` nobody reads and nothing has been typed. -/
def bootSession (m : PowerOn) : Session where
  kernel := bootKernel m
  reader _ := .away
  editor _ := .typing []

/-! ## The invariant of the console in a session -/

/-- No cursor leaves its screen. -/
def SessionEvent.Safe (s : Session) : SessionEvent → Prop
  | .console e => e.Safe s.kernel
  | _ => True

namespace ConsoleReady

variable {k : Kernel}

theorem plantReturn (h : ConsoleReady k) : ConsoleReady (plantReturn k) := by
  have hfits : (k.lines k.terminalNumDisplay).Fits := h.lines _
  exact h.setTerminal _ (fun _ => rfl) (fun _ => rfl) hfits

theorem clearbuf (h : ConsoleReady k) : ConsoleReady (clearbuf k) := by
  have hfits := Line.fits_empty (k.lines k.terminalNumDisplay)
  unfold JuddOS.clearbuf
  exact h.setTerminal _ (by intro t; rfl) (by intro t; rfl) hfits

theorem takeLine (h : ConsoleReady k) (buf : Buf) (nbytes : Int32) :
    ConsoleReady (takeLine buf nbytes k).2 := by
  obtain ⟨hbuf, hback, hctrlL, hzero, hone, htwo⟩ := h.keys
  have hclear := h.of_same (sameConsole_enterFlag k false) ⟨hbuf, hback, hctrlL, hzero, hone, htwo⟩
  exact hclear.clearbuf

/-- **One event of a session.** -/
theorem session {s s' : Session} {e : SessionEvent} (h : ConsoleReady s.kernel)
    (hsafe : e.Safe s) (hstep : SessionStep s e s') : ConsoleReady s'.kernel := by
  cases hstep with
  | console hrun => exact h.step hsafe hrun
  | refused => exact h.plantReturn
  | call => exact h.plantReturn
  | spin => exact h
  | seen => exact h
  | again => exact h
  | leave => exact h
  | @ret t buf nbytes => exact h.takeLine buf nbytes

end ConsoleReady

theorem consoleReady_of_session {m : PowerOn} {es : List SessionEvent} {s : Session}
    (hrun : Run (fun s e s' => SessionStep s e s' ∧ e.Safe s) (bootSession m) es s) :
    ConsoleReady s.kernel :=
  hrun.invariant_of_guard (fun s => ConsoleReady s.kernel) (consoleReady_bootKernel m)
    fun _ _ _ hready hsafe hstep => hready.session hsafe hstep

/-- A run of the console is a session in which nobody reads. -/
theorem session_of_console {m : PowerOn} {es : List ConsoleEvent} {k : Kernel}
    (hrun : Run (fun k e k' => consoleStep k e k' ∧ e.Safe k) (bootKernel m) es k) :
    ∃ es' s, Run (fun s e s' => SessionStep s e s' ∧ e.Safe s) (bootSession m) es' s ∧
      s.kernel = k := by
  refine hrun.simulates (fun k (s : Session) => s.kernel = k) rfl fun k e k' s hk hstep => ?_
  subst hk
  have hsession := SessionStep.console hstep.1
  exact ⟨[.console e], _, .single ⟨hsession, hstep.2⟩, rfl⟩

/-! ## Keys -/

/-- The other two terminals are as before, and so are their logical screens. -/
structure OthersUnchanged (k k' : Kernel) : Prop where
  terminal : ∀ t, t ≠ k.terminalNumDisplay → k'.terminalArr t = k.terminalArr t
  screen : ∀ t, t ≠ k.terminalNumDisplay → ∀ j, j < sizeOfVidmem →
    logicalScreens k' t j = logicalScreens k t j

theorem KeyContained.others {k k' : Kernel} {isolating : Prop} (h : KeyContained k k' isolating)
    (hmapped : VideoMapped k) (hiso : isolating) : OthersUnchanged k k' where
  terminal := (h.isolated hiso).terminal
  screen t ht j hj := by
    have hpage : j < 4096 := by
      simp only [sizeOfVidmem] at hj
      omega
    rw [logicalScreens, logicalScreens, (h.keeps.mapped hmapped).peek t hpage,
      hmapped.peek t hpage, h.keeps.display, (h.isolated hiso).screen t ht j hj]

/-- **A key concerns the displayed terminal only**, in every state of such a run, when it is
isolating. -/
theorem keys_isolated_of_run (m : PowerOn) {es : List SessionEvent} {s : Session} {k' : Kernel}
    (hrun : Run (fun s e s' => SessionStep s e s' ∧ e.Safe s) (bootSession m) es s)
    {scan : UInt8} {past : UInt32} (hkey : ∀ index, keyOf scan past s.kernel ≠ .switch index)
    (hiso : Isolating (keyOf scan past s.kernel) s.kernel)
    (hstep : keyboardHandlerMain scan past s.kernel = some k') : OthersUnchanged s.kernel k' := by
  have hready := consoleReady_of_session hrun
  exact (hready.contained hkey hiso.toCursorSafe hstep).others hready.screens.mapped hiso

/-- A letter on the displayed screen leaves the hidden one alone. -/
theorem keys_isolated_of_run_letter : ∃ (s : Session) (k' : Kernel), HiddenLetter s.kernel ∧
    keyboardHandlerMain 30 0 s.kernel = some k' ∧ OthersUnchanged s.kernel k' := by
  obtain ⟨k, hk⟩ := exists_hiddenLetter
  have hready := consoleReady_of_run hk.run
  obtain ⟨es, s, hrun, rfl⟩ := session_of_console hk.run
  have hkey : keyOf 30 0 s.kernel = .char 0x61 := keyOf_eq hk.modifiers rfl
  obtain ⟨k', hstep, -⟩ := hready.key_char hkey hk.entered (by decide)
  have hcorner : ¬ FillsScreen s.kernel := by
    intro hfills
    have hcol := hfills.cursorX
    rw [hk.display] at hcol
    have hzero : (s.kernel.terminalArr 0).cursorX = 0 := congrArg Prod.fst hk.shown
    rw [hzero] at hcol
    exact absurd hcol (by decide)
  have hiso : Isolating (keyOf 30 0 s.kernel) s.kernel := by
    rw [hkey]
    refine ⟨⟨fun _ => .inr hcorner, nofun⟩, fun hpresses => ?_, nofun, nofun⟩
    rw [Key.presses, hk.entered] at hpresses
    cases hpresses
  exact ⟨s, k', hk, hstep,
    keys_isolated_of_run .blank hrun (by rw [hkey]; exact nofun) hiso hstep⟩

/-- Control-L moves the cursor of the hidden terminal. -/
theorem keys_fail_to_isolate_clear :
    ¬ ∀ (m : PowerOn) (es : List SessionEvent) (s : Session) (k' : Kernel) (scan : UInt8)
      (past : UInt32), Run SessionStep (bootSession m) es s →
      (∀ index, keyOf scan past s.kernel ≠ .switch index) →
      keyboardHandlerMain scan past s.kernel = some k' → OthersUnchanged s.kernel k' := by
  intro h
  obtain ⟨k, hk⟩ := exists_hiddenLetter
  have hready := consoleReady_of_run hk.run
  obtain ⟨es, s, hsession, rfl⟩ := session_of_console hk.run
  have hkey : keyOf 38 0 s.kernel = .clear := keyOf_eq hk.modifiers rfl
  have hmod := sameConsole_setModifiers s.kernel (38 : UInt8).toNat
  have hrun := keyboardHandlerMain_eq 38 0 hready.keys
  rw [hkey] at hrun
  generalize setModifiers (38 : UInt8).toNat s.kernel = k₀ at hmod hrun
  have hsame := hmod.trans (sameConsole_ctrlFlagL k₀)
  obtain ⟨k₁, hclear, -, hzero, -⟩ := clearScreen_spec (hsame.mapped hready.screens.mapped)
  have hstep : keyboardHandlerMain 38 0 s.kernel = some (resetFlags k₁) := by
    rw [hrun, handleKey, hclear, Option.map_some]
  have hothers := h .blank es s (resetFlags k₁) 38 0 (hsession.mono fun _ _ _ hstep => hstep.1)
    (by rw [hkey]; rintro _ ⟨⟩) hstep
  have hsame₁ := hothers.terminal 1 (by rw [hk.display]; decide)
  have hcol : (k₁.terminalArr 1).cursorX = 1 :=
    (congrArg Terminal.cursorX hsame₁).trans (congrArg Prod.fst hk.hidden)
  rw [(hzero 1).1] at hcol
  exact absurd hcol (by decide)

end JuddOS
