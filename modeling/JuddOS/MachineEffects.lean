import JuddOS.ProcessSteps

/-!
# What an event of the machine does to the processes

`TidyMachine` is the invariant of the machine together with what the console needs for its stores
to stay on the screens.  Under it every event touches one process at most
(`TidyMachine.touches`): keys and `terminal_write` store to the screens, the stores of a program go
through the page tables to its own frame or to a screen, and a call is one of the cases of
`ProcDone`.
-/

namespace JuddOS

open Support X86

/-- **The invariant of the machine**, with the console. -/
structure TidyMachine (s : ProcState) : Prop where
  ready : MachineReady s
  console : ConsoleTidy s.kernel
  /-- Only the process page and the screens are for user mode. -/
  supervisor : ∀ i, i ≠ userVirtualAddr → i ≠ 33 →
    (s.kernel.paging.pageDirectoryEntry i).userSupervisor = false

/-- The boot messages leave the cursor of `putc` on the screen. -/
def PowerOn.CursorOnScreen (m : PowerOn) : Prop := m.screenX < numCols ∧ m.screenY ≤ numRows

instance (m : PowerOn) : Decidable m.CursorOnScreen := inferInstanceAs (Decidable (_ ∧ _))

theorem consoleTidy_bootKernel {m : PowerOn} (hcursor : m.CursorOnScreen) :
    ConsoleTidy (bootKernel m) := by
  have hmapped := (machineReady_boot m).mapped
  have hconfined := confined_initPaging m.layout m.elsewhere
  have hboot := booted_bootKernel m
  rw [show (ProcState.boot m).kernel = bootKernel m from rfl] at hmapped
  generalize bootKernel m = k at hboot hmapped ⊢
  have halone : ScreensAlone k.paging := by
    rw [hboot.paging]
    exact ScreensAlone.setUpVirtualToVideo ⟨vgaAlone_initPaging _, hconfined.videoTable⟩ 0
  refine ⟨⟨hmapped, halone, fun t => ?_, fun t => ?_⟩, fun t => ?_, ?_, ?_⟩
  · rw [hboot.terminalArr]
    exact show 0 < 256 by decide
  · rw [hboot.terminalArr]
    exact show 0 < 256 by decide
  · rw [Kernel.lines, hboot.terminalArr]
    exact show 0 < screenBufSize by decide
  · rw [hboot.screen.1]
    exact hcursor.1
  · rw [hboot.screen.2]
    exact hcursor.2

theorem tidyMachine_boot {m : PowerOn} (hcursor : m.CursorOnScreen) :
    TidyMachine (.boot m) := by
  refine ⟨machineReady_boot m, consoleTidy_bootKernel hcursor, fun i hi hi' => ?_⟩
  have hboot : Booted m (ProcState.boot m).kernel := booted_bootKernel m
  rw [hboot.paging, setUpVirtualToVideo_pde_of_ne 0 _ hi']
  exact (confined_initPaging m.layout m.elsewhere).supervisor i hi hi'

/-! ## Steps of the processes -/

theorem ProcDone.screen {s s' : ProcState} {e : ProcEvent} (hdone : ProcDone s e s') :
    s'.kernel.screenX = s.kernel.screenX ∧ s'.kernel.screenY = s.kernel.screenY := by
  cases hdone with
  | returned => exact ⟨rfl, rfl⟩
  | executed hmay hstart => exact ⟨hstart.screenX, hstart.screenY⟩
  | restarted => exact ⟨rfl, rfl⟩
  | halted => exact ⟨rfl, rfl⟩
  | resumed => exact ⟨rfl, rfl⟩
  | opened hinactive hstart => exact ⟨hstart.screenX, hstart.screenY⟩

/-- A step of the processes leaves the console tidy. -/
theorem ConsoleTidy.spares {k k' : Kernel} (h : ConsoleTidy k)
    (huser : (k.paging.pageDirectoryEntry 33).userSupervisor = true)
    (hspares : SparesScreens k k')
    (hscreen : k'.screenX = k.screenX ∧ k'.screenY = k.screenY) : ConsoleTidy k' := by
  obtain ⟨hmapped, -⟩ := hspares.ready h.mapped huser
  obtain ⟨e, he⟩ := hspares.paging
  have hcursor : ∀ t, (k'.terminalArr t).cursorX = (k.terminalArr t).cursorX ∧
      (k'.terminalArr t).cursorY = (k.terminalArr t).cursorY := fun t =>
    ⟨congrArg Prod.fst (hspares.cursor t), congrArg Prod.snd (hspares.cursor t)⟩
  have hlines : k'.lines = k.lines := congrArg ConsoleState.lines hspares.console
  refine ⟨⟨hmapped, ?_, fun t => ?_, fun t => ?_⟩, fun t => ?_, ?_, ?_⟩
  · rw [he]
    exact ⟨h.alone.vga, h.alone.videoTable⟩
  · rw [(hcursor t).1]
    exact h.cursorX t
  · rw [(hcursor t).2]
    exact h.cursorY t
  · rw [hlines]
    exact h.lines t
  · rw [hscreen.1]
    exact h.col
  · rw [hscreen.2]
    exact h.row

/-- `plant_return` and `take_line` are about lines. -/
theorem ConsoleTidy.plantReturn {k : Kernel} (h : ConsoleTidy k) :
    ConsoleTidy (JuddOS.plantReturn k) := by
  have honly := h.toTidy.setTerminal k.terminalNumDisplay
    (f := fun t => { t with
      screenBuf := Function.update t.screenBuf (screenBufSize - 1) chReturn })
    (fun _ => rfl) (h.cursorX _) (h.cursorY _)
  refine ⟨honly.tidy, fun t => ?_, h.col, h.row⟩
  show ((k.setTerminal k.terminalNumDisplay _).terminalArr t).screenBufTop < screenBufSize
  by_cases ht : t = k.terminalNumDisplay
  · rw [ht, Kernel.setTerminal_self]
    exact h.lines k.terminalNumDisplay
  · rw [Kernel.setTerminal_of_ne _ _ ht]
    exact h.lines t

theorem ConsoleTidy.takeLine {k : Kernel} (h : ConsoleTidy k) (buf : Buf) (nbytes : Int32) :
    ConsoleTidy (JuddOS.takeLine buf nbytes k).2 := by
  have hflag : Tidy { k with enterFlag := false } :=
    h.toTidy.congr rfl rfl fun t => ⟨rfl, h.cursorX t, h.cursorY t⟩
  have honly := hflag.clearbuf
  refine ⟨honly.tidy, fun t => ?_, h.col, h.row⟩
  show ((clearbuf { k with enterFlag := false }).terminalArr t).screenBufTop < screenBufSize
  unfold clearbuf
  by_cases ht : t = k.terminalNumDisplay
  · rw [ht, Kernel.setTerminal_self]
    exact show 0 < screenBufSize by decide
  · rw [Kernel.setTerminal_of_ne _ _ ht]
    exact h.lines t

theorem ConsoleTidy.memory {k : Kernel} (h : ConsoleTidy k) (phys : Buf) :
    ConsoleTidy { k with phys := phys } :=
  ⟨h.toTidy.congr rfl rfl fun t => ⟨rfl, h.cursorX t, h.cursorY t⟩, h.lines, h.col, h.row⟩

section Step

variable {fs : Image} {s s' : ProcState}

theorem TidyMachine.proc_done (h : TidyMachine s) {e : ProcEvent}
    (hstep : s.step fs e = some s') : ∃ σ, Chains s σ ∧ ProcDone s e s' := by
  obtain ⟨σ, hchains⟩ := h.ready.chains
  exact ⟨σ, hchains, hchains.step_done h.console.toTidy hstep⟩

/-- A change of the directory entry of the process page. -/
theorem SparesScreens.supervisor {k k' : Kernel} (hspares : SparesScreens k k')
    (h : ∀ i, i ≠ userVirtualAddr → i ≠ 33 →
      (k.paging.pageDirectoryEntry i).userSupervisor = false) (i : Nat)
    (hi : i ≠ userVirtualAddr) (hi' : i ≠ 33) :
    (k'.paging.pageDirectoryEntry i).userSupervisor = false := by
  obtain ⟨e, he⟩ := hspares.paging
  rw [he, Paging.setPde_of_ne _ _ hi]
  exact h i hi hi'

/-- **One event of the machine.** -/
theorem TidyMachine.step (h : TidyMachine s) {e : MachineEvent}
    (hstep : s.machineStep fs e = some s') : TidyMachine s' := by
  have hready := h.ready.step hstep
  have hsame : ∀ {k' : Kernel}, k'.bookkeeping = s.kernel.bookkeeping →
      ∀ i, i ≠ userVirtualAddr → i ≠ 33 →
        (k'.paging.pageDirectoryEntry i).userSupervisor = false := by
    intro k' hbook i hi hi'
    have hpaging : k'.paging = s.kernel.paging := congrArg Bookkeeping.paging hbook
    rw [hpaging]
    exact h.supervisor i hi hi'
  cases machineStep_done hstep with
  | proc hproc =>
      obtain ⟨σ, -, hdone⟩ := h.proc_done hproc
      have hspares := ProcState.step_spares hproc
      exact ⟨hready, h.console.spares h.ready.user hspares hdone.screen,
        hspares.supervisor h.supervisor⟩
  | @key scan past k' hrun =>
      refine ⟨hready, keyboardHandlerMain_tidy h.console h.ready.keys hrun, fun i hi hi' => ?_⟩
      obtain ⟨hbook, -⟩ := keyboardHandlerMain_bookkeeping h.ready.keys hrun
      cases hkey : keyOf scan past s.kernel with
      | switch index =>
          rw [hkey] at hbook
          have hpaging : k'.paging = (s.kernel.bookkeeping.switched index).paging :=
            congrArg Bookkeeping.paging hbook
          have haddr : (fun t => (s.kernel.bookkeeping.slots t).vidmemAddr) = terminalVidmem :=
            funext h.ready.mapped.vidmem
          dsimp only
          rw [hpaging, Bookkeeping.switched]
          split
          · exact h.supervisor i hi hi'
          · dsimp only
            rw [haddr, setUpVirtualToVideo_pde_of_ne index _ hi']
            exact h.supervisor i hi hi'
      | idle | erase | clear | «show» | enter | char =>
          rw [hkey] at hbook
          exact hsame hbook i hi hi'
  | write hrun =>
      exact ⟨hready, terminalWrite_tidy h.console hrun, hsame (terminalWrite_bookkeeping hrun)⟩
  | plantReturn =>
      exact ⟨hready, h.console.plantReturn, hsame (plantReturn_bookkeeping s.kernel)⟩
  | takeLine buf nbytes =>
      exact ⟨hready, h.console.takeLine buf nbytes, hsame (takeLine_bookkeeping buf nbytes _)⟩
  | vidmap | store => exact ⟨hready, h.console.memory _, h.supervisor⟩

/-! ## Stores by programs -/

/-- A user address of the process page, or of a screen. -/
theorem TidyMachine.translate_user (h : TidyMachine s) {σ : Stacks Tid Nat} {p : Nat}
    {rest : List Nat} (hruns : Chains.Runs s σ p rest) {v a : Nat}
    (hwalk : s.kernel.paging.walk v = some ⟨a, true⟩) : InVideo a ∨ InFrame p a := by
  obtain ⟨hpresent, huser, htarget⟩ := walk_user hwalk
  by_cases h32 : dirIndex v = userVirtualAddr
  · right
    have hpage := hruns.page
    have hwalk' : X86.walk s.kernel.paging.pageDirectoryEntry s.kernel.paging.tables v =
        some ⟨a, true⟩ := hwalk
    rw [walk_large rfl (by rw [h32]; exact hpage.present) (by rw [h32]; exact hpage.large), h32,
      hpage.frame, processFrame_toNat hruns.lt] at hwalk'
    have haddr : processFrame p + v % 2 ^ 22 = a :=
      congrArg Translation.phys (Option.some.inj hwalk')
    have hoffset : v % 2 ^ 22 < 2 ^ 22 := Nat.mod_lt _ (by decide)
    simp only [InFrame, userSpaceSize]
    omega
  · left
    have h33 : dirIndex v = 33 := by
      by_contra hne
      rw [h.supervisor _ h32 hne] at huser
      exact Bool.false_ne_true huser
    refine inVideo_of_translate h.ready.mapped.vga h.ready.mapped.screens h.console.alone
      (.inr h33) ?_
    rw [Paging.translate, hwalk]
    rfl

/-- `vidmap` stores to the process page, or to a screen. -/
theorem TidyMachine.vidmap_memory (h : TidyMachine s) {σ : Stacks Tid Nat} {p : Nat}
    {rest : List Nat} (hruns : Chains.Runs s σ p rest) {esp : Nat} {screenStart : UInt32}
    {v : Int32} {k' : Kernel} (hrun : vidmap esp screenStart s.kernel = some (v, k')) {a : Nat}
    (hvideo : ¬ InVideo a) (hin : ¬ InFrame p a) : k'.phys a = s.kernel.phys a := by
  unfold vidmap at hrun
  dsimp only at hrun
  split at hrun
  case isTrue =>
    cases hrun
    rfl
  case isFalse hrange =>
    rw [Option.map_eq_some_iff] at hrun
    obtain ⟨k₁, hstore, heq⟩ := hrun
    cases heq
    rw [not_or, Int.not_lt, ge_iff_le, Int.not_le] at hrange
    have hbounds : fileLocation ≤ screenStart.toNat ∧
        screenStart.toNat < fileLocation + pageSize := by
      have hint := toInt32_toInt screenStart
      have hlt := screenStart.toNat_lt
      simp only [fileLocation, pageSize] at hrange ⊢
      split at hint <;> omega
    refine pokeRange_memory (P := fun a => InVideo a ∨ InFrame p a) (fun j hj a' ha' => ?_) hstore
      (by rintro (h | h) <;> contradiction)
    -- the four addresses, counted from `FILE_LOCATION`
    have haddr : screenStart.toNat + j = fileLocation + (screenStart.toNat - fileLocation + j) := by
      omega
    rw [haddr] at ha'
    refine translate_load hruns.lt hruns.page h.ready.mapped.vga h.ready.mapped.screens
      h.console.alone ?_ ha'
    omega

/-- **An event touches one process**, as soon as there is one. -/
theorem TidyMachine.touches (h : TidyMachine s) (hlive : s.live ≠ []) {e : MachineEvent}
    (hstep : s.machineStep fs e = some s') : ∃ p, Touches p s s' := by
  obtain ⟨σ, hchains⟩ := h.ready.chains
  obtain ⟨p, rest, hruns⟩ := hchains.runs hlive
  have hmemory : ∀ {k' : Kernel}, k'.pcb = s.kernel.pcb →
      (∀ a, ¬ InVideo a → ¬ InFrame p a → k'.phys a = s.kernel.phys a) →
      Touches p s { s with kernel := k' } := by
    intro k' hpcb hphys
    exact ⟨fun addr _ => congrFun hpcb addr, hphys, fun q hq _ => hq,
      fun _ => hruns.runningPid.symm, fun _ _ => congrFun hpcb _⟩
  cases hevent : e with
  | proc e =>
      subst hevent
      exact (hchains.step_done h.console.toTidy hstep).touches hchains
  | key scan past =>
      subst hevent
      cases machineStep_done hstep with
      | key hrun =>
          have hprints := keyboardHandlerMain_printsOn h.console h.ready.keys hrun
          obtain ⟨hbook, -⟩ := keyboardHandlerMain_bookkeeping h.ready.keys hrun
          refine ⟨p, hmemory ?_ fun a ha _ => hprints.memory a ha⟩
          have hpcb := congrArg Bookkeeping.pcb hbook
          cases hkey : keyOf scan past s.kernel with
          | switch index =>
              rw [hkey, Bookkeeping.afterKey, Bookkeeping.switched] at hpcb
              split at hpcb <;> exact hpcb
          | idle | erase | clear | «show» | enter | char =>
              rw [hkey] at hpcb
              exact hpcb
  | write buf nbytes =>
      subst hevent
      cases machineStep_done hstep with
      | write hrun =>
          have honly := terminalWrite_onlyScreens h.console.toTidy hrun
          exact ⟨p, hmemory (congrArg Bookkeeping.pcb (terminalWrite_bookkeeping hrun))
            fun a ha _ => honly.memory a ha⟩
  | plantReturn =>
      subst hevent
      cases hstep
      exact ⟨p, hmemory rfl fun _ _ _ => rfl⟩
  | takeLine buf nbytes =>
      subst hevent
      cases hstep
      exact ⟨p, hmemory rfl fun _ _ _ => rfl⟩
  | vidmap esp screenStart =>
      subst hevent
      obtain ⟨k', hexec, rfl⟩ :=
        ProcState.machineStep_exec (e := .vidmap esp screenStart) (by rintro _ ⟨⟩) hstep
      rw [MachineEvent.exec, Option.map_eq_some_iff] at hexec
      obtain ⟨⟨v, k₁⟩, hvidmap, rfl⟩ := hexec
      refine ⟨p, hmemory ?_ fun a ha ha' => h.vidmap_memory hruns hvidmap ha ha'⟩
      rw [vidmap_frame hvidmap]
  | store v byte =>
      subst hevent
      obtain ⟨k', hexec, rfl⟩ :=
        ProcState.machineStep_exec (e := .store v byte) (by rintro _ ⟨⟩) hstep
      rw [MachineEvent.exec] at hexec
      split at hexec
      case isFalse => cases hexec
      case isTrue huser =>
        obtain ⟨⟨a, user⟩, hwalk, huser⟩ := (Option.any_eq_true ..).mp huser
        dsimp only at huser
        rw [huser] at hwalk
        have htarget := h.translate_user hruns hwalk
        have htrans : s.kernel.paging.translate v = some a := by
          rw [Paging.translate, hwalk]
          rfl
        rw [Kernel.poke_eq htrans] at hexec
        cases hexec
        refine ⟨p, hmemory rfl fun a' hvideo hin => Function.update_of_ne ?_ _ _⟩
        rintro rfl
        exact htarget.elim hvideo hin

/-! ## Terminals -/

def MachineEvent.isTick : MachineEvent → Bool
  | .proc e => e.isTick
  | _ => false

/-- **An event that is not one of the processes** schedules no terminal, and leaves the slots of all
terminals alone. -/
theorem TidyMachine.console_slots (h : TidyMachine s) {e : MachineEvent}
    (hstep : s.machineStep fs e = some s') (he : ∀ e', e ≠ .proc e') :
    s'.kernel.terminalNum = s.kernel.terminalNum ∧
      ∀ t, (s'.kernel.terminalArr t).slot = (s.kernel.terminalArr t).slot := by
  have hconsole : ∀ {k' : Kernel} {b : Bookkeeping}, k'.bookkeeping = b →
      b.terminalNum = s.kernel.terminalNum → b.slots = s.kernel.bookkeeping.slots →
      k'.terminalNum = s.kernel.terminalNum ∧
        ∀ t, (k'.terminalArr t).slot = (s.kernel.terminalArr t).slot := by
    rintro k' b rfl hnum hslots
    exact ⟨hnum, congrFun hslots⟩
  cases machineStep_done hstep with
  | proc => exact absurd rfl (he _)
  | @key scan past k' hrun =>
      obtain ⟨hbook, -⟩ := keyboardHandlerMain_bookkeeping h.ready.keys hrun
      refine hconsole hbook ?_ ?_ <;> cases keyOf scan past s.kernel <;>
        simp only [Bookkeeping.afterKey, Bookkeeping.switched] <;> try rfl
      all_goals split <;> rfl
  | write hrun => exact hconsole (terminalWrite_bookkeeping hrun) rfl rfl
  | plantReturn => exact hconsole (plantReturn_bookkeeping s.kernel) rfl rfl
  | takeLine buf nbytes => exact hconsole (takeLine_bookkeeping buf nbytes s.kernel) rfl rfl
  | vidmap | store => exact ⟨rfl, fun _ => rfl⟩

/-- The number of the scheduled terminal, and the slots of the others. -/
theorem TidyMachine.slots (h : TidyMachine s) {e : MachineEvent}
    (hstep : s.machineStep fs e = some s') :
    (s'.kernel.terminalNum =
      if e.isTick then s.kernel.terminalNum + 1 else s.kernel.terminalNum) ∧
    ∀ t, t ≠ s.kernel.terminalNum → (s.kernel.terminalArr t).active = true →
      (s'.kernel.terminalArr t).slot = (s.kernel.terminalArr t).slot := by
  cases e with
  | proc e =>
      obtain ⟨σ, -, hdone⟩ := h.proc_done hstep
      exact ⟨hdone.terminalNum,
        fun t ht hactive => congrArg Terminal.slot (hdone.terminalArr ht hactive)⟩
  | key | write | plantReturn | takeLine | vidmap | store =>
      obtain ⟨hnum, hslots⟩ := h.console_slots hstep (by rintro _ ⟨⟩)
      exact ⟨hnum, fun t _ _ => hslots t⟩

end Step

end JuddOS
