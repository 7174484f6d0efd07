import JuddOS.Lines
import JuddOS.ProcessFrame
import JuddOS.ProcessRuns
import JuddOS.WriteEffects

/-!
# The whole machine

The processes and the console in one system: `execute`, `halt` and ticks, keys, `terminal_write`,
the stores of `terminal_read`, `vidmap`, and stores by user programs, in any order.

The processes and the console share little.  The former only touch the directory entry of the
process page (`SparesScreens`), the latter leave the bookkeeping of the processes alone
(`Kernel.bookkeeping`).  So both invariants hold along every run (`MachineReady`).

* `machineStep_done` has the cases of an event, from which every invariant of the machine is proved.
* `MachineReady.run` is the invariant of every reachable state.

`vidmap` of `syscalls.c` is here because it is one of the events.
-/

namespace JuddOS

open Support X86

/-! ## What the processes leave alone -/

/-- The screens, as far as they are not memory, and the keyboard. -/
structure ConsoleState where
  display : Tid
  vidmem : Tid → Nat
  cursors : Tid → Nat × Nat
  lines : Tid → Line
  vgaCursor : Nat
  modifiers : Bool × Bool × Bool × Bool
  enterFlag : Bool
  keyFlags : Nat × Bool × Bool × Bool × Bool × Bool
  charStores : List (Tid × Nat)

def Kernel.console (k : Kernel) : ConsoleState where
  display := k.terminalNumDisplay
  vidmem t := (k.terminalArr t).vidmemAddr
  cursors t := (k.terminalArr t).cursor
  lines := k.lines
  vgaCursor := k.vgaCursor
  modifiers := k.modifiers
  enterFlag := k.enterFlag
  keyFlags := k.keyFlags
  charStores := k.charStores

/-- An assignment to a terminal that is to none of these fields. -/
theorem setTerminal_console (k : Kernel) (t : Tid) {f : Terminal → Terminal}
    (hvidmem : ∀ t, (f t).vidmemAddr = t.vidmemAddr) (hcursor : ∀ t, (f t).cursor = t.cursor)
    (hline : ∀ t, (f t).line = t.line) : (k.setTerminal t f).console = k.console := by
  have hfield : ∀ {α : Type} (g : Terminal → α), (∀ t, g (f t) = g t) →
      (fun u => g ((k.setTerminal t f).terminalArr u)) = fun u => g (k.terminalArr u) := by
    intro α g hg
    funext u
    by_cases hu : u = t
    · rw [hu, Kernel.setTerminal_self, hg]
    · rw [Kernel.setTerminal_of_ne k f hu]
  unfold Kernel.console Kernel.lines
  rw [hfield _ hvidmem, hfield _ hcursor, hfield _ hline]
  rfl

/-- The page tables change in the entry of the process page only, and nothing of the console
changes. -/
structure SparesScreens (k k' : Kernel) : Prop where
  console : k'.console = k.console
  paging : ∃ e, k'.paging = k.paging.setPde userVirtualAddr fun _ => e

namespace SparesScreens

variable {k k₁ k₂ : Kernel}

/-- Steps that leave the page tables alone. -/
theorem of_paging (hconsole : k₁.console = k.console) (hpaging : k₁.paging = k.paging) :
    SparesScreens k k₁ := by
  refine ⟨hconsole, k.paging.pageDirectoryEntry userVirtualAddr, ?_⟩
  rw [hpaging, Paging.setPde, Function.update_eq_self]

theorem trans (h : SparesScreens k k₁) (h' : SparesScreens k₁ k₂) : SparesScreens k k₂ where
  console := h'.console.trans h.console
  paging := by
    obtain ⟨e, he⟩ := h.paging
    obtain ⟨e', he'⟩ := h'.paging
    refine ⟨e', ?_⟩
    rw [he', he]
    unfold Paging.setPde
    rw [Function.update_idem]

/-- A store to the entry of the process page. -/
theorem setPde (k : Kernel) (f : Pde → Pde) :
    SparesScreens k { k with paging := k.paging.setPde userVirtualAddr f } :=
  ⟨rfl, f (k.paging.pageDirectoryEntry userVirtualAddr), rfl⟩

theorem setProcessMemory (pid : Nat) (k : Kernel) :
    SparesScreens k { k with paging := JuddOS.setProcessMemory pid k.paging } :=
  setPde k _

theorem freeProcessMemory (pid : Nat) (k : Kernel) :
    SparesScreens k { k with paging := JuddOS.freeProcessMemory pid k.paging } :=
  setPde k _

theorem tssEsp0 (n : Nat) (k : Kernel) : SparesScreens k { k with tssEsp0 := n } :=
  of_paging rfl rfl

theorem display (h : SparesScreens k k₁) : k₁.terminalNumDisplay = k.terminalNumDisplay :=
  congrArg ConsoleState.display h.console

theorem vidmem (h : SparesScreens k k₁) (t : Tid) :
    (k₁.terminalArr t).vidmemAddr = (k.terminalArr t).vidmemAddr :=
  congrFun (congrArg ConsoleState.vidmem h.console) t

theorem cursor (h : SparesScreens k k₁) (t : Tid) :
    (k₁.terminalArr t).cursor = (k.terminalArr t).cursor :=
  congrFun (congrArg ConsoleState.cursors h.console) t

theorem keys (h : SparesScreens k k₁) (hkeys : NoKeyPending k) : NoKeyPending k₁ :=
  hkeys.of_keyFlags (congrArg ConsoleState.keyFlags h.console)

end SparesScreens

/-- A terminal becomes active, with a new most recent process. -/
theorem console_of_activated {k k' : Kernel} {recent : Nat}
    (hframe : k' = { k with
      pcb := k'.pcb, terminalArr := k'.terminalArr, tssEsp0 := k'.tssEsp0 })
    (hterminals : k'.terminalArr = Function.update k.terminalArr k.terminalNum
      { k.terminalArr k.terminalNum with active := true, mostRecentPcb := recent }) :
    k'.console = k.console := by
  have hmarked := setTerminal_console k k.terminalNum
    (f := fun t => { t with active := true, mostRecentPcb := recent })
    (fun _ => rfl) (fun _ => rfl) fun _ => rfl
  rw [Kernel.setTerminal, ← hterminals] at hmarked
  have hconsole := congrArg Kernel.console hframe
  exact hconsole.trans hmarked

theorem startProcess_console (fs : Image) (args : List UInt8) (esp ebp : Nat) (k : Kernel) :
    (startProcess fs args esp ebp k).console = k.console :=
  console_of_activated (startProcess_frame fs args esp ebp k)
    (startProcess_terminalArr fs args esp ebp k)

/-- `execute` that starts a process. -/
theorem execute_spares {fs : Image} {command : CString} {exeCheck : Buf} {esp ebp : Nat}
    {k k' : Kernel} (h : execute fs command.val exeCheck esp ebp k = .user k') :
    SparesScreens k k' := by
  by_cases hrej : Rejected fs command.val exeCheck k.pidBits
  · obtain ⟨_, _, hret⟩ := execute_of_rejected esp ebp hrej
    rw [h] at hret
    cases hret
  obtain ⟨args, opened, size, bytes, -, -, -, -, hexec⟩ := execute_of_accepted esp ebp hrej
  rw [h] at hexec
  cases hload : (afterSetup args opened k).pokeRange fileLocation size bytes with
  | none =>
      rw [hload] at hexec
      cases hexec
  | some k₁ =>
      rw [hload] at hexec
      cases hexec
      rw [Kernel.pokeRange_frame hload]
      have hstarted := started_startProcess fs args opened esp ebp k k₁.phys
      exact ⟨startProcess_console fs args esp ebp _, ⟨_, hstarted.paging⟩⟩

theorem leaveTerminal_spares (ebp : Nat) (k : Kernel) :
    SparesScreens k (leaveTerminal ebp k) := by
  have hebp := setTerminal_console { k with terminalNum := k.terminalNum + 1 } k.terminalNum
    (f := fun t => { t with ebp := ebp }) (fun _ => rfl) (fun _ => rfl) fun _ => rfl
  have hesp0 := setTerminal_console
    (Kernel.setTerminal { k with terminalNum := k.terminalNum + 1 } k.terminalNum
      fun t => { t with ebp := ebp }) k.terminalNum
    (f := fun t => { t with esp0 := k.tssEsp0 }) (fun _ => rfl) (fun _ => rfl) fun _ => rfl
  exact .of_paging (hesp0.trans hebp) rfl

/-- A tick that comes to its end. -/
theorem pitHandler_spares {fs : Image} {exeCheck : Buf} {esp ebp ebpExecute : Nat} {k k' : Kernel}
    (h : pitHandler fs exeCheck esp ebp ebpExecute k = .user k' ∨
      ∃ e, pitHandler fs exeCheck esp ebp ebpExecute k = .frame k' e) : SparesScreens k k' := by
  have hresume : ∀ (k₁ : Kernel) (next : Tid), SparesScreens k k₁ →
      (resumeTerminal next k₁ = .user k' ∨ ∃ e, resumeTerminal next k₁ = .frame k' e) →
      SparesScreens k k' := by
    intro k₁ next hk₁ hto
    unfold resumeTerminal at hto
    split at hto
    · rcases hto with hto | ⟨e, hto⟩ <;> cases hto
    · rcases hto with hto | ⟨e, hto⟩
      · cases hto
      · cases hto
        exact hk₁.trans ((SparesScreens.setProcessMemory _ k₁).trans (.tssEsp0 _ _))
  have hleave := leaveTerminal_spares ebp k
  unfold pitHandler at h
  dsimp only at h
  split at h
  · -- the shell of a terminal that was off
    rcases execute_cases fs shellCString exeCheck esp ebpExecute (leaveTerminal ebp k) with
      ⟨size, opened, hexec⟩ | hexec | ⟨k₁, hexec, -⟩ <;>
      rw [show shellCommand = shellCString.val from rfl, hexec] at h
    · exact hresume { leaveTerminal ebp k with sizeOfArgs := size, openedFile := opened }
        (leaveTerminal ebp k).terminalNum
        (hleave.trans (.of_paging rfl rfl)) h
    · rcases h with h | ⟨e, h⟩ <;> cases h
    · rcases h with h | ⟨e, h⟩
      · cases h
        exact hleave.trans (execute_spares hexec)
      · cases h
  · exact hresume _ _ hleave h

/-- `halt`. -/
theorem halt_spares {esp : Nat} {k k' : Kernel}
    (h : halt esp k = .user k' ∨ ∃ e, halt esp k = .frame k' e) : SparesScreens k k' := by
  unfold halt at h
  dsimp only at h
  split at h
  · rcases h with h | ⟨e, h⟩
    · cases h
      exact (SparesScreens.tssEsp0 _ k).trans (.tssEsp0 _ _)
    · cases h
  · rcases h with h | ⟨e, h⟩
    · cases h
    · cases h
      -- statement by statement
      have hrestore : SparesScreens k (haltRestoreEsp0 (getCurrPcb esp) k) := .tssEsp0 _ k
      refine hrestore.trans ?_
      generalize haltRestoreEsp0 (getCurrPcb esp) k = k₁
      have hrelease : SparesScreens k₁ (haltReleasePid (getCurrPcb esp) k₁) :=
        .of_paging rfl rfl
      refine hrelease.trans ?_
      generalize haltReleasePid (getCurrPcb esp) k₁ = k₂
      have hfree : SparesScreens k₂ (haltFreeMemory (getCurrPcb esp) k₂) :=
        .freeProcessMemory _ k₂
      refine hfree.trans ?_
      generalize haltFreeMemory (getCurrPcb esp) k₂ = k₃
      have hmap : SparesScreens k₃ (haltMapParent (k.pcb (getCurrPcb esp)).parent k₃) :=
        .setProcessMemory _ k₃
      refine hmap.trans ?_
      have hrecent := setTerminal_console (haltMapParent (k.pcb (getCurrPcb esp)).parent k₃)
        k₃.terminalNum
        (f := fun t => { t with mostRecentPcb := (k.pcb (getCurrPcb esp)).parent })
        (fun _ => rfl) (fun _ => rfl) fun _ => rfl
      exact .of_paging hrecent rfl

/-- **A process event** spares the screens. -/
theorem ProcState.step_spares {fs : Image} {a a' : ProcState} {e : ProcEvent}
    (hstep : a.step fs e = some a') : SparesScreens a.kernel a'.kernel := by
  cases e with
  | execute command exeCheck esp ebp =>
      rw [ProcState.step] at hstep
      split at hstep
      case isFalse => cases hstep
      case isTrue =>
        rcases execute_cases fs command exeCheck esp ebp a.kernel with
          ⟨size, opened, hexec⟩ | hexec | ⟨k', hexec, -⟩ <;> rw [hexec] at hstep <;> cases hstep
        · exact .of_paging rfl rfl
        · exact execute_spares hexec
  | halt esp =>
      rw [ProcState.step] at hstep
      split at hstep
      case isFalse => cases hstep
      case isTrue =>
        cases hout : JuddOS.halt esp a.kernel <;> rw [hout] at hstep <;> cases hstep
        · exact halt_spares (.inl hout)
        · exact halt_spares (.inr ⟨_, hout⟩)
  | tick exeCheck esp ebp ebpExecute =>
      rw [ProcState.step] at hstep
      cases hout : pitHandler fs exeCheck esp ebp ebpExecute a.kernel <;> rw [hout] at hstep <;>
        cases hstep
      · exact pitHandler_spares (.inl hout)
      · exact pitHandler_spares (.inr ⟨_, hout⟩)

/-! ## The machine -/

/-- `vidmap`. -/
def vidmap (esp : Nat) (screenStart : UInt32) (k : Kernel) : Option (Int32 × Kernel) :=
  let startAddress := screenStart.toInt32.toInt
  if startAddress < fileLocation ∨ startAddress ≥ fileLocation + pageSize then some (-1, k)
  else
    let virtualAddress :=
      UInt32.ofNat (k.terminalArr (k.pcb (getCurrPcb esp)).tid).vidmemAddr
    (k.pokeRange screenStart.toNat 4 (Buf.ofWord virtualAddress)).map
      (virtualAddress.toInt32, ·)

/-- What can happen. -/
inductive MachineEvent
  | proc (e : ProcEvent)
  | key (scan : UInt8) (past : UInt32)
  | write (buf : Option Buf) (nbytes : Int32)
  /-- The first statement of `terminal_read`, and what follows its loop. -/
  | plantReturn
  | takeLine (buf : Buf) (nbytes : Int32)
  | vidmap (esp : Nat) (screenStart : UInt32)
  /-- A store by the running program. -/
  | store (v : Nat) (byte : UInt8)

/-- What the console and the programs do to the kernel. -/
def MachineEvent.exec (k : Kernel) : MachineEvent → Option Kernel
  | .proc _ => none
  | .key scan past => keyboardHandlerMain scan past k
  | .write buf nbytes => (terminalWrite buf nbytes k).map Prod.snd
  | .plantReturn => some (JuddOS.plantReturn k)
  | .takeLine buf nbytes => some (JuddOS.takeLine buf nbytes k).2
  | .vidmap esp screenStart => (JuddOS.vidmap esp screenStart k).map Prod.snd
  | .store v byte => if (k.paging.walk v).any (·.user) then k.poke v byte else none

namespace ProcState

/-- One event of the machine. -/
def machineStep (fs : Image) (s : ProcState) : MachineEvent → Option ProcState
  | .proc e => s.step fs e
  | e => (e.exec s.kernel).map fun k => { s with kernel := k }

/-- An event that is not one of the processes. -/
theorem machineStep_exec {fs : Image} {s s' : ProcState} {e : MachineEvent}
    (he : ∀ e', e ≠ .proc e') (hstep : s.machineStep fs e = some s') :
    ∃ k', e.exec s.kernel = some k' ∧ s' = { s with kernel := k' } := by
  rw [machineStep, Option.map_eq_some_iff] at hstep
  · obtain ⟨k', hexec, rfl⟩ := hstep
    exact ⟨k', hexec, rfl⟩
  · exact he

/-- A complete call of `keyboard_handler_main` is an event. -/
theorem machineStep_key {s : ProcState} {scan : UInt8} {past : UInt32} {k' : Kernel}
    (hrun : keyboardHandlerMain scan past s.kernel = some k') (fs : Image) :
    s.machineStep fs (.key scan past) = some { s with kernel := k' } :=
  congrArg (Option.map fun k => ({ s with kernel := k } : ProcState)) hrun

/-- The runs of the machine. -/
abbrev MachineSteps (fs : Image) : ProcState → List MachineEvent → ProcState → Prop :=
  Run fun s e s' => s.machineStep fs e = some s'

/-- A run of the processes alone. -/
theorem Steps.machine {fs : Image} {a a' : ProcState} {es : List ProcEvent}
    (hrun : Steps fs a es a') : MachineSteps fs a (es.map .proc) a' := by
  induction hrun with
  | nil => exact .nil _
  | snoc _ last ih =>
      rw [List.map_append]
      exact .snoc ih last

end ProcState

/-- **The invariant of the machine.** -/
structure MachineReady (s : ProcState) : Prop where
  coherent : ∃ b σ, BetweenCalls s b ∧ Coherent b σ
  mapped : VideoMapped s.kernel
  /-- The directory entry of the screens is one for user mode. -/
  user : (s.kernel.paging.pageDirectoryEntry 33).userSupervisor = true
  keys : NoKeyPending s.kernel

/-- The console after `entry`. -/
theorem Booted.console {m : PowerOn} {k : Kernel} (hboot : Booted m k) :
    VideoMapped k ∧ (k.paging.pageDirectoryEntry 33).userSupervisor = true ∧ NoKeyPending k := by
  obtain ⟨-, -, -, -, hbuf, hback, hctrlL, -, hzero, hone, htwo⟩ := hboot.noFlags
  have hvga := (vgaMapped_initPaging m.layout m.elsewhere).setUpVirtualToVideo 0
  have hscreens := screensMapped_setUpVirtualToVideo 0
    (initPaging (Paging.zeroed m.layout m.elsewhere))
  have hpde := setUpVirtualToVideo_pde 0 (initPaging (Paging.zeroed m.layout m.elsewhere))
  rw [← hboot.paging] at hvga hscreens hpde
  refine ⟨⟨fun t => ?_, hvga, ?_⟩, ?_, ⟨hbuf, hback, hctrlL, hzero, hone, htwo⟩⟩
  · rw [hboot.terminalArr]
    rfl
  · rw [hboot.terminalNumDisplay]
    exact hscreens
  · rw [hpde]

theorem machineReady_boot (m : PowerOn) : MachineReady (.boot m) := by
  obtain ⟨hmapped, huser, hkeys⟩ := (booted_bootKernel m).console
  exact ⟨⟨_, _, BetweenCalls.boot m, coherent_boot m⟩, hmapped, huser, hkeys⟩

/-- The screens after a step of the processes. -/
theorem SparesScreens.ready {k k' : Kernel} (h : SparesScreens k k') (hmapped : VideoMapped k)
    (huser : (k.paging.pageDirectoryEntry 33).userSupervisor = true) :
    VideoMapped k' ∧ (k'.paging.pageDirectoryEntry 33).userSupervisor = true := by
  obtain ⟨e, he⟩ := h.paging
  refine ⟨⟨fun t => (h.vidmem t).trans (hmapped.vidmem t), ?_, ?_⟩, ?_⟩
  · rw [he]
    exact hmapped.vga.setPde (by decide) _
  · rw [he, h.display]
    exact hmapped.screens.setPde (by decide) _
  · rw [he, Paging.setPde_of_ne _ _ (by decide)]
    exact huser

/-- The processes do not notice a step that leaves their bookkeeping alone, however it maps the
screens. -/
theorem Coherent.of_bookkeeping {s : Sys} {σ : Stacks Tid Nat} (h : Coherent s σ) {k' : Kernel}
    {p : Paging} {shown : Tid}
    (hsame : k'.bookkeeping = { s.kernel.bookkeeping with paging := p, display := shown })
    (hpage : ∀ pid, MapsProcess s.kernel.paging pid → MapsProcess p pid) :
    Coherent { s with kernel := k' } σ := by
  have hpaging : k'.paging = p := congrArg Bookkeeping.paging hsame
  have hpcb : k'.pcb = s.kernel.pcb := congrArg Bookkeeping.pcb hsame
  have hbits : k'.pidBits = s.kernel.pidBits := congrArg Bookkeeping.pidBits hsame
  have hesp0 : k'.tssEsp0 = s.kernel.tssEsp0 := congrArg Bookkeeping.tssEsp0 hsame
  have hnum : k'.terminalNum = s.kernel.terminalNum := congrArg Bookkeeping.terminalNum hsame
  have hslot : ∀ t, (k'.terminalArr t).slot = (s.kernel.terminalArr t).slot := fun t =>
    congrFun (congrArg Bookkeeping.slots hsame) t
  have hactive : ∀ t, (k'.terminalArr t).active = (s.kernel.terminalArr t).active := fun t =>
    congrArg Slot.active (hslot t)
  have hrecent : ∀ t, (k'.terminalArr t).mostRecentPcb = (s.kernel.terminalArr t).mostRecentPcb :=
    fun t => congrArg Slot.mostRecentPcb (hslot t)
  have hsaved : ∀ t, (k'.terminalArr t).esp0 = (s.kernel.terminalArr t).esp0 := fun t =>
    congrArg Slot.esp0 (hslot t)
  constructor
  case linked =>
    have hlinked := h.linked
    refine ⟨hlinked.separate, hlinked.lt, hlinked.alive, hlinked.nodup, ?_, ?_, ?_, hlinked.halts,
      ?_⟩
    · dsimp only
      rw [hbits]
      exact hlinked.bits
    · intro t
      dsimp only
      rw [hactive]
      exact hlinked.active t
    · intro t
      dsimp only
      rw [hpcb]
      exact hlinked.chained t
    · intro t
      dsimp only
      rw [hrecent]
      exact hlinked.recent t
  case current =>
    have hcurrent := h.current
    refine ⟨hcurrent.scheduled.trans hnum.symm, ?_, ?_, ?_⟩ <;> dsimp only <;> rw [hnum]
    · exact hcurrent.idle
    · rw [hesp0, hpcb]
      exact hcurrent.esp0
    · rw [hpaging]
      exact fun pid hpid => hpage pid (hcurrent.page pid hpid)
  case saved =>
    dsimp only
    rw [hnum]
    intro t ht
    have hsave := h.saved t ht
    refine ⟨fun hne => ?_, hsave.page⟩
    rw [hsaved, hpcb]
    exact hsave.esp0 hne
  case resumed =>
    dsimp only
    rw [hnum]
    exact h.resumed

/-- A step of the console. -/
theorem MachineReady.console {s : ProcState} (h : MachineReady s) {k' : Kernel}
    (hsame : k'.bookkeeping = s.kernel.bookkeeping)
    (hkeys : NoKeyPending k') : MachineReady { s with kernel := k' } := by
  obtain ⟨b, σ, hbetween, hcoherent⟩ := h.coherent
  have hpaging : k'.paging = s.kernel.paging := congrArg Bookkeeping.paging hsame
  have hdisplay : k'.terminalNumDisplay = s.kernel.terminalNumDisplay :=
    congrArg Bookkeeping.display hsame
  have hvidmem : ∀ t, (k'.terminalArr t).vidmemAddr = (s.kernel.terminalArr t).vidmemAddr :=
    fun t => congrArg Slot.vidmemAddr (congrFun (congrArg Bookkeeping.slots hsame) t)
  refine ⟨⟨{ b with kernel := k' }, σ, ⟨rfl, hbetween.live, hbetween.halting⟩, ?_⟩,
    ⟨fun t => (hvidmem t).trans (h.mapped.vidmem t), ?_, ?_⟩, ?_, hkeys⟩
  · rw [← hbetween.kernel] at hsame
    have hsame' : k'.bookkeeping =
        { b.kernel.bookkeeping with
          paging := b.kernel.paging, display := b.kernel.terminalNumDisplay } := hsame
    exact hcoherent.of_bookkeeping hsame' fun _ hp => hp
  · show VgaMapped k'.paging
    rw [hpaging]
    exact h.mapped.vga
  · show ScreensMapped k'.paging k'.terminalNumDisplay
    rw [hpaging, hdisplay]
    exact h.mapped.screens
  · show (k'.paging.pageDirectoryEntry 33).userSupervisor = true
    rw [hpaging]
    exact h.user

/-- A store to memory. -/
theorem MachineReady.memory {s : ProcState} (h : MachineReady s) (phys : Buf) :
    MachineReady { s with kernel := { s.kernel with phys := phys } } := by
  have hsame : { s.kernel with phys := phys }.bookkeeping = s.kernel.bookkeeping := rfl
  exact h.console hsame ⟨h.keys.1, h.keys.2, h.keys.3, h.keys.4, h.keys.5, h.keys.6⟩

/-- `vidmap` stores to memory and nothing else. -/
theorem vidmap_frame {esp : Nat} {screenStart : UInt32} {k k' : Kernel} {v : Int32}
    (h : vidmap esp screenStart k = some (v, k')) : k' = { k with phys := k'.phys } := by
  unfold vidmap at h
  dsimp only at h
  split at h
  · cases h
    rfl
  · rw [Option.map_eq_some_iff] at h
    obtain ⟨k₁, hstore, heq⟩ := h
    cases heq
    exact Kernel.pokeRange_frame hstore

theorem MachineEvent.exec_vidmap_frame {esp : Nat} {screenStart : UInt32} {k k' : Kernel}
    (h : MachineEvent.exec k (.vidmap esp screenStart) = some k') :
    k' = { k with phys := k'.phys } := by
  rw [MachineEvent.exec, Option.map_eq_some_iff] at h
  obtain ⟨⟨v, k₁⟩, hvidmap, rfl⟩ := h
  exact vidmap_frame hvidmap

theorem MachineEvent.exec_store_frame {v : Nat} {byte : UInt8} {k k' : Kernel}
    (h : MachineEvent.exec k (.store v byte) = some k') : k' = { k with phys := k'.phys } := by
  rw [MachineEvent.exec] at h
  split at h
  · exact Kernel.poke_frame h
  · cases h

/-- What an event does: a step of the processes, a call, or a change of memory alone. -/
inductive MachineDone (fs : Image) (s : ProcState) : MachineEvent → ProcState → Prop
  | proc {e : ProcEvent} {s' : ProcState} (hstep : s.step fs e = some s') :
      MachineDone fs s (.proc e) s'
  | key {scan : UInt8} {past : UInt32} {k' : Kernel}
      (hrun : keyboardHandlerMain scan past s.kernel = some k') :
      MachineDone fs s (.key scan past) { s with kernel := k' }
  | write {buf : Option Buf} {nbytes v : Int32} {k' : Kernel}
      (hrun : terminalWrite buf nbytes s.kernel = some (v, k')) :
      MachineDone fs s (.write buf nbytes) { s with kernel := k' }
  | plantReturn : MachineDone fs s .plantReturn { s with kernel := plantReturn s.kernel }
  | takeLine (buf : Buf) (nbytes : Int32) :
      MachineDone fs s (.takeLine buf nbytes) { s with kernel := (takeLine buf nbytes s.kernel).2 }
  | vidmap (esp : Nat) (screenStart : UInt32) (phys : Buf) :
      MachineDone fs s (.vidmap esp screenStart) { s with kernel := { s.kernel with phys := phys } }
  | store (v : Nat) (byte : UInt8) (phys : Buf) :
      MachineDone fs s (.store v byte) { s with kernel := { s.kernel with phys := phys } }

/-- **The cases of an event**, once for all invariants. -/
theorem machineStep_done {fs : Image} {s s' : ProcState} {e : MachineEvent}
    (hstep : s.machineStep fs e = some s') : MachineDone fs s e s' := by
  cases e with
  | proc e => exact .proc hstep
  | key scan past =>
      obtain ⟨k', hexec, rfl⟩ :=
        ProcState.machineStep_exec (e := .key scan past) (by rintro _ ⟨⟩) hstep
      exact .key hexec
  | write buf nbytes =>
      obtain ⟨k', hexec, rfl⟩ :=
        ProcState.machineStep_exec (e := .write buf nbytes) (by rintro _ ⟨⟩) hstep
      rw [MachineEvent.exec, Option.map_eq_some_iff] at hexec
      obtain ⟨⟨v, k₁⟩, hwrite, rfl⟩ := hexec
      exact .write hwrite
  | plantReturn =>
      cases hstep
      exact .plantReturn
  | takeLine buf nbytes =>
      cases hstep
      exact .takeLine buf nbytes
  | vidmap esp screenStart =>
      obtain ⟨k', hexec, rfl⟩ :=
        ProcState.machineStep_exec (e := .vidmap esp screenStart) (by rintro _ ⟨⟩) hstep
      rw [MachineEvent.exec_vidmap_frame hexec]
      exact .vidmap esp screenStart k'.phys
  | store v byte =>
      obtain ⟨k', hexec, rfl⟩ :=
        ProcState.machineStep_exec (e := .store v byte) (by rintro _ ⟨⟩) hstep
      rw [MachineEvent.exec_store_frame hexec]
      exact .store v byte k'.phys

/-- Mapping the screens leaves the process page alone. -/
theorem MapsProcess.setUpVirtualToVideo {p : Paging} {pid : Nat} (h : MapsProcess p pid)
    (index : Tid) : MapsProcess (JuddOS.setUpVirtualToVideo terminalVidmem index p) pid := by
  have hpde := setUpVirtualToVideo_pde_of_ne index p (j := userVirtualAddr) (by decide)
  exact ⟨by rw [hpde]; exact h.present, by rw [hpde]; exact h.user, by rw [hpde]; exact h.large,
    by rw [hpde]; exact h.frame⟩

/-- A switch of the displayed terminal. -/
theorem MachineReady.switched {s : ProcState} (h : MachineReady s) {k' : Kernel} {index : Tid}
    (hsame : k'.bookkeeping = s.kernel.bookkeeping.switched index) (hkeys : NoKeyPending k') :
    MachineReady { s with kernel := k' } := by
  by_cases hshown : index = s.kernel.bookkeeping.display
  · rw [Bookkeeping.switched, if_pos hshown] at hsame
    exact h.console hsame hkeys
  rw [Bookkeeping.switched, if_neg hshown] at hsame
  obtain ⟨b, σ, hbetween, hcoherent⟩ := h.coherent
  have haddr : (fun t => (s.kernel.bookkeeping.slots t).vidmemAddr) = terminalVidmem :=
    funext h.mapped.vidmem
  rw [haddr] at hsame
  have hpaging : k'.paging = setUpVirtualToVideo terminalVidmem index s.kernel.paging :=
    congrArg Bookkeeping.paging hsame
  have hdisplay : k'.terminalNumDisplay = index := congrArg Bookkeeping.display hsame
  have hvidmem : ∀ t, (k'.terminalArr t).vidmemAddr = (s.kernel.terminalArr t).vidmemAddr :=
    fun t => congrArg Slot.vidmemAddr (congrFun (congrArg Bookkeeping.slots hsame) t)
  refine ⟨⟨{ b with kernel := k' }, σ, ⟨rfl, hbetween.live, hbetween.halting⟩, ?_⟩,
    ⟨fun t => (hvidmem t).trans (h.mapped.vidmem t), ?_, ?_⟩, ?_, hkeys⟩
  · have hsame' := hsame
    rw [← hbetween.kernel] at hsame'
    exact hcoherent.of_bookkeeping hsame' fun pid hp => hp.setUpVirtualToVideo index
  · show VgaMapped k'.paging
    rw [hpaging]
    exact h.mapped.vga.setUpVirtualToVideo index
  · show ScreensMapped k'.paging k'.terminalNumDisplay
    rw [hpaging, hdisplay]
    exact screensMapped_setUpVirtualToVideo index _
  · show (k'.paging.pageDirectoryEntry 33).userSupervisor = true
    rw [hpaging, setUpVirtualToVideo_pde]

/-- A step of the processes. -/
theorem MachineReady.proc {fs : Image} {s s' : ProcState} (h : MachineReady s) {e : ProcEvent}
    (hstep : s.step fs e = some s') : MachineReady s' := by
  obtain ⟨b, σ, hbetween, hcoherent⟩ := h.coherent
  obtain ⟨es, b', hrun, hbetween'⟩ := hbetween.step hstep
  obtain ⟨-, σ', -, hcoherent'⟩ := hcoherent.run hrun
  have hspares := ProcState.step_spares hstep
  obtain ⟨hmapped, huser⟩ := hspares.ready h.mapped h.user
  exact ⟨⟨b', σ', hbetween', hcoherent'⟩, hmapped, huser, hspares.keys h.keys⟩

/-- **One event of the machine.** -/
theorem MachineReady.step {fs : Image} {s s' : ProcState} (h : MachineReady s) {e : MachineEvent}
    (hstep : s.machineStep fs e = some s') : MachineReady s' := by
  cases machineStep_done hstep with
  | proc hstep => exact h.proc hstep
  | @key scan past k' hrun =>
      obtain ⟨hsame, hkeys⟩ := keyboardHandlerMain_bookkeeping h.keys hrun
      cases hkey : keyOf scan past s.kernel with
      | switch index =>
          rw [hkey] at hsame
          exact h.switched hsame hkeys
      | idle | erase | clear | «show» | enter | char =>
          rw [hkey] at hsame
          exact h.console hsame hkeys
  | write hrun =>
      exact h.console (terminalWrite_bookkeeping hrun) (h.keys.draws (terminalWrite_draws hrun))
  | plantReturn =>
      exact h.console (plantReturn_bookkeeping s.kernel)
        ⟨h.keys.1, h.keys.2, h.keys.3, h.keys.4, h.keys.5, h.keys.6⟩
  | takeLine buf nbytes =>
      exact h.console (takeLine_bookkeeping buf nbytes s.kernel)
        ⟨h.keys.1, h.keys.2, h.keys.3, h.keys.4, h.keys.5, h.keys.6⟩
  | vidmap | store => exact h.memory _

/-- **Every reachable state** has the invariant. -/
theorem MachineReady.run {fs : Image} {s s' : ProcState} {es : List MachineEvent}
    (h : MachineReady s) (hrun : ProcState.MachineSteps fs s es s') : MachineReady s' :=
  hrun.invariant MachineReady h fun _ _ _ ha hstep => ha.step hstep

end JuddOS
