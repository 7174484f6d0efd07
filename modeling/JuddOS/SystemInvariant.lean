import JuddOS.InterruptLines
import JuddOS.TimerSwitch

/-!
# The invariant of the system

`OsReady` puts together the invariant of the machine and that of every descriptor table.  Every
event keeps it (`OsReady.step`).

`no_null_call_of_run` is what it says about the calls on descriptors of all processes, and
`waiting_process_of_run` what it says about a process while others run.
-/

namespace JuddOS

open Support X86

/-- Every process has descriptors that agree with entries they may have been opened on. -/
def DescriptorsReady (fs : Image) (s : ProcState) : Prop :=
  ∀ p ∈ s.live, ∃ entry, DescriptorsMatch fs (s.kernel.pcb (pcbAddr p)).fdArray entry

/-- **The invariant.** -/
structure OsReady (fs : Image) (o : Os) : Prop where
  tidy : TidyMachine o.proc
  descriptors : DescriptorsReady fs o.proc

theorem osReady_boot (fs : Image) {m : PowerOn} (hcursor : m.CursorOnScreen)
    (master slave : Pic8259) (index : UInt8) (reg : UInt8 → UInt8) :
    OsReady fs (.boot m master slave index reg) :=
  ⟨tidyMachine_boot hcursor, by rintro p ⟨⟩⟩

section Step

variable {fs : Image}

/-- An event of the machine changes the descriptors of new processes only. -/
theorem DescriptorsReady.machineStep {s s' : ProcState} (h : DescriptorsReady fs s)
    (htidy : TidyMachine s) {e : MachineEvent} (hstep : s.machineStep fs e = some s') :
    DescriptorsReady fs s' := by
  intro p hp
  by_cases hold : p ∈ s.live
  · obtain ⟨entry, hmatch⟩ := h p hold
    rw [htidy.samePcb hstep hold hp]
    exact ⟨entry, hmatch⟩
  · cases machineStep_done hstep with
    | proc hproc =>
        obtain ⟨σ, -, hdone⟩ := htidy.proc_done hproc
        obtain ⟨old, hfds⟩ := hdone.fresh hold hp
        rw [hfds]
        exact ⟨fun _ => none, descriptorsMatch_initial fs old _⟩
    | key | write | plantReturn | takeLine | vidmap | store => exact absurd hp hold

theorem OsReady.machineSteps {s s' : ProcState} (htidy : TidyMachine s)
    (h : DescriptorsReady fs s) {es : List MachineEvent} (hrun : s.MachineSteps fs es s') :
    TidyMachine s' ∧ DescriptorsReady fs s' :=
  hrun.invariant (fun s => TidyMachine s ∧ DescriptorsReady fs s) ⟨htidy, h⟩
    fun _ _ _ h hstep => ⟨h.1.step hstep, h.2.machineStep h.1 hstep⟩

/-- Interrupts are not taken during a call here. -/
theorem keepsDescriptors_id (addr : Nat) : KeepsDescriptors addr fun _ io => io :=
  fun _ _ => .refl _

variable {o o' : Os} {e : OsEvent}

/-- The process that runs makes a call. -/
theorem OsReady.call (h : OsReady fs o) {c : FileCall} {stale : Buf} {esp : Nat} {v : Int32}
    {io : Io} (hlive : o.proc.live ≠ []) (hesp : OnKernelStack o.proc.kernel esp)
    (hrun : c.run fs stale (fun _ io => io) esp o.io = .returned v () io) :
    OsReady fs (o.setIo io) := by
  have hchange := c.change fs stale esp o.io
  rw [hrun] at hchange
  obtain ⟨es, -, hbrief, hsteps⟩ := hchange.kernel.kernelSteps hlive hesp fs
  have htidy := hsteps.invariant TidyMachine h.tidy fun _ _ _ ha hstep => ha.kernelStep hstep
  refine ⟨htidy, fun p hp => ?_⟩
  obtain ⟨entry, hmatch⟩ := h.descriptors p hp
  have hcurr := h.tidy.currPcb hlive hesp
  by_cases hrunning : p = o.proc.kernel.runningPid
  · rw [← hrunning] at hcurr
    have hcall := FdStep.call c hcurr (keepsDescriptors_id _) hrun (s := ⟨o.io, entry⟩)
    exact ⟨_, hcall.keeps hmatch⟩
  · have hkeeps := h.tidy.idle_of_brief hsteps hbrief hp hrunning
    have hpcb : (o.setIo io).proc.kernel.pcb (pcbAddr p) = o.proc.kernel.pcb (pcbAddr p) :=
      hkeeps.pcb
    rw [hpcb]
    exact ⟨entry, hmatch⟩

/-- **Every event keeps the invariant.** -/
theorem OsReady.step (h : OsReady fs o) (hstep : o.step fs e = some o') : OsReady fs o' := by
  cases Os.step_done hstep with
  | tick r htick =>
      have hmachine : o.proc.machineStep fs (.proc (.tick _ _ _ _)) = some _ := htick
      exact ⟨h.tidy.step hmachine, h.descriptors.machineStep h.tidy hmachine⟩
  | machine r he htick hbrief hrun =>
      obtain ⟨htidy, hfds⟩ := OsReady.machineSteps h.tidy h.descriptors hrun
      exact ⟨htidy, hfds⟩
  | call hlive hesp hrun => exact h.call hlive hesp hrun

theorem OsReady.run (h : OsReady fs o) {es : List OsEvent} (hrun : o.Steps fs es o') :
    OsReady fs o' :=
  hrun.invariant (OsReady fs) h fun _ _ _ ha hstep => ha.step hstep

end Step

/-! ## Reachable states -/

/-- The first shell runs. -/
structure FirstShell (o : Os) : Prop where
  reached : ∃ es, (Os.boot .blank (I8259.chip 0xFB) (I8259.chip 0xFF) 0 fun _ => 0).Steps
    shellImage es o
  live : o.proc.live = [0]
  ready : OsReady shellImage o
  lines : o.rtc.irq.LinesReady 0xFF
  screen : ∀ t, OnScreen (o.proc.kernel.terminalArr t)

theorem FirstShell.ne_nil {o : Os} (h : FirstShell o) : o.proc.live ≠ [] := by
  rw [h.live]
  exact List.cons_ne_nil 0 []

theorem FirstShell.runs {o : Os} (h : FirstShell o) : o.proc.kernel.runningPid = 0 := by
  have hruns := (h.ready.tidy.running h.ne_nil).mem
  rwa [h.live, List.mem_singleton] at hruns

/-- The first shell is the root of its terminal. -/
theorem FirstShell.root {o : Os} (h : FirstShell o) :
    (o.proc.kernel.pcb (pcbAddr o.proc.kernel.runningPid)).parent = 0 := by
  obtain ⟨σ, hchains⟩ := h.ready.tidy.ready.chains
  obtain ⟨p, rest, hruns⟩ := hchains.runs h.ne_nil
  have hnodup := hchains.linked.separate.nodup o.proc.kernel.terminalNum
  rw [hruns.chain] at hnodup
  have hzero : ∀ q ∈ p :: rest, q = 0 := by
    intro q hq
    have hmem := (hchains.mem_live q).mpr ⟨_, hruns.chain ▸ hq⟩
    rwa [h.live, List.mem_singleton] at hmem
  have hrest : rest = [] := by
    refine List.eq_nil_iff_forall_not_mem.mpr fun q hq => ?_
    have hsame : q = p := (hzero q (List.mem_cons_of_mem p hq)).trans
      (hzero p (List.mem_cons_self ..)).symm
    exact (List.nodup_cons.mp hnodup).1 (hsame ▸ hq)
  rw [hruns.runningPid, hruns.link.parent, hrest]
  rfl

/-- The first shell starts with the cursors at the top left. -/
theorem onScreen_firstShell {s : ProcState} (hrun : ProcState.Steps shellImage (.boot .blank)
    [.execute shellCString (fun _ => 0) 0 0] s) (t : Tid) : OnScreen (s.kernel.terminalArr t) := by
  have hterm : (ProcState.boot .blank).kernel.terminalArr = initialTerminal :=
    (booted_bootKernel .blank).terminalArr
  have hcursor := (ProcState.step_spares hrun.of_single).cursor t
  rw [hterm] at hcursor
  have hX : (s.kernel.terminalArr t).cursorX = 0 := congrArg Prod.fst hcursor
  have hY : (s.kernel.terminalArr t).cursorY = 0 := congrArg Prod.snd hcursor
  exact ⟨by rw [hX]; decide, by rw [hY]; decide⟩

theorem exists_system_shell : ∃ o, FirstShell o := by
  obtain ⟨s, hrun, hlive⟩ := exists_firstShell .blank
  have hscreen := onScreen_firstShell hrun
  obtain ⟨es, o, hrun', rfl⟩ := Os.run_of_processes hrun (I8259.chip 0xFB) (I8259.chip 0xFF) rfl rfl
    0 (fun _ => 0)
  refine ⟨o, ⟨es, hrun'⟩, hlive, (osReady_boot _ ?_ _ _ 0 _).run hrun',
    (linesReady_boot .blank ?_ ?_ 0 _).run hrun', hscreen⟩
  · decide
  · rfl
  · rfl

/-- There is a process number left. -/
theorem OsReady.free {fs : Image} {o : Os} (h : OsReady fs o) (hroom : o.proc.live.length < 6) :
    firstFreePid o.proc.kernel.pidBits 6 0 ≠ 6 := by
  intro hfull
  obtain ⟨σ, hchains⟩ := h.tidy.ready.chains
  obtain ⟨-, -, hbefore, -⟩ := firstFreePid_spec o.proc.kernel.pidBits 6 0
  rw [hfull] at hbefore
  have hsubset : List.range 6 ⊆ o.proc.live := fun p hp =>
    have hlt := List.mem_range.mp hp
    (hchains.linked.bits p hlt).mp (hbefore p (Nat.zero_le p) hlt)
  have hle := (List.nodup_range.subperm hsubset).length_le
  rw [List.length_range] at hle
  omega

/-- `execute` of the shell by the process that runs. -/
def OsEvent.startShell (k : Kernel) : OsEvent :=
  .machine (.proc (.execute shellCString (fun _ => 0) k.tssEsp0 k.tssEsp0))

/-- The process that runs has started `p`. -/
structure StartsShell (o o' : Os) (p : Nat) : Prop where
  new : p ∉ o.proc.live
  live : o'.proc.live = p :: o.proc.live
  runs : o'.proc.kernel.runningPid = p
  parent : (o'.proc.kernel.pcb (pcbAddr p)).parent = pcbAddr o.proc.kernel.runningPid
  screen : (∀ t, OnScreen (o.proc.kernel.terminalArr t)) →
    ∀ t, OnScreen (o'.proc.kernel.terminalArr t)

/-- `execute` starts a shell when there is a process number left. -/
theorem OsReady.execute_shell {fs : Image} {o : Os} (h : OsReady fs o) (hshell : ValidShell fs)
    (hlive : o.proc.live ≠ []) (hroom : o.proc.live.length < 6) (esp ebp : Nat)
    (hmay : MayExecute o.proc.kernel o.proc.live shellCString esp ebp) :
    ∃ o' p, o.step fs (.machine (.proc (.execute shellCString (fun _ => 0) esp ebp))) = some o' ∧
      StartsShell o o' p := by
  have hrunning := h.tidy.running hlive
  have hesp : OnKernelStack o.proc.kernel esp := (hmay.resolve_left fun hfirst => hlive hfirst.1).2.1
  obtain ⟨k', hexec⟩ := hshell.starts (k := o.proc.kernel) (fun _ => 0) esp ebp (h.free hroom)
  have hexec' : execute fs shellCString.val (fun _ => 0) esp ebp o.proc.kernel = .user k' := hexec
  obtain ⟨s, hs⟩ : ∃ s : ProcState, s = { kernel := k', live := k'.availablePid :: o.proc.live } :=
    ⟨_, rfl⟩
  have hproc : o.proc.step fs (.execute shellCString (fun _ => 0) esp ebp) = some s := by
    rw [ProcState.step, if_pos hmay, hexec', hs]
  have hstart := execute_startedFrom h.tidy.console.toTidy hexec'
  have hchild := hstart.started
  have hkernel : s.kernel = k' := congrArg ProcState.kernel hs
  obtain ⟨σ, hchains⟩ := h.tidy.ready.chains
  have hnew := (hstart.touches hchains rfl rfl rfl).1
  have hcurr := h.tidy.currPcb hlive hesp
  refine ⟨{ o with proc := s }, _,
    congrArg (Option.map fun s => ({ o with proc := s } : Os)) hproc, hnew, ?_, ?_, ?_, ?_⟩
  · rw [hs]
    exact congrArg (fun p => p :: o.proc.live) hchild.availablePid
  · dsimp only
    rw [hkernel, Kernel.runningPid, mostRecent, hchild.terminalNum, hchild.terminalArr,
      Function.update_self, hchild.pid]
  · have hne : o.proc.kernel.runningPid ≠ firstFreePid o.proc.kernel.pidBits 6 0 :=
      fun heq => hnew (heq ▸ hrunning.mem)
    dsimp only
    rw [hkernel, ← hcurr]
    refine (hchild.child hrunning.active ?_).1
    rw [hcurr]
    exact pcbAddr_ne (h.tidy.lt hrunning.mem) hne
  · intro hscreen t
    have hcursor := (ProcState.step_spares hproc).cursor t
    have hX : (s.kernel.terminalArr t).cursorX = (o.proc.kernel.terminalArr t).cursorX :=
      congrArg Prod.fst hcursor
    have hY : (s.kernel.terminalArr t).cursorY = (o.proc.kernel.terminalArr t).cursorY :=
      congrArg Prod.snd hcursor
    exact ⟨hX ▸ (hscreen t).1, hY ▸ (hscreen t).2⟩

/-- A shell starts another one. -/
theorem OsReady.shell_starts {fs : Image} {o : Os} (h : OsReady fs o) (hshell : ValidShell fs)
    (hlive : o.proc.live ≠ []) (hroom : o.proc.live.length < 6) :
    ∃ o' p, o.step fs (.startShell o.proc.kernel) = some o' ∧ StartsShell o o' p := by
  have hrunning := h.tidy.running hlive
  have hroomy : RoomForArrays o.proc.kernel.tssEsp0 shellCString.val :=
    hrunning.esp0 ▸ roomForArrays_shell (h.tidy.lt hrunning.mem)
  exact h.execute_shell hshell hlive hroom _ _ (.inr ⟨hlive, rfl, rfl, by decide, hroomy⟩)

theorem FirstShell.starts {o : Os} (h : FirstShell o) :
    ∃ o' p, o.step shellImage (.startShell o.proc.kernel) = some o' ∧ StartsShell o o' p := by
  have hlength : o.proc.live.length = 1 := congrArg List.length h.live
  exact h.ready.shell_starts validShell_shellImage h.ne_nil (by omega)

section Reachable

variable {fs : Image} {m : PowerOn} {master slave : Pic8259} {index : UInt8} {reg : UInt8 → UInt8}
  {es : List OsEvent} {o : Os}

/-- **The processes of every reachable state of the system.** -/
theorem processes_of_system_run (hcursor : m.CursorOnScreen)
    (hrun : (Os.boot m master slave index reg).Steps fs es o) :
    ProcessTable o.proc ∧ (o.proc.live ≠ [] → RunningContext o.proc.kernel) := by
  have hready := (osReady_boot fs hcursor master slave index reg).run hrun
  obtain ⟨σ, hchains⟩ := hready.tidy.ready.chains
  exact ⟨processTable_of_linked hchains.linked, fun hlive =>
    runningContext_of_coherent hchains.linked hchains.current hchains.saved hlive⟩

theorem processes_of_system_run_shell : ∃ o : Os, o.proc.live = [0] ∧ ProcessTable o.proc ∧
    (o.proc.live ≠ [] → RunningContext o.proc.kernel) := by
  obtain ⟨o, hfirst⟩ := exists_system_shell
  obtain ⟨es, hrun⟩ := hfirst.reached
  exact ⟨o, hfirst.live, processes_of_system_run (by decide) hrun⟩

/-- **The descriptors of every process of every reachable state**, and what they are for: whatever
interrupts do while a call waits, it does not go through `NULL`. -/
theorem no_null_call_of_system_run (hcursor : m.CursorOnScreen)
    (hrun : (Os.boot m master slave index reg).Steps fs es o) {p : Nat} (hp : p ∈ o.proc.live) :
    (∃ entry, DescriptorsMatch fs (o.io.fds (pcbAddr p)) entry) ∧
      ∀ stale interrupts esp fd buf nbytes, getCurrPcb esp = pcbAddr p →
        readCall fs stale interrupts esp fd buf nbytes o.io ≠ .nullCall ∧
          writeCall esp fd buf nbytes o.io ≠ .nullCall := by
  have hready := (osReady_boot fs hcursor master slave index reg).run hrun
  obtain ⟨entry, hmatch⟩ := hready.descriptors p hp
  refine ⟨⟨entry, hmatch⟩, fun stale interrupts esp fd buf nbytes hesp => ?_⟩
  have hmatch' : DescriptorsMatch fs (o.io.fds (getCurrPcb esp)) entry := by
    rw [hesp]
    exact hmatch
  have hread := hmatch'.readCall_leaves stale interrupts fd nbytes buf (P := fun _ => True)
    (fun _ _ _ h => h) (fun _ _ h => h) trivial
  exact ⟨hread.ne_nullCall, (hmatch'.writeCall_leaves fd nbytes buf).ne_nullCall⟩

theorem no_null_call_of_system_run_shell : ∃ o : Os, o.proc.live = [0] ∧
    ∀ stale interrupts esp fd buf nbytes, getCurrPcb esp = pcbAddr 0 →
      readCall shellImage stale interrupts esp fd buf nbytes o.io ≠ .nullCall ∧
        writeCall esp fd buf nbytes o.io ≠ .nullCall := by
  obtain ⟨o, hfirst⟩ := exists_system_shell
  obtain ⟨es, hrun⟩ := hfirst.reached
  refine ⟨o, hfirst.live, (no_null_call_of_system_run (by decide) hrun (p := 0) ?_).2⟩
  rw [hfirst.live]
  exact List.mem_cons_self ..

end Reachable

end JuddOS
