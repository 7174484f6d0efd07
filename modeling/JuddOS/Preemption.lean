import JuddOS.ProcessIsolation

/-!
# A process does not notice the timer

When a tick takes the processor from a terminal, whatever happens until a tick gives it back
leaves the process of that terminal as it was.  The second tick returns through the frame that the
first one saved, on the same kernel stack, with the same page mapped and the same contents in it
(`preemption_of_run`).

`Parked` is what holds in between.
-/

namespace JuddOS

open Support X86

/-- What a process sees of the kernel: its kernel stack, its PCB and its memory. -/
structure SameContext (k k' : Kernel) : Prop where
  terminalNum : k'.terminalNum = k.terminalNum
  runningPid : k'.runningPid = k.runningPid
  tssEsp0 : k'.tssEsp0 = k.tssEsp0
  pcb : k'.pcb (pcbAddr k.runningPid) = k.pcb (pcbAddr k.runningPid)
  memory : ∀ i, i < userSpaceSize →
    k'.peek (virtualAddrStart + i) = k.peek (virtualAddrStart + i)

section Running

variable {s s' : ProcState}

/-- A byte of the page of the process that runs. -/
theorem TidyMachine.peek (h : TidyMachine s) (hlive : s.live ≠ []) {i : Nat}
    (hi : i < userSpaceSize) : s.kernel.peek (virtualAddrStart + i) =
      some (s.kernel.phys (processFrame s.kernel.runningPid + i)) := by
  have hrunning := h.running hlive
  rw [Kernel.peek, hrunning.page.translate (h.lt hrunning.mem) hi]
  rfl

/-- **The context of a process that was kept.** -/
theorem sameContext_of_keeps (h : TidyMachine s) (h' : TidyMachine s') (hlive : s.live ≠ [])
    (hkeeps : KeepsProcess s.kernel.runningPid s s')
    (hnum : s'.kernel.terminalNum = s.kernel.terminalNum)
    (hruns : s'.kernel.runningPid = s.kernel.runningPid) : SameContext s.kernel s'.kernel := by
  have hlive' : s'.live ≠ [] := List.ne_nil_of_mem hkeeps.live
  refine ⟨hnum, hruns, ?_, hkeeps.pcb, fun i hi => ?_⟩
  · rw [(h'.running hlive').esp0, (h.running hlive).esp0, hruns]
  · rw [h'.peek hlive' hi, h.peek hlive hi, hruns, hkeeps.memory]
    exact ⟨Nat.le_add_right _ _, Nat.add_lt_add_left hi _⟩

end Running

/-! ## The two ticks -/

section Tick

variable {s s' : ProcState} {exeCheck : Buf} {esp ebp ebpExecute : Nat}

/-- **A tick** changes no process that is alive, and saves the terminal that it leaves. -/
theorem ProcDone.leaves (h : TidyMachine s)
    (hdone : ProcDone s (.tick exeCheck esp ebp ebpExecute) s') :
    (∀ q ∈ s.live, KeepsProcess q s s') ∧
      s'.kernel.terminalArr s.kernel.terminalNum =
        { s.kernel.terminalArr s.kernel.terminalNum with
          ebp := ebp, esp0 := s.kernel.tssEsp0 } := by
  obtain ⟨σ, hchains⟩ := h.ready.chains
  cases hdone with
  | resumed hactive hout =>
      exact ⟨fun q hq => ⟨hq, rfl, fun _ _ => rfl⟩, leaveTerminal_self ebp s.kernel⟩
  | @opened _ _ _ _ p k' hinactive hstart =>
      refine ⟨fun q hq => hstart.keeps hchains rfl rfl rfl hq, ?_⟩
      rw [hstart.started.terminalArr, leaveTerminal_terminalNum,
        Function.update_of_ne (next_ne _).symm]
      exact leaveTerminal_self ebp s.kernel

/-- **A tick that comes back** to a terminal. -/
theorem ProcDone.returns (fs : Image)
    (hdone : ProcDone s (.tick exeCheck esp ebp ebpExecute) s')
    (hactive : (s.kernel.terminalArr s'.kernel.terminalNum).active = true) :
    pitHandler fs exeCheck esp ebp ebpExecute s.kernel =
        .frame s'.kernel (s.kernel.terminalArr s'.kernel.terminalNum).ebp ∧
      s'.kernel.terminalArr s'.kernel.terminalNum =
        s.kernel.terminalArr s'.kernel.terminalNum ∧
      s'.live = s.live ∧ s'.kernel.pcb = s.kernel.pcb ∧ s'.kernel.phys = s.kernel.phys := by
  have hnum := hdone.terminalNum
  cases hdone with
  | resumed _ hout =>
      exact ⟨hout fs, leaveTerminal_next ebp s.kernel, rfl, rfl, rfl⟩
  | opened hinactive hstart =>
      rw [hnum, ProcEvent.isTick, if_pos rfl, hinactive] at hactive
      cases hactive

end Tick

/-! ## The timer is served -/

section Progress

variable {fs : Image} {o : Os} {mask : UInt8}

/-- A tick that starts the shell of a terminal. -/
theorem pitHandler_starts {exeCheck : Buf} {esp ebp ebpExecute : Nat} {k k' : Kernel}
    (hinactive : (k.terminalArr (k.terminalNum + 1)).active = false)
    (hexec : execute fs shellCommand exeCheck esp ebpExecute (leaveTerminal ebp k) = .user k') :
    pitHandler fs exeCheck esp ebp ebpExecute k = .user k' := by
  rw [pitHandler, leaveTerminal_terminalNum, leaveTerminal_next, if_pos hinactive, hexec]

/-- **An interrupt of the timer is served** when there is a process to go on with. -/
theorem OsReady.pit_served (h : OsReady fs o) (hlines : o.rtc.irq.LinesReady mask)
    (hnext : (o.proc.kernel.terminalArr (o.proc.kernel.terminalNum + 1)).active = true ∨
      ValidShell fs ∧ firstFreePid o.proc.kernel.pidBits 6 0 ≠ 6)
    (exeCheck : Buf) (esp ebp ebpExecute : Nat) :
    ∃ o', o.step fs (.pitIrq exeCheck esp ebp ebpExecute) = some o' := by
  have hstep : ∃ s, o.proc.step fs (.tick exeCheck esp ebp ebpExecute) = some s := by
    obtain ⟨σ, hchains⟩ := h.tidy.ready.chains
    cases hactive : (o.proc.kernel.terminalArr (o.proc.kernel.terminalNum + 1)).active with
    | true =>
        have hout := hchains.pitHandler_resumes hactive fs exeCheck esp ebp ebpExecute
        exact ⟨_, by rw [ProcState.step, hout]⟩
    | false =>
        obtain ⟨hshell, hfree⟩ := hnext.resolve_left (by rw [hactive]; exact Bool.false_ne_true)
        obtain ⟨k', hexec⟩ :=
          hshell.starts (k := leaveTerminal ebp o.proc.kernel) exeCheck esp ebpExecute hfree
        exact ⟨_, by rw [ProcState.step, pitHandler_starts hactive hexec]⟩
  obtain ⟨s, hstep⟩ := hstep
  exact Os.step_of_tick hlines hstep

end Progress

/-! ## In between -/

/-- The process `p` of terminal `t` waits for the timer. -/
structure Parked (fs : Image) (p : Nat) (t : Tid) (slot : Slot) (o b : Os) : Prop where
  ready : OsReady fs b
  keeps : KeepsProcess p o.proc b.proc
  away : b.proc.kernel.terminalNum ≠ t
  slot : (b.proc.kernel.terminalArr t).slot = slot

section Parked

variable {fs : Image} {p : Nat} {t : Tid} {slot : Slot} {o b b' : Os}

/-- The slots of the other terminals. -/
theorem OsReady.slots (h : OsReady fs b) {e : OsEvent} (hstep : b.step fs e = some b')
    (ht : b.proc.kernel.terminalNum ≠ t)
    (hactive : (b.proc.kernel.terminalArr t).active = true) :
    (b'.proc.kernel.terminalArr t).slot = (b.proc.kernel.terminalArr t).slot := by
  obtain ⟨es, hrun, -, htick⟩ := Os.step_kernelSteps hstep
  rcases htick with ⟨-, hes⟩ | ⟨exeCheck, esp, ebp, ebpExecute, -, rfl⟩
  · exact (h.tidy.slots_of_noTick hrun hes).2.2 t ht.symm hactive
  · exact (h.tidy.kernel_slots hrun.of_single).2 t ht.symm hactive

/-- **An event that does not come back** to the terminal. -/
theorem Parked.step (h : Parked fs p t slot o b)
    (htid : (o.proc.kernel.pcb (pcbAddr p)).tid = t) (hactive : slot.active = true) {e : OsEvent}
    (hstep : b.step fs e = some b') (haway : b'.proc.kernel.terminalNum ≠ t) :
    Parked fs p t slot o b' := by
  have hlive := List.ne_nil_of_mem h.keeps.live
  have hidle : p ≠ b.proc.kernel.runningPid := by
    intro heq
    have hrunning := (h.ready.tidy.running hlive).tid
    rw [← heq, h.keeps.pcb, htid] at hrunning
    exact h.away hrunning.symm
  refine ⟨h.ready.step hstep, h.keeps.trans (h.ready.idle hstep h.keeps.live hidle), haway, ?_⟩
  rw [h.ready.slots hstep h.away ((congrArg Slot.active h.slot).trans hactive)]
  exact h.slot

/-- A run that does not come back to terminal `t`. -/
abbrev Os.StepsAway (t : Tid) (fs : Image) : Os → List OsEvent → Os → Prop :=
  Run fun a e b => a.step fs e = some b ∧ b.proc.kernel.terminalNum ≠ t

end Parked

/-- **A process does not notice the timer.** -/
theorem OsReady.preempted {fs : Image} {o o₁ o₂ o₃ : Os} (h : OsReady fs o)
    (hlive : o.proc.live ≠ []) {exeCheck exeCheck' : Buf}
    {esp ebp ebpExecute esp' ebp' ebpExecute' : Nat}
    (hleave : o.step fs (.pitIrq exeCheck esp ebp ebpExecute) = some o₁) {es : List OsEvent}
    (haway : o₁.StepsAway o.proc.kernel.terminalNum fs es o₂)
    (hback : o₂.step fs (.pitIrq exeCheck' esp' ebp' ebpExecute') = some o₃)
    (hthere : o₃.proc.kernel.terminalNum = o.proc.kernel.terminalNum) :
    pitHandler fs exeCheck' esp' ebp' ebpExecute' o₂.proc.kernel = .frame o₃.proc.kernel ebp ∧
      SameContext o.proc.kernel o₃.proc.kernel := by
  have hrunning := h.tidy.running hlive
  obtain ⟨-, -, hdone⟩ := h.tidy.proc_done (Os.step_tick hleave)
  obtain ⟨hkeeps, hsaved⟩ := hdone.leaves h.tidy
  -- what the first tick saves is what the second one finds
  obtain ⟨slot, hsaved⟩ : ∃ slot : Slot,
      (o₁.proc.kernel.terminalArr o.proc.kernel.terminalNum).slot = slot ∧ slot.ebp = ebp ∧
        slot.active = true ∧ slot.mostRecentPcb = pcbAddr o.proc.kernel.runningPid :=
    ⟨_, congrArg Terminal.slot hsaved, rfl, hrunning.active, hrunning.recent⟩
  obtain ⟨hslot₁, hebp, hactive, hrecent⟩ := hsaved
  have hstart : Parked fs o.proc.kernel.runningPid o.proc.kernel.terminalNum slot o o₁ := by
    refine ⟨h.step hleave, hkeeps _ hrunning.mem, ?_, hslot₁⟩
    rw [hdone.terminalNum]
    exact next_ne _
  have hparked := haway.invariant (Parked fs _ _ _ o) hstart fun _ _ _ hpark hstep =>
    hpark.step hrunning.tid hactive hstep.1 hstep.2
  obtain ⟨-, -, hdone'⟩ := hparked.ready.tidy.proc_done (Os.step_tick hback)
  have hslot := hparked.slot
  rw [← hthere] at hslot
  obtain ⟨hout, hterm, hlive', hpcb, hphys⟩ :=
    hdone'.returns fs ((congrArg Slot.active hslot).trans hactive)
  have hkeeps₃ : KeepsProcess o.proc.kernel.runningPid o.proc o₃.proc :=
    hparked.keeps.trans ⟨hlive' ▸ hparked.keeps.live, congrFun hpcb _, fun a _ => congrFun hphys a⟩
  refine ⟨?_, sameContext_of_keeps h.tidy (hparked.ready.step hback).tidy hlive hkeeps₃ hthere ?_⟩
  · rw [hout]
    exact congrArg _ ((congrArg Slot.ebp hslot).trans hebp)
  · have hrecent₃ : (o₃.proc.kernel.terminalArr o₃.proc.kernel.terminalNum).mostRecentPcb =
        pcbAddr o.proc.kernel.runningPid := by
      rw [hterm]
      exact (congrArg Slot.mostRecentPcb hslot).trans hrecent
    rw [Kernel.runningPid, mostRecent, hrecent₃, hkeeps₃.pcb, ← hrunning.recent]
    rfl

/-- **A process does not notice the timer**, whatever happens until its terminal is scheduled
again. -/
theorem preemption_of_run {fs : Image} {m : PowerOn} {master slave : Pic8259} {index : UInt8}
    {reg : UInt8 → UInt8} {es es' : List OsEvent} {o o₁ o₂ o₃ : Os} (hcursor : m.CursorOnScreen)
    (hrun : (Os.boot m master slave index reg).Steps fs es o) (hlive : o.proc.live ≠ [])
    {exeCheck exeCheck' : Buf} {esp ebp ebpExecute esp' ebp' ebpExecute' : Nat}
    (hleave : o.step fs (.pitIrq exeCheck esp ebp ebpExecute) = some o₁)
    (haway : o₁.StepsAway o.proc.kernel.terminalNum fs es' o₂)
    (hback : o₂.step fs (.pitIrq exeCheck' esp' ebp' ebpExecute') = some o₃)
    (hthere : o₃.proc.kernel.terminalNum = o.proc.kernel.terminalNum) :
    pitHandler fs exeCheck' esp' ebp' ebpExecute' o₂.proc.kernel = .frame o₃.proc.kernel ebp ∧
      SameContext o.proc.kernel o₃.proc.kernel :=
  ((osReady_boot fs hcursor master slave index reg).run hrun).preempted hlive hleave haway hback
    hthere

/-- A tick starts one process at most. -/
theorem OsReady.tick_length {fs : Image} {o o' : Os} (h : OsReady fs o) {exeCheck : Buf}
    {esp ebp ebpExecute : Nat} (hstep : o.step fs (.pitIrq exeCheck esp ebp ebpExecute) = some o') :
    o'.proc.live.length ≤ o.proc.live.length + 1 ∧
      o'.proc.kernel.terminalNum = o.proc.kernel.terminalNum + 1 := by
  obtain ⟨-, -, hdone⟩ := h.tidy.proc_done (Os.step_tick hstep)
  refine ⟨?_, hdone.terminalNum⟩
  obtain ⟨s, hs⟩ : ∃ s, o'.proc = s := ⟨_, rfl⟩
  rw [hs] at hdone ⊢
  cases hdone with
  | resumed => exact Nat.le_succ _
  | opened => exact Nat.le_refl _

/-- A tick of a system with a process number left. -/
theorem OsReady.pit_room {fs : Image} {o : Os} {mask : UInt8} (h : OsReady fs o)
    (hlines : o.rtc.irq.LinesReady mask) (hshell : ValidShell fs) (hroom : o.proc.live.length < 6)
    (exeCheck : Buf) (esp ebp ebpExecute : Nat) :
    ∃ o', o.step fs (.pitIrq exeCheck esp ebp ebpExecute) = some o' :=
  h.pit_served hlines (.inr ⟨hshell, h.free hroom⟩) exeCheck esp ebp ebpExecute

/-- Three ticks come back to the first shell. -/
theorem preemption_of_run_shells : ∃ o₂ o₃ o : Os, o.proc.live ≠ [] ∧
    pitHandler shellImage (fun _ => 0) 0 0 0 o₂.proc.kernel = .frame o₃.proc.kernel 0 ∧
      SameContext o.proc.kernel o₃.proc.kernel := by
  obtain ⟨o, hfirst⟩ := exists_system_shell
  obtain ⟨es, hrun⟩ := hfirst.reached
  have hready := hfirst.ready
  have hlines := hfirst.lines
  have hlength : o.proc.live.length = 1 := congrArg List.length hfirst.live
  obtain ⟨o₁, hleave⟩ :=
    hready.pit_room hlines validShell_shellImage (by omega) (fun _ => 0) 0 0 0
  obtain ⟨hroom₁, hnum₁⟩ := hready.tick_length hleave
  have hready₁ := hready.step hleave
  have hlines₁ := hlines.step hleave
  obtain ⟨o₂, hnext⟩ :=
    hready₁.pit_room hlines₁ validShell_shellImage (by omega) (fun _ => 0) 0 0 0
  obtain ⟨hroom₂, hnum₂⟩ := hready₁.tick_length hnext
  have hready₂ := hready₁.step hnext
  obtain ⟨o₃, hback⟩ := hready₂.pit_room (hlines₁.step hnext) validShell_shellImage (by omega)
    (fun _ => 0) 0 0 0
  obtain ⟨-, hnum₃⟩ := hready₂.tick_length hback
  have haway : o₂.proc.kernel.terminalNum ≠ o.proc.kernel.terminalNum := by
    rw [hnum₂, hnum₁]
    exact (by decide : ∀ t : Tid, t + 1 + 1 ≠ t) _
  have hthere : o₃.proc.kernel.terminalNum = o.proc.kernel.terminalNum := by
    rw [hnum₃, hnum₂, hnum₁]
    exact (by decide : ∀ t : Tid, t + 1 + 1 + 1 = t) _
  exact ⟨o₂, o₃, o, hfirst.ne_nil, preemption_of_run (by decide) hrun hfirst.ne_nil hleave
    (Run.single ⟨hnext, haway⟩) hback hthere⟩

end JuddOS
