import JuddOS.DescriptorTable
import JuddOS.MachineEffects

/-!
# Events of the kernel

The machine together with assignments to the descriptors of the process that runs.  A system call
on a descriptor is a sequence of such events (`FileCall.kernelSteps`), so what holds along all
sequences of events holds along all sequences of calls.

Seen from one process `q` an event does one of three things.  When another process runs, `q` stays
alive and its PCB and memory stay as they are (`TidyMachine.idle`); when `q` runs and stays alive,
it stays linked to its caller (`TidyMachine.sameLink`); only an assignment to the descriptors
changes the PCB of a process that stays alive (`TidyMachine.samePcb`).
-/

namespace JuddOS

open Support

/-- What can happen in the kernel. -/
inductive KernelEvent
  | machine (e : MachineEvent)
  /-- An assignment to the descriptors of the process that runs. -/
  | setFds (esp : Nat) (fds : Nat → Fd)

/-- The timer tick. -/
def KernelEvent.isTick : KernelEvent → Bool
  | .machine e => e.isTick
  | .setFds .. => false

/-- An event of the processes. -/
def KernelEvent.isProc : KernelEvent → Bool
  | .machine (.proc _) => true
  | _ => false

/-- Assign to the descriptors of a PCB. -/
def Kernel.setFds (addr : Nat) (fds : Nat → Fd) (k : Kernel) : Kernel :=
  k.setPcb addr fun pcb => { pcb with fdArray := fds }

namespace ProcState

/-- One event of the kernel. -/
def kernelStep (fs : Image) (s : ProcState) : KernelEvent → Option ProcState
  | .machine e => s.machineStep fs e
  | .setFds esp fds =>
      if s.live ≠ [] ∧ OnKernelStack s.kernel esp then
        some { s with kernel := s.kernel.setFds (getCurrPcb esp) fds }
      else none

/-- The runs of the kernel. -/
abbrev KernelSteps (fs : Image) : ProcState → List KernelEvent → ProcState → Prop :=
  Run fun s e s' => s.kernelStep fs e = some s'

theorem kernelStep_setFds {fs : Image} {s s' : ProcState} {esp : Nat} {fds : Nat → Fd}
    (hstep : s.kernelStep fs (.setFds esp fds) = some s') :
    s.live ≠ [] ∧ OnKernelStack s.kernel esp ∧
      s' = { s with kernel := s.kernel.setFds (getCurrPcb esp) fds } := by
  rw [kernelStep] at hstep
  split at hstep
  case isFalse => cases hstep
  case isTrue hguard =>
    cases hstep
    exact ⟨hguard.1, hguard.2, rfl⟩

end ProcState

/-! ## Assignments to descriptors -/

theorem Kernel.setFds_of_ne (k : Kernel) {addr addr' : Nat} (fds : Nat → Fd) (h : addr' ≠ addr) :
    (k.setFds addr fds).pcb addr' = k.pcb addr' :=
  k.setPcb_of_ne _ h

theorem Kernel.setFds_self (k : Kernel) (addr : Nat) (fds : Nat → Fd) :
    (k.setFds addr fds).pcb addr = { k.pcb addr with fdArray := fds } :=
  k.setPcb_self addr _

theorem Kernel.setFds_link (k : Kernel) (addr : Nat) (fds : Nat → Fd) (addr' : Nat) :
    SameLink (k.pcb addr') ((k.setFds addr fds).pcb addr') := by
  by_cases h : addr' = addr
  · rw [h, k.setFds_self]
    exact ⟨rfl, rfl, rfl, rfl, rfl⟩
  · exact .of_eq (k.setFds_of_ne fds h)

/-- The chains do not depend on descriptors. -/
theorem Chains.setFds {s : ProcState} {σ : Stacks Tid Nat} (h : Chains s σ) (addr : Nat)
    (fds : Nat → Fd) : Chains { s with kernel := s.kernel.setFds addr fds } σ where
  linked :=
    { separate := h.linked.separate
      lt := h.linked.lt
      alive := h.linked.alive
      nodup := h.linked.nodup
      bits := h.linked.bits
      active := h.linked.active
      chained := fun t => (h.linked.chained t).congr fun _ _ => s.kernel.setFds_link addr fds _
      halts := h.linked.halts
      recent := h.linked.recent }
  current := ⟨h.current.scheduled, h.current.idle, h.current.esp0, h.current.page⟩
  saved t ht := ⟨(h.saved t ht).esp0, (h.saved t ht).page⟩

theorem MachineReady.setFds {s : ProcState} (h : MachineReady s) (addr : Nat) (fds : Nat → Fd) :
    MachineReady { s with kernel := s.kernel.setFds addr fds } := by
  obtain ⟨σ, hchains⟩ := h.chains
  exact ⟨(hchains.setFds addr fds).coherent, ⟨h.mapped.vidmem, h.mapped.vga, h.mapped.screens⟩,
    h.user, ⟨h.keys.1, h.keys.2, h.keys.3, h.keys.4, h.keys.5, h.keys.6⟩⟩

theorem TidyMachine.setFds {s : ProcState} (h : TidyMachine s) (addr : Nat) (fds : Nat → Fd) :
    TidyMachine { s with kernel := s.kernel.setFds addr fds } := by
  have htidy : Tidy (s.kernel.setFds addr fds) :=
    h.console.toTidy.congr rfl rfl fun t => ⟨rfl, h.console.cursorX t, h.console.cursorY t⟩
  exact ⟨h.ready.setFds addr fds, ⟨htidy, h.console.lines, h.console.col, h.console.row⟩,
    h.supervisor⟩

section Step

variable {fs : Image} {s s' : ProcState} {e : KernelEvent}

/-- **One event of the kernel.** -/
theorem TidyMachine.kernelStep (h : TidyMachine s) (hstep : s.kernelStep fs e = some s') :
    TidyMachine s' := by
  cases e with
  | machine e => exact h.step hstep
  | setFds esp fds =>
      obtain ⟨-, -, rfl⟩ := ProcState.kernelStep_setFds hstep
      exact h.setFds _ fds

/-- The PCB whose descriptors are assigned to. -/
theorem TidyMachine.currPcb (h : TidyMachine s) (hlive : s.live ≠ []) {esp : Nat}
    (hesp : OnKernelStack s.kernel esp) : getCurrPcb esp = pcbAddr s.kernel.runningPid := by
  obtain ⟨σ, hchains⟩ := h.ready.chains
  obtain ⟨p, rest, hruns⟩ := hchains.runs hlive
  rw [hruns.getCurrPcb hesp, hruns.runningPid]

theorem pcbAddr_ne {p q : Nat} (hq : q < 6) (hne : q ≠ p) : pcbAddr q ≠ pcbAddr p := by
  intro heq
  rw [pcbAddr_eq, pcbAddr_eq] at heq
  omega

theorem TidyMachine.lt (h : TidyMachine s) {q : Nat} (hq : q ∈ s.live) : q < 6 := by
  obtain ⟨σ, hchains⟩ := h.ready.chains
  exact hchains.lt hq

/-- The process that runs. -/
structure Running (s : ProcState) : Prop where
  mem : s.kernel.runningPid ∈ s.live
  tid : (s.kernel.pcb (pcbAddr s.kernel.runningPid)).tid = s.kernel.terminalNum
  recent : (s.kernel.terminalArr s.kernel.terminalNum).mostRecentPcb =
    pcbAddr s.kernel.runningPid
  active : (s.kernel.terminalArr s.kernel.terminalNum).active = true
  esp0 : s.kernel.tssEsp0 = kernelStackTop s.kernel.runningPid
  page : MapsProcess s.kernel.paging s.kernel.runningPid

theorem TidyMachine.running (h : TidyMachine s) (hlive : s.live ≠ []) : Running s := by
  obtain ⟨σ, hchains⟩ := h.ready.chains
  obtain ⟨p, rest, hruns⟩ := hchains.runs hlive
  have hactive := (hchains.linked.active s.kernel.terminalNum).mpr
    (hruns.chain ▸ List.cons_ne_nil p rest)
  rw [← hruns.runningPid] at hruns
  exact ⟨hruns.mem_live hchains, hruns.link.tid, hruns.recent, hactive, hruns.esp0, hruns.page⟩

/-- What an event keeps of a process. -/
structure KeepsProcess (q : Nat) (s s' : ProcState) : Prop where
  live : q ∈ s'.live
  pcb : s'.kernel.pcb (pcbAddr q) = s.kernel.pcb (pcbAddr q)
  memory : ∀ a, InFrame q a → s'.kernel.phys a = s.kernel.phys a

theorem KeepsProcess.refl {q : Nat} (hq : q ∈ s.live) : KeepsProcess q s s :=
  ⟨hq, rfl, fun _ _ => rfl⟩

theorem KeepsProcess.trans {q : Nat} {s₁ s₂ : ProcState} (h : KeepsProcess q s s₁)
    (h' : KeepsProcess q s₁ s₂) : KeepsProcess q s s₂ :=
  ⟨h'.live, h'.pcb.trans h.pcb, fun a ha => (h'.memory a ha).trans (h.memory a ha)⟩

/-- A process that is started is another one. -/
theorem StartedFrom.keeps {σ : Stacks Tid Nat} (h : Chains s σ) {k k' : Kernel} {esp ebp p : Nat}
    (hstart : StartedFrom k esp ebp p k') (hbits : k.pidBits = s.kernel.pidBits)
    (hpcb : k.pcb = s.kernel.pcb) (hphys : k.phys = s.kernel.phys) {q : Nat} (hq : q ∈ s.live) :
    KeepsProcess q s { kernel := k', live := p :: s.live } := by
  obtain ⟨hnew, htouches⟩ := hstart.touches h hbits hpcb hphys
  have hne : q ≠ p := by
    rintro rfl
    exact hnew hq
  have hlt := h.lt hq
  exact ⟨htouches.live q hq hne, htouches.pcb _ (pcbAddr_ne hlt hne), fun a ha =>
    htouches.memory a (ha.not_inVideo hlt) fun ha' => hne (ha.unique ha')⟩

/-- **A process that does not run** is left alone. -/
theorem TidyMachine.idle (h : TidyMachine s) (hstep : s.kernelStep fs e = some s') {q : Nat}
    (hq : q ∈ s.live) (hidle : q ≠ s.kernel.runningPid) : KeepsProcess q s s' := by
  have hlive := List.ne_nil_of_mem hq
  cases e with
  | machine e =>
      obtain ⟨p, htouches⟩ := h.touches hlive hstep
      have hne : q ≠ p := by
        rintro rfl
        exact hidle (htouches.owner hq)
      have hlt := h.lt hq
      exact ⟨htouches.live q hq hne, htouches.pcb _ (pcbAddr_ne hlt hne),
        fun a ha => htouches.memory a (ha.not_inVideo hlt) fun ha' => hne (ha.unique ha')⟩
  | setFds esp fds =>
      obtain ⟨-, hesp, rfl⟩ := ProcState.kernelStep_setFds hstep
      refine ⟨hq, s.kernel.setFds_of_ne fds ?_, fun _ _ => rfl⟩
      rw [h.currPcb hlive hesp]
      exact pcbAddr_ne (h.lt hq) hidle

/-- **A process that stays alive** keeps its PCB in an event of the machine. -/
theorem TidyMachine.samePcb (h : TidyMachine s) {e : MachineEvent}
    (hstep : s.machineStep fs e = some s') {q : Nat} (hq : q ∈ s.live) (hq' : q ∈ s'.live) :
    s'.kernel.pcb (pcbAddr q) = s.kernel.pcb (pcbAddr q) := by
  obtain ⟨p, htouches⟩ := h.touches (List.ne_nil_of_mem hq) hstep
  by_cases hne : q = p
  · subst hne
    exact htouches.kept hq hq'
  · exact htouches.pcb _ (pcbAddr_ne (h.lt hq) hne)

/-- **A process that stays alive** stays linked to its caller. -/
theorem TidyMachine.sameLink (h : TidyMachine s) (hstep : s.kernelStep fs e = some s') {q : Nat}
    (hq : q ∈ s.live) (hq' : q ∈ s'.live) :
    SameLink (s.kernel.pcb (pcbAddr q)) (s'.kernel.pcb (pcbAddr q)) := by
  cases e with
  | machine e => exact .of_eq (h.samePcb hstep hq hq')
  | setFds esp fds =>
      obtain ⟨-, -, rfl⟩ := ProcState.kernelStep_setFds hstep
      exact s.kernel.setFds_link _ fds _

/-- The scheduled terminal, and the slots of the others. -/
theorem TidyMachine.kernel_slots (h : TidyMachine s) (hstep : s.kernelStep fs e = some s') :
    (s'.kernel.terminalNum =
      if e.isTick then s.kernel.terminalNum + 1 else s.kernel.terminalNum) ∧
    ∀ t, t ≠ s.kernel.terminalNum → (s.kernel.terminalArr t).active = true →
      (s'.kernel.terminalArr t).slot = (s.kernel.terminalArr t).slot := by
  cases e with
  | machine e => exact h.slots hstep
  | setFds esp fds =>
      obtain ⟨-, -, rfl⟩ := ProcState.kernelStep_setFds hstep
      exact ⟨rfl, fun _ _ _ => rfl⟩

theorem runningPid_of_bookkeeping {k k' : Kernel} (hpcb : k'.bookkeeping.pcb = k.bookkeeping.pcb)
    (hslots : k'.bookkeeping.slots = k.bookkeeping.slots)
    (hnum : k'.bookkeeping.terminalNum = k.bookkeeping.terminalNum) :
    k'.runningPid = k.runningPid := by
  have hpcb' : k'.pcb = k.pcb := hpcb
  have hnum' : k'.terminalNum = k.terminalNum := hnum
  have hrecent : (k'.terminalArr k.terminalNum).mostRecentPcb =
      (k.terminalArr k.terminalNum).mostRecentPcb :=
    congrArg Slot.mostRecentPcb (congrFun hslots k.terminalNum)
  rw [Kernel.runningPid, mostRecent, hpcb', hnum', hrecent, Kernel.runningPid, mostRecent]

/-- **An event that is not one of the processes** does not change which process runs. -/
theorem TidyMachine.quiet (h : TidyMachine s) (hstep : s.kernelStep fs e = some s')
    (he : e.isProc = false) : s'.kernel.runningPid = s.kernel.runningPid ∧ s'.live = s.live := by
  cases e with
  | setFds esp fds =>
      obtain ⟨-, -, rfl⟩ := ProcState.kernelStep_setFds hstep
      exact ⟨(s.kernel.setFds_link (getCurrPcb esp) fds _).pid, rfl⟩
  | machine e =>
      cases machineStep_done hstep with
      | proc hproc => cases he
      | @key scan past k' hrun =>
          obtain ⟨hbook, -⟩ := keyboardHandlerMain_bookkeeping h.ready.keys hrun
          refine ⟨runningPid_of_bookkeeping ?_ ?_ ?_, rfl⟩ <;> dsimp only <;> rw [hbook] <;>
            cases keyOf scan past s.kernel <;>
            simp only [Bookkeeping.afterKey, Bookkeeping.switched] <;> try rfl
          all_goals split <;> rfl
      | write hrun =>
          have hbook := terminalWrite_bookkeeping hrun
          exact ⟨runningPid_of_bookkeeping (congrArg _ hbook) (congrArg _ hbook) (congrArg _ hbook),
            rfl⟩
      | plantReturn =>
          have hbook := plantReturn_bookkeeping s.kernel
          exact ⟨runningPid_of_bookkeeping (congrArg _ hbook) (congrArg _ hbook) (congrArg _ hbook),
            rfl⟩
      | takeLine buf nbytes =>
          have hbook := takeLine_bookkeeping buf nbytes s.kernel
          exact ⟨runningPid_of_bookkeeping (congrArg _ hbook) (congrArg _ hbook) (congrArg _ hbook),
            rfl⟩
      | vidmap | store => exact ⟨rfl, rfl⟩

/-- It schedules no terminal, and leaves the slots of all of them alone. -/
theorem TidyMachine.quiet_slots (h : TidyMachine s) (hstep : s.kernelStep fs e = some s')
    (he : e.isProc = false) : s'.kernel.terminalNum = s.kernel.terminalNum ∧
      ∀ t, (s'.kernel.terminalArr t).slot = (s.kernel.terminalArr t).slot := by
  cases e with
  | setFds esp fds =>
      obtain ⟨-, -, rfl⟩ := ProcState.kernelStep_setFds hstep
      exact ⟨rfl, fun _ => rfl⟩
  | machine e =>
      refine h.console_slots hstep ?_
      rintro e' rfl
      cases he

end Step

/-! ## Calls on descriptors -/

/-- Every state in which the call returns satisfies `P`. -/
def Reply.EndsIn {α : Type} (P : Io → Prop) : Reply α → Prop
  | .returned _ _ io => P io
  | _ => True

theorem Reply.EndsIn.discard {α : Type} {P : Io → Prop} {reply : Reply α} (h : reply.EndsIn P) :
    reply.discard.EndsIn P := by
  cases reply with
  | returned v result io => exact h
  | waiting | nullCall | fault => trivial

/-- What a call on a descriptor does to the kernel. -/
inductive KernelChange (addr : Nat) (k : Kernel) : Kernel → Prop
  | none : KernelChange addr k k
  | fds (fds : Nat → Fd) : KernelChange addr k (k.setFds addr fds)
  | write {buf : Option Buf} {nbytes v : Int32} {k' : Kernel}
      (hwrite : terminalWrite buf nbytes k = some (v, k')) : KernelChange addr k k'
  | plantReturn : KernelChange addr k (plantReturn k)
  | takeLine (buf : Buf) (nbytes : Int32) :
      KernelChange addr k (takeLine buf nbytes (plantReturn k)).2

/-- What it does to the state, which for the clock leaves the interrupt controllers alone. -/
structure CallChange (addr : Nat) (io io' : Io) : Prop where
  kernel : KernelChange addr io.kernel io'.kernel
  irq : io'.rtc.irq = io.rtc.irq

theorem CallChange.none {addr : Nat} (io : Io) {fileIndex : UInt32} {signal : Bool} :
    CallChange addr io
      { io with fileIndex := fileIndex, rtc := { io.rtc with rtcSignal := signal } } :=
  ⟨.none, rfl⟩

theorem CallChange.setFd (addr fd : Nat) (f : Fd → Fd) (io : Io) :
    CallChange addr io (io.setFd addr fd f) :=
  ⟨.fds (Function.update (io.fds addr) fd (f (io.fds addr fd))), rfl⟩

section Change

variable (fs : Image) (stale : Buf) (esp : Nat) (fd nbytes : Int32) (buf : Option Buf) (io : Io)

theorem ReadFn.call_change (fn : ReadFn) :
    (fn.call fs stale (fun _ io => io) esp fd buf nbytes io).EndsIn
      (CallChange (getCurrPcb esp) io) := by
  cases fn with
  | terminalRead =>
      unfold ReadFn.call JuddOS.terminalRead
      cases buf with
      | none => exact ⟨.plantReturn, rfl⟩
      | some bytes =>
          dsimp only
          split
          · exact ⟨.plantReturn, rfl⟩
          split
          · trivial
          split
          · trivial
          · exact ⟨.takeLine bytes nbytes, rfl⟩
  | fileRead =>
      unfold ReadFn.call JuddOS.fileRead
      cases buf with
      | none =>
          dsimp only
          split
          · exact .none io
          · trivial
      | some bytes =>
          dsimp only
          split
          · exact .setFd ..
          · exact .none io
  | dirRead =>
      unfold ReadFn.call JuddOS.dirRead
      dsimp only
      split
      · exact .none io
      split
      · split
        · trivial
        · cases buf with
          | none => trivial
          | some bytes => exact .none io
      · exact .none io
  | rtcRead =>
      unfold ReadFn.call rtcReadCall
      dsimp only
      split
      · trivial
      · exact .none io

theorem readCall_change :
    (readCall fs stale (fun _ io => io) esp fd buf nbytes io).EndsIn
      (CallChange (getCurrPcb esp) io) := by
  unfold readCall
  dsimp only
  split
  · exact .none io
  split
  · trivial
  split
  · trivial
  · exact ReadFn.call_change fs stale esp fd nbytes buf io _

theorem writeCall_change :
    (writeCall esp fd buf nbytes io).EndsIn (CallChange (getCurrPcb esp) io) := by
  unfold writeCall
  dsimp only
  split
  · exact .none io
  split
  · trivial
  split
  · trivial
  · rename_i fn _
    cases fn with
    | terminalWrite =>
        unfold WriteFn.call
        cases hwrite : JuddOS.terminalWrite buf nbytes io.kernel with
        | none => trivial
        | some result => exact ⟨.write hwrite, rfl⟩
    | fileWrite | dirWrite => exact .none io
    | rtcWrite =>
        unfold WriteFn.call
        cases buf with
        | none => trivial
        | some bytes => exact ⟨.none, rtcWrite_irq bytes nbytes io.rtc⟩

theorem openCall_change (filename : Option Buf) :
    (openCall fs stale esp filename io).EndsIn (CallChange (getCurrPcb esp) io) := by
  unfold openCall
  cases filename with
  | none => exact .none io
  | some name =>
      dsimp only
      split
      · exact .none io
      split
      · exact .none io
      split
      · trivial
      split
      · exact .none io
      split
      · have htaken := CallChange.setFd (getCurrPcb esp) (firstFreeFd (io.fds (getCurrPcb esp)) 6 2)
          (fun _ => ⟨some .rtc, 0, 0, 1⟩) io
        exact ⟨htaken.kernel, rtcOpen_irq _⟩
      split
      · exact .setFd ..
      split
      · split
        · exact .none io
        split
        · exact .none io
        · exact .setFd ..
      · exact .none io

theorem closeCall_change :
    (closeCall esp fd io).EndsIn (CallChange (getCurrPcb esp) io) := by
  unfold closeCall
  split
  · exact .none io
  dsimp only
  split
  · exact .none io
  · exact .setFd ..

/-- **A call on a descriptor.** -/
theorem FileCall.change (c : FileCall) :
    (c.run fs stale (fun _ io => io) esp io).EndsIn (CallChange (getCurrPcb esp) io) := by
  cases c with
  | opens filename => exact openCall_change fs stale esp io filename
  | closes fd => exact closeCall_change esp fd io
  | reads fd buf nbytes => exact (readCall_change fs stale esp fd nbytes buf io).discard
  | writes fd buf nbytes => exact writeCall_change esp fd nbytes buf io

end Change

/-- Events of which none is a tick. -/
def NoTick (es : List KernelEvent) : Prop := ∀ e ∈ es, e.isTick = false

theorem NoTick.single {e : KernelEvent} (he : e.isTick = false) : NoTick [e] := by
  intro e' hmem
  rw [List.mem_singleton.mp hmem]
  exact he

theorem NoTick.append {es es' : List KernelEvent} (h : NoTick es) (h' : NoTick es') :
    NoTick (es ++ es') := fun e he => (List.mem_append.mp he).elim (h e) (h' e)

/-- Events of which only the last one may be one of the processes. -/
def Brief (es : List KernelEvent) : Prop := ∀ e ∈ es.dropLast, e.isProc = false

theorem Brief.single (e : KernelEvent) : Brief [e] := by
  rintro e' ⟨⟩

/-- What events that are not of the processes leave alone. -/
structure Quiet (s s' : ProcState) : Prop where
  runs : s'.kernel.runningPid = s.kernel.runningPid
  live : s'.live = s.live
  terminalNum : s'.kernel.terminalNum = s.kernel.terminalNum
  slots : ∀ t, (s'.kernel.terminalArr t).slot = (s.kernel.terminalArr t).slot
  links : ∀ q ∈ s.live, SameLink (s.kernel.pcb (pcbAddr q)) (s'.kernel.pcb (pcbAddr q))
  idle : ∀ q ∈ s.live, q ≠ s.kernel.runningPid → KeepsProcess q s s'

theorem SameLink.trans {a b c : Pcb} (h : SameLink a b) (h' : SameLink b c) : SameLink a c :=
  ⟨h'.pid.trans h.pid, h'.tid.trans h.tid, h'.parent.trans h.parent, h'.esp0.trans h.esp0,
    h'.ebp.trans h.ebp⟩

theorem TidyMachine.quiet_run {fs : Image} {s s' : ProcState} {es : List KernelEvent}
    (h : TidyMachine s) (hrun : s.KernelSteps fs es s') (hes : ∀ e ∈ es, e.isProc = false) :
    TidyMachine s' ∧ Quiet s s' := by
  induction hrun with
  | nil =>
      exact ⟨h, rfl, rfl, rfl, fun _ => rfl, fun _ _ => .of_eq rfl, fun _ hq _ => .refl hq⟩
  | snoc _ last ih =>
      obtain ⟨htidy, hquiet⟩ := ih fun e he => hes e (List.mem_append_left _ he)
      have he := hes _ (List.mem_concat_self ..)
      obtain ⟨hruns, hlive⟩ := htidy.quiet last he
      obtain ⟨hnum, hslots⟩ := htidy.quiet_slots last he
      refine ⟨htidy.kernelStep last, hruns.trans hquiet.runs, hlive.trans hquiet.live,
        hnum.trans hquiet.terminalNum, fun t => (hslots t).trans (hquiet.slots t),
        fun q hq => ?_, fun q hq hidle => ?_⟩
      · have hq₁ := hquiet.live ▸ hq
        exact (hquiet.links q hq).trans (htidy.sameLink last hq₁ (hlive ▸ hq₁))
      · have hkeeps := hquiet.idle q hq hidle
        exact hkeeps.trans (htidy.idle last hkeeps.live (by rwa [hquiet.runs]))

/-- A sequence is quiet up to its last event. -/
theorem TidyMachine.brief_cases {fs : Image} {s s' : ProcState} {es : List KernelEvent}
    (h : TidyMachine s) (hrun : s.KernelSteps fs es s') (hbrief : Brief es) :
    Quiet s s' ∨ ∃ s₁ e, TidyMachine s₁ ∧ Quiet s s₁ ∧ s₁.kernelStep fs e = some s' := by
  cases hrun with
  | nil =>
      exact .inl ⟨rfl, rfl, rfl, fun _ => rfl, fun _ _ => .of_eq rfl, fun _ hq _ => .refl hq⟩
  | snoc before last =>
      rw [Brief, List.dropLast_concat] at hbrief
      obtain ⟨htidy, hquiet⟩ := h.quiet_run before hbrief
      exact .inr ⟨_, _, htidy, hquiet, last⟩

/-- **A process that does not run** is left alone. -/
theorem TidyMachine.idle_of_brief {fs : Image} {s s' : ProcState} {es : List KernelEvent}
    (h : TidyMachine s) (hrun : s.KernelSteps fs es s') (hbrief : Brief es) {q : Nat}
    (hq : q ∈ s.live) (hidle : q ≠ s.kernel.runningPid) : KeepsProcess q s s' := by
  rcases h.brief_cases hrun hbrief with hquiet | ⟨s₁, e, htidy, hquiet, last⟩
  · exact hquiet.idle q hq hidle
  · have hkeeps := hquiet.idle q hq hidle
    exact hkeeps.trans (htidy.idle last hkeeps.live (by rwa [hquiet.runs]))

/-- **A process that stays alive** stays linked to its caller. -/
theorem TidyMachine.sameLink_of_brief {fs : Image} {s s' : ProcState} {es : List KernelEvent}
    (h : TidyMachine s) (hrun : s.KernelSteps fs es s') (hbrief : Brief es) {q : Nat}
    (hq : q ∈ s.live) (hq' : q ∈ s'.live) :
    SameLink (s.kernel.pcb (pcbAddr q)) (s'.kernel.pcb (pcbAddr q)) := by
  rcases h.brief_cases hrun hbrief with hquiet | ⟨s₁, e, htidy, hquiet, last⟩
  · exact hquiet.links q hq
  · exact (hquiet.links q hq).trans (htidy.sameLink last (hquiet.live ▸ hq) hq')

/-- Without a tick the same terminal is scheduled, and the slots of the others stay. -/
theorem TidyMachine.slots_of_noTick {fs : Image} {s s' : ProcState} {es : List KernelEvent}
    (h : TidyMachine s) (hrun : s.KernelSteps fs es s') (hes : NoTick es) :
    TidyMachine s' ∧ s'.kernel.terminalNum = s.kernel.terminalNum ∧
      ∀ t, t ≠ s.kernel.terminalNum → (s.kernel.terminalArr t).active = true →
        (s'.kernel.terminalArr t).slot = (s.kernel.terminalArr t).slot := by
  induction hrun with
  | nil => exact ⟨h, rfl, fun _ _ _ => rfl⟩
  | snoc _ last ih =>
      obtain ⟨htidy, hnum, hslots⟩ := ih fun e he => hes e (List.mem_append_left _ he)
      obtain ⟨hnum', hslots'⟩ := htidy.kernel_slots last
      rw [hes _ (List.mem_concat_self ..)] at hnum'
      refine ⟨htidy.kernelStep last, hnum'.trans hnum, fun t ht hactive => ?_⟩
      have hslot := hslots t ht hactive
      refine (hslots' t ?_ ?_).trans hslot
      · rwa [hnum]
      · exact (congrArg Slot.active hslot).trans hactive

/-- **A call is a sequence of events.** -/
theorem KernelChange.kernelSteps {s : ProcState} {esp : Nat} {k' : Kernel}
    (hchange : KernelChange (getCurrPcb esp) s.kernel k') (hlive : s.live ≠ [])
    (hesp : OnKernelStack s.kernel esp) (fs : Image) :
    ∃ es, NoTick es ∧ Brief es ∧ s.KernelSteps fs es { s with kernel := k' } := by
  cases hchange with
  | none => exact ⟨[], by rintro _ ⟨⟩, by rintro _ ⟨⟩, .nil s⟩
  | fds fds =>
      exact ⟨[.setFds esp fds], .single rfl, .single _, .single (if_pos ⟨hlive, hesp⟩)⟩
  | @write buf nbytes v k' hwrite =>
      refine ⟨[.machine (.write buf nbytes)], .single rfl, .single _, .single ?_⟩
      have hexec : (terminalWrite buf nbytes s.kernel).map Prod.snd = some k' := by
        rw [hwrite]
        rfl
      exact congrArg (Option.map fun k => ({ s with kernel := k } : ProcState)) hexec
  | plantReturn => exact ⟨[.machine .plantReturn], .single rfl, .single _, .single rfl⟩
  | takeLine buf nbytes =>
      have hplant : s.KernelSteps fs [.machine .plantReturn]
          { s with kernel := JuddOS.plantReturn s.kernel } := .single rfl
      have hnone : NoTick [.machine (.takeLine buf nbytes)] := .single rfl
      refine ⟨_, (NoTick.single rfl).append hnone, ?_, hplant.append (.single rfl)⟩
      rintro e he
      rw [List.mem_singleton.mp he]
      rfl

end JuddOS
