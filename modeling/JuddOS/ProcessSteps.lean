import JuddOS.Machine
import JuddOS.ProcessTable
import JuddOS.VideoStores

/-!
# What one call does to the processes

`Chains` is the invariant of the processes between two calls, and `step_done` gives the cases of a
call under it: `execute` that fails or starts a process, `halt` by a root shell or by a child, and a
tick that goes on with a terminal or starts its shell.

`Touches p` is what all of them have in common.  A step changes the PCB and the memory of one
process `p` at most: the one that runs, or a new one (`ProcDone.touches`).
-/

namespace JuddOS

open Support X86

/-- A byte of the 4 MB of a process. -/
def InFrame (p a : Nat) : Prop := processFrame p ≤ a ∧ a < processFrame p + userSpaceSize

theorem InFrame.unique {p q a : Nat} (hp : InFrame p a) (hq : InFrame q a) : p = q := by
  simp only [InFrame, processFrame, userSpaceOffset, userSpaceSize] at hp hq
  omega

/-- No frame of a process is behind a screen. -/
theorem InFrame.not_inVideo {p a : Nat} (hp : p < 6) (h : InFrame p a) : ¬ InVideo a := by
  simp only [InFrame, processFrame, userSpaceOffset, userSpaceSize] at h
  rintro (hvga | ⟨t, hbuffer⟩)
  · simp only [Region.addrs, Set.mem_Ico, videoAddr, sizeOfEntry] at hvga
    omega
  · simp only [Region.addrs, Set.mem_Ico, videoBuffer, vidBufAddrBase, addrStartOffset,
      sizeOfEntry] at hbuffer
    omega

/-- The number of the process that runs. -/
def Kernel.runningPid (k : Kernel) : Nat := (mostRecent k k.terminalNum).pid

/-! ## The invariant between two calls -/

/-- The processes as three chains, when nobody is halting. -/
structure Chains (s : ProcState) (σ : Stacks Tid Nat) : Prop where
  linked : Linked s.kernel s.live (fun _ => none) σ
  current : Current s.kernel (fun _ => none) σ
  saved : ∀ t, t ≠ s.kernel.terminalNum → Saved s.kernel (fun _ => none) σ t

theorem BetweenCalls.chains {s : ProcState} {b : Sys} {σ : Stacks Tid Nat} (h : BetweenCalls s b)
    (hcoherent : Coherent b σ) : Chains s σ := by
  have hlinked := hcoherent.linked
  have hcurrent := hcoherent.current
  have hsaved := hcoherent.saved
  rw [h.kernel, h.live, h.halting] at hlinked
  rw [h.kernel, h.halting] at hcurrent hsaved
  exact ⟨hlinked, hcurrent, hsaved⟩

theorem MachineReady.chains {s : ProcState} (h : MachineReady s) : ∃ σ, Chains s σ := by
  obtain ⟨b, σ, hbetween, hcoherent⟩ := h.coherent
  exact ⟨σ, hbetween.chains hcoherent⟩

namespace Chains

variable {s : ProcState} {σ : Stacks Tid Nat}

theorem coherent (h : Chains s σ) : ∃ b σ, BetweenCalls s b ∧ Coherent b σ :=
  ⟨⟨s.kernel, s.live, fun _ => none, none⟩, σ, ⟨rfl, rfl, rfl⟩,
    ⟨h.linked, h.current, h.saved, by rintro _ ⟨⟩⟩⟩

theorem mem_live (h : Chains s σ) (p : Nat) : p ∈ s.live ↔ ∃ t, p ∈ σ.chain t := by
  rw [h.linked.alive]
  simp only [liveOf_none]

theorem lt (h : Chains s σ) {p : Nat} (hp : p ∈ s.live) : p < 6 := by
  obtain ⟨t, ht⟩ := (h.mem_live p).mp hp
  exact h.linked.lt t p ht

/-- A live process is on the chain of its own terminal. -/
theorem mem_chain_iff (h : Chains s σ) {p : Nat} (hp : p ∈ s.live) (t : Tid) :
    p ∈ σ.chain t ↔ (s.kernel.pcb (pcbAddr p)).tid = t := by
  obtain ⟨u, hu⟩ := (h.mem_live p).mp hp
  have htid := (h.linked.chained u).tid hu
  constructor
  · exact fun ht => (h.linked.chained t).tid ht
  · intro ht
    rw [← ht, htid]
    exact hu

/-- The process that runs. -/
structure Runs (s : ProcState) (σ : Stacks Tid Nat) (p : Nat) (rest : List Nat) : Prop where
  chain : σ.chain s.kernel.terminalNum = p :: rest
  lt : p < 6
  link : Link s.kernel.pcb s.kernel.terminalNum p rest
  recent : (s.kernel.terminalArr s.kernel.terminalNum).mostRecentPcb = pcbAddr p
  esp0 : s.kernel.tssEsp0 = kernelStackTop p
  page : MapsProcess s.kernel.paging p

theorem Runs.runningPid {p : Nat} {rest : List Nat} (h : Runs s σ p rest) :
    s.kernel.runningPid = p := by
  rw [Kernel.runningPid, mostRecent, h.recent, h.link.pid]

/-- A kernel stack address of the process that runs. -/
theorem Runs.getCurrPcb {p : Nat} {rest : List Nat} (h : Runs s σ p rest) {esp : Nat}
    (hesp : OnKernelStack s.kernel esp) : JuddOS.getCurrPcb esp = pcbAddr p := by
  rw [hesp, h.esp0]
  exact getCurrPcb_kernelStackTop h.lt

theorem Runs.mem_live {p : Nat} {rest : List Nat} (h : Runs s σ p rest) (hchains : Chains s σ) :
    p ∈ s.live := by
  refine (hchains.mem_live p).mpr ⟨s.kernel.terminalNum, ?_⟩
  rw [h.chain]
  exact List.mem_cons_self ..

theorem runs (h : Chains s σ) (hlive : s.live ≠ []) : ∃ p rest, Runs s σ p rest := by
  rcases hchain : σ.chain s.kernel.terminalNum with _ | ⟨p, rest⟩
  · obtain ⟨q, hq⟩ := List.exists_mem_of_ne_nil _ hlive
    obtain ⟨t, ht⟩ := (h.mem_live q).mp hq
    rw [h.current.idle hchain t] at ht
    exact absurd ht List.not_mem_nil
  · have hlinks := h.linked.chained s.kernel.terminalNum
    have hrecent := h.linked.recent s.kernel.terminalNum
    have hesp0 := h.current.esp0
    have hpage := h.current.page
    have hlt := h.linked.lt s.kernel.terminalNum p (hchain ▸ List.mem_cons_self ..)
    rw [hchain] at hlinks hrecent hesp0 hpage
    rw [recentOf_none, topPcb_cons] at hrecent
    rw [esp0Of_none, List.headD_cons] at hesp0
    exact ⟨p, rest, hchain, hlt, hlinks.1, hrecent, hesp0 (List.cons_ne_nil p rest), hpage p rfl⟩

end Chains

/-! ## The cases of a call -/

/-- A process was started from `k` by an `execute` with the stack and frame `esp` and `ebp`. -/
structure StartedFrom (k : Kernel) (esp ebp p : Nat) (k' : Kernel) : Prop where
  started : Started k esp ebp p k'
  lt : p < 6
  free : k.pidBits p ≠ 1
  memory : ∀ a, ¬ InVideo a → ¬ InFrame p a → k'.phys a = k.phys a
  screenX : k'.screenX = k.screenX
  screenY : k'.screenY = k.screenY
  fds : ∃ old, (k'.pcb (pcbAddr p)).fdArray = initialFdArray old

theorem startProcess_fds (fs : Image) (args : List UInt8) (esp ebp : Nat) (k : Kernel) :
    ((startProcess fs args esp ebp k).pcb (pcbAddr k.availablePid)).fdArray =
      initialFdArray (k.pcb (pcbAddr k.availablePid)).fdArray := by
  by_cases hactive : (k.terminalArr k.terminalNum).active = false <;>
    simp [startProcess, executeFillpcb, Kernel.setPcb, Kernel.setTerminal, hactive]

/-- Where the load goes: the page of the process, or a screen. -/
theorem translate_load {p : Paging} {shown : Tid} {pid : Nat} (hpid : pid < 6)
    (hmaps : MapsProcess p pid) (hvga : VgaMapped p) (hscreens : ScreensMapped p shown)
    (halone : ScreensAlone p) {j a : Nat} (hj : j < pageSize + 4)
    (ht : p.translate (fileLocation + j) = some a) : InVideo a ∨ InFrame pid a := by
  simp only [pageSize] at hj
  by_cases hfits : j < loadSpace
  · right
    simp only [loadSpace, virtualAddrStart, userSpaceSize, fileLocation] at hfits
    have hpage := hmaps.translate hpid (o := fileLocation - virtualAddrStart + j)
      (by simp only [fileLocation, virtualAddrStart, userSpaceSize]; omega)
    rw [show virtualAddrStart + (fileLocation - virtualAddrStart + j) = fileLocation + j by
      simp only [fileLocation, virtualAddrStart]; omega, ht] at hpage
    cases hpage
    simp only [InFrame, fileLocation, virtualAddrStart, userSpaceSize]
    omega
  · left
    simp only [loadSpace, virtualAddrStart, userSpaceSize, fileLocation] at hfits
    refine inVideo_of_translate hvga hscreens halone (.inr ?_) ht
    simp only [dirIndex, fileLocation]
    omega

theorem VgaMapped.setProcessMemory {p : Paging} (h : VgaMapped p) (pid : Nat) :
    VgaMapped (JuddOS.setProcessMemory pid p) := by
  unfold JuddOS.setProcessMemory
  exact h.setPde (by decide) _

theorem ScreensMapped.setProcessMemory {p : Paging} {shown : Tid} (h : ScreensMapped p shown)
    (pid : Nat) : ScreensMapped (JuddOS.setProcessMemory pid p) shown := by
  unfold JuddOS.setProcessMemory
  exact h.setPde (by decide) _

/-- **`execute` that starts a process** writes to its PCB and its memory. -/
theorem execute_startedFrom {fs : Image} {command : CString} {exeCheck : Buf} {esp ebp : Nat}
    {k k' : Kernel} (htidy : Tidy k)
    (h : execute fs command.val exeCheck esp ebp k = .user k') :
    StartedFrom k esp ebp (firstFreePid k.pidBits 6 0) k' := by
  by_cases hrej : Rejected fs command.val exeCheck k.pidBits
  · obtain ⟨_, _, hret⟩ := execute_of_rejected esp ebp hrej
    rw [h] at hret
    cases hret
  have hlt := firstFreePid_of_accepted hrej
  obtain ⟨-, -, -, hfree⟩ := firstFreePid_spec k.pidBits 6 0
  obtain ⟨args, opened, size, bytes, -, -, hsize, -, hexec⟩ := execute_of_accepted esp ebp hrej
  rw [h] at hexec
  cases hload : (afterSetup args opened k).pokeRange fileLocation size bytes with
  | none =>
      rw [hload] at hexec
      cases hexec
  | some k₁ =>
      rw [hload] at hexec
      cases hexec
      have hframe := Kernel.pokeRange_frame hload
      have hphys : (startProcess fs args esp ebp k₁).phys = k₁.phys := by
        rw [startProcess_frame]
      have hvga : VgaMapped (afterSetup args opened k).paging :=
        htidy.mapped.vga.setProcessMemory _
      have hscreens : ScreensMapped (afterSetup args opened k).paging k.terminalNumDisplay :=
        htidy.mapped.screens.setProcessMemory _
      have halone : ScreensAlone (afterSetup args opened k).paging :=
        ⟨htidy.alone.vga, htidy.alone.videoTable⟩
      refine ⟨?_, hlt, hfree (by omega), fun a hvideo hin => ?_, ?_, ?_, ?_⟩
      · rw [hframe]
        exact started_startProcess fs args opened esp ebp k k₁.phys
      · rw [hphys]
        refine pokeRange_memory (P := fun a => InVideo a ∨ InFrame (firstFreePid k.pidBits 6 0) a)
          (fun j hj a' ha' => ?_) hload (by rintro (h | h) <;> contradiction)
        have hmaps := mapsProcess_setProcessMemory (firstFreePid k.pidBits 6 0) k.paging
        refine translate_load hlt hmaps hvga hscreens halone ?_ ha'
        omega
      · rw [startProcess_frame, hframe]
        rfl
      · rw [startProcess_frame, hframe]
        rfl
      · rw [hframe]
        exact ⟨_, startProcess_fds fs args esp ebp _⟩

/-- The kernel after the process `p` has halted, whose parent is `q`. -/
def afterHalt (p q : Nat) (k : Kernel) : Kernel :=
  haltCloseFds (pcbAddr p) (haltSetRecent (pcbAddr q) (haltMapParent (pcbAddr q)
    (haltFreeMemory (pcbAddr p) (haltReleasePid (pcbAddr p) (haltRestoreEsp0 (pcbAddr p) k)))))

theorem afterHalt_pcb (p q : Nat) (k : Kernel) :
    (afterHalt p q k).pcb = Function.update k.pcb (pcbAddr p)
      { k.pcb (pcbAddr p) with
        fdArray := fun i =>
          if i < fdArraySize then Fd.free else (k.pcb (pcbAddr p)).fdArray i } := by
  simp only [afterHalt, haltCloseFds, haltSetRecent, haltMapParent, haltFreeMemory,
    haltReleasePid, haltRestoreEsp0, Kernel.setPcb, Kernel.setTerminal]

theorem afterHalt_terminalArr (p q : Nat) (k : Kernel) :
    (afterHalt p q k).terminalArr = Function.update k.terminalArr k.terminalNum
      { k.terminalArr k.terminalNum with mostRecentPcb := pcbAddr q } := by
  simp only [afterHalt, haltCloseFds, haltSetRecent, haltMapParent, haltFreeMemory,
    haltReleasePid, haltRestoreEsp0, Kernel.setPcb, Kernel.setTerminal]

/-- The kernel after a tick that went on with terminal `next`. -/
def afterResume (next : Tid) (k : Kernel) : Kernel :=
  { k with
    paging := setProcessMemory (k.pcb (k.terminalArr next).mostRecentPcb).pid k.paging
    tssEsp0 := (k.terminalArr next).esp0 }

/-- What a call does. -/
inductive ProcDone (s : ProcState) : ProcEvent → ProcState → Prop
  /-- `execute` is answered with -1. -/
  | returned {command : CString} {exeCheck : Buf} {esp ebp : Nat} (size : Nat) (opened : Buf) :
      ProcDone s (.execute command exeCheck esp ebp)
        { s with kernel := { s.kernel with sizeOfArgs := size, openedFile := opened } }
  | executed {command : CString} {exeCheck : Buf} {esp ebp p : Nat} {k' : Kernel}
      (hmay : MayExecute s.kernel s.live command esp ebp)
      (hstart : StartedFrom s.kernel esp ebp p k') :
      ProcDone s (.execute command exeCheck esp ebp) { kernel := k', live := p :: s.live }
  /-- A root shell halts. -/
  | restarted {esp : Nat} (hroot : (s.kernel.pcb (getCurrPcb esp)).parent = 0)
      (hout : JuddOS.halt esp s.kernel = .user s.kernel) : ProcDone s (.halt esp) s
  /-- The process `p` halts, and `q` goes on. -/
  | halted {esp p q : Nat} {rest : List Nat} {σ : Stacks Tid Nat} (hchains : Chains s σ)
      (hruns : Chains.Runs s σ p (q :: rest)) (hesp : getCurrPcb esp = pcbAddr p)
      (hout : JuddOS.halt esp s.kernel =
        .frame (afterHalt p q s.kernel) (s.kernel.pcb (pcbAddr p)).ebp) :
      ProcDone s (.halt esp) { kernel := afterHalt p q s.kernel, live := s.live.erase p }
  /-- A tick goes on with the next terminal. -/
  | resumed {exeCheck : Buf} {esp ebp ebpExecute : Nat}
      (hactive : (s.kernel.terminalArr (s.kernel.terminalNum + 1)).active = true)
      (hout : ∀ fs, pitHandler fs exeCheck esp ebp ebpExecute s.kernel =
        .frame (afterResume (s.kernel.terminalNum + 1) (leaveTerminal ebp s.kernel))
          (s.kernel.terminalArr (s.kernel.terminalNum + 1)).ebp) :
      ProcDone s (.tick exeCheck esp ebp ebpExecute)
        { s with kernel := afterResume (s.kernel.terminalNum + 1) (leaveTerminal ebp s.kernel) }
  /-- A tick starts the shell of the next terminal. -/
  | opened {exeCheck : Buf} {esp ebp ebpExecute p : Nat} {k' : Kernel}
      (hinactive : (s.kernel.terminalArr (s.kernel.terminalNum + 1)).active = false)
      (hstart : StartedFrom (leaveTerminal ebp s.kernel) esp ebpExecute p k') :
      ProcDone s (.tick exeCheck esp ebp ebpExecute) { kernel := k', live := p :: s.live }

theorem leaveTerminal_tidy (ebp : Nat) {k : Kernel} (h : Tidy k) : Tidy (leaveTerminal ebp k) := by
  refine h.congr rfl rfl fun t => ?_
  by_cases ht : t = k.terminalNum
  · rw [ht, leaveTerminal_self]
    exact ⟨rfl, h.cursorX _, h.cursorY _⟩
  · rw [leaveTerminal_of_ne ebp k ht]
    exact ⟨rfl, h.cursorX t, h.cursorY t⟩

section Cases

variable {fs : Image} {s s' : ProcState} {σ : Stacks Tid Nat}

theorem Chains.execute_done (htidy : Tidy s.kernel) {command : CString} {exeCheck : Buf}
    {esp ebp : Nat} (hstep : s.step fs (.execute command exeCheck esp ebp) = some s') :
    ProcDone s (.execute command exeCheck esp ebp) s' := by
  rw [ProcState.step] at hstep
  split at hstep
  case isFalse => cases hstep
  case isTrue hmay =>
    rcases execute_cases fs command exeCheck esp ebp s.kernel with
      ⟨size, opened, hexec⟩ | hexec | ⟨k', hexec, -⟩
    · rw [hexec] at hstep
      cases hstep
      exact .returned size opened
    · rw [hexec] at hstep
      cases hstep
    · have hstart := execute_startedFrom htidy hexec
      rw [hexec] at hstep
      dsimp only at hstep
      rw [hstart.started.availablePid] at hstep
      cases hstep
      exact .executed hmay hstart

/-- A root shell halts: its stack is the one that `tss.esp0` names already. -/
theorem Chains.Runs.halt_root {p : Nat} (hruns : Runs s σ p []) {esp : Nat}
    (hesp : OnKernelStack s.kernel esp) :
    (s.kernel.pcb (JuddOS.getCurrPcb esp)).parent = 0 ∧
      JuddOS.halt esp s.kernel = .user s.kernel := by
  have hroot : (s.kernel.pcb (pcbAddr p)).parent = 0 := hruns.link.parent
  rw [halt, hruns.getCurrPcb hesp, if_pos hroot]
  refine ⟨hroot, ?_⟩
  show Outcome.user { s.kernel with
    tssEsp0 := kernelStackTop (s.kernel.pcb (pcbAddr p)).pid } = _
  rw [hruns.link.pid, ← hruns.esp0]

/-- The process `p` halts, and `q` goes on. -/
theorem Chains.Runs.halt_child (h : Chains s σ) {p q : Nat} {below : List Nat}
    (hruns : Runs s σ p (q :: below)) {esp : Nat} (hesp : OnKernelStack s.kernel esp) :
    JuddOS.halt esp s.kernel =
      .frame (afterHalt p q s.kernel) (s.kernel.pcb (pcbAddr p)).ebp := by
  have hq : q < 6 := by
    refine h.linked.lt s.kernel.terminalNum q ?_
    rw [hruns.chain]
    exact List.mem_cons_of_mem p (List.mem_cons_self ..)
  have hparent := hruns.link.parent
  rw [topPcb_cons] at hparent
  rw [halt, hruns.getCurrPcb hesp, hparent, if_neg (pcbAddr_ne_zero hq)]
  show Outcome.frame (afterHalt p q s.kernel)
    ((afterHalt p q s.kernel).pcb (pcbAddr p)).ebp = _
  rw [afterHalt, haltCloseFds, Kernel.setPcb_self]
  rfl

theorem Chains.halt_done (h : Chains s σ) {esp : Nat} (hstep : s.step fs (.halt esp) = some s') :
    ProcDone s (.halt esp) s' := by
  rw [ProcState.step] at hstep
  split at hstep
  case isFalse => cases hstep
  case isTrue hguard =>
    obtain ⟨p, rest, hruns⟩ := h.runs hguard.1
    cases rest with
    | nil =>
        obtain ⟨hroot, hout⟩ := hruns.halt_root hguard.2
        rw [hout] at hstep
        cases hstep
        exact .restarted hroot hout
    | cons q below =>
        have hcurr := hruns.getCurrPcb hguard.2
        have hout := hruns.halt_child h hguard.2
        rw [hout, hcurr, hruns.link.pid] at hstep
        cases hstep
        exact .halted h hruns hcurr hout

/-- **`halt` never fails.** -/
theorem Chains.halts (h : Chains s σ) (hlive : s.live ≠ []) {esp : Nat}
    (hesp : OnKernelStack s.kernel esp) (fs : Image) : ∃ s', s.step fs (.halt esp) = some s' := by
  obtain ⟨p, rest, hruns⟩ := h.runs hlive
  rw [ProcState.step, if_pos ⟨hlive, hesp⟩]
  cases rest with
  | nil => exact ⟨_, by rw [(hruns.halt_root hesp).2]⟩
  | cons q below => exact ⟨_, by rw [hruns.halt_child h hesp]⟩

/-- A tick that goes on with a terminal. -/
theorem Chains.pitHandler_resumes (h : Chains s σ)
    (hactive : (s.kernel.terminalArr (s.kernel.terminalNum + 1)).active = true) (fs : Image)
    (exeCheck : Buf) (esp ebp ebpExecute : Nat) :
    pitHandler fs exeCheck esp ebp ebpExecute s.kernel =
      .frame (afterResume (s.kernel.terminalNum + 1) (leaveTerminal ebp s.kernel))
        (s.kernel.terminalArr (s.kernel.terminalNum + 1)).ebp := by
  have hrecent := h.linked.recent (s.kernel.terminalNum + 1)
  obtain ⟨q, below, hchain⟩ :=
    List.exists_cons_of_ne_nil ((h.linked.active (s.kernel.terminalNum + 1)).mp hactive)
  have hq := h.linked.lt (s.kernel.terminalNum + 1) q (hchain ▸ List.mem_cons_self ..)
  rw [recentOf_none, hchain, topPcb_cons] at hrecent
  have hne : ((leaveTerminal ebp s.kernel).terminalArr
      (s.kernel.terminalNum + 1)).mostRecentPcb ≠ 0 := by
    rw [leaveTerminal_next, hrecent]
    exact pcbAddr_ne_zero hq
  rw [pitHandler_active fs exeCheck esp ebp ebpExecute hactive, resumeTerminal, if_neg hne,
    ← leaveTerminal_next ebp s.kernel]
  rfl

theorem Chains.tick_done (h : Chains s σ) (htidy : Tidy s.kernel) {exeCheck : Buf}
    {esp ebp ebpExecute : Nat}
    (hstep : s.step fs (.tick exeCheck esp ebp ebpExecute) = some s') :
    ProcDone s (.tick exeCheck esp ebp ebpExecute) s' := by
  have hon := h.linked.active (s.kernel.terminalNum + 1)
  have hrecent := h.linked.recent (s.kernel.terminalNum + 1)
  rw [recentOf_none] at hrecent
  rw [ProcState.step] at hstep
  cases hactive : (s.kernel.terminalArr (s.kernel.terminalNum + 1)).active with
  | true =>
      have hout := fun fs => h.pitHandler_resumes hactive fs exeCheck esp ebp ebpExecute
      rw [hout fs] at hstep
      cases hstep
      exact .resumed hactive hout
  | false =>
      have hchain : σ.chain (s.kernel.terminalNum + 1) = [] := by
        by_contra hne
        rw [hon.mpr hne] at hactive
        cases hactive
      have hnull : (s.kernel.terminalArr (s.kernel.terminalNum + 1)).mostRecentPcb = 0 := by
        rw [hrecent, hchain]
        rfl
      rcases pitHandler_inactive fs exeCheck esp ebp ebpExecute hactive hnull with
        hpit | ⟨k', hpit, -, -⟩
      · rw [hpit] at hstep
        cases hstep
      · have hexec : execute fs shellCString.val exeCheck esp ebpExecute
            (leaveTerminal ebp s.kernel) = .user k' := by
          rw [pitHandler, leaveTerminal_terminalNum, leaveTerminal_next] at hpit
          simp only [hactive, if_true] at hpit
          rw [show shellCommand = shellCString.val from rfl] at hpit
          rcases execute_cases fs shellCString exeCheck esp ebpExecute
              (leaveTerminal ebp s.kernel) with ⟨size, opened, hexec⟩ | hexec | ⟨k₁, hexec, -⟩
          · -- the shell cannot be started: there is no process to go on with
            rw [hexec] at hpit
            dsimp only at hpit
            rw [resumeTerminal, leaveTerminal_terminalNum, leaveTerminal_next,
              if_pos hnull] at hpit
            cases hpit
          · rw [hexec] at hpit
            cases hpit
          · rw [hexec] at hpit
            cases hpit
            exact hexec
        have hstart := execute_startedFrom (leaveTerminal_tidy ebp htidy) hexec
        rw [hpit] at hstep
        dsimp only at hstep
        rw [hstart.started.availablePid] at hstep
        cases hstep
        exact .opened hactive hstart

/-- **The cases of a call.** -/
theorem Chains.step_done (h : Chains s σ) (htidy : Tidy s.kernel) {e : ProcEvent}
    (hstep : s.step fs e = some s') : ProcDone s e s' := by
  cases e with
  | execute => exact execute_done htidy hstep
  | halt => exact h.halt_done hstep
  | tick => exact h.tick_done htidy hstep

end Cases

/-! ## What a step leaves alone -/

/-- Only the process `p` is touched: no other PCB and no other memory changes, apart from the
screens, and the other processes stay alive.  When `p` is not new it is the one that runs, and
unless it ends it keeps its PCB. -/
structure Touches (p : Nat) (s s' : ProcState) : Prop where
  pcb : ∀ addr, addr ≠ pcbAddr p → s'.kernel.pcb addr = s.kernel.pcb addr
  memory : ∀ a, ¬ InVideo a → ¬ InFrame p a → s'.kernel.phys a = s.kernel.phys a
  live : ∀ q ∈ s.live, q ≠ p → q ∈ s'.live
  owner : p ∈ s.live → p = s.kernel.runningPid
  kept : p ∈ s.live → p ∈ s'.live → s'.kernel.pcb (pcbAddr p) = s.kernel.pcb (pcbAddr p)

/-- Nothing of the processes changes. -/
theorem touches_none {s s' : ProcState} (hpcb : s'.kernel.pcb = s.kernel.pcb)
    (hmemory : ∀ a, ¬ InVideo a → s'.kernel.phys a = s.kernel.phys a) (hlive : s'.live = s.live) :
    Touches s.kernel.runningPid s s' where
  pcb addr _ := congrFun hpcb addr
  memory a ha _ := hmemory a ha
  live q hq _ := by
    rw [hlive]
    exact hq
  owner _ := rfl
  kept _ _ := congrFun hpcb _

/-- A process that is started is new. -/
theorem StartedFrom.touches {s : ProcState} {σ : Stacks Tid Nat} (h : Chains s σ) {k k' : Kernel}
    {esp ebp p : Nat} (hstart : StartedFrom k esp ebp p k') (hbits : k.pidBits = s.kernel.pidBits)
    (hpcb : k.pcb = s.kernel.pcb) (hphys : k.phys = s.kernel.phys) :
    p ∉ s.live ∧ Touches p s { kernel := k', live := p :: s.live } := by
  have hfree := hstart.free
  rw [hbits] at hfree
  have hnew : p ∉ s.live := fun hp => hfree ((h.linked.bits p hstart.lt).mpr hp)
  refine ⟨hnew, fun addr haddr => ?_, fun a ha ha' => ?_, fun q hq _ => List.mem_cons_of_mem p hq,
    fun hp => absurd hp hnew, fun hp => absurd hp hnew⟩
  · rw [← hpcb]
    exact hstart.started.pcb_of_ne addr haddr
  · rw [← hphys]
    exact hstart.memory a ha ha'

/-- **A call touches one process.** -/
theorem ProcDone.touches {s s' : ProcState} {σ : Stacks Tid Nat} (h : Chains s σ) {e : ProcEvent}
    (hdone : ProcDone s e s') : ∃ p, Touches p s s' := by
  cases hdone with
  | returned => exact ⟨_, touches_none rfl (fun _ _ => rfl) rfl⟩
  | executed hmay hstart => exact ⟨_, (hstart.touches h rfl rfl rfl).2⟩
  | restarted => exact ⟨_, touches_none rfl (fun _ _ => rfl) rfl⟩
  | @halted esp p q rest _ _ hruns =>
      refine ⟨p, fun addr haddr => ?_, fun _ _ _ => rfl,
        fun r hr hne => (List.mem_erase_of_ne hne).mpr hr, fun _ => hruns.runningPid.symm,
        fun _ hp => absurd hp h.linked.nodup.not_mem_erase⟩
      rw [afterHalt_pcb, Function.update_of_ne haddr]
  | resumed => exact ⟨_, touches_none rfl (fun _ _ => rfl) rfl⟩
  | opened hinactive hstart => exact ⟨_, (hstart.touches h rfl rfl rfl).2⟩

/-- **A process that was not alive** starts with its own descriptors. -/
theorem ProcDone.fresh {s s' : ProcState} {e : ProcEvent} (hdone : ProcDone s e s') {q : Nat}
    (hq : q ∉ s.live) (hq' : q ∈ s'.live) :
    ∃ old, (s'.kernel.pcb (pcbAddr q)).fdArray = initialFdArray old := by
  cases hdone with
  | returned | restarted | resumed => exact absurd hq' hq
  | halted => exact absurd (List.mem_of_mem_erase hq') hq
  | executed hmay hstart | opened hinactive hstart =>
      rcases List.mem_cons.mp hq' with rfl | hold
      · exact hstart.fds
      · exact absurd hold hq

/-- **A call leaves the other terminals alone.** -/
theorem ProcDone.terminalArr {s s' : ProcState} {e : ProcEvent} (hdone : ProcDone s e s') {t : Tid}
    (ht : t ≠ s.kernel.terminalNum) (hactive : (s.kernel.terminalArr t).active = true) :
    s'.kernel.terminalArr t = s.kernel.terminalArr t := by
  cases hdone with
  | returned => rfl
  | executed hmay hstart =>
      rw [hstart.started.terminalArr, Function.update_of_ne ht]
  | restarted => rfl
  | halted =>
      rw [afterHalt_terminalArr, Function.update_of_ne ht]
  | resumed => exact leaveTerminal_of_ne _ _ ht
  | opened hinactive hstart =>
      have hne : t ≠ s.kernel.terminalNum + 1 := by
        rintro rfl
        rw [hinactive] at hactive
        cases hactive
      rw [hstart.started.terminalArr, leaveTerminal_terminalNum, Function.update_of_ne hne]
      exact leaveTerminal_of_ne _ _ ht

def ProcEvent.isTick : ProcEvent → Bool
  | .tick .. => true
  | _ => false

/-- **Only a tick schedules**, and it goes on to the next terminal. -/
theorem ProcDone.terminalNum {s s' : ProcState} {e : ProcEvent} (hdone : ProcDone s e s') :
    s'.kernel.terminalNum =
      if e.isTick then s.kernel.terminalNum + 1 else s.kernel.terminalNum := by
  cases hdone with
  | returned => rfl
  | executed hmay hstart => exact hstart.started.terminalNum
  | restarted => rfl
  | halted => rfl
  | resumed => rfl
  | opened hinactive hstart => exact hstart.started.terminalNum

end JuddOS
