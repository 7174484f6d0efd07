import JuddOS.ProcessLinks

/-!
# Runs of the process machines

`Coherent` along runs.  A step of `Sys` keeps it when the step is `Harmless`: a new process
does not get the number of a process that is still halting, and control does not go to a
parent whose page a tick has unmapped.  Each step is then one of the operations on three
separate stacks (`Coherent.step`).

An atomic call is a sequence of harmless steps (`ProcState.step_fine`), so `Coherent` holds
along every run of the atomic machine (`ProcState.coherent_of_run`).
-/

namespace JuddOS

open Support

/-- Below every number that an open call of `halt` has released there is another free one. -/
def Sys.LowerFree (s : Sys) : Prop :=
  ∀ t f, s.halting t = some f → f.pc.pidReleased = true →
    ∃ q, q < (s.kernel.pcb f.currentPcb).pid ∧ s.kernel.pidBits q ≠ 1

/-- The steps that `halt` tolerates.  A step that starts a process finds a free number below
those just released, and a tick between the remapping and the update of `most_recent_pcb`
has been followed by a later one when control goes to the parent. -/
def Sys.Harmless (fs : Image) (s : Sys) : SysEvent → Prop
  | .execute command exeCheck _ _ =>
      ¬ Rejected fs command.val exeCheck s.kernel.pidBits → s.LowerFree
  | .haltCall _ => True
  | .haltStatement =>
      ∀ f, s.halting s.kernel.terminalNum = some f → f.pc = .closed → f.stale = false
  | .tick .. => (s.kernel.terminalArr (s.kernel.terminalNum + 1)).active = false → s.LowerFree

/-! ## The number of a new process -/

/-- A number in no chain is handed out. -/
theorem Linked.fresh {k : Kernel} {live : List Nat} {halting : Tid → Option HaltFrame}
    {σ : Stacks Tid Nat} (h : Linked k live halting σ)
    (hfree : ∀ t f, halting t = some f → f.pc.pidReleased = true →
      ∃ q, q < (k.pcb f.currentPcb).pid ∧ k.pidBits q ≠ 1)
    (hlt : firstFreePid k.pidBits 6 0 < 6) (t : Tid) :
    firstFreePid k.pidBits 6 0 ∉ σ.chain t := by
  obtain ⟨-, -, hbelow, hat⟩ := firstFreePid_spec k.pidBits 6 0
  intro hmem
  by_cases hreleased : (halting t).any (·.pc.pidReleased) = true
  · obtain ⟨f, hf, hpc⟩ := (Option.any_eq_true ..).mp hreleased
    rcases hchain : σ.chain t with _ | ⟨p, rest⟩
    · exact (h.halts t f hf).nonempty hchain
    rw [hchain] at hmem
    rcases List.mem_cons.mp hmem with heq | hrest
    · -- the process on top of the chain: there is a lower free number
      obtain ⟨q, hq, hbit⟩ := hfree t f hf hpc
      have hcurrent := (h.halts t f hf).current
      have hpid := (h.chained t).pid (hchain ▸ List.mem_cons_self ..)
      rw [hcurrent, hchain, topPcb_cons, hpid, ← heq] at hq
      exact hbit (hbelow q (Nat.zero_le q) hq)
    · have hlive := (h.alive _).mpr ⟨t, by rw [liveOf, if_pos hreleased, hchain]; exact hrest⟩
      exact hat (by omega) ((h.bits _ hlt).mpr hlive)
  · have hlive := (h.alive _).mpr ⟨t, by rwa [liveOf, if_neg hreleased]⟩
    exact hat (by omega) ((h.bits _ hlt).mpr hlive)

/-! ## Steps of the fine-grained machine -/

section Step

variable {fs : Image} {s s' : Sys} {σ : Stacks Tid Nat}

/-- Who calls `execute`: the process on top of the chain of the scheduled terminal. -/
theorem Coherent.caller (h : Coherent s σ) (hnone : s.halting s.kernel.terminalNum = none)
    {command : CString} {esp ebp : Nat} (hmay : MayExecute s.kernel s.live command esp ebp)
    {q : Nat} (hq : (σ.chain s.kernel.terminalNum).head? = some q) :
    getCurrPcb esp = pcbAddr q ∧ getCurrPcb ebp = pcbAddr q ∧
      s.kernel.tssEsp0 = kernelStackTop q := by
  have hesp0 := h.current.esp0
  rcases hchain : σ.chain s.kernel.terminalNum with _ | ⟨p, rest⟩
  · rw [hchain] at hq
    cases hq
  rw [hchain] at hq
  cases hq
  have hp : q ∈ σ.chain s.kernel.terminalNum := hchain ▸ List.mem_cons_self ..
  rw [hnone, hchain, esp0Of_none, List.headD_cons] at hesp0
  have htss := hesp0 (List.cons_ne_nil q rest)
  have hstack : getCurrPcb s.kernel.tssEsp0 = pcbAddr q := by
    rw [htss]
    exact getCurrPcb_kernelStackTop (h.linked.lt _ q hp)
  rcases hmay with ⟨hlive, -⟩ | ⟨-, hesp, hebp, -⟩
  · have hmem := (h.linked.alive q).mpr ⟨_, by rwa [hnone, liveOf_none]⟩
    rw [hlive] at hmem
    exact absurd hmem List.not_mem_nil
  · exact ⟨hesp.trans hstack, hebp.trans hstack, htss⟩

/-- An `execute` that creates a process. -/
theorem Coherent.executeStep (h : Coherent s σ) {command : CString} {exeCheck : Buf}
    {esp ebp : Nat} (hharmless : s.Harmless fs (.execute command exeCheck esp ebp))
    (hstep : s.step fs (.execute command exeCheck esp ebp) = some s') :
    ∃ ops σ', Run Stacks.Step σ ops σ' ∧ Coherent s' σ' := by
  rw [Sys.step] at hstep
  split at hstep
  case isFalse => cases hstep
  case isTrue hguard =>
    have hnone := Option.isNone_iff_eq_none.mp hguard.1
    rcases execute_cases fs command exeCheck esp ebp s.kernel with
      ⟨size, opened, hexec⟩ | hexec | ⟨k', hexec, hlt, hstarted⟩
    · rw [hexec] at hstep
      cases hstep
      exact ⟨[], σ, .nil σ, h.returned size opened⟩
    · rw [hexec] at hstep
      cases hstep
    · have hacc : ¬ Rejected fs command.val exeCheck s.kernel.pidBits := by
        intro hrej
        obtain ⟨_, _, hret⟩ := execute_of_rejected esp ebp hrej
        rw [hexec] at hret
        cases hret
      have hfresh := h.linked.fresh (hharmless hacc) hlt
      rw [hexec] at hstep
      dsimp only at hstep
      rw [hstarted.availablePid] at hstep
      cases hstep
      exact ⟨[.push _], σ.push _, .single (.push hfresh),
        h.linked.start h.current.scheduled h.saved hnone hlt hfresh
          (fun q hq => h.caller hnone hguard.2 hq) hstarted⟩

/-- `"shell\n"` as the argument of the nested `execute`. -/
def shellCString : CString := ⟨shellCommand, by decide, by decide⟩

theorem resumeTerminal_cases (next : Tid) (k : Kernel) :
    ((k.terminalArr next).mostRecentPcb = 0 ∧ resumeTerminal next k = .fault) ∨
      (k.terminalArr next).mostRecentPcb ≠ 0 ∧
        ∃ k', resumeTerminal next k = .frame k' (k'.terminalArr next).ebp := by
  rw [resumeTerminal]
  by_cases hnull : (k.terminalArr next).mostRecentPcb = 0
  · exact .inl ⟨hnull, if_pos hnull⟩
  · exact .inr ⟨hnull, _, if_neg hnull⟩

theorem next_ne : ∀ t : Tid, t + 1 ≠ t := by decide

theorem leaveTerminal_next (ebp : Nat) (k : Kernel) :
    (leaveTerminal ebp k).terminalArr (k.terminalNum + 1) =
      k.terminalArr (k.terminalNum + 1) :=
  leaveTerminal_of_ne ebp k (next_ne _)

/-- The tick goes on with a terminal that runs. -/
theorem pitHandler_active (fs : Image) {k : Kernel} (exeCheck : Buf) (esp ebp ebpExecute : Nat)
    (h : (k.terminalArr (k.terminalNum + 1)).active = true) :
    pitHandler fs exeCheck esp ebp ebpExecute k =
      resumeTerminal (k.terminalNum + 1) (leaveTerminal ebp k) := by
  rw [pitHandler, leaveTerminal_terminalNum, leaveTerminal_next, h]
  rfl

/-- The tick starts the first shell of a terminal. -/
theorem pitHandler_inactive (fs : Image) {k : Kernel} (exeCheck : Buf) (esp ebp ebpExecute : Nat)
    (h : (k.terminalArr (k.terminalNum + 1)).active = false)
    (hnull : (k.terminalArr (k.terminalNum + 1)).mostRecentPcb = 0) :
    pitHandler fs exeCheck esp ebp ebpExecute k = .fault ∨
      ∃ k', pitHandler fs exeCheck esp ebp ebpExecute k = .user k' ∧
        firstFreePid k.pidBits 6 0 < 6 ∧
        Started (leaveTerminal ebp k) esp ebpExecute (firstFreePid k.pidBits 6 0) k' := by
  rw [pitHandler, leaveTerminal_terminalNum, leaveTerminal_next]
  simp only [h, if_true]
  rcases execute_cases fs shellCString exeCheck esp ebpExecute (leaveTerminal ebp k) with
    ⟨size, opened, hexec⟩ | hexec | ⟨k', hexec, hlt, hstarted⟩
  · -- the shell cannot be started: there is no process to go on with
    left
    rw [show shellCommand = shellCString.val from rfl, hexec]
    dsimp only
    rw [resumeTerminal, leaveTerminal_terminalNum, leaveTerminal_next, if_pos hnull]
  · left
    rw [show shellCommand = shellCString.val from rfl, hexec]
  · right
    refine ⟨k', ?_, hlt, hstarted⟩
    rw [show shellCommand = shellCString.val from rfl, hexec]

/-- A tick that finds its way. -/
theorem Coherent.tickStep (h : Coherent s σ) {exeCheck : Buf} {esp ebp ebpExecute : Nat}
    (hharmless : s.Harmless fs (.tick exeCheck esp ebp ebpExecute))
    (hstep : s.step fs (.tick exeCheck esp ebp ebpExecute) = some s') :
    ∃ ops σ', Run Stacks.Step σ ops σ' ∧ Coherent s' σ' := by
  obtain ⟨hlinked, hsaved⟩ := h.leave ebp
  have hswitch : Run Stacks.Step σ _ (σ.switch (s.kernel.terminalNum + 1)) := .single (.switch _)
  have hactive := h.linked.active (s.kernel.terminalNum + 1)
  rw [Sys.step] at hstep
  cases hnext : (s.kernel.terminalArr (s.kernel.terminalNum + 1)).active with
  | true =>
      rw [hnext] at hactive
      rw [pitHandler_active fs exeCheck esp ebp ebpExecute hnext] at hstep
      -- The stack that is resumed is the one `leave` has found saved.
      rcases resumeTerminal_cases (s.kernel.terminalNum + 1) (leaveTerminal ebp s.kernel) with
        ⟨-, hresume⟩ | ⟨-, k', hresume⟩
      · rw [hresume] at hstep
        cases hstep
      · rw [hresume] at hstep
        cases hstep
        exact ⟨_, _, hswitch, .resume hlinked hsaved rfl (hactive.mp rfl) hresume⟩
  | false =>
      -- An inactive terminal has no process, so a shell is started on it.
      have hchain : σ.chain (s.kernel.terminalNum + 1) = [] := by
        rw [hnext] at hactive
        by_contra hne
        exact Bool.false_ne_true (hactive.mpr hne)
      have hnone : s.halting (s.kernel.terminalNum + 1) = none := by
        cases hf : s.halting (s.kernel.terminalNum + 1) with
        | none => rfl
        | some f => exact absurd hchain (h.linked.halts _ f hf).nonempty
      have hnull := h.linked.recent (s.kernel.terminalNum + 1)
      rw [hchain, hnone, recentOf_none] at hnull
      rcases pitHandler_inactive fs exeCheck esp ebp ebpExecute hnext hnull with
        hpit | ⟨k', hpit, hlt, hstarted⟩
      · rw [hpit] at hstep
        cases hstep
      · have hfresh := h.linked.fresh (hharmless hnext) hlt
        rw [hpit] at hstep
        dsimp only at hstep
        rw [hstarted.availablePid] at hstep
        cases hstep
        refine ⟨_, _, hswitch.append (.single (.push hfresh)),
          hlinked.start rfl (fun t _ => hsaved t) ?_ hlt hfresh ?_ hstarted⟩
        · exact (s.preempt_of_ne (next_ne _)).trans hnone
        · intro q hq
          rw [leaveTerminal_terminalNum, Stacks.switch_chain, hchain] at hq
          cases hq

/-- A statement of `halt`. -/
theorem Coherent.haltStep (h : Coherent s σ) (hharmless : s.Harmless fs .haltStatement)
    (hstep : s.step fs .haltStatement = some s') :
    ∃ ops σ', Run Stacks.Step σ ops σ' ∧ Coherent s' σ' := by
  rw [Sys.step, Option.map_eq_some_iff] at hstep
  obtain ⟨f, hf, rfl⟩ := hstep
  cases hpc : f.pc with
  | entered => exact ⟨[], σ, .nil σ, h.restoreEsp0 hf hpc⟩
  | restored =>
      by_cases hparent : f.parentPcb = 0
      · exact ⟨[], σ, .nil σ, h.leaveRoot hf hpc hparent⟩
      · exact ⟨[], σ, .nil σ, h.releasePid hf hpc hparent⟩
  | released => exact ⟨[], σ, .nil σ, h.freeMemory hf hpc⟩
  | freed => exact ⟨[], σ, .nil σ, h.mapParent hf hpc⟩
  | mapped => exact ⟨[], σ, .nil σ, h.setRecent hf hpc⟩
  | recorded => exact ⟨[], σ, .nil σ, h.closeFds hf hpc⟩
  | closed => exact ⟨[.pop], σ.pop, .single .pop, h.jump hf hpc (hharmless f hf hpc)⟩

/-- **Every harmless step is a step of three separate stacks.** -/
theorem Coherent.step (h : Coherent s σ) {e : SysEvent} (hharmless : s.Harmless fs e)
    (hstep : s.step fs e = some s') :
    ∃ ops σ', Run Stacks.Step σ ops σ' ∧ Coherent s' σ' := by
  cases e with
  | execute => exact h.executeStep hharmless hstep
  | tick => exact h.tickStep hharmless hstep
  | haltStatement => exact h.haltStep hharmless hstep
  | haltCall esp =>
      rw [Sys.step] at hstep
      split at hstep
      case isFalse => cases hstep
      case isTrue hguard =>
        cases hstep
        exact ⟨[], σ, .nil σ,
          h.haltCall (Option.isNone_iff_eq_none.mp hguard.1) hguard.2.1 hguard.2.2⟩

/-- The runs of harmless steps. -/
abbrev Sys.Steps (fs : Image) : Sys → List SysEvent → Sys → Prop :=
  Run fun s e s' => s.step fs e = some s' ∧ s.Harmless fs e

/-- **The invariant along a run of harmless steps**, which is one of three stacks. -/
theorem Coherent.run (h : Coherent s σ) {es : List SysEvent} (hrun : Sys.Steps fs s es s') :
    ∃ ops σ', Run Stacks.Step σ ops σ' ∧ Coherent s' σ' :=
  hrun.simulates Coherent h fun _ _ _ _ ha hstep => ha.step hstep.2 hstep.1

end Step

/-! ## Atomic calls -/

section Atomic

variable {fs : Image} {s : Sys} {n : Tid} {f g : HaltFrame} {k k' : Kernel} {live : List Nat}

/-- Terminal `n` of `s` is executing the call `f`. -/
def Sys.during (s : Sys) (n : Tid) (f : HaltFrame) (k : Kernel) (live : List Nat) : Sys :=
  { kernel := k, live := live, resumed := none
    halting := Function.update s.halting n (some f) }

theorem Sys.during_halting : (s.during n f k live).halting n = some f := Function.update_self ..

theorem Sys.advance_during (hn : k.terminalNum = n) (pc : HaltPc) :
    (s.during n f k live).advance g pc k' = s.during n { g with pc := pc } k' live := by
  subst hn
  simp only [Sys.advance, Sys.during, Function.update_idem]

theorem Sys.leaveHalt_during (hn : k.terminalNum = n) (resumed : Option Nat) :
    (s.during n f k live).leaveHalt k' resumed =
      { kernel := k', live := live, resumed := resumed
        halting := Function.update s.halting n none } := by
  subst hn
  simp only [Sys.leaveHalt, Sys.during, Function.update_idem]

/-- The next statement of the call, when no tick has disturbed it. -/
theorem Sys.during_step (hn : k.terminalNum = n) (hstale : f.stale = false) {s' : Sys}
    (hnext : (s.during n f k live).haltStatement f = s') :
    Sys.Steps fs (s.during n f k live) [.haltStatement] s' := by
  have hf : (s.during n f k live).halting k.terminalNum = some f := by
    rw [hn]
    exact Function.update_self ..
  refine .single ⟨?_, fun g hg _ => ?_⟩
  · rw [Sys.step, ← hnext]
    exact congrArg (Option.map _) hf
  · cases hf.symm.trans hg
    exact hstale

/-- The call of `halt` by the process at `currentPcb`, whose parent is at `parentPcb`. -/
def haltFrame (currentPcb parentPcb : Nat) (pc : HaltPc) : HaltFrame :=
  { currentPcb := currentPcb, parentPcb := parentPcb, pc := pc, stale := false }

variable {currentPcb parentPcb : Nat}

theorem Sys.restore_step (hn : k.terminalNum = n) :
    Sys.Steps fs (s.during n (haltFrame currentPcb parentPcb .entered) k live) [.haltStatement]
      (s.during n (haltFrame currentPcb parentPcb .restored)
        (haltRestoreEsp0 currentPcb k) live) :=
  during_step hn rfl (advance_during hn .restored)

theorem Sys.leaveRoot_step (hn : k.terminalNum = n) :
    Sys.Steps fs (s.during n (haltFrame currentPcb 0 .restored) k live) [.haltStatement]
      { kernel := { k with tssEsp0 := kernelStackTop (k.pcb currentPcb).pid }
        live := live, resumed := none
        halting := Function.update s.halting n none } :=
  during_step hn rfl (leaveHalt_during hn none)

theorem Sys.release_step (hn : k.terminalNum = n) (hparent : parentPcb ≠ 0) :
    Sys.Steps fs (s.during n (haltFrame currentPcb parentPcb .restored) k live) [.haltStatement]
      (s.during n (haltFrame currentPcb parentPcb .released) (haltReleasePid currentPcb k)
        (live.erase (k.pcb currentPcb).pid)) := by
  refine during_step hn rfl ?_
  rw [Sys.haltStatement, haltFrame]
  dsimp only
  rw [if_neg hparent, advance_during hn]
  rfl

theorem Sys.free_step (hn : k.terminalNum = n) :
    Sys.Steps fs (s.during n (haltFrame currentPcb parentPcb .released) k live) [.haltStatement]
      (s.during n (haltFrame currentPcb parentPcb .freed) (haltFreeMemory currentPcb k) live) :=
  during_step hn rfl (advance_during hn .freed)

theorem Sys.map_step (hn : k.terminalNum = n) :
    Sys.Steps fs (s.during n (haltFrame currentPcb parentPcb .freed) k live) [.haltStatement]
      (s.during n (haltFrame currentPcb parentPcb .mapped) (haltMapParent parentPcb k) live) :=
  during_step hn rfl (advance_during hn .mapped)

theorem Sys.setRecent_step (hn : k.terminalNum = n) :
    Sys.Steps fs (s.during n (haltFrame currentPcb parentPcb .mapped) k live) [.haltStatement]
      (s.during n (haltFrame currentPcb parentPcb .recorded) (haltSetRecent parentPcb k) live) :=
  during_step hn rfl (advance_during hn .recorded)

theorem Sys.closeFds_step (hn : k.terminalNum = n) :
    Sys.Steps fs (s.during n (haltFrame currentPcb parentPcb .recorded) k live) [.haltStatement]
      (s.during n (haltFrame currentPcb parentPcb .closed) (haltCloseFds currentPcb k) live) :=
  during_step hn rfl (advance_during hn .closed)

theorem Sys.jump_step (hn : k.terminalNum = n) :
    Sys.Steps fs (s.during n (haltFrame currentPcb parentPcb .closed) k live) [.haltStatement]
      { kernel := k, live := live, resumed := some parentPcb
        halting := Function.update s.halting n none } :=
  during_step hn rfl (leaveHalt_during hn (some parentPcb))

/-- The statements of a root shell, one after the other. -/
theorem Sys.halt_root (hn : k.terminalNum = n) :
    Sys.Steps fs (s.during n (haltFrame currentPcb 0 .entered) k live)
      [.haltStatement, .haltStatement]
      { kernel := { haltRestoreEsp0 currentPcb k with
          tssEsp0 := kernelStackTop ((haltRestoreEsp0 currentPcb k).pcb currentPcb).pid }
        live := live, resumed := none
        halting := Function.update s.halting n none } :=
  (restore_step hn).append (leaveRoot_step hn)

/-- The statements of a process with a parent. -/
theorem Sys.halt_child (fs : Image) (s : Sys) (live : List Nat) (currentPcb : Nat)
    (hn : k.terminalNum = n) (hparent : parentPcb ≠ 0) :
    ∃ es, Sys.Steps fs (s.during n (haltFrame currentPcb parentPcb .entered) k live) es
      { kernel := haltCloseFds currentPcb (haltSetRecent parentPcb (haltMapParent parentPcb
          (haltFreeMemory currentPcb (haltReleasePid currentPcb (haltRestoreEsp0 currentPcb k)))))
        live := live.erase (k.pcb currentPcb).pid
        resumed := some parentPcb
        halting := Function.update s.halting n none } := by
  refine ⟨_, (restore_step hn).append <| (release_step ?_ hparent).append <|
    (free_step ?_).append <| (map_step ?_).append <| (setRecent_step ?_).append <|
    (closeFds_step ?_).append (jump_step ?_)⟩ <;> exact hn

/-! ### The simulation -/

/-- The fine-grained machine between two calls. -/
structure BetweenCalls (a : ProcState) (b : Sys) : Prop where
  kernel : b.kernel = a.kernel
  live : b.live = a.live
  halting : b.halting = fun _ => none

theorem BetweenCalls.boot (m : PowerOn) : BetweenCalls (ProcState.boot m) (Sys.boot m) :=
  ⟨rfl, rfl, rfl⟩

theorem BetweenCalls.lowerFree {a : ProcState} {b : Sys} (h : BetweenCalls a b) :
    b.LowerFree := by
  intro t f hf
  rw [h.halting] at hf
  cases hf

theorem BetweenCalls.preempt {a : ProcState} {b : Sys} (h : BetweenCalls a b) :
    b.preempt = fun _ => none := by
  funext t
  rw [Sys.preempt, h.halting, Option.map_none]
  exact congrFun (Function.update_eq_self b.kernel.terminalNum fun _ => none) t

/-- `halt` is the call and its statements. -/
theorem BetweenCalls.haltStep {a a' : ProcState} {b : Sys} {esp : Nat} (h : BetweenCalls a b)
    (hstep : a.step fs (.halt esp) = some a') :
    ∃ es b', Sys.Steps fs b es b' ∧ BetweenCalls a' b' := by
  have hnone : Function.update b.halting b.kernel.terminalNum none = fun _ => none := by
    rw [h.halting]
    exact Function.update_eq_self b.kernel.terminalNum fun _ => none
  rw [ProcState.step, ← h.kernel, ← h.live] at hstep
  split at hstep
  case isFalse => cases hstep
  case isTrue hguard =>
    have hcall : Sys.Steps fs b [.haltCall esp]
        (b.during b.kernel.terminalNum (haltFrame (getCurrPcb esp)
          (b.kernel.pcb (getCurrPcb esp)).parent .entered) b.kernel b.live) := by
      refine .single ⟨?_, trivial⟩
      rw [Sys.step, h.halting, if_pos ⟨rfl, hguard⟩, Sys.during, h.halting]
      rfl
    rw [halt] at hstep
    by_cases hparent : (b.kernel.pcb (getCurrPcb esp)).parent = 0
    · rw [if_pos hparent] at hstep
      rw [hparent] at hcall
      cases hstep
      exact ⟨_, _, hcall.append (Sys.halt_root rfl), ⟨rfl, rfl, hnone⟩⟩
    · rw [if_neg hparent] at hstep
      obtain ⟨es, hrun⟩ := Sys.halt_child fs b b.live (getCurrPcb esp) rfl hparent
      cases hstep
      exact ⟨_, _, hcall.append hrun, ⟨rfl, rfl, hnone⟩⟩

theorem BetweenCalls.executeStep {a a' : ProcState} {b : Sys} {command : CString}
    {exeCheck : Buf} {esp ebp : Nat} (h : BetweenCalls a b)
    (hstep : a.step fs (.execute command exeCheck esp ebp) = some a') :
    ∃ es b', Sys.Steps fs b es b' ∧ BetweenCalls a' b' := by
  rw [ProcState.step, ← h.kernel, ← h.live] at hstep
  split at hstep
  case isFalse => cases hstep
  case isTrue hmay =>
    have hcalls : (b.halting b.kernel.terminalNum).isNone ∧
        MayExecute b.kernel b.live command esp ebp := by
      rw [h.halting]
      exact ⟨rfl, hmay⟩
    have hstays : ∀ b', b.step fs (.execute command exeCheck esp ebp) = some b' →
        Sys.Steps fs b [.execute command exeCheck esp ebp] b' := fun b' hb' =>
      .single ⟨hb', fun _ => h.lowerFree⟩
    cases hout : execute fs command.val exeCheck esp ebp b.kernel <;> rw [hout] at hstep
    case returned k =>
      cases hstep
      refine ⟨_, { b with kernel := k, resumed := none }, hstays _ ?_, ⟨rfl, rfl, h.halting⟩⟩
      rw [Sys.step, if_pos hcalls, hout]
    case user k =>
      cases hstep
      refine ⟨_, { b with kernel := k, live := k.availablePid :: b.live, resumed := none },
        hstays _ ?_, ⟨rfl, rfl, h.halting⟩⟩
      rw [Sys.step, if_pos hcalls, hout]
    case frame => cases hstep
    case fault => cases hstep

theorem BetweenCalls.tickStep {a a' : ProcState} {b : Sys} {exeCheck : Buf}
    {esp ebp ebpExecute : Nat} (h : BetweenCalls a b)
    (hstep : a.step fs (.tick exeCheck esp ebp ebpExecute) = some a') :
    ∃ es b', Sys.Steps fs b es b' ∧ BetweenCalls a' b' := by
  rw [ProcState.step, ← h.kernel, ← h.live] at hstep
  have hstays : ∀ b', b.step fs (.tick exeCheck esp ebp ebpExecute) = some b' →
      Sys.Steps fs b [.tick exeCheck esp ebp ebpExecute] b' := fun b' hb' =>
    .single ⟨hb', fun _ => h.lowerFree⟩
  cases hout : pitHandler fs exeCheck esp ebp ebpExecute b.kernel <;> rw [hout] at hstep
  case returned => cases hstep
  case user k =>
    cases hstep
    refine ⟨_, { kernel := k, live := k.availablePid :: b.live, halting := b.preempt,
                 resumed := none }, hstays _ ?_, ⟨rfl, rfl, h.preempt⟩⟩
    rw [Sys.step, hout]
  case frame k _ =>
    cases hstep
    refine ⟨_, { b with kernel := k, halting := b.preempt, resumed := none }, hstays _ ?_,
      ⟨rfl, rfl, h.preempt⟩⟩
    rw [Sys.step, hout]
  case fault => cases hstep

/-- **An atomic call is a run of harmless steps.** -/
theorem BetweenCalls.step {a a' : ProcState} {b : Sys} {e : ProcEvent} (h : BetweenCalls a b)
    (hstep : a.step fs e = some a') :
    ∃ es b', Sys.Steps fs b es b' ∧ BetweenCalls a' b' := by
  cases e with
  | execute => exact h.executeStep hstep
  | halt => exact h.haltStep hstep
  | tick => exact h.tickStep hstep

/-- **The invariant along a run of atomic calls.** -/
theorem ProcState.coherent_of_run {m : PowerOn} {es : List ProcEvent} {a : ProcState}
    (hrun : ProcState.Steps fs (.boot m) es a) :
    ∃ b σ, BetweenCalls a b ∧ Coherent b σ := by
  obtain ⟨es', b, hfine, hbetween⟩ := hrun.simulates BetweenCalls (BetweenCalls.boot m)
    fun _ _ _ _ h hstep => h.step hstep
  obtain ⟨-, σ, -, hcoherent⟩ := (coherent_boot m).run hfine
  exact ⟨b, σ, hbetween, hcoherent⟩

end Atomic

end JuddOS
