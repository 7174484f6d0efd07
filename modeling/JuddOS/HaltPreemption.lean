import JuddOS.ProcessTable

/-!
# `halt` under preemption

A tick may fall between any two statements of `halt`.  `HaltSafe` says what this must not
break: no process gets the number of one that is still halting, and control reaches the
parent with the page and `most_recent_pcb` of the parent.

`haltSafe_of_run` proves it for the runs whose steps are `Sys.Harmless`.  Without the
condition it is false: `halt_reuses_pid` is a run in which the tick after the release of the
number starts a shell, which gets the number, and with it the PCB and the kernel stack on
which `halt` still executes.
-/

namespace JuddOS

open Support

/-! ## Runs of the shell -/

/-- A process starts the shell. -/
theorem Sys.shell_step (s : Sys) (esp ebp p : Nat)
    (hnone : s.halting s.kernel.terminalNum = none)
    (hmay : MayExecute s.kernel s.live shellCString esp ebp)
    (hp : firstFreePid s.kernel.pidBits 6 0 = p) (hfree : p ≠ 6) :
    ∃ k', s.step shellImage (.execute shellCString (fun _ => 0) esp ebp) =
        some { s with kernel := k', live := p :: s.live, resumed := none } ∧
      Started s.kernel esp ebp p k' := by
  obtain ⟨k', hexec, hstarted⟩ := execute_shell (k := s.kernel) esp ebp (hp ▸ hfree)
  rw [hp] at hstarted
  refine ⟨k', ?_, hstarted⟩
  rw [Sys.step, if_pos ⟨Option.isNone_iff_eq_none.mpr hnone, hmay⟩, hexec]
  dsimp only
  rw [hstarted.availablePid]

/-- A tick starts the shell of the next terminal. -/
theorem Sys.tick_step (s : Sys) (p : Nat)
    (hnext : (s.kernel.terminalArr (s.kernel.terminalNum + 1)).active = false)
    (hp : firstFreePid s.kernel.pidBits 6 0 = p) (hfree : p ≠ 6) :
    ∃ k', s.step shellImage (.tick (fun _ => 0) 0 0 0) =
        some { kernel := k', live := p :: s.live, halting := s.preempt, resumed := none } ∧
      Started (leaveTerminal 0 s.kernel) 0 0 p k' := by
  have hbits : firstFreePid (leaveTerminal 0 s.kernel).pidBits 6 0 = p := hp
  obtain ⟨k', hexec, hstarted⟩ := execute_shell 0 0 (hbits ▸ hfree)
  have hpit : pitHandler shellImage (fun _ => 0) 0 0 0 s.kernel = .user k' := by
    rw [pitHandler, leaveTerminal_terminalNum, leaveTerminal_next, if_pos hnext,
      show shellCommand = shellCString.val from rfl, hexec]
  rw [hbits] at hstarted
  refine ⟨k', ?_, hstarted⟩
  rw [Sys.step, hpit]
  dsimp only
  rw [hstarted.availablePid]

/-- The shell of terminal 0 has started a second one. -/
structure ChildShell (k : Kernel) : Prop where
  terminalNum : k.terminalNum = 0
  tssEsp0 : k.tssEsp0 = kernelStackTop 1
  parent : (k.pcb (pcbAddr 1)).parent = pcbAddr 0
  pid : (k.pcb (pcbAddr 1)).pid = 1
  pidBits : k.pidBits = Function.update (Function.update (fun _ => 0) 0 1) 1 1
  inactive : (k.terminalArr 1).active = false

theorem exists_childShell :
    ∃ es k, Sys.Steps shellImage (.boot .blank) es
        { kernel := k, live := [1, 0], halting := fun _ => none, resumed := none } ∧
      ChildShell k := by
  have hboot := booted_bootKernel .blank
  have hbits₀ : (Sys.boot .blank).kernel.pidBits = fun _ => 0 := hboot.pidBits
  have hnum₀ : (Sys.boot .blank).kernel.terminalNum = 0 := hboot.terminalNum
  have hterm₀ : (Sys.boot .blank).kernel.terminalArr = initialTerminal := hboot.terminalArr
  obtain ⟨k₁, hstep₁, h₁⟩ := Sys.shell_step (.boot .blank) 0 0 0 rfl (.inl ⟨rfl, rfl⟩)
    (by rw [hbits₀]; decide) (by decide)
  have htss₁ : getCurrPcb (kernelStackTop 0) = getCurrPcb k₁.tssEsp0 := by rw [h₁.tssEsp0]
  have hbits₁ : k₁.pidBits = Function.update (fun _ => 0) 0 1 := by
    rw [h₁.pidBits, hbits₀]
  have hnum₁ : k₁.terminalNum = 0 := h₁.terminalNum.trans hnum₀
  obtain ⟨k₂, hstep₂, h₂⟩ := Sys.shell_step
    { kernel := k₁, live := [0], halting := fun _ => none, resumed := none }
    (kernelStackTop 0) (kernelStackTop 0) 1 rfl
    (.inr ⟨List.cons_ne_nil 0 [], htss₁, htss₁, by decide, by decide⟩)
    (by dsimp only; rw [hbits₁]; decide) (by decide)
  dsimp only at h₂
  have hne : getCurrPcb (kernelStackTop 0) ≠ pcbAddr 1 := by decide
  have hactive : (k₁.terminalArr k₁.terminalNum).active = true := by
    rw [h₁.terminalArr, h₁.terminalNum, Function.update_self]
  refine ⟨_, k₂, (Run.single ⟨hstep₁, fun _ => nofun⟩).append
    (.single ⟨hstep₂, fun _ => nofun⟩), ?_⟩
  constructor
  case terminalNum => exact h₂.terminalNum.trans hnum₁
  case tssEsp0 => exact h₂.tssEsp0
  case parent => exact (h₂.child hactive hne).1.trans (getCurrPcb_kernelStackTop (by decide))
  case pid => exact h₂.pid
  case pidBits => rw [h₂.pidBits, hbits₁]
  case inactive =>
    rw [h₂.terminalArr, hnum₁, Function.update_of_ne (by decide), h₁.terminalArr, hnum₀,
      Function.update_of_ne (by decide), hterm₀]
    rfl

/-- The second shell calls `halt`. -/
theorem exists_haltCall :
    ∃ (es : List SysEvent) (s : Sys) (k : Kernel), Sys.Steps shellImage (.boot .blank) es
        (s.during 0 (haltFrame (pcbAddr 1) (pcbAddr 0) .entered) k [1, 0]) ∧
      s.halting = (fun _ => none) ∧ ChildShell k := by
  obtain ⟨es, k, hrun, hchild⟩ := exists_childShell
  have htop : getCurrPcb (kernelStackTop 1) = pcbAddr 1 := getCurrPcb_kernelStackTop (by decide)
  have hstack : OnKernelStack k (kernelStackTop 1) := by
    rw [OnKernelStack, hchild.tssEsp0]
  have hcall : Sys.step shellImage
      { kernel := k, live := [1, 0], halting := fun _ => none, resumed := none }
      (.haltCall (kernelStackTop 1)) =
      some (Sys.during
        { kernel := k, live := [1, 0], halting := fun _ => none, resumed := none }
        0 (haltFrame (pcbAddr 1) (pcbAddr 0) .entered) k [1, 0]) := by
    rw [Sys.step, if_pos ⟨rfl, List.cons_ne_nil 1 [0], hstack⟩, htop, hchild.parent]
    dsimp only
    rw [hchild.terminalNum]
    rfl
  exact ⟨_, _, k, hrun.snoc ⟨hcall, trivial⟩, rfl, hchild⟩

/-- What `halt` promises while it can be preempted. -/
structure HaltSafe (s : Sys) : Prop where
  nodup : s.live.Nodup
  /-- The number of a process that has released it but is still halting is not in use. -/
  noReuse : ∀ t f, s.halting t = some f → f.pc.pidReleased = true →
    (s.kernel.pcb f.currentPcb).pid ∉ s.live
  /-- Control has reached the parent. -/
  returned : ∀ parent, s.resumed = some parent →
    HasPage s.kernel (s.kernel.pcb parent).pid ∧
      (s.kernel.terminalArr s.kernel.terminalNum).mostRecentPcb = parent

theorem Coherent.haltSafe {s : Sys} {σ : Stacks Tid Nat} (h : Coherent s σ) : HaltSafe s := by
  constructor
  case nodup => exact h.linked.nodup
  case noReuse =>
    intro t f hf hpc hmem
    have hhalt := h.linked.halts t f hf
    obtain ⟨p, rest, hchain⟩ := List.exists_cons_of_ne_nil hhalt.nonempty
    have hp : p ∈ σ.chain t := hchain ▸ List.mem_cons_self ..
    have hpid := (h.linked.chained t).pid hp
    have hnodup := h.linked.separate.nodup t
    rw [hchain] at hnodup
    rw [hhalt.current, hchain, topPcb_cons, hpid, h.linked.alive] at hmem
    obtain ⟨u, hu⟩ := hmem
    have heq := h.linked.separate.eq_of_mem u t p (liveOf_subset hu) hp
    rw [heq, liveOf, hf, Option.any_some, if_pos hpc, hchain, List.tail_cons] at hu
    exact (List.nodup_cons.mp hnodup).1 hu
  case returned =>
    intro parent hparent
    obtain ⟨hnone, q, hq, haddr⟩ := h.resumed parent hparent
    have hmem : q ∈ σ.chain s.kernel.terminalNum := List.mem_of_mem_head? hq
    have hpage := h.current.page
    rw [hnone] at hpage
    rw [haddr]
    constructor
    · rw [(h.linked.chained _).pid hmem]
      exact hasPage_of_maps (h.linked.lt _ q hmem) (hpage q hq)
    · rw [h.linked.recent, hnone, recentOf_none]
      cases hchain : σ.chain s.kernel.terminalNum with
      | nil =>
          rw [hchain] at hmem
          cases hmem
      | cons p rest =>
          rw [hchain] at hq
          cases hq
          exact topPcb_cons ..

/-- **`halt` keeps its promise along every run of harmless steps.** -/
theorem haltSafe_of_run (fs : Image) (m : PowerOn) (es : List SysEvent) (s : Sys)
    (hrun : Run (fun s e s' => s.step fs e = some s' ∧ s.Harmless fs e) (.boot m) es s) :
    HaltSafe s := by
  obtain ⟨-, σ, -, hcoherent⟩ := (coherent_boot m).run hrun
  exact hcoherent.haltSafe

/-- The second shell halts, and a tick starts the shell of terminal 1 in the meantime. -/
theorem haltSafe_preempted :
    ∃ es s, Run (fun s e s' => Sys.step shellImage s e = some s' ∧ s.Harmless shellImage e)
        (.boot .blank) es s ∧
      (s.halting 0).isSome ∧ s.live = [2, 1, 0] ∧ HaltSafe s := by
  obtain ⟨es, s, k, hrun, hnone, hchild⟩ := exists_haltCall
  generalize hs : s.during 0 (haltFrame (pcbAddr 1) (pcbAddr 0) .entered) k [1, 0] = s' at hrun
  have hkernel : s'.kernel = k := by rw [← hs]; rfl
  have hnum : s'.kernel.terminalNum = 0 := by rw [hkernel, hchild.terminalNum]
  have hhalting : s'.halting = Function.update (fun _ => none) 0
      (some (haltFrame (pcbAddr 1) (pcbAddr 0) .entered)) := by
    rw [← hs, ← hnone]
    rfl
  -- the number is not released yet
  have hfree : s'.LowerFree := by
    intro t f hf hpc
    rw [hhalting] at hf
    rcases eq_or_ne t 0 with rfl | ht
    · rw [Function.update_self] at hf
      cases hf
      cases hpc
    · rw [Function.update_of_ne ht] at hf
      cases hf
  obtain ⟨k', hstep, -⟩ := s'.tick_step 2 (by rw [hnum, hkernel]; exact hchild.inactive)
    (by rw [hkernel, hchild.pidBits]; decide) (by decide)
  have hrun' := hrun.snoc ⟨hstep, fun _ => hfree⟩
  refine ⟨_, _, hrun', ?_, by rw [← hs]; rfl, haltSafe_of_run _ _ _ _ hrun'⟩
  show (s'.preempt 0).isSome
  rw [Sys.preempt, hnum, Function.update_self, hhalting, Function.update_self]
  rfl

/-! ## A number handed out too early -/

/-- The second shell calls `halt`, which comes to the release of its number. -/
theorem exists_releasedShell :
    ∃ es s, Run (fun s e s' => Sys.step shellImage s e = some s') (.boot .blank) es s ∧
      s.kernel.terminalNum = 0 ∧ s.live = [0] ∧
      s.halting 0 = some (haltFrame (pcbAddr 1) (pcbAddr 0) .released) ∧
      firstFreePid s.kernel.pidBits 6 0 = 1 ∧ (s.kernel.terminalArr 1).active = false := by
  obtain ⟨es, s, k, hrun, -, hchild⟩ := exists_haltCall
  have hparent : pcbAddr 0 ≠ 0 := pcbAddr_ne_zero (by decide)
  have hrestore : Sys.Steps shellImage
      (s.during 0 (haltFrame (pcbAddr 1) (pcbAddr 0) .entered) k [1, 0]) [.haltStatement] _ :=
    Sys.restore_step hchild.terminalNum
  have hnum : (haltRestoreEsp0 (pcbAddr 1) k).terminalNum = 0 := hchild.terminalNum
  have hrelease := hrestore.append (Sys.release_step hnum hparent)
  have hpid : ((haltRestoreEsp0 (pcbAddr 1) k).pcb (pcbAddr 1)).pid = 1 := hchild.pid
  refine ⟨_, _, (hrun.append hrelease).mono fun _ _ _ h => h.1, hnum, ?_,
    Sys.during_halting, ?_, hchild.inactive⟩
  · show [1, 0].erase ((haltRestoreEsp0 (pcbAddr 1) k).pcb (pcbAddr 1)).pid = [0]
    rw [hpid]
    rfl
  · show firstFreePid (haltReleasePid (pcbAddr 1) (haltRestoreEsp0 (pcbAddr 1) k)).pidBits 6 0 = 1
    rw [haltReleasePid, hpid]
    show firstFreePid (Function.update k.pidBits 1 0) 6 0 = 1
    rw [hchild.pidBits]
    decide

/-- The second shell halts, and the tick falls behind the release of its number 1: the new
shell of terminal 1 gets that number. -/
theorem halt_reuses_pid :
    ¬ ∀ (fs : Image) (m : PowerOn) (es : List SysEvent) (s : Sys),
      Run (fun s e s' => s.step fs e = some s') (.boot m) es s → HaltSafe s := by
  intro hall
  obtain ⟨es, s, hrun, hnum, hlive, hhalt, hfree, hinactive⟩ := exists_releasedShell
  obtain ⟨k', hstep, hstarted⟩ := s.tick_step 1 (by rw [hnum]; exact hinactive) hfree (by decide)
  have hsafe := hall shellImage .blank _ _ (hrun.snoc hstep)
  have hframe : s.preempt 0 = some (haltFrame (pcbAddr 1) (pcbAddr 0) .released) := by
    rw [Sys.preempt, hnum, Function.update_self, hhalt]
    rfl
  refine hsafe.noReuse 0 _ hframe rfl ?_
  show (k'.pcb (pcbAddr 1)).pid ∈ 1 :: s.live
  rw [hstarted.pid]
  exact List.mem_cons_self ..

end JuddOS
