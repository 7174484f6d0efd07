import JuddOS.CallReturn

/-!
# The processes as three call stacks

`Kernel.callStacks` reads the call stacks off the kernel: from `most_recent_pcb` of each terminal
along the parent pointers.  Under it the whole system is the abstract machine of `Stacks.CallStep`:
an event is one of its steps or none (`OsReady.step_calls`), so every run of the system is one of
three call stacks (`call_stacks_of_run`).

What holds of call stacks then holds of the processes.  The callers of a process stay the same as
long as it lives, and wait (`callers_of_run`); a root shell never ends (`root_shell_of_run`).
-/

namespace JuddOS

open Support X86

/-! ## Reading the stacks -/

/-- The processes from the PCB at `addr` to the root. -/
def Kernel.callers (k : Kernel) : Nat → Nat → List Nat
  | 0, _ => []
  | n + 1, addr =>
      if addr = 0 then [] else (k.pcb addr).pid :: k.callers n (k.pcb addr).parent

/-- The call stacks of the terminals.  There are six process numbers. -/
def Kernel.callStacks (k : Kernel) : Stacks Tid Nat where
  chain t := k.callers 6 (k.terminalArr t).mostRecentPcb
  current := k.terminalNum

theorem Chained.callers {k : Kernel} {t : Tid} {c : List Nat} (h : Chained k.pcb t c)
    (hlt : ∀ p ∈ c, p < 6) {n : Nat} (hn : c.length ≤ n) : k.callers n (topPcb c) = c := by
  induction c generalizing n with
  | nil =>
      cases n with
      | zero => rfl
      | succ n => exact if_pos rfl
  | cons p rest ih =>
      cases n with
      | zero => exact absurd hn (Nat.not_succ_le_zero _)
      | succ n =>
          have hp := hlt p (List.mem_cons_self ..)
          have hrest := ih h.2 (fun q hq => hlt q (List.mem_cons_of_mem p hq))
            (Nat.le_of_succ_le_succ hn)
          rw [topPcb_cons, Kernel.callers, if_neg (pcbAddr_ne_zero hp), h.1.pid, h.1.parent, hrest]

theorem Chained.link {pcb : Nat → Pcb} {t : Tid} {c : List Nat} (h : Chained pcb t c) {p : Nat}
    {below : List Nat} (hbelow : p :: below <:+ c) : Link pcb t p below := by
  obtain ⟨above, rfl⟩ := hbelow
  induction above with
  | nil => exact h.1
  | cons q above ih => exact ih h.2

/-- A chain is determined by its top. -/
theorem Chained.unique {pcb : Nat → Pcb} {t : Tid} {c c' : List Nat} (h : Chained pcb t c)
    (h' : Chained pcb t c') (hlt : ∀ p ∈ c, p < 6) (hlt' : ∀ p ∈ c', p < 6)
    (htop : topPcb c = topPcb c') : c = c' := by
  induction c generalizing c' with
  | nil =>
      cases c' with
      | nil => rfl
      | cons q rest' => exact absurd htop.symm (pcbAddr_ne_zero (hlt' q (List.mem_cons_self ..)))
  | cons p rest ih =>
      have hp := hlt p (List.mem_cons_self ..)
      cases c' with
      | nil => exact absurd htop (pcbAddr_ne_zero hp)
      | cons q rest' =>
          obtain rfl := pcbAddr_inj hp (hlt' q (List.mem_cons_self ..)) htop
          have hrest := ih h.2 h'.2 (fun r hr => hlt r (List.mem_cons_of_mem p hr))
            (fun r hr => hlt' r (List.mem_cons_of_mem p hr)) (h.1.parent.symm.trans h'.1.parent)
          rw [hrest]

section Stacks

variable {s s' : ProcState} {σ σ' : Stacks Tid Nat}

theorem Chains.recent (h : Chains s σ) (t : Tid) :
    (s.kernel.terminalArr t).mostRecentPcb = topPcb (σ.chain t) := by
  rw [h.linked.recent t, recentOf_none]

/-- **The stacks of the invariant** are those that the kernel shows. -/
theorem Chains.callStacks_eq (h : Chains s σ) : s.kernel.callStacks = σ := by
  refine Stacks.eq_of_chain (fun t => ?_) h.current.scheduled.symm
  have hlt := h.linked.lt t
  have hsubset : σ.chain t ⊆ List.range 6 := fun p hp => List.mem_range.mpr (hlt p hp)
  have hlength := ((h.linked.separate.nodup t).subperm hsubset).length_le
  rw [List.length_range] at hlength
  show s.kernel.callers 6 (s.kernel.terminalArr t).mostRecentPcb = σ.chain t
  rw [h.recent t]
  exact (h.linked.chained t).callers hlt hlength

theorem TidyMachine.stacks (h : TidyMachine s) : Chains s s.kernel.callStacks := by
  obtain ⟨σ, hchains⟩ := h.ready.chains
  rw [hchains.callStacks_eq]
  exact hchains

theorem Chains.chain_eq (h : Chains s σ) {t : Tid} {c : List Nat}
    (hchained : Chained s.kernel.pcb t c) (hlt : ∀ p ∈ c, p < 6)
    (hrecent : (s.kernel.terminalArr t).mostRecentPcb = topPcb c) : σ.chain t = c :=
  (h.linked.chained t).unique hchained (h.linked.lt t) hlt ((h.recent t).symm.trans hrecent)

/-- The chain of a terminal that nothing has happened to. -/
theorem Chains.chain_kept (h : Chains s σ) (h' : Chains s' σ') {t : Tid}
    (hlinks : ∀ p ∈ σ.chain t, SameLink (s.kernel.pcb (pcbAddr p)) (s'.kernel.pcb (pcbAddr p)))
    (hrecent : (s'.kernel.terminalArr t).mostRecentPcb = (s.kernel.terminalArr t).mostRecentPcb) :
    σ'.chain t = σ.chain t :=
  h'.chain_eq ((h.linked.chained t).congr hlinks) (h.linked.lt t) (hrecent.trans (h.recent t))

/-! ## Steps -/

section Step

variable {fs : Image}

/-- A process that is started goes on top of the chain of its terminal. -/
theorem StartedFrom.pushes {k k' : Kernel} {esp ebp p : Nat} (hstart : StartedFrom k esp ebp p k')
    (h : Chains s σ) (h' : Chains { kernel := k', live := p :: s.live } σ')
    (hnew : p ∉ s.live) (hpcb : k.pcb = s.kernel.pcb)
    (hrecent : ∀ t, (k.terminalArr t).mostRecentPcb = (s.kernel.terminalArr t).mostRecentPcb)
    (hparent : (k'.pcb (pcbAddr p)).parent = topPcb (σ.chain k.terminalNum)) :
    σ' = (σ.switch k.terminalNum).push p := by
  -- the processes of the old chains are other ones
  have hlinks : ∀ t, ∀ q ∈ σ.chain t, SameLink (s.kernel.pcb (pcbAddr q)) (k'.pcb (pcbAddr q)) := by
    intro t q hq
    have hne : q ≠ p := by
      rintro rfl
      exact hnew ((h.mem_live q).mpr ⟨t, hq⟩)
    have hsame := hstart.started.pcb_of_ne _ (pcbAddr_ne (h.linked.lt t q hq) hne)
    exact .of_eq (by rw [hsame, hpcb])
  refine Stacks.eq_of_chain (fun t => ?_)
    (h'.current.scheduled.trans hstart.started.terminalNum)
  by_cases ht : t = k.terminalNum
  · subst ht
    rw [show ((σ.switch k.terminalNum).push p).chain k.terminalNum = p :: σ.chain k.terminalNum
      from Stacks.push_chain_self (σ.switch k.terminalNum) p]
    have htop : (k'.terminalArr k.terminalNum).mostRecentPcb = pcbAddr p := by
      rw [hstart.started.terminalArr, Function.update_self]
    have hrec := h'.recent k.terminalNum
    have hlt := h'.linked.lt k.terminalNum
    have hchained := h'.linked.chained k.terminalNum
    dsimp only at hrec
    rw [htop] at hrec
    cases hchain : σ'.chain k.terminalNum with
    | nil =>
        rw [hchain] at hrec
        exact absurd hrec (pcbAddr_ne_zero hstart.lt)
    | cons q rest =>
        rw [hchain] at hrec hlt hchained
        obtain rfl := pcbAddr_inj hstart.lt (hlt q (List.mem_cons_self ..)) hrec
        have hrest := ((h.linked.chained k.terminalNum).congr (hlinks _)).unique hchained.2
          (h.linked.lt k.terminalNum) (fun r hr => hlt r (List.mem_cons_of_mem p hr))
          (hparent.symm.trans hchained.1.parent)
        rw [hrest]
  · rw [Stacks.push_chain_of_ne (σ.switch k.terminalNum) p ht]
    refine h.chain_kept h' (hlinks t) ?_
    show (k'.terminalArr t).mostRecentPcb = _
    rw [hstart.started.terminalArr, Function.update_of_ne ht, hrecent]

theorem afterHalt_link (p q : Nat) (k : Kernel) (addr : Nat) :
    SameLink (k.pcb addr) ((afterHalt p q k).pcb addr) := by
  rw [afterHalt_pcb, Function.update_apply]
  split
  case isTrue heq =>
    rw [heq]
    exact ⟨rfl, rfl, rfl, rfl, rfl⟩
  case isFalse => exact .of_eq rfl

theorem leaveTerminal_recent (ebp : Nat) (k : Kernel) (t : Tid) :
    ((leaveTerminal ebp k).terminalArr t).mostRecentPcb = (k.terminalArr t).mostRecentPcb := by
  by_cases ht : t = k.terminalNum
  · rw [ht, leaveTerminal_self]
  · rw [leaveTerminal_of_ne ebp k ht]

/-- At most one step. -/
def StacksStep (σ σ' : Stacks Tid Nat) : Prop := σ' = σ ∨ ∃ c, Stacks.CallStep σ c σ'

/-- Nothing happens to any terminal. -/
theorem Chains.same (h : Chains s σ) (h' : Chains s' σ')
    (hlinks : ∀ p ∈ s.live, SameLink (s.kernel.pcb (pcbAddr p)) (s'.kernel.pcb (pcbAddr p)))
    (hrecent : ∀ t, (s'.kernel.terminalArr t).mostRecentPcb =
      (s.kernel.terminalArr t).mostRecentPcb)
    (hnum : s'.kernel.terminalNum = s.kernel.terminalNum) : σ' = σ := by
  refine Stacks.eq_of_chain (fun t => h.chain_kept h' (fun p hp => hlinks p ?_) (hrecent t)) ?_
  · exact (h.mem_live p).mpr ⟨t, hp⟩
  · exact h'.current.scheduled.trans (hnum.trans h.current.scheduled.symm)

/-- **A call is one step of the call stacks.** -/
theorem ProcDone.calls (h : Chains s σ) (h' : Chains s' σ') {e : ProcEvent}
    (hdone : ProcDone s e s') : StacksStep σ σ' := by
  have hcurrent := h.current.scheduled
  cases hdone with
  | returned size opened =>
      exact .inl (h.same h' (fun _ _ => .of_eq rfl) (fun _ => rfl) rfl)
  | restarted => exact .inl (h.same h' (fun _ _ => .of_eq rfl) (fun _ => rfl) rfl)
  | @executed command exeCheck esp ebp p k' hmay hstart =>
      obtain ⟨hnew, -⟩ := hstart.touches h rfl rfl rfl
      have hfresh : ∀ t, p ∉ σ.chain t := fun t ht => hnew ((h.mem_live p).mpr ⟨t, ht⟩)
      have hactive := h.linked.active s.kernel.terminalNum
      rcases hmay with ⟨hnone, -⟩ | ⟨hlive, hesp, -, -⟩
      · -- the first shell
        have hempty : σ.chain s.kernel.terminalNum = [] := by
          refine List.eq_nil_iff_forall_not_mem.mpr fun q hq => ?_
          have hmem := (h.mem_live q).mpr ⟨_, hq⟩
          rw [hnone] at hmem
          exact List.not_mem_nil hmem
        have hoff : (s.kernel.terminalArr s.kernel.terminalNum).active = false :=
          Bool.eq_false_iff.mpr fun hon => hactive.mp hon hempty
        have hpush := hstart.pushes h h' hnew rfl (fun _ => rfl) (by
          rw [hempty]
          exact (hstart.started.root hoff).1)
        rw [hpush]
        exact .inr ⟨.start _ p, .start hempty hfresh⟩
      · obtain ⟨q, rest, hruns⟩ := h.runs hlive
        have hrunning : σ.chain s.kernel.terminalNum ≠ [] :=
          hruns.chain ▸ List.cons_ne_nil q rest
        have hcurr := hruns.getCurrPcb hesp
        have hne : q ≠ p := by
          rintro rfl
          exact hnew (hruns.mem_live h)
        have hparent := (hstart.started.child (hactive.mpr hrunning)
          (by rw [hcurr]; exact pcbAddr_ne hruns.lt hne)).1
        have hpush := hstart.pushes h h' hnew rfl (fun _ => rfl) (by
          rw [hparent, hcurr, hruns.chain, topPcb_cons])
        rw [← hcurrent] at hpush hrunning
        rw [hpush]
        exact .inr ⟨.call p, .call hrunning hfresh⟩
  | @halted esp p q rest τ hchains hruns =>
      obtain rfl : τ = σ := hchains.callStacks_eq.symm.trans h.callStacks_eq
      have hchain := hruns.chain
      rw [← hcurrent] at hchain
      have hlinks : ∀ t, ∀ r ∈ τ.chain t,
          SameLink (s.kernel.pcb (pcbAddr r)) ((afterHalt p q s.kernel).pcb (pcbAddr r)) :=
        fun _ r _ => afterHalt_link p q s.kernel (pcbAddr r)
      have hpop : σ' = τ.pop := by
        refine Stacks.eq_of_chain (fun t => ?_) (h'.current.scheduled.trans hcurrent.symm)
        by_cases ht : t = τ.current
        · have hlt := h.linked.lt t
          have hchained := (h.linked.chained t).congr (hlinks t)
          subst ht
          rw [hchain] at hlt hchained
          rw [Stacks.pop_chain_self, hchain, List.tail_cons]
          refine h'.chain_eq hchained.2 (fun r hr => hlt r (List.mem_cons_of_mem p hr)) ?_
          show ((afterHalt p q s.kernel).terminalArr τ.current).mostRecentPcb = pcbAddr q
          rw [afterHalt_terminalArr, hcurrent, Function.update_self]
        · rw [Stacks.pop_chain_of_ne τ ht]
          refine h.chain_kept h' (hlinks t) ?_
          show ((afterHalt p q s.kernel).terminalArr t).mostRecentPcb = _
          rw [afterHalt_terminalArr, Function.update_of_ne (hcurrent ▸ ht)]
      rw [hpop]
      exact .inr ⟨.ret, .ret hchain⟩
  | @resumed exeCheck esp ebp ebpExecute hactive =>
      have hswitch : σ' = σ.switch (s.kernel.terminalNum + 1) :=
        Stacks.eq_of_chain (fun t => h.chain_kept h' (fun _ _ => .of_eq rfl)
          (leaveTerminal_recent ebp s.kernel t)) h'.current.scheduled
      rw [hswitch]
      exact .inr ⟨.resume _, .resume ((h.linked.active _).mp hactive)⟩
  | @opened exeCheck esp ebp ebpExecute p k' hinactive hstart =>
      obtain ⟨hnew, -⟩ := hstart.touches h rfl rfl rfl
      have hempty : σ.chain (s.kernel.terminalNum + 1) = [] := by
        by_contra hne
        exact Bool.false_ne_true (hinactive.symm.trans ((h.linked.active _).mpr hne))
      have hoff : ((leaveTerminal ebp s.kernel).terminalArr
          (leaveTerminal ebp s.kernel).terminalNum).active = false := by
        rw [leaveTerminal_terminalNum, leaveTerminal_next]
        exact hinactive
      have hpush := hstart.pushes h h' hnew rfl (leaveTerminal_recent ebp s.kernel) (by
        rw [leaveTerminal_terminalNum, hempty]
        exact (hstart.started.root hoff).1)
      rw [hpush, leaveTerminal_terminalNum]
      exact .inr ⟨.start _ p, .start hempty fun t ht => hnew ((h.mem_live p).mpr ⟨t, ht⟩)⟩

theorem Quiet.calls (hquiet : Quiet s s') (h : Chains s σ) (h' : Chains s' σ') : σ' = σ :=
  h.same h' hquiet.links (fun t => congrArg Slot.mostRecentPcb (hquiet.slots t)) hquiet.terminalNum

theorem TidyMachine.kernel_calls (h : TidyMachine s) {e : KernelEvent}
    (hstep : s.kernelStep fs e = some s') :
    StacksStep s.kernel.callStacks s'.kernel.callStacks := by
  have h' := h.kernelStep hstep
  by_cases he : e.isProc = false
  · obtain ⟨-, hquiet⟩ := h.quiet_run (.single hstep) fun e' he' => by
      rw [List.mem_singleton.mp he']
      exact he
    exact .inl (hquiet.calls h.stacks h'.stacks)
  · cases e with
    | setFds => exact absurd rfl he
    | machine e =>
        cases e with
        | proc e =>
            obtain ⟨-, -, hdone⟩ := h.proc_done hstep
            exact hdone.calls h.stacks h'.stacks
        | key | write | plantReturn | takeLine | vidmap | store => exact absurd rfl he

/-- **An event of the system** is at most one step of the call stacks. -/
theorem OsReady.step_calls {o o' : Os} {e : OsEvent} (h : OsReady fs o)
    (hstep : o.step fs e = some o') :
    StacksStep o.proc.kernel.callStacks o'.proc.kernel.callStacks := by
  obtain ⟨es, hrun, hbrief, -⟩ := Os.step_kernelSteps hstep
  rcases h.tidy.brief_cases hrun hbrief with hquiet | ⟨s₁, e, htidy, hquiet, last⟩
  · exact .inl (hquiet.calls h.tidy.stacks (h.step hstep).tidy.stacks)
  · have hcalls := htidy.kernel_calls last
    rwa [hquiet.calls h.tidy.stacks htidy.stacks] at hcalls

end Step

end Stacks

/-! ## Runs -/

theorem Chains.callStacks_empty {s : ProcState} {σ : Stacks Tid Nat} (h : Chains s σ)
    (hlive : s.live = []) (hnum : s.kernel.terminalNum = 0) :
    s.kernel.callStacks = emptyStacks := by
  rw [h.callStacks_eq]
  refine Stacks.eq_of_chain (fun t => List.eq_nil_iff_forall_not_mem.mpr fun p hp => ?_)
    (h.current.scheduled.trans hnum)
  have hmem := (h.mem_live p).mpr ⟨t, hp⟩
  rw [hlive] at hmem
  exact List.not_mem_nil hmem

/-- Before the first shell. -/
theorem callStacks_boot {m : PowerOn} (hcursor : m.CursorOnScreen) :
    (ProcState.boot m).kernel.callStacks = emptyStacks :=
  (tidyMachine_boot hcursor).stacks.callStacks_empty rfl (booted_bootKernel m).terminalNum

section Run

variable {fs : Image} {o o' : Os} {es : List OsEvent}

/-- The call stacks of a system. -/
abbrev Os.callStacks (o : Os) : Stacks Tid Nat := o.proc.kernel.callStacks

theorem OsReady.run_calls (h : OsReady fs o) (hrun : o.Steps fs es o') :
    ∃ cs, Stacks.CallSteps o.callStacks cs o'.callStacks := by
  have hsimulates : ∃ cs σ, Stacks.CallSteps o.callStacks cs σ ∧
      (OsReady fs o' ∧ σ = o'.callStacks) := by
    refine hrun.simulates (fun b σ => OsReady fs b ∧ σ = b.callStacks) ⟨h, rfl⟩ ?_
    rintro a e b σ ⟨ha, rfl⟩ hstep
    rcases ha.step_calls hstep with hsame | ⟨c, hcall⟩
    · exact ⟨[], _, .nil _, ha.step hstep, hsame.symm⟩
    · exact ⟨[c], _, .single hcall, ha.step hstep, rfl⟩
  obtain ⟨cs, σ, hcalls, -, rfl⟩ := hsimulates
  exact ⟨cs, hcalls⟩

/-- A process stays on the chain of its terminal. -/
theorem OsReady.stays (h : OsReady fs o) {e : OsEvent} (hstep : o.step fs e = some o') {t : Tid}
    {p : Nat} (hp : p ∈ o.callStacks.chain t) (hlive : p ∈ o'.proc.live) :
    p ∈ o'.callStacks.chain t := by
  obtain ⟨es, hrun, hbrief, -⟩ := Os.step_kernelSteps hstep
  have hmem := (h.tidy.stacks.mem_live p).mpr ⟨t, hp⟩
  have hlink := h.tidy.sameLink_of_brief hrun hbrief hmem hlive
  have htid := (h.tidy.stacks.mem_chain_iff hmem t).mp hp
  exact ((h.step hstep).tidy.stacks.mem_chain_iff hlive t).mpr (hlink.tid.trans htid)

/-- **The callers of a process** wait as long as it lives. -/
theorem OsReady.callers (h : OsReady fs o) {t : Tid} {p : Nat} {below : List Nat}
    (hbelow : p :: below <:+ o.callStacks.chain t) (hrun : o.StepsWith p fs es o') :
    p :: below <:+ o'.callStacks.chain t ∧
      ∀ q ∈ below, q ≠ o'.proc.kernel.runningPid ∧ KeepsProcess q o.proc o'.proc := by
  have hlive : ∀ q ∈ below, q ∈ o.proc.live := fun q hq =>
    (h.tidy.stacks.mem_live q).mpr ⟨t, hbelow.subset (List.mem_cons_of_mem p hq)⟩
  have hinv := hrun.invariant (fun b => OsReady fs b ∧ p :: below <:+ b.callStacks.chain t ∧
    ∀ q ∈ below, KeepsProcess q o.proc b.proc) ⟨h, hbelow, fun q hq => .refl (hlive q hq)⟩ (by
      rintro a e b ⟨ha, hin, hkeeps⟩ ⟨hstep, hp⟩
      have hsep := ha.tidy.stacks.linked.separate
      have hstay := ha.stays hstep (hin.subset (List.mem_cons_self ..)) hp
      refine ⟨ha.step hstep, ?_, fun q hq => (hkeeps q hq).trans ?_⟩
      · rcases ha.step_calls hstep with hsame | ⟨c, hcall⟩
        · rw [Os.callStacks, hsame]
          exact hin
        · exact hcall.below hsep hin hstay
      · exact ha.idle hstep (hkeeps q hq).live (ha.tidy.stacks.below_waits hin hq))
  obtain ⟨hready, hin, hkeeps⟩ := hinv
  exact ⟨hin, fun q hq => ⟨hready.tidy.stacks.below_waits hin hq, hkeeps q hq⟩⟩

/-- **A root shell** never ends. -/
theorem OsReady.root (h : OsReady fs o) {t : Tid} {p : Nat} (hroot : [p] <:+ o.callStacks.chain t)
    (hrun : o.Steps fs es o') :
    [p] <:+ o'.callStacks.chain t ∧ p ∈ o'.proc.live ∧
      (o'.proc.kernel.pcb (pcbAddr p)).parent = 0 ∧ (o'.proc.kernel.pcb (pcbAddr p)).tid = t := by
  have hchains := (h.run hrun).tidy.stacks
  obtain ⟨cs, hcalls⟩ := h.run_calls hrun
  have hstay := hcalls.invariant (fun σ => [p] <:+ σ.chain t) hroot fun _ _ _ hin hcall =>
    hcall.bottom hin
  have hlink := (hchains.linked.chained t).link hstay
  exact ⟨hstay, (hchains.mem_live p).mpr ⟨t, hstay.subset (List.mem_cons_self ..)⟩, hlink.parent,
    hlink.tid⟩

end Run

section Reachable

variable {fs : Image} {m : PowerOn} {master slave : Pic8259} {index : UInt8} {reg : UInt8 → UInt8}
  {es es' : List OsEvent} {o o' : Os}

/-- **The system refines three call stacks**, read off the kernel by its parent pointers. -/
theorem call_stacks_of_run (hcursor : m.CursorOnScreen)
    (hrun : (Os.boot m master slave index reg).Steps fs es o) :
    (∃ cs, Stacks.CallSteps emptyStacks cs o.callStacks) ∧
      (∀ p, p ∈ o.proc.live ↔ ∃ t, p ∈ o.callStacks.chain t) ∧
      (∀ t, (o.proc.kernel.terminalArr t).active = true ↔ o.callStacks.chain t ≠ []) ∧
      (o.proc.live ≠ [] → (o.callStacks.chain o.proc.kernel.terminalNum).head? =
        some o.proc.kernel.runningPid) := by
  have hready := osReady_boot fs hcursor master slave index reg
  obtain ⟨cs, hcalls⟩ := hready.run_calls hrun
  have hchains := (hready.run hrun).tidy.stacks
  have hboot : (Os.boot m master slave index reg).callStacks = emptyStacks :=
    callStacks_boot hcursor
  rw [hboot] at hcalls
  refine ⟨⟨cs, hcalls⟩, hchains.mem_live, hchains.linked.active, fun hlive => ?_⟩
  obtain ⟨p, rest, hruns⟩ := hchains.runs hlive
  rw [Os.callStacks, hruns.chain, hruns.runningPid, List.head?_cons]

theorem call_stacks_of_run_shell : ∃ o : Os, o.proc.live = [0] ∧
    ∃ cs, Stacks.CallSteps emptyStacks cs o.callStacks := by
  obtain ⟨o, hfirst⟩ := exists_system_shell
  obtain ⟨es, hrun⟩ := hfirst.reached
  exact ⟨o, hfirst.live, (call_stacks_of_run (by decide) hrun).1⟩

/-- **The callers of a process**, direct and indirect, stay under it as long as it lives; none of
them runs, and each keeps its PCB and its memory. -/
theorem callers_of_run (hcursor : m.CursorOnScreen)
    (hrun : (Os.boot m master slave index reg).Steps fs es o) {t : Tid} {p : Nat}
    {below : List Nat} (hbelow : p :: below <:+ o.callStacks.chain t)
    (hwith : o.StepsWith p fs es' o') :
    p :: below <:+ o'.callStacks.chain t ∧
      ∀ q ∈ below, q ≠ o'.proc.kernel.runningPid ∧ KeepsProcess q o.proc o'.proc :=
  ((osReady_boot fs hcursor master slave index reg).run hrun).callers hbelow hwith

/-- The first shell is under the second one, which starts a third one that halts. -/
theorem callers_of_run_shell : ∃ o₁ o₂ o₃ : Os, ∃ e e', ∃ p t below,
    o₁.step shellImage e = some o₂ ∧ o₂.step shellImage e' = some o₃ ∧
      o₂.proc.live.length = 3 ∧ o₃.proc.live.length = 2 ∧
      p :: 0 :: below <:+ o₃.callStacks.chain t ∧ 0 ≠ o₃.proc.kernel.runningPid ∧
      KeepsProcess 0 o₁.proc o₃.proc := by
  obtain ⟨p, o₁, o₂, o₃, hshells⟩ := exists_three_shells
  obtain ⟨es, hrun⟩ := hshells.reached
  obtain ⟨r, hlive₂, -, -⟩ := hshells.third
  have hp₁ : p ∈ o₁.proc.live := hshells.live ▸ List.mem_cons_self ..
  have hp₂ : p ∈ o₂.proc.live := by
    rw [hlive₂]
    exact List.mem_cons_of_mem r (List.mem_cons_self ..)
  have hp₃ : p ∈ o₃.proc.live := hshells.after ▸ List.mem_cons_self ..
  have hready := (osReady_boot shellImage (by decide) _ _ _ _).run hrun
  obtain ⟨t, below, hbelow⟩ := hready.tidy.stacks.caller_below hp₁ (by decide) hshells.parent
  obtain ⟨hchain, hwaits⟩ := callers_of_run (by decide) hrun hbelow
    ((Run.single ⟨hshells.starts, hp₂⟩).snoc ⟨hshells.halts, hp₃⟩)
  obtain ⟨hidle, hkeeps⟩ := hwaits 0 (List.mem_cons_self ..)
  exact ⟨o₁, o₂, o₃, _, _, p, t, below, hshells.starts, hshells.halts,
    congrArg List.length hlive₂, congrArg List.length hshells.after, hchain, hidle, hkeeps⟩

/-- **A root shell never ends**, and stays the root of its terminal. -/
theorem root_shell_of_run (hcursor : m.CursorOnScreen)
    (hrun : (Os.boot m master slave index reg).Steps fs es o) {t : Tid} {p : Nat}
    (hroot : [p] <:+ o.callStacks.chain t) (hmore : o.Steps fs es' o') :
    [p] <:+ o'.callStacks.chain t ∧ p ∈ o'.proc.live ∧
      (o'.proc.kernel.pcb (pcbAddr p)).parent = 0 ∧ (o'.proc.kernel.pcb (pcbAddr p)).tid = t :=
  ((osReady_boot fs hcursor master slave index reg).run hrun).root hroot hmore

/-- The first shell starts another one. -/
theorem root_shell_of_run_shell : ∃ o o' : Os, o'.proc.live ≠ o.proc.live ∧
    ∃ t p, [p] <:+ o'.callStacks.chain t ∧ p ∈ o'.proc.live := by
  obtain ⟨o, hfirst⟩ := exists_system_shell
  obtain ⟨es, hrun⟩ := hfirst.reached
  obtain ⟨o₁, p, hcall, hstarts⟩ := hfirst.starts
  obtain ⟨q, rest, hruns⟩ := hfirst.ready.tidy.stacks.runs hfirst.ne_nil
  obtain ⟨above, root, hroot⟩ := (List.eq_nil_or_concat (q :: rest)).resolve_left
    (List.cons_ne_nil q rest)
  rw [List.concat_eq_append] at hroot
  have hstays := root_shell_of_run (by decide) hrun ⟨above, (hruns.chain.trans hroot).symm⟩
    (Run.single hcall)
  refine ⟨o, o₁, ?_, _, root, hstays.1, hstays.2.1⟩
  rw [hstarts.live]
  exact fun heq => hstarts.new (heq ▸ List.mem_cons_self ..)

end Reachable

end JuddOS
