import JuddOS.Preemption
import JuddOS.Support.CallStacks

/-!
# `execute` is a call and `halt` its return

A process that starts another one waits for it.  Until the child ends, however long that takes and
whatever the child and the other terminals do, the caller does not run; and when the child ends, by
`halt` or by an exception, control leaves through the frame that `execute` was called with, in the
context of the caller (`call_returns_of_run`).

`Waits` is what holds while the child lives.
-/

namespace JuddOS

open Support X86

/-! ## A caller does not run -/

/-- A process of a chain, with what is below it. -/
theorem Chained.split {pcb : Nat → Pcb} {t : Tid} {c : List Nat} (h : Chained pcb t c) {p : Nat}
    (hp : p ∈ c) : ∃ rest, p :: rest <:+ c ∧ Link pcb t p rest := by
  induction c with
  | nil => cases hp
  | cons q rest ih =>
      by_cases heq : p = q
      · subst heq
        exact ⟨rest, List.suffix_rfl, h.1⟩
      · obtain ⟨below, hbelow, hlink⟩ := ih h.2 ((List.mem_cons.mp hp).resolve_left heq)
        exact ⟨below, hbelow.trans (List.suffix_cons q rest), hlink⟩

section Caller

variable {s : ProcState} {σ : Stacks Tid Nat}

/-- What is under a process does not run. -/
theorem Chains.below_waits (h : Chains s σ) {t : Tid} {p q : Nat} {below : List Nat}
    (hbelow : p :: below <:+ σ.chain t) (hq : q ∈ below) : q ≠ s.kernel.runningPid := by
  have hp : p ∈ σ.chain t := hbelow.subset (List.mem_cons_self ..)
  obtain ⟨r, rest, hruns⟩ := h.runs (List.ne_nil_of_mem ((h.mem_live p).mpr ⟨t, hp⟩))
  rintro rfl
  have htop := hruns.chain
  rw [← hruns.runningPid] at htop
  exact h.linked.separate.below_not_top hbelow hq htop

/-- The caller of a live process is under it. -/
theorem Chains.caller_below (h : Chains s σ) {p q : Nat} (hp : p ∈ s.live) (hq : q < 6)
    (hparent : (s.kernel.pcb (pcbAddr p)).parent = pcbAddr q) :
    ∃ t below, p :: q :: below <:+ σ.chain t := by
  obtain ⟨t, ht⟩ := (h.mem_live p).mp hp
  obtain ⟨below, hbelow, hlink⟩ := (h.linked.chained t).split ht
  have hnext := hlink.parent
  rw [hparent] at hnext
  cases below with
  | nil => exact absurd hnext (pcbAddr_ne_zero hq)
  | cons r below =>
      rw [topPcb_cons] at hnext
      have hr := hbelow.subset (List.mem_cons_of_mem p (List.mem_cons_self ..))
      obtain rfl := pcbAddr_inj hq (h.linked.lt t r hr) hnext
      exact ⟨t, below, hbelow⟩

/-- **The caller of a live process does not run.** -/
theorem Chains.caller_waits (h : Chains s σ) {p q : Nat} (hp : p ∈ s.live) (hq : q < 6)
    (hparent : (s.kernel.pcb (pcbAddr p)).parent = pcbAddr q) : q ≠ s.kernel.runningPid := by
  obtain ⟨t, below, hbelow⟩ := h.caller_below hp hq hparent
  exact h.below_waits hbelow (List.mem_cons_self ..)

end Caller

/-! ## While the child lives -/

/-- The process `q` waits for `p`, which it started with the PCB `pcb`. -/
structure Waits (fs : Image) (p q : Nat) (pcb : Pcb) (o b : Os) : Prop where
  ready : OsReady fs b
  child : p ∈ b.proc.live
  link : SameLink pcb (b.proc.kernel.pcb (pcbAddr p))
  keeps : KeepsProcess q o.proc b.proc

section Waits

variable {fs : Image} {p q : Nat} {pcb : Pcb} {o b b' : Os} {e : OsEvent}

theorem Waits.idle (h : Waits fs p q pcb o b) (hparent : pcb.parent = pcbAddr q) :
    q ≠ b.proc.kernel.runningPid := by
  obtain ⟨σ, hchains⟩ := h.ready.tidy.ready.chains
  exact hchains.caller_waits h.child (h.ready.tidy.lt h.keeps.live) (h.link.parent.trans hparent)

/-- **An event in which the child does not end.** -/
theorem Waits.step (h : Waits fs p q pcb o b) (hparent : pcb.parent = pcbAddr q)
    (hstep : b.step fs e = some b') (hchild : p ∈ b'.proc.live) : Waits fs p q pcb o b' := by
  obtain ⟨es, hrun, hbrief, -⟩ := Os.step_kernelSteps hstep
  refine ⟨h.ready.step hstep, hchild, h.link.trans ?_, h.keeps.trans ?_⟩
  · exact h.ready.tidy.sameLink_of_brief hrun hbrief h.child hchild
  · exact h.ready.tidy.idle_of_brief hrun hbrief h.keeps.live (h.idle hparent)

/-- A run in which the process `p` stays alive. -/
abbrev Os.StepsWith (p : Nat) (fs : Image) : Os → List OsEvent → Os → Prop :=
  Run fun a e b => a.step fs e = some b ∧ p ∈ b.proc.live

/-- **The child starts.** -/
theorem OsReady.starts (h : OsReady fs o) (hlive : o.proc.live ≠ []) {command : CString}
    {exeCheck : Buf} {esp ebp : Nat}
    (hstep : o.step fs (.machine (.proc (.execute command exeCheck esp ebp))) = some b)
    (hnew : p ∉ o.proc.live) (hchild : p ∈ b.proc.live) :
    ∃ pcb, Waits fs p o.proc.kernel.runningPid pcb o b ∧
      pcb.parent = pcbAddr o.proc.kernel.runningPid ∧ pcb.tid = o.proc.kernel.terminalNum ∧
      pcb.ebp = ebp := by
  have hrunning := h.tidy.running hlive
  have hproc : o.proc.step fs (.execute command exeCheck esp ebp) = some b.proc := by
    obtain ⟨s, hproc, rfl⟩ := Option.map_eq_some_iff.mp hstep
    exact hproc
  obtain ⟨σ, hchains, hdone⟩ := h.tidy.proc_done hproc
  have hready := h.step hstep
  obtain ⟨s, hs⟩ : ∃ s, b.proc = s := ⟨_, rfl⟩
  rw [hs] at hdone hchild
  cases hdone with
  | returned => exact absurd hchild hnew
  | @executed _ _ _ _ p' k' hmay hstart =>
      obtain rfl : p = p' := (List.mem_cons.mp hchild).resolve_right hnew
      have hesp : OnKernelStack o.proc.kernel esp := by
        rcases hmay with ⟨hnone, -⟩ | ⟨-, hesp, -⟩
        · exact absurd hnone hlive
        · exact hesp
      have hcurr := h.tidy.currPcb hlive hesp
      have hne : o.proc.kernel.runningPid ≠ p := by
        rintro heq
        exact hnew (heq ▸ hrunning.mem)
      have hchild' := hstart.started.child hrunning.active
        (by rw [hcurr]; exact pcbAddr_ne (h.tidy.lt hrunning.mem) hne)
      rw [hcurr, hrunning.tid] at hchild'
      refine ⟨k'.pcb (pcbAddr p), ⟨hready, ?_, ?_, ?_⟩, hchild'.1, hchild'.2, hstart.started.ebp⟩
      · rw [hs]
        exact hchild
      · rw [hs]
        exact .of_eq rfl
      · rw [hs]
        exact hstart.keeps hchains rfl rfl rfl hrunning.mem

end Waits

/-! ## The child ends -/

/-- The process `p` ends in a call of `halt`, and its caller goes on. -/
structure Returns (s : ProcState) (esp p : Nat) (s' : ProcState) : Prop where
  out : JuddOS.halt esp s.kernel = .frame s'.kernel (s.kernel.pcb (pcbAddr p)).ebp
  caller : (s.kernel.pcb (pcbAddr p)).parent = pcbAddr s'.kernel.runningPid

/-- Only `halt` ends a process. -/
theorem ProcDone.ends {s s' : ProcState} {e : ProcEvent} (hdone : ProcDone s e s') {p : Nat}
    (hp : p ∈ s.live) (hend : p ∉ s'.live) : ∃ esp, e = .halt esp ∧ Returns s esp p s' := by
  cases hdone with
  | returned | restarted | resumed => exact absurd hp hend
  | executed | opened => exact absurd (List.mem_cons_of_mem _ hp) hend
  | @halted esp p' q rest σ hchains hruns hesp hout =>
      obtain rfl : p = p' := by
        by_contra hne
        exact hend ((List.mem_erase_of_ne hne).mpr hp)
      have hparent := hruns.link.parent
      rw [topPcb_cons] at hparent
      refine ⟨esp, rfl, hout, ?_⟩
      rw [hparent, (afterHalt_runningPid hchains hruns).1]

/-- `halt`, or the handler of an exception, leaves through the frame `ebp`. -/
inductive ComesBack (a : Os) (ebp : Nat) : OsEvent → Os → Prop
  | halt {esp : Nat} {b : Os}
      (hout : JuddOS.halt esp a.proc.kernel = .frame b.proc.kernel ebp) :
      ComesBack a ebp (.machine (.proc (.halt esp))) b
  | exception {x : Exception} {esp : Nat} {b : Os}
      (hout : x.handler esp a.proc.kernel = some (.frame b.proc.kernel ebp)) :
      ComesBack a ebp (.exception x esp) b

section Ends

variable {fs : Image} {o b b' : Os} {e : OsEvent} {p : Nat}

/-- **A process ends** by `halt` or by an exception. -/
theorem OsReady.ends (h : OsReady fs b) (hstep : b.step fs e = some b') (hp : p ∈ b.proc.live)
    (hend : p ∉ b'.proc.live) :
    ComesBack b (b.proc.kernel.pcb (pcbAddr p)).ebp e b' ∧
      (b.proc.kernel.pcb (pcbAddr p)).parent = pcbAddr b'.proc.kernel.runningPid := by
  cases e with
  | machine e =>
      rw [Os.step] at hstep
      split at hstep
      case isTrue => cases hstep
      case isFalse =>
        obtain ⟨s, hmachine, rfl⟩ := Option.map_eq_some_iff.mp hstep
        cases machineStep_done hmachine with
        | @proc e _ hproc =>
            obtain ⟨-, -, hdone⟩ := h.tidy.proc_done hproc
            obtain ⟨esp, rfl, hreturns⟩ := hdone.ends hp hend
            exact ⟨.halt hreturns.out, hreturns.caller⟩
        | key | write | plantReturn | takeLine | vidmap | store => exact absurd hp hend
  | exception x esp =>
      rw [Os.step] at hstep
      split at hstep
      case isFalse => cases hstep
      case isTrue hguard =>
        obtain ⟨s, hhandler, rfl⟩ := Option.map_eq_some_iff.mp hstep
        obtain ⟨chars, hx, -⟩ := x.handler_eq
        rw [hx] at hhandler
        obtain ⟨k, hwrite, hhalt, hout⟩ := exceptionHandler_done fs hguard.1 hguard.2 hhandler
        obtain ⟨hwritten, hpcb⟩ := h.tidy.write hwrite
        obtain ⟨-, -, hdone⟩ := (h.tidy.step hwrite).proc_done hhalt
        obtain ⟨esp', heq, hreturns⟩ := hdone.ends (hwritten.live ▸ hp) hend
        cases heq
        obtain ⟨hout', hcaller⟩ := hreturns
        rw [hout', hpcb] at hout
        rw [hpcb] at hcaller
        exact ⟨.exception (by rw [hx, hout]), hcaller⟩
  | call c stale esp =>
      rw [Os.step] at hstep
      split at hstep
      case isFalse => cases hstep
      case isTrue =>
        split at hstep
        · cases hstep
          exact absurd hp hend
        · cases hstep
  | keyboardIrq scan past =>
      rw [Os.step] at hstep
      obtain ⟨_, -, hstep⟩ := Option.bind_eq_some_iff.mp hstep
      obtain ⟨_, -, hstep⟩ := Option.bind_eq_some_iff.mp hstep
      cases hstep
      exact absurd hp hend
  | rtcIrq =>
      rw [Os.step] at hstep
      obtain ⟨_, -, hstep⟩ := Option.bind_eq_some_iff.mp hstep
      cases hstep
      exact absurd hp hend
  | pitIrq exeCheck esp ebp ebpExecute =>
      obtain ⟨-, -, hdone⟩ := h.tidy.proc_done (Os.step_tick hstep)
      obtain ⟨esp', heq, -⟩ := hdone.ends hp hend
      cases heq

/-- **`execute` is a call.** -/
theorem OsReady.calls {o₁ o₂ o₃ : Os} (h : OsReady fs o) (hlive : o.proc.live ≠ [])
    {command : CString} {exeCheck : Buf} {esp ebp : Nat}
    (hcall : o.step fs (.machine (.proc (.execute command exeCheck esp ebp))) = some o₁)
    (hnew : p ∉ o.proc.live) (hchild : p ∈ o₁.proc.live) {es : List OsEvent}
    (hruns : o₁.StepsWith p fs es o₂) (hstep : o₂.step fs e = some o₃) (hend : p ∉ o₃.proc.live) :
    ComesBack o₂ ebp e o₃ ∧ SameContext o.proc.kernel o₃.proc.kernel := by
  obtain ⟨pcb, hwaits, hparent, htid, hebp⟩ := h.starts hlive hcall hnew hchild
  have hwaits' := hruns.invariant (Waits fs p _ pcb o) hwaits fun _ _ _ hwait hstep =>
    hwait.step hparent hstep.1 hstep.2
  obtain ⟨hback, hcaller⟩ := hwaits'.ready.ends hstep hwaits'.child hend
  rw [hwaits'.link.ebp, hebp] at hback
  rw [hwaits'.link.parent, hparent] at hcaller
  -- the caller is alive, and it is the process that runs
  have hkeeps := hwaits'.keeps.trans
    (hwaits'.ready.idle hstep hwaits'.keeps.live (hwaits'.idle hparent))
  have hrunning := h.tidy.running hlive
  have hready := hwaits'.ready.step hstep
  have hrunning' := hready.tidy.running (List.ne_nil_of_mem hkeeps.live)
  have hpid := pcbAddr_inj (h.tidy.lt hrunning.mem) (hready.tidy.lt hrunning'.mem) hcaller
  refine ⟨hback, sameContext_of_keeps h.tidy hready.tidy hlive hkeeps ?_ hpid.symm⟩
  rw [← hrunning'.tid, ← hpid, hkeeps.pcb, hrunning.tid]

end Ends

/-- **`execute` is a call and `halt` its return**, whatever happens in between. -/
theorem call_returns_of_run {fs : Image} {m : PowerOn} {master slave : Pic8259} {index : UInt8}
    {reg : UInt8 → UInt8} {es es' : List OsEvent} {e : OsEvent} {o o₁ o₂ o₃ : Os} {p : Nat}
    (hcursor : m.CursorOnScreen) (hrun : (Os.boot m master slave index reg).Steps fs es o)
    (hlive : o.proc.live ≠ []) {command : CString} {exeCheck : Buf} {esp ebp : Nat}
    (hcall : o.step fs (.machine (.proc (.execute command exeCheck esp ebp))) = some o₁)
    (hnew : p ∉ o.proc.live) (hchild : p ∈ o₁.proc.live) (hruns : o₁.StepsWith p fs es' o₂)
    (hstep : o₂.step fs e = some o₃) (hend : p ∉ o₃.proc.live) :
    ComesBack o₂ ebp e o₃ ∧ SameContext o.proc.kernel o₃.proc.kernel :=
  ((osReady_boot fs hcursor master slave index reg).run hrun).calls hlive hcall hnew hchild hruns
    hstep hend

/-- A shell starts another one, which halts. -/
theorem call_returns_of_run_shell : ∃ o o₁ o₃ : Os, ∃ e,
    ComesBack o₁ o.proc.kernel.tssEsp0 e o₃ ∧ SameContext o.proc.kernel o₃.proc.kernel := by
  obtain ⟨o, hfirst⟩ := exists_system_shell
  obtain ⟨es, hrun⟩ := hfirst.reached
  obtain ⟨o₁, p, hcall, hstarts⟩ := hfirst.starts
  have hready₁ := hfirst.ready.step hcall
  have hchild : p ∈ o₁.proc.live := hstarts.live ▸ List.mem_cons_self ..
  have hcaller : o.proc.kernel.runningPid ∈ o₁.proc.live := by
    rw [hstarts.live]
    exact List.mem_cons_of_mem p (hfirst.ready.tidy.running hfirst.ne_nil).mem
  have hparent := hstarts.parent
  rw [← hstarts.runs] at hparent
  -- the new shell runs, and halts
  obtain ⟨o₃, hhalt, hends⟩ := hready₁.child_halts hcaller hparent
  have hend : p ∉ o₃.proc.live := by
    obtain ⟨σ, hchains⟩ := hready₁.tidy.ready.chains
    rw [hends.live, hstarts.runs]
    exact hchains.linked.nodup.not_mem_erase
  exact ⟨o, o₁, o₃, _, call_returns_of_run (by decide) hrun hfirst.ne_nil hcall hstarts.new hchild
    (.nil _) hhalt hend⟩

end JuddOS
