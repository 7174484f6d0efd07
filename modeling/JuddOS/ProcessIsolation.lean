import JuddOS.SystemInvariant

/-!
# Processes that do not run

An event of the system touches the process that runs, or a new one.  A process that others keep
waiting finds its PCB and its memory as it left them (`waiting_process_of_run`), and an exception
ends the process that caused it and no other (`exception_of_run`).
-/

namespace JuddOS

open Support X86

section Step

variable {fs : Image} {o o' : Os} {e : OsEvent}

/-- **A process that does not run** is left alone. -/
theorem OsReady.idle (h : OsReady fs o) (hstep : o.step fs e = some o') {q : Nat}
    (hq : q ∈ o.proc.live) (hidle : q ≠ o.proc.kernel.runningPid) :
    KeepsProcess q o.proc o'.proc := by
  obtain ⟨es, hrun, hbrief, -⟩ := Os.step_kernelSteps hstep
  exact h.tidy.idle_of_brief hrun hbrief hq hidle

/-- A process waits through a run: others run whenever something happens. -/
abbrev Os.StepsWithout (q : Nat) (fs : Image) : Os → List OsEvent → Os → Prop :=
  Run fun a e b => a.step fs e = some b ∧ q ≠ a.proc.kernel.runningPid

theorem OsReady.idle_run (h : OsReady fs o) {q : Nat} (hq : q ∈ o.proc.live)
    {es : List OsEvent} (hrun : o.StepsWithout q fs es o') :
    OsReady fs o' ∧ KeepsProcess q o.proc o'.proc := by
  refine hrun.invariant (fun b => OsReady fs b ∧ KeepsProcess q o.proc b.proc) ⟨h, .refl hq⟩ ?_
  rintro a e b ⟨ha, hkeeps⟩ ⟨hstep, hidle⟩
  exact ⟨ha.step hstep, hkeeps.trans (ha.idle hstep hkeeps.live hidle)⟩

/-- The process `p` ends: its caller `q` runs, and nobody else is touched. -/
structure EndsOnly (p q : Nat) (s s' : ProcState) : Prop where
  live : s'.live = s.live.erase p
  caller : q ∈ s'.live
  runs : s'.kernel.runningPid = q
  others : ∀ r ∈ s.live, r ≠ p → KeepsProcess r s s'

theorem EndsOnly.mem {p q : Nat} {s s' : ProcState} (h : EndsOnly p q s s') : q ∈ s.live := by
  have hcaller := h.caller
  rw [h.live] at hcaller
  exact List.mem_of_mem_erase hcaller

/-- No process ends, and the same process runs. -/
structure GoesOn (s s' : ProcState) : Prop where
  live : s'.live = s.live
  runs : s'.kernel.runningPid = s.kernel.runningPid
  processes : ∀ r ∈ s.live, KeepsProcess r s s'

/-- The caller runs after `halt`. -/
theorem afterHalt_runningPid {s : ProcState} {σ : Stacks Tid Nat} (h : Chains s σ) {p q : Nat}
    {rest : List Nat} (hruns : Chains.Runs s σ p (q :: rest)) :
    (afterHalt p q s.kernel).runningPid = q ∧ q ∈ s.live ∧ q ≠ p := by
  have hnodup := h.linked.separate.nodup s.kernel.terminalNum
  have hlt := h.linked.lt s.kernel.terminalNum
  have hlinks := h.linked.chained s.kernel.terminalNum
  have hmem := h.mem_live q
  rw [hruns.chain] at hnodup hlt hlinks
  have hq : q ∈ p :: q :: rest := List.mem_cons_of_mem p (List.mem_cons_self ..)
  have hne : q ≠ p := by
    rintro rfl
    exact (List.nodup_cons.mp hnodup).1 (List.mem_cons_self ..)
  refine ⟨?_, hmem.mpr ⟨s.kernel.terminalNum, by rwa [hruns.chain]⟩, hne⟩
  have hnum : (afterHalt p q s.kernel).terminalNum = s.kernel.terminalNum := rfl
  rw [Kernel.runningPid, mostRecent, hnum, afterHalt_terminalArr, Function.update_self,
    afterHalt_pcb, Function.update_of_ne (pcbAddr_ne (hlt q hq) hne)]
  exact hlinks.pid hq

/-- **`halt` by the process that runs.** -/
theorem TidyMachine.halt {s s' : ProcState} (h : TidyMachine s) {esp : Nat}
    (hstep : s.step fs (.halt esp) = some s') :
    ((s.kernel.pcb (pcbAddr s.kernel.runningPid)).parent = 0 → GoesOn s s') ∧
      ((s.kernel.pcb (pcbAddr s.kernel.runningPid)).parent ≠ 0 →
        ∃ q, (s.kernel.pcb (pcbAddr s.kernel.runningPid)).parent = pcbAddr q ∧
          EndsOnly s.kernel.runningPid q s s') := by
  obtain ⟨-, -, hdone⟩ := h.proc_done hstep
  have hguard : s.live ≠ [] ∧ OnKernelStack s.kernel esp := by
    rw [ProcState.step] at hstep
    split at hstep
    case isFalse => cases hstep
    case isTrue hguard => exact hguard
  have hcurr := h.currPcb hguard.1 hguard.2
  have hidle : ∀ r ∈ s.live, r ≠ s.kernel.runningPid → KeepsProcess r s s' := by
    have hmachine : s.kernelStep fs (.machine (.proc (.halt esp))) = some s' := hstep
    exact fun r hr hne => h.idle hmachine hr hne
  cases hdone with
  | restarted hroot =>
      rw [hcurr] at hroot
      exact ⟨fun _ => ⟨rfl, rfl, fun r hr => .refl hr⟩, fun hparent => absurd hroot hparent⟩
  | @halted _ p q rest σ hchains hruns hesp hout =>
      obtain ⟨hruns', hq, hne⟩ := afterHalt_runningPid hchains hruns
      rw [hruns.runningPid] at hidle ⊢
      have hparent := hruns.link.parent
      rw [topPcb_cons] at hparent
      rw [hparent]
      refine ⟨fun hzero => absurd hzero (pcbAddr_ne_zero (hchains.lt hq)), fun _ => ⟨q, rfl, ?_⟩⟩
      exact ⟨rfl, (List.mem_erase_of_ne hne).mpr hq, hruns', hidle⟩

/-- Output changes no process. -/
theorem TidyMachine.write {s s' : ProcState} (h : TidyMachine s) {buf : Option Buf}
    {nbytes : Int32} (hstep : s.machineStep fs (.write buf nbytes) = some s') :
    GoesOn s s' ∧ s'.kernel.pcb = s.kernel.pcb := by
  have hevent : s.kernelStep fs (.machine (.write buf nbytes)) = some s' := hstep
  obtain ⟨hruns, hlive⟩ := h.quiet hevent rfl
  cases machineStep_done hstep with
  | @write _ _ v k' hrun =>
      have hpcb : k'.pcb = s.kernel.pcb :=
        congrArg Bookkeeping.pcb (terminalWrite_bookkeeping hrun)
      have honly := terminalWrite_onlyScreens h.console.toTidy hrun
      refine ⟨⟨hlive, hruns, fun r hr => ⟨hr, congrFun hpcb _, fun a ha => ?_⟩⟩, hpcb⟩
      exact honly.memory a (ha.not_inVideo (h.lt hr))

theorem GoesOn.trans {s s₁ s₂ : ProcState} (h : GoesOn s s₁) (h' : GoesOn s₁ s₂) : GoesOn s s₂ :=
  ⟨h'.live.trans h.live, h'.runs.trans h.runs, fun r hr =>
    (h.processes r hr).trans (h'.processes r (h.processes r hr).live)⟩

theorem GoesOn.endsOnly {s s₁ s₂ : ProcState} {p q : Nat} (h : GoesOn s s₁)
    (h' : EndsOnly p q s₁ s₂) : EndsOnly p q s s₂ :=
  ⟨h'.live.trans (congrArg (fun live => live.erase p) h.live), h'.caller, h'.runs, fun r hr hne =>
    (h.processes r hr).trans (h'.others r (h.processes r hr).live hne)⟩

/-- The handler of an exception comes to an end when its message can be written. -/
theorem TidyMachine.exceptionHandler_served (fs : Image) {s : ProcState} (h : TidyMachine s)
    (hlive : s.live ≠ []) {esp : Nat} (hesp : OnKernelStack s.kernel esp)
    (hscreen : OnScreen (s.kernel.terminalArr s.kernel.terminalNum)) {chars : List UInt8}
    (hlength : ¬ Int32.ofNat chars.length < 0) :
    ∃ s', (exceptionHandler chars esp s.kernel).bind (Os.afterHandler s esp) = some s' := by
  obtain ⟨k, hwrite, -⟩ := terminalWrite_spec h.ready.mapped hscreen (Buf.ofList chars) hlength
  have hexec : (terminalWrite (some (Buf.ofList chars)) (Int32.ofNat chars.length)
      s.kernel).map Prod.snd = some k := by
    rw [hwrite]
    rfl
  have hstep : s.machineStep fs (.write (some (Buf.ofList chars)) (Int32.ofNat chars.length)) =
      some { s with kernel := k } :=
    congrArg (Option.map fun k => ({ s with kernel := k } : ProcState)) hexec
  have hesp' : OnKernelStack k esp := by
    have hesp0 : k.tssEsp0 = s.kernel.tssEsp0 :=
      congrArg Bookkeeping.tssEsp0 (terminalWrite_bookkeeping hwrite)
    rw [OnKernelStack, hesp0]
    exact hesp
  obtain ⟨σ, hchains⟩ := (h.step hstep).ready.chains
  obtain ⟨s', hhalt⟩ := hchains.halts hlive hesp' fs
  rw [ProcState.step, if_pos ⟨hlive, hesp'⟩] at hhalt
  rw [exceptionHandler, hwrite, Option.map_some, Option.bind_some]
  cases hout : JuddOS.halt esp k with
  | user k' => exact ⟨_, rfl⟩
  | frame k' ebp => exact ⟨_, rfl⟩
  | returned k' | fault =>
      rw [hout] at hhalt
      cases hhalt

/-- **The handler of an exception comes to an end.** -/
theorem OsReady.exception_served (h : OsReady fs o) (hlive : o.proc.live ≠ []) {esp : Nat}
    (hesp : OnKernelStack o.proc.kernel esp)
    (hscreen : OnScreen (o.proc.kernel.terminalArr o.proc.kernel.terminalNum)) (x : Exception) :
    ∃ o', o.step fs (.exception x esp) = some o' := by
  obtain ⟨chars, hx, hlength⟩ := x.handler_eq
  obtain ⟨s', hserved⟩ := h.tidy.exceptionHandler_served fs hlive hesp hscreen hlength
  rw [← hx] at hserved
  refine ⟨{ o with proc := s' }, ?_⟩
  rw [Os.step, if_pos ⟨hlive, hesp⟩]
  exact congrArg (Option.map fun s => ({ o with proc := s } : Os)) hserved

/-- The handler of an exception writes a message and halts. -/
theorem OsReady.exception (h : OsReady fs o) {x : Exception} {esp : Nat}
    (hstep : o.step fs (.exception x esp) = some o') :
    ((o.proc.kernel.pcb (pcbAddr o.proc.kernel.runningPid)).parent = 0 → GoesOn o.proc o'.proc) ∧
      ((o.proc.kernel.pcb (pcbAddr o.proc.kernel.runningPid)).parent ≠ 0 →
        ∃ q, (o.proc.kernel.pcb (pcbAddr o.proc.kernel.runningPid)).parent = pcbAddr q ∧
          EndsOnly o.proc.kernel.runningPid q o.proc o'.proc) := by
  rw [Os.step] at hstep
  split at hstep
  case isFalse => cases hstep
  case isTrue hguard =>
    obtain ⟨s', hhandler, rfl⟩ := Option.map_eq_some_iff.mp hstep
    obtain ⟨chars, hx, -⟩ := x.handler_eq
    rw [hx] at hhandler
    obtain ⟨k, hwrite, hhalt, -⟩ := exceptionHandler_done fs hguard.1 hguard.2 hhandler
    obtain ⟨hwritten, hpcb⟩ := h.tidy.write hwrite
    have hhalted := (h.tidy.step hwrite).halt hhalt
    rw [hwritten.runs, hpcb] at hhalted
    refine ⟨fun hroot => hwritten.trans (hhalted.1 hroot), fun hparent => ?_⟩
    obtain ⟨q, hq, hends⟩ := hhalted.2 hparent
    exact ⟨q, hq, hwritten.endsOnly hends⟩

/-- `halt` of the process that runs. -/
def OsEvent.haltNow (k : Kernel) : OsEvent := .machine (.proc (.halt k.tssEsp0))

/-- **`halt` of a process that another one started.** -/
theorem OsReady.child_halts (h : OsReady fs o) {q : Nat} (hq : q ∈ o.proc.live)
    (hparent : (o.proc.kernel.pcb (pcbAddr o.proc.kernel.runningPid)).parent = pcbAddr q) :
    ∃ o', o.step fs (.haltNow o.proc.kernel) = some o' ∧
      EndsOnly o.proc.kernel.runningPid q o.proc o'.proc := by
  have hlive := List.ne_nil_of_mem hq
  obtain ⟨σ, hchains⟩ := h.tidy.ready.chains
  obtain ⟨s, hhalt⟩ := hchains.halts hlive
    (rfl : OnKernelStack o.proc.kernel o.proc.kernel.tssEsp0) fs
  have hlt := h.tidy.lt hq
  obtain ⟨q', hq', hends⟩ := (h.tidy.halt hhalt).2 (by
    rw [hparent]
    exact pcbAddr_ne_zero hlt)
  obtain rfl := pcbAddr_inj hlt (h.tidy.lt hends.mem) (hparent.symm.trans hq')
  exact ⟨{ o with proc := s }, congrArg (Option.map fun s => ({ o with proc := s } : Os)) hhalt,
    hends⟩

end Step

/-! ## Three shells -/

/-- The first shell has started the shell `p`, which starts a third one, and that one halts. -/
structure ThreeShells (p : Nat) (o₁ o₂ o₃ : Os) : Prop where
  reached : ∃ es, (Os.boot .blank (I8259.chip 0xFB) (I8259.chip 0xFF) 0 fun _ => 0).Steps
    shellImage es o₁
  live : o₁.proc.live = [p, 0]
  runs : o₁.proc.kernel.runningPid = p
  parent : (o₁.proc.kernel.pcb (pcbAddr p)).parent = pcbAddr 0
  second : p ≠ 0
  starts : o₁.step shellImage (.startShell o₁.proc.kernel) = some o₂
  third : ∃ r, o₂.proc.live = [r, p, 0] ∧ r ≠ 0 ∧ o₂.proc.kernel.runningPid = r
  halts : o₂.step shellImage (.haltNow o₂.proc.kernel) = some o₃
  after : o₃.proc.live = [p, 0]

theorem exists_three_shells : ∃ p o₁ o₂ o₃, ThreeShells p o₁ o₂ o₃ := by
  obtain ⟨o, hfirst⟩ := exists_system_shell
  obtain ⟨es, hrun⟩ := hfirst.reached
  obtain ⟨o₁, p, hcall₁, hstarts₁⟩ := hfirst.starts
  have hready₁ := hfirst.ready.step hcall₁
  have hlive₁ := hstarts₁.live
  have hnew₁ := hstarts₁.new
  have hparent₁ := hstarts₁.parent
  rw [hfirst.live] at hlive₁ hnew₁
  rw [hfirst.runs] at hparent₁
  have hlength₁ : o₁.proc.live.length = 2 := congrArg List.length hlive₁
  have hne₁ : o₁.proc.live ≠ [] := hlive₁ ▸ List.cons_ne_nil p [0]
  obtain ⟨o₂, r, hcall₂, hstarts₂⟩ := hready₁.shell_starts validShell_shellImage hne₁ (by omega)
  have hlive₂ := hstarts₂.live
  have hnew₂ := hstarts₂.new
  have hparent₂ := hstarts₂.parent
  rw [hlive₁] at hlive₂ hnew₂
  rw [hstarts₁.runs, ← hstarts₂.runs] at hparent₂
  have hp : p ∈ o₂.proc.live := by
    rw [hlive₂]
    exact List.mem_cons_of_mem r (List.mem_cons_self ..)
  obtain ⟨o₃, hhalt, hends⟩ := (hready₁.step hcall₂).child_halts hp hparent₂
  have hlive₃ := hends.live
  rw [hlive₂, hstarts₂.runs, List.erase_cons_head] at hlive₃
  refine ⟨p, o₁, o₂, o₃, ⟨_, hrun.snoc hcall₁⟩, hlive₁, hstarts₁.runs, hparent₁, ?_, hcall₂,
    ⟨r, hlive₂, ?_, hstarts₂.runs⟩, hhalt, hlive₃⟩
  · rintro rfl
    exact hnew₁ (List.mem_cons_self ..)
  · rintro rfl
    exact hnew₂ (List.mem_cons_of_mem p (List.mem_cons_self ..))

/-! ## Runs of the system -/

section Reachable

variable {fs : Image} {m : PowerOn} {master slave : Pic8259} {index : UInt8} {reg : UInt8 → UInt8}
  {es es' : List OsEvent} {o o' : Os}

/-- **A process that waits** while others run, are started and end finds its PCB, with its
descriptors, and its memory as it left them. -/
theorem waiting_process_of_run (hcursor : m.CursorOnScreen)
    (hrun : (Os.boot m master slave index reg).Steps fs es o) {q : Nat} (hq : q ∈ o.proc.live)
    (hothers : o.StepsWithout q fs es' o') : KeepsProcess q o.proc o'.proc :=
  (((osReady_boot fs hcursor master slave index reg).run hrun).idle_run hq hothers).2

/-- The first shell waits while the second one starts a third one, which halts. -/
theorem waiting_process_of_run_shell : ∃ o₁ o₂ o₃ : Os, ∃ e e',
    o₁.step shellImage e = some o₂ ∧ o₂.step shellImage e' = some o₃ ∧
      o₂.proc.live.length = 3 ∧ o₃.proc.live.length = 2 ∧ KeepsProcess 0 o₁.proc o₃.proc := by
  obtain ⟨p, o₁, o₂, o₃, hshells⟩ := exists_three_shells
  obtain ⟨es, hrun⟩ := hshells.reached
  obtain ⟨r, hlive₂, hr, hruns₂⟩ := hshells.third
  have hfirst : 0 ∈ o₁.proc.live := by
    rw [hshells.live]
    exact List.mem_cons_of_mem p (List.mem_cons_self ..)
  have hidle₁ : 0 ≠ o₁.proc.kernel.runningPid := by
    rw [hshells.runs]
    exact hshells.second.symm
  have hidle₂ : 0 ≠ o₂.proc.kernel.runningPid := by
    rw [hruns₂]
    exact hr.symm
  refine ⟨o₁, o₂, o₃, _, _, hshells.starts, hshells.halts, ?_, ?_,
    waiting_process_of_run (by decide) hrun hfirst
      ((Run.single ⟨hshells.starts, hidle₁⟩).snoc ⟨hshells.halts, hidle₂⟩)⟩
  · exact congrArg List.length hlive₂
  · exact congrArg List.length hshells.after

/-- **An exception of the process that runs, in any reachable state** in which the cursor of its
terminal is on the screen: the handler comes to an end, the process that caused the exception ends
and no other, and its caller goes on; when it was a root shell, that shell goes on. -/
theorem exception_of_run (hcursor : m.CursorOnScreen)
    (hrun : (Os.boot m master slave index reg).Steps fs es o) (hlive : o.proc.live ≠ [])
    {esp : Nat} (hesp : OnKernelStack o.proc.kernel esp)
    (hscreen : OnScreen (o.proc.kernel.terminalArr o.proc.kernel.terminalNum)) (x : Exception) :
    ∃ o', o.step fs (.exception x esp) = some o' ∧
      ((o.proc.kernel.pcb (pcbAddr o.proc.kernel.runningPid)).parent = 0 →
        GoesOn o.proc o'.proc) ∧
      ((o.proc.kernel.pcb (pcbAddr o.proc.kernel.runningPid)).parent ≠ 0 →
        ∃ q, (o.proc.kernel.pcb (pcbAddr o.proc.kernel.runningPid)).parent = pcbAddr q ∧
          EndsOnly o.proc.kernel.runningPid q o.proc o'.proc) := by
  have hready := (osReady_boot fs hcursor master slave index reg).run hrun
  obtain ⟨o', hstep⟩ := hready.exception_served hlive hesp hscreen x
  exact ⟨o', hstep, hready.exception hstep⟩

/-- The first shell divides by zero and goes on; a shell that it starts does, and ends. -/
theorem exception_of_run_shells : ∃ o o' o₁ o₁' : Os, ∃ p, o.proc.live = [0] ∧
    o.step shellImage (.exception .divByZero o.proc.kernel.tssEsp0) = some o' ∧
      GoesOn o.proc o'.proc ∧ o₁.proc.live = [p, 0] ∧
    o₁.step shellImage (.exception .divByZero o₁.proc.kernel.tssEsp0) = some o₁' ∧
      EndsOnly p 0 o₁.proc o₁'.proc := by
  obtain ⟨o, hfirst⟩ := exists_system_shell
  obtain ⟨es, hrun⟩ := hfirst.reached
  obtain ⟨o₁, p, hcall, hstarts⟩ := hfirst.starts
  obtain ⟨o', hstep, hroot, -⟩ := exception_of_run (by decide) hrun hfirst.ne_nil rfl
    (hfirst.screen _) .divByZero
  have hlive₁ : o₁.proc.live = [p, 0] := by
    rw [hstarts.live, hfirst.live]
  obtain ⟨o₁', hstep₁, -, hchild⟩ := exception_of_run (by decide) (hrun.snoc hcall)
    (by rw [hlive₁]; exact List.cons_ne_nil p [0]) rfl (hstarts.screen hfirst.screen _) .divByZero
  have hparent := hstarts.parent
  rw [hfirst.runs] at hparent
  rw [hstarts.runs, hparent] at hchild
  obtain ⟨q, hq, hends⟩ := hchild (pcbAddr_ne_zero (by decide))
  obtain rfl := pcbAddr_inj (by decide) ((hfirst.ready.step hcall).tidy.lt hends.mem) hq
  exact ⟨o, o', o₁, o₁', p, hfirst.live, hstep, hroot hfirst.root, hlive₁, hstep₁, hends⟩

end Reachable

end JuddOS
