import JuddOS.Paging
import JuddOS.Support.Run
import JuddOS.X86.Eflags

/-!
# The interrupt flag through `isr_wrapper.S`, `execute`, `halt` and `pit_handler`

What the kernel does to EFLAGS, and where it keeps the flags of the code it will return to.  The
mask that `execute` and `halt` set in the image for a user program is bit 5, not bit 9.

* `Flow.step` is one event.  Interrupts come between any two events that leave IF set.
* `interruptsOn_iff`: from a state in which every user program runs with interrupts enabled, the
  runs that keep it so are those that start no program, halt a root shell with IF set only, and have
  no program that clears IF itself.
-/

namespace JuddOS

open Support X86

/-- `EFLAGS_IF_MASK`. -/
abbrev eflagsIfMask : Eflags := 0x00000020

/-- The wrappers of `isr_wrapper.S` as return addresses of the functions they call. -/
inductive Wrapper
  | systemCall | irqPit | irqOther | exception
  deriving DecidableEq

/-- The kernel stack of a process, and those of its ancestors, which wait in `execute`. -/
structure KernelStacks where
  stack : List (Saved Wrapper)
  callers : List (List (Saved Wrapper))

/-- The processor, on the kernel stack of the current process; the waiting stacks of the current
terminal; and for each terminal whether it is on, and where it was left. -/
structure Flow where
  cpu : Cpu Wrapper
  callers : List (List (Saved Wrapper))
  current : Tid
  active : Tid → Bool
  parked : Tid → KernelStacks

/-- The exits of `SYSTEM_CALL` and of the other wrappers. -/
inductive Exit
  /-- `DONE_`, and the end of the wrappers of the interrupts. -/
  | done
  /-- `INVALID_CALL` and `SYSCALL_FAIL`. -/
  | fail
  deriving DecidableEq

/-- What happens next. -/
inductive FlagEvent
  /-- The user program changes the flags. -/
  | userCode (f : Eflags)
  /-- Kernel code changes the status flags. -/
  | kernelCode (f : Eflags)
  /-- `cli()` and `sti()` in the C code. -/
  | cli
  | sti
  /-- `int $0x80`, up to the `sti` of the wrapper. -/
  | systemCall
  /-- The wrapper calls the C function. -/
  | dispatch
  /-- A C function returns to its wrapper. -/
  | returns
  /-- The wrapper leaves. -/
  | leave (exit : Exit)
  /-- An interrupt of the timer or of another device. -/
  | irq (wrapper : Wrapper)
  | exception
  /-- `execute` launches a program. -/
  | start
  /-- `halt` ends the current process. -/
  | halt
  /-- `pit_handler` goes to the next terminal. -/
  | tick

/-- `execute` from its `cli` on, as far as it touches EFLAGS. -/
def launch : List (Instr Wrapper) := [.cli, .pushfl, .userFrame eflagsIfMask, .iret]

/-- The restart of a root shell in `halt`. -/
def restart : List (Instr Wrapper) := [.pushfl, .userFrame eflagsIfMask, .iret]

/-- The end of a wrapper. -/
def Exit.code : Exit → List (Instr Wrapper)
  | .done => [.popfl, .iret]
  | .fail => [.sti, .popfl, .iret]

/-- `halt` is called by the wrapper of a system call or by the handler of an exception. -/
def calledFrom : List (Saved Wrapper) → Option Wrapper
  | .ret wrapper :: _ => some wrapper
  | _ => none

namespace Flow

/-- The processor runs kernel code. -/
def inKernel (s : Flow) (is : List (Instr Wrapper)) : Option Flow :=
  if s.cpu.user then none else (s.cpu.run is).map fun cpu => { s with cpu := cpu }

/-- A user program is launched on the current terminal: a root shell when the terminal is off.  Its
own kernel stack is empty. -/
def launchProgram (s : Flow) : Option Flow :=
  (s.inKernel launch).map fun s' =>
    { s' with
      cpu := { s'.cpu with stack := [] }
      callers := if s.active s.current = false then [] else s.cpu.stack :: s.callers
      active := Function.update s.active s.current true }

/-- One event. -/
def step (e : FlagEvent) (s : Flow) : Option Flow :=
  match e with
  | .userCode f =>
      if s.cpu.user ∧ f.iopl = s.cpu.eflags.iopl ∧
          (s.cpu.eflags.iopl = 3#2 ∨ f.interrupt = s.cpu.eflags.interrupt) then
        some { s with cpu := { s.cpu with eflags := f } }
      else none
  | .kernelCode f =>
      if s.cpu.user = false ∧ f.iopl = s.cpu.eflags.iopl ∧
          f.interrupt = s.cpu.eflags.interrupt then
        some { s with cpu := { s.cpu with eflags := f } }
      else none
  | .cli => s.inKernel [.cli]
  | .sti => s.inKernel [.sti]
  | .systemCall =>
      if s.cpu.user then
        { s with cpu := s.cpu.enter .interrupt }.inKernel [.cli, .pushfl, .sti]
      else none
  | .dispatch => s.inKernel [.call .systemCall]
  | .returns => s.inKernel [.ret]
  | .leave exit => s.inKernel exit.code
  | .irq wrapper =>
      if s.cpu.eflags.interrupt ∧ (wrapper = .irqPit ∨ wrapper = .irqOther) then
        { s with cpu := s.cpu.enter .trap }.inKernel [.pushfl, .call wrapper]
      else none
  | .exception => { s with cpu := s.cpu.enter .trap }.inKernel [.pushfl, .call .exception]
  | .start =>
      -- from a system call, or from `entry` on the stack of the boot loader
      if calledFrom s.cpu.stack = some .systemCall ∨ s.active s.current = false then
        s.launchProgram
      else none
  | .halt =>
      if calledFrom s.cpu.stack = some .systemCall ∨ calledFrom s.cpu.stack = some .exception then
        match s.callers with
        | [] => (s.inKernel restart).map fun s => { s with cpu := { s.cpu with stack := [] } }
        | parent :: rest =>
            if s.cpu.user then none
            else some { s with cpu := { s.cpu with stack := parent }, callers := rest }
      else none
  | .tick =>
      if calledFrom s.cpu.stack = some .irqPit ∧ s.cpu.user = false then
        let next := s.current + 1
        let s := { s with
          current := next
          parked := Function.update s.parked s.current ⟨s.cpu.stack, s.callers⟩ }
        if s.active next = false then s.launchProgram
        else some { s with
          cpu := { s.cpu with stack := (s.parked next).stack }
          callers := (s.parked next).callers }
      else none

/-- A user program that runs has interrupts enabled. -/
def InterruptsOn (s : Flow) : Prop := s.cpu.user = true → s.cpu.eflags.interrupt = true

end Flow

/-- The flags that a stack holds for user programs have IF set. -/
def FramesOn (stack : List (Saved Wrapper)) : Prop :=
  ∀ f, Saved.frame f true ∈ stack → f.interrupt = true

/-- Every user program has interrupts enabled, where it runs or where it will go on. -/
structure Flow.Enabled (s : Flow) : Prop where
  user : s.InterruptsOn
  stack : FramesOn s.cpu.stack
  callers : ∀ stack ∈ s.callers, FramesOn stack
  parked : ∀ t, FramesOn (s.parked t).stack ∧ ∀ stack ∈ (s.parked t).callers, FramesOn stack

/-- The condition on an event. -/
def Flow.KeepsInterruptsOn (s : Flow) : FlagEvent → Prop
  | .userCode f => f.interrupt = true
  | .start => False
  | .halt => s.callers = [] → s.cpu.eflags.interrupt = true
  | .tick => s.active (s.current + 1) = true
  | _ => True

/-- When `entry` has set up the kernel. -/
def Flow.boot (f : Eflags) : Flow where
  cpu := { eflags := f, user := false, stack := [] }
  callers := []
  current := 0
  active _ := false
  parked _ := ⟨[], []⟩

theorem framesOn_nil : FramesOn [] := fun _ hf => absurd hf List.not_mem_nil

theorem Flow.boot_enabled (f : Eflags) : (Flow.boot f).Enabled where
  user := fun huser => absurd huser Bool.false_ne_true
  stack := framesOn_nil
  callers := fun _ hmem => absurd hmem List.not_mem_nil
  parked := fun _ => ⟨framesOn_nil, fun _ hmem => absurd hmem List.not_mem_nil⟩

/-! ## Kernel code -/

theorem framesOn_cons {w : Saved Wrapper} {stack : List (Saved Wrapper)} :
    FramesOn (w :: stack) ↔ (∀ f, w = .frame f true → f.interrupt = true) ∧ FramesOn stack := by
  constructor
  · intro h
    exact ⟨fun f hw => h f (hw ▸ List.mem_cons_self), fun f hf => h f (List.mem_cons_of_mem w hf)⟩
  · rintro ⟨hw, hstack⟩ f hf
    rcases List.mem_cons.mp hf with heq | hmem
    · exact hw f heq.symm
    · exact hstack f hmem

/-- A processor on a stack whose frames for user mode have IF set, with IF set if it is in user
mode itself. -/
def CpuOn (c : Cpu Wrapper) : Prop :=
  (c.user = true → c.eflags.interrupt = true) ∧ FramesOn c.stack

/-- The instructions of the wrappers, which are all but the one that builds a frame. -/
theorem exec_on {c c' : Cpu Wrapper} {i : Instr Wrapper} (h : CpuOn c) (hkernel : c.user = false)
    (hi : ∀ mask, i ≠ .userFrame mask) (hexec : c.exec i = some c') :
    CpuOn c' ∧ (i ≠ .iret → c'.user = false) := by
  have hquiet : ∀ {c₁ : Cpu Wrapper}, c₁.user = false → FramesOn c₁.stack →
      CpuOn c₁ ∧ (i ≠ .iret → c₁.user = false) :=
    fun huser hstack =>
      ⟨⟨fun ht => absurd (huser.symm.trans ht) Bool.false_ne_true, hstack⟩, fun _ => huser⟩
  unfold Cpu.exec at hexec
  cases i with
  | cli =>
      dsimp only at hexec
      split at hexec
      · cases hexec
        exact hquiet hkernel h.2
      · cases hexec
  | sti =>
      dsimp only at hexec
      split at hexec
      · cases hexec
        exact hquiet hkernel h.2
      · cases hexec
  | pushfl =>
      cases hexec
      exact hquiet hkernel (framesOn_cons.mpr ⟨fun _ hw => (nomatch hw), h.2⟩)
  | popfl =>
      dsimp only at hexec
      split at hexec
      · rename_i hstack
        cases hexec
        have hframes := h.2
        rw [hstack, framesOn_cons] at hframes
        exact hquiet hkernel hframes.2
      · cases hexec
  | call address =>
      cases hexec
      exact hquiet hkernel (framesOn_cons.mpr ⟨fun _ hw => (nomatch hw), h.2⟩)
  | ret =>
      dsimp only at hexec
      split at hexec
      · rename_i hstack
        cases hexec
        have hframes := h.2
        rw [hstack, framesOn_cons] at hframes
        exact hquiet hkernel hframes.2
      · cases hexec
  | iret =>
      dsimp only at hexec
      split at hexec
      · rename_i f user rest hstack
        rw [if_neg (by simp [hkernel])] at hexec
        cases hexec
        have hframes := h.2
        rw [hstack, framesOn_cons] at hframes
        -- What is popped for user mode was on the stack, so it has IF set.
        refine ⟨⟨fun huser => hframes.1 f ?_, hframes.2⟩, fun hne => absurd rfl hne⟩
        rw [show user = true from huser]
      · cases hexec
  | userFrame mask => exact absurd rfl (hi mask)

/-- A sequence of them, with `iret` only at its end. -/
theorem run_on {is : List (Instr Wrapper)} {c c' : Cpu Wrapper} (h : CpuOn c)
    (hkernel : c.user = false) (hframe : ∀ i ∈ is, ∀ mask, i ≠ .userFrame mask)
    (hiret : ∀ i ∈ is.dropLast, i ≠ .iret) (hrun : c.run is = some c') : CpuOn c' := by
  induction is generalizing c with
  | nil =>
      cases hrun
      exact h
  | cons i is ih =>
      unfold Cpu.run at hrun
      rw [Option.bind_eq_some_iff] at hrun
      obtain ⟨c₁, hexec, hrest⟩ := hrun
      obtain ⟨h₁, hstays⟩ := exec_on h hkernel (hframe i List.mem_cons_self) hexec
      cases is with
      | nil =>
          cases hrest
          exact h₁
      | cons j js =>
          have hi : i ≠ .iret := hiret i List.mem_cons_self
          exact ih h₁ (hstays hi) (fun k hk => hframe k (List.mem_cons_of_mem i hk))
            (fun k hk => hiret k (List.mem_cons_of_mem i hk)) hrest

/-- The flags with which a program is launched: IF is clear, because of the `cli` of `execute`. -/
theorem launch_run {c : Cpu Wrapper} (hkernel : c.user = false) :
    c.run launch = some
      { eflags := c.eflags.clear 9 ||| eflagsIfMask, user := true, stack := c.stack } := by
  have hmay : c.MayTouchIf := fun huser => absurd (hkernel.symm.trans huser) Bool.false_ne_true
  simp [launch, Cpu.run, Cpu.exec, hmay, hkernel]

/-- The flags with which a root shell is started again: IF is as `halt` found it. -/
theorem restart_run {c : Cpu Wrapper} (hkernel : c.user = false) :
    c.run restart = some
      { eflags := c.eflags ||| eflagsIfMask, user := true, stack := c.stack } := by
  simp [restart, Cpu.run, Cpu.exec, hkernel]

/-- The mask does not touch IF. -/
theorem interrupt_or_mask (f : Eflags) : (f ||| eflagsIfMask).interrupt = f.interrupt := by
  have hmask : eflagsIfMask.interrupt = false := rfl
  rw [Eflags.interrupt_or, hmask, Bool.or_false]

/-! ## Events -/

theorem Flow.inKernel_cases {s s' : Flow} {is : List (Instr Wrapper)}
    (h : s.inKernel is = some s') :
    s.cpu.user = false ∧ ∃ cpu, s.cpu.run is = some cpu ∧ s' = { s with cpu := cpu } := by
  unfold Flow.inKernel at h
  split at h
  · cases h
  · rename_i huser
    rw [Option.map_eq_some_iff] at h
    obtain ⟨cpu, hrun, rfl⟩ := h
    exact ⟨Bool.eq_false_iff.mpr huser, cpu, hrun, rfl⟩

theorem Flow.Enabled.cpuOn {s : Flow} (h : s.Enabled) : CpuOn s.cpu := ⟨h.user, h.stack⟩

/-- Only the processor changes. -/
theorem Flow.Enabled.withCpu {s : Flow} (h : s.Enabled) {cpu : Cpu Wrapper} (hcpu : CpuOn cpu) :
    Flow.Enabled { s with cpu := cpu } := ⟨hcpu.1, hcpu.2, h.callers, h.parked⟩

/-- Code of a wrapper. -/
theorem Flow.Enabled.inKernel {s s' : Flow} (h : s.Enabled) {is : List (Instr Wrapper)}
    (hframe : ∀ i ∈ is, ∀ mask, i ≠ .userFrame mask) (hiret : ∀ i ∈ is.dropLast, i ≠ .iret)
    (hstep : s.inKernel is = some s') : s'.Enabled := by
  obtain ⟨hkernel, cpu, hrun, rfl⟩ := Flow.inKernel_cases hstep
  exact h.withCpu (run_on h.cpuOn hkernel hframe hiret hrun)

/-- Entry through a gate saves flags that have IF set if they are those of a user program. -/
theorem Flow.Enabled.enter {s : Flow} (h : s.Enabled) (gate : Gate) :
    Flow.Enabled { s with cpu := s.cpu.enter gate } := by
  refine h.withCpu ⟨fun huser => absurd huser Bool.false_ne_true, framesOn_cons.mpr ⟨?_, ?_⟩⟩
  · intro f hf
    injection hf with heflags huser
    rw [← heflags]
    exact h.user huser
  · split
    · exact framesOn_nil
    · exact h.stack

/-- A launch enters user mode with IF clear. -/
theorem Flow.launchProgram_off {s s' : Flow} (h : s.launchProgram = some s') :
    ¬ s'.InterruptsOn := by
  unfold Flow.launchProgram at h
  rw [Option.map_eq_some_iff] at h
  obtain ⟨s₁, hrun, rfl⟩ := h
  obtain ⟨hkernel, cpu, hcpu, rfl⟩ := Flow.inKernel_cases hrun
  rw [launch_run hkernel] at hcpu
  cases hcpu
  intro hon
  have hset := hon rfl
  dsimp only at hset
  rw [interrupt_or_mask, Eflags.interrupt_clear_self] at hset
  cases hset

/-- An event that keeps the invariant and meets the condition. -/
theorem Flow.Enabled.kept {s s₁ : Flow} {e : FlagEvent} (h₁ : s₁.Enabled)
    (hkeeps : s.KeepsInterruptsOn e) :
    (s₁.InterruptsOn ↔ s.KeepsInterruptsOn e) ∧ (s₁.InterruptsOn → s₁.Enabled) :=
  ⟨iff_of_true h₁.user hkeeps, fun _ => h₁⟩

/-- An event that leaves IF clear and does not. -/
theorem Flow.broken {s s₁ : Flow} {e : FlagEvent} (hbreaks : ¬ s.KeepsInterruptsOn e)
    (hoff : ¬ s₁.InterruptsOn) :
    (s₁.InterruptsOn ↔ s.KeepsInterruptsOn e) ∧ (s₁.InterruptsOn → s₁.Enabled) :=
  ⟨iff_of_false hoff hbreaks, fun hon => absurd hon hoff⟩

/-- A shell that is restarted gets IF as `halt` found it; a parent returns as it waited. -/
theorem Flow.step_halt {s s' : Flow} (h : s.Enabled) (hstep : s.step .halt = some s') :
    (s'.InterruptsOn ↔ s.KeepsInterruptsOn .halt) ∧ (s'.InterruptsOn → s'.Enabled) := by
  unfold Flow.step at hstep
  dsimp only at hstep
  split at hstep
  · split at hstep
    · rename_i hroot
      rw [Option.map_eq_some_iff] at hstep
      obtain ⟨s₁, hrun, rfl⟩ := hstep
      obtain ⟨hkernel, cpu, hcpu, rfl⟩ := Flow.inKernel_cases hrun
      rw [restart_run hkernel] at hcpu
      cases hcpu
      have hflag : ∀ set : Bool, (s.cpu.eflags ||| eflagsIfMask).interrupt = set ↔
          s.cpu.eflags.interrupt = set := fun set => by rw [interrupt_or_mask]
      refine ⟨⟨fun hon _ => (hflag true).mp (hon rfl),
        fun hkeeps _ => (hflag true).mpr (hkeeps hroot)⟩, fun hon => ?_⟩
      exact h.withCpu ⟨fun huser => hon huser, framesOn_nil⟩
    · rename_i parent rest hcallers
      split at hstep
      · cases hstep
      · rename_i huser
        cases hstep
        have hparent := h.callers parent (by rw [hcallers]; exact List.mem_cons_self)
        refine Flow.Enabled.kept ⟨fun ht => absurd ht huser, hparent, ?_, h.parked⟩ fun hroot => ?_
        · intro stack hmem
          exact h.callers stack (by rw [hcallers]; exact List.mem_cons_of_mem parent hmem)
        · rw [hcallers] at hroot
          cases hroot
  · cases hstep

/-- A tick launches a shell on a terminal that has none, and parks the stacks of the terminal it
leaves otherwise. -/
theorem Flow.step_tick {s s' : Flow} (h : s.Enabled) (hstep : s.step .tick = some s') :
    (s'.InterruptsOn ↔ s.KeepsInterruptsOn .tick) ∧ (s'.InterruptsOn → s'.Enabled) := by
  unfold Flow.step at hstep
  dsimp only at hstep
  split at hstep
  · rename_i hpit
    split at hstep
    · rename_i hoff
      refine Flow.broken (fun hon => ?_) (Flow.launchProgram_off hstep)
      rw [show s.active (s.current + 1) = true from hon] at hoff
      cases hoff
    · rename_i hon
      cases hstep
      have hparked : ∀ t,
          FramesOn (Function.update s.parked s.current ⟨s.cpu.stack, s.callers⟩ t).stack ∧
            ∀ stack ∈ (Function.update s.parked s.current ⟨s.cpu.stack, s.callers⟩ t).callers,
              FramesOn stack := by
        intro t
        by_cases ht : t = s.current
        · rw [ht, Function.update_self]
          exact ⟨h.stack, h.callers⟩
        · rw [Function.update_of_ne ht]
          exact h.parked t
      exact Flow.Enabled.kept
        ⟨fun huser => absurd (hpit.2.symm.trans huser) Bool.false_ne_true,
          (hparked _).1, (hparked _).2, hparked⟩ (Bool.eq_true_of_not_eq_false hon)
  · cases hstep

/-- **One event** from a state in which every user program has interrupts enabled: it stays so
exactly under the condition, and then for the programs that wait, too. -/
theorem Flow.step_interruptsOn {s s' : Flow} {e : FlagEvent} (h : s.Enabled)
    (hstep : s.step e = some s') :
    (s'.InterruptsOn ↔ s.KeepsInterruptsOn e) ∧ (s'.InterruptsOn → s'.Enabled) := by
  cases e with
  | halt => exact Flow.step_halt h hstep
  | tick => exact Flow.step_tick h hstep
  | userCode f =>
      unfold Flow.step at hstep
      dsimp only at hstep
      split at hstep
      · rename_i hmay
        cases hstep
        exact ⟨⟨fun hon => hon hmay.1, fun hset _ => hset⟩,
          fun hon => h.withCpu ⟨fun huser => hon huser, h.stack⟩⟩
      · cases hstep
  | kernelCode f =>
      unfold Flow.step at hstep
      dsimp only at hstep
      split at hstep
      · rename_i hmay
        cases hstep
        refine Flow.Enabled.kept (h.withCpu ⟨fun huser => ?_, h.stack⟩) trivial
        exact absurd (hmay.1.symm.trans huser) Bool.false_ne_true
      · cases hstep
  | cli => exact (h.inKernel (by simp) (by simp) hstep).kept trivial
  | sti => exact (h.inKernel (by simp) (by simp) hstep).kept trivial
  | systemCall =>
      unfold Flow.step at hstep
      dsimp only at hstep
      split at hstep
      · exact ((h.enter .interrupt).inKernel (by simp) (by simp) hstep).kept trivial
      · cases hstep
  | dispatch => exact (h.inKernel (by simp) (by simp) hstep).kept trivial
  | returns => exact (h.inKernel (by simp) (by simp) hstep).kept trivial
  | leave exit =>
      cases exit with
      | done =>
          exact (h.inKernel (by simp [Exit.code]) (by simp [Exit.code]) hstep).kept trivial
      | fail =>
          exact (h.inKernel (by simp [Exit.code]) (by simp [Exit.code]) hstep).kept trivial
  | irq wrapper =>
      unfold Flow.step at hstep
      dsimp only at hstep
      split at hstep
      · exact ((h.enter .trap).inKernel (by simp) (by simp) hstep).kept trivial
      · cases hstep
  | exception => exact ((h.enter .trap).inKernel (by simp) (by simp) hstep).kept trivial
  | start =>
      unfold Flow.step at hstep
      dsimp only at hstep
      split at hstep
      · exact Flow.broken id (Flow.launchProgram_off hstep)
      · cases hstep

/-- **Interrupts stay enabled in user mode** through a whole run exactly when no event of the run
launches a program, restarts a root shell with IF clear, or is a program that clears IF. -/
theorem interruptsOn_iff {start s : Flow} {es : List FlagEvent} (hstart : start.Enabled) :
    Run (fun a e b => a.step e = some b ∧ b.InterruptsOn) start es s ↔
      Run (fun a e b => a.step e = some b ∧ a.KeepsInterruptsOn e) start es s :=
  Run.and_iff Flow.Enabled hstart
    (fun a e b ha (hstep : a.step e = some b) => (Flow.step_interruptsOn ha hstep).1)
    (fun _ _ _ ha hstep hon => (Flow.step_interruptsOn ha hstep).2 hon)

/-- A root shell runs on terminal 0 with interrupts enabled. -/
def Flow.shellRunning : Flow where
  cpu := { eflags := 0x202, user := true, stack := [] }
  callers := []
  current := 0
  active := Function.update (fun _ => false) 0 true
  parked _ := ⟨[], []⟩

theorem Flow.shellRunning_enabled : Flow.shellRunning.Enabled where
  user := fun _ => rfl
  stack := framesOn_nil
  callers := fun _ hmem => absurd hmem List.not_mem_nil
  parked := fun _ => ⟨framesOn_nil, fun _ hmem => absurd hmem List.not_mem_nil⟩

/-- The shell makes a system call, which returns. -/
theorem interruptsOn_systemCall :
    Run (fun a e b => a.step e = some b ∧ b.InterruptsOn) Flow.shellRunning
      [.systemCall, .dispatch, .returns, .leave .done] Flow.shellRunning :=
  (interruptsOn_iff Flow.shellRunning_enabled).mpr
    ((((Run.single ⟨rfl, trivial⟩).snoc ⟨rfl, trivial⟩).snoc ⟨rfl, trivial⟩).snoc ⟨rfl, trivial⟩)

/-- The first shell is launched after `sti`, and runs with IF clear. -/
theorem first_shell_interrupts_off :
    ¬ ∀ (f : Eflags) (es : List FlagEvent) (s : Flow),
      Run (fun a e b => a.step e = some b) (Flow.boot f) es s → s.InterruptsOn := by
  intro hall
  have hstart : (Flow.boot 0x202).launchProgram = (Flow.boot 0x202).step .start := rfl
  obtain ⟨s, hs⟩ := Option.isSome_iff_exists.mp
    (show ((Flow.boot 0x202).step .start).isSome = true from rfl)
  exact Flow.launchProgram_off (hstart.trans hs) (hall 0x202 [.start] s (.single hs))

end JuddOS
