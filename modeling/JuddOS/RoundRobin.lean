import JuddOS.CallStacks

/-!
# The terminals take turns

The scheduled terminal is the number of ticks, modulo three, and every terminal that has had its
turn has a shell from then on.  Two ticks after the first shell all three are on, and from then on
the timer is always served (`round_robin_of_run`).
-/

namespace JuddOS

open Support X86

/-- The ticks among some events. -/
def ticks (es : List OsEvent) : Nat := es.countP OsEvent.isTick

theorem ticks_concat (es : List OsEvent) (e : OsEvent) :
    ticks (es ++ [e]) = ticks es + if e.isTick then 1 else 0 := by
  rw [ticks, ticks, List.countP_append, List.countP_singleton]

/-- The terminal `n` ticks after terminal `t`. -/
def turn (t : Tid) (n : Nat) : Tid := t + Fin.ofNat 3 n

theorem turn_succ (t : Tid) (n : Nat) : turn t (n + 1) = turn t n + 1 := by
  have hsucc : Fin.ofNat 3 (n + 1) = Fin.ofNat 3 n + 1 := by
    apply Fin.ext
    simp only [Fin.ofNat, Fin.val_add]
    omega
  rw [turn, hsucc, turn, add_assoc]

/-- Three turns in a row are all terminals. -/
theorem exists_turn (t u : Tid) : ∃ i, i ≤ 2 ∧ turn t i = u := by
  revert t u
  decide

section Step

variable {fs : Image} {o o' : Os} {e : OsEvent}

theorem OsReady.terminalNum (h : OsReady fs o) (hstep : o.step fs e = some o') :
    o'.proc.kernel.terminalNum =
      if e.isTick then o.proc.kernel.terminalNum + 1 else o.proc.kernel.terminalNum := by
  obtain ⟨es, hrun, -, ⟨htick, hes⟩ | ⟨exeCheck, esp, ebp, ebpExecute, rfl, rfl⟩⟩ :=
    Os.step_kernelSteps hstep
  · rw [htick]
    exact (h.tidy.slots_of_noTick hrun hes).2.1
  · exact (h.tidy.kernel_slots hrun.of_single).1

/-- A terminal that is on stays on. -/
theorem OsReady.active (h : OsReady fs o) (hstep : o.step fs e = some o') {t : Tid}
    (hactive : (o.proc.kernel.terminalArr t).active = true) :
    (o'.proc.kernel.terminalArr t).active = true := by
  have hne := (h.tidy.stacks.linked.active t).mp hactive
  obtain ⟨above, root, hroot⟩ := (List.eq_nil_or_concat _).resolve_left hne
  rw [List.concat_eq_append] at hroot
  have hstays := (h.root ⟨above, hroot.symm⟩ (Run.single hstep)).1
  refine ((h.step hstep).tidy.stacks.linked.active t).mpr fun hnil => ?_
  rw [Os.callStacks, hnil] at hstays
  cases List.suffix_nil.mp hstays

/-- The scheduled terminal is on. -/
theorem OsReady.scheduled_active (h : OsReady fs o) (hlive : o.proc.live ≠ []) :
    (o.proc.kernel.terminalArr o.proc.kernel.terminalNum).active = true :=
  (h.tidy.running hlive).active

/-- There is a process as soon as a terminal is on. -/
theorem OsReady.ne_nil (h : OsReady fs o) {t : Tid}
    (hactive : (o.proc.kernel.terminalArr t).active = true) : o.proc.live ≠ [] := by
  have hchains := h.tidy.stacks
  obtain ⟨p, hp⟩ := List.exists_mem_of_ne_nil _ ((hchains.linked.active t).mp hactive)
  exact List.ne_nil_of_mem ((hchains.mem_live p).mpr ⟨t, hp⟩)

/-- A process that runs after a tick. -/
theorem OsReady.live (h : OsReady fs o) (hstep : o.step fs e = some o')
    (hlive : o.proc.live ≠ []) : o'.proc.live ≠ [] :=
  (h.step hstep).ne_nil (h.active hstep (h.scheduled_active hlive))

/-- **Turns.**  What holds after some events from `o`. -/
structure Turns (fs : Image) (o : Os) (es : List OsEvent) (b : Os) : Prop where
  ready : OsReady fs b
  live : b.proc.live ≠ []
  terminalNum : b.proc.kernel.terminalNum = turn o.proc.kernel.terminalNum (ticks es)
  active : ∀ i, i ≤ ticks es →
    (b.proc.kernel.terminalArr (turn o.proc.kernel.terminalNum i)).active = true

theorem OsReady.turns (h : OsReady fs o) (hlive : o.proc.live ≠ []) {es : List OsEvent}
    (hrun : o.Steps fs es o') : Turns fs o es o' := by
  refine hrun.invariant_history (Turns fs o) ?_ ?_
  · have hzero : turn o.proc.kernel.terminalNum 0 = o.proc.kernel.terminalNum := add_zero _
    refine ⟨h, hlive, hzero.symm, fun i hi => ?_⟩
    obtain rfl := Nat.le_zero.mp hi
    rw [hzero]
    exact h.scheduled_active hlive
  · intro es a e b ha hstep
    have hready := ha.ready.step hstep
    have hlive' := ha.ready.live hstep ha.live
    have hnum := ha.ready.terminalNum hstep
    have hactive := hready.scheduled_active hlive'
    have hkept : ∀ i, i ≤ ticks es →
        (b.proc.kernel.terminalArr (turn o.proc.kernel.terminalNum i)).active = true :=
      fun i hi => ha.ready.active hstep (ha.active i hi)
    cases htick : e.isTick with
    | false =>
        have hsame : ticks (es ++ [e]) = ticks es := by
          rw [ticks_concat, htick]
          rfl
        rw [htick] at hnum
        exact ⟨hready, hlive', by rw [hsame, ← ha.terminalNum]; exact hnum,
          fun i hi => hkept i (hsame ▸ hi)⟩
    | true =>
        have hnext : ticks (es ++ [e]) = ticks es + 1 := by
          rw [ticks_concat, htick]
          rfl
        rw [htick, if_pos rfl, ha.terminalNum, ← turn_succ] at hnum
        refine ⟨hready, hlive', by rw [hnext]; exact hnum, fun i hi => ?_⟩
        rw [hnext] at hi
        rcases Nat.lt_or_eq_of_le hi with hlt | rfl
        · exact hkept i (Nat.le_of_lt_succ hlt)
        · rw [← hnum]
          exact hactive

end Step

section Reachable

variable {fs : Image} {m : PowerOn} {master slave : Pic8259} {index : UInt8} {reg : UInt8 → UInt8}
  {es es' : List OsEvent} {o o' : Os}

/-- **The terminals take turns**, and once all of them have had one the timer is always served. -/
theorem round_robin_of_run (hcursor : m.CursorOnScreen) (hmaster : master.isr = 0)
    (hslave : slave.isr = 0) (hrun : (Os.boot m master slave index reg).Steps fs es o)
    (hlive : o.proc.live ≠ []) (hmore : o.Steps fs es' o') :
    o'.proc.kernel.terminalNum = turn o.proc.kernel.terminalNum (ticks es') ∧
      (∀ i, i ≤ ticks es' →
        (o'.proc.kernel.terminalArr (turn o.proc.kernel.terminalNum i)).active = true) ∧
      (2 ≤ ticks es' → ∀ exeCheck esp ebp ebpExecute, ∃ o'',
        o'.step fs (.pitIrq exeCheck esp ebp ebpExecute) = some o'') := by
  have hturns := ((osReady_boot fs hcursor master slave index reg).run hrun).turns hlive hmore
  have hlines := ((linesReady_boot m hmaster hslave index reg).run hrun).run hmore
  refine ⟨hturns.terminalNum, hturns.active, fun htwo exeCheck esp ebp ebpExecute => ?_⟩
  obtain ⟨i, hi, hturn⟩ :=
    exists_turn o.proc.kernel.terminalNum (o'.proc.kernel.terminalNum + 1)
  have hnext := hturns.active i (hi.trans htwo)
  rw [hturn] at hnext
  exact hturns.ready.pit_served hlines (.inl hnext) exeCheck esp ebp ebpExecute

/-- Two ticks after the first shell. -/
theorem round_robin_of_run_shells : ∃ o : Os, ∀ exeCheck esp ebp ebpExecute, ∃ o',
    o.step shellImage (.pitIrq exeCheck esp ebp ebpExecute) = some o' := by
  obtain ⟨o, hfirst⟩ := exists_system_shell
  obtain ⟨es, hrun⟩ := hfirst.reached
  have hlength : o.proc.live.length = 1 := congrArg List.length hfirst.live
  obtain ⟨o₁, htick₁⟩ :=
    hfirst.ready.pit_room hfirst.lines validShell_shellImage (by omega) (fun _ => 0) 0 0 0
  obtain ⟨hroom₁, -⟩ := hfirst.ready.tick_length htick₁
  obtain ⟨o₂, htick₂⟩ := (hfirst.ready.step htick₁).pit_room (hfirst.lines.step htick₁)
    validShell_shellImage (by omega) (fun _ => 0) 0 0 0
  exact ⟨o₂, (round_robin_of_run (by decide) rfl rfl hrun hfirst.ne_nil
    ((Run.single htick₁).snoc htick₂)).2.2 (by decide)⟩

end Reachable

end JuddOS
