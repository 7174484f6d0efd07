import JuddOS.OpenExact
import JuddOS.System
import JuddOS.TimerSwitch

/-!
# The interrupt lines while the system runs

`entry` leaves the lines of the timer, the keyboard and the slave enabled, and the slave as it
found it.  `LinesReady` is the state of the two controllers between two events: the masks are
those, the vectors are the ones that `init_idt` fills, and no line is in service, so no handler
has forgotten to acknowledge its interrupt.
-/

namespace JuddOS

open Support X86

namespace I8259

/-- The controllers between two events; `slaveImr` is the mask of the slave before `entry`. -/
structure LinesReady (slaveImr : UInt8) (s : I8259) : Prop where
  masterImr : s.master.imr = 0xF8
  slaveImr : s.slave.imr = slaveImr
  masterIsr : s.master.isr = 0
  slaveIsr : s.slave.isr = 0
  masterVector : s.master.vector = 0x20
  slaveVector : s.slave.vector = 0x28

theorem writeData_isr (p : Pic8259) (word : UInt8) : (p.writeData word).isr = p.isr := by
  rw [Pic8259.writeData]
  cases p.phase <;> rfl

/-- A chip after its initialisation. -/
def initialised (p : Pic8259) (vector icw3 : UInt8) : Pic8259 :=
  { p with
    imr := 0, phase := .mask, single := false, needsIcw4 := true, vector := vector
    icw3 := icw3, icw4 := icw4, specialMask := false, readIsr := false, lowest := 7 }

theorem initialise_eq (p : Pic8259) (vector icw3 : UInt8) :
    (((p.writeCommand icw1).writeData vector).writeData icw3).writeData icw4 =
      initialised p vector icw3 := by
  have hstart : p.writeCommand icw1 =
      { p with
        imr := 0, phase := .icw2, single := false, needsIcw4 := true
        specialMask := false, readIsr := false, lowest := 7 } := rfl
  rw [hstart]
  rfl

/-- The masks of the first three lines of the master. -/
theorem enable_two (s : I8259) : enableIrq 2 s =
    { s with
      masterMask := s.masterMask &&& 0xFB
      master := s.master.writeData (s.masterMask &&& 0xFB) } := rfl

theorem enable_one (s : I8259) : enableIrq 1 s =
    { s with
      masterMask := s.masterMask &&& 0xFD
      master := s.master.writeData (s.masterMask &&& 0xFD) } := rfl

theorem enable_zero (s : I8259) : enableIrq 0 s =
    { s with
      masterMask := s.masterMask &&& 0xFE
      master := s.master.writeData (s.masterMask &&& 0xFE) } := rfl

theorem linesReady_init {master slave : Pic8259} (hmaster : master.isr = 0)
    (hslave : slave.isr = 0) :
    LinesReady slave.imr (enableIrq 0 (enableIrq 1 (i8259Init (unset master slave)))) := by
  have hmaster' := (writeData_isr master maskAll).trans hmaster
  have hslave' := (writeData_isr slave maskAll).trans hslave
  unfold i8259Init unset
  dsimp only
  generalize master.writeData maskAll = p at *
  generalize slave.writeData maskAll = q at *
  rw [initialise_eq, initialise_eq, enable_zero, enable_one, enable_two]
  have hp : (initialised p icw2Master icw3Master).phase = .mask := rfl
  have hq : (initialised q icw2Slave icw3Slave).phase = .mask := rfl
  simp only [Pic8259.writeData, hp, hq]
  exact ⟨show (~~~0 &&& 0xFB &&& 0xFD &&& 0xFE : UInt8) = 0xF8 by decide, rfl, hmaster', hslave',
    rfl, rfl⟩

/-- **A handler ends the interrupt it serves.** -/
theorem LinesReady.served {s : I8259} {mask : UInt8} (h : LinesReady mask s) {n : Nat}
    (hn : n < 16) : LinesReady mask ((s.acknowledge n).sendEoi (UInt32.ofNat n)) := by
  have hended : ∀ b : UInt8, (0 ||| b) &&& ~~~ b = 0 := by simp
  unfold acknowledge
  split
  case isTrue hmaster =>
    rw [sendEoi_master _ hmaster]
    refine ⟨h.masterImr, h.slaveImr, ?_, h.slaveIsr, h.masterVector, h.slaveVector⟩
    show (s.master.isr ||| _) &&& ~~~ _ = 0
    rw [h.masterIsr]
    exact hended _
  case isFalse hslave =>
    rw [sendEoi_slave _ (Nat.le_of_not_lt hslave) hn]
    refine ⟨h.masterImr, h.slaveImr, ?_, ?_, h.masterVector, h.slaveVector⟩
    · show (s.master.isr ||| _) &&& ~~~ _ = 0
      rw [h.masterIsr]
      exact hended _
    · show (s.slave.isr ||| _) &&& ~~~ _ = 0
      rw [h.slaveIsr]
      exact hended _

/-- A second acknowledgement finds no line in service. -/
theorem LinesReady.sendEoi {s : I8259} {mask : UInt8} (h : LinesReady mask s) {n : Nat}
    (hn : n < 16) : LinesReady mask (s.sendEoi (UInt32.ofNat n)) := by
  have hzero : ∀ b : UInt8, 0 &&& b = 0 := fun b => UInt8.zero_and
  rcases Nat.lt_or_ge n 8 with hmaster | hslave
  · rw [sendEoi_master _ hmaster]
    refine ⟨h.masterImr, h.slaveImr, ?_, h.slaveIsr, h.masterVector, h.slaveVector⟩
    show s.master.isr &&& _ = 0
    rw [h.masterIsr, hzero]
  · rw [sendEoi_slave _ hslave hn]
    refine ⟨h.masterImr, h.slaveImr, ?_, ?_, h.masterVector, h.slaveVector⟩
    · show s.master.isr &&& _ = 0
      rw [h.masterIsr, hzero]
    · show s.slave.isr &&& _ = 0
      rw [h.slaveIsr, hzero]

end I8259

/-! ## The system -/

theorem rtcInit_irq (r : Rtc) : (rtcInit r).irq = r.irq := by
  unfold rtcInit
  simp only [Rtc.enableIrq_rtcPort, Rtc.disableIrq_rtcPort]
  rfl

theorem linesReady_boot (m : PowerOn) {master slave : Pic8259} (hmaster : master.isr = 0)
    (hslave : slave.isr = 0) (index : UInt8) (reg : UInt8 → UInt8) :
    (Os.boot m master slave index reg).rtc.irq.LinesReady slave.imr := by
  have hready := I8259.linesReady_init hmaster hslave
  rw [Os.boot, entryDevices]
  dsimp only
  rw [Rtc.enableIrq, rtcInit_irq]
  exact hready

/-- **The controllers after an event**: nothing has changed, or the interrupt of a line was served,
with one acknowledgement or two. -/
theorem Os.step_irq {fs : Image} {o o' : Os} {e : OsEvent} (hstep : o.step fs e = some o') :
    o'.rtc.irq = o.rtc.irq ∨ ∃ n, n < 16 ∧
      (o'.rtc.irq = (o.rtc.irq.acknowledge n).sendEoi (UInt32.ofNat n) ∨
        o'.rtc.irq =
          ((o.rtc.irq.acknowledge n).sendEoi (UInt32.ofNat n)).sendEoi (UInt32.ofNat n)) := by
  have haccept : ∀ {n : Nat} {r : Rtc}, o.accept n = some r → r.irq = o.rtc.irq.acknowledge n := by
    intro n r h
    rw [Os.accept] at h
    split at h
    case isFalse => cases h
    case isTrue =>
      cases h
      rfl
  cases e with
  | machine e =>
      rw [Os.step] at hstep
      split at hstep
      case isTrue => cases hstep
      case isFalse =>
        obtain ⟨s, -, rfl⟩ := Option.map_eq_some_iff.mp hstep
        exact .inl rfl
  | call c stale esp =>
      rw [Os.step] at hstep
      split at hstep
      case isFalse => cases hstep
      case isTrue =>
        have hchange := c.change fs stale esp o.io
        cases hreply : c.run fs stale (fun _ io => io) esp o.io with
        | returned v r io =>
            rw [hreply] at hstep hchange
            cases hstep
            exact .inl hchange.irq
        | waiting | nullCall | fault =>
            rw [hreply] at hstep
            cases hstep
  | exception x esp =>
      rw [Os.step] at hstep
      split at hstep
      case isFalse => cases hstep
      case isTrue =>
        obtain ⟨s, -, rfl⟩ := Option.map_eq_some_iff.mp hstep
        exact .inl rfl
  | keyboardIrq scan past =>
      rw [Os.step] at hstep
      obtain ⟨r, hr, hstep⟩ := Option.bind_eq_some_iff.mp hstep
      obtain ⟨⟨k, r'⟩, hkey, hstep⟩ := Option.bind_eq_some_iff.mp hstep
      cases hstep
      obtain ⟨k', -, heq⟩ := Option.map_eq_some_iff.mp hkey
      cases heq
      refine .inr ⟨1, by decide, .inl ?_⟩
      rw [← haccept hr]
      rfl
  | rtcIrq =>
      rw [Os.step] at hstep
      obtain ⟨r, hr, hstep⟩ := Option.bind_eq_some_iff.mp hstep
      cases hstep
      refine .inr ⟨8, by decide, .inr ?_⟩
      rw [← haccept hr]
      rfl
  | pitIrq exeCheck esp ebp ebpExecute =>
      rw [Os.step] at hstep
      obtain ⟨r, hr, hstep⟩ := Option.bind_eq_some_iff.mp hstep
      refine .inr ⟨0, by decide, .inr ?_⟩
      rw [← haccept hr]
      dsimp only [irqPitHandler] at hstep
      cases hout : pitHandler fs exeCheck esp ebp ebpExecute o.proc.kernel <;>
        rw [hout] at hstep <;> cases hstep <;> rfl

theorem I8259.LinesReady.step {fs : Image} {o o' : Os} {e : OsEvent} {mask : UInt8}
    (h : o.rtc.irq.LinesReady mask) (hstep : o.step fs e = some o') :
    o'.rtc.irq.LinesReady mask := by
  rcases Os.step_irq hstep with hsame | ⟨n, hn, hserved | hserved⟩
  · rw [hsame]
    exact h
  · rw [hserved]
    exact h.served hn
  · rw [hserved]
    exact (h.served hn).sendEoi hn

theorem I8259.LinesReady.run {fs : Image} {o o' : Os} {es : List OsEvent} {mask : UInt8}
    (h : o.rtc.irq.LinesReady mask) (hrun : o.Steps fs es o') : o'.rtc.irq.LinesReady mask :=
  hrun.invariant (fun o => o.rtc.irq.LinesReady mask) h fun _ _ _ ha hstep => ha.step hstep

/-- The lines of the timer and of the keyboard are enabled. -/
theorem I8259.LinesReady.delivers {s : I8259} {mask : UInt8} (h : LinesReady mask s) :
    s.Delivers 0 ∧ s.Delivers 1 ∧ (s.Delivers 8 ↔ Pic8259.bit mask 0 = false) := by
  have hmasked : ∀ n, n < 8 → s.lineMasked n = Pic8259.bit 0xF8 n := by
    intro n hn
    rw [lineMasked, if_pos hn, Pic8259.masked, h.masterImr]
  have hclock : s.lineMasked 8 = Pic8259.bit mask 0 := by
    rw [lineMasked, if_neg (by decide), Pic8259.masked, h.slaveImr]
  refine ⟨⟨?_, fun hle => absurd hle (by decide)⟩, ⟨?_, fun hle => absurd hle (by decide)⟩, ?_⟩
  · rw [hmasked 0 (by decide)]
    decide
  · rw [hmasked 1 (by decide)]
    decide
  · rw [Delivers, hclock, hmasked 2 (by decide)]
    exact ⟨fun h => h.1, fun h => ⟨h, fun _ => by decide⟩⟩

/-- The vectors of the lines. -/
theorem I8259.LinesReady.vectorOf {s : I8259} {mask : UInt8} (h : LinesReady mask s) (n : Nat) :
    s.vectorOf n = 0x20 + n := by
  have hmaster : (0x20 : UInt8).toNat = 0x20 := rfl
  have hslave : (0x28 : UInt8).toNat = 0x28 := rfl
  rw [I8259.vectorOf, h.masterVector, h.slaveVector, hmaster, hslave]
  split <;> omega

/-- **The interrupt lines of every reachable state.**  No line is in service, the timer and the
keyboard are never masked, the clock is if its line was masked before `entry`, and the vectors are
those of `init_idt`. -/
theorem interrupt_lines_of_run {fs : Image} {m : PowerOn} {master slave : Pic8259}
    (hmaster : master.isr = 0) (hslave : slave.isr = 0) {index : UInt8} {reg : UInt8 → UInt8}
    {es : List OsEvent} {o : Os} (hrun : (Os.boot m master slave index reg).Steps fs es o) :
    (o.rtc.irq.master.isr = 0 ∧ o.rtc.irq.slave.isr = 0) ∧
      o.rtc.irq.Delivers 0 ∧ o.rtc.irq.Delivers 1 ∧
      (o.rtc.irq.Delivers 8 ↔ slave.masked 0 = false) ∧
      ∀ n, n < 16 → o.rtc.irq.vectorOf n = 0x20 + n := by
  have hready := (linesReady_boot m hmaster hslave index reg).run hrun
  obtain ⟨htimer, hkeyboard, hclock⟩ := hready.delivers
  exact ⟨⟨hready.masterIsr, hready.slaveIsr⟩, htimer, hkeyboard, hclock, fun n _ =>
    hready.vectorOf n⟩

/-- The image of the shell with the clock as a second entry. -/
def clockImage : Image where
  bytes a := match a.toNat with
    | 0 => 2
    | 128 => 0x72
    | 129 => 0x74
    | 130 => 0x63
    | _ => shellImage.bytes a

/-- The name `"rtc"`. -/
def clockName : Buf := Buf.ofList [0x72, 0x74, 0x63]

theorem validShell_clockImage : ValidShell clockImage where
  exists_entry := ⟨0, by decide, by decide, by decide⟩
  inode := by decide
  header := by decide
  magic := by decide
  fits := by decide

/-- The first shell. -/
theorem exists_clock_shell {o : Os} {m : PowerOn} (hcursor : m.CursorOnScreen)
    (hboot : o.proc = .boot m) :
    ∃ e o', o.step clockImage e = some o' ∧ o'.proc.live ≠ [] ∧
      (o'.io.fds (getCurrPcb o'.proc.kernel.tssEsp0) 2).flags = 0 := by
  have hbits : (bootKernel m).pidBits = fun _ => 0 := (booted_bootKernel m).pidBits
  have hzero : firstFreePid (bootKernel m).pidBits 6 0 = 0 := by
    rw [hbits]
    decide
  obtain ⟨k', hexec⟩ := validShell_clockImage.starts (k := bootKernel m) (fun _ => 0) 0 0
    (by rw [hzero]; decide)
  have hexec' : execute clockImage shellCString.val (fun _ => 0) 0 0 (ProcState.boot m).kernel =
    .user k' := hexec
  have hmay : MayExecute (ProcState.boot m).kernel (ProcState.boot m).live shellCString 0 0 :=
    .inl ⟨rfl, rfl⟩
  obtain ⟨s, hs⟩ : ∃ s : ProcState, s = { kernel := k', live := [k'.availablePid] } := ⟨_, rfl⟩
  have hproc : o.proc.step clockImage (.execute shellCString (fun _ => 0) 0 0) = some s := by
    rw [hboot, ProcState.step, if_pos hmay, hexec', hs]
    rfl
  have hstart := execute_startedFrom (tidyMachine_boot hcursor).console.toTidy hexec'
  obtain ⟨old, hfds⟩ := hstart.fds
  have hpcb := getCurrPcb_kernelStackTop hstart.lt
  rw [← hstart.started.tssEsp0] at hpcb
  have hfree : (k'.pcb (getCurrPcb k'.tssEsp0)).fdArray 2 = Fd.free := by
    rw [hpcb, hfds, initialFdArray_free old (Nat.le_refl 2) (by decide)]
  refine ⟨.machine (.proc (.execute shellCString (fun _ => 0) 0 0)), { o with proc := s },
    congrArg (Option.map fun s => ({ o with proc := s } : Os)) hproc, ?_, ?_⟩
  · rw [hs]
    exact List.cons_ne_nil _ []
  · rw [hs]
    exact congrArg Fd.flags hfree

/-- The first shell opens the clock, which then interrupts. -/
theorem interrupt_lines_of_run_clock : ∃ o o₁ o₂ : Os, ∃ esp,
    o.step clockImage (.call (.opens (some clockName)) clockName esp) = some o₁ ∧
      o₁.step clockImage .rtcIrq = some o₂ ∧
      (o₂.rtc.irq.master.isr = 0 ∧ o₂.rtc.irq.slave.isr = 0) ∧ o₂.rtc.irq.Delivers 0 ∧
      o₂.rtc.irq.Delivers 1 ∧ (o₂.rtc.irq.Delivers 8 ↔ (I8259.chip 0xFE).masked 0 = false) ∧
      ∀ n, n < 16 → o₂.rtc.irq.vectorOf n = 0x20 + n := by
  obtain ⟨e, o, hfirst, hlive, hfree⟩ := exists_clock_shell
    (o := .boot .blank (I8259.chip 0xFB) (I8259.chip 0xFE) 0 fun _ => 0) (by decide) rfl
  have htakes : OpenTakes clockImage (some clockName)
      (o.io.fds (getCurrPcb o.proc.kernel.tssEsp0)) 2 1 :=
    { name := ⟨_, rfl, by decide, by decide, by decide⟩
      type := by decide
      ge := Nat.le_refl 2
      lt := by decide
      free := hfree
      least := fun j hge hlt => absurd hge (Nat.not_le_of_lt hlt) }
  obtain ⟨io, hopen, -, -⟩ := openCall_takes clockName htakes
  have hcall : o.step clockImage (.call (.opens (some clockName)) clockName
      o.proc.kernel.tssEsp0) = some (o.setIo io) := Os.step_of_call hlive rfl hopen
  have hrun : (Os.boot .blank (I8259.chip 0xFB) (I8259.chip 0xFE) 0 fun _ => 0).Steps clockImage
      [e, .call (.opens (some clockName)) clockName o.proc.kernel.tssEsp0] (o.setIo io) :=
    (Run.single hfirst).snoc hcall
  have hclock : (o.setIo io).rtc.irq.Delivers 8 :=
    ((linesReady_boot .blank rfl rfl 0 _).run hrun).delivers.2.2.mpr (by decide)
  obtain ⟨r, hr⟩ : ∃ r, (o.setIo io).accept 8 = some r := ⟨_, if_pos hclock⟩
  have hserved : (o.setIo io).step clockImage .rtcIrq =
      some { o.setIo io with rtc := irqRtcHandler r } := by
    rw [Os.step, hr]
    rfl
  exact ⟨o, _, _, _, hcall, hserved, interrupt_lines_of_run rfl rfl (hrun.snoc hserved)⟩

/-! ## Runs of the processes alone -/

/-- A tick is an interrupt of the timer. -/
theorem Os.step_of_tick {fs : Image} {o : Os} {mask : UInt8} (hlines : o.rtc.irq.LinesReady mask)
    {exeCheck : Buf} {esp ebp ebpExecute : Nat} {s : ProcState}
    (hstep : o.proc.step fs (.tick exeCheck esp ebp ebpExecute) = some s) :
    ∃ o', o.step fs (.pitIrq exeCheck esp ebp ebpExecute) = some o' := by
  have haccept : o.accept 0 = some { o.rtc with irq := o.rtc.irq.acknowledge 0 } :=
    if_pos hlines.delivers.1
  rw [ProcState.step] at hstep
  rw [Os.step, haccept]
  dsimp only [irqPitHandler, Option.bind_eq_bind, Option.bind_some]
  cases hout : pitHandler fs exeCheck esp ebp ebpExecute o.proc.kernel <;>
    rw [hout] at hstep <;> first | cases hstep; done | exact ⟨_, rfl⟩

/-- A step of the processes is an event of the system. -/
theorem Os.step_of_process {fs : Image} {o : Os} {mask : UInt8}
    (hlines : o.rtc.irq.LinesReady mask) {e : ProcEvent} {s : ProcState}
    (hstep : o.proc.step fs e = some s) :
    ∃ e' o', o.step fs e' = some o' ∧ o'.proc = s := by
  cases e with
  | execute command exeCheck esp ebp =>
      refine ⟨.machine (.proc (.execute command exeCheck esp ebp)), { o with proc := s }, ?_, rfl⟩
      exact congrArg (Option.map fun s => ({ o with proc := s } : Os)) hstep
  | halt esp =>
      refine ⟨.machine (.proc (.halt esp)), { o with proc := s }, ?_, rfl⟩
      exact congrArg (Option.map fun s => ({ o with proc := s } : Os)) hstep
  | tick exeCheck esp ebp ebpExecute =>
      obtain ⟨o', hstep'⟩ := Os.step_of_tick hlines hstep
      refine ⟨_, o', hstep', ?_⟩
      have htick := Os.step_tick hstep'
      rw [hstep] at htick
      exact (Option.some.inj htick).symm

/-- **The system has the runs of the processes.** -/
theorem Os.run_of_processes {fs : Image} {m : PowerOn} {es : List ProcEvent} {s : ProcState}
    (hrun : ProcState.Steps fs (.boot m) es s) (master slave : Pic8259) (hmaster : master.isr = 0)
    (hslave : slave.isr = 0) (index : UInt8) (reg : UInt8 → UInt8) :
    ∃ es' o, (Os.boot m master slave index reg).Steps fs es' o ∧ o.proc = s := by
  have hmatch : ∃ es' o, (Os.boot m master slave index reg).Steps fs es' o ∧ o.proc = s ∧
      o.rtc.irq.LinesReady slave.imr := by
    refine hrun.simulates (fun s (o : Os) => o.proc = s ∧ o.rtc.irq.LinesReady slave.imr)
      ⟨rfl, linesReady_boot m hmaster hslave index reg⟩ ?_
    rintro a e b o ⟨rfl, hlines⟩ hstep
    obtain ⟨e', o', hstep', hproc⟩ := Os.step_of_process hlines hstep
    exact ⟨[e'], o', .single hstep', hproc, hlines.step hstep'⟩
  obtain ⟨es', o, hrun', hproc, -⟩ := hmatch
  exact ⟨es', o, hrun', hproc⟩

end JuddOS
