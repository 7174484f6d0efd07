import JuddOS.SystemInvariant
import JuddOS.X86.Gates

/-!
# `idt.c`: the interrupt descriptor table

`init_idt` fills an entry for each wrapper of `isr_wrapper.S`.  Read by the processor, the table has
a gate to each wrapper and no other (`idt_gates`), so a program can only enter the kernel through
`SYSTEM_CALL` (`user_interrupts_of_idt`), and every interrupt that the controllers deliver in a
state of the system comes to its own wrapper (`interrupts_dispatched_of_run`).

The interrupts of devices have trap gates, so the wrapper starts with interrupts enabled.
-/

namespace JuddOS

open Support X86

/-! ## The table -/

abbrev kernelCs : UInt16 := 0x0010
abbrev dplKernel : Nat := 0
abbrev dplUser : Nat := 3

/-- `idt_desc_t`. -/
structure IdtDesc where
  offset1500 : UInt16
  segSelector : UInt16
  reserved4 : UInt8
  reserved3 : Bool
  reserved2 : Bool
  reserved1 : Bool
  size : Bool
  reserved0 : Bool
  dpl : Fin 4
  present : Bool
  offset3116 : UInt16

/-- The union: the fields as two doublewords. -/
def IdtDesc.val (d : IdtDesc) : Quad where
  lo := UInt32.ofNat (d.offset1500.toNat + d.segSelector.toNat * 2 ^ 16)
  hi := UInt32.ofNat (d.reserved4.toNat + d.reserved3.toNat * 2 ^ 8 + d.reserved2.toNat * 2 ^ 9 +
    d.reserved1.toNat * 2 ^ 10 + d.size.toNat * 2 ^ 11 + d.reserved0.toNat * 2 ^ 12 +
    d.dpl.val * 2 ^ 13 + d.present.toNat * 2 ^ 15 + d.offset3116.toNat * 2 ^ 16)

abbrev Idt := UInt8 → IdtDesc

/-- `idt` of `x86_desc.S`. -/
def zeroIdt : Idt := fun _ => ⟨0, 0, 0, false, false, false, false, false, 0, false, 0⟩

/-- `SET_IDT_ENTRY`. -/
def setIdtEntry (handler : UInt32) (d : IdtDesc) : IdtDesc :=
  { d with
    offset3116 := ((handler &&& 0xFFFF0000) >>> 16).toUInt16
    offset1500 := (handler &&& 0xFFFF).toUInt16 }

/-- `define_exception`. -/
def defineException (entry : UInt8) (f : UInt32) (dpl : Nat) (idt : Idt) : Idt :=
  Function.update idt entry
    { setIdtEntry f (idt entry) with
      segSelector := kernelCs
      reserved4 := 0
      reserved3 := true
      reserved2 := true
      reserved1 := true
      reserved0 := false
      present := true
      size := true
      dpl := Fin.ofNat 4 dpl }

/-- `define_interrupt`. -/
def defineInterrupt (entry : UInt8) (f : UInt32) (dpl : Nat) (idt : Idt) : Idt :=
  Function.update idt entry
    { setIdtEntry f (idt entry) with
      segSelector := kernelCs
      reserved4 := 0
      reserved3 := false
      reserved2 := true
      reserved1 := true
      reserved0 := false
      present := true
      size := true
      dpl := Fin.ofNat 4 dpl }

/-- The wrappers of `isr_wrapper.S`. -/
inductive IsrWrapper
  | exception (x : Exception)
  | systemCall
  | irqPit
  | irqKeyboard
  | irqRtc
  deriving DecidableEq

/-- `NUM_DIV_BY_ZERO` to `NUM_CTRL_PROT_EXCEP`. -/
def Exception.num : Exception → UInt8
  | divByZero => 0x00
  | singleStepInt => 0x01
  | nmi => 0x02
  | breakpoint => 0x03
  | overflow => 0x04
  | bounds => 0x05
  | invalidOpcode => 0x06
  | coprocessorNa => 0x07
  | doubleFault => 0x08
  | coprocessorSo => 0x09
  | invalidTss => 0x0A
  | segNotPresent => 0x0B
  | stackFault => 0x0C
  | generalPfault => 0x0D
  | pageFault => 0x0E
  | reserved => 0x0F
  | mathFault => 0x10
  | alignmentCheck => 0x11
  | machineCheck => 0x12
  | simdFpExcep => 0x13
  | virtualExcep => 0x14
  | ctrlProtExcep => 0x15

abbrev numSystemCall : UInt8 := 0x80
abbrev pitIrqOpcode : UInt8 := 0x20
abbrev keyboardIrqOpcode : UInt8 := 0x21
abbrev irqRtcNum : UInt8 := 0x28

/-- `init_idt`, with the addresses of the wrappers. -/
def initIdt (addr : IsrWrapper → UInt32) (idt : Idt) : Idt :=
  let exception (x : Exception) := defineException x.num (addr (.exception x)) dplKernel
  let idt := exception .divByZero idt
  let idt := exception .singleStepInt idt
  let idt := exception .nmi idt
  let idt := exception .breakpoint idt
  let idt := exception .overflow idt
  let idt := exception .bounds idt
  let idt := exception .invalidOpcode idt
  let idt := exception .coprocessorNa idt
  let idt := exception .doubleFault idt
  let idt := exception .coprocessorSo idt
  let idt := exception .invalidTss idt
  let idt := exception .segNotPresent idt
  let idt := exception .stackFault idt
  let idt := exception .generalPfault idt
  let idt := exception .pageFault idt
  let idt := exception .reserved idt
  let idt := exception .mathFault idt
  let idt := exception .alignmentCheck idt
  let idt := exception .machineCheck idt
  let idt := exception .simdFpExcep idt
  let idt := exception .virtualExcep idt
  let idt := exception .ctrlProtExcep idt
  let idt := defineInterrupt numSystemCall (addr .systemCall) dplUser idt
  let idt := defineException pitIrqOpcode (addr .irqPit) dplKernel idt
  let idt := defineException keyboardIrqOpcode (addr .irqKeyboard) dplKernel idt
  defineException irqRtcNum (addr .irqRtc) dplKernel idt

/-! ## The gates -/

namespace IsrWrapper

/-- The entry of a wrapper. -/
def entry : IsrWrapper → UInt8
  | exception x => x.num
  | systemCall => numSystemCall
  | irqPit => pitIrqOpcode
  | irqKeyboard => keyboardIrqOpcode
  | irqRtc => irqRtcNum

/-- Its gate. -/
def gate (f : UInt32) : IsrWrapper → GateEntry
  | systemCall => ⟨f.toNat, kernelCs.toNat, true, dplUser, true⟩
  | _ => ⟨f.toNat, kernelCs.toNat, false, dplKernel, true⟩

/-- The definition of its entry. -/
def define (addr : IsrWrapper → UInt32) (idt : Idt) (w : IsrWrapper) : Idt :=
  match w with
  | systemCall => defineInterrupt numSystemCall (addr systemCall) dplUser idt
  | w => defineException w.entry (addr w) dplKernel idt

/-- The wrappers in the order of `init_idt`. -/
def all : List IsrWrapper :=
  [exception .divByZero, exception .singleStepInt, exception .nmi, exception .breakpoint,
    exception .overflow, exception .bounds, exception .invalidOpcode, exception .coprocessorNa,
    exception .doubleFault, exception .coprocessorSo, exception .invalidTss,
    exception .segNotPresent, exception .stackFault, exception .generalPfault, exception .pageFault,
    exception .reserved, exception .mathFault, exception .alignmentCheck, exception .machineCheck,
    exception .simdFpExcep, exception .virtualExcep, exception .ctrlProtExcep, systemCall, irqPit,
    irqKeyboard, irqRtc]

theorem mem_all (w : IsrWrapper) : w ∈ all := by
  cases w with
  | exception x => cases x <;> decide
  | systemCall | irqPit | irqKeyboard | irqRtc => decide

theorem entries_nodup : (all.map entry).Nodup := by decide

end IsrWrapper

theorem initIdt_eq (addr : IsrWrapper → UInt32) (idt : Idt) :
    initIdt addr idt = IsrWrapper.all.foldl (IsrWrapper.define addr) idt := rfl

/-! ### One entry -/

theorem setIdtEntry_offset (f : UInt32) (d : IdtDesc) :
    (setIdtEntry f d).offset1500.toNat + (setIdtEntry f d).offset3116.toNat * 2 ^ 16 =
      f.toNat := by
  have hlow : (setIdtEntry f d).offset1500.toNat = f.toNat % 2 ^ 16 := by
    show ((f &&& 0xFFFF).toUInt16).toNat = _
    rw [UInt32.toNat_toUInt16, UInt32.toNat_and]
    show (f.toNat &&& 2 ^ 16 - 1) % 2 ^ 16 = _
    rw [Nat.and_two_pow_sub_one_eq_mod, Nat.mod_mod]
  have hhigh : (setIdtEntry f d).offset3116.toNat = f.toNat / 2 ^ 16 := by
    show (((f &&& 0xFFFF0000) >>> 16).toUInt16).toNat = _
    rw [UInt32.toNat_toUInt16, UInt32.toNat_shiftRight, UInt32.toNat_and]
    show (f.toNat &&& 0xFFFF0000) >>> 16 % 2 ^ 16 = _
    rw [Nat.shiftRight_and_distrib, Nat.shiftRight_eq_div_pow]
    show (f.toNat / 2 ^ 16 &&& 2 ^ 16 - 1) % 2 ^ 16 = _
    have hlt := f.toNat_lt
    rw [Nat.and_two_pow_sub_one_eq_mod, Nat.mod_mod, Nat.mod_eq_of_lt (by omega)]
  rw [hlow, hhigh]
  omega

namespace IdtDesc

variable (d : IdtDesc)

theorem val_lo : d.val.lo.toNat = d.offset1500.toNat + d.segSelector.toNat * 2 ^ 16 := by
  have hoffset := d.offset1500.toNat_lt
  have hselector := d.segSelector.toNat_lt
  exact UInt32.toNat_ofNat_of_lt' (by show _ < 2 ^ 32; omega)

theorem val_hi : d.val.hi.toNat =
    d.reserved4.toNat + d.reserved3.toNat * 2 ^ 8 + d.reserved2.toNat * 2 ^ 9 +
      d.reserved1.toNat * 2 ^ 10 + d.size.toNat * 2 ^ 11 + d.reserved0.toNat * 2 ^ 12 +
      d.dpl.val * 2 ^ 13 + d.present.toNat * 2 ^ 15 + d.offset3116.toNat * 2 ^ 16 := by
  have hreserved := d.reserved4.toNat_lt
  have hdpl := d.dpl.isLt
  have hoffset := d.offset3116.toNat_lt
  have hbit := Bool.toNat_le
  have h3 := hbit d.reserved3
  have h2 := hbit d.reserved2
  have h1 := hbit d.reserved1
  have hsize := hbit d.size
  have h0 := hbit d.reserved0
  have hpresent := hbit d.present
  exact UInt32.toNat_ofNat_of_lt' (by show _ < 2 ^ 32; omega)

/-- The bits of the second doubleword. -/
theorem bits_hi : bits d.val.hi 9 4 = d.reserved2.toNat + d.reserved1.toNat * 2 +
      d.size.toNat * 4 + d.reserved0.toNat * 8 ∧
    bits d.val.hi 8 1 = d.reserved3.toNat ∧ bits d.val.hi 13 2 = d.dpl.val ∧
    bits d.val.hi 15 1 = d.present.toNat ∧ bits d.val.hi 16 16 = d.offset3116.toNat := by
  have hreserved := d.reserved4.toNat_lt
  have hdpl := d.dpl.isLt
  have hoffset := d.offset3116.toNat_lt
  have h3 := Bool.toNat_le d.reserved3
  have h2 := Bool.toNat_le d.reserved2
  have h1 := Bool.toNat_le d.reserved1
  have hsize := Bool.toNat_le d.size
  have h0 := Bool.toNat_le d.reserved0
  have hpresent := Bool.toNat_le d.present
  simp only [bits, d.val_hi]
  omega

theorem bits_lo : bits d.val.lo 0 16 = d.offset1500.toNat ∧
    bits d.val.lo 16 16 = d.segSelector.toNat := by
  have hoffset := d.offset1500.toNat_lt
  have hselector := d.segSelector.toNat_lt
  simp only [bits, d.val_lo]
  omega

/-- **The gate in the bit-fields.** -/
theorem gate_val (hkind : d.reserved2 = true ∧ d.reserved1 = true ∧ d.size = true ∧
    d.reserved0 = false) : d.val.gate =
      some
        { offset := d.offset1500.toNat + d.offset3116.toNat * 2 ^ 16
          selector := d.segSelector.toNat
          clearsIf := !d.reserved3
          dpl := d.dpl.val
          present := d.present } := by
  obtain ⟨hfive, hthree, hdpl, hpresent, hhigh⟩ := d.bits_hi
  obtain ⟨hlow, hselector⟩ := d.bits_lo
  rw [hkind.1, hkind.2.1, hkind.2.2.1, hkind.2.2.2] at hfive
  have hclears : decide (d.reserved3.toNat = 0) = !d.reserved3 := by cases d.reserved3 <;> rfl
  have hthere : decide (d.present.toNat = 1) = d.present := by cases d.present <;> rfl
  have hgate : bits d.val.hi 9 4 = 0b0111 := hfive
  rw [Quad.gate, if_pos hgate, hthree, hdpl, hpresent, hhigh, hlow, hselector, hclears, hthere]

end IdtDesc

theorem gate_defineException (entry : UInt8) (f : UInt32) (dpl : Nat) (idt : Idt) :
    (defineException entry f dpl idt entry).val.gate =
      some ⟨f.toNat, kernelCs.toNat, false, dpl % 4, true⟩ := by
  have hoffset := setIdtEntry_offset f (idt entry)
  rw [defineException, Function.update_self, IdtDesc.gate_val _ ⟨rfl, rfl, rfl, rfl⟩]
  dsimp only
  rw [hoffset]
  rfl

theorem gate_defineInterrupt (entry : UInt8) (f : UInt32) (dpl : Nat) (idt : Idt) :
    (defineInterrupt entry f dpl idt entry).val.gate =
      some ⟨f.toNat, kernelCs.toNat, true, dpl % 4, true⟩ := by
  have hoffset := setIdtEntry_offset f (idt entry)
  rw [defineInterrupt, Function.update_self, IdtDesc.gate_val _ ⟨rfl, rfl, rfl, rfl⟩]
  dsimp only
  rw [hoffset]
  rfl

namespace IsrWrapper

theorem gate_define (addr : IsrWrapper → UInt32) (idt : Idt) (w : IsrWrapper) :
    (w.define addr idt w.entry).val.gate = some (w.gate (addr w)) := by
  cases w with
  | systemCall => exact gate_defineInterrupt ..
  | exception | irqPit | irqKeyboard | irqRtc => exact gate_defineException ..

theorem define_of_ne (addr : IsrWrapper → UInt32) (idt : Idt) {w : IsrWrapper} {v : UInt8}
    (h : v ≠ w.entry) : w.define addr idt v = idt v := by
  cases w with
  | systemCall | exception | irqPit | irqKeyboard | irqRtc => exact Function.update_of_ne h ..

/-- Definitions of other entries. -/
theorem foldl_define_of_notMem (addr : IsrWrapper → UInt32) (ws : List IsrWrapper) (idt : Idt)
    {v : UInt8} (h : v ∉ ws.map entry) : ws.foldl (define addr) idt v = idt v := by
  induction ws generalizing idt with
  | nil => rfl
  | cons w ws ih =>
      rw [List.map_cons, List.mem_cons, not_or] at h
      rw [List.foldl_cons, ih _ h.2, define_of_ne addr idt h.1]

theorem foldl_define_gate (addr : IsrWrapper → UInt32) {ws : List IsrWrapper} (idt : Idt)
    (hnodup : (ws.map entry).Nodup) {w : IsrWrapper} (hw : w ∈ ws) :
    (ws.foldl (define addr) idt w.entry).val.gate = some (w.gate (addr w)) := by
  induction ws generalizing idt with
  | nil => cases hw
  | cons w' ws ih =>
      rw [List.map_cons, List.nodup_cons] at hnodup
      rw [List.foldl_cons]
      rcases List.mem_cons.mp hw with rfl | hw
      · rw [foldl_define_of_notMem addr ws _ hnodup.1]
        exact gate_define addr idt w
      · exact ih _ hnodup.2 hw

end IsrWrapper

/-- The table that the processor has. -/
def Idt.quads (idt : Idt) (v : UInt8) : Quad := (idt v).val

/-- **The gates.**  Every wrapper has one, and other entries are not touched. -/
theorem idt_gates (addr : IsrWrapper → UInt32) (idt : Idt) :
    (∀ w : IsrWrapper, ((initIdt addr idt).quads w.entry).gate = some (w.gate (addr w))) ∧
      ∀ v, (∀ w : IsrWrapper, v ≠ w.entry) → initIdt addr idt v = idt v := by
  rw [initIdt_eq]
  refine ⟨fun w => IsrWrapper.foldl_define_gate addr idt IsrWrapper.entries_nodup w.mem_all,
    fun v hv => IsrWrapper.foldl_define_of_notMem addr IsrWrapper.all idt fun hmem => ?_⟩
  obtain ⟨w, -, heq⟩ := List.mem_map.mp hmem
  exact hv w heq.symm

/-! ## What comes where -/

/-- The kernel's table. -/
def kernelIdt (addr : IsrWrapper → UInt32) : UInt8 → Quad := (initIdt addr zeroIdt).quads

theorem gate_zeroIdt (v : UInt8) : (zeroIdt.quads v).gate = none := by
  show (IdtDesc.val ⟨0, 0, 0, false, false, false, false, false, 0, false, 0⟩).gate = none
  decide

section Dispatch

variable (addr : IsrWrapper → UInt32)

theorem IsrWrapper.present (w : IsrWrapper) (f : UInt32) : (w.gate f).present = true := by
  cases w <;> rfl

/-- **Exceptions and interrupts of devices** come to their wrapper. -/
theorem IsrWrapper.arrives_hardware (w : IsrWrapper) :
    arrives (kernelIdt addr) w.entry .hardware = some (w.gate (addr w)) :=
  arrives_of_gate ((idt_gates addr zeroIdt).1 w) (w.present _) rfl

/-- **A program enters the kernel through `SYSTEM_CALL` only.**  Every other `int` instruction,
`int3` and `into` included, is an error of general protection. -/
theorem user_interrupts_of_idt (v : UInt8) :
    arrives (kernelIdt addr) v (.software dplUser) =
      if v = numSystemCall then some (IsrWrapper.systemCall.gate (addr .systemCall))
      else some ((IsrWrapper.exception .generalPfault).gate (addr (.exception .generalPfault))) := by
  obtain ⟨hgates, hothers⟩ := idt_gates addr zeroIdt
  by_cases hv : v = numSystemCall
  · rw [if_pos hv, hv]
    exact arrives_of_gate (hgates .systemCall) rfl rfl
  · rw [if_neg hv]
    refine arrives_of_refused (fun g hg => ?_) (hgates (.exception .generalPfault)) rfl
    by_cases hw : ∃ w : IsrWrapper, v = w.entry
    · obtain ⟨w, rfl⟩ := hw
      obtain rfl := Option.some.inj ((hgates w).symm.trans hg)
      cases w with
      | systemCall => exact absurd rfl hv
      | exception | irqPit | irqKeyboard | irqRtc => rfl
    · have hzero : (kernelIdt addr v).gate = none := by
        rw [kernelIdt, Idt.quads, hothers v fun w heq => hw ⟨w, heq⟩]
        exact gate_zeroIdt v
      rw [hzero] at hg
      cases hg

end Dispatch

/-! ## Interrupts of the system -/

/-- The wrapper of a line. -/
def lineWrapper : Nat → Option IsrWrapper
  | 0 => some .irqPit
  | 1 => some .irqKeyboard
  | 8 => some .irqRtc
  | _ => none

/-- **Every interrupt that the controllers deliver comes to its wrapper**, in every reachable state.
Line 2 is the cascade, on which no device is. -/
theorem interrupts_dispatched_of_run {fs : Image} {m : PowerOn} {master slave : Pic8259}
    (hmaster : master.isr = 0) (hslave : slave.isr = 0)
    (hmasked : ∀ i, 1 ≤ i → i < 8 → slave.masked i = true) {index : UInt8} {reg : UInt8 → UInt8}
    {es : List OsEvent} {o : Os} (hrun : (Os.boot m master slave index reg).Steps fs es o)
    (addr : IsrWrapper → UInt32) {n : Nat} (hn : n < 16) (hcascade : n ≠ 2)
    (hdelivers : o.rtc.irq.Delivers n) :
    ∃ w, lineWrapper n = some w ∧
      arrives (kernelIdt addr) (UInt8.ofNat (o.rtc.irq.vectorOf n)) .hardware =
        some (w.gate (addr w)) := by
  have hready := (linesReady_boot m hmaster hslave index reg).run hrun
  rw [hready.vectorOf n]
  -- a line that is delivered is not masked
  have hunmasked := hdelivers.1
  rw [I8259.lineMasked] at hunmasked
  by_cases hlow : n < 8
  · rw [if_pos hlow, Pic8259.masked, hready.masterImr] at hunmasked
    obtain rfl | rfl | hlines : n = 0 ∨ n = 1 ∨ 3 ≤ n := by omega
    · exact ⟨.irqPit, rfl, IsrWrapper.arrives_hardware addr .irqPit⟩
    · exact ⟨.irqKeyboard, rfl, IsrWrapper.arrives_hardware addr .irqKeyboard⟩
    · interval_cases n <;> exact absurd hunmasked (by decide)
  · rw [if_neg hlow, Pic8259.masked, hready.slaveImr] at hunmasked
    by_cases hclock : n = 8
    · subst hclock
      exact ⟨.irqRtc, rfl, IsrWrapper.arrives_hardware addr .irqRtc⟩
    · have hmask := hmasked (n - 8) (by omega) (by omega)
      rw [Pic8259.masked, hunmasked] at hmask
      cases hmask

/-- The timer while the first shell runs. -/
theorem interrupts_dispatched_of_run_shell : ∃ o : Os, o.proc.live = [0] ∧
    ∃ w, lineWrapper 0 = some w ∧
      arrives (kernelIdt fun _ => 0x400000) (UInt8.ofNat (o.rtc.irq.vectorOf 0)) .hardware =
        some (w.gate 0x400000) := by
  obtain ⟨o, hfirst⟩ := exists_system_shell
  obtain ⟨es, hrun⟩ := hfirst.reached
  have hmasked : ∀ i, 1 ≤ i → i < 8 → (I8259.chip 0xFF).masked i = true := by
    intro i hi hlt
    interval_cases i <;> rfl
  exact ⟨o, hfirst.live, interrupts_dispatched_of_run rfl rfl hmasked hrun _ (by decide)
    (by decide) hfirst.lines.delivers.1⟩

end JuddOS
