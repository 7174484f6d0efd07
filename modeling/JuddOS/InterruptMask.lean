import JuddOS.Support.Run
import JuddOS.X86.Pic8259

/-!
# `i8259.c`: the interrupt masks

The mask registers of the two controllers have copies in memory, which `enable_irq` and
`disable_irq` change and write out.  `i8259_init` restores the registers to what it found and
does not touch the copies again, so they agree only when it found what the copies hold.

`masksPerLine_iff` says for which initial masks the lines are independent in every history.
-/

namespace JuddOS

open Support X86

/-- The software masks and the two controllers. -/
structure I8259 where
  masterMask : UInt8
  slaveMask : UInt8
  master : Pic8259
  slave : Pic8259

namespace I8259

abbrev enableIrqMask : UInt8 := 0xFE
abbrev disableIrqMask : UInt8 := 0x01
abbrev maskAll : UInt8 := 0xFF
abbrev icw1 : UInt8 := 0x11
abbrev icw2Master : UInt8 := 0x20
abbrev icw2Slave : UInt8 := 0x28
abbrev icw3Master : UInt8 := 0x04
abbrev icw3Slave : UInt8 := 0x02
abbrev icw4 : UInt8 := 0x01
abbrev masterIr0 : UInt32 := 0
abbrev masterIr7 : UInt32 := 7
abbrev slaveIr7 : UInt32 := 15
abbrev slaveBoundary : UInt32 := 8

/-- `for (b = 0; b < n; b++) mask = (mask << 1) + 1`. -/
def enableMask : Nat → UInt8 → UInt8
  | 0, mask => mask
  | n + 1, mask => enableMask n ((mask <<< 1) + 1)

/-- `for (b = 0; b < n; b++) mask = (mask << 1)`. -/
def disableMask : Nat → UInt8 → UInt8
  | 0, mask => mask
  | n + 1, mask => disableMask n (mask <<< 1)

/-- `enable_irq`. -/
def enableIrq (irqNum : UInt32) (s : I8259) : I8259 :=
  if irqNum < masterIr0 ∨ irqNum > slaveIr7 then s
  else if irqNum ≥ masterIr0 ∧ irqNum ≤ masterIr7 then
    let mask := enableMask irqNum.toNat enableIrqMask
    let s := { s with masterMask := s.masterMask &&& mask }
    { s with master := s.master.writeData s.masterMask }
  else
    let mask := enableMask (irqNum - slaveBoundary).toNat enableIrqMask
    let s := { s with slaveMask := s.slaveMask &&& mask }
    { s with slave := s.slave.writeData s.slaveMask }

/-- `disable_irq`. -/
def disableIrq (irqNum : UInt32) (s : I8259) : I8259 :=
  if irqNum < masterIr0 ∨ irqNum > slaveIr7 then s
  else if irqNum ≥ masterIr0 ∧ irqNum ≤ masterIr7 then
    let mask := disableMask irqNum.toNat disableIrqMask
    let s := { s with masterMask := s.masterMask ||| mask }
    { s with master := s.master.writeData s.masterMask }
  else
    let mask := disableMask (irqNum - slaveBoundary).toNat disableIrqMask
    let s := { s with slaveMask := s.slaveMask ||| mask }
    { s with slave := s.slave.writeData s.slaveMask }

/-- `i8259_init`. -/
def i8259Init (s : I8259) : I8259 :=
  let masterBackup := s.master.readData
  let slaveBackup := s.slave.readData
  let s := { s with master := s.master.writeData maskAll }
  let s := { s with slave := s.slave.writeData maskAll }
  let s := { s with master := s.master.writeCommand icw1 }
  let s := { s with slave := s.slave.writeCommand icw1 }
  let s := { s with master := s.master.writeData icw2Master }
  let s := { s with slave := s.slave.writeData icw2Slave }
  let s := { s with master := s.master.writeData icw3Master }
  let s := { s with slave := s.slave.writeData icw3Slave }
  let s := { s with master := s.master.writeData icw4 }
  let s := { s with slave := s.slave.writeData icw4 }
  let s := enableIrq 2 s
  let s := { s with master := s.master.writeData masterBackup }
  { s with slave := s.slave.writeData slaveBackup }

/-- The masks before `i8259_init`: all lines are disabled in the copies. -/
def unset (master slave : Pic8259) : I8259 :=
  { masterMask := ~~~ 0, slaveMask := ~~~ 0, master := master, slave := slave }

/-- A call. -/
inductive Call
  | enable (irqNum : UInt32)
  | disable (irqNum : UInt32)

/-- What a call does. -/
def call (s : I8259) : Call → I8259
  | .enable irqNum => enableIrq irqNum s
  | .disable irqNum => disableIrq irqNum s

/-- The line of a call, and whether it is to be disabled. -/
def Call.line : Call → UInt32
  | .enable irqNum | .disable irqNum => irqNum

def Call.disables : Call → Bool
  | .enable _ => false
  | .disable _ => true

/-- The hardware has line `n` disabled. -/
def lineMasked (s : I8259) (n : Nat) : Bool :=
  if n < 8 then s.master.masked n else s.slave.masked (n - 8)

/-- The copies are what the registers hold. -/
structure InSync (s : I8259) : Prop where
  master : s.master.imr = s.masterMask
  slave : s.slave.imr = s.slaveMask

/-- A call changes its own line only. -/
structure PerLine (s : I8259) (c : Call) : Prop where
  self : c.line ≤ 15 → (s.call c).lineMasked c.line.toNat = c.disables
  other : c.line ≤ 15 → ∀ n, n < 16 → n ≠ c.line.toNat →
    (s.call c).lineMasked n = s.lineMasked n
  invalid : 15 < c.line → s.call c = s

/-! ## The shift loops -/

theorem enableMask_bit : ∀ n, n < 8 → ∀ i, i < 8 →
    Pic8259.bit (enableMask n enableIrqMask) i = !decide (i = n) := by
  decide

theorem disableMask_bit : ∀ n, n < 8 → ∀ i, i < 8 →
    Pic8259.bit (disableMask n disableIrqMask) i = decide (i = n) := by
  decide

theorem bit_and (a b : UInt8) (i : Nat) :
    Pic8259.bit (a &&& b) i = (Pic8259.bit a i && Pic8259.bit b i) := by
  simp [Pic8259.bit]

theorem bit_or (a b : UInt8) (i : Nat) :
    Pic8259.bit (a ||| b) i = (Pic8259.bit a i || Pic8259.bit b i) := by
  simp [Pic8259.bit]

/-! ## A call -/

/-- A mask in which only bit `i` may have changed. -/
def SetsBit (mask mask' : UInt8) (i : Nat) (b : Bool) : Prop :=
  ∀ j, j < 8 → Pic8259.bit mask' j = if j = i then b else Pic8259.bit mask j

theorem setsBit_enable (mask : UInt8) {i : Nat} (hi : i < 8) :
    SetsBit mask (mask &&& enableMask i enableIrqMask) i false := by
  intro j hj
  rw [bit_and, enableMask_bit i hi j hj]
  by_cases hij : j = i <;> simp [hij]

theorem setsBit_disable (mask : UInt8) {i : Nat} (hi : i < 8) :
    SetsBit mask (mask ||| disableMask i disableIrqMask) i true := by
  intro j hj
  rw [bit_or, disableMask_bit i hi j hj]
  by_cases hij : j = i <;> simp [hij]

theorem call_invalid (s : I8259) {c : Call} (h : 15 < c.line) : s.call c = s := by
  cases c with
  | enable n => exact if_pos (.inr h)
  | disable n => exact if_pos (.inr h)

/-- The first test of both functions. -/
theorem refused_iff (n : UInt32) : n < masterIr0 ∨ n > slaveIr7 ↔ 16 ≤ n.toNat := by
  have hlast : slaveIr7.toNat = 15 := rfl
  have hfirst : masterIr0.toNat = 0 := rfl
  rw [gt_iff_lt, UInt32.lt_iff_toNat_lt, UInt32.lt_iff_toNat_lt, hfirst, hlast]
  omega

/-- Their second test. -/
theorem onMaster_iff (n : UInt32) : n ≥ masterIr0 ∧ n ≤ masterIr7 ↔ n.toNat < 8 := by
  have hlast : masterIr7.toNat = 7 := rfl
  have hfirst : masterIr0.toNat = 0 := rfl
  rw [ge_iff_le, UInt32.le_iff_toNat_le, UInt32.le_iff_toNat_le, hfirst, hlast]
  omega

/-- A line of the master. -/
theorem call_master (s : I8259) {c : Call} (h : c.line.toNat < 8) :
    ∃ mask, SetsBit s.masterMask mask c.line.toNat c.disables ∧
      s.call c = { s with masterMask := mask, master := s.master.writeData mask } := by
  have hvalid : ¬ (c.line < masterIr0 ∨ c.line > slaveIr7) := by
    rw [refused_iff]
    omega
  have hmaster := (onMaster_iff c.line).mpr h
  cases c with
  | enable n =>
      refine ⟨_, setsBit_enable s.masterMask h, ?_⟩
      exact (if_neg hvalid).trans (if_pos hmaster)
  | disable n =>
      refine ⟨_, setsBit_disable s.masterMask h, ?_⟩
      exact (if_neg hvalid).trans (if_pos hmaster)

/-- A line of the slave. -/
theorem call_slave (s : I8259) {c : Call} (h : 8 ≤ c.line.toNat) (h' : c.line.toNat < 16) :
    ∃ mask, SetsBit s.slaveMask mask (c.line.toNat - 8) c.disables ∧
      s.call c = { s with slaveMask := mask, slave := s.slave.writeData mask } := by
  have hvalid : ¬ (c.line < masterIr0 ∨ c.line > slaveIr7) := by
    rw [refused_iff]
    omega
  have hmaster : ¬ (c.line ≥ masterIr0 ∧ c.line ≤ masterIr7) := by
    rw [onMaster_iff]
    omega
  have hsub : (c.line - slaveBoundary).toNat = c.line.toNat - 8 :=
    UInt32.toNat_sub_of_le _ _ (UInt32.le_iff_toNat_le.mpr h)
  have hlow : (c.line - slaveBoundary).toNat < 8 := by omega
  rw [← hsub]
  cases c with
  | enable n =>
      refine ⟨_, setsBit_enable s.slaveMask hlow, ?_⟩
      exact (if_neg hvalid).trans (if_neg hmaster)
  | disable n =>
      refine ⟨_, setsBit_disable s.slaveMask hlow, ?_⟩
      exact (if_neg hvalid).trans (if_neg hmaster)

/-! ## The invariant -/

/-- Both controllers take masks at their data ports. -/
structure Ready (s : I8259) : Prop where
  master : s.master.phase = .mask
  slave : s.slave.phase = .mask

/-- **A call in a state where the copies agree** changes its own line, and they still agree. -/
theorem InSync.call {s : I8259} (h : s.InSync) (hready : s.Ready) (c : Call) :
    (s.call c).InSync ∧ (s.call c).Ready ∧ s.PerLine c := by
  have hfifteen : (15 : UInt32).toNat = 15 := rfl
  rcases Nat.lt_or_ge c.line.toNat 16 with hvalid | hinvalid
  · have hline : ¬ 15 < c.line := by
      rw [UInt32.lt_iff_toNat_lt, hfifteen]
      omega
    rcases Nat.lt_or_ge c.line.toNat 8 with hmaster | hslave
    · obtain ⟨mask, hbits, hcall⟩ := s.call_master hmaster
      rw [Pic8259.writeData_of_mask hready.master] at hcall
      refine ⟨?_, ?_, fun _ => ?_, fun _ n hn hne => ?_, fun hout => absurd hout hline⟩
      · rw [hcall]
        exact ⟨rfl, h.slave⟩
      · rw [hcall]
        exact ⟨hready.master, hready.slave⟩
      · rw [hcall, lineMasked, if_pos hmaster]
        exact (hbits _ hmaster).trans (if_pos rfl)
      · rw [hcall, lineMasked, lineMasked]
        by_cases hlow : n < 8
        · rw [if_pos hlow, if_pos hlow, Pic8259.masked, Pic8259.masked, h.master]
          exact (hbits n hlow).trans (if_neg hne)
        · rw [if_neg hlow, if_neg hlow]
    · obtain ⟨mask, hbits, hcall⟩ := s.call_slave hslave hvalid
      rw [Pic8259.writeData_of_mask hready.slave] at hcall
      have hhigh : ¬ c.line.toNat < 8 := Nat.not_lt_of_le hslave
      refine ⟨?_, ?_, fun _ => ?_, fun _ n hn hne => ?_, fun hout => absurd hout hline⟩
      · rw [hcall]
        exact ⟨h.master, rfl⟩
      · rw [hcall]
        exact ⟨hready.master, hready.slave⟩
      · rw [hcall, lineMasked, if_neg hhigh]
        exact (hbits _ (by omega)).trans (if_pos rfl)
      · rw [hcall, lineMasked, lineMasked]
        by_cases hlow : n < 8
        · rw [if_pos hlow, if_pos hlow]
        · rw [if_neg hlow, if_neg hlow, Pic8259.masked, Pic8259.masked, h.slave]
          exact (hbits (n - 8) (by omega)).trans (if_neg (by omega))
  · have hline : 15 < c.line := by
      rw [UInt32.lt_iff_toNat_lt, hfifteen]
      omega
    have hle : ¬ c.line ≤ 15 := UInt32.not_le.mpr hline
    rw [s.call_invalid hline]
    exact ⟨h, hready, fun hout => absurd hout hle, fun hout => absurd hout hle,
      fun _ => s.call_invalid hline⟩

/-! ## Initialisation -/

/-- What `i8259_init` leaves: the registers as they were, and copies in which only line 2 is
enabled. -/
theorem i8259Init_unset (master slave : Pic8259) :
    (i8259Init (unset master slave)).Ready ∧
      (i8259Init (unset master slave)).master.imr = master.imr ∧
      (i8259Init (unset master slave)).slave.imr = slave.imr ∧
      (i8259Init (unset master slave)).masterMask = 0xFB ∧
      (i8259Init (unset master slave)).slaveMask = 0xFF := by
  have hmaster := @Pic8259.initialise_mask (master.writeData maskAll) icw1 icw2Master
    icw3Master icw4 (by decide) (by decide) (by decide)
  have hslave := @Pic8259.initialise_mask (slave.writeData maskAll) icw1 icw2Slave
    icw3Slave icw4 (by decide) (by decide) (by decide)
  unfold i8259Init unset
  dsimp only
  generalize ((((master.writeData maskAll).writeCommand icw1).writeData icw2Master).writeData
    icw3Master).writeData icw4 = master' at *
  generalize ((((slave.writeData maskAll).writeCommand icw1).writeData icw2Slave).writeData
    icw3Slave).writeData icw4 = slave' at *
  have henable : enableIrq 2
      { masterMask := ~~~ 0, slaveMask := ~~~ 0, master := master', slave := slave' } =
      { masterMask := 0xFB, slaveMask := 0xFF, master := master'.writeData 0xFB
        slave := slave' } := by
    have hmask : (~~~ 0 &&& enableMask (2 : UInt32).toNat enableIrqMask : UInt8) = 0xFB := by decide
    have hones : (~~~ 0 : UInt8) = 0xFF := by decide
    rw [enableIrq, if_neg (by decide), if_pos (by decide)]
    dsimp only
    rw [hmask, hones]
  rw [henable]
  dsimp only
  rw [Pic8259.writeData_of_mask hmaster.1,
    Pic8259.writeData_of_mask (p := { master' with imr := 0xFB }) hmaster.1,
    Pic8259.writeData_of_mask hslave.1]
  exact ⟨⟨hmaster.1, hslave.1⟩, rfl, rfl, rfl, rfl⟩

/-- **The lines are independent in every history exactly when** `i8259_init` finds the masks
that the copies hold. -/
theorem masksPerLine_iff (master slave : Pic8259) :
    (∀ cs s, Run (fun s c s' => call s c = s') (i8259Init (unset master slave)) cs s →
        s.InSync ∧ ∀ c, s.PerLine c) ↔
      master.imr = 0xFB ∧ slave.imr = 0xFF := by
  obtain ⟨hready, hmaster, hslave, hmasterMask, hslaveMask⟩ := i8259Init_unset master slave
  constructor
  · intro hall
    have hsync := (hall [] _ (.nil _)).1
    rw [← hmaster, ← hslave, hsync.master, hsync.slave]
    exact ⟨hmasterMask, hslaveMask⟩
  · rintro ⟨hfound, hfound'⟩ cs s hrun
    have hstart : (i8259Init (unset master slave)).InSync :=
      ⟨by rw [hmaster, hfound, hmasterMask], by rw [hslave, hfound', hslaveMask]⟩
    have hinv := hrun.invariant (fun s => s.InSync ∧ s.Ready) ⟨hstart, hready⟩ fun a c b ha hstep =>
      by
        rw [← hstep]
        exact ⟨(ha.1.call ha.2 c).1, (ha.1.call ha.2 c).2.1⟩
    exact ⟨hinv.1, fun c => (hinv.1.call hinv.2 c).2.2⟩

/-- A chip that was never initialised, with this mask. -/
def chip (imr : UInt8) : Pic8259 :=
  { imr := imr, isr := 0, phase := .mask, single := false, needsIcw4 := true, vector := 0
    icw3 := 0, icw4 := 0, specialMask := false, readIsr := false, rotateOnAutoEoi := false
    lowest := 7 }

/-- All lines of the master were enabled, and line 1 is enabled again: that disables line 0. -/
theorem enable_disables_another :
    ¬ ∀ (master slave : Pic8259) (cs : List Call) (s : I8259),
      Run (fun s c s' => call s c = s') (i8259Init (unset master slave)) cs s →
      s.InSync ∧ ∀ c, s.PerLine c := by
  intro hall
  have hline := ((hall (chip 0) (chip 0xFF) [] _ (.nil _)).2 (.enable 1)).other (by decide) 0
    (by decide) (by decide)
  revert hline
  decide

end I8259

end JuddOS
