import JuddOS.InterruptMask
import Mathlib.Tactic.IntervalCases

/-!
# `send_eoi`: the end of an interrupt

For a line of the slave `send_eoi` sends an end of interrupt to the slave, calls itself for the line
that the slave is on, and then goes on to the last statement with the number it was given.  That
number has bit 3 set, and so has the byte that the master gets: it is no end of interrupt but an
`OCW3`, which turns the special mask mode on.

* `writeCommand_eoi` and `writeCommand_fallThrough` decode the two bytes.
* `eoiOnly_iff` says when a call ends the interrupt and does nothing else; `eoiOnly_iff_of_run` is
  the same for all calls of a run, in which other interrupts are served meanwhile.
-/

namespace JuddOS

open Support X86

namespace I8259

abbrev eoi : UInt32 := 0x60
abbrev eoiNum : UInt32 := 2

/-- `send_eoi`. -/
def sendEoi (irqNum : UInt32) (s : I8259) : I8259 :=
  let s :=
    if irqNum ≥ slaveBoundary then
      let word := (eoi ||| (irqNum - slaveBoundary)).toUInt8
      sendEoi eoiNum { s with slave := s.slave.writeCommand word }
    else s
  { s with master := s.master.writeCommand (eoi ||| irqNum).toUInt8 }
termination_by if irqNum ≥ slaveBoundary then 1 else 0
decreasing_by
  rename_i hslave
  rw [if_pos hslave, if_neg (by decide)]
  exact Nat.one_pos

/-- The line of the master that ends with line `n`. -/
def masterLine (n : Nat) : Nat := if n < 8 then n else 2

/-- The line is no longer in service, and nothing else has changed. -/
structure EoiOnly (s s' : I8259) (n : Nat) : Prop where
  master : ∀ i, i < 8 → Pic8259.bit s'.master.isr i =
    (Pic8259.bit s.master.isr i && !decide (i = masterLine n))
  slave : ∀ i, i < 8 → Pic8259.bit s'.slave.isr i =
    (Pic8259.bit s.slave.isr i && !decide (i + 8 = n))
  masterModes : { s'.master with isr := s.master.isr } = s.master
  slaveModes : { s'.slave with isr := s.slave.isr } = s.slave
  masterMask : s'.masterMask = s.masterMask
  slaveMask : s'.slaveMask = s.slaveMask

/-- The modes that the last byte selects are those of the master already. -/
def ModesAgree (s : I8259) (n : Nat) : Prop :=
  8 ≤ n → s.master.specialMask = true ∧ (2 ≤ n % 4 → s.master.readIsr = decide (n % 2 = 1))

/-! ## The bytes -/

/-- A specific end of interrupt. -/
theorem writeCommand_eoi (p : Pic8259) {n : Nat} (hn : n < 8) :
    p.writeCommand (eoi ||| UInt32.ofNat n).toUInt8 = p.endOf n := by
  interval_cases n <;> rfl

/-- The byte of the last statement for a line of the slave. -/
theorem writeCommand_fallThrough (p : Pic8259) {n : Nat} (hn : 8 ≤ n) (hlast : n < 16) :
    p.writeCommand (eoi ||| UInt32.ofNat n).toUInt8 =
      { p with
        specialMask := true
        readIsr := if 2 ≤ n % 4 then decide (n % 2 = 1) else p.readIsr } := by
  interval_cases n <;> rfl

theorem bit_endOf (p : Pic8259) {line : Nat} (hline : line < 8) {i : Nat} (hi : i < 8) :
    Pic8259.bit (p.endOf line).isr i = (Pic8259.bit p.isr i && !decide (i = line)) := by
  have hcleared : ∀ line, line < 8 → ∀ i, i < 8 →
      Pic8259.bit (~~~ (1 <<< UInt8.ofNat line)) i = !decide (i = line) := by decide
  rw [Pic8259.endOf, bit_and, hcleared line hline i hi]

/-! ## A call -/

/-- A line of the master. -/
theorem sendEoi_master (s : I8259) {n : Nat} (hn : n < 8) :
    s.sendEoi (UInt32.ofNat n) = { s with master := s.master.endOf n } := by
  have hlow : ¬ UInt32.ofNat n ≥ slaveBoundary := by
    interval_cases n <;> decide
  rw [sendEoi, if_neg hlow, writeCommand_eoi s.master hn]

/-- A line of the slave: two ends of interrupt and one `OCW3`. -/
theorem sendEoi_slave (s : I8259) {n : Nat} (hn : 8 ≤ n) (hlast : n < 16) :
    s.sendEoi (UInt32.ofNat n) =
      { s with
        slave := s.slave.endOf (n - 8)
        master :=
          { s.master.endOf 2 with
            specialMask := true
            readIsr := if 2 ≤ n % 4 then decide (n % 2 = 1) else s.master.readIsr } } := by
  have hhigh : UInt32.ofNat n ≥ slaveBoundary := by
    interval_cases n <;> decide
  have hsub : UInt32.ofNat n - slaveBoundary = UInt32.ofNat (n - 8) := by
    interval_cases n <;> rfl
  have hcascade : eoiNum = UInt32.ofNat 2 := rfl
  rw [sendEoi, if_pos hhigh, hsub]
  dsimp only
  rw [writeCommand_eoi s.slave (by omega), hcascade, sendEoi_master _ (by decide)]
  dsimp only
  rw [writeCommand_fallThrough _ hn hlast]
  rfl

/-- **What a call does.**  It ends the interrupt, and it does nothing else exactly when the modes
of the master are already those that the last byte selects. -/
theorem eoiOnly_iff (s : I8259) {irqNum : UInt32} (hline : irqNum.toNat < 16) :
    EoiOnly s (s.sendEoi irqNum) irqNum.toNat ↔ s.ModesAgree irqNum.toNat := by
  obtain ⟨n, hn⟩ : ∃ n, irqNum.toNat = n := ⟨_, rfl⟩
  have hnum : irqNum = UInt32.ofNat n := by
    rw [← hn, UInt32.ofNat_toNat]
  rw [hn] at hline ⊢
  rw [hnum]
  rcases Nat.lt_or_ge n 8 with hmaster | hslave
  · have hagree : s.ModesAgree n := fun hhigh => absurd hmaster (Nat.not_lt_of_le hhigh)
    rw [s.sendEoi_master hmaster]
    refine iff_of_true ⟨fun i hi => ?_, fun i _ => ?_, rfl, rfl, rfl, rfl⟩ hagree
    · rw [bit_endOf s.master hmaster hi, masterLine, if_pos hmaster]
    · have hne : i + 8 ≠ n := by omega
      simp [hne]
  · rw [s.sendEoi_slave hslave hline]
    constructor
    · intro h _
      have hspecial := congrArg Pic8259.specialMask h.masterModes
      have hread := congrArg Pic8259.readIsr h.masterModes
      refine ⟨hspecial.symm, fun hselects => ?_⟩
      dsimp only at hread
      rw [if_pos hselects] at hread
      exact hread.symm
    · intro hagree
      obtain ⟨hspecial, hread⟩ := hagree hslave
      refine ⟨fun i hi => ?_, fun i hi => ?_, ?_, rfl, rfl, rfl⟩
      · have hline : masterLine n = 2 := if_neg (Nat.not_lt_of_le hslave)
        rw [hline]
        exact bit_endOf s.master (by decide) hi
      · have hsame : decide (i = n - 8) = decide (i + 8 = n) := decide_eq_decide.mpr (by omega)
        rw [← hsame]
        exact bit_endOf s.slave (by omega) hi
      · have hmode : (if 2 ≤ n % 4 then decide (n % 2 = 1) else s.master.readIsr) =
            s.master.readIsr := by
          split
          case isTrue hselects => exact (hread hselects).symm
          case isFalse => rfl
        rw [hmode, ← hspecial]
        rfl

/-! ## Runs -/

/-- What happens to the controllers while interrupts are handled. -/
inductive EoiEvent
  /-- Interrupts arrive or end; which lines are in service then is arbitrary. -/
  | served (master slave : UInt8)
  /-- A handler calls `send_eoi`. -/
  | eoi (irqNum : UInt32)

/-- One event. -/
inductive EoiStep : I8259 → EoiEvent → I8259 → Prop
  | served (s : I8259) (master slave : UInt8) :
      EoiStep s (.served master slave)
        { s with
          master := { s.master with isr := master }
          slave := { s.slave with isr := slave } }
  | eoi (s : I8259) {irqNum : UInt32} (hline : irqNum.toNat < 16) :
      EoiStep s (.eoi irqNum) (s.sendEoi irqNum)

/-- **In every run, all calls end their interrupt and do nothing else exactly when** each of them
finds the modes of the master as its last byte selects them. -/
theorem eoiOnly_iff_of_run (s s' : I8259) (es : List EoiEvent) :
    Run (fun a e b => EoiStep a e b ∧ ∀ n, e = .eoi n → EoiOnly a b n.toNat) s es s' ↔
      Run (fun a e b => EoiStep a e b ∧ ∀ n, e = .eoi n → a.ModesAgree n.toNat) s es s' := by
  refine Run.and_iff (fun _ => True) trivial ?_ fun _ _ _ _ _ _ => trivial
  rintro a e b - hstep
  cases hstep with
  | served => exact iff_of_true (fun _ he => nomatch he) fun _ he => nomatch he
  | eoi hline =>
      constructor
      · rintro h n ⟨⟩
        exact (a.eoiOnly_iff hline).mp (h _ rfl)
      · rintro h n ⟨⟩
        exact (a.eoiOnly_iff hline).mpr (h _ rfl)

/-- The first interrupt of the clock leaves the master in special mask mode. -/
theorem eoi_sets_special_mask :
    ¬ ∀ (s s' : I8259) (es : List EoiEvent), Run EoiStep s es s' →
      Run (fun a e b => EoiStep a e b ∧ ∀ n, e = .eoi n → EoiOnly a b n.toNat) s es s' := by
  intro hall
  have hline : (8 : UInt32).toNat < 16 := by decide
  have hrun := hall (i8259Init (unset (chip 0xFB) (chip 0xFF))) _ _ (Run.single (.eoi _ hline))
  have hagree := (eoiOnly_iff _ hline).mp (hrun.of_single.2 8 rfl)
  have hspecial := (hagree (by decide)).1
  revert hspecial
  decide

end I8259

end JuddOS
