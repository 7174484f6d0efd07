import JuddOS.InterruptMask
import JuddOS.Lib

/-!
# `rtc.c`: the real-time clock

The clock is reached through an index port and a data port.  The functions also call `enable_irq`
and `disable_irq`, with the number of the index port for the line.

`rtcOpen_irq` and `rtcWrite_irq`: that number is no interrupt line, so these calls leave every mask
as it is.
-/

namespace JuddOS

abbrev rtcA : UInt8 := 0x8A
abbrev rtcB : UInt8 := 0x8B
abbrev rtcPort : UInt32 := 0x70
abbrev initBaserate : UInt8 := 15
abbrev initBaserateMask : UInt8 := 0x0F
abbrev initPrevOr : UInt8 := 0x40
abbrev initPrevAnd : UInt8 := 0xF0
abbrev maxRate : Nat := 10
abbrev minRate : Nat := 1

/-- `rtc_signal`, the registers behind the two ports, and the interrupt controllers. -/
structure Rtc where
  rtcSignal : Bool
  index : UInt8
  reg : UInt8 → UInt8
  irq : I8259

namespace Rtc

/-- A byte to the index port; bit 7 masks the NMI and is no part of the index. -/
def select (b : UInt8) (r : Rtc) : Rtc := { r with index := b &&& 0x7F }

/-- The byte at the data port. -/
def data (r : Rtc) : UInt8 := r.reg r.index

/-- A byte to the data port. -/
def writeData (b : UInt8) (r : Rtc) : Rtc :=
  { r with reg := Function.update r.reg r.index b }

def enableIrq (n : UInt32) (r : Rtc) : Rtc := { r with irq := I8259.enableIrq n r.irq }
def disableIrq (n : UInt32) (r : Rtc) : Rtc := { r with irq := I8259.disableIrq n r.irq }

/-- The tail of `rtc_open` and of `rtc_write`: the low half of register A becomes the rate. -/
def setRate (rate : UInt8) (r : Rtc) : Rtc :=
  let r := r.disableIrq rtcPort
  let r := r.select rtcA
  let prev := r.data
  let r := r.select rtcA
  let r := r.writeData ((prev &&& initPrevAnd) ||| rate)
  r.enableIrq rtcPort

end Rtc

/-- `rtc_init`. -/
def rtcInit (r : Rtc) : Rtc :=
  let rate := initBaserate &&& initBaserateMask
  let r := r.select rtcA
  let prev := r.data
  let r := r.select rtcB
  let r := r.writeData (prev ||| initPrevOr)
  let r := r.enableIrq rtcPort
  let r := r.disableIrq rtcPort
  let r := r.select rtcA
  let prev := r.data
  let r := r.select rtcA
  let r := r.writeData ((prev &&& initPrevAnd) ||| rate)
  let r := r.enableIrq rtcPort
  { r with rtcSignal := false }

/-- `rtc_open`. -/
def rtcOpen (r : Rtc) : Int32 × Rtc :=
  let rate := initBaserate &&& initBaserateMask
  let r := r.select rtcA
  let prev := r.data
  let r := r.select rtcB
  let r := r.writeData (prev ||| initPrevOr)
  let r := r.enableIrq rtcPort
  let r := r.setRate rate
  (0, { r with rtcSignal := false })

/-- `while (freq > 1)` of `rtc_write`, which divides a 32-bit number by 2 in each iteration.  The
result is `rate` and `rest`. -/
def rateLoop : Nat → Nat → Nat → Bool → Nat × Bool
  | 0, _, rate, rest => (rate, rest)
  | n + 1, freq, rate, rest =>
      if freq > 1 then rateLoop n (freq / 2) (rate + 1) (if freq % 2 ≠ 0 then true else rest)
      else (rate, rest)

/-- `rtc_write`, on the bytes at `buf`. -/
def rtcWrite (buf : Buf) (nbytes : Int32) (r : Rtc) : Int32 × Rtc :=
  let freq := (buf.word 0).toInt32
  if nbytes ≠ 4 ∨ freq ≤ 1 then (-1, r)
  else
    let (rate, rest) := rateLoop 32 freq.toInt.toNat 0 false
    if rate < minRate ∨ rate > maxRate ∨ rest = true then (-1, r)
    else
      let rate := (initBaserate + 1 - UInt8.ofNat rate) &&& initBaserateMask
      (0, r.setRate rate)

/-- The loop of `rtc_read` has been left: `rtc_signal` was set. -/
def rtcRead (r : Rtc) : Int32 × Rtc := (0, { r with rtcSignal := false })

/-! ## The interrupt masks -/

theorem Rtc.enableIrq_rtcPort (r : Rtc) : r.enableIrq rtcPort = r := by
  have hline : I8259.enableIrq rtcPort r.irq = r.irq := if_pos (by decide)
  unfold Rtc.enableIrq
  rw [hline]

theorem Rtc.disableIrq_rtcPort (r : Rtc) : r.disableIrq rtcPort = r := by
  have hline : I8259.disableIrq rtcPort r.irq = r.irq := if_pos (by decide)
  unfold Rtc.disableIrq
  rw [hline]

theorem Rtc.setRate_irq (rate : UInt8) (r : Rtc) : (r.setRate rate).irq = r.irq := by
  unfold Rtc.setRate
  simp only [Rtc.enableIrq_rtcPort, Rtc.disableIrq_rtcPort]
  rfl

/-- **Opening the clock** leaves the interrupt masks as they are. -/
theorem rtcOpen_irq (r : Rtc) : (rtcOpen r).2.irq = r.irq := by
  unfold rtcOpen
  simp only [Rtc.enableIrq_rtcPort, Rtc.setRate_irq]
  rfl

/-- **Setting a frequency** does too. -/
theorem rtcWrite_irq (buf : Buf) (nbytes : Int32) (r : Rtc) :
    (rtcWrite buf nbytes r).2.irq = r.irq := by
  unfold rtcWrite
  dsimp only
  split
  · rfl
  · split
    · rfl
    · exact Rtc.setRate_irq _ r

end JuddOS
