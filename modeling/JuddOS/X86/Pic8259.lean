import Mathlib.Tactic.Common

/-!
# The 8259A interrupt controller

One chip, seen from its two ports.  The command port takes `ICW1`, which starts an
initialisation, and the operation words `OCW2` and `OCW3`; bits 4 and 3 of the byte tell them
apart.  The data port takes the words of a started initialisation, and otherwise the interrupt
mask.  Nothing here mentions the kernel.
-/

namespace JuddOS
namespace X86

/-- The word that the data port takes next. -/
inductive PicPhase
  | mask | icw2 | icw3 | icw4
  deriving DecidableEq

/-- The registers and modes of a chip. -/
structure Pic8259 where
  /-- The interrupt mask; a set bit disables a line. -/
  imr : UInt8
  /-- The lines in service. -/
  isr : UInt8
  phase : PicPhase
  single : Bool
  needsIcw4 : Bool
  vector : UInt8
  icw3 : UInt8
  icw4 : UInt8
  specialMask : Bool
  /-- The command port reads the lines in service. -/
  readIsr : Bool
  rotateOnAutoEoi : Bool
  /-- The line of the lowest priority. -/
  lowest : UInt8
  deriving DecidableEq

namespace Pic8259

/-- Bit `i` of a byte. -/
def bit (b : UInt8) (i : Nat) : Bool := b.toBitVec.getLsbD i

/-- The line is disabled. -/
def masked (p : Pic8259) (line : Nat) : Bool := bit p.imr line

/-- The line in service with the highest priority. -/
def highest (p : Pic8259) : Option Nat :=
  ((List.range 8).map fun i => (p.lowest.toNat + 1 + i) % 8).find? fun line => bit p.isr line

/-- The line is no longer in service. -/
def endOf (p : Pic8259) (line : Nat) : Pic8259 :=
  { p with isr := p.isr &&& ~~~ (1 <<< UInt8.ofNat line) }

/-- `ICW1` starts an initialisation, with a cleared mask. -/
def startInit (p : Pic8259) (word : UInt8) : Pic8259 :=
  { p with
    imr := 0, phase := .icw2, single := bit word 1, needsIcw4 := bit word 0
    specialMask := false, readIsr := false, lowest := 7 }

/-- `OCW2`: the three top bits say what to do, the three low ones may name a line. -/
def operate (p : Pic8259) (word : UInt8) : Pic8259 :=
  let line := (word &&& 7).toNat
  match bit word 7, bit word 6, bit word 5 with
  | false, false, true => (p.highest.map p.endOf).getD p
  | false, true, true => p.endOf line
  | true, false, true =>
      (p.highest.map fun i => { p.endOf i with lowest := UInt8.ofNat i }).getD p
  | true, true, true => { p.endOf line with lowest := word &&& 7 }
  | true, true, false => { p with lowest := word &&& 7 }
  | true, false, false => { p with rotateOnAutoEoi := true }
  | false, false, false => { p with rotateOnAutoEoi := false }
  | false, true, false => p

/-- `OCW3`: special mask mode, and what the command port reads. -/
def select (p : Pic8259) (word : UInt8) : Pic8259 :=
  { p with
    specialMask := if bit word 6 then bit word 5 else p.specialMask
    readIsr := if bit word 1 then bit word 0 else p.readIsr }

/-- A byte at the command port. -/
def writeCommand (p : Pic8259) (word : UInt8) : Pic8259 :=
  if bit word 4 then p.startInit word
  else if bit word 3 then p.select word
  else p.operate word

/-- A byte at the data port. -/
def writeData (p : Pic8259) (word : UInt8) : Pic8259 :=
  match p.phase with
  | .mask => { p with imr := word }
  | .icw2 =>
      { p with
        vector := word
        phase := if p.single then (if p.needsIcw4 then .icw4 else .mask) else .icw3 }
  | .icw3 => { p with icw3 := word, phase := if p.needsIcw4 then .icw4 else .mask }
  | .icw4 => { p with icw4 := word, phase := .mask }

/-- A byte from the data port. -/
def readData (p : Pic8259) : UInt8 := p.imr

@[simp] theorem writeData_of_mask {p : Pic8259} (h : p.phase = .mask) (word : UInt8) :
    p.writeData word = { p with imr := word } := by
  rw [writeData, h]

/-- **An initialisation of a cascaded chip** takes three words after `ICW1` and ends with a
cleared mask. -/
theorem initialise_mask (p : Pic8259) {icw1 : UInt8} (icw2 icw3 icw4 : UInt8)
    (hicw1 : bit icw1 4 = true) (hsingle : bit icw1 1 = false) (hicw4 : bit icw1 0 = true) :
    ((((p.writeCommand icw1).writeData icw2).writeData icw3).writeData icw4).phase = .mask ∧
      ((((p.writeCommand icw1).writeData icw2).writeData icw3).writeData icw4).imr = 0 := by
  have hstart : p.writeCommand icw1 =
      { p with
        imr := 0, phase := .icw2, single := false, needsIcw4 := true
        specialMask := false, readIsr := false, lowest := 7 } := by
    rw [writeCommand, if_pos hicw1, startInit, hsingle, hicw4]
  rw [hstart]
  exact ⟨rfl, rfl⟩

end Pic8259

end X86
end JuddOS
