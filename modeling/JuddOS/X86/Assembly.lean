import JuddOS.X86.Eflags
import JuddOS.X86.WordMemory

/-!
# Assembly code

The instructions that inline assembly and interrupt wrappers are written in, for kernel code in a
flat memory.  A program is given by the code from each of its labels on, so a jump is to a list of
instructions and not to a number.

* `Program.step` is one instruction; the address of a string instruction stays until its count
  is zero.  An `iret`, or the end of the code, ends a run.
* `Reaches` is a sequence of steps, with the calls that were made through a table;
  `Reaches.unique` says that the end is determined.
* `isLess_flagsOfSub` says what the flags of a comparison mean.

The parity and adjust flags are left out; no instruction here tests them.
-/

namespace JuddOS
namespace X86

/-- A flag gets a value. -/
def Eflags.put (f : Eflags) (i : Nat) (b : Bool) : Eflags := if b then f.set i else f.clear i

theorem Eflags.getLsbD_put (f : Eflags) {i j : Nat} (b : Bool) (hj : j < 32) :
    (f.put i b).getLsbD j = if i = j then b else f.getLsbD j := by
  have hone : (1#32 <<< i).getLsbD j = decide (i = j) := by
    simp only [BitVec.getLsbD_shiftLeft, BitVec.getLsbD_one, hj, decide_true, Bool.true_and]
    by_cases hlt : j < i
    · have hne : i ≠ j := by omega
      simp [hlt, hne]
    · have hiff : (j - i = 0) = (i = j) := propext (by omega)
      simp [hlt, hiff]
  cases b with
  | false =>
      have hclear : (f.put i false).getLsbD j = (f.getLsbD j && !decide (i = j)) := by
        change (f &&& ~~~ (1#32 <<< i)).getLsbD j = _
        rw [BitVec.getLsbD_and, BitVec.getLsbD_not, hone, decide_eq_true hj, Bool.true_and]
      rw [hclear]
      by_cases heq : i = j <;> simp [heq]
  | true =>
      have hset : (f.put i true).getLsbD j = (f.getLsbD j || decide (i = j)) := by
        change (f ||| (1#32 <<< i)).getLsbD j = _
        rw [BitVec.getLsbD_or, hone]
      rw [hset]
      by_cases heq : i = j <;> simp [heq]

namespace Asm

inductive Reg
  | eax | ebx | ecx | edx | esi | edi | ebp | esp
  deriving DecidableEq

inductive Seg
  | ds | es | fs
  deriving DecidableEq

/-- The registers, the flags and the memory. -/
structure State where
  regs : Reg → Word
  segs : Seg → BitVec 16
  eflags : Eflags
  mem : Memory

/-- A source operand. -/
inductive Src
  | imm (w : Word)
  | reg (r : Reg)

/-- An instruction, with the operands in the order of the assembler; `L` has the labels. -/
inductive Instruction (L : Type)
  | movl (src : Src) (dst : Reg)
  /-- `movb (address), dst`, into the low byte. -/
  | movbLoad (address dst : Reg)
  /-- `movb src, (address)`, from the low byte. -/
  | movbStore (src address : Reg)
  | movwFromSeg (src : Seg) (dst : Reg)
  | movwToSeg (src : Reg) (dst : Seg)
  | addl (src : Src) (dst : Reg)
  | subl (src : Src) (dst : Reg)
  | andl (src : Src) (dst : Reg)
  | shrl (count : Nat) (dst : Reg)
  | decl (dst : Reg)
  | cmpl (src : Src) (dst : Reg)
  | testl (src : Src) (dst : Reg)
  | cli
  | sti
  | cld
  | repMovsl
  | repStosl
  | pushl (src : Reg)
  | popl (dst : Reg)
  | pushSeg (src : Seg)
  | popSeg (dst : Seg)
  | pushfl
  | popfl
  | jmp (label : L)
  | jz (label : L)
  | jl (label : L)
  | jg (label : L)
  /-- `call *table(,index,4)`. -/
  | callTable (index : Reg)
  | iret

/-! ## Flags -/

/-- The flags of a result. -/
def flagsOf (f : Eflags) (carry overflow : Bool) (result : Word) : Eflags :=
  (((f.put 0 carry).put 6 (result == 0)).put 7 result.msb).put 11 overflow

/-- ZF. -/
def isZero (f : Eflags) : Bool := f.getLsbD 6

/-- What `jl` tests: SF and OF differ. -/
def isLess (f : Eflags) : Bool := f.getLsbD 7 != f.getLsbD 11

/-- What `jg` tests. -/
def isGreater (f : Eflags) : Bool := !isLess f && !isZero f

/-- The flags of `cmpl src, dst`, which are those of `dst - src`. -/
def flagsOfSub (f : Eflags) (src dst : Word) : Eflags :=
  flagsOf f (dst.ult src) (dst.ssubOverflow src) (dst - src)

/-- The step of a string instruction: DF makes it go down. -/
def stringStep (f : Eflags) : Word := if f.getLsbD 10 then -4 else 4

theorem isZero_flagsOf (f : Eflags) (carry overflow : Bool) (result : Word) :
    isZero (flagsOf f carry overflow result) = (result == 0) := by
  unfold isZero flagsOf
  rw [Eflags.getLsbD_put _ _ (by decide), if_neg (by decide),
    Eflags.getLsbD_put _ _ (by decide), if_neg (by decide),
    Eflags.getLsbD_put _ _ (by decide), if_pos rfl]

theorem isLess_flagsOf (f : Eflags) (carry overflow : Bool) (result : Word) :
    isLess (flagsOf f carry overflow result) = (result.msb != overflow) := by
  unfold isLess flagsOf
  rw [Eflags.getLsbD_put _ _ (by decide), if_neg (by decide),
    Eflags.getLsbD_put _ _ (by decide), if_pos rfl,
    Eflags.getLsbD_put _ _ (by decide), if_pos rfl]

/-- **A signed comparison**: `jl` after `cmpl src, dst` is taken when `dst` is smaller. -/
theorem isLess_flagsOfSub (f : Eflags) (src dst : Word) :
    isLess (flagsOfSub f src dst) = decide (dst.toInt < src.toInt) := by
  rw [flagsOfSub, isLess_flagsOf, BitVec.msb_eq_toInt, BitVec.toInt_sub, BitVec.ssubOverflow]
  have hsrc : -2 ^ 31 ≤ src.toInt := BitVec.le_toInt src
  have hsrc' : src.toInt < 2 ^ 31 := BitVec.toInt_lt
  have hdst : -2 ^ 31 ≤ dst.toInt := BitVec.le_toInt dst
  have hdst' : dst.toInt < 2 ^ 31 := BitVec.toInt_lt
  generalize src.toInt = y at *
  generalize dst.toInt = x at *
  change (decide ((x - y).bmod (2 ^ 32) < 0) !=
    (decide (x - y ≥ 2 ^ 31) || decide (x - y < -2 ^ 31))) = decide (x < y)
  have hmin : -2 ^ 31 ≤ (x - y).bmod (2 ^ 32) := Int.le_bmod (by decide)
  have hmax : (x - y).bmod (2 ^ 32) < 2 ^ 31 := Int.bmod_lt (by decide)
  obtain ⟨wraps, hwraps⟩ : ((2 ^ 32 : Nat) : Int) ∣ x - y - (x - y).bmod (2 ^ 32) :=
    Int.dvd_self_sub_bmod
  generalize (x - y).bmod (2 ^ 32) = difference at *
  -- the difference wraps around exactly when it overflows
  have hiff : (difference < 0 ↔ ¬ (x - y ≥ 2 ^ 31 ∨ x - y < -2 ^ 31)) ↔ x < y := by omega
  rw [Bool.eq_iff_iff, decide_eq_true_iff, ← hiff, bne_iff_ne, ← Bool.decide_or, ne_eq,
    decide_eq_decide]
  tauto

theorem isZero_flagsOfSub (f : Eflags) (src dst : Word) :
    isZero (flagsOfSub f src dst) = decide (dst = src) := by
  rw [flagsOfSub, isZero_flagsOf, Bool.eq_iff_iff, beq_iff_eq, decide_eq_true_iff]
  rw [BitVec.sub_eq_iff_eq_add]
  simp

/-- `jg` after `cmpl src, dst` is taken when `dst` is greater. -/
theorem isGreater_flagsOfSub (f : Eflags) (src dst : Word) :
    isGreater (flagsOfSub f src dst) = decide (src.toInt < dst.toInt) := by
  rw [isGreater, isLess_flagsOfSub, isZero_flagsOfSub, ← decide_not, ← decide_not,
    ← Bool.decide_and]
  refine decide_eq_decide.mpr ?_
  rw [← BitVec.toInt_inj]
  omega

namespace State

def src (s : State) : Src → Word
  | .imm w => w
  | .reg r => s.regs r

def setReg (s : State) (r : Reg) (w : Word) : State :=
  { s with regs := Function.update s.regs r w }

def setSeg (s : State) (g : Seg) (w : BitVec 16) : State :=
  { s with segs := Function.update s.segs g w }

def push (s : State) (w : Word) : State :=
  { s with
    regs := Function.update s.regs .esp (s.regs .esp - 4)
    mem := storeWord s.mem (s.regs .esp - 4) w }

/-- The word on top of the stack. -/
def top (s : State) : Word := loadWord s.mem (s.regs .esp)

/-- The stack pointer goes up by a word. -/
def drop (s : State) : State := s.setReg .esp (s.regs .esp + 4)

/-- These words are on the stack. -/
def Stacked (s : State) (ws : List Word) : Prop := Holds s.mem (s.regs .esp) ws

/-- One word of `rep movsl`. -/
def movs (s : State) : State :=
  { s with
    mem := storeWord s.mem (s.regs .edi) (loadWord s.mem (s.regs .esi))
    regs := Function.update (Function.update (Function.update s.regs .esi
      (s.regs .esi + stringStep s.eflags)) .edi (s.regs .edi + stringStep s.eflags)) .ecx
      (s.regs .ecx - 1) }

/-- One word of `rep stosl`. -/
def stos (s : State) : State :=
  { s with
    mem := storeWord s.mem (s.regs .edi) (s.regs .eax)
    regs := Function.update (Function.update s.regs .edi (s.regs .edi + stringStep s.eflags)) .ecx
      (s.regs .ecx - 1) }

/-- An arithmetic instruction writes its result and the flags. -/
def arith (s : State) (dst : Reg) (result : Word) (f : Eflags) : State :=
  { s with regs := Function.update s.regs dst result, eflags := f }

@[simp] theorem arith_regs_self (s : State) (r : Reg) (w : Word) (f : Eflags) :
    (s.arith r w f).regs r = w := Function.update_self _ _ _

/-- `cmpl a, r` only writes the flags. -/
def cmp (s : State) (a : Src) (r : Reg) : State :=
  { s with eflags := flagsOfSub s.eflags (s.src a) (s.regs r) }

/-- So does `testl a, r`. -/
def test (s : State) (a : Src) (r : Reg) : State :=
  { s with eflags := flagsOf s.eflags false false (s.regs r &&& s.src a) }

theorem isZero_test (s : State) (a : Src) (r : Reg) :
    isZero (s.test a r).eflags = (s.regs r &&& s.src a == 0) := isZero_flagsOf _ _ _ _

@[simp] theorem setReg_self (s : State) (r : Reg) (w : Word) : (s.setReg r w).regs r = w :=
  Function.update_self _ _ _

/-! ### The stack -/

theorem push_regs (s : State) (w : Word) {r : Reg} (hr : r ≠ .esp) :
    (s.push w).regs r = s.regs r := Function.update_of_ne hr _ _

@[simp] theorem push_esp (s : State) (w : Word) : (s.push w).regs .esp = s.regs .esp - 4 :=
  Function.update_self Reg.esp _ s.regs

theorem Stacked.push {s : State} {ws : List Word} (h : s.Stacked ws) (w : Word)
    (hroom : 4 * (ws.length + 1) ≤ 2 ^ 32) : (s.push w).Stacked (w :: ws) := by
  have hesp := s.push_esp w
  rw [Stacked, hesp]
  exact Holds.push h w hroom

@[simp] theorem drop_esp (s : State) : s.drop.regs .esp = s.regs .esp + 4 :=
  Function.update_self Reg.esp _ s.regs

/-- `t` is `s` after these words were pushed on `base`. -/
structure Pushed (s : State) (base ws : List Word) (t : State) : Prop where
  regs : ∀ r, r ≠ .esp → t.regs r = s.regs r
  segs : ∀ g, t.segs g = s.segs g
  eflags : t.eflags = s.eflags
  esp : t.regs .esp = s.regs .esp - BitVec.ofNat 32 (4 * ws.length)
  stack : t.Stacked (ws ++ base)

theorem Pushed.refl {s : State} {base : List Word} (h : s.Stacked base) : Pushed s base [] s :=
  ⟨fun _ _ => rfl, fun _ => rfl, rfl, (BitVec.sub_zero _).symm, h⟩

theorem Pushed.push {s t : State} {base ws : List Word} (h : Pushed s base ws t) (w : Word)
    (hroom : 4 * (ws.length + base.length + 1) ≤ 2 ^ 32) : Pushed s base (w :: ws) (t.push w) where
  regs r hr := (t.push_regs w hr).trans (h.regs r hr)
  segs := h.segs
  eflags := h.eflags
  esp := by
    have hsum : 4 * (w :: ws).length = 4 * ws.length + 4 := by rw [List.length_cons]; omega
    rw [push_esp, h.esp, hsum, BitVec.ofNat_add]
    bv_omega
  stack := by
    rw [List.cons_append]
    refine h.stack.push w ?_
    rw [List.length_append]
    exact hroom

/-- A pop takes the word on top. -/
theorem Stacked.pop {s : State} {w : Word} {ws : List Word} (h : s.Stacked (w :: ws)) :
    s.top = w ∧ s.drop.Stacked ws := by
  refine ⟨h.1, ?_⟩
  rw [Stacked, drop_esp]
  exact h.2

end State

/-! ## Programs -/

/-- What a called function does; `none` means that it does not return. -/
abbrev Handler : Type := State → Option State

/-- A call through the table. -/
structure Call where
  index : Nat
  entry : State
  result : State

/-- The code from each label on, the table of an indirect call, and the address that the call
pushes. -/
structure Program (L : Type) where
  block : L → List (Instruction L)
  table : Nat → Option Handler
  returnAddress : Word

/-- The code that is left, and the state. -/
structure Config (L : Type) where
  code : List (Instruction L)
  state : State

namespace Program

variable {L : Type} (p : Program L)

/-- The code after a conditional jump. -/
def jump (taken : Bool) (label : L) (rest : List (Instruction L)) : List (Instruction L) :=
  if taken then p.block label else rest

/-- The first instruction of `rest` before the others; `none` ends the run. -/
def exec (s : State) (rest : List (Instruction L)) : Instruction L → Option (List Call × Config L)
  | .movl a r => some ([], ⟨rest, s.setReg r (s.src a)⟩)
  | .movbLoad a r =>
      some ([], ⟨rest, s.setReg r ((s.regs r).extractLsb' 8 24 ++ s.mem (s.regs a))⟩)
  | .movbStore r a =>
      some ([], ⟨rest,
        { s with mem := Function.update s.mem (s.regs a) ((s.regs r).setWidth 8) }⟩)
  | .movwFromSeg g r =>
      some ([], ⟨rest, s.setReg r ((s.regs r).extractLsb' 16 16 ++ s.segs g)⟩)
  | .movwToSeg r g => some ([], ⟨rest, s.setSeg g ((s.regs r).setWidth 16)⟩)
  | .addl a r =>
      let result := s.regs r + s.src a
      some ([], ⟨rest, s.arith r result (flagsOf s.eflags (BitVec.uaddOverflow (s.regs r) (s.src a))
        (BitVec.saddOverflow (s.regs r) (s.src a)) result)⟩)
  | .subl a r =>
      some ([], ⟨rest, s.arith r (s.regs r - s.src a) (flagsOfSub s.eflags (s.src a) (s.regs r))⟩)
  | .andl a r =>
      let result := s.regs r &&& s.src a
      some ([], ⟨rest, s.arith r result (flagsOf s.eflags false false result)⟩)
  | .shrl count r =>
      -- OF is undefined for a count above 1; it stays here
      let result := s.regs r >>> count
      some ([], ⟨rest, s.arith r result
        (flagsOf s.eflags ((s.regs r).getLsbD (count - 1)) (s.eflags.getLsbD 11) result)⟩)
  | .decl r =>
      -- CF stays
      let result := s.regs r - 1
      some ([], ⟨rest, s.arith r result
        (flagsOf s.eflags (s.eflags.getLsbD 0) (BitVec.ssubOverflow (s.regs r) 1) result)⟩)
  | .cmpl a r => some ([], ⟨rest, s.cmp a r⟩)
  | .testl a r => some ([], ⟨rest, s.test a r⟩)
  | .cli => some ([], ⟨rest, { s with eflags := s.eflags.clear 9 }⟩)
  | .sti => some ([], ⟨rest, { s with eflags := s.eflags.set 9 }⟩)
  | .cld => some ([], ⟨rest, { s with eflags := s.eflags.clear 10 }⟩)
  | .repMovsl =>
      some ([], if s.regs .ecx = 0 then ⟨rest, s⟩ else ⟨.repMovsl :: rest, s.movs⟩)
  | .repStosl =>
      some ([], if s.regs .ecx = 0 then ⟨rest, s⟩ else ⟨.repStosl :: rest, s.stos⟩)
  | .pushl r => some ([], ⟨rest, s.push (s.regs r)⟩)
  | .popl r => some ([], ⟨rest, s.drop.setReg r s.top⟩)
  | .pushSeg g => some ([], ⟨rest, s.push ((s.segs g).setWidth 32)⟩)
  | .popSeg g => some ([], ⟨rest, s.drop.setSeg g (s.top.setWidth 16)⟩)
  | .pushfl => some ([], ⟨rest, s.push s.eflags⟩)
  | .popfl => some ([], ⟨rest, { s.drop with eflags := s.top }⟩)
  | .jmp label => some ([], ⟨p.block label, s⟩)
  | .jz label => some ([], ⟨p.jump (isZero s.eflags) label rest, s⟩)
  | .jl label => some ([], ⟨p.jump (isLess s.eflags) label rest, s⟩)
  | .jg label => some ([], ⟨p.jump (isGreater s.eflags) label rest, s⟩)
  | .callTable r =>
      let entry := s.push p.returnAddress
      (p.table (s.regs r).toNat).bind fun handler =>
        (handler entry).map fun result =>
          ([⟨(s.regs r).toNat, entry, result⟩], ⟨rest, result⟩)
  | .iret => none

/-- One step. -/
def step : Config L → Option (List Call × Config L)
  | ⟨[], _⟩ => none
  | ⟨i :: rest, s⟩ => p.exec s rest i

variable {p} {s : State} {label : L} {rest : List (Instruction L)}

/-- A push of a register. -/
theorem step_pushl {t : State} {base ws : List Word} (h : State.Pushed s base ws t) {r : Reg}
    (hr : r ≠ .esp) (hroom : 4 * (ws.length + base.length + 1) ≤ 2 ^ 32) :
    ∃ t', p.step ⟨.pushl r :: rest, t⟩ = some ([], ⟨rest, t'⟩) ∧
      State.Pushed s base (s.regs r :: ws) t' := by
  refine ⟨t.push (s.regs r), ?_, h.push _ hroom⟩
  rw [step, exec, h.regs r hr]

theorem step_pushSeg {t : State} {base ws : List Word} (h : State.Pushed s base ws t) (g : Seg)
    (hroom : 4 * (ws.length + base.length + 1) ≤ 2 ^ 32) :
    ∃ t', p.step ⟨.pushSeg g :: rest, t⟩ = some ([], ⟨rest, t'⟩) ∧
      State.Pushed s base ((s.segs g).setWidth 32 :: ws) t' := by
  refine ⟨t.push ((s.segs g).setWidth 32), ?_, h.push _ hroom⟩
  rw [step, exec, h.segs g]

theorem step_pushfl {t : State} {base ws : List Word} (h : State.Pushed s base ws t)
    (hroom : 4 * (ws.length + base.length + 1) ≤ 2 ^ 32) :
    ∃ t', p.step ⟨.pushfl :: rest, t⟩ = some ([], ⟨rest, t'⟩) ∧
      State.Pushed s base (s.eflags :: ws) t' := by
  refine ⟨t.push s.eflags, ?_, h.push _ hroom⟩
  rw [step, exec, h.eflags]

/-- A pop into a register. -/
theorem step_popl {r : Reg} {w : Word} {ws : List Word} (h : s.Stacked (w :: ws)) (hr : r ≠ .esp) :
    p.step ⟨.popl r :: rest, s⟩ = some ([], ⟨rest, s.drop.setReg r w⟩) ∧
      (s.drop.setReg r w).Stacked ws := by
  obtain ⟨htop, hdrop⟩ := h.pop
  constructor
  · rw [step, exec, htop]
  · have hesp : (s.drop.setReg r w).regs .esp = s.drop.regs .esp :=
      Function.update_of_ne hr.symm _ _
    rw [State.Stacked, hesp]
    exact hdrop

theorem step_popSeg {g : Seg} {w : Word} {ws : List Word} (h : s.Stacked (w :: ws)) :
    p.step ⟨.popSeg g :: rest, s⟩ = some ([], ⟨rest, s.drop.setSeg g (w.setWidth 16)⟩) ∧
      (s.drop.setSeg g (w.setWidth 16)).Stacked ws := by
  obtain ⟨htop, hdrop⟩ := h.pop
  refine ⟨?_, hdrop⟩
  rw [step, exec, htop]

theorem step_popfl {w : Word} {ws : List Word} (h : s.Stacked (w :: ws)) :
    p.step ⟨.popfl :: rest, s⟩ = some ([], ⟨rest, { s.drop with eflags := w }⟩) ∧
      ({ s.drop with eflags := w } : State).Stacked ws := by
  obtain ⟨htop, hdrop⟩ := h.pop
  refine ⟨?_, hdrop⟩
  rw [step, exec, htop]

/-- A call through the table that returns. -/
theorem step_callTable {r : Reg} {index : Nat} {handler : Handler} {result : State}
    (hindex : (s.regs r).toNat = index) (htable : p.table index = some handler)
    (hresult : handler (s.push p.returnAddress) = some result) :
    p.step ⟨.callTable r :: rest, s⟩ =
      some ([⟨index, s.push p.returnAddress, result⟩], ⟨rest, result⟩) := by
  rw [step, exec, hindex, htable, Option.bind_some, hresult, Option.map_some]

/-- One that does not. -/
theorem step_callTable_none {r : Reg} {index : Nat} {handler : Handler}
    (hindex : (s.regs r).toNat = index) (htable : p.table index = some handler)
    (hresult : handler (s.push p.returnAddress) = none) :
    p.step ⟨.callTable r :: rest, s⟩ = none := by
  rw [step, exec, hindex, htable, Option.bind_some, hresult, Option.map_none]

theorem step_jz_taken (h : isZero s.eflags = true) :
    p.step ⟨.jz label :: rest, s⟩ = some ([], ⟨p.block label, s⟩) := by
  rw [step, exec, jump, if_pos h]

theorem step_jz_skipped (h : isZero s.eflags = false) :
    p.step ⟨.jz label :: rest, s⟩ = some ([], ⟨rest, s⟩) := by
  rw [step, exec, jump, h, if_neg Bool.false_ne_true]

theorem step_jl_taken (h : isLess s.eflags = true) :
    p.step ⟨.jl label :: rest, s⟩ = some ([], ⟨p.block label, s⟩) := by
  rw [step, exec, jump, if_pos h]

theorem step_jg_taken (h : isGreater s.eflags = true) :
    p.step ⟨.jg label :: rest, s⟩ = some ([], ⟨p.block label, s⟩) := by
  rw [step, exec, jump, if_pos h]

theorem step_jg_skipped (h : isGreater s.eflags = false) :
    p.step ⟨.jg label :: rest, s⟩ = some ([], ⟨rest, s⟩) := by
  rw [step, exec, jump, h, if_neg Bool.false_ne_true]

theorem step_jl_skipped (h : isLess s.eflags = false) :
    p.step ⟨.jl label :: rest, s⟩ = some ([], ⟨rest, s⟩) := by
  rw [step, exec, jump, h, if_neg Bool.false_ne_true]

end Program

/-- A sequence of steps, with the calls that were made. -/
inductive Reaches {L : Type} (p : Program L) : Config L → List Call → Config L → Prop
  | refl (c : Config L) : Reaches p c [] c
  | step {c c₁ c₂ : Config L} {calls calls' : List Call} (first : p.step c = some (calls, c₁))
      (rest : Reaches p c₁ calls' c₂) : Reaches p c (calls ++ calls') c₂

namespace Reaches

variable {L : Type} {p : Program L} {c c₁ c₂ : Config L} {calls calls' : List Call}

/-- A step without a call. -/
theorem next (first : p.step c = some ([], c₁)) (rest : Reaches p c₁ calls c₂) :
    Reaches p c calls c₂ := .step first rest

theorem trans (h : Reaches p c calls c₁) (h' : Reaches p c₁ calls' c₂) :
    Reaches p c (calls ++ calls') c₂ := by
  induction h with
  | refl => exact h'
  | step first _ ih =>
      rw [List.append_assoc]
      exact .step first (ih h')

/-- Steps without a call, and then others. -/
theorem andThen (h : Reaches p c [] c₁) (h' : Reaches p c₁ calls c₂) : Reaches p c calls c₂ :=
  h.trans h'

/-- **The end of a run is determined.** -/
theorem unique (h : Reaches p c calls c₁) (hend : p.step c₁ = none) (h' : Reaches p c calls' c₂)
    (hend' : p.step c₂ = none) : calls' = calls ∧ c₂ = c₁ := by
  induction h generalizing calls' with
  | refl =>
      cases h' with
      | refl => exact ⟨rfl, rfl⟩
      | step first _ =>
          rw [hend] at first
          cases first
  | step first _ ih =>
      cases h' with
      | refl =>
          rw [hend'] at first
          cases first
      | step first' rest' =>
          rw [first] at first'
          cases first'
          obtain ⟨rfl, rfl⟩ := ih hend rest'
          exact ⟨rfl, rfl⟩

end Reaches

/-- **Total correctness**: the run ends, with these calls and in this configuration. -/
def Terminates {L : Type} (p : Program L) (c : Config L) (post : List Call → Config L → Prop) :
    Prop :=
  ∃ calls c', Reaches p c calls c' ∧ p.step c' = none ∧ post calls c'

/-- There is no other end. -/
theorem Terminates.of_end {L : Type} {p : Program L} {c c' : Config L} {calls : List Call}
    {post : List Call → Config L → Prop} (h : Terminates p c post) (hrun : Reaches p c calls c')
    (hend : p.step c' = none) : post calls c' := by
  obtain ⟨calls', c₁, hrun₁, hend₁, hpost⟩ := h
  obtain ⟨rfl, rfl⟩ := hrun₁.unique hend₁ hrun hend
  exact hpost

end Asm

end X86
end JuddOS
