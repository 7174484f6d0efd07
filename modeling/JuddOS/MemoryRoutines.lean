import JuddOS.Lib
import JuddOS.X86.Assembly

/-!
# `memcpy` and `memset`: the assembly code

Both routines are the same loops around a unit of work on one byte: bytes until the destination is
aligned, then words by a string instruction, then the bytes that are left.  `wordWise` is that code
for any unit, and `wordWise_ends` says that it ends after `n` bytes, for any invariant that the unit
and the string instruction carry on.

`memory_routines_exact`: from every alignment and for every count, `memcpy` leaves exactly the copy
and `memset` exactly the fill.  `memcpy_refines`: that copy is the `memcpy` of byte buffers.
-/

namespace JuddOS

open X86 X86.Asm

inductive WordWiseLabel
  | top | aligned | bottom | done

/-- The bytes that are left after the words, one unit each. -/
def wordWiseBottom (unit : List (Instruction WordWiseLabel)) : List (Instruction WordWiseLabel) :=
  [.testl (.reg .edx) .edx, .jz .done] ++ unit ++ [.subl (.imm 1) .edx, .jmp .bottom]

/-- The code of both routines. -/
def wordWiseBlock (unit : List (Instruction WordWiseLabel)) (words : Instruction WordWiseLabel) :
    WordWiseLabel → List (Instruction WordWiseLabel)
  | .top =>
      [.testl (.reg .ecx) .ecx, .jz .done, .testl (.imm 3) .edi, .jz .aligned] ++ unit ++
        [.subl (.imm 1) .ecx, .jmp .top]
  | .aligned =>
      [.movwFromSeg .ds .edx, .movwToSeg .edx .es, .movl (.reg .ecx) .edx, .shrl 2 .ecx,
        .andl (.imm 3) .edx, .cld, words] ++ wordWiseBottom unit
  | .bottom => wordWiseBottom unit
  | .done => []

def wordWise (unit : List (Instruction WordWiseLabel)) (words : Instruction WordWiseLabel) :
    Program WordWiseLabel where
  block := wordWiseBlock unit words
  table _ := none
  returnAddress := 0

/-- `memcpy`. -/
def memcpyProgram : Program WordWiseLabel :=
  wordWise
    [.movbLoad .esi .eax, .movbStore .eax .edi, .addl (.imm 1) .edi, .addl (.imm 1) .esi]
    .repMovsl

/-- `memset`. -/
def memsetProgram : Program WordWiseLabel :=
  wordWise [.movbStore .eax .edi, .addl (.imm 1) .edi] .repStosl

/-- The operands of the assembly code of `memcpy`. -/
def memcpyEntry (dest src n : Word) (s : State) : State :=
  ((s.setReg .esi src).setReg .edi dest).setReg .ecx n

/-- Those of `memset`, after `c &= 0xFF`. -/
def memsetEntry (dest c n : Word) (s : State) : State :=
  let c := c &&& 0xFF
  ((s.setReg .eax (c <<< 24 ||| c <<< 16 ||| c <<< 8 ||| c)).setReg .edi dest).setReg .ecx n

/-! ## The loops -/

section WordWise

/-- What the loops rely on: an invariant of the first `k` bytes that does not depend on the
counters, and that a unit and one word carry on. -/
structure Carries (unit : List (Instruction WordWiseLabel)) (words : Instruction WordWiseLabel)
    (Inv : Nat → State → Prop) (n : Nat) : Prop where
  /-- The counters, the flags and ES are free. -/
  frame : ∀ k s s', Inv k s → s'.mem = s.mem →
    (∀ r, r ≠ .ecx → r ≠ .edx → s'.regs r = s.regs r) → Inv k s'
  oneByte : ∀ k s rest, k < n → Inv k s → ∃ s',
    Reaches (wordWise unit words) ⟨unit ++ rest, s⟩ [] ⟨rest, s'⟩ ∧ Inv (k + 1) s' ∧
      s'.regs .ecx = s.regs .ecx ∧ s'.regs .edx = s.regs .edx
  oneWord : ∀ k s rest, k + 4 ≤ n → Inv k s → stringStep s.eflags = 4 → s.regs .ecx ≠ 0 → ∃ s',
    Reaches (wordWise unit words) ⟨words :: rest, s⟩ [] ⟨words :: rest, s'⟩ ∧ Inv (k + 4) s' ∧
      stringStep s'.eflags = 4 ∧ s'.regs .ecx = s.regs .ecx - 1 ∧ s'.regs .edx = s.regs .edx
  wordsEnd : ∀ s rest, s.regs .ecx = 0 →
    Reaches (wordWise unit words) ⟨words :: rest, s⟩ [] ⟨rest, s⟩

variable {unit : List (Instruction WordWiseLabel)} {words : Instruction WordWiseLabel}
  {Inv : Nat → State → Prop} {n : Nat}

theorem ofNat_succ_sub_one (t : Nat) : BitVec.ofNat 32 (t + 1) - 1 = BitVec.ofNat 32 t := by
  rw [BitVec.ofNat_add]
  exact BitVec.add_sub_cancel _ _

/-- `testl r, r` of a counter. -/
theorem isZero_test_self {s : State} {r : Reg} {t : Nat} (ht : s.regs r = BitVec.ofNat 32 t)
    (hlt : t < 2 ^ 32) : isZero (s.test (.reg r) r).eflags = decide (t = 0) := by
  have hself : s.regs r &&& s.src (.reg r) = BitVec.ofNat 32 t := by
    rw [State.src, BitVec.and_self, ht]
  rw [State.isZero_test, hself, Bool.eq_iff_iff, beq_iff_eq, decide_eq_true_iff]
  constructor
  · intro hzero
    have hnat := congrArg BitVec.toNat hzero
    rwa [offset_toNat hlt] at hnat
  · rintro rfl
    rfl

/-- The invariant does not see a test. -/
theorem Carries.test (h : Carries unit words Inv n) {k : Nat} {s : State} (hinv : Inv k s)
    (a : Src) (r : Reg) : Inv k (s.test a r) :=
  h.frame k s _ hinv rfl fun _ _ _ => rfl

/-- Nor a counter that goes down. -/
theorem Carries.countDown (h : Carries unit words Inv n) {k t : Nat} {s : State}
    (hinv : Inv k s) {r : Reg} (hr : r = .ecx ∨ r = .edx)
    (ht : s.regs r = BitVec.ofNat 32 (t + 1)) :
    Inv k (s.arith r (s.regs r - 1) (flagsOfSub s.eflags 1 (s.regs r))) ∧
      (s.arith r (s.regs r - 1) (flagsOfSub s.eflags 1 (s.regs r))).regs r =
        BitVec.ofNat 32 t := by
  constructor
  · refine h.frame k s _ hinv rfl fun r' hecx hedx => ?_
    have hne : r' ≠ r := by
      rcases hr with rfl | rfl
      · exact hecx
      · exact hedx
    exact Function.update_of_ne hne _ _
  · rw [State.arith_regs_self, ht, ofNat_succ_sub_one]

/-- The bytes that are left. -/
theorem Carries.bottom (h : Carries unit words Inv n) (hn : n < 2 ^ 32) {k t : Nat} {s : State}
    (hinv : Inv k s) (ht : s.regs .edx = BitVec.ofNat 32 t) (hkt : k + t = n) :
    ∃ s', Reaches (wordWise unit words) ⟨wordWiseBottom unit, s⟩ [] ⟨[], s'⟩ ∧ Inv n s' := by
  have hzero := isZero_test_self ht (by omega)
  have htest := h.test hinv (.reg .edx) .edx
  induction t generalizing k s with
  | zero =>
      obtain rfl : k = n := hkt
      exact ⟨_, .next rfl (.next (Program.step_jz_taken hzero) (.refl _)), htest⟩
  | succ t ih =>
      obtain ⟨s₁, hunit, hinv₁, -, hedx⟩ := h.oneByte k _ [.subl (.imm 1) .edx, .jmp .bottom]
        (by omega) htest
      obtain ⟨hcount, hleft⟩ := h.countDown hinv₁ (.inr rfl) (hedx.trans ht)
      obtain ⟨s', hrest, hinv'⟩ := ih hcount hleft (by omega)
        (isZero_test_self hleft (by omega)) (h.test hcount _ _)
      exact ⟨s', .next rfl (.next (Program.step_jz_skipped hzero)
        (hunit.andThen (.next rfl (.next rfl hrest)))), hinv'⟩

/-- The words. -/
theorem Carries.words_loop (h : Carries unit words Inv n) {k q : Nat} {s : State}
    (rest : List (Instruction WordWiseLabel)) (hinv : Inv k s)
    (hq : s.regs .ecx = BitVec.ofNat 32 q) (hlt : q < 2 ^ 32) (hkq : k + 4 * q ≤ n)
    (hup : stringStep s.eflags = 4) :
    ∃ s', Reaches (wordWise unit words) ⟨words :: rest, s⟩ [] ⟨rest, s'⟩ ∧ Inv (k + 4 * q) s' ∧
      s'.regs .edx = s.regs .edx := by
  induction q generalizing k s with
  | zero => exact ⟨s, h.wordsEnd s rest hq, hinv, rfl⟩
  | succ q ih =>
      have hne : s.regs .ecx ≠ 0 := by
        rw [hq]
        intro hzero
        have hnat := congrArg BitVec.toNat hzero
        rw [offset_toNat hlt] at hnat
        exact absurd hnat (Nat.succ_ne_zero q)
      obtain ⟨s₁, hword, hinv₁, hup₁, hecx, hedx⟩ := h.oneWord k s rest (by omega) hinv hup hne
      rw [hq, ofNat_succ_sub_one] at hecx
      obtain ⟨s', hloop, hinv', hedx'⟩ := ih hinv₁ hecx (by omega) (by omega) hup₁
      refine ⟨s', hword.andThen hloop, ?_, hedx'.trans hedx⟩
      rw [show k + 4 * (q + 1) = k + 4 + 4 * q by omega]
      exact hinv'

/-- The words and the bytes that are left. -/
theorem Carries.aligned (h : Carries unit words Inv n) (hn : n < 2 ^ 32) {k r : Nat} {s : State}
    (hinv : Inv k s) (hr : s.regs .ecx = BitVec.ofNat 32 r) (hkr : k + r = n) :
    ∃ s', Reaches (wordWise unit words) ⟨(wordWise unit words).block .aligned, s⟩ [] ⟨[], s'⟩ ∧
      Inv n s' := by
  obtain ⟨s₁, hprologue, hmem, hregs, hecx, hedx, hup⟩ : ∃ s₁,
      Reaches (wordWise unit words) ⟨(wordWise unit words).block .aligned, s⟩ []
        ⟨words :: wordWiseBottom unit, s₁⟩ ∧ s₁.mem = s.mem ∧
      (∀ r, r ≠ .ecx → r ≠ .edx → s₁.regs r = s.regs r) ∧
      s₁.regs .ecx = s.regs .ecx >>> 2 ∧ s₁.regs .edx = s.regs .ecx &&& 3 ∧
      stringStep s₁.eflags = 4 := by
    refine ⟨_, .next rfl (.next rfl (.next rfl (.next rfl (.next rfl (.next rfl (.refl _)))))),
      rfl, ?_, ?_, ?_, ?_⟩
    · intro r hecx hedx
      simp [State.setReg, State.setSeg, State.arith, hecx, hedx]
    · simp [State.setReg, State.setSeg, State.arith, State.src]
    · simp [State.setReg, State.setSeg, State.arith, State.src]
    · simp [stringStep, Eflags.clear]
  have hlt : r < 2 ^ 32 := by omega
  have hquarter : s₁.regs .ecx = BitVec.ofNat 32 (r / 4) := by
    rw [hecx, hr]
    refine BitVec.eq_of_toNat_eq ?_
    rw [BitVec.toNat_ushiftRight, offset_toNat hlt, offset_toNat (by omega),
      Nat.shiftRight_eq_div_pow]
  have hleft : s₁.regs .edx = BitVec.ofNat 32 (r % 4) := by
    have hmask : (3 : Word).toNat = 2 ^ 2 - 1 := rfl
    rw [hedx, hr]
    refine BitVec.eq_of_toNat_eq ?_
    rw [BitVec.toNat_and, offset_toNat hlt, offset_toNat (by omega), hmask,
      Nat.and_two_pow_sub_one_eq_mod]
  obtain ⟨s₂, hwords, hinv₂, hedx₂⟩ := h.words_loop (wordWiseBottom unit)
    (h.frame k s s₁ hinv hmem hregs) hquarter (by omega) (by omega) hup
  obtain ⟨s', hbottom, hinv'⟩ := h.bottom hn hinv₂ (hedx₂.trans hleft) (by omega)
  exact ⟨s', hprologue.andThen (hwords.andThen hbottom), hinv'⟩

/-- **The routine ends**, and the invariant holds of all bytes. -/
theorem wordWise_ends (h : Carries unit words Inv n) (hn : n < 2 ^ 32) {k r : Nat} {s : State}
    (hinv : Inv k s) (hr : s.regs .ecx = BitVec.ofNat 32 r) (hkr : k + r = n) :
    ∃ s', Reaches (wordWise unit words) ⟨(wordWise unit words).block .top, s⟩ [] ⟨[], s'⟩ ∧
      Inv n s' := by
  have hzero := isZero_test_self hr (by omega)
  have htest := h.test hinv (.reg .ecx) .ecx
  induction r generalizing k s with
  | zero =>
      obtain rfl : k = n := hkr
      exact ⟨_, .next rfl (.next (Program.step_jz_taken hzero) (.refl _)), htest⟩
  | succ r ih =>
      generalize hs₁ : s.test (.reg .ecx) .ecx = s₁ at hzero htest
      have hecx₁ : s₁.regs .ecx = BitVec.ofNat 32 (r + 1) := by rw [← hs₁]; exact hr
      have htest₂ := h.test htest (.imm 3) .edi
      cases haligned : isZero (s₁.test (.imm 3) .edi).eflags with
      | true =>
          obtain ⟨s', hrest, hinv'⟩ := h.aligned hn htest₂ hecx₁ hkr
          refine ⟨s', .next rfl ?_, hinv'⟩
          rw [hs₁]
          exact .next (Program.step_jz_skipped hzero) (.next rfl
            (.next (Program.step_jz_taken haligned) hrest))
      | false =>
          obtain ⟨s₂, hunit, hinv₂, hecx₂, -⟩ := h.oneByte k _ [.subl (.imm 1) .ecx, .jmp .top]
            (by omega) htest₂
          obtain ⟨hcount, hleft⟩ := h.countDown hinv₂ (.inl rfl) (hecx₂.trans hecx₁)
          obtain ⟨s', hrest, hinv'⟩ := ih hcount hleft (by omega)
            (isZero_test_self hleft (by omega)) (h.test hcount _ _)
          refine ⟨s', .next rfl ?_, hinv'⟩
          rw [hs₁]
          exact .next (Program.step_jz_skipped hzero) (.next rfl
            (.next (Program.step_jz_skipped haligned)
              (hunit.andThen (.next rfl (.next rfl hrest)))))

end WordWise

/-! ## `memcpy` -/

/-- The bytes that `memcpy` writes. -/
def bytesFrom (m : Memory) (src : Word) : Nat → BitVec 8 := fun j => m (src + BitVec.ofNat 32 j)

/-- The regions do not overlap. -/
def Apart (dest src : Word) (n : Nat) : Prop :=
  ∀ i j, i < n → j < n → dest + BitVec.ofNat 32 i ≠ src + BitVec.ofNat 32 j

/-- The source is still what it was. -/
theorem written_source {dest src : Word} {n k j : Nat} (m : Memory) (f : Nat → BitVec 8)
    (h : Apart dest src n) (hk : k ≤ n) (hj : j < n) :
    written m dest f k (src + BitVec.ofNat 32 j) = bytesFrom m src j :=
  written_outside m f fun i hi heq => h i j (Nat.lt_of_lt_of_le hi hk) hj heq.symm

/-- `memcpy` after `k` bytes. -/
structure Copying (m : Memory) (dest src : Word) (k : Nat) (s : State) : Prop where
  mem : s.mem = written m dest (bytesFrom m src) k
  edi : s.regs .edi = dest + BitVec.ofNat 32 k
  esi : s.regs .esi = src + BitVec.ofNat 32 k

theorem setWidth_append_low (w : BitVec 24) (b : BitVec 8) : (w ++ b).setWidth 8 = b := by
  refine BitVec.eq_of_getLsbD_eq fun i hi => ?_
  rw [BitVec.getLsbD_setWidth, BitVec.getLsbD_append, if_pos hi, decide_eq_true hi, Bool.true_and]

theorem carries_memcpy (m : Memory) {dest src : Word} {n : Nat} (h : Apart dest src n)
    (hn : n < 2 ^ 32) :
    Carries
      [.movbLoad .esi .eax, .movbStore .eax .edi, .addl (.imm 1) .edi, .addl (.imm 1) .esi]
      .repMovsl (Copying m dest src) n where
  frame k s s' hcopying hmem hregs := by
    refine ⟨hmem.trans hcopying.mem, ?_, ?_⟩
    · rw [hregs .edi (by decide) (by decide), hcopying.edi]
    · rw [hregs .esi (by decide) (by decide), hcopying.esi]
  oneByte k s rest hk hcopying := by
    refine ⟨_, .next rfl (.next rfl (.next rfl (.next rfl (.refl _)))), ⟨?_, ?_, ?_⟩, ?_, ?_⟩
    · have hsource := written_source m (bytesFrom m src) h (Nat.le_of_lt hk) hk
      rw [← written_byte m dest _ (show k < 2 ^ 32 by omega), ← hsource, ← hcopying.mem,
        ← hcopying.edi, ← hcopying.esi]
      exact congrArg (Function.update s.mem (s.regs .edi)) (setWidth_append_low _ _)
    · exact offset_next hcopying.edi 1
    · exact offset_next hcopying.esi 1
    · rfl
    · rfl
  oneWord k s rest hk hcopying hup hne := by
    refine ⟨s.movs, .next ?_ (.refl _), ⟨?_, ?_, ?_⟩, hup, rfl, rfl⟩
    · rw [Program.step, Program.exec, if_neg hne]
    · have hword : ∀ j, j < 4 →
          byteOf (loadWord s.mem (s.regs .esi)) j = bytesFrom m src (k + j) := by
        intro j hj
        rw [byteOf_loadWord _ _ hj, hcopying.esi, offset_add, hcopying.mem]
        exact written_source m _ h (by omega) (by omega)
      rw [← written_word m dest hword (by omega), ← hcopying.mem, ← hcopying.edi]
      rfl
    · rw [← offset_next hcopying.edi 4]
      exact congrArg (s.regs .edi + ·) hup
    · rw [← offset_next hcopying.esi 4]
      exact congrArg (s.regs .esi + ·) hup
  wordsEnd s rest hzero := by
    refine .next ?_ (.refl _)
    rw [Program.step, Program.exec, if_pos hzero]

/-! ## `memset` -/

/-- `memset` after `k` bytes. -/
structure Filling (m : Memory) (dest : Word) (b : BitVec 8) (w : Word) (k : Nat) (s : State) :
    Prop where
  mem : s.mem = written m dest (fun _ => b) k
  edi : s.regs .edi = dest + BitVec.ofNat 32 k
  eax : s.regs .eax = w

theorem byteOf_zero (w : Word) : byteOf w 0 = w.setWidth 8 := by
  refine BitVec.eq_of_getLsbD_eq fun i hi => ?_
  simp [byteOf, hi]

theorem carries_memset (m : Memory) (dest : Word) {b : BitVec 8} {w : Word}
    (hw : ∀ j, j < 4 → byteOf w j = b) {n : Nat} (hn : n < 2 ^ 32) :
    Carries [.movbStore .eax .edi, .addl (.imm 1) .edi] .repStosl (Filling m dest b w) n where
  frame k s s' hfilling hmem hregs := by
    refine ⟨hmem.trans hfilling.mem, ?_, ?_⟩
    · rw [hregs .edi (by decide) (by decide), hfilling.edi]
    · rw [hregs .eax (by decide) (by decide), hfilling.eax]
  oneByte k s rest hk hfilling := by
    refine ⟨_, .next rfl (.next rfl (.refl _)), ⟨?_, ?_, hfilling.eax⟩, rfl, rfl⟩
    · have hlow : (s.regs .eax).setWidth 8 = b := by
        rw [hfilling.eax, ← byteOf_zero, hw 0 (by decide)]
      rw [← written_byte m dest _ (show k < 2 ^ 32 by omega), ← hfilling.mem, ← hfilling.edi]
      exact congrArg (Function.update s.mem (s.regs .edi)) hlow
    · exact offset_next hfilling.edi 1
  oneWord k s rest hk hfilling hup hne := by
    refine ⟨s.stos, .next ?_ (.refl _), ⟨?_, ?_, hfilling.eax⟩, hup, rfl, rfl⟩
    · rw [Program.step, Program.exec, if_neg hne]
    · have hword : ∀ j, j < 4 → byteOf w j = (fun _ => b) (k + j) := hw
      rw [← written_word m dest hword (by omega), ← hfilling.mem, ← hfilling.edi, ← hfilling.eax]
      rfl
    · rw [← offset_next hfilling.edi 4]
      exact congrArg (s.regs .edi + ·) hup
  wordsEnd s rest hzero := by
    refine .next ?_ (.refl _)
    rw [Program.step, Program.exec, if_pos hzero]

/-- A byte, shifted by `t` bytes. -/
theorem getLsbD_lowByte_shift (c : Word) {t j i : Nat} (hj : j < 4) (hi : i < 8) :
    ((c &&& 0xFF) <<< (8 * t)).getLsbD (8 * j + i) = (decide (j = t) && c.getLsbD i) := by
  have hmask : ∀ q, q < 32 → (0xFF : Word).getLsbD q = decide (q < 8) := by decide
  have hword : 8 * j + i < 32 := by omega
  rw [BitVec.getLsbD_shiftLeft, decide_eq_true hword, Bool.true_and, BitVec.getLsbD_and,
    hmask _ (by omega)]
  rcases Nat.lt_trichotomy j t with hlt | rfl | hgt
  · have hbelow : 8 * j + i < 8 * t := by omega
    have hne : j ≠ t := by omega
    simp [hbelow, hne]
  · have hin : ¬ 8 * j + i < 8 * j := by omega
    simp [hin, hi]
  · have habove : ¬ 8 * j + i - 8 * t < 8 := by omega
    have hne : j ≠ t := by omega
    simp [habove, hne]

/-- The four bytes of the word that `memset` stores. -/
theorem byteOf_memset (c : Word) {j : Nat} (hj : j < 4) :
    byteOf ((c &&& 0xFF) <<< 24 ||| (c &&& 0xFF) <<< 16 ||| (c &&& 0xFF) <<< 8 ||| (c &&& 0xFF))
      j = c.setWidth 8 := by
  refine BitVec.eq_of_getLsbD_eq fun i hi => ?_
  have h3 := getLsbD_lowByte_shift c (t := 3) hj hi
  have h2 := getLsbD_lowByte_shift c (t := 2) hj hi
  have h1 := getLsbD_lowByte_shift c (t := 1) hj hi
  have h0 := getLsbD_lowByte_shift c (t := 0) hj hi
  rw [Nat.mul_zero, BitVec.shiftLeft_zero] at h0
  rw [byteOf, BitVec.getLsbD_extractLsb', BitVec.getLsbD_or, BitVec.getLsbD_or, BitVec.getLsbD_or,
    h3, h2, h1, h0, BitVec.getLsbD_setWidth, decide_eq_true hi, Bool.true_and, Bool.true_and]
  have hcases : j = 0 ∨ j = 1 ∨ j = 2 ∨ j = 3 := by omega
  rcases hcases with rfl | rfl | rfl | rfl <;> simp

/-! ## Both routines -/

theorem word_eq_ofNat (w : Word) : w = BitVec.ofNat 32 w.toNat := by
  rw [BitVec.ofNat_toNat, BitVec.setWidth_eq]

/-- **`memcpy` ends**, with the bytes copied. -/
theorem memcpy_ends (s : State) {dest src n : Word} (hapart : Apart dest src n.toNat) :
    ∃ s', Reaches memcpyProgram ⟨memcpyProgram.block .top, memcpyEntry dest src n s⟩ [] ⟨[], s'⟩ ∧
      s'.mem = written s.mem dest (bytesFrom s.mem src) n.toNat := by
  have hstart : Copying s.mem dest src 0 (memcpyEntry dest src n s) :=
    ⟨(written_zero _ _ _).symm, (BitVec.add_zero dest).symm, (BitVec.add_zero src).symm⟩
  have hcount : (memcpyEntry dest src n s).regs .ecx = BitVec.ofNat 32 n.toNat :=
    word_eq_ofNat n
  obtain ⟨s', hrun, hcopying⟩ := wordWise_ends (carries_memcpy s.mem hapart n.isLt) n.isLt hstart
    hcount (Nat.zero_add _)
  exact ⟨s', hrun, hcopying.mem⟩

/-- **`memset` ends**, with the bytes set. -/
theorem memset_ends (s : State) (dest c n : Word) :
    ∃ s', Reaches memsetProgram ⟨memsetProgram.block .top, memsetEntry dest c n s⟩ [] ⟨[], s'⟩ ∧
      s'.mem = written s.mem dest (fun _ => c.setWidth 8) n.toNat := by
  have hstart : Filling s.mem dest (c.setWidth 8) ((memsetEntry dest c n s).regs .eax) 0
      (memsetEntry dest c n s) :=
    ⟨(written_zero _ _ _).symm, (BitVec.add_zero dest).symm, rfl⟩
  have hcount : (memsetEntry dest c n s).regs .ecx = BitVec.ofNat 32 n.toNat :=
    word_eq_ofNat n
  obtain ⟨s', hrun, hfilling⟩ := wordWise_ends
    (carries_memset s.mem dest (fun j hj => byteOf_memset c hj) n.isLt) n.isLt hstart hcount
    (Nat.zero_add _)
  exact ⟨s', hrun, hfilling.mem⟩

/-- **`memcpy` and `memset` are exact.**  For every alignment of the destination, every count and
every contents: both end; `memcpy` between regions that do not overlap has copied each byte,
`memset` has set each byte, and every other byte is as it was. -/
theorem memory_routines_exact (s : State) (dest src c n : Word) :
    (Apart dest src n.toNat →
      Terminates memcpyProgram ⟨memcpyProgram.block .top, memcpyEntry dest src n s⟩ (fun _ r =>
        r.code = [] ∧
        (∀ k, k < n.toNat →
          r.state.mem (dest + BitVec.ofNat 32 k) = s.mem (src + BitVec.ofNat 32 k)) ∧
        ∀ a, (∀ k, k < n.toNat → a ≠ dest + BitVec.ofNat 32 k) → r.state.mem a = s.mem a)) ∧
    Terminates memsetProgram ⟨memsetProgram.block .top, memsetEntry dest c n s⟩ (fun _ r =>
      r.code = [] ∧
      (∀ k, k < n.toNat → r.state.mem (dest + BitVec.ofNat 32 k) = (c &&& 0xFF).setWidth 8) ∧
      ∀ a, (∀ k, k < n.toNat → a ≠ dest + BitVec.ofNat 32 k) → r.state.mem a = s.mem a) := by
  constructor
  · intro hapart
    obtain ⟨s', hrun, hmem⟩ := memcpy_ends s hapart
    refine ⟨[], ⟨[], s'⟩, hrun, rfl, rfl, fun k hk => ?_, fun a ha => ?_⟩
    · rw [hmem, written_offset _ _ _ _ (hk.trans n.isLt), if_pos hk, bytesFrom]
    · rw [hmem, written_outside _ _ ha]
  · obtain ⟨s', hrun, hmem⟩ := memset_ends s dest c n
    have hlow : (c &&& 0xFF).setWidth 8 = c.setWidth 8 := by
      have hones : BitVec.setWidth 8 (0xFF : Word) = BitVec.allOnes 8 := rfl
      rw [BitVec.setWidth_and, hones, BitVec.and_allOnes]
    refine ⟨[], ⟨[], s'⟩, hrun, rfl, rfl, fun k hk => ?_, fun a ha => ?_⟩
    · rw [hmem, written_offset _ _ _ _ (hk.trans n.isLt), if_pos hk, hlow]
    · rw [hmem, written_outside _ _ ha]

/-- Seven bytes to an address that is not aligned, with the direction flag set before. -/
theorem memory_routines_exact_seven :
    Terminates memcpyProgram
      ⟨memcpyProgram.block .top, memcpyEntry 0x2003 0x1000 7
        { regs := fun _ => 0, segs := fun _ => 0x18, eflags := 0x402
          mem := fun a => a.setWidth 8 }⟩ (fun _ r =>
      r.code = [] ∧
      (∀ k, k < 7 → r.state.mem (0x2003 + BitVec.ofNat 32 k) =
        (0x1000 + BitVec.ofNat 32 k).setWidth 8) ∧
      ∀ a, (∀ k, k < 7 → a ≠ 0x2003 + BitVec.ofNat 32 k) → r.state.mem a = a.setWidth 8) := by
  have hapart : ∀ i, i < 7 → ∀ j, j < 7 →
      (0x2003 : Word) + BitVec.ofNat 32 i ≠ 0x1000 + BitVec.ofNat 32 j := by decide
  exact (memory_routines_exact _ 0x2003 0x1000 0 7).1 fun i j hi hj => hapart i hi j hj

/-! ## The copy of byte buffers -/

/-- The bytes at an address, as a buffer. -/
def bytesAt (m : Memory) (a : Word) : Buf := fun j => UInt8.ofBitVec (m (a + BitVec.ofNat 32 j))

/-- **The assembly code computes the `memcpy` of byte buffers**, on the bytes that have an
address. -/
theorem memcpy_refines (s : State) {dest src n : Word} (hapart : Apart dest src n.toNat) :
    Terminates memcpyProgram ⟨memcpyProgram.block .top, memcpyEntry dest src n s⟩ (fun _ r =>
      ∀ j, j < 2 ^ 32 → bytesAt r.state.mem dest j =
        memcpy (bytesAt s.mem dest) 0 (bytesAt s.mem src) n.toNat j) := by
  obtain ⟨s', hrun, hmem⟩ := memcpy_ends s hapart
  refine ⟨[], ⟨[], s'⟩, hrun, rfl, fun j hj => ?_⟩
  rw [bytesAt, hmem, written_offset _ _ _ _ hj]
  by_cases hlt : j < n.toNat
  · rw [if_pos hlt, memcpy_inside (Nat.zero_le j) (by omega), Nat.sub_zero, bytesAt, bytesFrom]
  · rw [if_neg hlt, memcpy_outside (.inr (by omega)), bytesAt]

end JuddOS
