import JuddOS.Rtc
import JuddOS.Support.Loop
import JuddOS.Support.Run
import Mathlib.Data.Nat.Log
import Mathlib.Tactic.IntervalCases

/-!
# The registers of the real-time clock

Register A holds the rate in its low half; register B enables the sources of interrupts.

* `rtcWrite_rates`: `rtc_write` accepts the powers of two from 2 to 1024 and nothing else, and the
  rate it sets is the frequency it was given.  Its loop always ends.
* `rtcOpen_exact`: `rtc_init` and `rtc_open` compute the new register B from register A, so they
  only do what they should when the two registers agree up to the bit that is set.
-/

namespace JuddOS

open Support

/-- The indices of registers A and B. -/
abbrev regA : UInt8 := 0x0A
abbrev regB : UInt8 := 0x0B

/-! ## What the calls do to the registers -/

theorem Rtc.setRate_eq (rate : UInt8) (r : Rtc) :
    r.setRate rate =
      { r with index := regA
               reg := Function.update r.reg regA ((r.reg regA &&& initPrevAnd) ||| rate) } := by
  unfold Rtc.setRate
  simp only [Rtc.enableIrq_rtcPort, Rtc.disableIrq_rtcPort]
  rfl

/-- The registers after an open: the new register B is made from the old register A. -/
def Rtc.openedReg (r : Rtc) : UInt8 → UInt8 :=
  Function.update (Function.update r.reg regB (r.reg regA ||| initPrevOr)) regA
    ((r.reg regA &&& initPrevAnd) ||| initBaserate)

theorem rtcOpen_eq (r : Rtc) :
    (rtcOpen r).2 = { r with rtcSignal := false, index := regA, reg := r.openedReg } := by
  unfold rtcOpen
  simp only [Rtc.enableIrq_rtcPort, Rtc.setRate_eq]
  rfl

/-- `rtc_init` does the same. -/
theorem rtcInit_eq (r : Rtc) : rtcInit r = (rtcOpen r).2 := by
  rw [rtcOpen_eq]
  unfold rtcInit
  simp only [Rtc.enableIrq_rtcPort, Rtc.disableIrq_rtcPort]
  rfl

/-! ## The logarithm -/

/-- What `rtc_write`'s loop tests, on `freq`, `rate` and `rest`. -/
def rateGuard (s : Nat × Nat × Bool) : Prop := 1 < s.1

/-- One iteration. -/
def rateBody (s : Nat × Nat × Bool) : Nat × Nat × Bool :=
  (s.1 / 2, s.2.1 + 1, if s.1 % 2 ≠ 0 then true else s.2.2)

/-- **The loop ends**, at a frequency of at most 1, when there are as many iterations as the number
has digits. -/
theorem rateLoop_ends (n freq rate : Nat) (rest : Bool) (hfreq : freq < 2 ^ n) :
    ∃ iterations freq', iterations ≤ n ∧
      WhileEnds rateGuard rateBody (freq, rate, rest) iterations
        (freq', rateLoop n freq rate rest) := by
  induction n generalizing freq rate rest with
  | zero =>
      refine ⟨0, freq, Nat.le_refl 0, .leave ?_⟩
      intro hgo
      unfold rateGuard at hgo
      omega
  | succ n ih =>
      by_cases hgo : freq > 1
      · obtain ⟨iterations, freq', hle, hends⟩ :=
          ih (freq / 2) (rate + 1) (if freq % 2 ≠ 0 then true else rest) (by omega)
        refine ⟨iterations + 1, freq', by omega, ?_⟩
        rw [rateLoop, if_pos hgo]
        exact .again hgo hends
      · refine ⟨0, freq, Nat.zero_le _, ?_⟩
        rw [rateLoop, if_neg hgo]
        exact .leave hgo

/-- The step of the logarithm, and the digit that the division loses. -/
theorem two_pow_log_half {freq : Nat} (hgo : 1 < freq) :
    Nat.log 2 freq = Nat.log 2 (freq / 2) + 1 ∧
      (freq = 2 ^ Nat.log 2 freq ↔ freq % 2 = 0 ∧ freq / 2 = 2 ^ Nat.log 2 (freq / 2)) := by
  have hlog : Nat.log 2 freq = Nat.log 2 (freq / 2) + 1 := Nat.log_of_one_lt_of_le (by decide) hgo
  refine ⟨hlog, ?_⟩
  rw [hlog, Nat.pow_succ]
  constructor
  · intro hpow
    constructor
    · omega
    · omega
  · rintro ⟨heven, hhalf⟩
    omega

/-- **What the loop computes**: the logarithm, and whether a digit was lost. -/
theorem rateLoop_eq (n freq rate : Nat) (rest : Bool) (hpos : 0 < freq) (hfreq : freq < 2 ^ n) :
    rateLoop n freq rate rest =
      (rate + Nat.log 2 freq, rest || decide (freq ≠ 2 ^ Nat.log 2 freq)) := by
  induction n generalizing freq rate rest with
  | zero => omega
  | succ n ih =>
      by_cases hgo : freq > 1
      · obtain ⟨hlog, hpow⟩ := two_pow_log_half hgo
        rw [rateLoop, if_pos hgo, ih (freq / 2) _ _ (by omega) (by omega)]
        apply Prod.ext
        · dsimp only
          omega
        · by_cases heven : freq % 2 = 0
          · simp [heven, hpow]
          · simp [heven, hpow]
      · have hone : freq = 1 := by omega
        subst hone
        simp [rateLoop]

/-- 96 Hz is no power of two: its logarithm is 6, with a rest. -/
example : rateLoop 32 96 0 false = (6, true) := by decide

/-- What the tests after the loop let through. -/
theorem rate_accepted_iff {freq : Nat} (hgo : 1 < freq) :
    (¬ (Nat.log 2 freq < minRate ∨ Nat.log 2 freq > maxRate ∨
      decide (freq ≠ 2 ^ Nat.log 2 freq) = true)) ↔
      ∃ k, 1 ≤ k ∧ k ≤ 10 ∧ freq = 2 ^ k := by
  constructor
  · intro hrange
    rw [not_or, not_or] at hrange
    obtain ⟨hmin, hmax, hrest⟩ := hrange
    refine ⟨Nat.log 2 freq, Nat.not_lt.mp hmin, Nat.not_lt.mp hmax, ?_⟩
    simpa using hrest
  · rintro ⟨k, hmin, hmax, rfl⟩
    rw [Nat.log_pow (by decide : 1 < 2)]
    simp only [ne_eq, not_true_eq_false, decide_false, Bool.false_eq_true, or_false, not_or]
    exact ⟨Nat.not_lt.mpr hmin, Nat.not_lt.mpr hmax⟩

/-! ## `rtc_write` -/

/-- The test `freq <= 1` is on the signed copy: a value from 2^31 on is negative there. -/
theorem one_lt_toInt32_iff (w : UInt32) :
    ¬ w.toInt32 ≤ 1 ↔ 1 < w.toNat ∧ w.toNat < 2 ^ 31 := by
  have hone : (1 : Int32).toInt = 1 := by decide
  rw [Int32.le_iff_toInt_le, toInt32_toInt, hone]
  have hword := w.toNat_lt
  split <;> omega

theorem toNat_toInt32 {w : UInt32} (hword : w.toNat < 2 ^ 31) :
    w.toInt32.toInt.toNat = w.toNat := by
  rw [toInt32_toInt, if_pos (by omega)]
  rfl

/-- The rate of the `k`-th power of two. -/
def rateOf (k : Nat) : UInt8 := (initBaserate + 1 - UInt8.ofNat k) &&& initBaserateMask

theorem rateOf_spec {k : Nat} (hmin : 1 ≤ k) (hmax : k ≤ 10) :
    (rateOf k).toNat = 16 - k ∧ rateOf k &&& 0xF0 = 0 ∧ rateOf k &&& 0x0F = rateOf k := by
  interval_cases k <;> decide

theorem and_or_distrib_right (a b c : UInt8) : (a ||| b) &&& c = a &&& c ||| b &&& c :=
  UInt8.toBitVec_inj.mp BitVec.and_or_distrib_right

/-- The two halves of register A after a rate went into its low half. -/
theorem halves_of_rate (a rate : UInt8) (hhigh : rate &&& 0xF0 = 0)
    (hlow : rate &&& 0x0F = rate) :
    ((a &&& initPrevAnd) ||| rate) &&& 0xF0 = a &&& 0xF0 ∧
      ((a &&& initPrevAnd) ||| rate) &&& 0x0F = rate := by
  have hkeep : initPrevAnd &&& 0xF0 = 0xF0 := by decide
  have hdrop : initPrevAnd &&& 0x0F = 0 := by decide
  constructor
  · rw [and_or_distrib_right, hhigh, UInt8.or_zero, UInt8.and_assoc, hkeep]
  · rw [and_or_distrib_right, hlow, UInt8.and_assoc, hdrop, UInt8.and_zero, UInt8.zero_or]

/-- **An accepted frequency** sets the rate. -/
theorem rtcWrite_accepted {buf : Buf} {k : Nat} (hmin : 1 ≤ k) (hmax : k ≤ 10)
    (hfreq : (buf.word 0).toNat = 2 ^ k) (r : Rtc) :
    rtcWrite buf 4 r = (0, r.setRate (rateOf k)) := by
  have hbound : 2 ^ k ≤ 2 ^ 10 := Nat.pow_le_pow_right (by decide) hmax
  have htwo : 2 ^ 1 ≤ 2 ^ k := Nat.pow_le_pow_right (by decide) hmin
  have hrange : 1 < (buf.word 0).toNat ∧ (buf.word 0).toNat < 2 ^ 31 := by omega
  have hpass := (one_lt_toInt32_iff _).mpr hrange
  have hacc := (rate_accepted_iff hrange.1).mpr ⟨k, hmin, hmax, hfreq⟩
  unfold rtcWrite
  dsimp only
  rw [if_neg (not_or.mpr ⟨fun h => h rfl, hpass⟩), toNat_toInt32 hrange.2,
    rateLoop_eq 32 _ 0 false (by omega) (by omega)]
  dsimp only
  rw [Nat.zero_add, Bool.false_or, if_neg hacc, hfreq, Nat.log_pow (by decide : 1 < 2)]
  rfl

/-- **Everything else** is rejected before a port is touched. -/
theorem rtcWrite_rejected {buf : Buf} {nbytes : Int32}
    (hnot : ¬ (nbytes = 4 ∧ ∃ k, 1 ≤ k ∧ k ≤ 10 ∧ (buf.word 0).toNat = 2 ^ k)) (r : Rtc) :
    rtcWrite buf nbytes r = (-1, r) := by
  unfold rtcWrite
  dsimp only
  by_cases hfirst : nbytes ≠ 4 ∨ (buf.word 0).toInt32 ≤ 1
  · rw [if_pos hfirst]
  · rw [if_neg hfirst]
    obtain ⟨hfour, hpass⟩ := not_or.mp hfirst
    have hrange := (one_lt_toInt32_iff _).mp hpass
    rw [toNat_toInt32 hrange.2, rateLoop_eq 32 _ 0 false (by omega) (by omega)]
    dsimp only
    rw [Nat.zero_add, Bool.false_or]
    refine if_pos (Decidable.of_not_not fun hacc => hnot ?_)
    exact ⟨Decidable.of_not_not hfour, (rate_accepted_iff hrange.1).mp hacc⟩

/-- **The accepted frequencies.**  `rtc_write` returns 0 exactly for four bytes that are a power of
two from 2 to 1024.  It then leaves the high half of register A and the other registers as they
were, and the low half is the rate at which the clock has that frequency.  In every other case it
returns -1 and writes to no port.  Its loop, on the signed copy of the number, ends in every
case. -/
theorem rtcWrite_rates (buf : Buf) (nbytes : Int32) (r : Rtc) :
    ((rtcWrite buf nbytes r).1 = 0 ↔
        nbytes = 4 ∧ ∃ k, 1 ≤ k ∧ k ≤ 10 ∧ (buf.word 0).toNat = 2 ^ k) ∧
      (∀ k, 1 ≤ k ∧ k ≤ 10 ∧ nbytes = 4 ∧ (buf.word 0).toNat = 2 ^ k →
        (rtcWrite buf nbytes r).2.reg regA &&& 0xF0 = r.reg regA &&& 0xF0 ∧
        ((rtcWrite buf nbytes r).2.reg regA &&& 0x0F).toNat = 16 - k ∧
        32768 >>> (15 - k) = (buf.word 0).toNat ∧
        ∀ i, i ≠ regA → (rtcWrite buf nbytes r).2.reg i = r.reg i) ∧
      (¬ (nbytes = 4 ∧ ∃ k, 1 ≤ k ∧ k ≤ 10 ∧ (buf.word 0).toNat = 2 ^ k) →
        rtcWrite buf nbytes r = (-1, r)) ∧
      ∃ iterations freq', ¬ 1 < freq' ∧
        WhileEnds rateGuard rateBody ((buf.word 0).toInt32.toInt.toNat, 0, false) iterations
          (freq', rateLoop 32 (buf.word 0).toInt32.toInt.toNat 0 false) := by
  refine ⟨⟨?_, ?_⟩, ?_, fun hnot => rtcWrite_rejected hnot r, ?_⟩
  · intro hzero
    by_contra hnot
    rw [rtcWrite_rejected hnot r] at hzero
    have hne : (-1 : Int32) ≠ 0 := by decide
    exact hne hzero
  · rintro ⟨rfl, k, hmin, hmax, hfreq⟩
    rw [rtcWrite_accepted hmin hmax hfreq r]
  · rintro k ⟨hmin, hmax, rfl, hfreq⟩
    obtain ⟨hrate, hhigh, hlow⟩ := rateOf_spec hmin hmax
    rw [rtcWrite_accepted hmin hmax hfreq r, Rtc.setRate_eq]
    dsimp only
    rw [Function.update_self]
    obtain ⟨hkeep, hset⟩ := halves_of_rate (r.reg regA) (rateOf k) hhigh hlow
    refine ⟨hkeep, ?_, ?_, fun i hi => Function.update_of_ne hi _ _⟩
    · rw [hset, hrate]
    · -- 32768 is the 15th power
      rw [hfreq, Nat.shiftRight_eq_div_pow, show 32768 = 2 ^ 15 by rfl,
        Nat.pow_div (by omega) (by decide)]
      congr 1
      omega
  · have hword : (buf.word 0).toInt32.toInt.toNat < 2 ^ 32 := by
      have hlt := (buf.word 0).toNat_lt
      rw [toInt32_toInt]
      split <;> omega
    obtain ⟨iterations, freq', -, hends⟩ :=
      rateLoop_ends 32 (buf.word 0).toInt32.toInt.toNat 0 false hword
    exact ⟨iterations, freq', hends.guard_false, hends⟩

/-! ## `rtc_init` and `rtc_open` -/

/-- The calls that reach the registers. -/
inductive RtcCall
  | init
  | openRtc
  | write (buf : Buf) (nbytes : Int32)

/-- The registers after a call. -/
def RtcCall.run : RtcCall → Rtc → Rtc
  | .init, r => rtcInit r
  | .openRtc, r => (rtcOpen r).2
  | .write buf nbytes, r => (rtcWrite buf nbytes r).2

/-- The call is `rtc_init` or `rtc_open`. -/
def RtcCall.Opens : RtcCall → Prop
  | .init => True
  | .openRtc => True
  | .write _ _ => False

/-- What an open should do: it sets the bit of the periodic interrupt in register B and the rate in
the low half of register A, and nothing else. -/
structure OpensExactly (r r' : Rtc) : Prop where
  sets : r'.reg regB = r.reg regB ||| initPrevOr
  keeps : r'.reg regA &&& 0xF0 = r.reg regA &&& 0xF0
  rate : r'.reg regA &&& 0x0F = initBaserate
  others : ∀ i, i ≠ regA → i ≠ regB → r'.reg i = r.reg i

/-- The two registers agree up to the bit that an open sets. -/
def RegistersAgree (r : Rtc) : Prop :=
  r.reg regA ||| initPrevOr = r.reg regB ||| initPrevOr

theorem openedReg_regB (r : Rtc) : r.openedReg regB = r.reg regA ||| initPrevOr := by
  have hne : regB ≠ regA := by decide
  unfold Rtc.openedReg
  rw [Function.update_of_ne hne, Function.update_self]

theorem openedReg_regA (r : Rtc) :
    r.openedReg regA = (r.reg regA &&& initPrevAnd) ||| initBaserate :=
  Function.update_self _ _ _

/-- Register A and the registers that no open names come out right in any case. -/
theorem opensExactly_iff {c : RtcCall} (hopens : c.Opens) (r : Rtc) :
    OpensExactly r (c.run r) ↔ RegistersAgree r := by
  have hrun : (c.run r).reg = r.openedReg := by
    cases c with
    | init =>
        have heq : RtcCall.init.run r = (rtcOpen r).2 := rtcInit_eq r
        rw [heq, rtcOpen_eq]
    | openRtc =>
        have heq : RtcCall.openRtc.run r = (rtcOpen r).2 := rfl
        rw [heq, rtcOpen_eq]
    | write buf nbytes => exact absurd hopens id
  constructor
  · intro h
    unfold RegistersAgree
    rw [← openedReg_regB, ← hrun]
    exact h.sets
  · intro hagree
    obtain ⟨hkeep, hset⟩ := halves_of_rate (r.reg regA) initBaserate (by decide) (by decide)
    refine ⟨?_, ?_, ?_, ?_⟩
    · rw [hrun, openedReg_regB]
      exact hagree
    · rw [hrun, openedReg_regA]
      exact hkeep
    · rw [hrun, openedReg_regA]
      exact hset
    · intro i hA hB
      rw [hrun, Rtc.openedReg, Function.update_of_ne hA, Function.update_of_ne hB]

/-- **Opening the clock in every run.**  The opens of a run all do what they should exactly when
each of them finds registers A and B in agreement. -/
theorem rtcOpen_exact (r r' : Rtc) (calls : List RtcCall) :
    Run (fun a c b => c.run a = b ∧ (c.Opens → OpensExactly a b)) r calls r' ↔
      Run (fun a c b => c.run a = b ∧ (c.Opens → RegistersAgree a)) r calls r' := by
  refine Run.and_iff (fun _ => True) trivial ?_ fun _ _ _ _ _ _ => trivial
  rintro a c b - rfl
  exact forall_congr' fun hopens => opensExactly_iff hopens a

/-- The registers as the firmware leaves them: register A has the divider on and a rate of 6,
register B the 24-hour mode. -/
def firmwareRtc : Rtc :=
  { rtcSignal := false, index := 0
    reg := Function.update (Function.update (fun _ => 0) regA 0x26) regB 0x02
    irq := { masterMask := 0xFB, slaveMask := 0xFF, master := I8259.chip 0xFB
             slave := I8259.chip 0xFF } }

/-- `rtc_init` on these registers makes register B `0x66`, which enables the alarm interrupt and
the binary mode. -/
theorem rtcInit_mixes_registers :
    ¬ ∀ (r r' : Rtc) (calls : List RtcCall), Run (fun a c b => c.run a = b) r calls r' →
      Run (fun a c b => c.run a = b ∧ (c.Opens → OpensExactly a b)) r calls r' := by
  intro hall
  have hlast := (hall firmwareRtc _ [.init] (Run.single rfl)).of_single.2 trivial
  have hagree := (opensExactly_iff (c := .init) trivial firmwareRtc).mp hlast
  exact absurd hagree (by unfold RegistersAgree; decide)

end JuddOS
