import JuddOS.Terminal

/-!
# `terminal_read`

The call first stores a return at the end of the line buffer, then waits until a line has been
entered on the shown terminal while that terminal is scheduled, and then takes the line.  The
wait is a loop without a body; what happens during it happens elsewhere.

`copyLine_spec` says what the copying loop delivers.
-/

namespace JuddOS

/-- The characters at which the copying loop stops. -/
def endsLine (c : UInt8) : Bool := c = chNewline ∨ c = chReturn

/-- The first statement of `terminal_read`. -/
def plantReturn (k : Kernel) : Kernel :=
  k.setTerminal k.terminalNumDisplay fun t =>
    { t with screenBuf := Function.update t.screenBuf (screenBufSize - 1) chReturn }

/-- The copying loop from index `i` on, with the number of iterations left; the result is the
number of characters copied and the buffer. -/
def copyLine (line : Buf) : Nat → Nat → Buf → Nat × Buf
  | 0, i, buf => (i, buf)
  | n + 1, i, buf =>
      let buf := Function.update buf i (line i)
      if endsLine (line i) then (i + 1, buf) else copyLine line n (i + 1) buf

/-- `limit`. -/
def readLimit (nbytes : Int32) : Nat :=
  if nbytes > 128 then screenBufSize else nbytes.toInt.toNat

/-- `terminal_read` after its loop: the characters copied, the buffer, and the kernel. -/
def takeLine (buf : Buf) (nbytes : Int32) (k : Kernel) : (Nat × Buf) × Kernel :=
  let k := { k with enterFlag := false }
  let line := (k.terminalArr k.terminalNumDisplay).screenBuf
  (copyLine line (readLimit nbytes) 0 buf, clearbuf k)

/-! ## The copying loop -/

/-- What the loop leaves when it starts at index `i` with at most `n` iterations. -/
structure CopiedLine (line : Buf) (n i : Nat) (buf : Buf) (result : Nat × Buf) : Prop where
  ge : i ≤ result.1
  le : result.1 ≤ i + n
  copied : ∀ j, i ≤ j → j < result.1 → result.2 j = line j
  unchanged : ∀ j, j < i ∨ result.1 ≤ j → result.2 j = buf j
  goes_on : ∀ j, i ≤ j → j + 1 < result.1 → endsLine (line j) = false
  stops : result.1 < i + n → ∃ j, i ≤ j ∧ result.1 = j + 1 ∧ endsLine (line j) = true

/-- **The copying loop** delivers the line up to and with the character that ends it, or as much
as there is room for. -/
theorem copyLine_spec (line : Buf) (n i : Nat) (buf : Buf) :
    CopiedLine line n i buf (copyLine line n i buf) := by
  induction n generalizing i buf with
  | zero =>
      have hsame : copyLine line 0 i buf = (i, buf) := rfl
      rw [hsame]
      exact ⟨Nat.le_refl i, Nat.le_refl i, by omega, fun _ _ => rfl, by omega, by omega⟩
  | succ n ih =>
      unfold copyLine
      by_cases hend : endsLine (line i) = true
      · rw [if_pos hend]
        refine ⟨Nat.le_succ i, by omega, ?_, ?_, by omega, fun _ => ⟨i, Nat.le_refl i, rfl, hend⟩⟩
        · intro j hij hj
          have hj' : j = i := by omega
          rw [hj']
          exact Function.update_self ..
        · intro j hj
          have hne : j ≠ i := by omega
          exact Function.update_of_ne hne ..
      · rw [if_neg hend]
        have hrest := ih (i + 1) (Function.update buf i (line i))
        have hge := hrest.ge
        refine ⟨by omega, by have := hrest.le; omega, ?_, ?_, ?_, ?_⟩
        · intro j hij hj
          by_cases hji : j = i
          · -- The character copied in this iteration stays.
            rw [hji, hrest.unchanged i (.inl (Nat.lt_succ_self i))]
            exact Function.update_self ..
          · exact hrest.copied j (by omega) hj
        · intro j hj
          have hne : j ≠ i := by omega
          rw [hrest.unchanged j (by omega)]
          exact Function.update_of_ne hne ..
        · intro j hij hj
          by_cases hji : j = i
          · rw [hji]
            exact Bool.eq_false_iff.mpr hend
          · exact hrest.goes_on j (by omega) hj
        · intro hlt
          obtain ⟨j, hij, hj, hstop⟩ := hrest.stops (by omega)
          exact ⟨j, by omega, hj, hstop⟩

theorem readLimit_le (nbytes : Int32) : readLimit nbytes ≤ nbytes.toInt.toNat := by
  unfold readLimit
  split
  · rename_i hlt
    have hint := Int32.lt_iff_toInt_lt.mp hlt
    have h128 : (128 : Int32).toInt = 128 := rfl
    simp only [screenBufSize]
    omega
  · exact Nat.le_refl _

end JuddOS
