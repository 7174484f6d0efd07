import JuddOS.Lib

/-!
# `lib.c`: the string at a pointer, and `strncpy`

`Buf.cstring` is what a C function sees of the bytes at a pointer: those before the first NUL.
`strncpy_copied`, `strncpy_padded` and `strncpy_outside` say what the two loops of `strncpy` do.
-/

namespace JuddOS

/-- The string at a pointer. -/
def Buf.cstring (s : Buf) : List UInt8 := s.field (2 ^ 32) 0

/-- A field that holds the bytes of a string, and a NUL after it if there is room. -/
theorem field_eq {s : Buf} {n i : Nat} {l : List UInt8} (hlen : l.length ≤ n)
    (hno : (0 : UInt8) ∉ l) (hbytes : ∀ j, j < l.length → s (i + j) = l.getD j 0)
    (hend : l.length < n → s (i + l.length) = 0) : s.field n i = l := by
  induction l generalizing n i with
  | nil =>
      cases n with
      | zero => rfl
      | succ n =>
          have hzero := hend (Nat.succ_pos n)
          rw [List.length_nil, Nat.add_zero] at hzero
          rw [Buf.field, if_pos hzero]
  | cons c l ih =>
      cases n with
      | zero => exact absurd hlen (Nat.not_succ_le_zero _)
      | succ n =>
          have hhead : s i = c := hbytes 0 (Nat.succ_pos _)
          have hc : c ≠ 0 := fun h => hno (h ▸ List.mem_cons_self)
          rw [Buf.field, hhead, if_neg hc]
          congr 1
          refine ih (Nat.le_of_succ_le_succ hlen) (fun h => hno (List.mem_cons_of_mem c h)) ?_ ?_
          · intro j hj
            have hbyte := hbytes (j + 1) (Nat.succ_lt_succ hj)
            rw [Nat.add_right_comm, Nat.add_assoc i j 1]
            exact hbyte
          · intro hlt
            have hnul := hend (Nat.succ_lt_succ hlt)
            rw [Nat.add_right_comm, Nat.add_assoc i _ 1]
            exact hnul

/-- A pointer to the bytes of a string with a NUL after them. -/
theorem cstring_eq {s : Buf} {l : List UInt8} (hlen : l.length ≤ 2 ^ 32) (hno : (0 : UInt8) ∉ l)
    (hbytes : ∀ j, j < l.length → s j = l.getD j 0) (hend : s l.length = 0) : s.cstring = l := by
  refine field_eq hlen hno ?_ ?_
  · intro j hj
    rw [Nat.zero_add]
    exact hbytes j hj
  · intro _
    rw [Nat.zero_add]
    exact hend

theorem cstring_ofList {l : List UInt8} (hlen : l.length ≤ 2 ^ 32) (hno : (0 : UInt8) ∉ l) :
    (Buf.ofList l).cstring = l :=
  cstring_eq hlen hno (fun _ _ => rfl) (by simp [Buf.ofList])

theorem strlenFrom_le (s : Buf) (fuel len : Nat) : strlenFrom s fuel len ≤ len + fuel := by
  induction fuel generalizing len with
  | zero => exact Nat.le_refl len
  | succ fuel ih =>
      rw [strlenFrom]
      split
      · omega
      · have hnext := ih (len + 1)
        omega

theorem strlen_le (s : Buf) : strlen s ≤ 2 ^ 32 := by
  have h := strlenFrom_le s (2 ^ 32) 0
  rwa [Nat.zero_add] at h

@[simp] theorem cstring_length (s : Buf) : s.cstring.length = strlen s := by
  have hle := strlen_le s
  rw [Buf.cstring, field_length s (Nat.le_refl _), if_neg (by omega)]

theorem cstring_getD {s : Buf} {j : Nat} (hj : j < strlen s) : s.cstring.getD j 0 = s j := by
  rw [← cstring_length] at hj
  have h := (field_getD hj).1
  rwa [Nat.zero_add] at h

/-- No byte before the end of a string is NUL. -/
theorem ne_zero_of_lt_strlen {s : Buf} {j : Nat} (hj : j < strlen s) : s j ≠ 0 := by
  rw [← cstring_length] at hj
  have hne := (field_getD hj).2
  rwa [Nat.zero_add] at hne

theorem field_no_nul (s : Buf) (n i : Nat) : (0 : UInt8) ∉ s.field n i := by
  induction n generalizing i with
  | zero => exact List.not_mem_nil
  | succ n ih =>
      rw [Buf.field]
      by_cases hzero : s i = 0
      · rw [if_pos hzero]
        exact List.not_mem_nil
      · rw [if_neg hzero, List.mem_cons, not_or]
        exact ⟨fun h => hzero h.symm, ih (i + 1)⟩

theorem cstring_no_nul (s : Buf) : (0 : UInt8) ∉ s.cstring := field_no_nul s _ 0

theorem strlen_le_of_zero {s : Buf} {n : Nat} (h : s n = 0) : strlen s ≤ n :=
  Nat.le_of_not_lt fun hlt => ne_zero_of_lt_strlen hlt h

/-- A string stored at the start of a cleared array. -/
theorem cstring_memcpy {dest : Buf} {l : List UInt8} (hlen : l.length ≤ 2 ^ 32)
    (hno : (0 : UInt8) ∉ l) (hend : dest l.length = 0) :
    (memcpy dest 0 (Buf.ofList l) l.length).cstring = l := by
  refine cstring_eq hlen hno ?_ ?_
  · intro j hj
    rw [memcpy_inside (Nat.zero_le j) (by omega), Nat.sub_zero]
    rfl
  · rw [memcpy_outside (.inr (by omega)), hend]

/-- Storing the first byte of a string and then the others. -/
theorem memcpy_update (dest : Buf) (start : Nat) (c : UInt8) (l : List UInt8) :
    memcpy (Function.update dest start c) (start + 1) (Buf.ofList l) l.length =
      memcpy dest start (Buf.ofList (c :: l)) (c :: l).length := by
  funext j
  rw [List.length_cons]
  rcases Nat.lt_trichotomy j start with hlt | rfl | hgt
  · rw [memcpy_outside (.inl (by omega)), memcpy_outside (.inl hlt),
      Function.update_of_ne (by omega)]
  · rw [memcpy_outside (.inl (by omega)), memcpy_inside (Nat.le_refl j) (by omega),
      Function.update_self, Nat.sub_self]
    rfl
  · by_cases hin : j < start + (l.length + 1)
    · rw [memcpy_inside (by omega) (by omega), memcpy_inside (by omega) hin]
      have hj : j - start = (j - (start + 1)) + 1 := by omega
      rw [hj]
      rfl
    · rw [memcpy_outside (.inr (by omega)), memcpy_outside (.inr (by omega)),
        Function.update_of_ne (by omega)]

/-! ## `strncpy` -/

/-- `while (src[i] != '\0' && i < n)`, with `n - i` iterations left.  The result is `i` and
`dest`. -/
def strncpyCopy (src : Buf) : Nat → Nat → Buf → Nat × Buf
  | 0, i, dest => (i, dest)
  | n + 1, i, dest =>
      if src i = 0 then (i, dest)
      else strncpyCopy src n (i + 1) (Function.update dest i (src i))

/-- `while (i < n)`. -/
def strncpyPad : Nat → Nat → Buf → Buf
  | 0, _, dest => dest
  | n + 1, i, dest => strncpyPad n (i + 1) (Function.update dest i 0)

/-- `strncpy`. -/
def strncpy (dest src : Buf) (n : Nat) : Buf :=
  let (i, dest) := strncpyCopy src n 0 dest
  strncpyPad (n - i) i dest

theorem strncpyCopy_spec (src : Buf) (n i : Nat) (dest : Buf) :
    (strncpyCopy src n i dest).1 = i + (src.field n i).length ∧
      ∀ j, (strncpyCopy src n i dest).2 j =
        if i ≤ j ∧ j < i + (src.field n i).length then src j else dest j := by
  induction n generalizing i dest with
  | zero => exact ⟨rfl, fun j => (if_neg (by simp only [Buf.field, List.length_nil]; omega)).symm⟩
  | succ n ih =>
      rw [strncpyCopy, Buf.field]
      by_cases hzero : src i = 0
      · rw [if_pos hzero, if_pos hzero]
        exact ⟨rfl, fun j => (if_neg (by simp only [List.length_nil]; omega)).symm⟩
      · rw [if_neg hzero, if_neg hzero, List.length_cons]
        obtain ⟨hi, hbytes⟩ := ih (i + 1) (Function.update dest i (src i))
        refine ⟨by omega, fun j => ?_⟩
        rw [hbytes]
        by_cases hj : j = i
        · rw [hj, if_neg (by omega), if_pos (by omega), Function.update_self]
        · rw [Function.update_of_ne hj]
          by_cases hin : i + 1 ≤ j ∧ j < i + 1 + (src.field n (i + 1)).length
          · rw [if_pos hin, if_pos (by omega)]
          · rw [if_neg hin, if_neg (by omega)]

theorem strncpyPad_spec (n i : Nat) (dest : Buf) (j : Nat) :
    strncpyPad n i dest j = if i ≤ j ∧ j < i + n then 0 else dest j := by
  induction n generalizing i dest with
  | zero => exact (if_neg (by omega)).symm
  | succ n ih =>
      rw [strncpyPad, ih]
      by_cases hj : j = i
      · rw [hj, if_neg (by omega), if_pos (by omega), Function.update_self]
      · rw [Function.update_of_ne hj]
        by_cases hin : i + 1 ≤ j ∧ j < i + 1 + n
        · rw [if_pos hin, if_pos (by omega)]
        · rw [if_neg hin, if_neg (by omega)]

/-- Both loops together. -/
theorem strncpy_spec (dest src : Buf) (n j : Nat) :
    strncpy dest src n j =
      if j < (src.field n 0).length then src j else if j < n then 0 else dest j := by
  have hle := field_length_le src n 0
  obtain ⟨hi, hbytes⟩ := strncpyCopy_spec src n 0 dest
  unfold strncpy
  generalize strncpyCopy src n 0 dest = copied at hi hbytes
  obtain ⟨i, dest'⟩ := copied
  dsimp only at hi hbytes ⊢
  rw [Nat.zero_add] at hi
  rw [strncpyPad_spec, hbytes, hi]
  by_cases hin : j < (src.field n 0).length
  · rw [if_neg (by omega), if_pos (by omega), if_pos hin]
  · rw [if_neg hin]
    by_cases hpad : j < n
    · rw [if_pos (by omega), if_pos hpad]
    · rw [if_neg (by omega), if_neg (by omega), if_neg hpad]

section Strncpy

variable {dest src : Buf} {n j : Nat}

/-- The bytes before the NUL. -/
theorem strncpy_copied (hn : n ≤ 2 ^ 32) (hj : j < n) (hsrc : j < strlen src) :
    strncpy dest src n j = src j := by
  have hlen := field_length src hn
  rw [strncpy_spec, if_pos (by split at hlen <;> omega)]

/-- The bytes after it. -/
theorem strncpy_padded (hn : n ≤ 2 ^ 32) (hj : j < n) (hsrc : strlen src ≤ j) :
    strncpy dest src n j = 0 := by
  have hlen := field_length src hn
  rw [strncpy_spec, if_neg (by split at hlen <;> omega), if_pos hj]

theorem strncpy_outside (hj : n ≤ j) : strncpy dest src n j = dest j := by
  have hle := field_length_le src n 0
  rw [strncpy_spec, if_neg (by omega), if_neg (by omega)]

end Strncpy

end JuddOS
