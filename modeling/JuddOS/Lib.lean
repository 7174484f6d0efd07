import Mathlib.Algebra.Group.Int.Defs
import Mathlib.Algebra.Group.Nat.Defs
import Mathlib.Data.List.GetD
import Mathlib.Logic.Function.Basic
import Mathlib.Tactic.Common

/-!
# `lib.c`: byte buffers and C strings

A pointer into memory is the sequence of bytes from it on (`Buf`), so `s[j]` is `s j`.  The
string functions walk such a sequence; a walk that looks for a terminating NUL is bounded by
the size of the address space.
-/

namespace JuddOS

/-- The bytes at a pointer and after it. -/
abbrev Buf : Type := Nat → UInt8

namespace Buf

/-- The little-endian 32-bit word at an offset. -/
def word (b : Buf) (a : Nat) : UInt32 :=
  UInt32.ofNat ((b a).toNat + 2 ^ 8 * (b (a + 1)).toNat + 2 ^ 16 * (b (a + 2)).toNat +
    2 ^ 24 * (b (a + 3)).toNat)

/-- The four bytes of a word, low byte first. -/
def ofWord (w : UInt32) : Buf := fun j => UInt8.ofNat (w.toNat / 2 ^ (8 * j))

/-- The buffer of a C string: its bytes and then NULs. -/
def ofList (s : List UInt8) : Buf := fun j => s.getD j 0

/-- The string in a field of `n` bytes from index `i` on, which may fill the field and then
has no NUL. -/
def field (s : Buf) : Nat → Nat → List UInt8
  | 0, _ => []
  | n + 1, i => if s i = 0 then [] else s i :: field s n (i + 1)

end Buf

/-- `memcpy(dest + at, src, n)`. -/
def memcpy (dest : Buf) (start : Nat) (src : Buf) (n : Nat) : Buf :=
  fun j => if start ≤ j ∧ j < start + n then src (j - start) else dest j

/-- The loop of `strlen`, with the number of bytes it may still look at. -/
def strlenFrom (s : Buf) : Nat → Nat → Nat
  | 0, len => len
  | fuel + 1, len => if s len = 0 then len else strlenFrom s fuel (len + 1)

/-- `strlen`. -/
def strlen (s : Buf) : Nat := strlenFrom s (2 ^ 32) 0

/-- The loop of `strncmp` from index `i` on. -/
def strncmpFrom (s1 s2 : Buf) : Nat → Nat → Int
  | 0, _ => 0
  | n + 1, i =>
      if s1 i ≠ s2 i ∨ s1 i = 0 then (s1 i).toInt8.toInt - (s2 i).toInt8.toInt
      else strncmpFrom s1 s2 n (i + 1)

/-- `strncmp`. -/
def strncmp (s1 s2 : Buf) (n : Nat) : Int := strncmpFrom s1 s2 n 0

/-- `strcpy`: the bytes of `src` up to its NUL, and the NUL. -/
def strcpy (dest src : Buf) : Buf :=
  fun j => if j < strlen src then src j else if j = strlen src then 0 else dest j

/-! ## What the string functions compute -/

namespace Buf

theorem word_congr {b b' : Buf} {a a' : Nat} (h : ∀ j, j < 4 → b (a + j) = b' (a' + j)) :
    b.word a = b'.word a' := by
  have h0 := h 0 (by decide)
  rw [Nat.add_zero, Nat.add_zero] at h0
  rw [word, word, h0, h 1 (by decide), h 2 (by decide), h 3 (by decide)]

/-- The bytes of a word give the word back. -/
theorem word_ofWord (w : UInt32) : (ofWord w).word 0 = w := by
  have hw := w.toNat_lt
  refine UInt32.toNat_inj.mp ?_
  simp only [word, ofWord, UInt32.toNat_ofNat', UInt8.toNat_ofNat']
  omega

/-- The bytes of a word that was read. -/
theorem ofWord_word (b : Buf) (a : Nat) {j : Nat} (hj : j < 4) :
    ofWord (b.word a) j = b (a + j) := by
  have h0 := (b a).toNat_lt
  have h1 := (b (a + 1)).toNat_lt
  have h2 := (b (a + 2)).toNat_lt
  have h3 := (b (a + 3)).toNat_lt
  refine UInt8.toNat_inj.mp ?_
  simp only [word, ofWord, UInt32.toNat_ofNat', UInt8.toNat_ofNat']
  have hcases : j = 0 ∨ j = 1 ∨ j = 2 ∨ j = 3 := by omega
  rcases hcases with rfl | rfl | rfl | rfl <;>
    simp only [Nat.reduceMul, Nat.reducePow, Nat.add_zero, Nat.div_one] <;> omega

end Buf

/-- The signed value of a count returned as `int32_t`. -/
theorem toInt32_toInt (n : UInt32) :
    n.toInt32.toInt = if n.toNat < 2 ^ 31 then (n.toNat : Int) else n.toNat - 2 ^ 32 := by
  show n.toBitVec.toInt = _
  rw [BitVec.toInt_eq_toNat_cond]
  show (if 2 * n.toNat < 2 ^ 32 then (n.toNat : Int) else n.toNat - (2 ^ 32 : Nat)) = _
  by_cases h : n.toNat < 2 ^ 31
  · rw [if_pos h, if_pos (by omega)]
  · rw [if_neg h, if_neg (by omega)]
    rfl

theorem memcpy_inside {dest src : Buf} {start n j : Nat} (h : start ≤ j) (h' : j < start + n) :
    memcpy dest start src n j = src (j - start) := by
  simp [memcpy, h, h']

theorem memcpy_outside {dest src : Buf} {start n j : Nat} (h : j < start ∨ start + n ≤ j) :
    memcpy dest start src n j = dest j := by
  have : ¬ (start ≤ j ∧ j < start + n) := by omega
  simp [memcpy, this]

@[simp] theorem memcpy_zero (dest src : Buf) (start : Nat) : memcpy dest start src 0 = dest := by
  funext j
  exact memcpy_outside (by omega)

/-- Copying one byte more. -/
theorem memcpy_succ (dest src : Buf) (start n : Nat) :
    memcpy dest start src (n + 1) =
      Function.update (memcpy dest start src n) (start + n) (src n) := by
  funext j
  by_cases hj : j = start + n
  · subst hj
    rw [Function.update_self, memcpy_inside (by omega) (by omega), Nat.add_sub_cancel_left]
  · rw [Function.update_of_ne hj]
    by_cases hin : start ≤ j ∧ j < start + n
    · rw [memcpy_inside hin.1 hin.2, memcpy_inside hin.1 (by omega)]
    · rw [memcpy_outside (by omega), memcpy_outside (by omega)]

theorem strlenFrom_eq {s : Buf} {fuel len n : Nat} (hlen : len ≤ n) (hfuel : n ≤ len + fuel)
    (hne : ∀ j, len ≤ j → j < n → s j ≠ 0) (hend : s n = 0) : strlenFrom s fuel len = n := by
  induction fuel generalizing len with
  | zero =>
      rw [strlenFrom]
      omega
  | succ fuel ih =>
      rw [strlenFrom]
      by_cases heq : len = n
      · rw [heq, hend, if_pos rfl]
      · rw [if_neg (hne len (Nat.le_refl len) (by omega))]
        exact ih (by omega) (by omega) fun j hj hjn => hne j (by omega) hjn

/-- The length of a string is the index of its first NUL. -/
theorem strlen_eq {s : Buf} {n : Nat} (hn : n ≤ 2 ^ 32) (hne : ∀ j, j < n → s j ≠ 0)
    (hend : s n = 0) : strlen s = n :=
  strlenFrom_eq (Nat.zero_le n) (by omega) (fun j _ hj => hne j hj) hend

theorem strlenFrom_spec {s : Buf} {fuel len : Nat} (h : strlenFrom s fuel len < len + fuel) :
    s (strlenFrom s fuel len) = 0 ∧ ∀ j, len ≤ j → j < strlenFrom s fuel len → s j ≠ 0 := by
  induction fuel generalizing len with
  | zero => exact absurd h (Nat.lt_irrefl len)
  | succ fuel ih =>
      rw [strlenFrom] at h ⊢
      by_cases hzero : s len = 0
      · rw [if_pos hzero]
        exact ⟨hzero, by omega⟩
      · rw [if_neg hzero] at h ⊢
        have hlater : strlenFrom s fuel (len + 1) < len + 1 + fuel := by omega
        obtain ⟨hend, hne⟩ := ih hlater
        refine ⟨hend, fun j hlen hj => ?_⟩
        by_cases hjlen : j = len
        · rw [hjlen]
          exact hzero
        · exact hne j (by omega) hj

/-- Where a string ends, if it does. -/
theorem strlen_spec {s : Buf} (h : strlen s < 2 ^ 32) :
    s (strlen s) = 0 ∧ ∀ j, j < strlen s → s j ≠ 0 := by
  have hlt : strlenFrom s (2 ^ 32) 0 < 0 + 2 ^ 32 := by
    rw [Nat.zero_add]
    exact h
  obtain ⟨hend, hne⟩ := strlenFrom_spec hlt
  exact ⟨hend, fun j hj => hne j (Nat.zero_le j) hj⟩

theorem le_strlenFrom (s : Buf) (fuel len : Nat) : len ≤ strlenFrom s fuel len := by
  induction fuel generalizing len with
  | zero => exact Nat.le_refl len
  | succ fuel ih =>
      rw [strlenFrom]
      split
      · exact Nat.le_refl len
      · exact Nat.le_of_succ_le (ih (len + 1))

theorem strlenFrom_ge {s : Buf} {fuel len n : Nat} (hfuel : n ≤ len + fuel)
    (hne : ∀ j, len ≤ j → j < n → s j ≠ 0) : n ≤ strlenFrom s fuel len := by
  induction fuel generalizing len with
  | zero => exact Nat.le_trans hfuel (le_strlenFrom s 0 len)
  | succ fuel ih =>
      by_cases hlen : len < n
      · rw [strlenFrom, if_neg (hne len (Nat.le_refl len) hlen)]
        exact ih (by omega) fun j hj hjn => hne j (by omega) hjn
      · exact Nat.le_trans (Nat.le_of_not_lt hlen) (le_strlenFrom s _ len)

/-- A string with no NUL among its first `n` bytes has at least that length. -/
theorem le_strlen {s : Buf} {n : Nat} (hn : n ≤ 2 ^ 32) (hne : ∀ j, j < n → s j ≠ 0) :
    n ≤ strlen s :=
  strlenFrom_ge (by omega) fun j _ hj => hne j hj

theorem strncmpFrom_eq_zero_iff {s1 s2 : Buf} {n i : Nat}
    (hne : ∀ j, i ≤ j → j < i + n → s1 j ≠ 0) :
    strncmpFrom s1 s2 n i = 0 ↔ ∀ j, i ≤ j → j < i + n → s1 j = s2 j := by
  induction n generalizing i with
  | zero =>
      refine ⟨fun _ j hj hj' => ?_, fun _ => rfl⟩
      omega
  | succ n ih =>
      rw [strncmpFrom]
      have hi : s1 i ≠ 0 := hne i (Nat.le_refl i) (by omega)
      by_cases heq : s1 i = s2 i
      · rw [if_neg (by rintro (h | h) <;> contradiction),
          ih fun j hj hj' => hne j (by omega) (by omega)]
        constructor
        · intro h j hj hj'
          by_cases hij : j = i
          · rw [hij, heq]
          · exact h j (by omega) (by omega)
        · exact fun h j hj hj' => h j (by omega) (by omega)
      · rw [if_pos (.inl heq)]
        constructor
        · intro h
          refine absurd ?_ heq
          have hint : (s1 i).toInt8 = (s2 i).toInt8 := Int8.toInt_inj.mp (by omega)
          exact congrArg Int8.toUInt8 hint
        · exact fun h => absurd (h i (Nat.le_refl i) (by omega)) heq

/-- Two strings compare equal over `n` bytes of the first one exactly when those bytes are
the same. -/
theorem strncmp_eq_zero_iff {s1 s2 : Buf} {n : Nat} (hne : ∀ j, j < n → s1 j ≠ 0) :
    strncmp s1 s2 n = 0 ↔ ∀ j, j < n → s1 j = s2 j := by
  rw [strncmp, strncmpFrom_eq_zero_iff fun j _ hj => hne j (by omega)]
  exact ⟨fun h j hj => h j (Nat.zero_le j) (by omega), fun h j _ hj => h j (by omega)⟩

/-! ## Strings in fields -/

theorem field_length_le (s : Buf) (n i : Nat) : (s.field n i).length ≤ n := by
  induction n generalizing i with
  | zero => exact Nat.le_refl 0
  | succ n ih =>
      rw [Buf.field]
      split
      · exact Nat.zero_le _
      · exact Nat.succ_le_succ (ih (i + 1))

theorem field_getD {s : Buf} {n i j : Nat} (hj : j < (s.field n i).length) :
    (s.field n i).getD j 0 = s (i + j) ∧ s (i + j) ≠ 0 := by
  induction n generalizing i j with
  | zero => exact absurd hj (Nat.not_lt_zero j)
  | succ n ih =>
      rw [Buf.field] at hj ⊢
      by_cases hzero : s i = 0
      · rw [if_pos hzero] at hj
        exact absurd hj (Nat.not_lt_zero j)
      · rw [if_neg hzero] at hj ⊢
        cases j with
        | zero => exact ⟨rfl, hzero⟩
        | succ j =>
            have hnext := ih (i := i + 1) (Nat.lt_of_succ_lt_succ hj)
            rw [Nat.add_right_comm i 1 j] at hnext
            exact hnext

theorem field_end {s : Buf} {n i : Nat} (h : (s.field n i).length < n) :
    s (i + (s.field n i).length) = 0 := by
  induction n generalizing i with
  | zero => exact absurd h (Nat.not_lt_zero _)
  | succ n ih =>
      rw [Buf.field] at h ⊢
      by_cases hzero : s i = 0
      · rw [if_pos hzero]
        exact hzero
      · rw [if_neg hzero] at h ⊢
        have hnext := ih (i := i + 1) (Nat.lt_of_succ_lt_succ h)
        rw [Nat.add_right_comm i 1 _] at hnext
        exact hnext

/-- The length of the string in a field, in the words of `strlen`. -/
theorem field_length (s : Buf) {n : Nat} (hn : n ≤ 2 ^ 32) :
    (s.field n 0).length = if strlen s > n then n else strlen s := by
  have hle := field_length_le s n 0
  have hne : ∀ j, j < (s.field n 0).length → s j ≠ 0 := by
    intro j hj
    have h := (field_getD hj).2
    rwa [Nat.zero_add] at h
  by_cases hshort : (s.field n 0).length < n
  · have hend := field_end hshort
    rw [Nat.zero_add] at hend
    rw [strlen_eq (by omega) hne hend, if_neg (by omega)]
  · have hfull : (s.field n 0).length = n := by omega
    rw [hfull] at hne ⊢
    have hlong := le_strlen hn hne
    split <;> omega

theorem ofList_ne_zero {s : List UInt8} (hs : (0 : UInt8) ∉ s) {j : Nat} (hj : j < s.length) :
    Buf.ofList s j ≠ 0 := by
  intro h
  apply hs
  rw [Buf.ofList, List.getD_eq_getElem s 0 hj] at h
  exact h ▸ List.getElem_mem hj

/-- The length of a buffer that holds a string without NUL bytes. -/
theorem strlen_ofList {s : List UInt8} (hs : (0 : UInt8) ∉ s) (hlen : s.length ≤ 2 ^ 32) :
    strlen (Buf.ofList s) = s.length :=
  strlen_eq hlen (fun _ hj => ofList_ne_zero hs hj) (by simp [Buf.ofList])

end JuddOS
