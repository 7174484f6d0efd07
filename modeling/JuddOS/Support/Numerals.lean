import Mathlib.Data.Nat.Digits.Lemmas
import Mathlib.Tactic.Common

/-!
# Numbers in positional notation

Texts over an arbitrary alphabet of digits, with the most significant digit first.

* `Alphabet` has a character for each digit and the digit of each character.
* `IsNumeral` says that a text is a number in some radix, without leading zeros.
* `isNumeral_numeral`: every number has such a text, `decode_padded` that zeros in front of it
  do not change its value, and `length_numeral_le` how long it can be.
-/

namespace JuddOS
namespace Support

/-- The characters for the digits below `size`. -/
structure Alphabet (α : Type*) where
  size : Nat
  char : Nat → α
  value : α → Nat
  value_char : ∀ d, d < size → value (char d) = d

namespace Alphabet

variable {α : Type*} (A : Alphabet α)

/-- A number as a text. -/
def numeral (radix n : Nat) : List α :=
  if n = 0 then [A.char 0] else ((Nat.digits radix n).map A.char).reverse

/-- The number that a text stands for. -/
def decode (radix : Nat) (text : List α) : Nat :=
  text.foldl (fun n c => n * radix + A.value c) 0

/-- `text` is `n` in this radix. -/
structure IsNumeral (radix n : Nat) (text : List α) : Prop where
  nonempty : text ≠ []
  digits : ∀ c ∈ text, ∃ d, d < radix ∧ c = A.char d
  leading : text.head? = some (A.char 0) → text = [A.char 0]
  value : A.decode radix text = n

variable {A} {radix : Nat}

/-- From the last digit on, the value is that of the digits of a number. -/
theorem decode_reverse (text : List α) :
    A.decode radix text.reverse = Nat.ofDigits radix (text.map A.value) := by
  rw [decode, List.foldl_reverse, Nat.ofDigits_eq_foldr, List.foldr_map]
  simp only [Nat.cast_id, Nat.mul_comm radix, Nat.add_comm]

/-- The digits of a number, as characters and back. -/
theorem map_value_char {ds : List Nat} (hds : ∀ d ∈ ds, d < A.size) :
    (ds.map A.char).map A.value = ds := by
  rw [List.map_map]
  exact (List.map_congr_left fun d hd => A.value_char d (hds d hd)).trans (List.map_id' ds)

theorem decode_numeral (hradix : 1 < radix) (hsize : radix ≤ A.size) (n : Nat) :
    A.decode radix (A.numeral radix n) = n := by
  rw [numeral]
  by_cases hzero : n = 0
  · rw [if_pos hzero, hzero, decode]
    simp [A.value_char 0 (by omega)]
  · have hdigits : ∀ d ∈ Nat.digits radix n, d < A.size := fun d hd =>
      (Nat.digits_lt_base hradix hd).trans_le hsize
    rw [if_neg hzero, decode_reverse, map_value_char hdigits, Nat.ofDigits_digits]

/-- **Every number is written**, in each radix for which there are digits. -/
theorem isNumeral_numeral (hradix : 1 < radix) (hsize : radix ≤ A.size) (n : Nat) :
    A.IsNumeral radix n (A.numeral radix n) := by
  have hvalue := decode_numeral hradix hsize n
  by_cases hzero : n = 0
  · have htext : A.numeral radix n = [A.char 0] := if_pos hzero
    rw [htext] at hvalue ⊢
    refine ⟨List.cons_ne_nil _ _, fun c hc => ?_, fun _ => rfl, hvalue⟩
    exact ⟨0, by omega, List.mem_singleton.mp hc⟩
  · have htext : A.numeral radix n = ((Nat.digits radix n).map A.char).reverse := if_neg hzero
    have hne : Nat.digits radix n ≠ [] := Nat.digits_ne_nil_iff_ne_zero.mpr hzero
    rw [htext] at hvalue ⊢
    refine ⟨by simpa using hne, fun c hc => ?_, fun hhead => ?_, hvalue⟩
    · rw [List.mem_reverse, List.mem_map] at hc
      obtain ⟨d, hd, rfl⟩ := hc
      exact ⟨d, Nat.digits_lt_base hradix hd, rfl⟩
    · -- the first character is that of the last digit, which is not 0
      have hlast := Nat.getLast_digit_ne_zero radix hzero
      have hbound := (Nat.digits_lt_base hradix (List.getLast_mem hne)).trans_le hsize
      rw [List.head?_reverse, List.getLast?_map, List.getLast?_eq_some_getLast hne,
        Option.map_some, Option.some_inj] at hhead
      have hsame := congrArg A.value hhead
      rw [A.value_char _ hbound, A.value_char 0 (by omega)] at hsame
      exact absurd hsame hlast

/-- Zeros in front do not change the value. -/
theorem decode_padded (hsize : 0 < A.size) (zeros : Nat) (text : List α) :
    A.decode radix (List.replicate zeros (A.char 0) ++ text) = A.decode radix text := by
  induction zeros with
  | zero => rfl
  | succ zeros ih =>
      rw [← ih, List.replicate_succ, List.cons_append, decode, List.foldl_cons,
        A.value_char 0 hsize, Nat.zero_mul, decode]

theorem length_numeral_le (hradix : 1 < radix) {n k : Nat} (hk : 0 < k) (hn : n < radix ^ k) :
    (A.numeral radix n).length ≤ k := by
  rw [numeral]
  split
  · exact hk
  · rw [List.length_reverse, List.length_map]
    exact (Nat.digits_length_le_iff hradix n).mpr hn

end Alphabet
end Support
end JuddOS
