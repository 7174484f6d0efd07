import Mathlib.Data.BitVec
import Mathlib.Logic.Function.Basic
import Mathlib.Tactic.Common

/-!
# Bytes and words of a flat memory

Addresses are 32 bits wide and wrap around.  A word is four bytes with the low byte first.  An
address is mostly a base and an offset that is a natural number, so the lemmas are about
`a + BitVec.ofNat 32 j`.

* `written` is a memory in which a region is filled from its start; `written_byte` and
  `written_word` go on by a byte and by a word.
* `Holds` says which words lie at an address and behind it, as on a stack; `Holds.push` and
  `Holds.congr` are its rules.
-/

namespace JuddOS
namespace X86

abbrev Word : Type := BitVec 32

/-- A memory without segments. -/
abbrev Memory : Type := Word → BitVec 8

/-- The word at an address. -/
def loadWord (m : Memory) (a : Word) : Word := m (a + 3) ++ m (a + 2) ++ m (a + 1) ++ m a

/-- Byte `j` of a word. -/
def byteOf (w : Word) (j : Nat) : BitVec 8 := w.extractLsb' (8 * j) 8

/-- A word is stored. -/
def storeWord (m : Memory) (a w : Word) : Memory := fun b =>
  if (b - a).toNat < 4 then byteOf w (b - a).toNat else m b

/-! ## Offsets -/

theorem offset_toNat {j : Nat} (hj : j < 2 ^ 32) : (BitVec.ofNat 32 j).toNat = j :=
  Nat.mod_eq_of_lt hj

/-- An offset is what it is, up to a wrap of the address. -/
theorem sub_base_toNat (a : Word) {j : Nat} (hj : j < 2 ^ 32) :
    (a + BitVec.ofNat 32 j - a).toNat = j := by
  rw [BitVec.add_comm, BitVec.add_sub_cancel, offset_toNat hj]

/-- Every address has an offset. -/
theorem base_add_sub (a b : Word) : a + BitVec.ofNat 32 (b - a).toNat = b := by
  rw [BitVec.ofNat_toNat, BitVec.setWidth_eq]
  bv_omega

/-- The distance of two offsets. -/
theorem sub_offset_toNat (a : Word) {i k : Nat} (hi : i < 2 ^ 32) (hk : k < 2 ^ 32) :
    (a + BitVec.ofNat 32 i - (a + BitVec.ofNat 32 k)).toNat =
      if k ≤ i then i - k else i + 2 ^ 32 - k := by
  rw [add_sub_add_left_eq_sub, BitVec.toNat_sub, offset_toNat hi, offset_toNat hk]
  split <;> omega

theorem offset_add (a : Word) (i j : Nat) :
    a + BitVec.ofNat 32 i + BitVec.ofNat 32 j = a + BitVec.ofNat 32 (i + j) := by
  rw [BitVec.add_assoc, ← BitVec.ofNat_add]

/-- A pointer at an offset goes on. -/
theorem offset_next {p a : Word} {i : Nat} (h : p = a + BitVec.ofNat 32 i) (j : Nat) :
    p + BitVec.ofNat 32 j = a + BitVec.ofNat 32 (i + j) := by
  rw [h, offset_add]

/-! ## Loads and stores -/

theorem loadWord_congr {m m' : Memory} {a a' : Word}
    (h : ∀ j, j < 4 → m (a + BitVec.ofNat 32 j) = m' (a' + BitVec.ofNat 32 j)) :
    loadWord m a = loadWord m' a' := by
  have h0 := h 0 (by decide)
  rw [BitVec.add_zero, BitVec.add_zero] at h0
  have h1 : m (a + 1) = m' (a' + 1) := h 1 (by decide)
  have h2 : m (a + 2) = m' (a' + 2) := h 2 (by decide)
  have h3 : m (a + 3) = m' (a' + 3) := h 3 (by decide)
  rw [loadWord, loadWord, h0, h1, h2, h3]

theorem getLsbD_loadWord (m : Memory) (a : Word) (i : Nat) :
    (loadWord m a).getLsbD i =
      if i < 8 then (m a).getLsbD i
      else if i - 8 < 8 then (m (a + 1)).getLsbD (i - 8)
      else if i - 8 - 8 < 8 then (m (a + 2)).getLsbD (i - 8 - 8)
      else (m (a + 3)).getLsbD (i - 8 - 8 - 8) := by
  have happend : ∀ b₃ b₂ b₁ b₀ : BitVec 8, (b₃ ++ b₂ ++ b₁ ++ b₀).getLsbD i =
      if i < 8 then b₀.getLsbD i
      else if i - 8 < 8 then b₁.getLsbD (i - 8)
      else if i - 8 - 8 < 8 then b₂.getLsbD (i - 8 - 8)
      else b₃.getLsbD (i - 8 - 8 - 8) := by
    intro b₃ b₂ b₁ b₀
    simp only [BitVec.getLsbD_append]
  exact happend _ _ _ _

/-- The bytes of a word that was loaded. -/
theorem byteOf_loadWord (m : Memory) (a : Word) {j : Nat} (hj : j < 4) :
    byteOf (loadWord m a) j = m (a + BitVec.ofNat 32 j) := by
  have hcases : j = 0 ∨ j = 1 ∨ j = 2 ∨ j = 3 := by omega
  refine BitVec.eq_of_getLsbD_eq fun i hi => ?_
  rw [byteOf, BitVec.getLsbD_extractLsb', getLsbD_loadWord]
  rcases hcases with rfl | rfl | rfl | rfl
  · simp [hi]
  · rw [if_neg (by omega), if_pos (by omega), Nat.add_sub_cancel_left]
    simp [hi]
  · rw [if_neg (by omega), if_neg (by omega), if_pos (by omega)]
    have hbit : 8 * 2 + i - 8 - 8 = i := by omega
    simp [hi, hbit]
  · rw [if_neg (by omega), if_neg (by omega), if_neg (by omega)]
    have hbit : 8 * 3 + i - 8 - 8 - 8 = i := by omega
    simp [hi, hbit]

/-- The word with given bytes. -/
theorem eq_of_byteOf {w w' : Word} (h : ∀ j, j < 4 → byteOf w j = byteOf w' j) : w = w' := by
  ext i hi
  have hbyte := congrArg (fun b : BitVec 8 => b.getLsbD (i % 8)) (h (i / 8) (by omega))
  have hlow : i % 8 < 8 := Nat.mod_lt _ (by decide)
  simp only [byteOf, BitVec.getLsbD_extractLsb', hlow, decide_true, Bool.true_and,
    Nat.div_add_mod] at hbyte
  rw [← BitVec.getLsbD_eq_getElem, ← BitVec.getLsbD_eq_getElem]
  exact hbyte

theorem storeWord_inside (m : Memory) (a w : Word) {j : Nat} (hj : j < 4) :
    storeWord m a w (a + BitVec.ofNat 32 j) = byteOf w j := by
  have hoffset := sub_base_toNat a (show j < 2 ^ 32 by omega)
  rw [storeWord, hoffset, if_pos hj]

theorem storeWord_outside (m : Memory) {a w b : Word} (h : 4 ≤ (b - a).toNat) :
    storeWord m a w b = m b := if_neg (Nat.not_lt_of_le h)

@[simp] theorem loadWord_storeWord (m : Memory) (a w : Word) :
    loadWord (storeWord m a w) a = w := by
  refine eq_of_byteOf fun j hj => ?_
  rw [byteOf_loadWord _ _ hj, storeWord_inside m a w hj]

/-! ## Filling a region -/

/-- The first `k` bytes from `dest` on have been written; byte `j` is `f j`. -/
def written (m : Memory) (dest : Word) (f : Nat → BitVec 8) (k : Nat) : Memory := fun a =>
  if (a - dest).toNat < k then f (a - dest).toNat else m a

@[simp] theorem written_zero (m : Memory) (dest : Word) (f : Nat → BitVec 8) :
    written m dest f 0 = m := by
  funext a
  exact if_neg (Nat.not_lt_zero _)

theorem written_offset (m : Memory) (dest : Word) (f : Nat → BitVec 8) (k : Nat) {i : Nat}
    (hi : i < 2 ^ 32) :
    written m dest f k (dest + BitVec.ofNat 32 i) =
      if i < k then f i else m (dest + BitVec.ofNat 32 i) := by
  have hoffset := sub_base_toNat dest hi
  rw [written, hoffset]

/-- An address outside the region. -/
theorem written_outside (m : Memory) {dest a : Word} (f : Nat → BitVec 8) {k : Nat}
    (h : ∀ j, j < k → a ≠ dest + BitVec.ofNat 32 j) : written m dest f k a = m a :=
  if_neg fun hlt => h _ hlt (base_add_sub dest a).symm

/-- Equality of two memories, by offsets from a base. -/
theorem memory_ext (base : Word) {m m' : Memory}
    (h : ∀ i, i < 2 ^ 32 → m (base + BitVec.ofNat 32 i) = m' (base + BitVec.ofNat 32 i)) :
    m = m' := by
  funext a
  have hoffset := h (a - base).toNat (a - base).isLt
  rwa [base_add_sub] at hoffset

/-- One byte more. -/
theorem written_byte (m : Memory) (dest : Word) (f : Nat → BitVec 8) {k : Nat} (hk : k < 2 ^ 32) :
    Function.update (written m dest f k) (dest + BitVec.ofNat 32 k) (f k) =
      written m dest f (k + 1) := by
  refine memory_ext dest fun i hi => ?_
  rw [written_offset m dest f (k + 1) hi]
  by_cases heq : i = k
  · subst heq
    rw [Function.update_self, if_pos (Nat.lt_succ_self i)]
  · have hne : dest + BitVec.ofNat 32 i ≠ dest + BitVec.ofNat 32 k := by
      intro hsame
      have hoffset := congrArg (fun a => (a - dest).toNat) hsame
      simp only [sub_base_toNat dest hi, sub_base_toNat dest hk] at hoffset
      exact heq hoffset
    rw [Function.update_of_ne hne, written_offset m dest f k hi]
    by_cases hlt : i < k
    · rw [if_pos hlt, if_pos (by omega)]
    · rw [if_neg hlt, if_neg (by omega)]

/-- One word more. -/
theorem written_word (m : Memory) (dest : Word) {f : Nat → BitVec 8} {k : Nat} {w : Word}
    (hw : ∀ j, j < 4 → byteOf w j = f (k + j)) (hk : k + 4 ≤ 2 ^ 32) :
    storeWord (written m dest f k) (dest + BitVec.ofNat 32 k) w = written m dest f (k + 4) := by
  refine memory_ext dest fun i hi => ?_
  have hdistance := sub_offset_toNat dest hi (show k < 2 ^ 32 by omega)
  rw [written_offset m dest f (k + 4) hi]
  by_cases hin : k ≤ i ∧ i < k + 4
  · rw [if_pos hin.1] at hdistance
    rw [storeWord, hdistance, if_pos (by omega), hw _ (by omega), if_pos hin.2,
      Nat.add_sub_cancel' hin.1]
  · have hfar : 4 ≤ (dest + BitVec.ofNat 32 i - (dest + BitVec.ofNat 32 k)).toNat := by
      rw [hdistance]
      split <;> omega
    rw [storeWord_outside _ hfar, written_offset m dest f k hi]
    by_cases hlt : i < k
    · rw [if_pos hlt, if_pos (by omega)]
    · rw [if_neg hlt, if_neg (by omega)]

/-! ## Words on a stack -/

/-- The words from an address on. -/
def Holds (m : Memory) : Word → List Word → Prop
  | _, [] => True
  | a, w :: ws => loadWord m a = w ∧ Holds m (a + 4) ws

/-- Only the bytes of the words matter. -/
theorem Holds.congr {m m' : Memory} {a : Word} {ws : List Word} (h : Holds m a ws)
    (hsame : ∀ j, j < 4 * ws.length → m' (a + BitVec.ofNat 32 j) = m (a + BitVec.ofNat 32 j)) :
    Holds m' a ws := by
  induction ws generalizing a with
  | nil => trivial
  | cons w ws ih =>
      rw [List.length_cons] at hsame
      obtain ⟨hw, hws⟩ := h
      refine ⟨?_, ih hws fun j hj => ?_⟩
      · rw [← hw]
        exact loadWord_congr fun j hj => hsame j (by omega)
      · have hnext : a + 4 + BitVec.ofNat 32 j = a + BitVec.ofNat 32 (4 + j) := offset_add a 4 j
        rw [hnext]
        exact hsame (4 + j) (by omega)

/-- A word below the others. -/
theorem Holds.push {m : Memory} {a : Word} {ws : List Word} (h : Holds m a ws) (w : Word)
    (hroom : 4 * (ws.length + 1) ≤ 2 ^ 32) : Holds (storeWord m (a - 4) w) (a - 4) (w :: ws) := by
  have hback : a - 4 + 4 = a := BitVec.sub_add_cancel a 4
  refine ⟨loadWord_storeWord m _ w, ?_⟩
  rw [hback]
  refine h.congr fun j hj => storeWord_outside m ?_
  have hoffset : a + BitVec.ofNat 32 j = a - 4 + BitVec.ofNat 32 (4 + j) := by
    have hfour := offset_add (a - 4) 4 j
    rw [← hfour]
    exact congrArg (· + BitVec.ofNat 32 j) hback.symm
  rw [hoffset, sub_base_toNat _ (by omega)]
  exact Nat.le_add_right 4 j

theorem Holds.drop {m : Memory} {a : Word} {ws ws' : List Word} (h : Holds m a (ws ++ ws')) :
    Holds m (a + BitVec.ofNat 32 (4 * ws.length)) ws' := by
  induction ws generalizing a with
  | nil => simpa using h
  | cons w ws ih =>
      have hrest := ih h.2
      have hnext : a + 4 + BitVec.ofNat 32 (4 * ws.length) =
          a + BitVec.ofNat 32 (4 + 4 * ws.length) := offset_add a 4 _
      rw [hnext] at hrest
      rw [List.length_cons, Nat.mul_add, Nat.mul_one, Nat.add_comm]
      exact hrest

end X86
end JuddOS
