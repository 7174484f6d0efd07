import JuddOS.Strings
import JuddOS.Support.Numerals

/-!
# `lib.c`: `itoa` and `strrev`

`itoa` writes the digits from the lowest one on and lets `strrev` turn them around.  The loops
give `none` when they are not left.

* `itoaLoop_eq` and `strrev_eq` say what the two loops leave in the buffer.
* `itoa_eq` is their composition: the numeral of the value and a NUL, and nothing else.
-/

namespace JuddOS

open Support

@[simp] abbrev chZero : UInt8 := 0x30
@[simp] abbrev chMinus : UInt8 := 0x2d

/-- `s + start`. -/
def Buf.from (s : Buf) (start : Nat) : Buf := fun j => s (start + j)

/-- `while (beg < end)` of `strrev`. -/
def strrevLoop (start : Nat) : Nat → Int → Int → Buf → Option Buf
  | 0, _, _, _ => none
  | fuel + 1, beg, last, s =>
      if beg < last then
        let tmp := s (start + last.toNat)
        let s := Function.update s (start + last.toNat) (s (start + beg.toNat))
        strrevLoop start fuel (beg + 1) (last - 1) (Function.update s (start + beg.toNat) tmp)
      else some s

/-- `strrev` of the string at `s + start`. -/
def strrev (start : Nat) (s : Buf) : Option Buf :=
  let len := strlen (s.from start)
  strrevLoop start (len + 1) 0 (len - 1) s

/-- `lookup`. -/
def lookup : Buf :=
  Buf.ofList ("0123456789ABCDEFGHIJKLMNOPQRSTUVWXYZ".toList.map fun c => UInt8.ofNat c.toNat)

/-- `while (newval > 0)` of `itoa`; the index is `newbuf`. -/
def itoaLoop (radix : UInt32) : Nat → UInt32 → Nat → Buf → Option (Nat × Buf)
  | 0, _, _, _ => none
  | fuel + 1, newval, newbuf, buf =>
      if newval > 0 then
        itoaLoop radix fuel (newval / radix) (newbuf + 1)
          (Function.update buf newbuf (lookup (newval % radix).toNat))
      else some (newbuf, buf)

/-- `itoa(value, buf + start, radix)`. -/
def itoa (value : UInt32) (start : Nat) (radix : UInt32) (buf : Buf) : Option Buf :=
  if value = 0 then
    some (Function.update (Function.update buf start chZero) (start + 1) 0)
  else do
    let (newbuf, buf) ← itoaLoop radix 33 value start buf
    strrev start (Function.update buf newbuf 0)

/-- The digits of `lookup`. -/
def lookupDigits : Alphabet UInt8 where
  size := 36
  char := lookup
  value c := if c < 0x41 then c.toNat - 0x30 else c.toNat - 0x41 + 10
  value_char := by decide

/-! ## The reversal -/

/-- The first `k` and the last `k` of the `n` bytes at `start` have changed places. -/
def flipped (s : Buf) (start n k : Nat) : Buf := fun a =>
  if start ≤ a ∧ a < start + n ∧ (a < start + k ∨ start + n ≤ a + k) then
    s (start + (start + n - 1 - a))
  else s a

/-- One swap more. -/
theorem flipped_succ (s : Buf) (start : Nat) {n k : Nat} (hk : 2 * k + 2 ≤ n) :
    Function.update (Function.update (flipped s start n k) (start + (n - 1 - k))
      (flipped s start n k (start + k))) (start + k)
      (flipped s start n k (start + (n - 1 - k))) = flipped s start n (k + 1) := by
  have hleft : flipped s start n k (start + k) = s (start + k) := if_neg (by omega)
  have hright : flipped s start n k (start + (n - 1 - k)) = s (start + (n - 1 - k)) :=
    if_neg (by omega)
  rw [hleft, hright]
  funext a
  by_cases hbeg : a = start + k
  · subst hbeg
    have hmirror : start + n - 1 - (start + k) = n - 1 - k := by omega
    rw [Function.update_self, flipped, if_pos (by omega), hmirror]
  · rw [Function.update_of_ne hbeg]
    by_cases hend : a = start + (n - 1 - k)
    · subst hend
      have hmirror : start + n - 1 - (start + (n - 1 - k)) = k := by omega
      rw [Function.update_self, flipped, if_pos (by omega), hmirror]
    · rw [Function.update_of_ne hend, flipped, flipped]
      refine if_congr ?_ rfl rfl
      omega

/-- When the indices meet, all bytes have changed places. -/
theorem flipped_done (s : Buf) {start n k : Nat} (hk : n ≤ 2 * k + 1) :
    flipped s start n k = flipped s start n n := by
  funext a
  by_cases hmiddle : start + n - 1 - a + start = a
  · -- the byte in the middle stays
    have hsame : s (start + (start + n - 1 - a)) = s a := congrArg s (by omega)
    rw [flipped, flipped, hsame, ite_self, ite_self]
  · rw [flipped, flipped]
    refine if_congr ?_ rfl rfl
    omega

/-- **The loop of `strrev` ends** with the bytes reversed, from the `k`-th swap on. -/
theorem strrevLoop_eq (s : Buf) (start n fuel k : Nat) (hfuel : n < fuel + k)
    (hk : 2 * k ≤ n + 1) :
    strrevLoop start fuel k ((n : Int) - 1 - k) (flipped s start n k) =
      some (flipped s start n n) := by
  induction fuel generalizing k with
  | zero => omega
  | succ fuel ih =>
      rw [strrevLoop]
      by_cases hgo : (k : Int) < (n : Int) - 1 - k
      · have hbeg : (k : Int).toNat = k := Int.toNat_natCast k
        have hend : ((n : Int) - 1 - k).toNat = n - 1 - k := by omega
        have hnext := ih (k + 1) (by omega) (by omega)
        have hswap := flipped_succ s start (n := n) (k := k) (by omega)
        have hbeg' : (k : Int) + 1 = (k + 1 : Nat) := rfl
        have hend' : (n : Int) - 1 - k - 1 = (n : Int) - 1 - (k + 1 : Nat) := by omega
        rw [if_pos hgo, hbeg, hend]
        dsimp only
        rw [hswap, hbeg', hend']
        exact hnext
      · rw [if_neg hgo, flipped_done s (by omega)]

/-- The bytes of a string with a NUL after them. -/
structure Buf.StringAt (s : Buf) (start : Nat) (text : List UInt8) : Prop where
  bytes : ∀ j, j < text.length → s (start + j) = text.getD j 0
  nul : s (start + text.length) = 0
  nonzero : (0 : UInt8) ∉ text

/-- A string without its first byte. -/
theorem Buf.StringAt.tail {s : Buf} {start : Nat} {c : UInt8} {text : List UInt8}
    (h : s.StringAt start (c :: text)) : s.StringAt (start + 1) text where
  bytes j hj := by
    rw [Nat.add_assoc, Nat.add_comm 1]
    exact h.bytes (j + 1) (Nat.succ_lt_succ hj)
  nul := by
    rw [Nat.add_assoc, Nat.add_comm 1]
    exact h.nul
  nonzero hmem := h.nonzero (List.mem_cons_of_mem c hmem)

/-- A string with a byte in front of it. -/
theorem Buf.StringAt.cons {s : Buf} {start : Nat} {c : UInt8} {text : List UInt8}
    (h : s.StringAt (start + 1) text) (hc : s start = c) (hne : c ≠ 0) :
    s.StringAt start (c :: text) where
  bytes j hj := by
    cases j with
    | zero => exact hc
    | succ j =>
        rw [Nat.add_comm j, ← Nat.add_assoc, Nat.add_comm 1 j]
        exact h.bytes j (Nat.lt_of_succ_lt_succ hj)
  nul := by
    rw [List.length_cons, Nat.add_comm text.length, ← Nat.add_assoc]
    exact h.nul
  nonzero hmem := by
    rcases List.mem_cons.mp hmem with hzero | hrest
    · exact hne hzero.symm
    · exact h.nonzero hrest

/-- The rest of a string. -/
theorem Buf.StringAt.drop {s : Buf} {start : Nat} {text rest : List UInt8}
    (h : s.StringAt start (text ++ rest)) : s.StringAt (start + text.length) rest := by
  induction text generalizing start with
  | nil => exact h
  | cons c text ih =>
      rw [List.length_cons, Nat.add_comm text.length, ← Nat.add_assoc]
      exact ih h.tail

theorem Buf.StringAt.head {s : Buf} {start : Nat} {c : UInt8} {text : List UInt8}
    (h : s.StringAt start (c :: text)) : s start = c ∧ c ≠ 0 :=
  ⟨h.bytes 0 (Nat.succ_pos _), fun hzero => h.nonzero (hzero ▸ List.mem_cons_self)⟩

theorem Buf.StringAt.strlen {s : Buf} {start : Nat} {text : List UInt8}
    (h : s.StringAt start text) (hlen : text.length ≤ 2 ^ 32) :
    JuddOS.strlen (s.from start) = text.length := by
  refine strlen_eq hlen (fun j hj => ?_) h.nul
  rw [Buf.from, h.bytes j hj]
  exact ofList_ne_zero h.nonzero hj

/-- **`strrev` turns a string around**, and only that. -/
theorem strrev_eq {s : Buf} {start : Nat} {text : List UInt8} (h : s.StringAt start text)
    (hlen : text.length ≤ 2 ^ 32) :
    strrev start s = some (memcpy s start (Buf.ofList text.reverse) text.length) := by
  have hloop := strrevLoop_eq s start text.length (text.length + 1) 0 (by omega) (by omega)
  have hnone : flipped s start text.length 0 = s := by
    funext a
    exact if_neg (by omega)
  have hall : flipped s start text.length text.length =
      memcpy s start (Buf.ofList text.reverse) text.length := by
    funext a
    rw [flipped, memcpy]
    refine if_ctx_congr ?_ (fun hin => ?_) fun _ => rfl
    · omega
    · have hbyte := h.bytes (start + text.length - 1 - a) (by omega)
      have hindex : text.length - 1 - (a - start) = start + text.length - 1 - a := by omega
      rw [hbyte, Buf.ofList, List.getD_reverse _ (by omega), hindex]
  rw [hnone, hall, Nat.cast_zero, Int.sub_zero] at hloop
  rw [strrev, h.strlen hlen]
  exact hloop

/-! ## The digits -/

/-- **The loop of `itoa` ends** with the digits from the lowest one on. -/
theorem itoaLoop_eq {radix : UInt32} (hradix : 1 < radix.toNat) (fuel : Nat) (newval : UInt32)
    (newbuf : Nat) (buf : Buf) (hfuel : newval.toNat < 2 ^ fuel) :
    itoaLoop radix (fuel + 1) newval newbuf buf =
      some (newbuf + (Nat.digits radix.toNat newval.toNat).length,
        memcpy buf newbuf (Buf.ofList ((Nat.digits radix.toNat newval.toNat).map lookup))
          (Nat.digits radix.toNat newval.toNat).length) := by
  induction fuel generalizing newval newbuf buf with
  | zero =>
      have hzero : newval = 0 := UInt32.toNat_inj.mp (Nat.lt_one_iff.mp hfuel)
      subst hzero
      simp [itoaLoop]
  | succ fuel ih =>
      by_cases hzero : newval = 0
      · subst hzero
        simp [itoaLoop]
      · have hgo : newval > 0 := UInt32.pos_iff_ne_zero.mpr hzero
        have hpos : 0 < newval.toNat := hgo
        have hsmaller : newval.toNat / radix.toNat < 2 ^ fuel := by
          rw [Nat.div_lt_iff_lt_mul (by omega)]
          calc newval.toNat < 2 ^ fuel * 2 := hfuel
            _ ≤ 2 ^ fuel * radix.toNat := Nat.mul_le_mul_left _ hradix
        have hnext := ih (newval / radix) (newbuf + 1)
          (Function.update buf newbuf (lookup (newval % radix).toNat)) hsmaller
        have hcopy := memcpy_update buf newbuf (lookup (newval % radix).toNat)
          ((Nat.digits radix.toNat (newval / radix).toNat).map lookup)
        rw [List.length_map] at hcopy
        rw [itoaLoop, if_pos hgo, hnext, hcopy, Nat.digits_def' hradix hpos, List.map_cons,
          List.length_cons, List.length_cons, List.length_map, UInt32.toNat_mod,
          UInt32.toNat_div, Nat.add_assoc, Nat.add_comm 1]

theorem lookup_ne_zero : ∀ d, d < 36 → lookup d ≠ 0 := by decide

theorem memcpy_nul_last (buf : Buf) (start : Nat) (text : List UInt8) :
    memcpy buf start (Buf.ofList text) (text.length + 1) (start + text.length) = 0 := by
  rw [memcpy_inside (Nat.le_add_right _ _) (by omega), Nat.add_sub_cancel_left, Buf.ofList,
    List.getD_eq_default _ _ (Nat.le_refl _)]

/-- A string and its NUL. -/
theorem Buf.stringAt_memcpy (buf : Buf) (start : Nat) {text : List UInt8}
    (hno : (0 : UInt8) ∉ text) :
    (memcpy buf start (Buf.ofList text) (text.length + 1)).StringAt start text where
  bytes j hj := by
    rw [memcpy_inside (Nat.le_add_right _ _) (by omega), Nat.add_sub_cancel_left, Buf.ofList]
  nul := memcpy_nul_last buf start text
  nonzero := hno

/-- The NUL after the bytes. -/
theorem memcpy_nul (buf : Buf) (start : Nat) (text : List UInt8) :
    Function.update (memcpy buf start (Buf.ofList text) text.length) (start + text.length) 0 =
      memcpy buf start (Buf.ofList text) (text.length + 1) := by
  funext a
  by_cases hend : a = start + text.length
  · subst hend
    rw [Function.update_self]
    exact (memcpy_nul_last buf start text).symm
  · rw [Function.update_of_ne hend, memcpy, memcpy]
    refine if_congr ?_ rfl rfl
    omega

/-- A string takes the place of another one of its length. -/
theorem memcpy_replaced (buf : Buf) (start : Nat) {text text' : List UInt8}
    (hlen : text'.length = text.length) :
    memcpy (memcpy buf start (Buf.ofList text) (text.length + 1)) start (Buf.ofList text')
      text.length = memcpy buf start (Buf.ofList text') (text'.length + 1) := by
  funext a
  by_cases hin : start ≤ a ∧ a < start + text.length
  · rw [memcpy_inside hin.1 hin.2, memcpy_inside hin.1 (by omega)]
  · rw [memcpy_outside (by omega)]
    by_cases hend : a = start + text.length
    · subst hend
      have hlast := memcpy_nul_last buf start text'
      rw [hlen] at hlast ⊢
      rw [memcpy_nul_last, hlast]
    · rw [memcpy_outside (by omega), memcpy_outside (by omega)]

/-- The digits of a value in the order of the loop, and how many there can be. -/
theorem digits_facts {radix : Nat} (hradix : 1 < radix) (hsize : radix ≤ 36) (value : UInt32) :
    (0 : UInt8) ∉ (Nat.digits radix value.toNat).map lookup ∧
      (Nat.digits radix value.toNat).length ≤ 32 := by
  constructor
  · intro hmem
    obtain ⟨d, hd, hzero⟩ := List.mem_map.mp hmem
    exact lookup_ne_zero d ((Nat.digits_lt_base hradix hd).trans_le hsize) hzero
  · refine (Nat.digits_length_le_iff hradix _).mpr ?_
    calc value.toNat < 2 ^ 32 := value.toNat_lt
      _ ≤ radix ^ 32 := Nat.pow_le_pow_left hradix 32

/-- **`itoa` writes the numeral** of its value and a NUL, and nothing else. -/
theorem itoa_eq (radix : UInt32) (hradix : 1 < radix.toNat) (hsize : radix.toNat ≤ 36)
    (value : UInt32) (start : Nat) (buf : Buf) :
    itoa value start radix buf =
      some (memcpy buf start (Buf.ofList (lookupDigits.numeral radix.toNat value.toNat))
        ((lookupDigits.numeral radix.toNat value.toNat).length + 1)) := by
  rw [itoa, Alphabet.numeral]
  by_cases hzero : value = 0
  · subst hzero
    have hone := memcpy_nul buf start [chZero]
    have hbyte := memcpy_update buf start chZero []
    rw [List.length_nil, memcpy_zero] at hbyte
    rw [← hbyte] at hone
    have hvalue : (0 : UInt32).toNat = 0 := rfl
    rw [if_pos rfl, if_pos hvalue]
    exact congrArg some hone
  · have hpos : value.toNat ≠ 0 := fun h => hzero (UInt32.toNat_inj.mp h)
    obtain ⟨hno, hlen⟩ := digits_facts hradix hsize value
    have hloop := itoaLoop_eq hradix 32 value start buf value.toNat_lt
    have hnul := memcpy_nul buf start ((Nat.digits radix.toNat value.toNat).map lookup)
    have hstring := Buf.stringAt_memcpy buf start hno
    have hreverse := strrev_eq hstring (by rw [List.length_map]; omega)
    rw [memcpy_replaced buf start (List.length_reverse ..)] at hreverse
    rw [if_neg hzero, if_neg hpos, hloop, Option.bind_eq_bind, Option.bind_some]
    rw [List.length_map] at hnul
    dsimp only
    rw [hnul]
    rw [List.length_map] at hreverse
    exact hreverse

/-- What `itoa` leaves at its buffer is a string. -/
theorem itoa_stringAt (radix : UInt32) (hradix : 1 < radix.toNat) (hsize : radix.toNat ≤ 36)
    (value : UInt32) (start : Nat) (buf : Buf) :
    ∃ buf', itoa value start radix buf = some buf' ∧
      buf'.StringAt start (lookupDigits.numeral radix.toNat value.toNat) := by
  refine ⟨_, itoa_eq radix hradix hsize value start buf, Buf.stringAt_memcpy buf start ?_⟩
  intro hmem
  obtain ⟨d, hd, hzero⟩ := (Alphabet.isNumeral_numeral hradix hsize value.toNat).digits _ hmem
  exact lookup_ne_zero d (hd.trans_le hsize) hzero.symm

/-- 255 in hexadecimal. -/
example : (itoa 255 0 16 fun _ => 1).map (fun b => (List.range 4).map b) =
    some [0x46, 0x46, 0, 1] := by decide

end JuddOS
