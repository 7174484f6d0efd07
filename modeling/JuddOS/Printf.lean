import JuddOS.Itoa
import JuddOS.Support.Loop

/-!
# `lib.c`: `puts` and `printf`

Both functions are given over the function that takes the characters (`out`), which is `putc`.  The
other arguments of `printf` are the words behind its first one, and a string argument is the
address of its bytes.  A conversion works in a local array that has any contents before.

* `puts_eq` says that a string is put character by character.
* A format string is a list of directives (`spelled`); `printf_eq` is what it prints, for every
  format that does not end within a conversion.
* `number_formatting_roundTrips` says that the numbers printed stand for the arguments.
-/

namespace JuddOS

open Support

@[simp] abbrev chPercent : UInt8 := 0x25
@[simp] abbrev chSharp : UInt8 := 0x23

section Output

variable {σ : Type} (out : UInt8 → σ → Option σ)

/-- `while (s[index] != '\0')` of `puts`. -/
def putsFrom (s : Buf) : Nat → Nat → σ → Option (Nat × σ)
  | 0, _, _ => none
  | fuel + 1, index, t =>
      if s index ≠ 0 then (out (s index) t).bind (putsFrom s fuel (index + 1))
      else some (index, t)

/-- `puts`. -/
def puts (s : Buf) (t : σ) : Option (Nat × σ) := putsFrom out s (2 ^ 32) 0 t

/-- `while (i < 8) conv_buf[i++] = '0'`. -/
def padFrom (i : Nat) (convBuf : Buf) : Option Buf :=
  forRange (fun i b => some (Function.update b i chZero)) i (8 - i) convBuf

/-- The memory that `printf` reads: the words from `esp` on, the strings by their address, and
what is in the local array before the conversion of each argument. -/
structure PrintfArgs where
  esp : Nat → UInt32
  strings : UInt32 → Buf
  convBuf : Nat → Buf

/-- The second `switch`, after the `#` characters: the conversion `c` with the argument
`esp`. -/
def convert (args : PrintfArgs) (alternate : Bool) (c : UInt8) (esp : Nat) (t : σ) :
    Option (Nat × σ) :=
  if c = chPercent then (out chPercent t).map fun t => (esp, t)
  else if c = 0x78 then do
    if !alternate then
      let convBuf ← itoa (args.esp esp) 0 16 (args.convBuf esp)
      let (_, t) ← puts out convBuf t
      some (esp + 1, t)
    else
      let convBuf ← itoa (args.esp esp) 8 16 (args.convBuf esp)
      let startingIndex := strlen (convBuf.from 8)
      let convBuf ← padFrom startingIndex convBuf
      let (_, t) ← puts out (convBuf.from startingIndex) t
      some (esp + 1, t)
  else if c = 0x75 then do
    let convBuf ← itoa (args.esp esp) 0 10 (args.convBuf esp)
    let (_, t) ← puts out convBuf t
    some (esp + 1, t)
  else if c = 0x64 then do
    let value := (args.esp esp).toInt32
    let convBuf ←
      if value < 0 then
        itoa (-value).toUInt32 1 10 (Function.update (args.convBuf esp) 0 chMinus)
      else itoa value.toUInt32 0 10 (args.convBuf esp)
    let (_, t) ← puts out convBuf t
    some (esp + 1, t)
  else if c = 0x63 then (out (args.esp esp).toUInt8 t).map fun t => (esp + 1, t)
  else if c = 0x73 then do
    let (_, t) ← puts out (args.strings (args.esp esp)) t
    some (esp + 1, t)
  else some (esp, t)

/-- From `format_char_switch` on.  The result is `buf`, `esp` and where the characters went. -/
def formatCharSwitch (format : Buf) (args : PrintfArgs) :
    Nat → Nat → Bool → Nat → σ → Option (Nat × Nat × σ)
  | 0, _, _, _, _ => none
  | fuel + 1, buf, alternate, esp, t =>
      if format buf = chSharp then formatCharSwitch format args fuel (buf + 1) true esp t
      else (convert out args alternate (format buf) esp t).map fun (esp, t) => (buf, esp, t)

/-- `while (*buf != '\0')` of `printf`. -/
def printfFrom (format : Buf) (args : PrintfArgs) : Nat → Nat → Nat → σ → Option (Nat × σ)
  | 0, _, _, _ => none
  | fuel + 1, buf, esp, t =>
      if format buf ≠ 0 then
        if format buf = chPercent then
          (formatCharSwitch out format args (2 ^ 32) (buf + 1) false esp t).bind
            fun (buf, esp, t) => printfFrom format args fuel (buf + 1) esp t
        else (out (format buf) t).bind fun t => printfFrom format args fuel (buf + 1) esp t
      else some (buf, t)

/-- `printf`. -/
def printf (format : Buf) (args : PrintfArgs) (t : σ) : Option (Int32 × σ) :=
  (printfFrom out format args (2 ^ 32) 0 0 t).map fun (buf, t) => (Int32.ofNat buf, t)

/-- The characters of a text one after the other. -/
def putAll : List UInt8 → σ → Option σ
  | [], t => some t
  | c :: text, t => (out c t).bind (putAll text)

theorem putAll_append (text text' : List UInt8) (t : σ) :
    putAll out (text ++ text') t = (putAll out text t).bind (putAll out text') := by
  induction text generalizing t with
  | nil => rfl
  | cons c text ih =>
      rw [List.cons_append, putAll, putAll, Option.bind_assoc]
      exact Option.bind_congr fun t' _ => ih t'

/-- The loop of `puts` from inside a string on. -/
theorem putsFrom_eq {s : Buf} {text : List UInt8} {fuel index : Nat} (t : σ)
    (hfuel : text.length < fuel) (h : s.StringAt index text) :
    putsFrom out s fuel index t = (putAll out text t).map fun t => (index + text.length, t) := by
  induction text generalizing fuel index t with
  | nil =>
      obtain ⟨fuel, rfl⟩ : ∃ n, fuel = n + 1 := ⟨fuel - 1, by omega⟩
      have hnul : s index = 0 := h.nul
      rw [putsFrom, if_neg (not_not_intro hnul)]
      rfl
  | cons c text ih =>
      obtain ⟨fuel, rfl⟩ : ∃ n, fuel = n + 1 := ⟨fuel - 1, by omega⟩
      obtain ⟨hhead, hne⟩ := h.head
      rw [putsFrom, hhead, if_pos hne, putAll, Option.map_bind]
      refine Option.bind_congr fun t' _ => ?_
      rw [ih t' (by simp at hfuel; omega) h.tail, List.length_cons, Nat.add_assoc, Nat.add_comm 1]
      rfl

/-- **`puts` puts a string.** -/
theorem puts_eq {s : Buf} {text : List UInt8} (t : σ) (hlen : text.length < 2 ^ 32)
    (h : s.StringAt 0 text) :
    puts out s t = (putAll out text t).map fun t => (text.length, t) := by
  rw [puts, putsFrom_eq out t hlen h, Nat.zero_add]

/-- The loop of `%#x` fills the array up to its eighth byte. -/
theorem padFrom_eq (i : Nat) (convBuf : Buf) :
    padFrom i convBuf = some (memcpy convBuf i (fun _ => chZero) (8 - i)) := by
  have hentry : convBuf = memcpy convBuf i (fun _ => chZero) (i - i) := by
    rw [Nat.sub_self, memcpy_zero]
  have hbody : ∀ j b, i ≤ j → j < i + (8 - i) → b = memcpy convBuf i (fun _ => chZero) (j - i) →
      ∃ b', some (Function.update b j chZero) = some b' ∧
        b' = memcpy convBuf i (fun _ => chZero) (j + 1 - i) := by
    intro j b hij _ hb
    refine ⟨_, rfl, ?_⟩
    subst hb
    funext a
    by_cases hlast : a = j
    · subst hlast
      rw [Function.update_self, memcpy_inside hij (by omega)]
    · rw [Function.update_of_ne hlast, memcpy, memcpy]
      refine if_congr ?_ rfl rfl
      omega
  obtain ⟨b, hloop, hb⟩ := forRange_invariant
    (fun j b => b = memcpy convBuf i (fun _ => chZero) (j - i)) hentry hbody
  rw [padFrom, hloop, hb, Nat.add_sub_cancel_left]

/-- Zeros in front of the digits of `%#x`. -/
theorem padFrom_stringAt {convBuf : Buf} {digits : List UInt8} (h : convBuf.StringAt 8 digits)
    (hlen : digits.length ≤ 8) :
    ∃ b, padFrom digits.length convBuf = some b ∧
      (b.from digits.length).StringAt 0
        (List.replicate (8 - digits.length) chZero ++ digits) := by
  refine ⟨_, padFrom_eq _ _, ?_, ?_, ?_⟩
  · intro j hj
    rw [List.length_append, List.length_replicate] at hj
    rw [Buf.from, Nat.zero_add]
    by_cases hpad : j < 8 - digits.length
    · rw [memcpy_inside (by omega) (by omega), List.getD_append _ _ _ _ (by simpa using hpad)]
      simp [hpad]
    · have hbyte := h.bytes (j - (8 - digits.length)) (by omega)
      have hindex : 8 + (j - (8 - digits.length)) = digits.length + j := by omega
      rw [hindex] at hbyte
      rw [memcpy_outside (.inr (by omega)), hbyte,
        List.getD_append_right _ _ _ _ (by simpa using hpad), List.length_replicate]
  · have hnul := h.nul
    rw [List.length_append, List.length_replicate, Buf.from]
    rw [memcpy_outside (.inr (by omega))]
    have hindex :
        8 + digits.length = digits.length + (0 + (8 - digits.length + digits.length)) := by omega
    rwa [hindex] at hnul
  · rw [List.mem_append, not_or]
    refine ⟨fun hmem => ?_, h.nonzero⟩
    have hzero := List.eq_of_mem_replicate hmem
    exact absurd hzero (by decide)

/-! ## Directives -/

/-- What stands behind a `%`. -/
inductive Conversion
  | percent | hex | unsigned | signed | char | string
  | other (c : UInt8)

def Conversion.letter : Conversion → UInt8
  | .percent => chPercent
  | .hex => 0x78
  | .unsigned => 0x75
  | .signed => 0x64
  | .char => 0x63
  | .string => 0x73
  | .other c => c

/-- A part of a format string; a conversion has any number of `#` characters. -/
inductive Directive
  | literal (c : UInt8)
  | conversion (sharps : Nat) (kind : Conversion)

namespace Directive

/-- The directive in the format string. -/
def spelled : Directive → List UInt8
  | .literal c => [c]
  | .conversion sharps kind => chPercent :: (List.replicate sharps chSharp ++ [kind.letter])

theorem spelled_pos (d : Directive) : 0 < d.spelled.length := by
  cases d <;> exact Nat.succ_pos _

/-- The characters that end a conversion, or none of them. -/
def WellFormed : Directive → Prop
  | .literal c => c ≠ 0 ∧ c ≠ chPercent
  | .conversion _ (.other c) => c ∉ [0, chPercent, chSharp, 0x78, 0x75, 0x64, 0x63, 0x73]
  | .conversion _ _ => True

/-- How many arguments it takes. -/
def words : Directive → Nat
  | .literal _ | .conversion _ .percent | .conversion _ (.other _) => 0
  | .conversion _ _ => 1

/-- What it prints. -/
def text (args : PrintfArgs) (esp : Nat) : Directive → List UInt8
  | .literal c => [c]
  | .conversion _ .percent => [chPercent]
  | .conversion 0 .hex => lookupDigits.numeral 16 (args.esp esp).toNat
  | .conversion (_ + 1) .hex =>
      let digits := lookupDigits.numeral 16 (args.esp esp).toNat
      List.replicate (8 - digits.length) chZero ++ digits
  | .conversion _ .unsigned => lookupDigits.numeral 10 (args.esp esp).toNat
  | .conversion _ .signed =>
      let value := (args.esp esp).toInt32
      if value < 0 then chMinus :: lookupDigits.numeral 10 (-value).toUInt32.toNat
      else lookupDigits.numeral 10 value.toUInt32.toNat
  | .conversion _ .char => [(args.esp esp).toUInt8]
  | .conversion _ .string => (args.strings (args.esp esp)).cstring
  | .conversion _ (.other _) => []

end Directive

/-- The format string of some directives. -/
def spelled (ds : List Directive) : List UInt8 := ds.flatMap Directive.spelled

/-- What they print, from the argument `esp` on. -/
def formatted (args : PrintfArgs) : Nat → List Directive → List UInt8
  | _, [] => []
  | esp, d :: ds => d.text args esp ++ formatted args (esp + d.words) ds

/-- The strings that they print end. -/
def StringsEnd (args : PrintfArgs) : Nat → List Directive → Prop
  | _, [] => True
  | esp, d :: ds =>
      (∀ sharps, d = .conversion sharps .string →
        ∃ n, n < 2 ^ 32 ∧ args.strings (args.esp esp) n = 0) ∧
      StringsEnd args (esp + d.words) ds

/-! ## What the conversions print -/

theorem numeral_length_le (radix : Nat) (hradix : 1 < radix) (value : UInt32) :
    (lookupDigits.numeral radix value.toNat).length ≤ 32 :=
  Alphabet.length_numeral_le hradix (by decide)
    (value.toNat_lt.trans_le (Nat.pow_le_pow_left hradix 32))

/-- A string in the local array. -/
theorem puts_then {b : Buf} {text : List UInt8} (esp : Nat) (t : σ) (hlen : text.length < 2 ^ 32)
    (h : b.StringAt 0 text) :
    ((puts out b t).bind fun r => some (esp, r.2)) = (putAll out text t).map fun t => (esp, t) := by
  rw [puts_eq out t hlen h]
  cases putAll out text t <;> rfl

/-- A number from the start of the local array. -/
theorem itoa_puts (radix : UInt32) (hradix : 1 < radix.toNat) (hsize : radix.toNat ≤ 36)
    (value : UInt32) (convBuf : Buf) (esp : Nat) (t : σ) :
    ((itoa value 0 radix convBuf).bind fun b => (puts out b t).bind fun r => some (esp, r.2)) =
      (putAll out (lookupDigits.numeral radix.toNat value.toNat) t).map fun t => (esp, t) := by
  obtain ⟨b, hitoa, hstring⟩ := itoa_stringAt radix hradix hsize value 0 convBuf
  rw [hitoa, Option.bind_some]
  have hlen := numeral_length_le radix.toNat hradix value
  exact puts_then out esp t (hlen.trans_lt (by decide)) hstring

/-- A negative number, after its sign. -/
theorem itoa_puts_negative (value : UInt32) (convBuf : Buf) (esp : Nat) (t : σ) :
    ((itoa value 1 10 (Function.update convBuf 0 chMinus)).bind fun b =>
        (puts out b t).bind fun r => some (esp, r.2)) =
      (putAll out (chMinus :: lookupDigits.numeral 10 value.toNat) t).map fun t => (esp, t) := by
  have hitoa := itoa_eq 10 (by decide) (by decide) value 1
    (Function.update convBuf 0 chMinus)
  obtain ⟨b, hb, hdigits⟩ := itoa_stringAt 10 (by decide) (by decide) value 1
    (Function.update convBuf 0 chMinus)
  have hsign : b 0 = chMinus := by
    rw [hitoa, Option.some_inj] at hb
    rw [← hb, memcpy_outside (.inl Nat.one_pos), Function.update_self]
  rw [hb, Option.bind_some]
  refine puts_then out esp t ?_ (hdigits.cons hsign (by decide))
  have hlen := numeral_length_le 10 (by decide) value
  rw [List.length_cons]
  exact (Nat.succ_le_succ hlen).trans_lt (by decide)

/-- The eight digits of `%#x`. -/
theorem itoa_puts_padded (value : UInt32) (convBuf : Buf) (esp : Nat) (t : σ) :
    ((itoa value 8 16 convBuf).bind fun b =>
        (padFrom (strlen (b.from 8)) b).bind fun b' =>
          (puts out (b'.from (strlen (b.from 8))) t).bind fun r => some (esp, r.2)) =
      (putAll out (List.replicate (8 - (lookupDigits.numeral 16 value.toNat).length) chZero ++
        lookupDigits.numeral 16 value.toNat) t).map fun t => (esp, t) := by
  obtain ⟨b, hb, hdigits⟩ := itoa_stringAt 16 (by decide) (by decide) value 8 convBuf
  have height : (lookupDigits.numeral 16 value.toNat).length ≤ 8 :=
    Alphabet.length_numeral_le (by decide) (by decide) value.toNat_lt
  have hlen : strlen (b.from 8) = (lookupDigits.numeral 16 value.toNat).length :=
    hdigits.strlen (height.trans (by decide))
  have hdigits₁₆ : b.StringAt 8 (lookupDigits.numeral 16 value.toNat) := hdigits
  obtain ⟨b', hpad, hstring⟩ := padFrom_stringAt hdigits₁₆ height
  rw [hb, Option.bind_some, hlen, hpad, Option.bind_some]
  refine puts_then out esp t ?_ hstring
  rw [List.length_append, List.length_replicate]
  omega

/-- A string argument that ends. -/
theorem stringAt_cstring {s : Buf} (h : ∃ n, n < 2 ^ 32 ∧ s n = 0) :
    s.cstring.length < 2 ^ 32 ∧ s.StringAt 0 s.cstring := by
  obtain ⟨n, hn, hzero⟩ := h
  have hlen : s.cstring.length < 2 ^ 32 := by
    rw [cstring_length]
    exact (strlen_le_of_zero hzero).trans_lt hn
  refine ⟨hlen, fun j hj => ?_, ?_, cstring_no_nul s⟩
  · have hbyte := (field_getD hj).1
    rw [Buf.cstring, hbyte]
  · exact field_end hlen

/-- **What a conversion prints.** -/
theorem convert_eq (args : PrintfArgs) (sharps : Nat) (kind : Conversion) (esp : Nat) (t : σ)
    (hwell : (Directive.conversion sharps kind).WellFormed)
    (hstring : kind = .string → ∃ n, n < 2 ^ 32 ∧ args.strings (args.esp esp) n = 0) :
    convert out args (decide (sharps ≠ 0)) kind.letter esp t =
      (putAll out ((Directive.conversion sharps kind).text args esp) t).map
        fun t => (esp + (Directive.conversion sharps kind).words, t) := by
  cases kind with
  | percent =>
      change (out chPercent t).map _ = ((out chPercent t).bind some).map _
      rw [Option.bind_fun_some]
      rfl
  | hex =>
      cases sharps with
      | zero => exact itoa_puts out 16 (by decide) (by decide) _ _ _ _
      | succ n => exact itoa_puts_padded out _ _ _ _
  | unsigned => exact itoa_puts out 10 (by decide) (by decide) _ _ _ _
  | signed =>
      rw [convert, if_neg (by decide), if_neg (by decide), if_neg (by decide), if_pos (by decide)]
      dsimp only
      by_cases hneg : (args.esp esp).toInt32 < 0
      · have htext : (Directive.conversion sharps .signed).text args esp =
            chMinus :: lookupDigits.numeral 10 (-(args.esp esp).toInt32).toUInt32.toNat :=
          if_pos hneg
        rw [htext, if_pos hneg]
        exact itoa_puts_negative out _ _ _ _
      · have htext : (Directive.conversion sharps .signed).text args esp =
            lookupDigits.numeral 10 (args.esp esp).toInt32.toUInt32.toNat := if_neg hneg
        rw [htext, if_neg hneg]
        exact itoa_puts out 10 (by decide) (by decide) _ _ _ _
  | char =>
      change (out (args.esp esp).toUInt8 t).map _ =
        ((out (args.esp esp).toUInt8 t).bind some).map _
      rw [Option.bind_fun_some]
      rfl
  | string =>
      obtain ⟨hlen, hends⟩ := stringAt_cstring (hstring rfl)
      exact puts_then out (esp + 1) t hlen hends
  | other c =>
      have hletters : c ∉ [0, chPercent, chSharp, 0x78, 0x75, 0x64, 0x63, 0x73] := hwell
      simp only [List.mem_cons, List.not_mem_nil, or_false, not_or] at hletters
      obtain ⟨-, hpercent, -, hx, hu, hd, hc, hs⟩ := hletters
      change convert out args _ c esp t = some (esp, t)
      rw [convert, if_neg hpercent, if_neg hx, if_neg hu, if_neg hd, if_neg hc, if_neg hs]

/-- The `#` characters are skipped. -/
theorem formatCharSwitch_eq {format : Buf} (args : PrintfArgs) {kind : Conversion}
    {rest : List UInt8} (sharps fuel buf esp : Nat) (alternate : Bool) (t : σ)
    (hletter : kind.letter ≠ chSharp) (hfuel : sharps < fuel)
    (h : format.StringAt buf (List.replicate sharps chSharp ++ kind.letter :: rest)) :
    formatCharSwitch out format args fuel buf alternate esp t =
      (convert out args (alternate || decide (sharps ≠ 0)) kind.letter esp t).map
        fun r => (buf + sharps, r) := by
  induction sharps generalizing fuel buf alternate with
  | zero =>
      obtain ⟨fuel, rfl⟩ : ∃ n, fuel = n + 1 := ⟨fuel - 1, by omega⟩
      have hhead : format buf = kind.letter := h.head.1
      rw [formatCharSwitch, hhead, if_neg hletter]
      simp
  | succ sharps ih =>
      obtain ⟨fuel, rfl⟩ : ∃ n, fuel = n + 1 := ⟨fuel - 1, by omega⟩
      rw [List.replicate_succ, List.cons_append] at h
      have hnext := ih fuel (buf + 1) true (by omega) h.tail
      rw [formatCharSwitch, h.head.1, if_pos rfl, hnext, Nat.add_assoc, Nat.add_comm 1]
      simp

theorem Directive.letter_ne_sharp {sharps : Nat} {kind : Conversion}
    (hwell : (Directive.conversion sharps kind).WellFormed) : kind.letter ≠ chSharp := by
  cases kind with
  | other c =>
      intro hsharp
      have hletters : c ∉ [0, chPercent, chSharp, 0x78, 0x75, 0x64, 0x63, 0x73] := hwell
      simp only [List.mem_cons, not_or] at hletters
      exact hletters.2.2.1 hsharp
  | _ => decide

/-- **One iteration** of the loop of `printf` prints a directive. -/
theorem printfFrom_directive {format : Buf} (args : PrintfArgs) {d : Directive}
    {rest : List UInt8} (fuel : Nat) {buf esp : Nat} (t : σ) (hwell : d.WellFormed)
    (hstring : ∀ sharps, d = .conversion sharps .string →
      ∃ n, n < 2 ^ 32 ∧ args.strings (args.esp esp) n = 0)
    (hlen : d.spelled.length ≤ 2 ^ 32) (h : format.StringAt buf (d.spelled ++ rest)) :
    printfFrom out format args (fuel + 1) buf esp t =
      (putAll out (d.text args esp) t).bind fun t =>
        printfFrom out format args fuel (buf + d.spelled.length) (esp + d.words) t := by
  cases d with
  | literal c =>
      have hhead : format buf = c := h.head.1
      have hput : putAll out ((Directive.literal c).text args esp) t = out c t :=
        Option.bind_fun_some _
      rw [printfFrom, hhead, if_pos hwell.1, if_neg hwell.2, hput]
      rfl
  | conversion sharps kind =>
      have hspelled : (Directive.conversion sharps kind).spelled.length = sharps + 2 := by
        simp [Directive.spelled]
      have hhead : format buf = chPercent := h.head.1
      have htail : format.StringAt (buf + 1)
          (List.replicate sharps chSharp ++ kind.letter :: rest) := by
        have htail : format.StringAt (buf + 1)
            (List.replicate sharps chSharp ++ [kind.letter] ++ rest) := h.tail
        rwa [List.append_assoc] at htail
      have hswitch := formatCharSwitch_eq out args sharps (2 ^ 32) (buf + 1) esp false t
        (Directive.letter_ne_sharp hwell) (by omega) htail
      have hconvert := convert_eq out args sharps kind esp t hwell
        fun hkind => hstring sharps (by rw [hkind])
      have hnext : buf + 1 + sharps + 1 = buf + (sharps + 2) := by omega
      rw [Bool.false_or, hconvert, Option.map_map] at hswitch
      rw [printfFrom, hhead, if_pos (by decide), if_pos rfl, hswitch, Option.bind_map, hspelled]
      simp only [Function.comp_def, hnext]

/-- The loop of `printf` over the directives that are left. -/
theorem printfFrom_eq {format : Buf} (args : PrintfArgs) (ds : List Directive)
    (fuel buf esp : Nat) (t : σ) (hwell : ∀ d ∈ ds, d.WellFormed)
    (hstrings : StringsEnd args esp ds) (hfuel : (spelled ds).length < fuel)
    (hlen : (spelled ds).length < 2 ^ 32) (h : format.StringAt buf (spelled ds)) :
    printfFrom out format args fuel buf esp t =
      (putAll out (formatted args esp ds) t).map fun t => (buf + (spelled ds).length, t) := by
  induction ds generalizing fuel buf esp t with
  | nil =>
      obtain ⟨fuel, rfl⟩ : ∃ n, fuel = n + 1 := ⟨fuel - 1, by omega⟩
      have hnul : format buf = 0 := h.nul
      rw [printfFrom, if_neg (not_not_intro hnul)]
      rfl
  | cons d ds ih =>
      obtain ⟨fuel, rfl⟩ : ∃ n, fuel = n + 1 := ⟨fuel - 1, by omega⟩
      have hspelled : spelled (d :: ds) = d.spelled ++ spelled ds := List.flatMap_cons
      have hpos := d.spelled_pos
      rw [hspelled] at h hfuel hlen ⊢
      rw [List.length_append] at hfuel hlen ⊢
      have hrest := fun t => ih fuel (buf + d.spelled.length) (esp + d.words) t
        (fun d' hd' => hwell d' (List.mem_cons_of_mem d hd')) hstrings.2 (by omega) (by omega)
        h.drop
      rw [printfFrom_directive out args fuel t (hwell d List.mem_cons_self) hstrings.1 (by omega) h,
        formatted, putAll_append, Option.map_bind]
      refine Option.bind_congr fun t' _ => ?_
      rw [hrest t', Nat.add_assoc]
      rfl

/-- **What `printf` prints.** -/
theorem printf_eq {format : Buf} (args : PrintfArgs) {ds : List Directive} (t : σ)
    (hwell : ∀ d ∈ ds, d.WellFormed) (hstrings : StringsEnd args 0 ds)
    (hlen : (spelled ds).length < 2 ^ 32) (h : format.StringAt 0 (spelled ds)) :
    printf out format args t =
      (putAll out (formatted args 0 ds) t).map fun t => (Int32.ofNat (spelled ds).length, t) := by
  rw [printf, printfFrom_eq out args ds (2 ^ 32) 0 0 t hwell hstrings hlen hlen h, Option.map_map,
    Nat.zero_add]
  rfl

/-! ## Any call -/

/-- Some characters were put one after the other. -/
def Puts (t t' : σ) : Prop := ∃ text, putAll out text t = some t'

variable {out}

theorem Puts.refl (t : σ) : Puts out t t := ⟨[], rfl⟩

theorem Puts.trans {t t₁ t₂ : σ} (h : Puts out t t₁) (h' : Puts out t₁ t₂) : Puts out t t₂ := by
  obtain ⟨text, htext⟩ := h
  obtain ⟨text', htext'⟩ := h'
  refine ⟨text ++ text', ?_⟩
  rw [putAll_append, htext]
  exact htext'

theorem Puts.single {c : UInt8} {t t' : σ} (h : out c t = some t') : Puts out t t' :=
  ⟨[c], by rw [putAll, h]; rfl⟩

theorem putsFrom_puts {s : Buf} {fuel index n : Nat} {t t' : σ}
    (h : putsFrom out s fuel index t = some (n, t')) : Puts out t t' := by
  induction fuel generalizing index t with
  | zero => cases h
  | succ fuel ih =>
      rw [putsFrom] at h
      split at h
      · obtain ⟨t₁, hout, hrest⟩ := Option.bind_eq_some_iff.mp h
        exact (Puts.single hout).trans (ih hrest)
      · cases h
        exact .refl _

/-- A conversion that ends with a call of `puts`. -/
theorem Puts.of_puts {s : Buf} {esp esp' : Nat} {t t' : σ}
    (h : ((puts out s t).bind fun r => some (esp, r.2)) = some (esp', t')) : Puts out t t' := by
  obtain ⟨⟨n, t₁⟩, hputs, hsome⟩ := Option.bind_eq_some_iff.mp h
  cases hsome
  exact putsFrom_puts hputs

theorem convert_puts {args : PrintfArgs} {alternate : Bool} {c : UInt8} {esp esp' : Nat} {t t' : σ}
    (h : convert out args alternate c esp t = some (esp', t')) : Puts out t t' := by
  rw [convert] at h
  dsimp only at h
  split_ifs at h
  -- `%%`
  · obtain ⟨t₁, hout, hsome⟩ := Option.map_eq_some_iff.mp h
    cases hsome
    exact .single hout
  -- `%x`, and with `#`
  · obtain ⟨b, -, hrest⟩ := Option.bind_eq_some_iff.mp h
    exact .of_puts hrest
  · obtain ⟨b, -, hpad⟩ := Option.bind_eq_some_iff.mp h
    obtain ⟨b', -, hrest⟩ := Option.bind_eq_some_iff.mp hpad
    exact .of_puts hrest
  -- `%u`
  · obtain ⟨b, -, hrest⟩ := Option.bind_eq_some_iff.mp h
    exact .of_puts hrest
  -- `%d` of a negative number, and of the others
  · obtain ⟨b, -, hrest⟩ := Option.bind_eq_some_iff.mp h
    exact .of_puts hrest
  · obtain ⟨b, -, hrest⟩ := Option.bind_eq_some_iff.mp h
    exact .of_puts hrest
  -- `%c`, `%s` and the others
  · obtain ⟨t₁, hout, hsome⟩ := Option.map_eq_some_iff.mp h
    cases hsome
    exact .single hout
  · exact .of_puts h
  · cases h
    exact .refl _

theorem formatCharSwitch_puts {format : Buf} {args : PrintfArgs} {fuel buf esp : Nat}
    {alternate : Bool} {t : σ} {r : Nat × Nat × σ}
    (h : formatCharSwitch out format args fuel buf alternate esp t = some r) :
    Puts out t r.2.2 := by
  induction fuel generalizing buf alternate with
  | zero => cases h
  | succ fuel ih =>
      rw [formatCharSwitch] at h
      split at h
      · exact ih h
      · obtain ⟨⟨esp', t'⟩, hconvert, rfl⟩ := Option.map_eq_some_iff.mp h
        exact convert_puts hconvert

theorem printfFrom_puts {format : Buf} {args : PrintfArgs} {fuel buf esp n : Nat} {t t' : σ}
    (h : printfFrom out format args fuel buf esp t = some (n, t')) : Puts out t t' := by
  induction fuel generalizing buf esp t with
  | zero => cases h
  | succ fuel ih =>
      rw [printfFrom] at h
      split at h
      · split at h
        · obtain ⟨r, hswitch, hrest⟩ := Option.bind_eq_some_iff.mp h
          exact (formatCharSwitch_puts hswitch).trans (ih hrest)
        · obtain ⟨t₁, hout, hrest⟩ := Option.bind_eq_some_iff.mp h
          exact (Puts.single hout).trans (ih hrest)
      · cases h
        exact .refl _

/-- **Any call of `printf`** puts some characters one after the other. -/
theorem printf_puts {format : Buf} {args : PrintfArgs} {t t' : σ} {n : Int32}
    (h : printf out format args t = some (n, t')) : Puts out t t' := by
  obtain ⟨⟨m, t₁⟩, hloop, hsome⟩ := Option.map_eq_some_iff.mp h
  cases hsome
  exact printfFrom_puts hloop

end Output

/-! ## Round trips -/

/-- A text that stands for an integer in decimal notation. -/
def IsSigned (n : Int) (text : List UInt8) : Prop :=
  (0 ≤ n ∧ lookupDigits.IsNumeral 10 n.toNat text) ∨
    (n < 0 ∧ ∃ digits, text = chMinus :: digits ∧ lookupDigits.IsNumeral 10 n.natAbs digits)

/-- The sign of an argument, and its value without it. -/
theorem signed_value (w : UInt32) :
    (w.toInt32 < 0 → w.toInt32.toInt < 0 ∧ (-w.toInt32).toUInt32.toNat = w.toInt32.toInt.natAbs) ∧
      (¬ w.toInt32 < 0 →
        0 ≤ w.toInt32.toInt ∧ w.toInt32.toUInt32.toNat = w.toInt32.toInt.toNat) := by
  have hw := w.toNat_lt
  have hsame : w.toInt32.toUInt32 = w := rfl
  have hneg : (-w.toInt32).toUInt32.toNat = (2 ^ 32 - w.toNat) % 2 ^ 32 := UInt32.toNat_neg w
  have hzero : (0 : Int32).toInt = 0 := rfl
  rw [Int32.lt_iff_toInt_lt, hzero, hneg, hsame, toInt32_toInt]
  split <;> omega

/-- The text of `%d`, also for the number whose negation wraps around. -/
theorem isSigned_text (args : PrintfArgs) (esp n : Nat) :
    IsSigned (args.esp esp).toInt32.toInt ((Directive.conversion n .signed).text args esp) := by
  obtain ⟨hneg, hpos⟩ := signed_value (args.esp esp)
  rw [Directive.text]
  by_cases hsign : (args.esp esp).toInt32 < 0
  · obtain ⟨hless, hvalue⟩ := hneg hsign
    refine .inr ⟨hless, _, if_pos hsign, ?_⟩
    rw [hvalue]
    exact Alphabet.isNumeral_numeral (by decide) (by decide) _
  · obtain ⟨hle, hvalue⟩ := hpos hsign
    refine .inl ⟨hle, ?_⟩
    rw [if_neg hsign, hvalue]
    exact Alphabet.isNumeral_numeral (by decide) (by decide) _

/-- The text of `%#x`. -/
theorem padded_text (args : PrintfArgs) (esp n : Nat) :
    ((Directive.conversion (n + 1) .hex).text args esp).length = 8 ∧
      (∀ c ∈ (Directive.conversion (n + 1) .hex).text args esp, ∃ d, d < 16 ∧ c = lookup d) ∧
      lookupDigits.decode 16 ((Directive.conversion (n + 1) .hex).text args esp) =
        (args.esp esp).toNat := by
  have hnumeral : lookupDigits.IsNumeral 16 (args.esp esp).toNat
      (lookupDigits.numeral 16 (args.esp esp).toNat) :=
    Alphabet.isNumeral_numeral (by decide) (by decide) _
  have hlen : (lookupDigits.numeral 16 (args.esp esp).toNat).length ≤ 8 :=
    Alphabet.length_numeral_le (by decide) (by decide) (args.esp esp).toNat_lt
  rw [Directive.text]
  refine ⟨?_, fun c hc => ?_, ?_⟩
  · rw [List.length_append, List.length_replicate]
    omega
  · rcases List.mem_append.mp hc with hpad | hdigit
    · exact ⟨0, by decide, List.eq_of_mem_replicate hpad⟩
    · exact hnumeral.digits c hdigit
  · exact (Alphabet.decode_padded (by decide) _ _).trans hnumeral.value

/-- **Numbers round-trip.**  `itoa` leaves a string that is the number in the radix; a call of
`printf` prints its directives one after the other, and what it prints for `%x`, `%u`, `%d` and
`%#x` stands for the argument. -/
theorem number_formatting_roundTrips :
    (∀ (value radix : UInt32) (start : Nat) (buf : Buf), 2 ≤ radix.toNat → radix.toNat ≤ 36 →
      ∃ buf' text, itoa value start radix buf = some buf' ∧ buf'.StringAt start text ∧
        lookupDigits.IsNumeral radix.toNat value.toNat text) ∧
    (∀ {σ : Type} (out : UInt8 → σ → Option σ) (format : Buf) (args : PrintfArgs)
      (ds : List Directive) (t : σ), (∀ d ∈ ds, d.WellFormed) → StringsEnd args 0 ds →
      (spelled ds).length < 2 ^ 32 → format.StringAt 0 (spelled ds) →
      printf out format args t = (putAll out (formatted args 0 ds) t).map
        fun t => (Int32.ofNat (spelled ds).length, t)) ∧
    ∀ (args : PrintfArgs) (esp n : Nat),
      lookupDigits.IsNumeral 16 (args.esp esp).toNat
        ((Directive.conversion 0 .hex).text args esp) ∧
      lookupDigits.IsNumeral 10 (args.esp esp).toNat
        ((Directive.conversion n .unsigned).text args esp) ∧
      IsSigned (args.esp esp).toInt32.toInt ((Directive.conversion n .signed).text args esp) ∧
      ((Directive.conversion (n + 1) .hex).text args esp).length = 8 ∧
      (∀ c ∈ (Directive.conversion (n + 1) .hex).text args esp, ∃ d, d < 16 ∧ c = lookup d) ∧
      lookupDigits.decode 16 ((Directive.conversion (n + 1) .hex).text args esp) =
        (args.esp esp).toNat := by
  refine ⟨fun value radix start buf hradix hsize => ?_, ?_, fun args esp n => ⟨?_, ?_, ?_, ?_⟩⟩
  · obtain ⟨buf', hitoa, hstring⟩ := itoa_stringAt radix hradix hsize value start buf
    exact ⟨buf', _, hitoa, hstring, Alphabet.isNumeral_numeral hradix hsize _⟩
  · intro σ out format args ds t hwell hstrings hlen h
    exact printf_eq out args t hwell hstrings hlen h
  · exact Alphabet.isNumeral_numeral (by decide) (by decide) _
  · exact Alphabet.isNumeral_numeral (by decide) (by decide) _
  · exact isSigned_text args esp n
  · exact padded_text args esp n

/-- The smallest integer and `0xBEEF`, printed by `%d %#x` after other contents of the array. -/
theorem number_formatting_roundTrips_smallest :
    printf (fun c (l : List UInt8) => some (l ++ [c]))
      (Buf.ofList [0x25, 0x64, 0x20, 0x25, 0x23, 0x78])
      ⟨fun i => if i = 0 then 0x80000000 else 0xBEEF, fun _ _ => 0, fun _ _ => 0xAA⟩ [] =
      some (6, [0x2d, 0x32, 0x31, 0x34, 0x37, 0x34, 0x38, 0x33, 0x36, 0x34, 0x38, 0x20,
        0x30, 0x30, 0x30, 0x30, 0x42, 0x45, 0x45, 0x46]) := by
  obtain ⟨-, hprintf, -⟩ := number_formatting_roundTrips
  have hstring : Buf.StringAt (Buf.ofList [0x25, 0x64, 0x20, 0x25, 0x23, 0x78]) 0
      (spelled [.conversion 0 .signed, .literal 0x20, .conversion 1 .hex]) :=
    ⟨by decide, rfl, by decide⟩
  have hwell : ∀ d ∈ [Directive.conversion 0 .signed, .literal 0x20, .conversion 1 .hex],
      d.WellFormed := by
    intro d hd
    simp only [List.mem_cons, List.not_mem_nil, or_false] at hd
    rcases hd with rfl | rfl | rfl
    · trivial
    · exact ⟨by decide, by decide⟩
    · trivial
  rw [hprintf _ _ _ _ _ hwell ⟨nofun, nofun, nofun, trivial⟩ (by decide) hstring]
  decide

end JuddOS
