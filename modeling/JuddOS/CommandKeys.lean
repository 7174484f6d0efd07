import JuddOS.HeldKeys

/-!
# Command keys

Control-L clears the screen, Alt with F1, F2 or F3 switches the terminal, and the other keys type.
`translate` recognises a command by the value that the table has for it, and some of these values
are characters as well; nor is a scan code beyond the 69 columns refused.

* `allScans_right` says for every scan code and all modifiers what the table makes of it.
* `commands_iff` says from this when the commands fire on their keys only, and when no other key
  adds a character to a line, in every reachable state.
-/

namespace JuddOS

open Support

/-! ## Scan codes -/

/-- The press of a key with a printable glyph, of Enter or of Backspace. -/
def isTyping (scan : UInt8) : Bool :=
  scan = 14 || scan = 28 || glyphKeys.any (·.scan = scan.toNat)

/-- The press of F1, F2 or F3. -/
def isFunction (scan : UInt8) : Bool := 59 ≤ scan && scan ≤ 61

/-- The codes beyond the 69 columns that `translate` does not drop. -/
def isBeyond (scan : UInt8) : Bool :=
  scan = 84 || scan = 85 || scan = 86 || scan = 89 || (109 ≤ scan && scan ≤ 119)

/-- `translate` chooses the first row, that of Shift. -/
def shiftRow (hands : Hands) (last : Bool) : Bool := last && !hands.capsLock

/-- The code is looked up behind the last row. -/
def isBehind (hands : Hands) (last : Bool) (scan : UInt8) : Bool :=
  isBeyond scan && !hands.ctrl && !hands.alt && (last == hands.capsLock)

/-- A kernel with these modifiers. -/
def Hands.kernel (hands : Hands) (last : Bool) : Kernel :=
  { Kernel.zeroed .blank with
    ctrlFlag := hands.ctrl, altFlag := hands.alt, shiftFlag := last, capsFlag := hands.capsLock }

/-- A character other than NUL. -/
def Key.isChar (key : Key) : Bool :=
  match key with
  | .char c => c ≠ 0
  | _ => false

/-- What the key of a scan code should be found to be. -/
def keyRight (hands : Hands) (last : Bool) (scan : UInt8) (key : Key) : Bool :=
  decide (key = .clear) == (hands.ctrl && !shiftRow hands last &&
      (scan = 17 || scan = 86 || (scan = 38 && !hands.alt))) &&
    decide (key = .switch 0) ==
      (hands.alt && (scan = 84 || (!shiftRow hands last && scan = 59))) &&
    decide (key = .switch 1) == (hands.alt && !shiftRow hands last && scan = 60) &&
    decide (key = .switch 2) == (hands.alt && !shiftRow hands last && scan = 61) &&
    (isTyping scan || (key ≠ .enter && key.isChar ==
      ((hands.alt && shiftRow hands last && isFunction scan) ||
        (isBeyond scan && !(scan = 84 || (scan = 116 && hands.alt && !shiftRow hands last) ||
          (hands.ctrl && !shiftRow hands last && scan = 86))))))

/-- All ways of holding the modifiers; one Shift key will do. -/
def allHands : List Hands :=
  [true, false].flatMap fun ctrl => [true, false].flatMap fun alt =>
    [true, false].map fun capsLock => ⟨ctrl, alt, false, false, capsLock⟩

/-- **The table, scan code by scan code.** -/
theorem allScans_right :
    (List.range 256).all fun scan => allHands.all fun hands => [true, false].all fun last =>
      isBehind hands last (UInt8.ofNat scan) ||
        keyRight hands last (UInt8.ofNat scan)
          (keyOf (UInt8.ofNat scan) 0 (hands.kernel last)) := by
  decide +kernel

section Keys

variable {hands : Hands} {last : Bool} {k : Kernel} {scan : UInt8}

theorem isBeyond_iff :
    isBeyond scan = true ↔ scan.toNat = 84 ∨ scan.toNat = 85 ∨ scan.toNat = 86 ∨
      scan.toNat = 89 ∨ (109 ≤ scan.toNat ∧ scan.toNat ≤ 119) := by
  simp only [isBeyond, Bool.or_eq_true, Bool.and_eq_true, decide_eq_true_eq, UInt8.le_iff_toNat_le,
    ← UInt8.toNat_inj, or_assoc]
  rfl

theorem keyOf_inside (hflags : k.modifiers = flagsOf hands last)
    (hin : isBehind hands last scan = false) (past : UInt32) :
    keyOf scan past k = keyOf scan 0 (hands.kernel last) := by
  refine keyOf_eq hflags ?_
  change keyOf scan past (hands.kernel last) = keyOf scan 0 (hands.kernel last)
  unfold keyOf
  by_cases hdrops : dropsScan scan.toNat (hands.kernel last) = true
  · exact (if_pos hdrops).trans (if_pos hdrops).symm
  · -- A code that is not dropped is in the first 69 columns, or one of those beyond.
    have hcode : keyCode scan.toNat past (hands.kernel last) =
        keyCode scan.toNat 0 (hands.kernel last) := by
      have hrange : isBeyond scan = false → scan.toNat < 69 := by
        rw [Bool.eq_false_iff, ne_eq, isBeyond_iff]
        rw [dropsScan, decide_eq_true_eq, ignoredScan, decide_eq_true_eq] at hdrops
        omega
      have hlow : scan.toNat < 120 := by
        rw [dropsScan, decide_eq_true_eq] at hdrops
        omega
      have hrow : ∀ row, row < 4 → scantable row scan.toNat past = scantable row scan.toNat 0 :=
        fun row hrow => scantable_inside (by omega) past
      obtain ⟨ctrl, alt, shiftLeft, shiftRight, capsLock⟩ := hands
      unfold keyCode
      simp only [isBehind, Hands.kernel] at hin ⊢
      rw [hrow 0 (by omega), hrow 1 (by omega), hrow 2 (by omega), hrow 3 (by omega)]
      by_cases hbeyond : isBeyond scan = true
      · -- beyond the columns it is another row than the last
        rw [hbeyond] at hin
        cases ctrl <;> cases alt <;> cases last <;> cases capsLock <;> simp at hin ⊢
      · have hcolumn := hrange (Bool.eq_false_iff.mpr hbeyond)
        rw [scantable_inside (by omega) past]
    rw [if_neg hdrops, if_neg hdrops, pressedKey, pressedKey, hcode]

/-- Behind the last row the key is whatever is found there. -/
theorem keyOf_behind (hflags : k.modifiers = flagsOf hands last)
    (hbehind : isBehind hands last scan = true) (past : UInt32) :
    keyOf scan past k = if past = keyBackspace then .erase
      else if past = keyReturn then .enter else .char past.toUInt8 := by
  simp only [isBehind, Bool.and_eq_true, Bool.not_eq_true', beq_iff_eq] at hbehind
  obtain ⟨⟨⟨hbeyond, hctrl⟩, halt⟩, hcaps⟩ := hbehind
  rw [isBeyond_iff] at hbeyond
  rw [flagsOf, hctrl, halt, ← hcaps] at hflags
  simp only [Kernel.modifiers, Prod.mk.injEq] at hflags
  have hdrops : ¬ dropsScan scan.toNat k = true := by
    rw [dropsScan, decide_eq_true_eq, ignoredScan, decide_eq_true_eq]
    omega
  have hpast : scantable 4 scan.toNat past = past := by
    have hlength : scantableSmall.flatten.length = 345 := by decide +kernel
    exact List.getD_eq_default _ _ (by omega)
  have hcode : keyCode scan.toNat past k = past := by
    unfold keyCode
    rw [hflags.1, hflags.2.1, hflags.2.2.1, hflags.2.2.2, hpast]
    cases last <;> rfl
  rw [keyOf, if_neg hdrops, pressedKey, hcode, hflags.1, hflags.2.1]
  simp only [Bool.false_eq_true, false_and, and_false, if_false]

/-- Any other key is the one that it should be. -/
theorem keyOf_right (hflags : k.modifiers = flagsOf hands last)
    (hin : isBehind hands last scan = false) (past : UInt32) :
    keyRight hands last scan (keyOf scan past k) = true := by
  rw [keyOf_inside hflags hin]
  have hscan := List.all_eq_true.mp allScans_right scan.toNat (List.mem_range.mpr scan.toNat_lt)
  have hhands := List.all_eq_true.mp hscan ⟨hands.ctrl, hands.alt, false, false, hands.capsLock⟩
    (by cases hands.ctrl <;> cases hands.alt <;> cases hands.capsLock <;> decide)
  have hlast := List.all_eq_true.mp hhands last (by cases last <;> decide)
  rw [UInt8.ofNat_toNat, Bool.or_eq_true] at hlast
  refine hlast.resolve_left fun hbehind => ?_
  have hbehind' : isBehind hands last scan = true := hbehind
  rw [hin] at hbehind'
  cases hbehind'

/-- **The clearing key**: Control with L, but also with W. -/
theorem keyOf_clear_iff (hflags : k.modifiers = flagsOf hands last) (past : UInt32) :
    keyOf scan past k = .clear ↔ hands.ctrl = true ∧ shiftRow hands last = false ∧
      (scan = 17 ∨ scan = 86 ∨ (scan = 38 ∧ hands.alt = false)) := by
  by_cases hbehind : isBehind hands last scan = true
  · have hctrl : hands.ctrl = false := by
      simp only [isBehind, Bool.and_eq_true, Bool.not_eq_true'] at hbehind
      exact hbehind.1.1.2
    rw [keyOf_behind hflags hbehind, hctrl]
    split_ifs <;> simp
  · have hright := keyOf_right hflags (Bool.eq_false_iff.mpr hbehind) past
    simp only [keyRight, Bool.and_eq_true, beq_iff_eq] at hright
    obtain ⟨⟨⟨⟨hclear, -⟩, -⟩, -⟩, -⟩ := hright
    rw [← decide_eq_true_iff (p := keyOf scan past k = .clear), hclear]
    simp [and_assoc, or_assoc]

/-- **The switch keys**: Alt with F1, F2 or F3, but also with the code 84. -/
theorem keyOf_switch_iff (hflags : k.modifiers = flagsOf hands last) (past : UInt32)
    (index : Tid) :
    keyOf scan past k = .switch index ↔ hands.alt = true ∧ ((scan = 84 ∧ index = 0) ∨
      (shiftRow hands last = false ∧ scan.toNat = 59 + index.val)) := by
  by_cases hbehind : isBehind hands last scan = true
  · have halt : hands.alt = false := by
      simp only [isBehind, Bool.and_eq_true, Bool.not_eq_true'] at hbehind
      exact hbehind.1.2
    rw [keyOf_behind hflags hbehind, halt]
    split_ifs <;> simp
  · have hright := keyOf_right hflags (Bool.eq_false_iff.mpr hbehind) past
    simp only [keyRight, Bool.and_eq_true, beq_iff_eq] at hright
    obtain ⟨⟨⟨⟨-, hzero⟩, hone⟩, htwo⟩, -⟩ := hright
    rw [← decide_eq_true_iff (p := keyOf scan past k = .switch index)]
    fin_cases index
    · refine (Bool.eq_iff_iff.mp hzero).trans ?_
      simp [← UInt8.toNat_inj]
    · refine (Bool.eq_iff_iff.mp hone).trans ?_
      simp [← UInt8.toNat_inj, and_assoc]
    · refine (Bool.eq_iff_iff.mp htwo).trans ?_
      simp [← UInt8.toNat_inj, and_assoc]

/-- What is behind the last row types nothing while `enter_flag` is clear. -/
def silentWord (past : UInt32) (line : Line) : Prop :=
  past = keyBackspace ∨ (past = keyReturn ∧ line.isOpen = false) ∨
    (past ≠ keyReturn ∧ past.toUInt8 = 0)

/-- A key adds a character to a line that is not full. -/
def Key.adds (key : Key) (entered : Bool) (line : Line) : Prop :=
  line.screenBufTop < screenBufSize - 1 ∧
    match key with
    | .idle | .erase | .show => entered = true ∧ line.isOpen = true
    | .enter => line.isOpen = true
    | .char c => if entered then line.isOpen = true else c ≠ 0
    | .clear | .switch _ => False

theorem Line.add_top (c : UInt8) (line : Line) :
    line.screenBufTop < (line.add c).screenBufTop ↔ line.screenBufTop < screenBufSize - 1 := by
  unfold Line.add
  split <;> simp_all

theorem Line.press_top (c : UInt8) (line : Line) :
    line.screenBufTop < (line.press c).screenBufTop ↔
      line.screenBufTop < screenBufSize - 1 ∧ line.isOpen = true := by
  unfold Line.press
  split
  case isTrue hopen => simp [line.add_top, hopen]
  case isFalse hclosed => simp [hclosed]

/-- When a key makes the line longer. -/
theorem editLine_top (key : Key) (entered : Bool) (line : Line) :
    line.screenBufTop < (editLine key entered line).screenBufTop ↔ key.adds entered line := by
  unfold editLine Key.adds
  cases key with
  | idle | «show» => cases entered <;> simp [Line.press_top]
  | erase =>
      have hdrop : ¬ line.screenBufTop < line.drop.screenBufTop := by
        unfold Line.drop
        split <;> simp
      cases entered <;> simp [Line.press_top, hdrop]
  | switch index => simp
  | clear => simp [Line.empty]
  | enter => simp [Line.press_top]
  | char c =>
      by_cases hzero : c = 0 <;> cases entered <;> simp [Line.press_top, Line.add_top, hzero]

/-- **When a key that does not type adds a character.**  While `enter_flag` is set it is every one
that fires no command. -/
theorem keyOf_adds_iff (hflags : k.modifiers = flagsOf hands last) (past : UInt32)
    (htyping : isTyping scan = false) (entered : Bool) (line : Line) :
    (keyOf scan past k).adds entered line ↔ line.screenBufTop < screenBufSize - 1 ∧
      if entered then line.isOpen = true ∧ keyOf scan past k ≠ .clear ∧
        ∀ index, keyOf scan past k ≠ .switch index
      else if isBehind hands last scan then ¬ silentWord past line
      else (hands.alt = true ∧ shiftRow hands last = true ∧ isFunction scan = true) ∨
        (isBeyond scan = true ∧ ¬ (scan = 84 ∨
          (scan = 116 ∧ hands.alt = true ∧ shiftRow hands last = false) ∨
          (hands.ctrl = true ∧ shiftRow hands last = false ∧ scan = 86))) := by
  unfold Key.adds
  refine and_congr_right fun _ => ?_
  cases entered with
  | true =>
      cases keyOf scan past k <;> simp
  | false =>
      by_cases hbehind : isBehind hands last scan = true
      · rw [keyOf_behind hflags hbehind, hbehind, silentWord]
        have hne : ¬ keyReturn = keyBackspace := by decide
        split_ifs <;> simp_all
      · have hright := keyOf_right hflags (Bool.eq_false_iff.mpr hbehind) past
        simp only [keyRight, Bool.and_eq_true, beq_iff_eq, htyping, Bool.false_or] at hright
        obtain ⟨-, henter, hchar⟩ := hright
        rw [if_neg Bool.false_ne_true, if_neg hbehind]
        have hstray : (keyOf scan past k).isChar = true ↔
            (hands.alt = true ∧ shiftRow hands last = true ∧ isFunction scan = true) ∨
              (isBeyond scan = true ∧ ¬ (scan = 84 ∨
                (scan = 116 ∧ hands.alt = true ∧ shiftRow hands last = false) ∨
                (hands.ctrl = true ∧ shiftRow hands last = false ∧ scan = 86))) := by
          rw [hchar]
          generalize shiftRow hands last = row
          generalize hands.alt = alt
          generalize hands.ctrl = ctrl
          cases row <;> cases alt <;> cases ctrl <;> simp [and_assoc]
        rw [← hstray]
        -- of these keys only a character adds anything
        generalize keyOf scan past k = key at henter
        cases key <;> simp_all [Key.isChar]

end Keys

/-! ## The commands -/

/-- **Command keys fire only on their keys**, and only keys that type add characters.  The screen is
cleared when `translate` sets `ctrl_flag_L`. -/
structure OnOwnKeys (hands : Hands) (scan : UInt8) (past : UInt32) (k k' : Kernel) : Prop where
  clears : ∀ ascii k₁, translate scan.toNat past k = some (ascii, k₁) → k₁.ctrlFlagL = true →
    scan = 38 ∧ hands.ctrl = true
  displays : k'.terminalNumDisplay ≠ k.terminalNumDisplay →
    isFunction scan = true ∧ hands.alt = true
  switches : hands.alt = true → ∀ index : Tid, scan.toNat = 59 + index.val →
    k'.terminalNumDisplay = index
  adds : isTyping scan = false → ∀ t, (k'.lines t).screenBufTop ≤ (k.lines t).screenBufTop

/-- **When they do.** -/
structure CommandsApart (hands : Hands) (last : Bool) (scan : UInt8) (past : UInt32)
    (k : Kernel) : Prop where
  /-- Control-W, or the code 86 that falls into its column. -/
  controlW : hands.ctrl = true → shiftRow hands last = false → scan ≠ 17 ∧ scan ≠ 86
  /-- The code 84 falls into a column with the value of F1. -/
  sysRq : hands.alt = true → scan = 84 → k.terminalNumDisplay = 0
  /-- In the row of Shift the function keys are letters. -/
  function : hands.alt = true → shiftRow hands last = true →
    ∀ index : Tid, scan.toNat = 59 + index.val → k.terminalNumDisplay = index
  /-- Enter is pending and the line can take a character. -/
  pending : isTyping scan = false → k.enterFlag = true →
    (k.lines k.terminalNumDisplay).screenBufTop < screenBufSize - 1 →
    (k.lines k.terminalNumDisplay).isOpen = true →
    hands.alt = true ∧ (scan = 84 ∨ (shiftRow hands last = false ∧ isFunction scan = true))
  /-- The function keys that are letters, and the codes beyond the columns. -/
  stray : isTyping scan = false → k.enterFlag = false →
    (k.lines k.terminalNumDisplay).screenBufTop < screenBufSize - 1 →
    ¬ (hands.alt = true ∧ shiftRow hands last = true ∧ isFunction scan = true) ∧
      (isBehind hands last scan = true → silentWord past (k.lines k.terminalNumDisplay)) ∧
      (isBeyond scan = true → isBehind hands last scan = false → scan = 84 ∨
        (scan = 116 ∧ hands.alt = true ∧ shiftRow hands last = false))

theorem isFunction_iff (scan : UInt8) :
    isFunction scan = true ↔ ∃ index : Tid, scan.toNat = 59 + index.val := by
  simp only [isFunction, Bool.and_eq_true, decide_eq_true_eq, UInt8.le_iff_toNat_le]
  constructor
  · rintro ⟨hlow, hhigh⟩
    have hlow' : 59 ≤ scan.toNat := hlow
    have hhigh' : scan.toNat ≤ 61 := hhigh
    exact ⟨⟨scan.toNat - 59, by omega⟩, by simp; omega⟩
  · rintro ⟨index, hindex⟩
    rw [hindex]
    exact ⟨Nat.le_add_right 59 _, by have := index.isLt; show _ ≤ 61; omega⟩

section Commands

variable {hands : Hands} {last : Bool} {k k' : Kernel} {scan : UInt8} {past : UInt32}

/-- `ctrl_flag_L` is set for the clearing key. -/
theorem translate_ctrlFlagL (hkeys : NoKeyPending k) {ascii : UInt8} {k₁ : Kernel}
    (htranslate : translate scan.toNat past k = some (ascii, k₁)) :
    k₁.ctrlFlagL = true ↔ keyOf scan past k = .clear := by
  have hclear := hkeys.ctrlFlagL
  by_cases hdrops : dropsScan scan.toNat k = true
  · rw [translate_of_drops past hdrops] at htranslate
    cases htranslate
    rw [(hkeys.setModifiers _).ctrlFlagL, keyOf, if_pos hdrops]
    simp
  · rw [(translate_of_press past (Bool.eq_false_iff.mpr hdrops)).1] at htranslate
    rw [keyOf, if_neg hdrops]
    unfold translatePress at htranslate
    unfold pressedKey
    dsimp only at htranslate ⊢
    split_ifs at htranslate ⊢ with h8 h1 h2 h3 hcrl hdbh hret
    · cases htranslate
      simp [hclear]
    · cases htranslate
      simp [hclear]
    · cases htranslate
      simp [hclear]
    · cases htranslate
      simp [hclear]
    · cases htranslate
      simp
    · -- printing leaves the flag alone
      rw [Option.map_eq_some_iff] at htranslate
      obtain ⟨k₂, hprint, heq⟩ := htranslate
      cases heq
      rw [printBuf_frame hprint]
      simp [hclear]
    · cases htranslate
      simp [hclear]
    · cases htranslate
      simp [hclear]

theorem Key.display_of_ne {key : Key} {shown : Tid} (h : key.display shown ≠ shown) :
    key = .switch (key.display shown) := by
  cases key with
  | switch index => rfl
  | idle | erase | clear | «show» | enter | char => exact absurd rfl h

/-- Only the line of the displayed terminal can grow. -/
theorem keyboardHandlerMain_grows (hkeys : NoKeyPending k)
    (hstep : keyboardHandlerMain scan past k = some k') :
    (∀ t, (k'.lines t).screenBufTop ≤ (k.lines t).screenBufTop) ↔
      ¬ (keyOf scan past k).adds k.enterFlag (k.lines k.terminalNumDisplay) := by
  rw [← editLine_top, (keyboardHandlerMain_lines hkeys hstep).lines, Nat.not_lt]
  constructor
  · intro hle
    have hshown := hle k.terminalNumDisplay
    rwa [Function.update_self] at hshown
  · intro hle t
    by_cases ht : t = k.terminalNumDisplay
    · rw [ht, Function.update_self]
      exact hle
    · rw [Function.update_of_ne ht]

theorem keyboardHandlerMain_translate (hstep : keyboardHandlerMain scan past k = some k') :
    ∃ ascii k₁, translate scan.toNat past k = some (ascii, k₁) := by
  rw [keyboardHandlerMain, Option.bind_eq_bind, Option.bind_eq_some_iff] at hstep
  obtain ⟨⟨ascii, k₁⟩, htranslate, -⟩ := hstep
  exact ⟨ascii, k₁, htranslate⟩

/-- A code that is not the one of F1, F2 or F3 is none of theirs. -/
theorem not_function_84 (index : Tid) : ¬ (84 : UInt8).toNat = 59 + index.val := by
  have hlt := index.isLt
  intro heq
  have h84 : (84 : UInt8).toNat = 84 := rfl
  omega

section Necessary

variable (h : OnOwnKeys hands scan past k k') (hkeys : NoKeyPending k)
  (hflags : k.modifiers = flagsOf hands last) (hstep : keyboardHandlerMain scan past k = some k')

include h hkeys hstep

/-- The clearing key is L. -/
theorem OnOwnKeys.scan_of_clear (hkey : keyOf scan past k = .clear) : scan = 38 := by
  obtain ⟨ascii, k₁, htranslate⟩ := keyboardHandlerMain_translate hstep
  exact (h.clears ascii k₁ htranslate ((translate_ctrlFlagL hkeys htranslate).mpr hkey)).1

include hflags

theorem OnOwnKeys.controlW (hctrl : hands.ctrl = true) (hrow : shiftRow hands last = false) :
    scan ≠ 17 ∧ scan ≠ 86 := by
  have hclears := @keyOf_clear_iff hands last k scan hflags past
  constructor <;> intro hscan
  · have hL := h.scan_of_clear hkeys hstep (hclears.mpr ⟨hctrl, hrow, .inl hscan⟩)
    rw [hscan] at hL
    exact absurd hL (by decide)
  · have hL := h.scan_of_clear hkeys hstep (hclears.mpr ⟨hctrl, hrow, .inr (.inl hscan)⟩)
    rw [hscan] at hL
    exact absurd hL (by decide)

theorem OnOwnKeys.sysRq (halt : hands.alt = true) (hscan : scan = 84) :
    k.terminalNumDisplay = 0 := by
  subst hscan
  by_contra hshown
  have hdisplay := (keyboardHandlerMain_lines hkeys hstep).display
  rw [(keyOf_switch_iff hflags past 0).mpr ⟨halt, .inl ⟨rfl, rfl⟩⟩] at hdisplay
  have hmoves : k'.terminalNumDisplay ≠ k.terminalNumDisplay := by
    rw [hdisplay]
    exact fun heq => hshown heq.symm
  exact absurd (h.displays hmoves).1 (by decide)

theorem OnOwnKeys.function (halt : hands.alt = true) (hrow : shiftRow hands last = true)
    (index : Tid) (hindex : scan.toNat = 59 + index.val) : k.terminalNumDisplay = index := by
  by_contra hshown
  have hdisplay := (keyboardHandlerMain_lines hkeys hstep).display
  have hnow := h.switches halt index hindex
  rw [hdisplay] at hnow
  have hother : (keyOf scan past k).display k.terminalNumDisplay ≠ k.terminalNumDisplay := by
    rw [hnow]
    exact fun heq => hshown heq.symm
  have hkey := Key.display_of_ne hother
  rcases ((keyOf_switch_iff hflags past _).mp hkey).2 with ⟨rfl, -⟩ | ⟨hrow', -⟩
  · exact not_function_84 index hindex
  · rw [hrow] at hrow'
    cases hrow'

theorem OnOwnKeys.pending (htyping : isTyping scan = false) (hset : k.enterFlag = true)
    (hroom : (k.lines k.terminalNumDisplay).screenBufTop < screenBufSize - 1)
    (hopen : (k.lines k.terminalNumDisplay).isOpen = true) :
    hands.alt = true ∧ (scan = 84 ∨ (shiftRow hands last = false ∧ isFunction scan = true)) := by
  have hnot := (keyboardHandlerMain_grows hkeys hstep).mp (h.adds htyping)
  rw [keyOf_adds_iff hflags past htyping, hset, if_pos rfl] at hnot
  by_contra hcommand
  refine hnot ⟨hroom, hopen, fun hkey => ?_, fun index hkey => hcommand ?_⟩
  · rw [h.scan_of_clear hkeys hstep hkey] at htyping
    cases htyping
  · obtain ⟨halt, hscan⟩ := (keyOf_switch_iff hflags past index).mp hkey
    exact ⟨halt, hscan.imp And.left fun hF => ⟨hF.1, (isFunction_iff scan).mpr ⟨index, hF.2⟩⟩⟩

theorem OnOwnKeys.stray (htyping : isTyping scan = false) (hclear : k.enterFlag = false)
    (hroom : (k.lines k.terminalNumDisplay).screenBufTop < screenBufSize - 1) :
    ¬ (hands.alt = true ∧ shiftRow hands last = true ∧ isFunction scan = true) ∧
      (isBehind hands last scan = true → silentWord past (k.lines k.terminalNumDisplay)) ∧
      (isBeyond scan = true → isBehind hands last scan = false → scan = 84 ∨
        (scan = 116 ∧ hands.alt = true ∧ shiftRow hands last = false)) := by
  have hnot := (keyboardHandlerMain_grows hkeys hstep).mp (h.adds htyping)
  rw [keyOf_adds_iff hflags past htyping, hclear, if_neg Bool.false_ne_true] at hnot
  have hnone := fun hrest => hnot ⟨hroom, hrest⟩
  split at hnone
  case isTrue hbehind =>
    have hsilent := not_not.mp hnone
    refine ⟨fun hF => ?_, fun _ => hsilent, fun _ hin => absurd hbehind (by rw [hin]; simp)⟩
    -- behind the last row Alt is not held
    simp only [isBehind, Bool.and_eq_true, Bool.not_eq_true'] at hbehind
    rw [hbehind.1.2] at hF
    exact absurd hF.1 Bool.false_ne_true
  case isFalse hin =>
    refine ⟨fun hF => hnone (.inl hF), fun hbehind => absurd hbehind hin, fun hbeyond _ => ?_⟩
    by_contra hloud
    refine hnone (.inr ⟨hbeyond, ?_⟩)
    rintro (h84 | h116 | ⟨hctrl, hrow, h86⟩)
    · exact hloud (.inl h84)
    · exact hloud (.inr h116)
    · exact (h.controlW hkeys hflags hstep hctrl hrow).2 h86

/-- **The condition is necessary.** -/
theorem OnOwnKeys.apart : CommandsApart hands last scan past k where
  controlW := h.controlW hkeys hflags hstep
  sysRq := h.sysRq hkeys hflags hstep
  function := h.function hkeys hflags hstep
  pending := h.pending hkeys hflags hstep
  stray := h.stray hkeys hflags hstep

end Necessary

/-- **The condition is enough.** -/
theorem CommandsApart.onOwnKeys (h : CommandsApart hands last scan past k)
    (hkeys : NoKeyPending k) (hflags : k.modifiers = flagsOf hands last)
    (hstep : keyboardHandlerMain scan past k = some k') : OnOwnKeys hands scan past k k' := by
  have hdisplay := (keyboardHandlerMain_lines hkeys hstep).display
  have hclears := @keyOf_clear_iff hands last k scan hflags past
  have hswitches := @keyOf_switch_iff hands last k scan hflags past
  refine ⟨fun ascii k₁ htranslate hset => ?_, fun hne => ?_, fun halt index hindex => ?_,
    fun htyping => (keyboardHandlerMain_grows hkeys hstep).mpr ?_⟩
  · obtain ⟨hctrl, hrow, hscan⟩ := hclears.mp ((translate_ctrlFlagL hkeys htranslate).mp hset)
    obtain ⟨h17, h86⟩ := h.controlW hctrl hrow
    exact ⟨((hscan.resolve_left h17).resolve_left h86).1, hctrl⟩
  · rw [hdisplay] at hne
    obtain ⟨halt, hscan⟩ := (hswitches _).mp (Key.display_of_ne hne)
    rcases hscan with ⟨h84, hindex⟩ | ⟨-, hindex⟩
    · rw [hindex, h.sysRq halt h84] at hne
      exact absurd rfl hne
    · exact ⟨(isFunction_iff scan).mpr ⟨_, hindex⟩, halt⟩
  · rw [hdisplay]
    by_cases hrow : shiftRow hands last = true
    · -- the key is a letter, and the terminal is the displayed one
      rw [← h.function halt hrow index hindex]
      by_contra hne
      rcases ((hswitches _).mp (Key.display_of_ne hne)).2 with ⟨h84, -⟩ | ⟨hrow', -⟩
      · rw [h84] at hindex
        exact not_function_84 index hindex
      · rw [hrow] at hrow'
        cases hrow'
    · rw [(hswitches index).mpr ⟨halt, .inr ⟨Bool.eq_false_iff.mpr hrow, hindex⟩⟩]
      rfl
  · rw [keyOf_adds_iff hflags past htyping]
    rintro ⟨hroom, hrest⟩
    cases hset : k.enterFlag with
    | true =>
        rw [hset, if_pos rfl] at hrest
        obtain ⟨hopen, -, hswitch⟩ := hrest
        obtain ⟨halt, hscan⟩ := h.pending htyping hset hroom hopen
        rcases hscan with h84 | ⟨hrow, hF⟩
        · exact hswitch 0 ((hswitches 0).mpr ⟨halt, .inl ⟨h84, rfl⟩⟩)
        · obtain ⟨index, hindex⟩ := (isFunction_iff scan).mp hF
          exact hswitch index ((hswitches index).mpr ⟨halt, .inr ⟨hrow, hindex⟩⟩)
    | false =>
        rw [hset, if_neg Bool.false_ne_true] at hrest
        obtain ⟨hletters, hsilent, hquiet⟩ := h.stray htyping hset hroom
        split at hrest
        case isTrue hbehind => exact hrest (hsilent hbehind)
        case isFalse hin =>
          rcases hrest with hF | ⟨hbeyond, hloud⟩
          · exact hletters hF
          · rcases hquiet hbeyond (Bool.eq_false_iff.mpr hin) with h84 | h116
            · exact hloud (.inl h84)
            · exact hloud (.inr (.inl h116))

end Commands

/-- **When command keys fire on their keys only**, for every scan code in every reachable state. -/
theorem commands_iff (fs : Image) (m : PowerOn) (es : List MachineEvent) (s : ProcState)
    (hrun : ProcState.MachineSteps fs (.boot m) es s) (scan : UInt8) (past : UInt32) (k' : Kernel)
    (hstep : keyboardHandlerMain scan past s.kernel = some k') :
    OnOwnKeys (handsAfter es) scan past s.kernel k' ↔
      CommandsApart (handsAfter es) (shiftAfter es) scan past s.kernel := by
  obtain ⟨hready, hflags, -⟩ := tracked_of_run hrun
  exact ⟨fun h => h.apart hready.keys hflags hstep, fun h => h.onOwnKeys hready.keys hflags hstep⟩

/-! ### Control with L, and with W -/

/-- The screen can always be cleared. -/
theorem MachineReady.clears {s : ProcState} (h : MachineReady s) {scan : UInt8} {past : UInt32}
    (hkey : keyOf scan past s.kernel = .clear) :
    ∃ k', keyboardHandlerMain scan past s.kernel = some k' := by
  have hsame := (sameConsole_setModifiers s.kernel scan.toNat).trans (sameConsole_ctrlFlagL _)
  obtain ⟨k₁, hclear, -⟩ := clearScreen_spec (hsame.mapped h.mapped)
  refine ⟨resetFlags k₁, ?_⟩
  rw [keyboardHandlerMain_eq scan past h.keys, hkey, handleKey, hclear, Option.map_some]

/-- Control is pressed, and then L. -/
theorem commands_control_l :
    ∃ s k', ProcState.MachineSteps shellImage (.boot .blank) [.key 29 0] s ∧
      keyboardHandlerMain 38 0 s.kernel = some k' ∧
      (OnOwnKeys (handsAfter [.key 29 0]) 38 0 s.kernel k' ↔
        CommandsApart (handsAfter [.key 29 0]) (shiftAfter [.key 29 0]) 38 0 s.kernel) := by
  obtain ⟨s, hrun, -⟩ := exists_run_of_modifiers shellImage .blank [29] (by simp [modifierScans])
  have htracked := tracked_of_run hrun
  have hkey : keyOf 38 0 s.kernel = .clear := (keyOf_clear_iff htracked.flags 0).mpr (by decide)
  obtain ⟨k', hstep⟩ := htracked.ready.clears hkey
  exact ⟨s, k', hrun, hstep, commands_iff shellImage .blank _ s hrun 38 0 k' hstep⟩

/-- Control is pressed, and then W: the screen is cleared. -/
theorem commands_fail_control_w :
    ¬ ∀ (fs : Image) (m : PowerOn) (es : List MachineEvent) (s : ProcState),
      ProcState.MachineSteps fs (.boot m) es s → ∀ scan past k',
      keyboardHandlerMain scan past s.kernel = some k' →
      OnOwnKeys (handsAfter es) scan past s.kernel k' := by
  intro hall
  obtain ⟨s, hrun, -⟩ := exists_run_of_modifiers shellImage .blank [29] (by simp [modifierScans])
  have htracked := tracked_of_run hrun
  have hkey : keyOf 17 0 s.kernel = .clear := (keyOf_clear_iff htracked.flags 0).mpr (by decide)
  obtain ⟨k', hstep⟩ := htracked.ready.clears hkey
  have hown := hall _ _ _ s hrun 17 0 k' hstep
  obtain ⟨ascii, k₁, htranslate⟩ := keyboardHandlerMain_translate hstep
  have hcleared := (translate_ctrlFlagL htracked.ready.keys htranslate).mpr hkey
  exact absurd (hown.clears ascii k₁ htranslate hcleared).1 (by decide)

end JuddOS
