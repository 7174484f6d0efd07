import JuddOS.Console
import JuddOS.Machine
import JuddOS.ProcessTable

/-!
# The modifier keys

`translate` keeps one flag for each kind of modifier.  `Hands` is what the flags stand for: which of
the keys are held down, the two Shift keys apart, and whether Caps Lock is on.

Control, Alt and Caps Lock are followed exactly.  The flag of the two Shift keys says whether the
last event of either was a press (`lastShift`), and the tables have no row for Shift with Caps Lock.
`translate_glyph_iff` says for which presses the glyph is right all the same, in every reachable
state.
-/

namespace JuddOS

open Support

/-- The modifier keys that are held, and whether Caps Lock is on. -/
structure Hands where
  ctrl : Bool
  alt : Bool
  shiftLeft : Bool
  shiftRight : Bool
  capsLock : Bool
  deriving DecidableEq

namespace Hands

def free : Hands := ⟨false, false, false, false, false⟩

/-- A key is held from its press to its release; Caps Lock toggles when its key is released. -/
def after (hands : Hands) (scan : Nat) : Hands :=
  if scan = 29 then { hands with ctrl := true }
  else if scan = 157 then { hands with ctrl := false }
  else if scan = 56 then { hands with alt := true }
  else if scan = 184 then { hands with alt := false }
  else if scan = 42 then { hands with shiftLeft := true }
  else if scan = 170 then { hands with shiftLeft := false }
  else if scan = 54 then { hands with shiftRight := true }
  else if scan = 182 then { hands with shiftRight := false }
  else if scan = 186 then { hands with capsLock := !hands.capsLock }
  else hands

/-- A Shift key is held. -/
def shift (hands : Hands) : Bool := hands.shiftLeft || hands.shiftRight

end Hands

/-- Whether the last event of a Shift key was a press. -/
def lastShift (last : Bool) (scan : Nat) : Bool :=
  if scan = 42 ∨ scan = 54 then true else if scan = 170 ∨ scan = 182 then false else last

def MachineEvent.scan : MachineEvent → Option Nat
  | .key scan _ => some scan.toNat
  | _ => none

/-- The scan codes among the events. -/
def scansOf (es : List MachineEvent) : List Nat := es.filterMap MachineEvent.scan

def handsAfter (es : List MachineEvent) : Hands := (scansOf es).foldl Hands.after .free

def shiftAfter (es : List MachineEvent) : Bool := (scansOf es).foldl lastShift false

/-! ## The flags -/

/-- The four flags, for keys that are held. -/
def flagsOf (hands : Hands) (last : Bool) : Bool × Bool × Bool × Bool :=
  (hands.ctrl, hands.alt, last, hands.capsLock)

theorem modifiersAfter_flagsOf (hands : Hands) (last : Bool) (scan : Nat) :
    modifiersAfter scan (flagsOf hands last) =
      flagsOf (hands.after scan) (lastShift last scan) := by
  unfold flagsOf modifiersAfter Hands.after lastShift
  dsimp only
  by_cases hignored : ignoredScan scan hands.alt = true
  · -- none of the codes that are dropped is one of a modifier
    rw [if_pos hignored]
    rw [ignoredScan, decide_eq_true_eq] at hignored
    split_ifs <;> first | rfl | omega
  · rw [if_neg hignored]
    split_ifs <;> first | rfl | omega

/-- A Shift key whose press was the last Shift event is held. -/
theorem shift_of_lastShift {hands : Hands} {last : Bool} (h : last = true → hands.shift = true)
    (scan : Nat) (hlast : lastShift last scan = true) : (hands.after scan).shift = true := by
  unfold lastShift at hlast
  unfold Hands.shift at h
  unfold Hands.after Hands.shift
  split_ifs at hlast ⊢ <;> first | omega | simp_all

/-- Only keys change the flags. -/
theorem ProcState.machineStep_modifiers {fs : Image} {s s' : ProcState} {e : MachineEvent}
    (hkeys : NoKeyPending s.kernel) (hstep : s.machineStep fs e = some s') :
    s'.kernel.modifiers =
      (e.scan.toList.foldl (fun flags scan => modifiersAfter scan flags) s.kernel.modifiers) := by
  cases machineStep_done hstep with
  | proc hstep => exact congrArg ConsoleState.modifiers (ProcState.step_spares hstep).console
  | key hrun => exact (keyboardHandlerMain_lines hkeys hrun).modifiers
  | write hrun => exact (terminalWrite_draws hrun).modifiers
  | plantReturn | takeLine | vidmap | store => rfl

/-- What the flags stand for, and that a Shift key is held when its press was the last one. -/
structure Tracked (es : List MachineEvent) (s : ProcState) : Prop where
  ready : MachineReady s
  flags : s.kernel.modifiers = flagsOf (handsAfter es) (shiftAfter es)
  shift : shiftAfter es = true → (handsAfter es).shift = true

theorem tracked_boot (m : PowerOn) : Tracked [] (.boot m) :=
  ⟨machineReady_boot m, (booted_bootKernel m).idle.1, nofun⟩

/-- **One event.** -/
theorem Tracked.step {fs : Image} {es : List MachineEvent} {s s' : ProcState} {e : MachineEvent}
    (h : Tracked es s) (hstep : s.machineStep fs e = some s') : Tracked (es ++ [e]) s' := by
  have hflags := ProcState.machineStep_modifiers h.ready.keys hstep
  rw [h.flags] at hflags
  have hscans : scansOf (es ++ [e]) = scansOf es ++ e.scan.toList := by
    rw [scansOf, List.filterMap_append]
    cases hscan : e.scan <;> simp [hscan, scansOf]
  have hhands : handsAfter (es ++ [e]) = e.scan.toList.foldl Hands.after (handsAfter es) := by
    rw [handsAfter, hscans, List.foldl_append, handsAfter]
  have hshift : shiftAfter (es ++ [e]) = e.scan.toList.foldl lastShift (shiftAfter es) := by
    rw [shiftAfter, hscans, List.foldl_append, shiftAfter]
  refine ⟨h.ready.step hstep, ?_, ?_⟩ <;> rw [hhands, hshift]
  · rw [hflags]
    cases e.scan with
    | none => rfl
    | some scan => exact modifiersAfter_flagsOf _ _ scan
  · cases e.scan with
    | none => exact h.shift
    | some scan => exact shift_of_lastShift h.shift scan

/-- **The flags in every reachable state.** -/
theorem tracked_of_run {fs : Image} {m : PowerOn} {es : List MachineEvent} {s : ProcState}
    (hrun : ProcState.MachineSteps fs (.boot m) es s) : Tracked es s :=
  hrun.invariant_history Tracked (tracked_boot m) fun _ _ _ _ h hstep => h.step hstep

/-! ## Glyphs -/

/-- A key with a printable glyph: its scan code, and its glyph without and with Shift. -/
structure GlyphKey where
  scan : Nat
  plain : UInt8
  shifted : UInt8
  deriving DecidableEq

/-- The keys of the main block, row by row, and the space bar.  Characters have their ASCII
codes. -/
def glyphKeys : List GlyphKey := [
  ⟨2, 49, 33⟩, ⟨3, 50, 64⟩, ⟨4, 51, 35⟩, ⟨5, 52, 36⟩, ⟨6, 53, 37⟩, ⟨7, 54, 94⟩, ⟨8, 55, 38⟩,
  ⟨9, 56, 42⟩, ⟨10, 57, 40⟩, ⟨11, 48, 41⟩, ⟨12, 45, 95⟩, ⟨13, 61, 43⟩,
  ⟨16, 113, 81⟩, ⟨17, 119, 87⟩, ⟨18, 101, 69⟩, ⟨19, 114, 82⟩, ⟨20, 116, 84⟩, ⟨21, 121, 89⟩,
  ⟨22, 117, 85⟩, ⟨23, 105, 73⟩, ⟨24, 111, 79⟩, ⟨25, 112, 80⟩, ⟨26, 91, 123⟩, ⟨27, 93, 125⟩,
  ⟨30, 97, 65⟩, ⟨31, 115, 83⟩, ⟨32, 100, 68⟩, ⟨33, 102, 70⟩, ⟨34, 103, 71⟩, ⟨35, 104, 72⟩,
  ⟨36, 106, 74⟩, ⟨37, 107, 75⟩, ⟨38, 108, 76⟩, ⟨39, 59, 58⟩, ⟨40, 39, 34⟩, ⟨41, 96, 126⟩,
  ⟨43, 92, 124⟩, ⟨44, 122, 90⟩, ⟨45, 120, 88⟩, ⟨46, 99, 67⟩, ⟨47, 118, 86⟩, ⟨48, 98, 66⟩,
  ⟨49, 110, 78⟩, ⟨50, 109, 77⟩, ⟨51, 44, 60⟩, ⟨52, 46, 62⟩, ⟨53, 47, 63⟩,
  ⟨57, 32, 32⟩]

def GlyphKey.isLetter (key : GlyphKey) : Bool := 97 ≤ key.plain && key.plain ≤ 122

/-- The glyph that should appear. -/
def Hands.glyph (hands : Hands) (key : GlyphKey) : UInt8 :=
  if key.isLetter then
    if hands.shift != hands.capsLock then key.shifted else key.plain
  else if hands.shift then key.shifted else key.plain

/-- The glyph in the row that the two flags choose. -/
def GlyphKey.inRow (key : GlyphKey) (shift caps : Bool) : UInt8 :=
  if shift && !caps then key.shifted
  else if caps && !shift && key.isLetter then key.shifted
  else key.plain

/-- The three rows for such keys. -/
def GlyphKey.inTables (key : GlyphKey) : Bool :=
  key.scan < 69 && scantable 0 key.scan 0 = (key.inRow true false).toUInt32 &&
    scantable 1 key.scan 0 = (key.inRow false true).toUInt32 &&
    scantable 4 key.scan 0 = (key.inRow false false).toUInt32 &&
    scantable 4 key.scan 0 = (key.inRow true true).toUInt32

/-- It is no modifier and no key that is dropped. -/
def GlyphKey.handled (key : GlyphKey) : Bool :=
  !ignoredScan key.scan false && key.scan ≠ 29 && key.scan ≠ 56 && key.scan ≠ 42 &&
    key.scan ≠ 54 && 32 ≤ key.plain && 32 ≤ key.shifted

/-- `scantable_small` has all of them. -/
theorem glyphKeys_inTables : glyphKeys.all fun key => key.inTables && key.handled := by
  decide +kernel

/-- Inside its rows the table does not depend on what is behind it. -/
theorem scantable_inside {row scan : Nat} (h : 69 * row + scan < 345) (past : UInt32) :
    scantable row scan past = scantable row scan 0 := by
  have hindex : 69 * row + scan < scantableSmall.flatten.length := by
    have hlength : scantableSmall.flatten.length = 345 := by decide +kernel
    omega
  rw [scantable, scantable, List.getD_eq_getElem _ _ hindex, List.getD_eq_getElem _ _ hindex]

/-- The table entry for such a key, while neither Control nor Alt is held. -/
theorem keyCode_glyph {key : GlyphKey} (hkey : key ∈ glyphKeys) {shift caps : Bool} {k : Kernel}
    (hflags : k.modifiers = (false, false, shift, caps)) (past : UInt32) :
    keyCode key.scan past k = (key.inRow shift caps).toUInt32 := by
  have htables := List.all_eq_true.mp glyphKeys_inTables key hkey
  simp only [GlyphKey.inTables, Bool.and_eq_true, decide_eq_true_eq] at htables
  obtain ⟨⟨⟨⟨⟨hscan, hzero⟩, hone⟩, hfour⟩, hfour'⟩, -⟩ := htables
  simp only [Kernel.modifiers, Prod.mk.injEq] at hflags
  obtain ⟨hctrl, halt, hshift, hcaps⟩ := hflags
  rw [← scantable_inside (by omega) past] at hzero hone hfour hfour'
  unfold keyCode
  rw [hctrl, halt, hshift, hcaps]
  cases shift <;> cases caps
  · simpa using hfour
  · simpa using hone
  · simpa using hzero
  · simpa using hfour'

/-- **What `translate` answers** to the press of such a key. -/
theorem translate_glyph {key : GlyphKey} (hkey : key ∈ glyphKeys) {shift caps : Bool} {k : Kernel}
    (hflags : k.modifiers = (false, false, shift, caps)) (past : UInt32) :
    translate key.scan past k = some (key.inRow shift caps, { k with bufFlag := 3 }) := by
  have hcode := keyCode_glyph hkey hflags past
  have hhandled := List.all_eq_true.mp glyphKeys_inTables key hkey
  simp only [GlyphKey.handled, GlyphKey.inTables, Bool.and_eq_true, Bool.not_eq_true',
    decide_eq_true_eq] at hhandled
  obtain ⟨⟨⟨⟨⟨hscan, -⟩, -⟩, -⟩, -⟩, ⟨⟨⟨⟨⟨hignored, hctrl⟩, halt⟩, hleft⟩, hright⟩, hplain⟩,
    hshifted⟩ := hhandled
  simp only [Kernel.modifiers, Prod.mk.injEq] at hflags
  have hdrops : dropsScan key.scan k = false := by
    rw [dropsScan, hflags.2.1, hignored]
    simp
    omega
  -- The glyph is no control character.
  have hglyph : 32 ≤ (key.inRow shift caps).toNat := by
    unfold GlyphKey.inRow
    split_ifs <;> assumption
  have hne : ∀ code : UInt32, code.toNat < 32 → (key.inRow shift caps).toUInt32 ≠ code := by
    intro code hlt heq
    rw [← heq, UInt8.toNat_toUInt32] at hlt
    omega
  rw [(translate_of_press past hdrops).1, translatePress, hcode, hflags.1, hflags.2.1]
  simp only [hne keyBackspace (by decide), hne keyReturn (by decide), Bool.false_eq_true,
    false_and, and_false, if_false, UInt8.toUInt8_toUInt32]

/-- When the row has the glyph that should appear.  A Shift key whose press was the last Shift
event is held. -/
theorem GlyphKey.inRow_eq_iff (key : GlyphKey) {hands : Hands} {last : Bool}
    (hlast : last = true → hands.shift = true) :
    key.inRow last hands.capsLock = hands.glyph key ↔
      key.plain = key.shifted ∨ (hands.shift = true →
        last = true ∧ (key.isLetter = true ∨ hands.capsLock = false)) := by
  unfold GlyphKey.inRow Hands.glyph
  by_cases hsame : key.plain = key.shifted
  · -- the space bar
    simp [hsame]
  · have hsame' : ¬ key.shifted = key.plain := fun heq => hsame heq.symm
    generalize hands.shift = shift at hlast ⊢
    cases shift with
    | false =>
        have hreleased : last = false := Bool.eq_false_iff.mpr fun hset => nomatch hlast hset
        cases key.isLetter <;> cases hands.capsLock <;> simp [hreleased]
    | true =>
        cases last <;> cases key.isLetter <;> cases hands.capsLock <;> simp [hsame, hsame']

/-- **When a glyph is the right one**, in every reachable state while neither Control nor Alt is
held.  Unless Shift makes no difference to the key, and while a Shift key is held, the last Shift
event must have been a press, and Caps Lock must be off if the key is not a letter. -/
theorem translate_glyph_iff (fs : Image) (m : PowerOn) (es : List MachineEvent) (s : ProcState)
    (hrun : ProcState.MachineSteps fs (.boot m) es s) (hctrl : (handsAfter es).ctrl = false)
    (halt : (handsAfter es).alt = false) (key : GlyphKey) (hkey : key ∈ glyphKeys)
    (past : UInt32) :
    (∃ k', translate key.scan past s.kernel = some ((handsAfter es).glyph key, k')) ↔
      key.plain = key.shifted ∨ ((handsAfter es).shift = true →
        shiftAfter es = true ∧ (key.isLetter = true ∨ (handsAfter es).capsLock = false)) := by
  obtain ⟨-, hflags, hshift⟩ := tracked_of_run hrun
  rw [flagsOf, hctrl, halt] at hflags
  rw [translate_glyph hkey hflags past, ← key.inRow_eq_iff hshift]
  constructor
  · rintro ⟨k', heq⟩
    exact congrArg Prod.fst (Option.some.inj heq)
  · intro heq
    rw [heq]
    exact ⟨_, rfl⟩

/-! ### Two runs -/

/-- The scan codes of the modifier keys. -/
def modifierScans : List Nat := [29, 157, 56, 184, 42, 170, 54, 182, 186]

theorem keyOf_modifier {scan : UInt8} (h : scan.toNat ∈ modifierScans) (past : UInt32)
    (k : Kernel) : keyOf scan past k = .idle := by
  refine if_pos ?_
  simp only [modifierScans, List.mem_cons, List.not_mem_nil, or_false] at h
  rw [dropsScan, decide_eq_true_eq]
  omega

/-- Any modifiers can be pressed and released after boot. -/
theorem exists_run_of_modifiers (fs : Image) (m : PowerOn) (scans : List UInt8)
    (hscans : ∀ scan ∈ scans, scan.toNat ∈ modifierScans) :
    ∃ s, ProcState.MachineSteps fs (.boot m) (scans.map (.key · 0)) s ∧
      s.kernel.enterFlag = false := by
  induction scans using List.reverseRecOn with
  | nil => exact ⟨_, .nil _, (booted_bootKernel m).idle.2⟩
  | append_singleton scans scan ih =>
      obtain ⟨s, hrun, hclear⟩ := ih fun scan' h => hscans scan' (List.mem_append_left _ h)
      have hkey := keyOf_modifier (hscans scan (by simp)) 0 s.kernel
      have hstep := keyboardHandlerMain_idle ((machineReady_boot m).run hrun).keys hkey hclear
      have hentered := (setModifiers_lines scan.toNat s.kernel).2.2.2.trans hclear
      have hmachine := ProcState.machineStep_key hstep fs
      rw [List.map_append]
      exact ⟨_, .snoc hrun hmachine, hentered⟩

/-- Shift is held, and the key of the letter a is pressed. -/
theorem translate_glyph_capital :
    ∃ s, ProcState.MachineSteps shellImage (.boot .blank) [.key 42 0] s ∧
      ((∃ k', translate 30 0 s.kernel = some ((handsAfter [.key 42 0]).glyph ⟨30, 97, 65⟩, k')) ↔
        (97 : UInt8) = 65 ∨ ((handsAfter [.key 42 0]).shift = true →
          shiftAfter [.key 42 0] = true ∧ (GlyphKey.isLetter ⟨30, 97, 65⟩ = true ∨
            (handsAfter [.key 42 0]).capsLock = false))) := by
  obtain ⟨s, hrun, -⟩ := exists_run_of_modifiers shellImage .blank [42] (by simp [modifierScans])
  exact ⟨s, hrun, translate_glyph_iff shellImage .blank _ s hrun rfl rfl ⟨30, 97, 65⟩ (by decide) 0⟩

/-- Both Shift keys are pressed and the right one is released: the key of the letter a gives the
small letter, though the left one is held. -/
theorem translate_glyph_fails :
    ¬ ∀ (fs : Image) (m : PowerOn) (es : List MachineEvent) (s : ProcState),
      ProcState.MachineSteps fs (.boot m) es s → (handsAfter es).ctrl = false →
      (handsAfter es).alt = false → ∀ key ∈ glyphKeys, ∀ past,
      ∃ k', translate key.scan past s.kernel = some ((handsAfter es).glyph key, k') := by
  intro hall
  obtain ⟨s, hrun, -⟩ :=
    exists_run_of_modifiers shellImage .blank [42, 54, 182] (by simp [modifierScans])
  obtain ⟨k', hcapital⟩ := hall _ _ _ s hrun rfl rfl ⟨30, 97, 65⟩ (by decide) 0
  have hflags := (tracked_of_run hrun).flags
  have hsmall := translate_glyph (by decide : (⟨30, 97, 65⟩ : GlyphKey) ∈ glyphKeys) hflags 0
  have heq : (65 : UInt8) = 97 := congrArg Prod.fst (Option.some.inj (hcapital.symm.trans hsmall))
  exact absurd heq (by decide)

end JuddOS
