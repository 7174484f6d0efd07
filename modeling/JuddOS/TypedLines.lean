import JuddOS.Columns
import JuddOS.LineReads
import JuddOS.ProcessTable
import Mathlib.Data.List.TakeWhile

/-!
# Typed lines

A line is typed on a terminal that is scheduled and displayed, and a process calls `terminal_read`
before, between or after the keys.

* `lineOf` is the line that a sequence of keys makes, by the keys before the first Enter.  While
  `enter_flag` is clear the keys edit the line (`editText`); while it is set each of them is stored
  (`storeText`).
* `LineHeld` is the invariant: the buffer holds that line, and its last byte is the return of a
  call.
* `line_delivered` says what `terminal_read` then returns.
-/

namespace JuddOS

open Support

/-- What happens to a line before it is read. -/
inductive LineEvent
  | key (key : Key)
  /-- `terminal_read` is called, and stores a return at the end of the line. -/
  | call
  deriving DecidableEq

/-- A scan code is handled, whose meaning depends on the modifiers, or `terminal_read` is called. -/
inductive LineStep : Kernel → LineEvent → Kernel → Prop
  | key {k k' : Kernel} {scan : UInt8} {past : UInt32}
      (hrun : keyboardHandlerMain scan past k = some k') :
      LineStep k (.key (keyOf scan past k)) k'
  | call (k : Kernel) : LineStep k .call (plantReturn k)

def LineEvent.key? : LineEvent → Option Key
  | .key pressed => some pressed
  | .call => none

/-- The keys among the events. -/
def keysOf (es : List LineEvent) : List Key := es.filterMap LineEvent.key?

theorem keysOf_key (es : List LineEvent) (key : Key) :
    keysOf (es ++ [.key key]) = keysOf es ++ [key] := by
  simp [keysOf, LineEvent.key?]

theorem keysOf_call (es : List LineEvent) : keysOf (es ++ [.call]) = keysOf es := by
  simp [keysOf, LineEvent.key?]

/-- A run in which every key is of one kind. -/
theorem lineRun_invariant {G : Key → Prop} (P : List LineEvent → Kernel → Prop) {k k' : Kernel}
    {es : List LineEvent} (hrun : Run LineStep k es k') (hkeys : ∀ key ∈ keysOf es, G key)
    (hstart : P [] k) (hstep : ∀ es a e b, P es a → LineStep a e b →
      (∀ key, e = .key key → G key) → P (es ++ [e]) b) : P es k' := by
  induction hrun with
  | nil => exact hstart
  | @snoc k₁ k₂ es e before last ih =>
      rw [keysOf, List.filterMap_append] at hkeys
      have hbefore := ih fun key hkey => hkeys key (List.mem_append_left _ hkey)
      refine hstep _ _ _ _ hbefore last fun key hkey => ?_
      rw [hkey] at hkeys
      exact hkeys key (List.mem_append_right _ (by simp [LineEvent.key?]))

/-! ## The line that keys make -/

/-- A character is appended while there is room. -/
def addChar (c : UInt8) (text : List UInt8) : List UInt8 :=
  if text.length < screenBufSize - 1 then text ++ [c] else text

/-- A key edits the line. -/
def editText (text : List UInt8) : Key → List UInt8
  | .char c => addChar c text
  | .erase => text.dropLast
  | _ => text

/-- The character that is handed to `enter_press` for a key. -/
def Key.ascii : Key → UInt8
  | .char c => c
  | .erase => keyBackspace.toUInt8
  | .enter => keyReturn.toUInt8
  | .show => dbh.toUInt8
  | .idle | .switch _ | .clear => 0

/-- A key is stored in the line, whatever it is. -/
def storeText (text : List UInt8) (key : Key) : List UInt8 := addChar key.ascii text

/-- The line after the keys before the first Enter. -/
def lineOf (edit : List UInt8 → Key → List UInt8) (keys : List Key) : List UInt8 :=
  (keys.takeWhile (· ≠ .enter)).foldl edit []

/-- What a key does to a line, by the `enter_flag` with which the line was begun. -/
def edits (entered : Bool) : List UInt8 → Key → List UInt8 :=
  if entered then storeText else editText

theorem lineOf_enter (edit : List UInt8 → Key → List UInt8) {keys : List Key}
    (h : .enter ∈ keys) (key : Key) : lineOf edit (keys ++ [key]) = lineOf edit keys := by
  have hprefix : (keys ++ [key]).takeWhile (· ≠ .enter) = keys.takeWhile (· ≠ .enter) := by
    rw [List.takeWhile_append, if_neg]
    intro hall
    have hlength := (List.takeWhile_prefix (· ≠ Key.enter) (l := keys)).eq_of_length hall
    have hnone := List.mem_takeWhile_imp (hlength ▸ h)
    simp at hnone
  rw [lineOf, lineOf, hprefix]

theorem lineOf_snoc (edit : List UInt8 → Key → List UInt8) {keys : List Key}
    (h : .enter ∉ keys) (key : Key) :
    lineOf edit (keys ++ [key]) =
      if key = .enter then lineOf edit keys else edit (lineOf edit keys) key := by
  have hall : ∀ key' ∈ keys, decide (key' ≠ Key.enter) = true := by
    intro key' hkey'
    rw [decide_eq_true_eq]
    rintro rfl
    exact h hkey'
  have hself : keys.takeWhile (· ≠ .enter) = keys := List.takeWhile_eq_self_iff.mpr hall
  by_cases hkey : key = .enter
  · rw [if_pos hkey, lineOf, lineOf, List.takeWhile_append_of_pos hall, hself, hkey]
    simp
  · rw [if_neg hkey, lineOf, lineOf, List.takeWhile_append_of_pos hall, hself]
    simp [hkey]

/-! ## The invariant -/

/-- The line of the displayed terminal after some events: begun with `enter_flag` at `flag`, and
with `slot` in the last byte. -/
structure LineHeld (flag : Bool) (slot : UInt8) (es : List LineEvent) (k : Kernel) : Prop where
  keys : NoKeyPending k
  shown : k.terminalNum = k.terminalNumDisplay
  entered : k.enterFlag = (flag || Key.enter ∈ keysOf es)
  fits : (k.lines k.terminalNumDisplay).Fits
  holds : Editor.Holds (k.lines k.terminalNumDisplay)
    (if .enter ∈ keysOf es then .entered (lineOf (edits flag) (keysOf es))
      else .typing (lineOf (edits flag) (keysOf es)))
  last : (k.lines k.terminalNumDisplay).screenBuf (screenBufSize - 1) =
    if .call ∈ es then chReturn else slot

/-- No key but control-L touches the last byte. -/
theorem editLine_last {line : Line} (hfits : line.Fits) {key : Key} (hkey : key ≠ .clear)
    (entered : Bool) :
    (editLine key entered line).screenBuf (screenBufSize - 1) =
      line.screenBuf (screenBufSize - 1) := by
  have hadd : ∀ c, (line.add c).screenBuf (screenBufSize - 1) =
      line.screenBuf (screenBufSize - 1) := by
    intro c
    unfold Line.add
    split
    case isTrue hroom => exact Function.update_of_ne (by omega) ..
    case isFalse => rfl
  have hpress : ∀ c, (line.press c).screenBuf (screenBufSize - 1) =
      line.screenBuf (screenBufSize - 1) := by
    intro c
    unfold Line.press
    split
    · exact hadd c
    · rfl
  have hdrop : line.drop.screenBuf (screenBufSize - 1) = line.screenBuf (screenBufSize - 1) := by
    unfold Line.Fits at hfits
    unfold Line.drop
    split
    case isTrue htext => exact Function.update_of_ne (by omega) ..
    case isFalse => rfl
  cases key with
  | idle | «show» =>
      dsimp only [editLine]
      split
      · exact hpress _
      · rfl
  | erase =>
      dsimp only [editLine]
      split
      · exact hpress _
      · exact hdrop
  | switch index => rfl
  | clear => exact absurd rfl hkey
  | enter => exact hpress _
  | char c =>
      dsimp only [editLine]
      split
      · exact hpress c
      · split
        · exact hadd c
        · rfl

/-- A character at the end of a line that is being typed. -/
theorem Editor.Holds.add {line : Line} {text : List UInt8} (h : Holds line (.typing text))
    {c : UInt8} (hplain : endsLine c = false) : Holds (line.add c) (.typing (addChar c text)) := by
  obtain ⟨hold, htext⟩ := h
  have hlength : text.length = line.screenBufTop := by
    rw [← htext, line.text_length]
  unfold addChar
  rw [hlength]
  by_cases hroom : line.screenBufTop < screenBufSize - 1
  · rw [if_pos hroom]
    refine ⟨fun c' hc' => ?_, by rw [Line.text_add hroom, htext]⟩
    rcases List.mem_append.mp hc' with hbefore | hnew
    · exact hold c' hbefore
    · rw [List.mem_singleton.mp hnew]
      exact hplain
  · rw [if_neg hroom, Line.add, if_neg hroom]
    exact ⟨hold, htext⟩

theorem Key.Typing.ne_switch {key : Key} (h : key.Typing) (index : Tid) : key ≠ .switch index := by
  rintro rfl
  exact h

/-- A character that is typed neither is zero nor ends a line. -/
theorem Key.Typing.plain {c : UInt8} (h : (Key.char c).Typing) : c ≠ 0 ∧ endsLine c = false := by
  obtain ⟨hlow, -⟩ := h
  have hlow' : 0x20 ≤ c.toNat := hlow
  constructor
  · rintro rfl
    exact absurd hlow' (by decide)
  · rw [endsLine, decide_eq_false_iff_not]
    rintro (rfl | rfl)
    · exact absurd hlow' (by decide)
    · exact absurd hlow' (by decide)

/-- What a key makes of a line that Enter has not completed. -/
theorem Editor.Holds.edits {line : Line} {text : List UInt8} (h : Holds line (.typing text))
    {key : Key} (htyping : key.Typing) (hkey : key ≠ .enter) (entered : Bool) :
    Holds (editLine key entered line) (.typing (edits entered text key)) := by
  cases entered with
  | false =>
      cases key with
      | idle => exact h
      | erase =>
          obtain ⟨hplain, htext⟩ := h
          refine ⟨fun c hc => hplain c (List.dropLast_subset _ hc), ?_⟩
          have hdrop : editLine .erase false line = line.drop := rfl
          rw [hdrop, line.text_drop, htext]
          rfl
      | char c =>
          obtain ⟨hzero, hplain⟩ := htyping.plain
          have hadd : editLine (.char c) false line = line.add c := if_pos hzero
          rw [hadd]
          exact h.add hplain
      | enter => exact absurd rfl hkey
      | switch index => exact htyping.elim
      | clear => exact htyping.elim
      | «show» => exact htyping.elim
  | true =>
      -- A line without a newline is open, so `enter_press` adds what it is handed.
      have hopen : line.isOpen = true := by
        apply PlainText.isOpen
        rw [h.2]
        exact h.1
      have hpress : ∀ c, line.press c = line.add c := fun c => if_pos hopen
      cases key with
      | idle =>
          have hadd : editLine .idle true line = line.add 0 := hpress 0
          rw [hadd]
          exact h.add rfl
      | erase =>
          have hadd : editLine .erase true line = line.add keyBackspace.toUInt8 := hpress _
          rw [hadd]
          exact h.add rfl
      | char c =>
          have hadd : editLine (.char c) true line = line.add c := hpress c
          rw [hadd]
          exact h.add htyping.plain.2
      | enter => exact absurd rfl hkey
      | switch index => exact htyping.elim
      | clear => exact htyping.elim
      | «show» => exact htyping.elim

/-- A completed line stays as it is. -/
theorem Editor.Holds.stays {line : Line} {text : List UInt8} (h : Holds line (.entered text))
    {key : Key} (htyping : key.Typing) : editLine key true line = line := by
  cases key with
  | idle => exact h.press 0
  | erase => exact h.press _
  | enter => exact h.press _
  | char c => exact h.press c
  | switch index => exact htyping.elim
  | clear => exact htyping.elim
  | «show» => exact htyping.elim

/-- The text of the line after a key. -/
theorem LineHeld.holds_key {flag : Bool} {slot : UInt8} {es : List LineEvent} {k : Kernel}
    (h : LineHeld flag slot es k) {key : Key} (htyping : key.Typing) :
    Editor.Holds (editLine key k.enterFlag (k.lines k.terminalNumDisplay))
      (if .enter ∈ keysOf es ++ [key] then .entered (lineOf (edits flag) (keysOf es ++ [key]))
        else .typing (lineOf (edits flag) (keysOf es ++ [key]))) := by
  have hholds := h.holds
  by_cases henter : Key.enter ∈ keysOf es
  · -- the line is complete
    have hset : k.enterFlag = true := by
      rw [h.entered, decide_eq_true henter, Bool.or_true]
    rw [if_pos henter] at hholds
    rw [if_pos (List.mem_append_left _ henter), lineOf_enter _ henter, hset, hholds.stays htyping]
    exact hholds
  · have hflag : k.enterFlag = flag := by
      rw [h.entered, decide_eq_false henter, Bool.or_false]
    rw [if_neg henter] at hholds
    rw [lineOf_snoc _ henter, hflag]
    by_cases hkey : key = .enter
    · have hmem : Key.enter ∈ keysOf es ++ [key] := by simp [hkey]
      rw [if_pos hmem, if_pos hkey, hkey]
      exact hholds.enter
    · have hmem : Key.enter ∉ keysOf es ++ [key] := by simp [henter, Ne.symm hkey]
      rw [if_neg hmem, if_neg hkey]
      exact hholds.edits htyping hkey flag

/-- A call of `terminal_read` stores its return past the text. -/
theorem LineHeld.plantReturn {flag : Bool} {slot : UInt8} {es : List LineEvent} {k : Kernel}
    (h : LineHeld flag slot es k) : LineHeld flag slot (es ++ [.call]) (plantReturn k) := by
  have hedit : EditsLine
      (fun line => ⟨Function.update line.screenBuf (screenBufSize - 1) chReturn,
        line.screenBufTop⟩) k (JuddOS.plantReturn k) := .setTerminal k rfl
  have hline : (JuddOS.plantReturn k).lines (JuddOS.plantReturn k).terminalNumDisplay =
      ⟨Function.update (k.lines k.terminalNumDisplay).screenBuf (screenBufSize - 1) chReturn,
        (k.lines k.terminalNumDisplay).screenBufTop⟩ := by
    rw [hedit.lines, hedit.display, Function.update_self]
  have hfits := h.fits
  refine ⟨⟨h.keys.1, h.keys.2, h.keys.3, h.keys.4, h.keys.5, h.keys.6⟩, h.shown, ?_, ?_, ?_, ?_⟩
  · rw [keysOf_call]
    exact h.entered
  · rw [hline]
    exact hfits
  · rw [hline, keysOf_call]
    exact h.holds.congr (Line.text_update _ _ (Nat.le_sub_one_of_lt hfits))
  · have hslot : Function.update (k.lines k.terminalNumDisplay).screenBuf (screenBufSize - 1)
        chReturn (screenBufSize - 1) = chReturn := Function.update_self ..
    rw [hline, if_pos (by simp)]
    exact hslot

/-- **One event.** -/
theorem LineHeld.step {flag : Bool} {slot : UInt8} {es : List LineEvent} {k k' : Kernel}
    {e : LineEvent} (h : LineHeld flag slot es k) (hstep : LineStep k e k')
    (htyping : ∀ key, e = .key key → key.Typing) : LineHeld flag slot (es ++ [e]) k' := by
  cases hstep with
  | @key _ scan past hrun =>
      have htyping := htyping _ rfl
      have hedits := keyboardHandlerMain_lines h.keys hrun
      generalize keyOf scan past k = key at htyping hedits
      have hclear : key ≠ .clear := by
        rintro rfl
        exact htyping
      obtain ⟨hshown, hline⟩ := hedits.shown htyping.ne_switch
      refine ⟨hedits.keys, ?_, ?_, ?_, ?_, ?_⟩
      · rw [hedits.terminalNum, hshown, h.shown]
      · rw [hedits.enterFlag, Key.entered, h.entered, keysOf_key, Bool.or_assoc]
        congr 1
        rw [← Bool.decide_or]
        simp [eq_comm]
      · rw [hline]
        exact h.fits.editLine _ _
      · rw [hline, keysOf_key]
        exact h.holds_key htyping
      · rw [hline, editLine_last h.fits hclear, h.last]
        simp
  | call => exact h.plantReturn

/-- **Every sequence of events.** -/
theorem LineHeld.run {flag : Bool} {slot : UInt8} {k k' : Kernel} {es : List LineEvent}
    (h : LineHeld flag slot [] k) (hrun : Run LineStep k es k')
    (htyping : ∀ key ∈ keysOf es, key.Typing) : LineHeld flag slot es k' :=
  lineRun_invariant (LineHeld flag slot) hrun htyping h fun _ _ _ _ hheld hstep hkey =>
    hheld.step hstep hkey

/-! ## Reading the line -/

/-- `terminal_read` leaves its loop. -/
def LeavesLoop (k : Kernel) : Prop := k.enterFlag = true ∧ k.terminalNum = k.terminalNumDisplay

/-- Nothing has been typed on the displayed terminal, which is scheduled. -/
structure LineStart (k : Kernel) : Prop where
  shown : k.terminalNum = k.terminalNumDisplay
  clear : k.enterFlag = false
  empty : (k.lines k.terminalNumDisplay).screenBufTop = 0

theorem LineStart.held {k : Kernel} (h : LineStart k) (hkeys : NoKeyPending k) :
    LineHeld false ((k.lines k.terminalNumDisplay).screenBuf (screenBufSize - 1)) [] k where
  keys := hkeys
  shown := h.shown
  entered := h.clear
  fits := by
    rw [Line.Fits, h.empty]
    decide
  holds := by
    refine ⟨nofun, ?_⟩
    rw [Line.text, h.empty]
    rfl
  last := rfl

namespace LineHeld

variable {flag : Bool} {slot : UInt8} {es : List LineEvent} {k : Kernel}

/-- What ends the line: the newline of Enter, or in a full buffer whatever its last byte is. -/
def ending (text : List UInt8) (last : UInt8) : UInt8 :=
  if text.length < screenBufSize - 1 then chNewline else last

/-- Once Enter has been pressed the reader goes on, and finds the line in the buffer. -/
theorem completed (h : LineHeld flag slot es k) (henter : Key.enter ∈ keysOf es) :
    LeavesLoop k ∧ Editor.Holds (k.lines k.terminalNumDisplay)
      (.entered (lineOf (edits flag) (keysOf es))) := by
  have hholds := h.holds
  rw [if_pos henter] at hholds
  refine ⟨⟨?_, h.shown⟩, hholds⟩
  rw [h.entered, decide_eq_true henter, Bool.or_true]

theorem line_ending (h : LineHeld flag slot es k) (henter : Key.enter ∈ keysOf es) :
    (k.lines k.terminalNumDisplay).screenBuf (lineOf (edits flag) (keysOf es)).length =
      ending (lineOf (edits flag) (keysOf es)) (if .call ∈ es then chReturn else slot) := by
  obtain ⟨hlt, -, hnewline⟩ := (h.completed henter).2.bytes h.fits
  unfold ending
  split
  case isTrue hroom => exact hnewline hroom
  case isFalse hfull =>
    have hlast : (lineOf (edits flag) (keysOf es)).length = screenBufSize - 1 := by omega
    rw [hlast]
    exact h.last

/-- **What a read of at least 128 bytes delivers.** -/
theorem delivers (h : LineHeld flag slot es k) (henter : Key.enter ∈ keysOf es) (buf : Buf)
    {nbytes : Int32} (hn : 128 ≤ nbytes) :
    delivered (takeLine buf nbytes k).1 = lineOf (edits flag) (keysOf es) ++
      [ending (lineOf (edits flag) (keysOf es)) (if .call ∈ es then chReturn else slot)] := by
  have hholds := (h.completed henter).2
  obtain ⟨hlt, hchars, hnewline⟩ := hholds.bytes h.fits
  have hends : endsLine ((k.lines k.terminalNumDisplay).screenBuf
      (lineOf (edits flag) (keysOf es)).length) = true ∨
        (lineOf (edits flag) (keysOf es)).length = screenBufSize - 1 := by
    by_cases hroom : (lineOf (edits flag) (keysOf es)).length < screenBufSize - 1
    · rw [hnewline hroom]
      exact .inl rfl
    · exact .inr (by omega)
  have htake : (takeLine buf nbytes k).1 =
      copyLine (k.lines k.terminalNumDisplay).screenBuf (readLimit nbytes) 0 buf := rfl
  rw [htake, readLimit_of_le hn, copyLine_delivers buf hlt hchars hholds.1 hends,
    h.line_ending henter]

end LineHeld

/-- The terminal can be typed on until the line is read. -/
theorem TypingReady.line {k k' : Kernel} {e : LineEvent} (h : TypingReady k)
    (hstep : LineStep k e k') (hkey : ∀ key, e = .key key → key.Typing ∨ key = .clear) :
    TypingReady k' := by
  cases hstep with
  | key hrun =>
      obtain ⟨k₁, hrun₁, hready₁⟩ := h.key (hkey _ rfl)
      cases hrun₁.symm.trans hrun
      exact hready₁
  | call => exact h.plantReturn

theorem TypingReady.lines {k k' : Kernel} {es : List LineEvent} (h : TypingReady k)
    (hrun : Run LineStep k es k') (htyping : ∀ key ∈ keysOf es, key.Typing) :
    TypingReady k' :=
  lineRun_invariant (fun _ => TypingReady) hrun htyping h fun _ _ _ _ hready hstep hkey =>
    hready.line hstep fun key he => .inl (hkey key he)

theorem typingReady_of_run {fs : Image} {m : PowerOn} {es : List MachineEvent} {s : ProcState}
    (hreach : ProcState.MachineSteps fs (.boot m) es s)
    (hshown : s.kernel.terminalNum = s.kernel.terminalNumDisplay) : TypingReady s.kernel := by
  obtain ⟨hready, hcolumns⟩ := inColumns_of_run hreach
  exact ⟨hready.mapped, hcolumns, hready.keys, hshown⟩

/-- **Line editing.**  On a terminal that is scheduled and displayed, from an empty line, no key of
a line faults; and once Enter is among the keys and `terminal_read` has been called, the read
returns the line that the keys before Enter make, with a newline or, for a full line, the return,
and leaves the buffer empty. -/
theorem line_delivered {fs : Image} {m : PowerOn} {es₀ : List MachineEvent} {s : ProcState}
    (hreach : ProcState.MachineSteps fs (.boot m) es₀ s) (hstart : LineStart s.kernel)
    {es : List LineEvent} {k : Kernel} (hrun : Run LineStep s.kernel es k)
    (htyping : ∀ key ∈ keysOf es, key.Typing) :
    (∀ scan past, (keyOf scan past k).Typing →
      ∃ k', LineStep k (.key (keyOf scan past k)) k') ∧
    (.enter ∈ keysOf es → .call ∈ es → LeavesLoop k ∧ ∀ buf nbytes, 128 ≤ nbytes →
      (takeLine buf nbytes k).1.1 = (lineOf editText (keysOf es)).length + 1 ∧
      delivered (takeLine buf nbytes k).1 =
        lineOf editText (keysOf es) ++ [lineEnd (lineOf editText (keysOf es))] ∧
      ((takeLine buf nbytes k).2.lines k.terminalNumDisplay).screenBufTop = 0 ∧
      ∀ i, i < screenBufSize →
        ((takeLine buf nbytes k).2.lines k.terminalNumDisplay).screenBuf i = 0) := by
  have hready₀ := typingReady_of_run hreach hstart.shown
  have hheld := (hstart.held hready₀.keys).run hrun htyping
  constructor
  · intro scan past hkey
    obtain ⟨k', hk', -⟩ := (hready₀.lines hrun htyping).key (.inl hkey)
    exact ⟨k', .key hk'⟩
  · intro henter hcall
    refine ⟨(hheld.completed henter).1, fun buf nbytes hn => ?_⟩
    have hdelivers := hheld.delivers henter buf hn
    rw [if_pos hcall] at hdelivers
    have hlines : (takeLine buf nbytes k).2.lines k.terminalNumDisplay =
        (k.lines k.terminalNumDisplay).empty := by
      have hedit := clearbuf_lines { k with enterFlag := false }
      have hlines := congrFun hedit.lines k.terminalNumDisplay
      exact hlines.trans (Function.update_self ..)
    refine ⟨?_, hdelivers, ?_, fun i hi => ?_⟩
    · have hcount := congrArg List.length hdelivers
      rw [delivered, List.length_map, List.length_range] at hcount
      rw [hcount, List.length_append, List.length_singleton]
      rfl
    · rw [hlines]
      rfl
    · rw [hlines]
      exact if_pos hi

/-! ### A short line -/

/-- A scan code whose key the modifiers decide. -/
theorem TypingReady.exists_key {k : Kernel} (h : TypingReady k) {ctrl alt shift caps : Bool}
    (hmodifiers : k.modifiers = (ctrl, alt, shift, caps)) (scan : UInt8) (key : Key)
    (hkey : keyOf scan 0 { Kernel.zeroed .blank with
      ctrlFlag := ctrl, altFlag := alt, shiftFlag := shift, capsFlag := caps } = key)
    (htyping : key.Typing ∨ key = .clear) :
    ∃ k', LineStep k (.key key) k' ∧ TypingReady k' ∧
      k'.modifiers = modifiersAfter scan.toNat (ctrl, alt, shift, caps) := by
  have hof := keyOf_eq hmodifiers hkey
  rw [← hof] at htyping
  obtain ⟨k', hrun, hready⟩ := h.key htyping
  have hedits := keyboardHandlerMain_lines h.keys hrun
  refine ⟨k', ?_, hready, ?_⟩
  · rw [← hof]
    exact .key hrun
  · rw [hedits.modifiers, hmodifiers]

theorem lineStart_boot (m : PowerOn) : LineStart (ProcState.boot m).kernel := by
  have hbooted := booted_bootKernel m
  have hempty : ∀ t, ((bootKernel m).lines t).screenBufTop = 0 := by
    intro t
    rw [Kernel.lines, hbooted.terminalArr]
    exact Eq.refl 0
  exact ⟨hbooted.terminalNum.trans hbooted.terminalNumDisplay.symm, hbooted.idle.2, hempty _⟩

theorem plantReturn_modifiers (k : Kernel) : (plantReturn k).modifiers = k.modifiers := rfl

theorem modifiers_boot (m : PowerOn) :
    (ProcState.boot m).kernel.modifiers = (false, false, false, false) :=
  (booted_bootKernel m).idle.1

/-- A fresh machine is ready for keys. -/
theorem typingReady_boot (m : PowerOn) : TypingReady (ProcState.boot m).kernel := by
  have hreach : ProcState.MachineSteps shellImage (.boot m) [] (.boot m) := .nil _
  exact typingReady_of_run hreach (lineStart_boot m).shown

/-- The letter a, a call of `terminal_read`, Enter, and the release of Enter. -/
theorem line_delivered_letter :
    ∃ es k, keysOf es = [.char 0x61, .enter, .idle] ∧
      Run LineStep (ProcState.boot .blank).kernel es k ∧
      delivered (takeLine (fun _ => 0) 128 k).1 = [0x61, 0x0a] := by
  have hstart := lineStart_boot .blank
  have hreach : ProcState.MachineSteps shellImage (.boot .blank) [] (.boot .blank) := .nil _
  have hready := typingReady_boot .blank
  obtain ⟨k₁, hstep₁, hready₁, hmodifiers₁⟩ :=
    hready.exists_key (modifiers_boot .blank) 30 (.char 0x61) rfl (.inl (by decide))
  rw [← plantReturn_modifiers] at hmodifiers₁
  obtain ⟨k₂, hstep₂, hready₂, hmodifiers₂⟩ :=
    hready₁.plantReturn.exists_key hmodifiers₁ 28 .enter rfl (.inl trivial)
  obtain ⟨k₃, hstep₃, -, -⟩ := hready₂.exists_key hmodifiers₂ 156 .idle rfl (.inl trivial)
  have hrun := (((Run.single hstep₁).snoc (.call k₁)).snoc hstep₂).snoc hstep₃
  have hkeys : ∀ key ∈ keysOf ([.key (.char 0x61)] ++ [.call] ++ [.key .enter] ++ [.key .idle]),
      key.Typing := by decide
  have hline := line_delivered hreach hstart hrun hkeys
  obtain ⟨-, hread⟩ := hline.2 (by decide) (by decide)
  exact ⟨_, k₃, rfl, hrun, (hread (fun _ => 0) 128 (by decide)).2.1⟩

end JuddOS
