import JuddOS.Lines

/-!
# A line editor

What the line of a terminal is for, without the buffer: a text that is typed, and that Enter
completes.  `Editor` is this abstract editor and `Editor.key` what a key means for it.

* `Line.text` is the text in a line buffer; each operation on the buffer is the operation on
  texts that it should be (`text_add`, `text_drop`, `text_empty`).
* `Editor.Holds` relates the two, and `holds_editLine` says that a key keeps them related.
* `copyLine_delivers`: from a completed line the copying loop of `terminal_read` delivers the text
  and the character that ends it.
-/

namespace JuddOS

/-! ## Texts -/

namespace Line

/-- The text that has been typed. -/
def text (line : Line) : List UInt8 := (List.range line.screenBufTop).map line.screenBuf

theorem text_length (line : Line) : line.text.length = line.screenBufTop := by
  simp [text]

theorem text_getElem (line : Line) {i : Nat} (h : i < line.text.length) :
    line.text[i] = line.screenBuf i := by
  simp [text]

/-- A store past the text does not change it. -/
theorem text_update (buf : Buf) {top i : Nat} (c : UInt8) (h : top ≤ i) :
    text ⟨Function.update buf i c, top⟩ = text ⟨buf, top⟩ := by
  apply List.map_congr_left
  intro j hj
  have hlt : j < top := List.mem_range.mp hj
  exact Function.update_of_ne (by omega) ..

theorem text_add {line : Line} (h : line.screenBufTop < screenBufSize - 1) (c : UInt8) :
    (line.add c).text = line.text ++ [c] := by
  rw [add, if_pos h]
  have hlast : text ⟨Function.update line.screenBuf line.screenBufTop c, line.screenBufTop + 1⟩ =
      text ⟨Function.update line.screenBuf line.screenBufTop c, line.screenBufTop⟩ ++ [c] := by
    rw [text, text, List.range_succ, List.map_append, List.map_singleton]
    dsimp only
    rw [Function.update_self]
  rw [hlast, text_update line.screenBuf c (Nat.le_refl _)]

theorem text_drop (line : Line) : line.drop.text = line.text.dropLast := by
  rw [drop]
  split
  case isTrue htext =>
    rw [text_update line.screenBuf 0 (Nat.le_refl _)]
    obtain ⟨buf, top⟩ := line
    cases top with
    | zero => cases htext
    | succ top =>
        rw [text, text, Nat.add_sub_cancel, List.range_succ, List.map_append, List.map_singleton,
          List.dropLast_concat]
  case isFalse hempty =>
    have hnil : line.text = [] := by
      rw [← List.length_eq_zero_iff, text_length]
      omega
    rw [hnil, List.dropLast_nil]

theorem text_empty (line : Line) : line.empty.text = [] := rfl

/-- The test of `enter_press` is about the last character. -/
theorem isOpen_iff (line : Line) :
    line.isOpen = true ↔ ∀ c, line.text.getLast? = some c → endsLine c = false := by
  have hlast : ∀ top, (text ⟨line.screenBuf, top + 1⟩).getLast? = some (line.screenBuf top) := by
    intro top
    rw [text, List.range_succ, List.map_append, List.map_singleton, List.getLast?_concat]
  obtain ⟨buf, top⟩ := line
  cases top with
  | zero =>
      simp [isOpen, text]
  | succ top =>
      rw [hlast top]
      simp [isOpen, endsLine]

end Line

/-! ## The editor -/

/-- A line that is being typed, or that Enter has completed. -/
inductive Editor
  | typing (text : List UInt8)
  | entered (text : List UInt8)
  deriving DecidableEq

/-- What a key means for the line of the displayed terminal.  A completed line stays as it is. -/
def Editor.key (key : Key) : Editor → Editor
  | .typing text =>
      match key with
      | .char c =>
          if c ≠ 0 ∧ text.length < screenBufSize - 1 then .typing (text ++ [c]) else .typing text
      | .erase => .typing text.dropLast
      | .clear => .typing []
      | .enter => .entered text
      | .idle | .show | .switch _ => .typing text
  | .entered text => .entered text

/-- No character of the text ends a line. -/
def PlainText (text : List UInt8) : Prop := ∀ c ∈ text, endsLine c = false

/-- What the buffer holds.  A full line has no room for the newline. -/
def Editor.Holds (line : Line) : Editor → Prop
  | .typing text => PlainText text ∧ line.text = text
  | .entered text => PlainText text ∧
      line.text = if text.length < screenBufSize - 1 then text ++ [chNewline] else text

/-- Only the text of the buffer matters. -/
theorem Editor.Holds.congr {line line' : Line} {editor : Editor} (h : editor.Holds line)
    (htext : line'.text = line.text) : editor.Holds line' := by
  cases editor with
  | typing text => exact ⟨h.1, htext.trans h.2⟩
  | entered text => exact ⟨h.1, htext.trans h.2⟩

/-- A key that the editor understands: no control-L once the line is complete, and no character
that ends a line. -/
structure Editor.Accepts (key : Key) (entered : Bool) : Prop where
  clear : key = .clear → entered = false
  char : ∀ c, key = .char c → entered = false → endsLine c = false

theorem PlainText.isOpen {line : Line} (h : PlainText line.text) : line.isOpen = true := by
  rw [line.isOpen_iff]
  intro c hc
  exact h c (List.mem_of_getLast? hc)

/-- Enter on a line that is being typed. -/
theorem Editor.Holds.enter {line : Line} {text : List UInt8} (h : Holds line (.typing text)) :
    Holds (line.press chNewline) (.entered text) := by
  obtain ⟨hplain, htext⟩ := h
  have hopen : line.isOpen = true := by
    apply PlainText.isOpen
    rw [htext]
    exact hplain
  have hlength : text.length = line.screenBufTop := by
    rw [← htext, line.text_length]
  refine ⟨hplain, ?_⟩
  rw [Line.press, if_pos hopen, hlength]
  split
  case isTrue hroom => rw [Line.text_add hroom, htext]
  case isFalse hfull => rw [Line.add, if_neg hfull, htext]

/-- The newline closes a completed line that does not fill the buffer. -/
theorem Editor.Holds.closed {line : Line} {text : List UInt8} (h : Holds line (.entered text))
    (hroom : text.length < screenBufSize - 1) : ¬ line.isOpen = true := by
  have htext := h.2
  rw [if_pos hroom] at htext
  rw [line.isOpen_iff, htext]
  intro hopen
  have hend := hopen chNewline List.getLast?_concat
  cases hend

/-- Nothing is added to a completed line. -/
theorem Editor.Holds.press {line : Line} {text : List UInt8} (h : Holds line (.entered text))
    (c : UInt8) : line.press c = line := by
  rw [Line.press]
  by_cases hroom : text.length < screenBufSize - 1
  · rw [if_neg (h.closed hroom)]
  · -- a full line takes no newline, nor anything else
    have htext := h.2
    rw [if_neg hroom] at htext
    have hfull : ¬ line.screenBufTop < screenBufSize - 1 := by
      rw [← line.text_length, htext]
      exact hroom
    split
    · rw [Line.add, if_neg hfull]
    · rfl

/-- **A key keeps buffer and editor related**, when `enter_flag` says whether the line is
complete. -/
theorem holds_editLine {line : Line} {editor : Editor} {key : Key} {entered : Bool}
    (h : editor.Holds line) (hkey : Editor.Accepts key entered)
    (hentered : entered = true ↔ ∃ text, editor = .entered text) :
    (editor.key key).Holds (editLine key entered line) := by
  cases editor with
  | entered text =>
      have hset : entered = true := hentered.mpr ⟨text, rfl⟩
      -- While `enter_flag` is set every key but control-L is one more Enter.
      have hsame : editLine key entered line = line := by
        cases key with
        | idle => exact (if_pos hset).trans (h.press _)
        | erase => exact (if_pos hset).trans (h.press _)
        | switch index => rfl
        | clear => exact absurd (hkey.clear rfl) (by rw [hset]; exact nofun)
        | «show» => exact (if_pos hset).trans (h.press _)
        | enter => exact h.press _
        | char c => exact (if_pos hset).trans (h.press _)
      rw [hsame]
      exact h
  | typing text =>
      have hclear : ¬ entered = true := fun hset => by
        obtain ⟨text', heq⟩ := hentered.mp hset
        cases heq
      obtain ⟨hplain, htext⟩ := h
      have hlength : text.length = line.screenBufTop := by
        rw [← htext, line.text_length]
      cases key with
      | idle =>
          have hsame : editLine .idle entered line = line := if_neg hclear
          rw [hsame]
          exact ⟨hplain, htext⟩
      | erase =>
          -- Backspace on an empty text is no edit on either side.
          have hdrop : editLine .erase entered line = line.drop := if_neg hclear
          rw [hdrop]
          refine ⟨fun c hc => hplain c (List.dropLast_subset _ hc), ?_⟩
          rw [line.text_drop, htext]
      | switch index => exact ⟨hplain, htext⟩
      | clear => exact ⟨nofun, line.text_empty⟩
      | «show» =>
          have hsame : editLine .show entered line = line := if_neg hclear
          rw [hsame]
          exact ⟨hplain, htext⟩
      | enter => exact Editor.Holds.enter ⟨hplain, htext⟩
      | char c =>
          have htyped : editLine (.char c) entered line = if c ≠ 0 then line.add c else line :=
            if_neg hclear
          have hend := hkey.char c rfl (Bool.eq_false_iff.mpr hclear)
          rw [htyped, Editor.key]
          by_cases hadd : c ≠ 0 ∧ text.length < screenBufSize - 1
          · have hroom := hadd.2
            rw [hlength] at hroom
            rw [if_pos hadd, if_pos hadd.1]
            refine ⟨fun c' hc' => ?_, by rw [Line.text_add hroom, htext]⟩
            rcases List.mem_append.mp hc' with hold | hnew
            · exact hplain c' hold
            · rw [List.mem_singleton.mp hnew]
              exact hend
          · rw [if_neg hadd]
            rw [hlength] at hadd
            split
            case isTrue hascii =>
              have hfull : line.add c = line := if_neg fun hroom => hadd ⟨hascii, hroom⟩
              rw [hfull]
              exact ⟨hplain, htext⟩
            case isFalse => exact ⟨hplain, htext⟩

/-! ## Delivery -/

/-- The characters that the copying loop delivers. -/
def delivered (result : Nat × Buf) : List UInt8 := (List.range result.1).map result.2

/-- The loop delivers everything up to the first character that ends a line, or the whole buffer. -/
theorem copyLine_delivers {line : Buf} {text : List UInt8} (buf : Buf)
    (hlength : text.length < screenBufSize)
    (htext : ∀ i (h : i < text.length), line i = text[i]) (hplain : PlainText text)
    (hend : endsLine (line text.length) = true ∨ text.length = screenBufSize - 1) :
    delivered (copyLine line screenBufSize 0 buf) = text ++ [line text.length] := by
  have hcopied := copyLine_spec line screenBufSize 0 buf
  generalize copyLine line screenBufSize 0 buf = result at hcopied
  have hle := hcopied.le
  have hinside : ∀ i, i < text.length → endsLine (line i) = false := by
    intro i hi
    rw [htext i hi]
    exact hplain _ (List.getElem_mem hi)
  -- The loop stops right after the character that ends the line.
  have hcount : result.1 = text.length + 1 := by
    rcases Nat.lt_trichotomy result.1 (text.length + 1) with hlt | heq | hgt
    · obtain ⟨j, -, hj, hstop⟩ := hcopied.stops (by omega)
      rw [hinside j (by omega)] at hstop
      cases hstop
    · exact heq
    · rcases hend with hend | hfull
      · have hgoes := hcopied.goes_on text.length (Nat.zero_le _) hgt
        rw [hend] at hgoes
        cases hgoes
      · omega
  rw [delivered, hcount]
  apply List.ext_getElem
  · simp
  · intro i hi hi'
    simp only [List.length_map, List.length_range] at hi
    rw [List.getElem_map, List.getElem_range, hcopied.copied i (Nat.zero_le _) (by omega)]
    by_cases hlast : i < text.length
    · rw [htext i hlast, List.getElem_append_left hlast]
    · have hi'' : i = text.length := by omega
      subst hi''
      simp

/-- What ends a completed line: the newline, or in a full buffer the return that `terminal_read`
has put there. -/
def lineEnd (text : List UInt8) : UInt8 :=
  if text.length < screenBufSize - 1 then chNewline else chReturn

/-- The bytes of a completed line: the text, and the newline unless the text fills the buffer. -/
theorem Editor.Holds.bytes {line : Line} {text : List UInt8} (h : Holds line (.entered text))
    (hfits : line.Fits) : text.length < screenBufSize ∧
      (∀ i (hi : i < text.length), line.screenBuf i = text[i]) ∧
      (text.length < screenBufSize - 1 → line.screenBuf text.length = chNewline) := by
  obtain ⟨-, htext⟩ := h
  have hlength := line.text_length
  have hbuf : ∀ i (hi : i < line.text.length), line.screenBuf i = line.text[i] :=
    fun i hi => (line.text_getElem hi).symm
  unfold Line.Fits at hfits
  by_cases hroom : text.length < screenBufSize - 1
  · rw [if_pos hroom] at htext
    refine ⟨Nat.lt_of_lt_of_le hroom (Nat.sub_le _ _), fun i hi => ?_, fun _ => ?_⟩
    · rw [hbuf i (by rw [htext, List.length_append]; omega)]
      simp [htext, hi]
    · rw [hbuf text.length (by simp [htext])]
      simp [htext]
  · rw [if_neg hroom] at htext
    refine ⟨by rw [← htext, hlength]; exact hfits, fun i hi => ?_, fun hlt => absurd hlt hroom⟩
    rw [hbuf i (by rw [htext]; exact hi)]
    simp [htext]

/-- **A completed line is delivered** with the character that ends it. -/
theorem Editor.Holds.delivers {line : Line} {text : List UInt8}
    (h : Holds line (.entered text)) (hfits : line.Fits)
    (hreturn : line.isOpen = true → line.screenBuf (screenBufSize - 1) = chReturn) (buf : Buf) :
    delivered (copyLine line.screenBuf screenBufSize 0 buf) = text ++ [lineEnd text] := by
  obtain ⟨hlt, hchars, hnewline⟩ := h.bytes hfits
  obtain ⟨hplain, htext⟩ := h
  have hend : line.screenBuf text.length = lineEnd text := by
    unfold lineEnd
    split
    case isTrue hroom => exact hnewline hroom
    case isFalse hfull =>
      -- The newline did not fit: the return in the last byte ends the line.
      have hlast : text.length = screenBufSize - 1 := by omega
      rw [if_neg hfull] at htext
      rw [hlast]
      apply hreturn
      apply PlainText.isOpen
      rw [htext]
      exact hplain
  have hends : endsLine (line.screenBuf text.length) = true := by
    rw [hend, lineEnd]
    split <;> rfl
  rw [copyLine_delivers buf hlt hchars hplain (.inl hends), hend]

end JuddOS
