import JuddOS.Printf
import JuddOS.Video
import JuddOS.Support.Run
import Mathlib.Data.List.DropRight

/-!
# Where `putc` writes

`putc` has its own cursor, `screen_x` and `screen_y`.  `StaysOnScreen` is what one call owes its
caller: its stores go to the screen, and the text goes on in the next column or in the next row.

* `putc_stays_iff` says when one call does this.
* `putc_staysOnScreen_iff_of_run` says which texts can be printed from the top of the screen so
  that every call does.
* `puts_run` and `printf_run`: the characters of `puts` and `printf` go through `putc`.
-/

namespace JuddOS

open Support

/-- The characters that only move the cursor. -/
def endsRow (c : UInt8) : Bool := c = chNewline ∨ c = chReturn

theorem endsRow_iff (c : UInt8) : endsRow c = true ↔ c = chNewline ∨ c = chReturn :=
  decide_eq_true_iff

/-- The addresses that `putc` stores to. -/
def putcStores (c : UInt8) (k : Kernel) : List Nat :=
  if endsRow c then []
  else
    [videoAddr + 2 * (numCols * k.screenY + k.screenX),
      videoAddr + 2 * (numCols * k.screenY + k.screenX) + 1]

/-- The row after `y`.  After the last row the text goes on in the first one, or the screen is
moved up by a row, which stores all of its cells. -/
def NextRow (stores : List Nat) (y y' : Nat) : Prop :=
  if y + 1 < numRows then y' = y + 1
  else y' = 0 ∨ y' = numRows - 1 ∧ ∀ j, j < sizeOfVidmem → videoAddr + j ∈ stores

/-- What a call of `putc` owes its caller. -/
structure StaysOnScreen (c : UInt8) (k k' : Kernel) : Prop where
  stores : ∀ a ∈ putcStores c k, videoAddr ≤ a ∧ a < videoAddr + sizeOfVidmem
  column : k'.screenX = if endsRow c ∨ k.screenX + 1 = numCols then 0 else k.screenX + 1
  row : if endsRow c ∨ k.screenX + 1 = numCols then NextRow (putcStores c k) k.screenY k'.screenY
    else k'.screenY = k.screenY

/-- The call does not need a row below the last one, nor a column behind the last one. -/
def HasRoom (c : UInt8) (k : Kernel) : Prop :=
  if endsRow c then k.screenY + 1 < numRows else k.screenX + 1 < numCols

/-- A call with the cursor on the screen does not fault. -/
theorem putc_on_screen {k : Kernel} (hvga : VgaMapped k.paging) (hx : k.screenX < numCols)
    (hy : k.screenY < numRows) (c : UInt8) :
    ∃ k', putc c k = some k' ∧ k'.paging = k.paging ∧
      k'.screenX = (if endsRow c then 0 else (k.screenX + 1) % numCols) ∧
      k'.screenY = (if endsRow c then k.screenY + 1 else k.screenY) := by
  by_cases hends : endsRow c = true
  · refine ⟨_, if_pos ((endsRow_iff c).mp hends), rfl, ?_, ?_⟩
    · rw [if_pos hends]
    · rw [if_pos hends]
  · simp only [numCols, numRows] at hx hy
    have hcell : k.paging.translate (videoAddr + 2 * (numCols * k.screenY + k.screenX)) =
        some (videoAddr + 2 * (numCols * k.screenY + k.screenX)) :=
      hvga.translate (by simp only [numCols]; omega)
    have hattrib : k.paging.translate (videoAddr + 2 * (numCols * k.screenY + k.screenX) + 1) =
        some (videoAddr + 2 * (numCols * k.screenY + k.screenX) + 1) := by
      rw [Nat.add_assoc]
      exact hvga.translate (by simp only [numCols]; omega)
    have hpoke := pokeCell_eq c hcell hattrib
    have hrow : (k.screenY + (k.screenX + 1) % 80 / 80) % 25 = k.screenY := by omega
    have hputc : putc c k = some
        { k with
          phys := cellStored k.phys videoAddr (numCols * k.screenY + k.screenX) c
          screenX := (k.screenX + 1) % numCols
          screenY := (k.screenY + (k.screenX + 1) % numCols / numCols) % numRows } := by
      rw [putc, if_neg fun h => hends ((endsRow_iff c).mpr h), hpoke]
      rfl
    refine ⟨_, hputc, rfl, ?_, ?_⟩
    · rw [if_neg hends]
    · rw [if_neg hends]
      exact hrow

/-- **One call.**  With the cursor on the screen, it does what it owes exactly when it has room. -/
theorem putc_stays_iff {k k' : Kernel} (hvga : VgaMapped k.paging) (hx : k.screenX < numCols)
    (hy : k.screenY < numRows) {c : UInt8} (h : putc c k = some k') :
    StaysOnScreen c k k' ↔ HasRoom c k := by
  obtain ⟨k₁, hputc, -, hX, hY⟩ := putc_on_screen hvga hx hy c
  rw [h, Option.some_inj] at hputc
  subst hputc
  simp only [numCols, numRows] at hx hy
  by_cases hends : endsRow c = true
  · rw [if_pos hends] at hX hY
    have hnone : putcStores c k = [] := if_pos hends
    rw [HasRoom, if_pos hends]
    constructor
    · intro hstays
      have hrow := hstays.row
      rw [if_pos (.inl hends), NextRow] at hrow
      by_contra hlast
      rw [if_neg hlast, hY] at hrow
      rcases hrow with hzero | hscroll
      · omega
      · simp only [numRows] at hlast hscroll
        omega
    · intro hroom
      refine ⟨?_, ?_, ?_⟩
      · rw [hnone]
        exact fun a ha => absurd ha List.not_mem_nil
      · rw [if_pos (.inl hends), hX]
      · rw [if_pos (.inl hends), NextRow, if_pos hroom, hY]
  · rw [if_neg hends] at hX hY
    have hstores : putcStores c k = [videoAddr + 2 * (numCols * k.screenY + k.screenX),
        videoAddr + 2 * (numCols * k.screenY + k.screenX) + 1] := if_neg hends
    rw [HasRoom, if_neg hends]
    constructor
    · intro hstays
      have hrow := hstays.row
      by_contra hlast
      have hcol : k.screenX + 1 = numCols := by
        simp only [numCols] at hlast ⊢
        omega
      rw [if_pos (.inr hcol), NextRow, hstores, hY] at hrow
      split at hrow
      · omega
      · rename_i hbottom
        simp only [numRows] at hbottom
        rcases hrow with hzero | ⟨-, hall⟩
        · omega
        · -- the call stores to one cell only
          have hfirst := hall 0 (by decide)
          have hsecond := hall 2 (by decide)
          simp only [List.mem_cons, List.not_mem_nil, or_false] at hfirst hsecond
          omega
    · intro hroom
      have hnot : ¬ (endsRow c = true ∨ k.screenX + 1 = numCols) := by
        rintro (h | h)
        · exact hends h
        · omega
      refine ⟨?_, ?_, ?_⟩
      · rw [hstores]
        intro a ha
        simp only [List.mem_cons, List.not_mem_nil, or_false, numCols] at ha
        simp only [sizeOfVidmem]
        omega
      · rw [if_neg hnot, hX, Nat.mod_eq_of_lt hroom]
      · rw [if_neg hnot, hY]

/-! ## Texts -/

/-- The row after a text from the top of the screen. -/
def rowOf (text : List UInt8) : Nat := text.countP endsRow

/-- The characters in that row. -/
def columnOf (text : List UInt8) : Nat := (text.rtakeWhile fun c => !endsRow c).length

/-- No row has more than 79 characters, and there are at most 25 rows. -/
def Fits (text : List UInt8) : Prop :=
  ∀ before, before <+: text → columnOf before < numCols ∧ rowOf before < numRows

theorem fits_snoc {text : List UInt8} {c : UInt8} :
    Fits (text ++ [c]) ↔ Fits text ∧ columnOf (text ++ [c]) < numCols ∧
      rowOf (text ++ [c]) < numRows := by
  constructor
  · intro h
    exact ⟨fun before hbefore => h before (hbefore.trans (List.prefix_append _ _)),
      h _ List.prefix_rfl⟩
  · rintro ⟨h, hlast⟩ before hbefore
    rcases List.prefix_concat_iff.mp hbefore with rfl | hinside
    · exact hlast
    · exact h before hinside

theorem rowOf_snoc (text : List UInt8) (c : UInt8) :
    rowOf (text ++ [c]) = if endsRow c then rowOf text + 1 else rowOf text := by
  rw [rowOf, List.countP_append, List.countP_singleton, rowOf]
  split <;> simp

theorem columnOf_snoc (text : List UInt8) (c : UInt8) :
    columnOf (text ++ [c]) = if endsRow c then 0 else columnOf text + 1 := by
  rw [columnOf, List.rtakeWhile_concat, columnOf]
  by_cases hends : endsRow c = true <;> simp [hends]

/-- The cursor is where the text ends. -/
structure AfterText (text : List UInt8) (k : Kernel) : Prop where
  vga : VgaMapped k.paging
  column : k.screenX = columnOf text
  row : k.screenY = rowOf text

/-- A call that does what it owes. -/
def PutcOk (k : Kernel) (c : UInt8) (k' : Kernel) : Prop :=
  putc c k = some k' ∧ StaysOnScreen c k k'

/-- There is room for a character when the text still fits with it. -/
theorem AfterText.hasRoom_iff {text : List UInt8} {k : Kernel} (h : AfterText text k)
    (hfits : Fits text) (c : UInt8) : HasRoom c k ↔ Fits (text ++ [c]) := by
  obtain ⟨hcolumn, hrow⟩ := hfits text List.prefix_rfl
  rw [fits_snoc, columnOf_snoc, rowOf_snoc, HasRoom, h.column, h.row]
  by_cases hends : endsRow c = true
  · rw [if_pos hends, if_pos hends, if_pos hends]
    exact ⟨fun hroom => ⟨hfits, by decide, hroom⟩, fun hnext => hnext.2.2⟩
  · rw [if_neg hends, if_neg hends, if_neg hends]
    exact ⟨fun hroom => ⟨hfits, hroom, hrow⟩, fun hnext => hnext.2.1⟩

/-- **One character more.** -/
theorem AfterText.putc {text : List UInt8} {k : Kernel} (h : AfterText text k)
    (hfits : Fits text) (c : UInt8) :
    ∃ k', JuddOS.putc c k = some k' ∧ (StaysOnScreen c k k' ↔ Fits (text ++ [c])) ∧
      (Fits (text ++ [c]) → AfterText (text ++ [c]) k') := by
  obtain ⟨hx, hy⟩ := hfits text List.prefix_rfl
  rw [← h.column] at hx
  rw [← h.row] at hy
  obtain ⟨k', hputc, hpaging, hX, hY⟩ := putc_on_screen h.vga hx hy c
  refine ⟨k', hputc, (putc_stays_iff h.vga hx hy hputc).trans (h.hasRoom_iff hfits c), ?_⟩
  intro hnext
  have hvga := h.vga
  rw [← hpaging] at hvga
  have hcolumn := (hnext _ List.prefix_rfl).1
  refine ⟨hvga, ?_, ?_⟩
  · rw [columnOf_snoc] at hcolumn ⊢
    rw [hX, h.column]
    split
    · rfl
    · rename_i hends
      rw [if_neg hends] at hcolumn
      exact Nat.mod_eq_of_lt hcolumn
  · rw [rowOf_snoc, hY, h.row]

section Runs

variable {k : Kernel} {text : List UInt8}

theorem afterText_nil (hvga : VgaMapped k.paging) (hx : k.screenX = 0) (hy : k.screenY = 0) :
    AfterText [] k ∧ Fits [] := by
  refine ⟨⟨hvga, hx, hy⟩, fun before hbefore => ?_⟩
  rw [List.prefix_nil.mp hbefore]
  decide

/-- A text that was printed in order fits. -/
theorem fits_of_run {k' : Kernel} (hvga : VgaMapped k.paging) (hx : k.screenX = 0)
    (hy : k.screenY = 0) (hrun : Run PutcOk k text k') : Fits text := by
  have hboth := hrun.invariant_history (fun text k => AfterText text k ∧ Fits text)
    (afterText_nil hvga hx hy) fun text k c k' hbefore hok => by
      obtain ⟨hafter, hfits⟩ := hbefore
      obtain ⟨k₁, hputc, hiff, hnext⟩ := hafter.putc hfits c
      have hsame : k' = k₁ := Option.some_inj.mp (hok.1.symm.trans hputc)
      subst hsame
      have hfits' := hiff.mp hok.2
      exact ⟨hnext hfits', hfits'⟩
  exact hboth.2

/-- A text that fits is printed in order. -/
theorem run_of_fits (hvga : VgaMapped k.paging) (hx : k.screenX = 0) (hy : k.screenY = 0)
    (hfits : Fits text) : ∃ k', Run PutcOk k text k' ∧ AfterText text k' := by
  induction text using List.reverseRecOn with
  | nil => exact ⟨k, .nil k, (afterText_nil hvga hx hy).1⟩
  | append_singleton text c ih =>
      have hbefore := (fits_snoc.mp hfits).1
      obtain ⟨k₁, hrun, hafter⟩ := ih hbefore
      obtain ⟨k', hputc, hiff, hnext⟩ := hafter.putc hbefore c
      exact ⟨k', .snoc hrun ⟨hputc, hiff.mpr hfits⟩, hnext hfits⟩

/-- **`putc` stays on the screen exactly while the text fits.**  From the top of the screen, every
call of `putc` stores to the screen and goes on in the next column or row if and only if no row gets
an 80th character and there is no 25th line end. -/
theorem putc_staysOnScreen_iff_of_run (hvga : VgaMapped k.paging) (hx : k.screenX = 0)
    (hy : k.screenY = 0) (text : List UInt8) :
    (∃ k', Run (fun a c b => putc c a = some b ∧ StaysOnScreen c a b) k text k') ↔
      ∀ before, before <+: text → columnOf before < numCols ∧ rowOf before < numRows := by
  constructor
  · rintro ⟨k', hrun⟩
    exact fits_of_run hvga hx hy hrun
  · intro hfits
    obtain ⟨k', hrun, -⟩ := run_of_fits hvga hx hy hfits
    exact ⟨k', hrun⟩

end Runs

/-! ## Kernels, and other callers -/

/-- A kernel that has set up its page tables and printed nothing yet. -/
def unprintedKernel : Kernel :=
  { Kernel.zeroed .blank with paging := initPaging (Kernel.zeroed .blank).paging }

theorem vgaMapped_unprinted : VgaMapped unprintedKernel.paging := vgaMapped_initPaging _ _

/-- Two short lines fit. -/
theorem putc_staysOnScreen_iff_of_run_lines :
    ∃ k', Run (fun a c b => putc c a = some b ∧ StaysOnScreen c a b) unprintedKernel
      [0x4a, 0x55, 0x0a, 0x44, 0x44, 0x0d] k' := by
  refine (putc_staysOnScreen_iff_of_run vgaMapped_unprinted rfl rfl _).mpr fun before hbefore => ?_
  have hall : ∀ before ∈ [0x4a, 0x55, 0x0a, 0x44, 0x44, 0x0d].inits,
      columnOf before < numCols ∧ rowOf before < numRows := by decide
  exact hall before ((List.mem_inits _ _).mpr hbefore)

/-- After 80 letters the text does not go on in the next row, and after 25 line ends a letter is
not on the screen. -/
theorem putc_leaves_screen :
    (¬ ∃ k', Run (fun a c b => putc c a = some b ∧ StaysOnScreen c a b) unprintedKernel
      (List.replicate 80 0x61) k') ∧
    ¬ ∃ k', Run (fun a c b => putc c a = some b ∧ StaysOnScreen c a b) unprintedKernel
      (List.replicate 25 chNewline ++ [0x61]) k' := by
  constructor
  · rintro ⟨k', hrun⟩
    have hfits := fits_of_run vgaMapped_unprinted rfl rfl hrun
    exact absurd (hfits _ List.prefix_rfl).1 (by decide)
  · rintro ⟨k', hrun⟩
    have hfits := fits_of_run vgaMapped_unprinted rfl rfl hrun
    exact absurd (hfits _ (List.prefix_append _ _)).2 (by decide)

/-- The calls of `putc` for a text. -/
theorem putAll_putc_iff {text : List UInt8} {k k' : Kernel} :
    putAll putc text k = some k' ↔ Run (fun a c b => putc c a = some b) k text k' := by
  constructor
  · intro h
    induction text generalizing k with
    | nil =>
        cases h
        exact .nil _
    | cons c text ih =>
        obtain ⟨k₁, hputc, hrest⟩ := Option.bind_eq_some_iff.mp h
        exact (Run.single hputc).append (ih hrest)
  · intro hrun
    refine hrun.invariant_history (fun text k' => putAll putc text k = some k') rfl ?_
    intro text k₁ c k₂ hbefore hputc
    rw [putAll_append, hbefore, Option.bind_some, putAll, hputc]
    rfl

/-- **A call of `puts` or `printf`** is a sequence of calls of `putc`. -/
theorem printf_run {format : Buf} {args : PrintfArgs} {k k' : Kernel} {n : Int32}
    (h : printf putc format args k = some (n, k')) :
    ∃ text, Run (fun a c b => putc c a = some b) k text k' := by
  obtain ⟨text, htext⟩ := printf_puts h
  exact ⟨text, putAll_putc_iff.mp htext⟩

theorem puts_run {s : Buf} {k k' : Kernel} {n : Nat} (h : puts putc s k = some (n, k')) :
    ∃ text, Run (fun a c b => putc c a = some b) k text k' := by
  obtain ⟨text, htext⟩ := putsFrom_puts h
  exact ⟨text, putAll_putc_iff.mp htext⟩

end JuddOS
