import Mathlib.Data.Nat.Init
import Mathlib.Tactic.Common

/-!
# A roll of text behind a window

Text is written on an endless sheet, row after row, and a window of `rows` rows shows the end of
it.  The position only moves forward, and the window moves down by a row when the position would
leave it.

* `Roll` carries its invariant: the position is in the window and nothing is written below it.
* `feed_window` and `feed_cursor` say what a line feed does to the window.
* `feed_window_eq_iff`: only a blank window looks the same after it has moved.
* `after_text`: what is written stays on the sheet.
-/

namespace JuddOS
namespace Support

/-- A sheet of text, the first row of the window and the position of the next character. -/
structure Roll (α : Type*) (blank : α) (rows cols : Nat) where
  text : Nat → Nat → α
  top : Nat
  row : Nat
  col : Nat
  top_le : top ≤ row
  row_lt : row < top + rows
  col_lt : col < cols
  fresh : ∀ r c, top + rows ≤ r → text r c = blank

namespace Roll

variable {α : Type*} {blank : α} {rows cols : Nat}

/-- What the window shows. -/
def window (p : Roll α blank rows cols) (y x : Nat) : α := p.text (p.top + y) x

/-- The column and the row of the position in the window. -/
def cursor (p : Roll α blank rows cols) : Nat × Nat := (p.col, p.row - p.top)

/-- The position is in the last column of the last row. -/
def AtCorner (p : Roll α blank rows cols) : Prop := p.col + 1 = cols ∧ p.row + 1 = p.top + rows

/-- The window shows nothing. -/
def Blank (p : Roll α blank rows cols) : Prop := ∀ y < rows, ∀ x < cols, p.window y x = blank

/-- The position has passed a cell. -/
def Behind (p : Roll α blank rows cols) (r c : Nat) : Prop := r < p.row ∨ r = p.row ∧ c < p.col

/-! ## Writing -/

/-- Write a character without moving on. -/
def mark (p : Roll α blank rows cols) (a : α) : Roll α blank rows cols where
  text r c := if r = p.row ∧ c = p.col then a else p.text r c
  top := p.top
  row := p.row
  col := p.col
  top_le := p.top_le
  row_lt := p.row_lt
  col_lt := p.col_lt
  fresh r c hr := by
    have hrow := p.row_lt
    rw [if_neg (by omega)]
    exact p.fresh r c hr

/-- Go to the start of the next row.  The window follows when the position would leave it. -/
def feed (p : Roll α blank rows cols) : Roll α blank rows cols where
  text := p.text
  top := if p.row + 1 < p.top + rows then p.top else p.top + 1
  row := p.row + 1
  col := 0
  top_le := by
    have htop := p.top_le
    split <;> omega
  row_lt := by
    have hrow := p.row_lt
    split <;> omega
  col_lt := Nat.zero_lt_of_lt p.col_lt
  fresh r c hr := by
    refine p.fresh r c (Nat.le_trans ?_ hr)
    split <;> omega

/-- Go to the next column, or to the next row after the last one. -/
def advance (p : Roll α blank rows cols) : Roll α blank rows cols :=
  if h : p.col + 1 < cols then { p with col := p.col + 1, col_lt := h } else p.feed

variable (breaks : α → Prop) [DecidablePred breaks]

/-- Write a character, or end the row. -/
def put (p : Roll α blank rows cols) (a : α) : Roll α blank rows cols :=
  if breaks a then p.feed else (p.mark a).advance

/-- The roll after the first `n` characters of a text. -/
def after (p : Roll α blank rows cols) (f : Nat → α) : Nat → Roll α blank rows cols
  | 0 => p
  | n + 1 => (p.after f n).put breaks (f n)

variable {breaks}

@[simp] theorem put_of_break (p : Roll α blank rows cols) {a : α} (h : breaks a) :
    p.put breaks a = p.feed := if_pos h

@[simp] theorem put_of_not_break (p : Roll α blank rows cols) {a : α} (h : ¬ breaks a) :
    p.put breaks a = (p.mark a).advance := if_neg h

/-! ## The window -/

theorem window_below (p : Roll α blank rows cols) {y : Nat} (h : rows ≤ y) (x : Nat) :
    p.window y x = blank := p.fresh _ _ (Nat.add_le_add_left h _)

/-- A character shows at the cursor. -/
theorem mark_window (p : Roll α blank rows cols) (a : α) (y x : Nat) :
    (p.mark a).window y x = if x = p.cursor.1 ∧ y = p.cursor.2 then a else p.window y x := by
  have htop := p.top_le
  have hiff : (p.top + y = p.row ∧ x = p.col) ↔ (x = p.cursor.1 ∧ y = p.cursor.2) := by
    dsimp only [cursor]
    omega
  exact if_congr hiff rfl rfl

/-- A line feed moves the window when the position is in the last row. -/
theorem feed_window (p : Roll α blank rows cols) (y x : Nat) :
    p.feed.window y x = if p.row + 1 < p.top + rows then p.window y x else p.window (y + 1) x := by
  by_cases h : p.row + 1 < p.top + rows
  · have htop : p.feed.top = p.top := if_pos h
    rw [if_pos h, window, htop]
    rfl
  · have htop : p.feed.top = p.top + 1 := if_neg h
    rw [if_neg h, window, htop, Nat.add_right_comm]
    rfl

theorem feed_cursor (p : Roll α blank rows cols) :
    p.feed.cursor = (0, min (p.cursor.2 + 1) (rows - 1)) := by
  have htop := p.top_le
  have hrow := p.row_lt
  ext
  · rfl
  · change p.row + 1 - p.feed.top = min (p.row - p.top + 1) (rows - 1)
    by_cases h : p.row + 1 < p.top + rows
    · rw [show p.feed.top = p.top from if_pos h]
      omega
    · rw [show p.feed.top = p.top + 1 from if_neg h]
      omega

theorem advance_of_lt (p : Roll α blank rows cols) (h : p.col + 1 < cols) :
    p.advance.window = p.window ∧ p.advance.cursor = (p.col + 1, p.cursor.2) := by
  rw [advance, dif_pos h]
  exact ⟨rfl, rfl⟩

theorem advance_of_last (p : Roll α blank rows cols) (h : p.col + 1 = cols) :
    p.advance = p.feed := dif_neg (by omega)

/-- Where a character leaves the cursor. -/
theorem put_cursor (p : Roll α blank rows cols) (a : α) :
    (p.put breaks a).cursor =
      if breaks a ∨ p.col + 1 = cols then (0, min (p.cursor.2 + 1) (rows - 1))
      else (p.col + 1, p.cursor.2) := by
  by_cases hbreak : breaks a
  · rw [put_of_break p hbreak, feed_cursor, if_pos (.inl hbreak)]
  rw [put_of_not_break p hbreak]
  by_cases hlast : p.col + 1 = cols
  · rw [(p.mark a).advance_of_last hlast, feed_cursor, if_pos (.inr hlast)]
    rfl
  · have hlt := p.col_lt
    have hnot : ¬ (breaks a ∨ p.col + 1 = cols) := fun h => h.elim hbreak hlast
    have hnext : (p.mark a).col + 1 < cols := Nat.lt_of_le_of_ne hlt hlast
    rw [((p.mark a).advance_of_lt hnext).2, if_neg hnot]
    rfl

/-- Away from the corner nothing moves. -/
theorem advance_window (p : Roll α blank rows cols) (h : ¬ p.AtCorner) :
    p.advance.window = p.window := by
  by_cases hcol : p.col + 1 < cols
  · exact (p.advance_of_lt hcol).1
  · have hlt := p.col_lt
    have hrow := p.row_lt
    have hlast : p.col + 1 = cols := by omega
    have hinside : p.row + 1 < p.top + rows := by
      have hne : p.row + 1 ≠ p.top + rows := fun hrow => h ⟨hlast, hrow⟩
      omega
    rw [p.advance_of_last hlast]
    funext y x
    rw [feed_window, if_pos hinside]

/-- Rows that are all the next one are all the last one. -/
theorem window_eq_of_shift {w : Nat → α} (hlast : w rows = blank)
    (hshift : ∀ y < rows, w (y + 1) = w y) {y : Nat} (hy : y ≤ rows) : w y = blank := by
  induction hy using Nat.decreasingInduction with
  | self => exact hlast
  | of_succ y hy ih => rw [← hshift y hy, ih]

/-- **Only a blank window** looks the same after it has moved. -/
theorem feed_window_eq_iff (p : Roll α blank rows cols) (h : p.row + 1 = p.top + rows) :
    (∀ y < rows, ∀ x < cols, p.feed.window y x = p.window y x) ↔ p.Blank := by
  have hmoves : ¬ p.row + 1 < p.top + rows := by omega
  constructor
  · intro hsame y hy x hx
    refine window_eq_of_shift (w := fun y => p.window y x) (p.window_below (Nat.le_refl _) x) ?_
      (Nat.le_of_lt hy)
    intro y hy
    have hcell := hsame y hy x hx
    rwa [feed_window, if_neg hmoves] at hcell
  · intro hblank y hy x hx
    rw [feed_window, if_neg hmoves, hblank y hy x hx]
    by_cases hlast : y + 1 < rows
    · exact hblank (y + 1) hlast x hx
    · exact p.window_below (by omega) x

/-! ## What is written stays -/

theorem advance_text (p : Roll α blank rows cols) : p.advance.text = p.text := by
  unfold advance
  split <;> rfl

theorem Behind.feed {p : Roll α blank rows cols} {r c : Nat} (h : p.Behind r c) :
    p.feed.Behind r c := by
  left
  change r < p.row + 1
  rcases h with h | h <;> omega

theorem Behind.advance {p : Roll α blank rows cols} {r c : Nat} (h : p.Behind r c) :
    p.advance.Behind r c := by
  by_cases hcol : p.col + 1 < cols
  · rw [Roll.advance, dif_pos hcol]
    rcases h with h | ⟨hr, hc⟩
    · exact .inl h
    · exact .inr ⟨hr, Nat.lt_succ_of_lt hc⟩
  · rw [Roll.advance, dif_neg hcol]
    exact h.feed

/-- The position passes what it writes. -/
theorem behind_advance (p : Roll α blank rows cols) : p.advance.Behind p.row p.col := by
  by_cases hcol : p.col + 1 < cols
  · rw [advance, dif_pos hcol]
    exact .inr ⟨rfl, Nat.lt_succ_self _⟩
  · rw [advance, dif_neg hcol]
    exact .inl (Nat.lt_succ_self _)

variable (breaks) in
/-- One character leaves everything behind the position alone. -/
theorem Behind.put {p : Roll α blank rows cols} {r c : Nat} (h : p.Behind r c) (a : α) :
    (p.put breaks a).Behind r c ∧ (p.put breaks a).text r c = p.text r c := by
  by_cases hbreak : breaks a
  · rw [put_of_break p hbreak]
    exact ⟨h.feed, rfl⟩
  · rw [put_of_not_break p hbreak, advance_text]
    have hmark : (p.mark a).Behind r c := h
    refine ⟨hmark.advance, if_neg ?_⟩
    rintro ⟨rfl, rfl⟩
    rcases h with h | ⟨-, h⟩ <;> exact Nat.lt_irrefl _ h

theorem put_text (p : Roll α blank rows cols) {a : α} (h : ¬ breaks a) :
    (p.put breaks a).Behind p.row p.col ∧ (p.put breaks a).text p.row p.col = a := by
  rw [put_of_not_break p h, advance_text]
  exact ⟨(p.mark a).behind_advance, if_pos ⟨rfl, rfl⟩⟩

/-- **What is written stays** where it is written, however much follows. -/
theorem after_text (p : Roll α blank rows cols) (f : Nat → α) {i n : Nat} (h : i < n)
    (hprinted : ¬ breaks (f i)) :
    (p.after breaks f n).Behind (p.after breaks f i).row (p.after breaks f i).col ∧
      (p.after breaks f n).text (p.after breaks f i).row (p.after breaks f i).col = f i := by
  induction n, h using Nat.le_induction with
  | base => exact (p.after breaks f i).put_text hprinted
  | succ n _ ih =>
      obtain ⟨hbehind, htext⟩ := ih
      obtain ⟨hbehind', htext'⟩ := hbehind.put breaks (f n)
      exact ⟨hbehind', htext'.trans htext⟩

end Roll

end Support
end JuddOS
