import JuddOS.Terminal

/-!
# What drawing leaves alone

The functions of `terminal.c` that draw change memory, the cursors, the VGA controller and the list
of the characters stored.  `Kernel.undrawn` is a kernel without these.  So there is one lemma for
each function, and whatever does not depend on a screen or a cursor is left alone by all of them.
-/

namespace JuddOS

open Support

/-- A terminal without its cursor. -/
def Terminal.undrawn (t : Terminal) : Terminal := { t with cursorX := 0, cursorY := 0 }

/-- A kernel without what drawing changes. -/
def Kernel.undrawn (k : Kernel) : Kernel :=
  { k with
    phys := fun _ => 0, screenX := 0, screenY := 0, vgaCursor := 0, charStores := []
    terminalArr := fun t => (k.terminalArr t).undrawn }

/-- Whatever can be read off the rest of the kernel is left alone. -/
theorem read_of_undrawn {α : Type} (f : Kernel → α) (hf : ∀ k, f k.undrawn = f k)
    {k k' : Kernel} (h : k'.undrawn = k.undrawn) : f k' = f k := by
  rw [← hf k', h, hf]

/-- An assignment to a cursor. -/
theorem setTerminal_undrawn (k : Kernel) (t : Tid) {f : Terminal → Terminal}
    (hf : ∀ t, (f t).undrawn = t.undrawn) : (k.setTerminal t f).undrawn = k.undrawn := by
  have hterminals : (fun u => ((k.setTerminal t f).terminalArr u).undrawn) =
      fun u => (k.terminalArr u).undrawn := by
    funext u
    by_cases hu : u = t
    · rw [hu, Kernel.setTerminal_self, hf]
    · rw [Kernel.setTerminal_of_ne k f hu]
  unfold Kernel.undrawn
  rw [hterminals]
  rfl

/-- A loop whose iterations draw. -/
theorem forRange_undrawn {body : Nat → Kernel → Option Kernel}
    (hbody : ∀ j k k', body j k = some k' → k'.undrawn = k.undrawn) {i n : Nat}
    {k k' : Kernel} (h : forRange body i n k = some k') : k'.undrawn = k.undrawn :=
  forRange_preserves (fun k' => k'.undrawn = k.undrawn)
    (fun j k₁ k₂ hk₁ hk₂ => (hbody j k₁ k₂ hk₂).trans hk₁) rfl h

variable {k k' : Kernel}

theorem pokeCell_undrawn {vidmem i : Nat} {c : UInt8} (h : pokeCell vidmem i c k = some k') :
    k'.undrawn = k.undrawn := by
  rw [pokeCell_frame h]
  rfl

theorem clear_undrawn (h : clear k = some k') : k'.undrawn = k.undrawn := by
  rw [blankCells_frame h]
  rfl

theorem scrollUp_undrawn (h : scrollUp k = some k') : k'.undrawn = k.undrawn := by
  obtain ⟨phys, rfl⟩ := scrollUp_frame h
  exact setTerminal_undrawn { k with phys := phys } _ fun _ => rfl

theorem updateCursor_undrawn {x y : Nat} (h : updateCursor x y k = some k') :
    k'.undrawn = k.undrawn := by
  unfold updateCursor at h
  generalize (if x ≥ numCols then (0, y + 1) else (x, y)) = position at h
  dsimp only at h
  split at h
  · rw [Option.bind_eq_bind, Option.bind_eq_some_iff] at h
    obtain ⟨p, hmap, hk'⟩ := h
    rw [Option.map_eq_some_iff] at hmap
    obtain ⟨k₁, hup, rfl⟩ := hmap
    cases hk'
    have hscrolled := scrollUp_undrawn hup
    exact hscrolled
  · cases h
    rfl

theorem storeChar_undrawn {t : Tid} {c : UInt8} (h : storeChar t c k = some k') :
    k'.undrawn = k.undrawn := by
  unfold storeChar at h
  have hstored := pokeCell_undrawn h
  exact hstored

theorem putcAddr_undrawn {c : UInt8} (h : putcAddr c k = some k') : k'.undrawn = k.undrawn := by
  unfold putcAddr at h
  split at h
  · cases h
    rfl
  · -- the wrapped cursor, then perhaps a scroll, then the character
    dsimp only at h
    generalize hwrap : (if (k.terminalArr k.terminalNumDisplay).cursorX = numCols then _ else k) =
      k₁ at h
    have hwrapped : k₁.undrawn = k.undrawn := by
      rw [← hwrap]
      split
      · exact setTerminal_undrawn k _ fun _ => rfl
      · rfl
    split at h
    · rw [Option.bind_eq_bind, Option.bind_eq_some_iff] at h
      obtain ⟨k₂, hscroll, hstore⟩ := h
      rw [storeChar_undrawn hstore, scrollUp_undrawn hscroll, hwrapped]
    · exact (storeChar_undrawn h).trans hwrapped

/-! ## `terminal_write` -/

theorem scrollAtEnd_undrawn (h : scrollAtEnd k = some k') : k'.undrawn = k.undrawn := by
  unfold scrollAtEnd at h
  split at h
  · exact scrollUp_undrawn h
  · cases h
    rfl

theorem wrapRow_undrawn (h : wrapRow k = some k') : k'.undrawn = k.undrawn := by
  unfold wrapRow at h
  split at h
  · exact (scrollAtEnd_undrawn h).trans (setTerminal_undrawn k _ (by intro t; rfl))
  · cases h
    rfl

theorem writeGlyph_undrawn {c : UInt8} (h : writeGlyph c k = some k') :
    k'.undrawn = k.undrawn := by
  unfold writeGlyph at h
  split at h
  · exact (scrollAtEnd_undrawn h).trans (setTerminal_undrawn k _ (by intro t; rfl))
  · rw [Option.map_eq_some_iff] at h
    obtain ⟨k₁, hstore, rfl⟩ := h
    exact (setTerminal_undrawn k₁ _ (by intro t; rfl)).trans (storeChar_undrawn hstore)

theorem clampCursor_undrawn (k : Kernel) : (clampCursor k).undrawn = k.undrawn := by
  unfold clampCursor
  dsimp only
  split <;> split
  · exact (setTerminal_undrawn _ _ (by intro t; rfl)).trans
      (setTerminal_undrawn k _ (by intro t; rfl))
  · exact setTerminal_undrawn k _ fun _ => rfl
  · exact setTerminal_undrawn k _ fun _ => rfl
  · rfl

theorem writeChar_undrawn {c : UInt8} (h : writeChar c k = some k') :
    k'.undrawn = k.undrawn := by
  rw [writeChar_eq, Option.bind_eq_some_iff] at h
  obtain ⟨k₁, hwrap, h₂⟩ := h
  rw [Option.map_eq_some_iff] at h₂
  obtain ⟨k₂, hglyph, rfl⟩ := h₂
  rw [clampCursor_undrawn, writeGlyph_undrawn hglyph, wrapRow_undrawn hwrap]

/-- **`terminal_write`** only draws. -/
theorem terminalWrite_undrawn {buf : Option Buf} {nbytes v : Int32}
    (h : terminalWrite buf nbytes k = some (v, k')) : k'.undrawn = k.undrawn := by
  unfold terminalWrite at h
  cases buf with
  | none =>
      cases h
      rfl
  | some bytes =>
      dsimp only at h
      split at h
      · cases h
        rfl
      · rw [Option.bind_eq_bind, Option.bind_eq_some_iff] at h
        obtain ⟨k₁, hloop, hrest⟩ := h
        have hlooped : k₁.undrawn = k.undrawn :=
          forRange_undrawn (fun _ _ _ hchar => writeChar_undrawn hchar) hloop
        rw [← hlooped]
        split at hrest
        · rw [Option.bind_eq_some_iff] at hrest
          obtain ⟨k₂, hcursor, hk'⟩ := hrest
          cases hk'
          exact updateCursor_undrawn hcursor
        · cases hrest
          rfl

end JuddOS
