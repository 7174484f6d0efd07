import JuddOS.KeyEvents
import JuddOS.Screens

/-!
# What a key does to the terminals

One specification lemma for each function that a key can reach, for a kernel whose video
pages are mapped (`VideoMapped`).

* `Keeps` is what every one of them leaves alone, and where characters are stored.
* `OnlyTerminal d` says that nothing of the other two terminals changes.

The functions work on the displayed terminal, but they scroll with `scroll_up`, which works on
the scheduled one.  The two conditions under which that happens are `FillsScreen` and
`ErasesHome`.
-/

namespace JuddOS

open Support

/-- A store of two bytes at this offset is on the screen. -/
def InsideScreen (offset : Nat) : Prop := offset + 1 < sizeOfVidmem

/-- What no key but a switch changes, and the new character stores. -/
structure Keeps (k k' : Kernel) : Prop where
  paging : k'.paging = k.paging
  terminalNum : k'.terminalNum = k.terminalNum
  display : k'.terminalNumDisplay = k.terminalNumDisplay
  vidmem : ∀ t, (k'.terminalArr t).vidmemAddr = (k.terminalArr t).vidmemAddr
  stores : ∀ e ∈ k'.charStores, e ∈ k.charStores ∨ InsideScreen e.2

/-- The other two terminals and their screens are as before. -/
structure OnlyTerminal (d : Tid) (k k' : Kernel) : Prop where
  terminal : ∀ t, t ≠ d → k'.terminalArr t = k.terminalArr t
  screen : ∀ t, t ≠ d → ∀ j, j < sizeOfVidmem →
    k'.phys (videoPage k.terminalNumDisplay t + j) = k.phys (videoPage k.terminalNumDisplay t + j)

section Relations

variable {k k₁ k₂ : Kernel} {d : Tid}

theorem Keeps.refl (k : Kernel) : Keeps k k := ⟨rfl, rfl, rfl, fun _ => rfl, fun _ h => .inl h⟩

theorem Keeps.trans (h : Keeps k k₁) (h' : Keeps k₁ k₂) : Keeps k k₂ where
  paging := h'.paging.trans h.paging
  terminalNum := h'.terminalNum.trans h.terminalNum
  display := h'.display.trans h.display
  vidmem t := (h'.vidmem t).trans (h.vidmem t)
  stores e he := (h'.stores e he).elim (h.stores e) .inr

theorem Keeps.mapped (h : Keeps k k₁) (hmapped : VideoMapped k) : VideoMapped k₁ where
  vidmem t := (h.vidmem t).trans (hmapped.vidmem t)
  vga := by
    rw [h.paging]
    exact hmapped.vga
  screens := by
    rw [h.paging, h.display]
    exact hmapped.screens

theorem OnlyTerminal.refl (d : Tid) (k : Kernel) : OnlyTerminal d k k :=
  ⟨fun _ _ => rfl, fun _ _ _ _ => rfl⟩

theorem OnlyTerminal.trans (h : OnlyTerminal d k k₁) (h' : OnlyTerminal d k₁ k₂)
    (hkeeps : Keeps k k₁) : OnlyTerminal d k k₂ where
  terminal t ht := (h'.terminal t ht).trans (h.terminal t ht)
  screen t ht j hj := by
    have hlast := h'.screen t ht j hj
    rw [hkeeps.display] at hlast
    exact hlast.trans (h.screen t ht j hj)

end Relations

/-- The two kernels differ in nothing that the terminals and the screens depend on. -/
structure SameConsole (k k₁ : Kernel) : Prop where
  paging : k₁.paging = k.paging
  phys : k₁.phys = k.phys
  terminalArr : k₁.terminalArr = k.terminalArr
  terminalNum : k₁.terminalNum = k.terminalNum
  display : k₁.terminalNumDisplay = k.terminalNumDisplay
  charStores : k₁.charStores = k.charStores

namespace SameConsole

variable {k k₁ k₂ : Kernel}

theorem symm (h : SameConsole k k₁) : SameConsole k₁ k :=
  ⟨h.1.symm, h.2.symm, h.3.symm, h.4.symm, h.5.symm, h.6.symm⟩

theorem trans (h : SameConsole k k₁) (h' : SameConsole k₁ k₂) : SameConsole k k₂ :=
  ⟨h'.1.trans h.1, h'.2.trans h.2, h'.3.trans h.3, h'.4.trans h.4, h'.5.trans h.5, h'.6.trans h.6⟩

theorem mapped (h : SameConsole k k₁) (hmapped : VideoMapped k) : VideoMapped k₁ where
  vidmem t := by
    rw [h.terminalArr]
    exact hmapped.vidmem t
  vga := by
    rw [h.paging]
    exact hmapped.vga
  screens := by
    rw [h.paging, h.display]
    exact hmapped.screens

/-- Whatever was kept before an assignment of this kind is kept after it. -/
theorem keeps_after (h : SameConsole k₁ k₂) (hkeeps : Keeps k k₁) : Keeps k k₂ where
  paging := h.paging.trans hkeeps.paging
  terminalNum := h.terminalNum.trans hkeeps.terminalNum
  display := h.display.trans hkeeps.display
  vidmem t := by
    rw [h.terminalArr]
    exact hkeeps.vidmem t
  stores e he := by
    rw [h.charStores] at he
    exact hkeeps.stores e he

theorem only_after (h : SameConsole k₁ k₂) {d : Tid} (honly : OnlyTerminal d k k₁) :
    OnlyTerminal d k k₂ where
  terminal t ht := by
    rw [h.terminalArr]
    exact honly.terminal t ht
  screen t ht j hj := by
    rw [h.phys]
    exact honly.screen t ht j hj

end SameConsole

theorem sameConsole_refl (k : Kernel) : SameConsole k k := ⟨rfl, rfl, rfl, rfl, rfl, rfl⟩

theorem sameConsole_vgaCursor (k : Kernel) (n : Nat) : SameConsole k { k with vgaCursor := n } :=
  ⟨rfl, rfl, rfl, rfl, rfl, rfl⟩

/-! ## Single assignments -/

section Assignments

variable {k : Kernel}

/-- An assignment to a terminal. -/
theorem keeps_setTerminal (k : Kernel) (d : Tid) {f : Terminal → Terminal}
    (hf : ∀ t, (f t).vidmemAddr = t.vidmemAddr) : Keeps k (k.setTerminal d f) where
  paging := rfl
  terminalNum := rfl
  display := rfl
  vidmem t := by
    rcases eq_or_ne t d with rfl | ht
    · rw [Kernel.setTerminal_self, hf]
    · rw [Kernel.setTerminal_of_ne k f ht]
  stores _ h := .inl h

theorem onlyTerminal_setTerminal (k : Kernel) (d : Tid) (f : Terminal → Terminal) :
    OnlyTerminal d k (k.setTerminal d f) :=
  ⟨fun _ ht => k.setTerminal_of_ne f ht, fun _ _ _ _ => rfl⟩

/-- The bytes of a screen stay inside its page. -/
theorem onlyTerminal_of_phys (k : Kernel) (d : Tid) (phys : Buf)
    (h : ∀ a, a < videoPage k.terminalNumDisplay d ∨
      videoPage k.terminalNumDisplay d + 4096 ≤ a → phys a = k.phys a) :
    OnlyTerminal d k { k with phys := phys } where
  terminal _ _ := rfl
  screen t ht j hj := by
    refine h _ ?_
    have hapart := videoPage_apart k.terminalNumDisplay t d ht
    simp only [sizeOfVidmem] at hj
    omega

/-- Scrolling stays inside the screen. -/
theorem scrolledCells_outside (phys : Buf) {base a : Nat} (h : a < base ∨ base + 4000 ≤ a) :
    scrolledCells phys base a = phys a := by
  rw [scrolledCells, blankedCells, if_neg (by simp only [numRows, numCols]; omega), raisedCells,
    if_neg (by simp only [numRows, numCols]; omega)]

/-- `scroll_up` concerns the scheduled terminal only. -/
theorem scrollUp_spec (h : VideoMapped k) :
    ∃ k', scrollUp k = some k' ∧ Keeps k k' ∧ OnlyTerminal k.terminalNum k k' ∧
      k'.terminalArr k.terminalNum =
        { k.terminalArr k.terminalNum with cursorY := numRows - 1, cursorX := 0 } := by
  have hphys := onlyTerminal_of_phys k k.terminalNum
    (scrolledCells k.phys (videoPage k.terminalNumDisplay k.terminalNum))
    fun a ha => scrolledCells_outside _ (by omega)
  have hset := onlyTerminal_setTerminal
    { k with phys := scrolledCells k.phys (videoPage k.terminalNumDisplay k.terminalNum) }
    k.terminalNum fun t => { t with cursorY := numRows - 1, cursorX := 0 }
  have hkeeps := keeps_setTerminal
    { k with phys := scrolledCells k.phys (videoPage k.terminalNumDisplay k.terminalNum) }
    k.terminalNum (f := fun t => { t with cursorY := numRows - 1, cursorX := 0 }) fun _ => rfl
  have hkeeps' : Keeps k
      { k with phys := scrolledCells k.phys (videoPage k.terminalNumDisplay k.terminalNum) } :=
    ⟨rfl, rfl, rfl, fun _ => rfl, fun _ he => .inl he⟩
  exact ⟨_, h.scrollUp_eq, hkeeps'.trans hkeeps, hphys.trans hset hkeeps',
    Kernel.setTerminal_self _ _ _⟩

/-- `update_cursor` scrolls the scheduled terminal when the row is below the screen. -/
theorem updateCursor_spec (h : VideoMapped k) {x : Nat} (hx : x < numCols) (y : Nat) :
    ∃ k', updateCursor x y k = some k' ∧ Keeps k k' ∧
      (y < numRows → k'.terminalArr = k.terminalArr ∧ k'.phys = k.phys) ∧
      (numRows ≤ y → OnlyTerminal k.terminalNum k k' ∧
        k'.terminalArr k.terminalNum =
          { k.terminalArr k.terminalNum with cursorY := numRows - 1, cursorX := 0 }) := by
  rcases Nat.lt_or_ge y numRows with hy | hy
  · exact ⟨_, updateCursor_inside hx hy k, ⟨rfl, rfl, rfl, fun _ => rfl, fun _ he => .inl he⟩,
      fun _ => ⟨rfl, rfl⟩, fun hge => absurd hy (Nat.not_lt.mpr hge)⟩
  · obtain ⟨k', hscroll, hkeeps, honly, hself⟩ := scrollUp_spec h
    have hsame := sameConsole_vgaCursor k' (((numRows - 1) * numCols + x) % 2 ^ 16)
    refine ⟨_, ?_, hsame.keeps_after hkeeps, fun hlt => absurd hlt (Nat.not_lt.mpr hy),
      fun _ => ⟨hsame.only_after honly, hself⟩⟩
    rw [updateCursor_below hx hy, hscroll, Option.map_some]

/-- A character at a cursor on the screen. -/
theorem storeChar_spec (h : VideoMapped k) {t : Tid} (ht : OnScreen (k.terminalArr t)) (c : UInt8) :
    ∃ k', storeChar t c k = some k' ∧ Keeps k k' ∧ OnlyTerminal t k k' ∧
      k'.terminalArr = k.terminalArr := by
  have hcell := ht.cell_lt
  have hphys := onlyTerminal_of_phys k t
    (cellStored k.phys (videoPage k.terminalNumDisplay t)
      (numCols * (k.terminalArr t).cursorY + (k.terminalArr t).cursorX) c) fun a ha => by
    rw [cellStored, Function.update_of_ne (by omega), Function.update_of_ne (by omega)]
  refine ⟨_, h.storeChar_eq t c (by omega), ⟨rfl, rfl, rfl, fun _ => rfl, ?_⟩,
    ⟨hphys.1, hphys.2⟩, rfl⟩
  intro e he
  rcases List.mem_cons.mp he with rfl | he
  · refine .inr ?_
    simp only [InsideScreen, sizeOfVidmem]
    omega
  · exact .inl he

/-- `putc_addr` at a cursor on the screen does not scroll. -/
theorem putcAddr_spec (h : VideoMapped k) (hd : OnScreen (k.terminalArr k.terminalNumDisplay))
    (c : UInt8) :
    ∃ k', putcAddr c k = some k' ∧ Keeps k k' ∧ OnlyTerminal k.terminalNumDisplay k k' ∧
      k'.terminalArr = k.terminalArr := by
  unfold putcAddr
  split
  · exact ⟨k, rfl, .refl k, .refl _ k, rfl⟩
  · have hx := Nat.ne_of_lt hd.cursorX
    have hy := Nat.not_le_of_lt hd.cursorY
    simp only [hx, hy, if_false]
    exact storeChar_spec h hd c

end Assignments

/-! ## Moving the cursor -/

/-- The displayed terminal `d` gets the cursor `(x, y)`, after which `update_cursor` is called with
it.  A row below the screen is put right when `d` is scheduled; otherwise it stays, and the
scheduled terminal is scrolled. -/
structure CursorMoved (d : Tid) (x y : Nat) (k k' : Kernel) : Prop where
  keeps : Keeps k k'
  inside : y < numRows → OnlyTerminal d k k' ∧ (k'.terminalArr d).cursorX = x ∧
    (k'.terminalArr d).cursorY = y
  own : numRows ≤ y → d = k.terminalNum → OnlyTerminal d k k' ∧ OnScreen (k'.terminalArr d)
  other : numRows ≤ y → d ≠ k.terminalNum →
    ((k'.terminalArr d).cursorX = x ∧ (k'.terminalArr d).cursorY = y) ∧
      ((k'.terminalArr k.terminalNum).cursorX = 0 ∧
        (k'.terminalArr k.terminalNum).cursorY = numRows - 1) ∧
      ∀ t, t ≠ d → t ≠ k.terminalNum → k'.terminalArr t = k.terminalArr t

theorem moveCursor_spec {k : Kernel} (h : VideoMapped k) (d : Tid) {x y : Nat} (hx : x < numCols)
    {f : Terminal → Terminal} (hf : ∀ t, (f t).vidmemAddr = t.vidmemAddr)
    (hfx : (f (k.terminalArr d)).cursorX = x) (hfy : (f (k.terminalArr d)).cursorY = y) :
    ∃ k', updateCursorOf d (k.setTerminal d f) = some k' ∧ CursorMoved d x y k k' := by
  rw [updateCursorOf, Kernel.setTerminal_self, hfx, hfy]
  have hset := keeps_setTerminal k d hf
  have honly := onlyTerminal_setTerminal k d f
  obtain ⟨k', hupdate, hkeeps, hinside, hbelow⟩ := updateCursor_spec (hset.mapped h) hx y
  refine ⟨k', hupdate, hset.trans hkeeps, fun hy => ?_, fun hy hd => ?_, fun hy hd => ?_⟩
  · obtain ⟨hterm, hphys⟩ := hinside hy
    rw [hterm, Kernel.setTerminal_self]
    refine ⟨⟨fun t ht => ?_, fun t ht j hj => ?_⟩, hfx, hfy⟩
    · rw [hterm]
      exact honly.terminal t ht
    · rw [hphys]
      rfl
  · obtain ⟨hscroll, hself⟩ := hbelow hy
    rw [hset.terminalNum, ← hd] at hscroll hself
    refine ⟨honly.trans hscroll hset, ?_⟩
    rw [hself]
    exact ⟨show 0 < numCols by decide, show numRows - 1 < numRows by decide⟩
  · obtain ⟨hscroll, hself⟩ := hbelow hy
    rw [hset.terminalNum] at hscroll hself
    refine ⟨?_, ?_, fun t ht hts => ?_⟩
    · rw [hscroll.terminal d hd, Kernel.setTerminal_self]
      exact ⟨hfx, hfy⟩
    · rw [hself]
      exact ⟨rfl, rfl⟩
    · exact (hscroll.terminal t hts).trans (honly.terminal t ht)

/-! ## Characters -/

/-- The next character fills the last cell of the displayed screen. -/
structure FillsScreen (k : Kernel) : Prop where
  room : (k.terminalArr k.terminalNumDisplay).screenBufTop < screenBufSize - 1
  cursorX : (k.terminalArr k.terminalNumDisplay).cursorX = numCols - 1
  cursorY : (k.terminalArr k.terminalNumDisplay).cursorY = numRows - 1

/-- What `add2buf` does to the terminals. -/
structure CharAdded (k k' : Kernel) : Prop where
  keeps : Keeps k k'
  isolated : k.terminalNum = k.terminalNumDisplay ∨ ¬ FillsScreen k →
    OnlyTerminal k.terminalNumDisplay k k' ∧ OnScreen (k'.terminalArr k.terminalNumDisplay)
  leaks : k.terminalNum ≠ k.terminalNumDisplay → FillsScreen k →
    ((k'.terminalArr k.terminalNumDisplay).cursorX = 0 ∧
        (k'.terminalArr k.terminalNumDisplay).cursorY = numRows) ∧
      ((k'.terminalArr k.terminalNum).cursorX = 0 ∧
        (k'.terminalArr k.terminalNum).cursorY = numRows - 1) ∧
      ∀ t, t ≠ k.terminalNumDisplay → t ≠ k.terminalNum → k'.terminalArr t = k.terminalArr t

/-- The cursor after a character that was not the last one of the screen, or was. -/
theorem CharAdded.of_moved {k k₁ k' : Kernel} {x y : Nat} (hkeeps : Keeps k k₁)
    (honly : OnlyTerminal k.terminalNumDisplay k k₁)
    (hmoved : CursorMoved k.terminalNumDisplay x y k₁ k') (hx : x < numCols)
    (hinside : ¬ FillsScreen k → y < numRows) (hfills : FillsScreen k → x = 0 ∧ y = numRows) :
    CharAdded k k' where
  keeps := hkeeps.trans hmoved.keeps
  isolated h := by
    rcases Nat.lt_or_ge y numRows with hy | hy
    · obtain ⟨honly', hx', hy'⟩ := hmoved.inside hy
      exact ⟨honly.trans honly' hkeeps, by rwa [hx'], by rwa [hy']⟩
    · have hown : k.terminalNumDisplay = k₁.terminalNum := by
        rw [hkeeps.terminalNum]
        exact (h.resolve_right fun hnot => absurd (hinside hnot) (Nat.not_lt.mpr hy)).symm
      obtain ⟨honly', hscreen⟩ := hmoved.own hy hown
      exact ⟨honly.trans honly' hkeeps, hscreen⟩
  leaks hne hfill := by
    obtain ⟨rfl, rfl⟩ := hfills hfill
    rw [← hkeeps.terminalNum] at hne
    obtain ⟨hself, hscrolled, hrest⟩ := hmoved.other (Nat.le_refl _) hne.symm
    rw [hkeeps.terminalNum] at hscrolled hrest
    exact ⟨hself, hscrolled, fun t ht hts => (hrest t ht hts).trans (honly.terminal t ht)⟩

theorem add2buf_spec {k : Kernel} (h : VideoMapped k)
    (hd : OnScreen (k.terminalArr k.terminalNumDisplay)) (c : UInt8) :
    ∃ k', add2buf c k = some k' ∧ CharAdded k k' := by
  obtain ⟨hx, hy⟩ := hd
  rw [add2buf]
  split
  -- A full line takes no character, and the cursor stays.
  case isFalse hfull =>
    exact ⟨k, rfl, .refl k, fun _ => ⟨.refl _ k, hx, hy⟩, fun _ hfills =>
      absurd hfills.room hfull⟩
  case isTrue hroom =>
    obtain ⟨k₁, hput, hkeeps₁, honly₁, hterm₁⟩ := putcAddr_spec h ⟨hx, hy⟩ c
    have hkeeps₂ := hkeeps₁.trans
      (keeps_setTerminal k₁ k.terminalNumDisplay (f := appendToLine c) fun _ => rfl)
    have honly₂ := honly₁.trans
      (onlyTerminal_setTerminal k₁ k.terminalNumDisplay (appendToLine c)) hkeeps₁
    have hself : (k₁.setTerminal k.terminalNumDisplay (appendToLine c)).terminalArr
        k.terminalNumDisplay = appendToLine c (k.terminalArr k.terminalNumDisplay) := by
      rw [Kernel.setTerminal_self, hterm₁]
    rw [hput, Option.bind_eq_bind, Option.bind_some]
    dsimp only
    generalize k₁.setTerminal k.terminalNumDisplay (appendToLine c) = k₂ at *
    have hmapped₂ := hkeeps₂.mapped h
    have hselfX : (k₂.terminalArr k.terminalNumDisplay).cursorX =
        (k.terminalArr k.terminalNumDisplay).cursorX := by rw [hself]; rfl
    have hselfY : (k₂.terminalArr k.terminalNumDisplay).cursorY =
        (k.terminalArr k.terminalNumDisplay).cursorY := by rw [hself]; rfl
    rw [hselfX]
    simp only [numCols, numRows] at hx hy
    split
    case isTrue hlt =>
      simp only [numCols] at hlt
      obtain ⟨k', hupdate, hmoved⟩ := moveCursor_spec hmapped₂ k.terminalNumDisplay
        (x := (k.terminalArr k.terminalNumDisplay).cursorX + 1)
        (y := (k.terminalArr k.terminalNumDisplay).cursorY)
        (f := fun t => { t with cursorX := t.cursorX + 1 })
        (by simp only [numCols]; omega) (fun _ => rfl) (by rw [hselfX]) hselfY
      refine ⟨k', hupdate, .of_moved hkeeps₂ honly₂ hmoved (by simp only [numCols]; omega)
        (fun _ => hy) fun hfills => ?_⟩
      have hlast := hfills.cursorX
      simp only [numCols] at hlast
      omega
    case isFalse hge =>
      simp only [numCols] at hge
      -- The end of the row: the next one may be below the screen.
      obtain ⟨k', hupdate, hmoved⟩ := moveCursor_spec hmapped₂ k.terminalNumDisplay
        (x := 0) (y := (k.terminalArr k.terminalNumDisplay).cursorY + 1)
        (f := fun t => { t with cursorX := 0, cursorY := (t.cursorY + 1) % 256 })
        (show 0 < numCols by decide) (fun _ => rfl) rfl (by dsimp only; rw [hselfY]; omega)
      refine ⟨k', hupdate, .of_moved hkeeps₂ honly₂ hmoved (show 0 < numCols by decide)
        (fun hnot => ?_) fun hfills => ⟨rfl, ?_⟩⟩
      · by_contra hlow
        refine hnot ⟨hroom, ?_, ?_⟩ <;> simp only [numCols, numRows] at hlow ⊢ <;> omega
      · have hlast := hfills.cursorY
        simp only [numRows] at hlast ⊢
        omega

/-! ## Enter -/

/-- `enter_press` adds the character: the line does not end with a newline yet. -/
def LineOpen (k : Kernel) : Prop :=
  let t := k.terminalArr k.terminalNumDisplay
  t.screenBufTop = 0 ∨
    (t.screenBuf (t.screenBufTop - 1) ≠ chNewline ∧ t.screenBuf (t.screenBufTop - 1) ≠ chReturn)

instance (k : Kernel) : Decidable (LineOpen k) := inferInstanceAs (Decidable (_ ∨ _))

/-- What `enter_press` does to the terminals. -/
structure EnterPressed (k k' : Kernel) : Prop where
  keeps : Keeps k k'
  shown : OnScreen (k'.terminalArr k.terminalNumDisplay)
  others : ∀ t, t ≠ k.terminalNumDisplay → OnScreen (k.terminalArr t) → OnScreen (k'.terminalArr t)
  isolated : k.terminalNum = k.terminalNumDisplay ∨ ¬ (LineOpen k ∧ FillsScreen k) →
    OnlyTerminal k.terminalNumDisplay k k'

theorem CharAdded.others {k k' : Kernel} (h : CharAdded k k') {t : Tid}
    (ht : t ≠ k.terminalNumDisplay) (hscreen : OnScreen (k.terminalArr t)) :
    OnScreen (k'.terminalArr t) := by
  by_cases hleak : k.terminalNum ≠ k.terminalNumDisplay ∧ FillsScreen k
  · obtain ⟨-, hscrolled, hrest⟩ := h.leaks hleak.1 hleak.2
    rcases eq_or_ne t k.terminalNum with rfl | hts
    · rw [OnScreen.iff, hscrolled.1, hscrolled.2]
      decide
    · rw [hrest t ht hts]
      exact hscreen
  · have hsafe : k.terminalNum = k.terminalNumDisplay ∨ ¬ FillsScreen k := by
      rw [not_and_or, not_not] at hleak
      exact hleak
    rw [(h.isolated hsafe).1.terminal t ht]
    exact hscreen

/-- The newline of `enter_press` on `video_mem`, which shows the displayed terminal. -/
theorem scrollVideo_spec {k : Kernel} (h : VideoMapped k) :
    ∃ k', scrollCells videoAddr k = some k' ∧ Keeps k k' ∧
      OnlyTerminal k.terminalNumDisplay k k' ∧ k'.terminalArr = k.terminalArr := by
  have hscroll : scrollCells videoAddr k =
      some { k with phys := scrolledCells k.phys videoAddr } :=
    scrollCells_eq fun j hj => h.vga.translate (by simp only [sizeOfVidmem] at hj; omega)
  have hphys := onlyTerminal_of_phys k k.terminalNumDisplay (scrolledCells k.phys videoAddr)
    fun a ha => by
      rw [videoPage_self] at ha
      exact scrolledCells_outside _ (by omega)
  exact ⟨_, hscroll, ⟨rfl, rfl, rfl, fun _ => rfl, fun _ he => .inl he⟩, ⟨hphys.1, hphys.2⟩, rfl⟩

theorem enterPress_spec {k : Kernel} (h : VideoMapped k)
    (hd : OnScreen (k.terminalArr k.terminalNumDisplay)) (c : UInt8) :
    ∃ k', enterPress c k = some k' ∧ EnterPressed k k' := by
  rw [enterPress]
  dsimp only
  split
  case isFalse hclosed =>
    exact ⟨k, rfl, .refl k, hd, fun _ _ ht => ht, fun _ => .refl _ k⟩
  case isTrue hopen =>
    -- The newline is added first, and only then is the row brought back.
    obtain ⟨k₁, hadd, hadded⟩ := add2buf_spec h hd c
    have hkeeps₂ := hadded.keeps.trans (keeps_setTerminal k₁ k.terminalNumDisplay
      (f := fun t => { t with cursorX := 0, cursorY := (t.cursorY + 1) % 256 }) fun _ => rfl)
    have honly₂ := onlyTerminal_setTerminal k₁ k.terminalNumDisplay
      fun t => { t with cursorX := 0, cursorY := (t.cursorY + 1) % 256 }
    have hX : ((k₁.setTerminal k.terminalNumDisplay fun t =>
        { t with cursorX := 0, cursorY := (t.cursorY + 1) % 256 }).terminalArr
          k.terminalNumDisplay).cursorX = 0 := by
      rw [Kernel.setTerminal_self]
    rw [hadd, Option.bind_eq_bind, Option.bind_some]
    generalize (k₁.setTerminal k.terminalNumDisplay fun t =>
      { t with cursorX := 0, cursorY := (t.cursorY + 1) % 256 }) = k₂ at *
    have hothers : ∀ t, t ≠ k.terminalNumDisplay → OnScreen (k.terminalArr t) →
        OnScreen (k₂.terminalArr t) := fun t ht hscreen => by
      rw [honly₂.terminal t ht]
      exact hadded.others ht hscreen
    have hisolated : k.terminalNum = k.terminalNumDisplay ∨ ¬ (LineOpen k ∧ FillsScreen k) →
        OnlyTerminal k.terminalNumDisplay k k₂ := fun hsafe => by
      refine (hadded.isolated (hsafe.imp_right fun hnot hfills => hnot ⟨hopen, hfills⟩)).1.trans
        honly₂ hadded.keeps
    split
    case isFalse hinside =>
      exact ⟨k₂, rfl, hkeeps₂, ⟨by rw [hX]; decide, Nat.lt_of_not_le hinside⟩, hothers, hisolated⟩
    case isTrue hbelow =>
      -- This scroll, unlike the one of `update_cursor`, is of the displayed screen.
      obtain ⟨k₃, hscroll, hkeeps₃, honly₃, hterm₃⟩ := scrollVideo_spec (hkeeps₂.mapped h)
      have hkeeps₄ := keeps_setTerminal k₃ k.terminalNumDisplay
        (f := fun t => { t with cursorY := numRows - 1 }) fun _ => rfl
      have honly₄ := onlyTerminal_setTerminal k₃ k.terminalNumDisplay
        fun t => { t with cursorY := numRows - 1 }
      rw [hscroll, Option.bind_some]
      rw [hkeeps₂.display] at honly₃
      refine ⟨_, rfl, (hkeeps₂.trans hkeeps₃).trans hkeeps₄, ?_, fun t ht hscreen => ?_,
        fun hsafe => ?_⟩
      · rw [Kernel.setTerminal_self, hterm₃]
        exact ⟨by rw [hX]; decide, show numRows - 1 < numRows by decide⟩
      · rw [honly₄.terminal t ht, hterm₃]
        exact hothers t ht hscreen
      · exact ((hisolated hsafe).trans honly₃ hkeeps₂).trans honly₄ (hkeeps₂.trans hkeeps₃)

/-! ## Backspace -/

/-- Backspace with the cursor in the first cell of the displayed screen. -/
structure ErasesHome (k : Kernel) : Prop where
  text : 0 < (k.terminalArr k.terminalNumDisplay).screenBufTop
  cursorX : (k.terminalArr k.terminalNumDisplay).cursorX = 0
  cursorY : (k.terminalArr k.terminalNumDisplay).cursorY = 0

/-- An action that only concerns the displayed terminal, and leaves its cursor on the screen. -/
structure StaysInside (k k' : Kernel) : Prop where
  keeps : Keeps k k'
  only : OnlyTerminal k.terminalNumDisplay k k'
  shown : OnScreen (k'.terminalArr k.terminalNumDisplay)

theorem deleteCharFromBuf_spec {k : Kernel} (h : VideoMapped k)
    (hd : OnScreen (k.terminalArr k.terminalNumDisplay))
    (hsafe : k.terminalNum = k.terminalNumDisplay ∨ ¬ ErasesHome k) :
    ∃ k', deleteCharFromBuf k = some k' ∧ StaysInside k k' := by
  obtain ⟨hx, hy⟩ := hd
  rw [deleteCharFromBuf]
  dsimp only
  split
  case isFalse hempty => exact ⟨k, rfl, .refl k, .refl _ k, hx, hy⟩
  case isTrue htext =>
    have hkeeps₁ := keeps_setTerminal k k.terminalNumDisplay (f := dropFromLine) fun _ => rfl
    have honly₁ := onlyTerminal_setTerminal k k.terminalNumDisplay dropFromLine
    have hself : (k.setTerminal k.terminalNumDisplay dropFromLine).terminalArr
        k.terminalNumDisplay = dropFromLine (k.terminalArr k.terminalNumDisplay) := by
      rw [Kernel.setTerminal_self]
    generalize k.setTerminal k.terminalNumDisplay dropFromLine = k₁ at *
    have hmapped₁ := hkeeps₁.mapped h
    have hselfX : (k₁.terminalArr k.terminalNumDisplay).cursorX =
        (k.terminalArr k.terminalNumDisplay).cursorX := by rw [hself]; rfl
    have hselfY : (k₁.terminalArr k.terminalNumDisplay).cursorY =
        (k.terminalArr k.terminalNumDisplay).cursorY := by rw [hself]; rfl
    rw [hselfX]
    simp only [numCols, numRows] at hx hy
    split
    case isTrue hpos =>
      obtain ⟨k', hupdate, hmoved⟩ := moveCursor_spec hmapped₁ k.terminalNumDisplay
        (x := (k.terminalArr k.terminalNumDisplay).cursorX - 1)
        (y := (k.terminalArr k.terminalNumDisplay).cursorY)
        (f := fun t => { t with cursorX := t.cursorX - 1 })
        (by simp only [numCols]; omega) (fun _ => rfl) (by rw [hselfX]) hselfY
      obtain ⟨honly, hx', hy'⟩ := hmoved.inside hy
      refine ⟨k', hupdate, hkeeps₁.trans hmoved.keeps, honly₁.trans honly hkeeps₁, ?_, by rwa [hy']⟩
      rw [hx']
      simp only [numCols]
      omega
    case isFalse hzero =>
      obtain ⟨k', hupdate, hmoved⟩ := moveCursor_spec hmapped₁ k.terminalNumDisplay
        (x := numCols - 1) (y := ((k.terminalArr k.terminalNumDisplay).cursorY + 255) % 256)
        (f := fun t => { t with cursorX := numCols - 1, cursorY := (t.cursorY + 255) % 256 })
        (show numCols - 1 < numCols by decide) (fun _ => rfl) rfl (by dsimp only; rw [hselfY])
      rcases Nat.lt_or_ge (((k.terminalArr k.terminalNumDisplay).cursorY + 255) % 256) numRows
        with hrow | hrow
      · obtain ⟨honly, hx', hy'⟩ := hmoved.inside hrow
        exact ⟨k', hupdate, hkeeps₁.trans hmoved.keeps, honly₁.trans honly hkeeps₁,
          by rw [hx']; decide, by rwa [hy']⟩
      · -- the row was 0
        have hown : k.terminalNumDisplay = k₁.terminalNum := by
          rw [hkeeps₁.terminalNum]
          refine (hsafe.resolve_right fun hnot => hnot ⟨htext, ?_, ?_⟩).symm
          · omega
          · simp only [numRows] at hrow
            omega
        obtain ⟨honly, hscreen⟩ := hmoved.own hrow hown
        exact ⟨k', hupdate, hkeeps₁.trans hmoved.keeps, honly₁.trans honly hkeeps₁, hscreen⟩

/-- Backspace. -/
theorem erase_spec {k : Kernel} (h : VideoMapped k)
    (hd : OnScreen (k.terminalArr k.terminalNumDisplay))
    (hsafe : k.terminalNum = k.terminalNumDisplay ∨ ¬ ErasesHome k) :
    ∃ k', (deleteCharFromBuf k).bind deleteCharFromScreen = some k' ∧ StaysInside k k' := by
  obtain ⟨k₁, hdelete, hkeeps₁, honly₁, hscreen₁⟩ := deleteCharFromBuf_spec h hd hsafe
  have hscreen : OnScreen (k₁.terminalArr k₁.terminalNumDisplay) := by
    rw [hkeeps₁.display]
    exact hscreen₁
  obtain ⟨k', hput, hkeeps, honly, hterm⟩ := putcAddr_spec (hkeeps₁.mapped h) hscreen 0
  rw [hkeeps₁.display] at honly
  refine ⟨k', ?_, hkeeps₁.trans hkeeps, honly₁.trans honly hkeeps₁, by rw [hterm]; exact hscreen₁⟩
  rw [hdelete, Option.bind_some, deleteCharFromScreen, hput]

/-! ## Control-L -/

/-- **Control-L** puts the cursors of all three terminals in the first cell. -/
theorem clearScreen_spec {k : Kernel} (h : VideoMapped k) :
    ∃ k', (clear (clearbuf k)).bind initCursor = some k' ∧ Keeps k k' ∧
      (∀ t, (k'.terminalArr t).cursorX = 0 ∧ (k'.terminalArr t).cursorY = 0) ∧
      ((∀ t, t ≠ k.terminalNumDisplay →
          (k.terminalArr t).cursorX = 0 ∧ (k.terminalArr t).cursorY = 0) →
        OnlyTerminal k.terminalNumDisplay k k') := by
  have hkeeps₁ : Keeps k (clearbuf k) := keeps_setTerminal k k.terminalNumDisplay fun _ => rfl
  have honly₁ : OnlyTerminal k.terminalNumDisplay k (clearbuf k) :=
    onlyTerminal_setTerminal k k.terminalNumDisplay _
  have hmapped₁ := hkeeps₁.mapped h
  generalize clearbuf k = k₁ at *
  have hclear : clear k₁ =
      some { k₁ with phys := blankedCells k₁.phys videoAddr 0 (numRows * numCols) } :=
    blankScreen_eq fun _ hj => hmapped₁.vga.translate hj
  have hphys := onlyTerminal_of_phys k₁ k₁.terminalNumDisplay
    (blankedCells k₁.phys videoAddr 0 (numRows * numCols)) fun a ha => by
      rw [videoPage_self] at ha
      rw [blankedCells, if_neg (by simp only [numRows, numCols]; omega)]
  rw [hkeeps₁.display] at hphys
  have hrun := (congrArg (Option.bind · initCursor) hclear).trans (initCursor_eq _)
  refine ⟨_, hrun, ⟨hkeeps₁.1, hkeeps₁.2, hkeeps₁.3, hkeeps₁.4, hkeeps₁.5⟩,
    fun _ => ⟨rfl, rfl⟩, fun hzero => ?_⟩
  refine ⟨fun t ht => ?_, (honly₁.trans hphys hkeeps₁).screen⟩
  have hterm := honly₁.terminal t ht
  obtain ⟨hx, hy⟩ := hzero t ht
  dsimp only
  rw [hterm]
  generalize k.terminalArr t = terminal at *
  cases terminal
  cases hx
  cases hy
  rfl

end JuddOS
