import JuddOS.KeyIsolation
import JuddOS.PageIsolation

/-!
# What the console writes to

The functions of `terminal.c` and `keyboard.c` store through two kinds of addresses: that of
`video_mem`, and those of the terminals.  Some of them leave a cursor outside its screen, and then
the next character goes to another screen or faults.

`InVideo` is the memory behind the screens.  `OnlyScreens` says that a function has stored nowhere
else, and there is one lemma for each function.  So whatever the cursors are, no key and no
`terminal_write` stores outside the screens (`keyboardHandlerMain_onlyScreens`,
`terminalWrite_onlyScreens`).
-/

namespace JuddOS

open Support X86

/-- A physical address behind a screen. -/
def InVideo (a : Nat) : Prop :=
  a ∈ Region.vga.addrs ∨ ∃ t, a ∈ (Region.buffer t).addrs

theorem inVideo_videoPage (shown t : Tid) {j : Nat} (hj : j < sizeOfEntry) :
    InVideo (videoPage shown t + j) := by
  unfold videoPage
  split
  · exact .inl (Set.mem_Ico.mpr ⟨Nat.le_add_right _ _, Nat.add_lt_add_left hj _⟩)
  · exact .inr ⟨t, Set.mem_Ico.mpr ⟨Nat.le_add_right _ _, Nat.add_lt_add_left hj _⟩⟩

/-! ## Where the addresses of the console go -/

/-- The two page tables map nothing but the screens. -/
structure ScreensAlone (p : Paging) : Prop where
  vga : VgaAlone p
  videoTable : ∀ j, (p.pageTableEntryForVideo j).present = true →
    ∃ tid i : Tid, j = 256 + i.val ∧
      p.pageTableEntryForVideo j = videoPte (videoPage tid i)

/-- An address below 4 MB, or one that the video table serves. -/
def ScreenAddress (v : Nat) : Prop := v < 2 ^ 22 ∨ dirIndex v = 33

theorem ScreensMapped.translate_video {p : Paging} {shown : Tid} (h : ScreensMapped p shown)
    (halone : ScreensAlone p) {v a : Nat} (hv : dirIndex v = 33)
    (ht : p.translate v = some a) : InVideo a := by
  by_cases hpte : (p.pageTableEntryForVideo (tableIndex v)).present = true
  · obtain ⟨tid, i, -, hentry⟩ := halone.videoTable _ hpte
    have htable : p.tables (p.pageDirectoryEntry 33).pageTableAddr (tableIndex v) =
        videoPte (videoPage tid i) := by
      rw [h.table, Paging.tables_video, hentry]
    have hwalk := walk_small (by rw [hv]) h.present h.small htable (videoPte_present _)
    rw [Paging.translate, Paging.walk, hwalk, Option.map_some, videoPte_pageAddr] at ht
    cases ht
    exact inVideo_videoPage tid i (Nat.mod_lt _ (by decide))
  · rw [Bool.not_eq_true] at hpte
    have hnone : p.walk v = none := by
      refine walk_absent (by rw [hv]) h.small ?_
      rw [h.table, Paging.tables_video]
      exact hpte
    rw [Paging.translate, hnone] at ht
    cases ht

/-- **A store to such an address** goes to a screen. -/
theorem inVideo_of_translate {p : Paging} {shown : Tid} (hvga : VgaMapped p)
    (hscreens : ScreensMapped p shown) (halone : ScreensAlone p) {v a : Nat}
    (hv : ScreenAddress v) (ht : p.translate v = some a) : InVideo a := by
  rcases hv with hv | hv
  · have hpage := hvga.translate_low halone.vga hv ht
    exact .inl (Set.mem_Ico.mpr hpage)
  · exact hscreens.translate_video halone hv ht

/-- The screens as far as their addresses depend on it: the mapping, and cursors of one byte. -/
structure Tidy (k : Kernel) : Prop where
  mapped : VideoMapped k
  alone : ScreensAlone k.paging
  cursorX : ∀ t, (k.terminalArr t).cursorX < 256
  cursorY : ∀ t, (k.terminalArr t).cursorY < 256

/-- The addresses from `vidmem` on are those of screens. -/
def ScreenBase (vidmem : Nat) : Prop := ∀ j, j < 2 ^ 20 → ScreenAddress (vidmem + j)

theorem screenBase_videoAddr : ScreenBase videoAddr := by
  intro j hj
  left
  simp only [videoAddr]
  omega

theorem screenBase_terminalVidmem (t : Tid) : ScreenBase (terminalVidmem t) := by
  intro j hj
  right
  simp only [dirIndex, terminalVidmem, virtualVideoAddress, sizeOfEntry]
  omega

theorem Tidy.screenBase {k : Kernel} (h : Tidy k) (t : Tid) :
    ScreenBase (k.terminalArr t).vidmemAddr := by
  rw [h.mapped.vidmem t]
  exact screenBase_terminalVidmem t

/-! ## Stores to the screens alone -/

/-- **Only the screens.**  Memory behind no screen is as before, and so is the position of
`putc`. -/
structure OnlyScreens (k k' : Kernel) : Prop where
  tidy : Tidy k'
  memory : ∀ a, ¬ InVideo a → k'.phys a = k.phys a
  screenX : k'.screenX = k.screenX
  screenY : k'.screenY = k.screenY

section Relation

variable {k k₁ k₂ : Kernel}

theorem Tidy.refl (h : Tidy k) : OnlyScreens k k := ⟨h, fun _ _ => rfl, rfl, rfl⟩

theorem OnlyScreens.trans (h : OnlyScreens k k₁) (h' : OnlyScreens k₁ k₂) :
    OnlyScreens k k₂ where
  tidy := h'.tidy
  memory a ha := (h'.memory a ha).trans (h.memory a ha)
  screenX := h'.screenX.trans h.screenX
  screenY := h'.screenY.trans h.screenY

/-- Whatever the screens do not depend on. -/
theorem Tidy.congr (h : Tidy k) (hpaging : k₁.paging = k.paging)
    (hdisplay : k₁.terminalNumDisplay = k.terminalNumDisplay)
    (hterminals : ∀ t, (k₁.terminalArr t).vidmemAddr = (k.terminalArr t).vidmemAddr ∧
      (k₁.terminalArr t).cursorX < 256 ∧ (k₁.terminalArr t).cursorY < 256) : Tidy k₁ where
  mapped :=
    { vidmem := fun t => (hterminals t).1.trans (h.mapped.vidmem t)
      vga := by
        rw [hpaging]
        exact h.mapped.vga
      screens := by
        rw [hpaging, hdisplay]
        exact h.mapped.screens }
  alone := by
    rw [hpaging]
    exact h.alone
  cursorX t := (hterminals t).2.1
  cursorY t := (hterminals t).2.2

/-- An assignment that leaves one byte in each cursor. -/
theorem Tidy.setTerminal (h : Tidy k) (t : Tid) {f : Terminal → Terminal}
    (hvidmem : ∀ t, (f t).vidmemAddr = t.vidmemAddr)
    (hX : (f (k.terminalArr t)).cursorX < 256) (hY : (f (k.terminalArr t)).cursorY < 256) :
    OnlyScreens k (k.setTerminal t f) := by
  refine ⟨h.congr rfl rfl fun u => ?_, fun _ _ => rfl, rfl, rfl⟩
  by_cases hu : u = t
  · rw [hu, Kernel.setTerminal_self]
    exact ⟨hvidmem _, hX, hY⟩
  · rw [Kernel.setTerminal_of_ne k f hu]
    exact ⟨rfl, h.cursorX u, h.cursorY u⟩

/-- A loop whose iterations store to the screens. -/
theorem Tidy.forRange {body : Nat → Kernel → Option Kernel} {i n : Nat} (h : Tidy k)
    (hbody : ∀ j k k', i ≤ j → j < i + n → Tidy k → body j k = some k' → OnlyScreens k k')
    (hrun : Support.forRange body i n k = some k₁) : OnlyScreens k k₁ :=
  forRange_of_some (fun _ => OnlyScreens k) h.refl
    (fun j k₂ k₃ hij hjn hk₂ hstep => hk₂.trans (hbody j k₂ k₃ hij hjn hk₂.tidy hstep)) hrun

theorem Tidy.poke (h : Tidy k) {v : Nat} {b : UInt8} (hv : ScreenAddress v)
    (hpoke : k.poke v b = some k₁) : OnlyScreens k k₁ := by
  rw [Kernel.poke, Option.map_eq_some_iff] at hpoke
  obtain ⟨a, ha, rfl⟩ := hpoke
  have hvideo := inVideo_of_translate h.mapped.vga h.mapped.screens h.alone hv ha
  refine ⟨h.congr rfl rfl fun t => ⟨rfl, h.cursorX t, h.cursorY t⟩, fun a' ha' => ?_, rfl, rfl⟩
  have hne : a' ≠ a := fun heq => ha' (heq ▸ hvideo)
  exact Function.update_of_ne hne _ _

end Relation

/-! ## The screen functions -/

section Screen

variable {k k' : Kernel} {vidmem i n : Nat} {c : UInt8}

theorem Tidy.pokeCell (h : Tidy k) (hbase : ScreenBase vidmem) (hi : 2 * i + 1 < 2 ^ 20)
    (hrun : JuddOS.pokeCell vidmem i c k = some k') : OnlyScreens k k' := by
  rw [JuddOS.pokeCell, Option.bind_eq_bind, Option.bind_eq_some_iff] at hrun
  obtain ⟨k₁, hchar, hattrib⟩ := hrun
  have hfirst := h.poke (hbase (2 * i) (by omega)) hchar
  exact hfirst.trans (hfirst.tidy.poke (hbase (2 * i + 1) hi) hattrib)

theorem Tidy.blankCells (h : Tidy k) (hbase : ScreenBase vidmem) (hn : 2 * (i + n) < 2 ^ 20)
    (hrun : JuddOS.blankCells vidmem i n k = some k') : OnlyScreens k k' :=
  h.forRange (fun _ _ _ _ hj htidy hcell => htidy.pokeCell hbase (by omega) hcell) hrun

theorem Tidy.scrollCells (h : Tidy k) (hbase : ScreenBase vidmem)
    (hrun : JuddOS.scrollCells vidmem k = some k') : OnlyScreens k k' := by
  rw [JuddOS.scrollCells, Option.bind_eq_bind, Option.bind_eq_some_iff] at hrun
  obtain ⟨k₁, hraise, hblank⟩ := hrun
  have hraised : OnlyScreens k k₁ := by
    refine h.forRange (fun j k₂ k₃ _ hj htidy hcell => ?_) hraise
    rw [raiseCell, Option.bind_eq_bind, Option.bind_eq_some_iff] at hcell
    obtain ⟨c, -, hpoke⟩ := hcell
    simp only [numRows, numCols] at hj
    exact htidy.pokeCell hbase (by omega) hpoke
  exact hraised.trans (hraised.tidy.blankCells hbase (by decide) hblank)

theorem Tidy.scrollUp (h : Tidy k) (hrun : JuddOS.scrollUp k = some k') : OnlyScreens k k' := by
  rw [JuddOS.scrollUp, Option.bind_eq_bind, Option.bind_eq_some_iff] at hrun
  obtain ⟨k₁, hcells, hk'⟩ := hrun
  cases hk'
  have hscrolled := h.scrollCells (h.screenBase _) hcells
  exact hscrolled.trans (hscrolled.tidy.setTerminal _ (fun _ => rfl)
    (show 0 < 256 by decide) (show numRows - 1 < 256 by decide))

theorem Tidy.vgaCursor (h : Tidy k) (n : Nat) : OnlyScreens k { k with vgaCursor := n } :=
  ⟨h.congr rfl rfl fun t => ⟨rfl, h.cursorX t, h.cursorY t⟩, fun _ _ => rfl, rfl, rfl⟩

theorem Tidy.updateCursor (h : Tidy k) {x y : Nat}
    (hrun : JuddOS.updateCursor x y k = some k') : OnlyScreens k k' := by
  unfold JuddOS.updateCursor at hrun
  generalize (if x ≥ numCols then (0, y + 1) else (x, y)) = position at hrun
  dsimp only at hrun
  split at hrun
  · rw [Option.bind_eq_bind, Option.bind_eq_some_iff] at hrun
    obtain ⟨p, hmap, hk'⟩ := hrun
    rw [Option.map_eq_some_iff] at hmap
    obtain ⟨k₁, hup, rfl⟩ := hmap
    cases hk'
    have hscrolled := h.scrollUp hup
    exact hscrolled.trans (hscrolled.tidy.vgaCursor _)
  · cases hrun
    exact h.vgaCursor _

theorem Tidy.updateCursorOf (h : Tidy k) {t : Tid}
    (hrun : JuddOS.updateCursorOf t k = some k') : OnlyScreens k k' :=
  h.updateCursor hrun

theorem Tidy.storeChar (h : Tidy k) {t : Tid} (hrun : JuddOS.storeChar t c k = some k') :
    OnlyScreens k k' := by
  have hX := h.cursorX t
  have hY := h.cursorY t
  unfold JuddOS.storeChar at hrun
  dsimp only at hrun
  generalize hstores : (t, 2 * (numCols * (k.terminalArr t).cursorY +
    (k.terminalArr t).cursorX)) :: k.charStores = stores at hrun
  have htidy : Tidy { k with charStores := stores } :=
    h.congr rfl rfl fun t => ⟨rfl, h.cursorX t, h.cursorY t⟩
  have hcell := htidy.pokeCell (h.screenBase t) (by simp only [numCols]; omega) hrun
  exact ⟨hcell.tidy, hcell.memory, hcell.screenX, hcell.screenY⟩

theorem Tidy.putcAddr (h : Tidy k) (hrun : JuddOS.putcAddr c k = some k') :
    OnlyScreens k k' := by
  unfold JuddOS.putcAddr at hrun
  split at hrun
  · cases hrun
    exact h.refl
  · dsimp only at hrun
    generalize hwrap : (if (k.terminalArr k.terminalNumDisplay).cursorX = numCols then _ else k) =
      k₁ at hrun
    have hwrapped : OnlyScreens k k₁ := by
      rw [← hwrap]
      split
      · exact h.setTerminal _ (fun _ => rfl) (show 0 < 256 by decide) (Nat.mod_lt _ (by decide))
      · exact h.refl
    split at hrun
    · rw [Option.bind_eq_bind, Option.bind_eq_some_iff] at hrun
      obtain ⟨k₂, hscroll, hstore⟩ := hrun
      have hscrolled := hwrapped.tidy.scrollUp hscroll
      exact hwrapped.trans (hscrolled.trans (hscrolled.tidy.storeChar hstore))
    · exact hwrapped.trans (hwrapped.tidy.storeChar hrun)

/-! ## `terminal_write` -/

theorem Tidy.scrollAtEnd (h : Tidy k) (hrun : JuddOS.scrollAtEnd k = some k') :
    OnlyScreens k k' := by
  unfold JuddOS.scrollAtEnd at hrun
  split at hrun
  · exact h.scrollUp hrun
  · cases hrun
    exact h.refl

theorem Tidy.wrapRow (h : Tidy k) (hrun : JuddOS.wrapRow k = some k') : OnlyScreens k k' := by
  unfold JuddOS.wrapRow at hrun
  split at hrun
  · have hmoved := h.setTerminal k.terminalNum
      (f := fun t => { t with cursorX := 0, cursorY := (t.cursorY + 1) % 256 })
      (fun _ => rfl) (show 0 < 256 by decide) (Nat.mod_lt _ (by decide))
    exact hmoved.trans (hmoved.tidy.scrollAtEnd hrun)
  · cases hrun
    exact h.refl

theorem Tidy.writeGlyph (h : Tidy k) (hrun : JuddOS.writeGlyph c k = some k') :
    OnlyScreens k k' := by
  unfold JuddOS.writeGlyph at hrun
  split at hrun
  · have hmoved := h.setTerminal k.terminalNum
      (f := fun t => { t with cursorY := (t.cursorY + 1) % 256, cursorX := 0 })
      (fun _ => rfl) (show 0 < 256 by decide) (Nat.mod_lt _ (by decide))
    exact hmoved.trans (hmoved.tidy.scrollAtEnd hrun)
  · rw [Option.map_eq_some_iff] at hrun
    obtain ⟨k₁, hstore, rfl⟩ := hrun
    have hstored := h.storeChar hstore
    exact hstored.trans (hstored.tidy.setTerminal _ (fun _ => rfl) (Nat.mod_lt _ (by decide))
      (hstored.tidy.cursorY _))

theorem Tidy.clampCursor (h : Tidy k) : OnlyScreens k (JuddOS.clampCursor k) := by
  unfold JuddOS.clampCursor
  dsimp only
  generalize hwrap : (if (k.terminalArr k.terminalNum).cursorX ≥ numCols then _ else k) = k₁
  have hwrapped : OnlyScreens k k₁ := by
    rw [← hwrap]
    split
    · exact h.setTerminal _ (fun _ => rfl) (show 0 < 256 by decide) (Nat.mod_lt _ (by decide))
    · exact h.refl
  split
  · exact hwrapped.trans (hwrapped.tidy.setTerminal _ (fun _ => rfl) (hwrapped.tidy.cursorX _)
      (show numRows - 1 < 256 by decide))
  · exact hwrapped

theorem Tidy.writeChar (h : Tidy k) (hrun : JuddOS.writeChar c k = some k') :
    OnlyScreens k k' := by
  rw [writeChar_eq, Option.bind_eq_some_iff] at hrun
  obtain ⟨k₁, hwrap, hrest⟩ := hrun
  rw [Option.map_eq_some_iff] at hrest
  obtain ⟨k₂, hglyph, rfl⟩ := hrest
  have hwrapped := h.wrapRow hwrap
  have hwritten := hwrapped.trans (hwrapped.tidy.writeGlyph hglyph)
  exact hwritten.trans hwritten.tidy.clampCursor

/-- **`terminal_write`** stores to the screens alone. -/
theorem terminalWrite_onlyScreens {buf : Option Buf} {nbytes v : Int32} (h : Tidy k)
    (hrun : terminalWrite buf nbytes k = some (v, k')) : OnlyScreens k k' := by
  unfold terminalWrite at hrun
  cases buf with
  | none =>
      cases hrun
      exact h.refl
  | some buf =>
      dsimp only at hrun
      split at hrun
      · cases hrun
        exact h.refl
      · rw [Option.bind_eq_bind, Option.bind_eq_some_iff] at hrun
        obtain ⟨k₁, hloop, hrest⟩ := hrun
        have hwritten := h.forRange (fun _ _ _ _ _ htidy hchar => htidy.writeChar hchar) hloop
        split at hrest
        · rw [Option.bind_eq_some_iff] at hrest
          obtain ⟨k₂, hcursor, hk'⟩ := hrest
          cases hk'
          exact hwritten.trans (hwritten.tidy.updateCursor hcursor)
        · cases hrest
          exact hwritten

/-! ## `keyboard_handler_main` -/

theorem Tidy.same (h : Tidy k) (hsame : SameConsole k k') (hX : k'.screenX = k.screenX)
    (hY : k'.screenY = k.screenY) : OnlyScreens k k' where
  tidy := by
    refine h.congr hsame.paging hsame.display fun t => ?_
    rw [hsame.terminalArr]
    exact ⟨rfl, h.cursorX t, h.cursorY t⟩
  memory a _ := congrFun hsame.phys a
  screenX := hX
  screenY := hY

theorem Tidy.add2buf (h : Tidy k) (hrun : JuddOS.add2buf c k = some k') : OnlyScreens k k' := by
  rw [JuddOS.add2buf] at hrun
  dsimp only at hrun
  split at hrun
  case isFalse =>
    cases hrun
    exact h.refl
  case isTrue =>
    rw [Option.bind_eq_bind, Option.bind_eq_some_iff] at hrun
    obtain ⟨k₁, hput, hmove⟩ := hrun
    have hstored := h.putcAddr hput
    have happend := hstored.trans (hstored.tidy.setTerminal k.terminalNumDisplay
      (f := appendToLine c) (fun _ => rfl) (hstored.tidy.cursorX _) (hstored.tidy.cursorY _))
    generalize k₁.setTerminal k.terminalNumDisplay (appendToLine c) = k₂ at happend hmove
    split at hmove
    case isTrue hcol =>
      simp only [numCols] at hcol
      have hmoved := happend.trans (happend.tidy.setTerminal k.terminalNumDisplay
        (f := fun t => { t with cursorX := t.cursorX + 1 }) (fun _ => rfl)
        (by dsimp only; omega) (happend.tidy.cursorY _))
      exact hmoved.trans (hmoved.tidy.updateCursorOf hmove)
    case isFalse =>
      have hmoved := happend.trans (happend.tidy.setTerminal k.terminalNumDisplay
        (f := fun t => { t with cursorX := 0, cursorY := (t.cursorY + 1) % 256 })
        (fun _ => rfl) (show 0 < 256 by decide) (Nat.mod_lt _ (by decide)))
      exact hmoved.trans (hmoved.tidy.updateCursorOf hmove)

theorem Tidy.enterPress (h : Tidy k) (hrun : JuddOS.enterPress c k = some k') :
    OnlyScreens k k' := by
  rw [JuddOS.enterPress] at hrun
  dsimp only at hrun
  split at hrun
  case isFalse =>
    cases hrun
    exact h.refl
  case isTrue =>
    rw [Option.bind_eq_bind, Option.bind_eq_some_iff] at hrun
    obtain ⟨k₁, hadd, hrest⟩ := hrun
    have hadded := h.add2buf hadd
    have hmoved := hadded.trans (hadded.tidy.setTerminal k.terminalNumDisplay
      (f := fun t => { t with cursorX := 0, cursorY := (t.cursorY + 1) % 256 })
      (fun _ => rfl) (show 0 < 256 by decide) (Nat.mod_lt _ (by decide)))
    generalize (k₁.setTerminal k.terminalNumDisplay fun t =>
        { t with cursorX := 0, cursorY := (t.cursorY + 1) % 256 }) = k₂ at hmoved hrest
    split at hrest
    · rw [Option.bind_eq_some_iff] at hrest
      obtain ⟨k₃, hscroll, hk'⟩ := hrest
      cases hk'
      have hscrolled := hmoved.trans (hmoved.tidy.scrollCells screenBase_videoAddr hscroll)
      exact hscrolled.trans (hscrolled.tidy.setTerminal _ (fun _ => rfl)
        (hscrolled.tidy.cursorX _) (show numRows - 1 < 256 by decide))
    · cases hrest
      exact hmoved

theorem Tidy.deleteCharFromBuf (h : Tidy k) (hrun : JuddOS.deleteCharFromBuf k = some k') :
    OnlyScreens k k' := by
  rw [JuddOS.deleteCharFromBuf] at hrun
  dsimp only at hrun
  split at hrun
  case isFalse =>
    cases hrun
    exact h.refl
  case isTrue =>
    have hdrop := h.setTerminal k.terminalNumDisplay (f := dropFromLine) (fun _ => rfl)
      (h.cursorX _) (h.cursorY _)
    generalize k.setTerminal k.terminalNumDisplay dropFromLine = k₁ at hdrop hrun
    split at hrun
    · have hmoved := hdrop.trans (hdrop.tidy.setTerminal k.terminalNumDisplay
        (f := fun t => { t with cursorX := t.cursorX - 1 }) (fun _ => rfl)
        (Nat.lt_of_le_of_lt (Nat.sub_le _ _) (hdrop.tidy.cursorX _)) (hdrop.tidy.cursorY _))
      exact hmoved.trans (hmoved.tidy.updateCursorOf hrun)
    · have hmoved := hdrop.trans (hdrop.tidy.setTerminal k.terminalNumDisplay
        (f := fun t => { t with cursorX := numCols - 1, cursorY := (t.cursorY + 255) % 256 })
        (fun _ => rfl) (show numCols - 1 < 256 by decide) (Nat.mod_lt _ (by decide)))
      exact hmoved.trans (hmoved.tidy.updateCursorOf hrun)

theorem Tidy.clearbuf (h : Tidy k) : OnlyScreens k (JuddOS.clearbuf k) :=
  h.setTerminal _ (fun _ => rfl) (h.cursorX _) (h.cursorY _)

theorem Tidy.clear (h : Tidy k) (hrun : JuddOS.clear k = some k') : OnlyScreens k k' :=
  h.blankCells screenBase_videoAddr (by decide) hrun

theorem Tidy.initCursor (h : Tidy k) (hrun : JuddOS.initCursor k = some k') :
    OnlyScreens k k' := by
  refine h.forRange (fun j k₁ k₂ _ _ htidy hbody => ?_) hrun
  have hmoved := htidy.setTerminal (Fin.ofNat 3 j)
    (f := fun t => { t with cursorX := 0, cursorY := 0 }) (fun _ => rfl)
    (show 0 < 256 by decide) (show 0 < 256 by decide)
  exact hmoved.trans (hmoved.tidy.updateCursorOf hbody)

/-- The tables after a switch map the screens and nothing else. -/
theorem ScreensAlone.setUpVirtualToVideo {p : Paging} (h : ScreensAlone p) (index : Tid) :
    ScreensAlone (JuddOS.setUpVirtualToVideo terminalVidmem index p) where
  vga := h.vga
  videoTable j hj := by
    rw [setUpVirtualToVideo_videoPte] at hj ⊢
    by_cases hrange : 256 ≤ j ∧ j < 259
    · rw [dif_pos hrange]
      exact ⟨index, ⟨j - 256, by omega⟩, by dsimp only; omega, rfl⟩
    · rw [dif_neg hrange] at hj ⊢
      exact h.videoTable j hj

/-- Stores to addresses that all go to one part of memory. -/
theorem pokeRange_memory {v : Nat} {bytes : Buf} {P : Nat → Prop}
    (hv : ∀ j, j < n → ∀ a, k.paging.translate (v + j) = some a → P a)
    (hrun : k.pokeRange v n bytes = some k') {a : Nat} (ha : ¬ P a) : k'.phys a = k.phys a := by
  have hloop : k'.paging = k.paging ∧ k'.phys a = k.phys a := by
    refine forRange_of_some (fun _ k₁ => k₁.paging = k.paging ∧ k₁.phys a = k.phys a)
      ⟨rfl, rfl⟩ (fun j k₁ k₂ _ hj hk₁ hpoke => ?_) hrun
    rw [Kernel.poke, Option.map_eq_some_iff] at hpoke
    obtain ⟨a', ha', rfl⟩ := hpoke
    rw [hk₁.1] at ha'
    have hne : a ≠ a' := fun heq => ha (heq ▸ hv j (by omega) a' ha')
    exact ⟨hk₁.1, (Function.update_of_ne hne _ _).trans hk₁.2⟩
  exact hloop.2

theorem Tidy.swapTerminal (h : Tidy k) {index : Tid}
    (hrun : JuddOS.swapTerminal index k = some k') : OnlyScreens k k' := by
  rw [JuddOS.swapTerminal] at hrun
  split at hrun
  case isTrue =>
    cases hrun
    exact h.refl
  case isFalse =>
    simp only [Option.bind_eq_bind, Option.bind_eq_some_iff] at hrun
    obtain ⟨temp, -, shown, -, k₁, hold, k₂, hnew, hcursor⟩ := hrun
    have haddr : (fun t => (k.terminalArr t).vidmemAddr) = terminalVidmem :=
      funext h.mapped.vidmem
    rw [haddr] at hold
    -- the new tables, which the two copies go through
    have hvga := h.mapped.vga.setUpVirtualToVideo index
    have hscreens := screensMapped_setUpVirtualToVideo index k.paging
    have halone := h.alone.setUpVirtualToVideo index
    have hpage : ∀ t j, j < sizeOfVidmem → ∀ a,
        (setUpVirtualToVideo terminalVidmem index k.paging).translate (terminalVidmem t + j) =
          some a → InVideo a := by
      intro t j hj a ha
      simp only [sizeOfVidmem] at hj
      exact inVideo_of_translate hvga hscreens halone
        (screenBase_terminalVidmem t j (by omega)) ha
    have hframe₁ := Kernel.pokeRange_frame hold
    have hmemory₁ : ∀ a, ¬ InVideo a → k₁.phys a = k.phys a := fun a ha => by
      refine pokeRange_memory (fun j hj a' ha' => ?_) hold ha
      rw [h.mapped.vidmem] at ha'
      exact hpage _ j hj a' ha'
    have hmemory₂ : ∀ a, ¬ InVideo a → k₂.phys a = k₁.phys a := fun a ha => by
      refine pokeRange_memory (fun j hj a' ha' => ?_) hnew ha
      rw [hframe₁] at ha'
      dsimp only at ha'
      rw [h.mapped.vidmem] at ha'
      exact hpage _ j hj a' ha'
    have hframe := (Kernel.pokeRange_frame hnew).trans
      (congrArg (fun k₁ : Kernel => { k₁ with phys := k₂.phys }) hframe₁)
    have htidy : Tidy { k₂ with terminalNumDisplay := index } := by
      rw [hframe]
      exact ⟨⟨h.mapped.vidmem, hvga, hscreens⟩, halone, h.cursorX, h.cursorY⟩
    have hcopied : OnlyScreens k { k₂ with terminalNumDisplay := index } :=
      ⟨htidy, fun a ha => (hmemory₂ a ha).trans (hmemory₁ a ha), by rw [hframe], by rw [hframe]⟩
    exact hcopied.trans (htidy.updateCursorOf hcursor)

/-- What printing does: it stores to the screens alone, and leaves the cursor of `putc` in row
`row` at most. -/
structure PrintsOn (row : Nat) (k k' : Kernel) : Prop where
  tidy : Tidy k'
  memory : ∀ a, ¬ InVideo a → k'.phys a = k.phys a
  col : k'.screenX < numCols
  row : k'.screenY ≤ row

theorem Tidy.putc (h : Tidy k) {row : Nat} (hx : k.screenX < numCols) (hy : k.screenY ≤ row)
    (hrow : row ≤ 5000) (hrun : JuddOS.putc c k = some k') :
    PrintsOn (row + 1) k k' ∧ (c = chNewline ∨ c = chReturn ∨ k'.screenY < numRows) := by
  rw [JuddOS.putc] at hrun
  split at hrun
  case isTrue hend =>
    cases hrun
    have hsame : Tidy { k with screenY := k.screenY + 1, screenX := 0 } :=
      h.congr rfl rfl fun t => ⟨rfl, h.cursorX t, h.cursorY t⟩
    exact ⟨⟨hsame, fun _ _ => rfl, show 0 < numCols by decide, Nat.succ_le_succ hy⟩,
      hend.elim .inl fun hc => .inr (.inl hc)⟩
  case isFalse =>
    rw [Option.bind_eq_bind, Option.bind_eq_some_iff] at hrun
    obtain ⟨k₁, hcell, hk'⟩ := hrun
    cases hk'
    simp only [numCols] at hx
    have hstored := h.pokeCell screenBase_videoAddr (by simp only [numCols]; omega) hcell
    have hsame : Tidy { k₁ with
        screenX := (k₁.screenX + 1) % numCols
        screenY := (k₁.screenY + (k₁.screenX + 1) % numCols / numCols) % numRows } :=
      hstored.tidy.congr rfl rfl fun t => ⟨rfl, hstored.tidy.cursorX t, hstored.tidy.cursorY t⟩
    have hlast : (k₁.screenY + (k₁.screenX + 1) % numCols / numCols) % numRows < numRows :=
      Nat.mod_lt _ (by decide)
    refine ⟨⟨hsame, hstored.memory, Nat.mod_lt _ (by decide), ?_⟩, .inr (.inr hlast)⟩
    dsimp only
    rw [hstored.screenX, hstored.screenY]
    simp only [numCols, numRows]
    omega

theorem Tidy.printBuf (h : Tidy k) (hx : k.screenX < numCols) (hy : k.screenY ≤ numRows)
    (hline : (k.lines k.terminalNumDisplay).Fits) (hrun : JuddOS.printBuf k = some k') :
    PrintsOn numRows k k' := by
  rw [JuddOS.printBuf, Option.bind_eq_bind, Option.bind_eq_some_iff] at hrun
  obtain ⟨k₁, hloop, hbar⟩ := hrun
  have htop : (k.terminalArr k.terminalNumDisplay).screenBufTop < 128 := hline
  have hprinted :
      PrintsOn (numRows + (0 + (k.terminalArr k.terminalNumDisplay).screenBufTop)) k k₁ := by
    refine forRange_of_some (fun i k₁ => PrintsOn (numRows + i) k k₁)
      ⟨h, fun _ _ => rfl, hx, hy⟩ (fun i k₂ k₃ _ hi hbefore hputc => ?_) hloop
    obtain ⟨hafter, -⟩ := hbefore.tidy.putc hbefore.col hbefore.row
      (by simp only [numRows]; omega) hputc
    exact ⟨hafter.tidy, fun a ha => (hafter.memory a ha).trans (hbefore.memory a ha), hafter.col,
      hafter.row⟩
  obtain ⟨hlast, hwrap⟩ := hprinted.tidy.putc hprinted.col hprinted.row
    (by simp only [numRows]; omega) hbar
  -- the bar ends no line, so the cursor is back on the screen
  have hrow : k'.screenY < numRows := (hwrap.resolve_left (by decide)).resolve_left (by decide)
  exact ⟨hlast.tidy, fun a ha => (hlast.memory a ha).trans (hprinted.memory a ha), hlast.col,
    Nat.le_of_lt hrow⟩

/-- The console, as far as its stores depend on it. -/
structure ConsoleTidy (k : Kernel) : Prop extends Tidy k where
  lines : ∀ t, (k.lines t).Fits
  col : k.screenX < numCols
  row : k.screenY ≤ numRows

/-- The cursor of `putc` stays where it is, or on the screen. -/
theorem OnlyScreens.printsOn (h : OnlyScreens k k') (hx : k.screenX < numCols)
    (hy : k.screenY ≤ numRows) : PrintsOn numRows k k' :=
  ⟨h.tidy, h.memory, by rw [h.screenX]; exact hx, by rw [h.screenY]; exact hy⟩

theorem handleKey_printsOn {key : Key} (h : ConsoleTidy k)
    (hrun : handleKey key k = some k') : PrintsOn numRows k k' := by
  have hflags : ∀ {k₁ : Kernel}, SameConsole k k₁ → k₁.screenX = k.screenX →
      k₁.screenY = k.screenY → OnlyScreens k k₁ := fun hsame hX hY => h.toTidy.same hsame hX hY
  have hdone : ∀ {k₁ : Kernel}, OnlyScreens k k₁ → PrintsOn numRows k k₁ := fun honly =>
    honly.printsOn h.col h.row
  cases key with
  | idle =>
      dsimp only [handleKey] at hrun
      split at hrun
      · exact hdone (h.toTidy.enterPress hrun)
      · cases hrun
        exact hdone h.toTidy.refl
  | erase =>
      dsimp only [handleKey] at hrun
      have hback : OnlyScreens k { k with backFlag := true } :=
        hflags (sameConsole_backFlag k) rfl rfl
      split at hrun
      · exact hdone (hback.trans (hback.tidy.enterPress hrun))
      · rw [Option.bind_eq_some_iff] at hrun
        obtain ⟨k₁, hbuf, hscreen⟩ := hrun
        have hdropped := hback.trans (hback.tidy.deleteCharFromBuf hbuf)
        exact hdone (hdropped.trans (hdropped.tidy.putcAddr hscreen))
  | switch index =>
      dsimp only [handleKey] at hrun
      have hflag : OnlyScreens k (setSwitchFlag index k) :=
        hflags (sameConsole_setSwitchFlag k index) (by fin_cases index <;> rfl)
          (by fin_cases index <;> rfl)
      exact hdone (hflag.trans (hflag.tidy.swapTerminal hrun))
  | clear =>
      dsimp only [handleKey] at hrun
      rw [Option.bind_eq_some_iff] at hrun
      obtain ⟨k₁, hclear, hcursor⟩ := hrun
      have hflag : OnlyScreens k { k with ctrlFlagL := true } :=
        hflags (sameConsole_ctrlFlagL k) rfl rfl
      have hempty := hflag.trans hflag.tidy.clearbuf
      have hcleared := hempty.trans (hempty.tidy.clear hclear)
      exact hdone (hcleared.trans (hcleared.tidy.initCursor hcursor))
  | «show» =>
      dsimp only [handleKey] at hrun
      rw [Option.bind_eq_bind, Option.bind_eq_some_iff] at hrun
      obtain ⟨k₁, hprint, hrest⟩ := hrun
      have hprinted := h.toTidy.printBuf h.col h.row (h.lines _) hprint
      split at hrest
      · have hpressed := hprinted.tidy.enterPress hrest
        exact ⟨hpressed.tidy, fun a ha => (hpressed.memory a ha).trans (hprinted.memory a ha),
          by rw [hpressed.screenX]; exact hprinted.col,
          by rw [hpressed.screenY]; exact hprinted.row⟩
      · cases hrest
        exact hprinted
  | enter =>
      have hflag : OnlyScreens k { k with enterFlag := true } :=
        hflags (sameConsole_enterFlag k true) rfl rfl
      exact hdone (hflag.trans (hflag.tidy.enterPress hrun))
  | char ascii =>
      dsimp only [handleKey] at hrun
      have hflag : OnlyScreens k { k with bufFlag := 3 } :=
        hflags (sameConsole_bufFlag k 3) rfl rfl
      split at hrun
      · exact hdone (hflag.trans (hflag.tidy.enterPress hrun))
      · split at hrun
        · exact hdone (hflag.trans (hflag.tidy.add2buf hrun))
        · cases hrun
          exact hdone hflag

/-- **A key** stores to the screens alone. -/
theorem keyboardHandlerMain_printsOn {scan : UInt8} {past : UInt32} (h : ConsoleTidy k)
    (hkeys : NoKeyPending k) (hrun : keyboardHandlerMain scan past k = some k') :
    PrintsOn numRows k k' := by
  rw [keyboardHandlerMain_eq scan past hkeys, Option.map_eq_some_iff] at hrun
  obtain ⟨k₁, hkey, rfl⟩ := hrun
  -- the modifiers come first, and the flags are reset at the end
  obtain ⟨hX, hY⟩ := setModifiers_screen scan.toNat k
  have hset := h.toTidy.same (sameConsole_setModifiers k scan.toNat) hX hY
  have hready : ConsoleTidy (setModifiers scan.toNat k) := by
    refine ⟨hset.tidy, fun t => ?_, by rw [hX]; exact h.col, by rw [hY]; exact h.row⟩
    rw [(setModifiers_lines scan.toNat k).1]
    exact h.lines t
  have hhandled := handleKey_printsOn hready hkey
  have hreset := hhandled.tidy.same (sameConsole_resetFlags k₁) rfl rfl
  exact ⟨hreset.tidy, fun a ha => (hhandled.memory a ha).trans (hset.memory a ha),
    hhandled.col, hhandled.row⟩

theorem keyboardHandlerMain_tidy {scan : UInt8} {past : UInt32} (h : ConsoleTidy k)
    (hkeys : NoKeyPending k) (hrun : keyboardHandlerMain scan past k = some k') :
    ConsoleTidy k' := by
  have hprints := keyboardHandlerMain_printsOn h hkeys hrun
  have hlines := (keyboardHandlerMain_lines hkeys hrun).lines
  refine ⟨hprints.tidy, fun t => ?_, hprints.col, hprints.row⟩
  rw [hlines]
  by_cases ht : t = k.terminalNumDisplay
  · rw [ht, Function.update_self]
    exact (h.lines _).editLine _ _
  · rw [Function.update_of_ne ht]
    exact h.lines t

theorem terminalWrite_tidy {buf : Option Buf} {nbytes v : Int32} (h : ConsoleTidy k)
    (hrun : terminalWrite buf nbytes k = some (v, k')) : ConsoleTidy k' := by
  have honly := terminalWrite_onlyScreens h.toTidy hrun
  refine ⟨honly.tidy, fun t => ?_, by rw [honly.screenX]; exact h.col,
    by rw [honly.screenY]; exact h.row⟩
  rw [(terminalWrite_draws hrun).lines]
  exact h.lines t

end Screen

end JuddOS
