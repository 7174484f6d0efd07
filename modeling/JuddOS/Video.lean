import JuddOS.Keyboard

/-!
# Video memory behind the page tables

`VideoMapped` says how the kernel sees the screens: `video_mem` is mapped to itself, the page
of the displayed terminal to video memory as well, and the page of each other terminal to
that terminal's buffer.  No function but `set_up_virtual_to_video` changes this, and that
function re-establishes it for the new terminal.

With it the screen functions do not fault, and what they do is said in terms of physical
memory (`scrollUp_eq`, `updateCursor_eq`, `storeChar_eq`).
-/

namespace JuddOS

open Support X86

/-- The VGA page is mapped to itself. -/
structure VgaMapped (p : Paging) : Prop where
  present : (p.pageDirectoryEntry 0).present = true
  small : (p.pageDirectoryEntry 0).pageSize = false
  table : (p.pageDirectoryEntry 0).pageTableAddr = p.layout.pageTable
  entry : (p.pageTableEntry vidMemOffset).present = true
  addr : (p.pageTableEntry vidMemOffset).pageAddr = BitVec.ofNat 20 vidMemOffset

/-- The pages of the three terminals, while `shown` is displayed. -/
structure ScreensMapped (p : Paging) (shown : Tid) : Prop where
  present : (p.pageDirectoryEntry 33).present = true
  small : (p.pageDirectoryEntry 33).pageSize = false
  table : (p.pageDirectoryEntry 33).pageTableAddr = p.layout.pageTableForVideo
  entry : ∀ t : Tid, p.pageTableEntryForVideo (256 + t.val) = videoPte (videoPage shown t)

/-- **How the kernel sees the screens.** -/
structure VideoMapped (k : Kernel) : Prop where
  vidmem : ∀ t, (k.terminalArr t).vidmemAddr = terminalVidmem t
  vga : VgaMapped k.paging
  screens : ScreensMapped k.paging k.terminalNumDisplay

/-! ## Translations -/

theorem VgaMapped.translate {p : Paging} (h : VgaMapped p) {j : Nat} (hj : j < 4096) :
    p.translate (videoAddr + j) = some (videoAddr + j) := by
  have hdir : dirIndex (videoAddr + j) = 0 := by
    simp only [dirIndex, videoAddr]
    omega
  have htable : tableIndex (videoAddr + j) = vidMemOffset := by
    simp only [tableIndex, videoAddr, vidMemOffset]
    omega
  have hpte : p.tables (p.pageDirectoryEntry 0).pageTableAddr (tableIndex (videoAddr + j)) =
      p.pageTableEntry vidMemOffset := by
    rw [h.table, htable, Paging.tables_pageTable]
  have hphys : (BitVec.ofNat 20 vidMemOffset).toNat * 2 ^ 12 + (videoAddr + j) % 2 ^ 12 =
      videoAddr + j := by
    simp only [vidMemOffset, videoAddr, BitVec.toNat_ofNat]
    omega
  rw [Paging.translate, Paging.walk, walk_small (by rw [hdir]) h.present h.small hpte h.entry,
    h.addr, hphys]
  rfl

/-- The page walk of a screen: the mode is that of the directory entry. -/
theorem ScreensMapped.walk_screen {p : Paging} {shown : Tid} (h : ScreensMapped p shown) (t : Tid)
    {j : Nat} (hj : j < 4096) :
    p.walk (terminalVidmem t + j) =
      some ⟨videoPage shown t + j, (p.pageDirectoryEntry 33).userSupervisor⟩ := by
  have hdir : dirIndex (terminalVidmem t + j) = 33 := by
    simp only [dirIndex, terminalVidmem, virtualVideoAddress, sizeOfEntry]
    omega
  have htable : tableIndex (terminalVidmem t + j) = 256 + t.val := by
    simp only [tableIndex, terminalVidmem, virtualVideoAddress, sizeOfEntry]
    omega
  have hoffset : (terminalVidmem t + j) % 2 ^ 12 = j := by
    simp only [terminalVidmem, virtualVideoAddress, sizeOfEntry]
    omega
  have hpte : p.tables (p.pageDirectoryEntry 33).pageTableAddr
      (tableIndex (terminalVidmem t + j)) = videoPte (videoPage shown t) := by
    rw [h.table, htable, Paging.tables_video, h.entry]
  have huser : (videoPte (videoPage shown t)).userSupervisor = true := rfl
  rw [Paging.walk, walk_small (by rw [hdir]) h.present h.small hpte (videoPte_present _), hoffset,
    videoPte_pageAddr, huser, Bool.and_true]

theorem ScreensMapped.translate {p : Paging} {shown : Tid} (h : ScreensMapped p shown) (t : Tid)
    {j : Nat} (hj : j < 4096) :
    p.translate (terminalVidmem t + j) = some (videoPage shown t + j) := by
  rw [Paging.translate, h.walk_screen t hj]
  rfl

/-! ## The mapping functions -/

theorem VgaMapped.setPde {p : Paging} (h : VgaMapped p) {i : Nat} (hi : i ≠ 0)
    (f : Pde → Pde) : VgaMapped (p.setPde i f) := by
  have hpde := p.setPde_of_ne f hi.symm
  exact ⟨by rw [hpde, h.present], by rw [hpde, h.small], by rw [hpde, h.table]; rfl, h.entry,
    h.addr⟩

theorem VgaMapped.setUpVirtualToVideo {p : Paging} (h : VgaMapped p) (tid : Tid) :
    VgaMapped (JuddOS.setUpVirtualToVideo terminalVidmem tid p) := by
  have hpde : (JuddOS.setUpVirtualToVideo terminalVidmem tid p).pageDirectoryEntry 0 =
      p.pageDirectoryEntry 0 := setUpVirtualToVideo_pde_of_ne tid p (by decide)
  exact ⟨by rw [hpde, h.present], by rw [hpde, h.small], by rw [hpde, h.table]; rfl, h.entry,
    h.addr⟩

theorem vgaMapped_initPaging (layout : Layout) (elsewhere : BitVec 20 → Nat → Pte) :
    VgaMapped (initPaging (Paging.zeroed layout elsewhere)) := by
  constructor <;> rfl

theorem ScreensMapped.setPde {p : Paging} {shown : Tid} (h : ScreensMapped p shown) {i : Nat}
    (hi : i ≠ 33) (f : Pde → Pde) : ScreensMapped (p.setPde i f) shown := by
  have hpde := p.setPde_of_ne f hi.symm
  exact ⟨by rw [hpde, h.present], by rw [hpde, h.small], by rw [hpde, h.table]; rfl, h.entry⟩

/-- `set_up_virtual_to_video` maps the pages whatever they were before. -/
theorem screensMapped_setUpVirtualToVideo (tid : Tid) (p : Paging) :
    ScreensMapped (setUpVirtualToVideo terminalVidmem tid p) tid := by
  have hpde := setUpVirtualToVideo_pde tid p
  refine ⟨by rw [hpde], by rw [hpde], by rw [hpde]; rfl, fun t => ?_⟩
  have hindex : (⟨256 + t.val - 256, by omega⟩ : Tid) = t := by
    ext
    simp
  rw [setUpVirtualToVideo_videoPte, dif_pos ⟨by omega, by omega⟩, hindex]

/-! ## The screen functions -/

namespace VideoMapped

variable {k : Kernel}

/-- The page of a terminal. -/
theorem translate (h : VideoMapped k) (t : Tid) {j : Nat} (hj : j < 4096) :
    k.paging.translate ((k.terminalArr t).vidmemAddr + j) =
      some (videoPage k.terminalNumDisplay t + j) := by
  rw [h.vidmem t]
  exact h.screens.translate t hj

/-- `scroll_up` on the screen of the scheduled terminal. -/
theorem scrollUp_eq (h : VideoMapped k) :
    scrollUp k = some
      (Kernel.setTerminal
        { k with phys := scrolledCells k.phys (videoPage k.terminalNumDisplay k.terminalNum) }
        k.terminalNum fun t => { t with cursorY := numRows - 1, cursorX := 0 }) := by
  have hscroll := scrollCells_eq (k := k) fun j (hj : j < sizeOfVidmem) =>
    h.translate k.terminalNum (j := j) (by simp only [sizeOfVidmem] at hj; omega)
  rw [scrollUp, hscroll]
  rfl

/-- The two stores of `storeChar` go to the physical page of the terminal. -/
theorem storeChar_eq (h : VideoMapped k) (t : Tid) (c : UInt8)
    (hcell : numCols * (k.terminalArr t).cursorY + (k.terminalArr t).cursorX < 2048) :
    storeChar t c k = some
      { k with
        charStores :=
          (t, 2 * (numCols * (k.terminalArr t).cursorY + (k.terminalArr t).cursorX)) ::
            k.charStores
        phys := cellStored k.phys (videoPage k.terminalNumDisplay t)
          (numCols * (k.terminalArr t).cursorY + (k.terminalArr t).cursorX) c } := by
  rw [storeChar]
  refine pokeCell_eq c (h.translate t (by omega)) ?_
  rw [Nat.add_assoc, Nat.add_assoc]
  exact h.translate t (by omega)

end VideoMapped

/-- On the screen `update_cursor` only moves the hardware cursor. -/
theorem updateCursor_inside {x y : Nat} (hx : x < numCols) (hy : y < numRows) (k : Kernel) :
    updateCursor x y k = some { k with vgaCursor := (y * numCols + x) % 2 ^ 16 } := by
  rw [updateCursor]
  simp only [Nat.not_le_of_lt hx, if_false, Nat.not_le_of_lt hy]
  rfl

/-- Below the screen it scrolls first. -/
theorem updateCursor_below {x y : Nat} (hx : x < numCols) (hy : numRows ≤ y) (k : Kernel) :
    updateCursor x y k = (scrollUp k).map fun k =>
      { k with vgaCursor := ((numRows - 1) * numCols + x) % 2 ^ 16 } := by
  rw [updateCursor]
  simp only [Nat.not_le_of_lt hx, if_false, hy, if_true]
  cases scrollUp k <;> rfl

end JuddOS
