import JuddOS.Boot
import JuddOS.Support.Run

/-!
# Terminal switching and the three screens

The logical screen of a terminal is what the kernel sees at its `vidmem_addr`.  Only one of
the three is in video memory; `swap_terminal` copies two screens while it changes the
translation of both.

The abstract side is a plain map of three screens (`Screens`), in which a switch does nothing.
`screens_refined` relates the two along every run: the kernel always shows the map, and a
switch leaves it alone and brings the screen of its terminal to video memory.
-/

namespace JuddOS

open Support

/-- Three screens, byte by byte. -/
abbrev Screens : Type := Tid → Nat → UInt8

/-- What happens to the screens. -/
inductive ScreenEvent
  | swap (index : Tid)
  | store (t : Tid) (offset : Nat) (byte : UInt8)

namespace ScreenEvent

/-- What the event means for a map of screens. -/
def apply (screens : Screens) : ScreenEvent → Screens
  | swap _ => screens
  | store t offset byte =>
      Function.update screens t (Function.update (screens t) offset byte)

/-- What the kernel does. -/
def exec (k : Kernel) : ScreenEvent → Option Kernel
  | swap index => swapTerminal index k
  | store t offset byte =>
      if offset < sizeOfVidmem then k.poke ((k.terminalArr t).vidmemAddr + offset) byte else none

end ScreenEvent

/-- The kernel shows these screens at the addresses of the terminals. -/
def Shows (k : Kernel) (screens : Screens) : Prop :=
  ∀ t j, j < sizeOfVidmem → k.peek ((k.terminalArr t).vidmemAddr + j) = some (screens t j)

/-- The logical screens. -/
def logicalScreens (k : Kernel) : Screens := fun t j =>
  (k.peek ((k.terminalArr t).vidmemAddr + j)).getD 0

/-- The cursor of a terminal is on its screen. -/
structure OnScreen (t : Terminal) : Prop where
  cursorX : t.cursorX < numCols
  cursorY : t.cursorY < numRows

theorem OnScreen.iff (t : Terminal) : OnScreen t ↔ t.cursorX < numCols ∧ t.cursorY < numRows :=
  ⟨fun h => ⟨h.cursorX, h.cursorY⟩, fun h => ⟨h.1, h.2⟩⟩

/-- Its cell is one of the 2000 of the screen. -/
theorem OnScreen.cell_lt {t : Terminal} (h : OnScreen t) :
    numCols * t.cursorY + t.cursorX < 2000 := by
  have hx := h.cursorX
  have hy := h.cursorY
  simp only [numCols, numRows] at hx hy ⊢
  omega

/-- The invariant: the video pages are mapped for the displayed terminal, and `update_cursor`
does not scroll. -/
structure ScreensReady (k : Kernel) : Prop where
  mapped : VideoMapped k
  cursor : ∀ t, OnScreen (k.terminalArr t)

/-! ## Pages -/

theorem videoPage_apart : ∀ shown t u : Tid, t ≠ u →
    videoPage shown t + 4096 ≤ videoPage shown u ∨
      videoPage shown u + 4096 ≤ videoPage shown t := by
  decide

theorem videoPage_self (t : Tid) : videoPage t t = videoAddr := if_pos rfl

theorem videoPage_of_ne {shown t : Tid} (h : t ≠ shown) : videoPage shown t = videoBuffer t :=
  if_neg h

theorem VideoMapped.peek {k : Kernel} (h : VideoMapped k) (t : Tid) {j : Nat} (hj : j < 4096) :
    k.peek ((k.terminalArr t).vidmemAddr + j) =
      some (k.phys (videoPage k.terminalNumDisplay t + j)) := by
  rw [Kernel.peek, h.translate t hj]
  rfl

/-- What `Shows` says about physical memory. -/
theorem VideoMapped.shows_iff {k : Kernel} (h : VideoMapped k) (screens : Screens) :
    Shows k screens ↔
      ∀ t j, j < sizeOfVidmem →
        k.phys (videoPage k.terminalNumDisplay t + j) = screens t j := by
  have hpeek : ∀ t j, j < sizeOfVidmem → _ := fun t j (hj : j < sizeOfVidmem) =>
    h.peek t (j := j) (by simp only [sizeOfVidmem] at hj; omega)
  constructor
  · intro hshows t j hj
    have hbyte := hshows t j hj
    rw [hpeek t j hj] at hbyte
    exact Option.some.inj hbyte
  · intro hphys t j hj
    rw [hpeek t j hj, hphys t j hj]

/-! ## A store -/

theorem ScreensReady.store {k : Kernel} (h : ScreensReady k) {screens : Screens}
    (hshows : Shows k screens) (t : Tid) {offset : Nat} (hoffset : offset < sizeOfVidmem)
    (byte : UInt8) :
    ∃ k', ScreenEvent.exec k (.store t offset byte) = some k' ∧ ScreensReady k' ∧
      Shows k' (ScreenEvent.apply screens (.store t offset byte)) := by
  have hpage : offset < 4096 := by
    simp only [sizeOfVidmem] at hoffset
    omega
  have hexec := Kernel.poke_eq (b := byte) (h.mapped.translate t hpage)
  have hmapped : VideoMapped { k with
      phys := Function.update k.phys (videoPage k.terminalNumDisplay t + offset) byte } :=
    ⟨h.mapped.vidmem, h.mapped.vga, h.mapped.screens⟩
  refine ⟨_, (if_pos hoffset).trans hexec, ⟨hmapped, h.cursor⟩, (hmapped.shows_iff _).mpr ?_⟩
  rw [h.mapped.shows_iff] at hshows
  intro u j hj
  simp only [sizeOfVidmem] at hj
  dsimp only [ScreenEvent.apply]
  rcases eq_or_ne u t with rfl | hne
  · rw [Function.update_self, Function.update_apply, Function.update_apply, ← hshows u j hj]
    simp only [Nat.add_left_cancel_iff]
  · have hapart := videoPage_apart k.terminalNumDisplay u t hne
    rw [Function.update_of_ne hne, Function.update_of_ne (by omega)]
    exact hshows u j hj

/-! ## A switch -/

/-- The bytes that `swap_terminal` leaves in physical memory. -/
theorem ScreensReady.swapTerminal_eq {k : Kernel} (h : ScreensReady k) {index : Tid}
    (hne : index ≠ k.terminalNumDisplay) :
    ∃ (temp shown : Buf) (cursor : Nat),
      (∀ j, j < sizeOfVidmem → temp j = k.phys (videoBuffer index + j)) ∧
      (∀ j, j < sizeOfVidmem → shown j = k.phys (videoAddr + j)) ∧
      swapTerminal index k = some
        { k with
          paging := setUpVirtualToVideo terminalVidmem index k.paging
          phys := memcpy (memcpy k.phys (videoBuffer k.terminalNumDisplay) shown sizeOfVidmem)
            videoAddr temp sizeOfVidmem
          terminalNumDisplay := index
          vgaCursor := cursor } := by
  have hsize : ∀ j, j < sizeOfVidmem → j < 4096 := by
    simp only [sizeOfVidmem]
    omega
  have hvidmem : (fun t => (k.terminalArr t).vidmemAddr) = terminalVidmem :=
    funext h.mapped.vidmem
  have hscreens := screensMapped_setUpVirtualToVideo index k.paging
  have hvga := h.mapped.vga.setUpVirtualToVideo index
  have hpage : ∀ t j, j < sizeOfVidmem →
      (setUpVirtualToVideo terminalVidmem index k.paging).translate (terminalVidmem t + j) =
        some (videoPage index t + j) := fun t j hj => hscreens.translate t (hsize j hj)
  obtain ⟨temp, htemp, htemp'⟩ := Kernel.peekRange_eq (k := k) (n := sizeOfVidmem)
    fun j hj => h.mapped.translate index (hsize j hj)
  obtain ⟨shown, hshown, hshown'⟩ := Kernel.peekRange_eq
    (k := { k with paging := setUpVirtualToVideo terminalVidmem index k.paging })
    (n := sizeOfVidmem) fun j hj => hvga.translate (hsize j hj)
  rw [videoPage_of_ne hne] at htemp'
  -- the displayed screen goes to the buffer of its terminal
  obtain ⟨k₁, hk₁, heq₁⟩ : ∃ k₁, Kernel.pokeRange
      { k with paging := setUpVirtualToVideo terminalVidmem index k.paging }
      (k.terminalArr k.terminalNumDisplay).vidmemAddr sizeOfVidmem shown = some k₁ ∧
      k₁ = { k with
        paging := setUpVirtualToVideo terminalVidmem index k.paging
        phys := memcpy k.phys (videoBuffer k.terminalNumDisplay) shown sizeOfVidmem } := by
    refine ⟨_, Kernel.pokeRange_eq fun j hj => ?_, rfl⟩
    rw [h.mapped.vidmem, ← videoPage_of_ne hne.symm]
    exact hpage _ j hj
  -- the other one to video memory
  obtain ⟨k₂, hk₂, heq₂⟩ : ∃ k₂, k₁.pokeRange (k₁.terminalArr index).vidmemAddr sizeOfVidmem temp =
      some k₂ ∧ k₂ = { k₁ with phys := memcpy k₁.phys videoAddr temp sizeOfVidmem } := by
    refine ⟨_, Kernel.pokeRange_eq fun j hj => ?_, rfl⟩
    rw [heq₁]
    dsimp only
    rw [h.mapped.vidmem, ← videoPage_self index]
    exact hpage index j hj
  have hterm₂ : k₂.terminalArr = k.terminalArr := by
    rw [heq₂, heq₁]
  refine ⟨temp, shown, ((k.terminalArr index).cursorY * numCols +
    (k.terminalArr index).cursorX) % 2 ^ 16, htemp', hshown', ?_⟩
  rw [swapTerminal, if_neg hne]
  simp only [Option.bind_eq_bind, htemp, hvidmem, hshown, Option.bind_some, hk₁, hk₂,
    updateCursorOf, hterm₂]
  rw [updateCursor_inside (h.cursor index).1 (h.cursor index).2, heq₂, heq₁]

/-- **A switch shows the same screens.** -/
theorem ScreensReady.swap {k : Kernel} (h : ScreensReady k) {screens : Screens}
    (hshows : Shows k screens) (index : Tid) :
    ∃ k', swapTerminal index k = some k' ∧ ScreensReady k' ∧ Shows k' screens ∧
      k'.terminalNumDisplay = index := by
  rcases eq_or_ne index k.terminalNumDisplay with hsame | hne
  · exact ⟨k, if_pos hsame, h, hshows, hsame.symm⟩
  obtain ⟨temp, shown, cursor, htemp, hshown, hswap⟩ := h.swapTerminal_eq hne
  have hmapped : VideoMapped
      { k with
        paging := setUpVirtualToVideo terminalVidmem index k.paging
        phys := memcpy (memcpy k.phys (videoBuffer k.terminalNumDisplay) shown sizeOfVidmem)
          videoAddr temp sizeOfVidmem
        terminalNumDisplay := index
        vgaCursor := cursor } :=
    ⟨h.mapped.vidmem, h.mapped.vga.setUpVirtualToVideo index,
      screensMapped_setUpVirtualToVideo index k.paging⟩
  refine ⟨_, hswap, ⟨hmapped, h.cursor⟩, (hmapped.shows_iff screens).mpr ?_, rfl⟩
  rw [h.mapped.shows_iff] at hshows
  intro t j hj
  have hlt := hj
  simp only [sizeOfVidmem] at hlt
  dsimp only
  rcases eq_or_ne t index with rfl | ht
  · -- the terminal that is now displayed
    rw [videoPage_self, memcpy_inside (by omega) (by omega), Nat.add_sub_cancel_left, htemp j hj,
      ← videoPage_of_ne hne]
    exact hshows t j hj
  have hvideo := videoPage_apart index t index ht
  rw [videoPage_self, videoPage_of_ne ht] at hvideo
  rw [videoPage_of_ne ht, memcpy_outside (by simp only [sizeOfVidmem]; omega)]
  rcases eq_or_ne t k.terminalNumDisplay with rfl | hold
  · -- the one that was displayed
    rw [memcpy_inside (by omega) (by omega), Nat.add_sub_cancel_left, hshown j hj,
      ← videoPage_self k.terminalNumDisplay]
    exact hshows _ j hj
  · have hbuffers := videoPage_apart index t k.terminalNumDisplay hold
    rw [videoPage_of_ne ht, videoPage_of_ne hne.symm] at hbuffers
    rw [memcpy_outside (by simp only [sizeOfVidmem]; omega), ← videoPage_of_ne hold]
    exact hshows t j hj

/-! ## Runs -/

/-- **One event**: the kernel does to its screens what the event means for the map. -/
theorem ScreensReady.step {k k' : Kernel} {e : ScreenEvent} {screens : Screens}
    (h : ScreensReady k ∧ Shows k screens) (hstep : e.exec k = some k') :
    ScreensReady k' ∧ Shows k' (e.apply screens) := by
  cases e with
  | swap index =>
      obtain ⟨k₁, hk₁, hready, hshows, -⟩ := h.1.swap h.2 index
      cases hk₁.symm.trans hstep
      exact ⟨hready, hshows⟩
  | store t offset byte =>
      have hoffset : offset < sizeOfVidmem := by
        by_contra hout
        rw [ScreenEvent.exec, if_neg hout] at hstep
        cases hstep
      obtain ⟨k₁, hk₁, hready, hshows⟩ := h.1.store h.2 t hoffset byte
      cases hk₁.symm.trans hstep
      exact ⟨hready, hshows⟩

/-- The kernel after `terminal_init`. -/
def terminalsKernel (m : PowerOn) : Kernel := (entryTerminals m).getD (Kernel.zeroed m)

theorem screensReady_terminalsKernel (m : PowerOn) : ScreensReady (terminalsKernel m) := by
  obtain ⟨opened, hk⟩ := entryTerminals_eq m
  rw [terminalsKernel, hk]
  exact ⟨⟨fun _ => rfl, (vgaMapped_initPaging m.layout m.elsewhere).setUpVirtualToVideo 0,
    screensMapped_setUpVirtualToVideo 0 _⟩,
    fun _ => ⟨show 0 < numCols by decide, show 0 < numRows by decide⟩⟩

theorem ScreensReady.shows_logicalScreens {k : Kernel} (h : ScreensReady k) :
    Shows k (logicalScreens k) := by
  intro t j hj
  have hpeek := h.mapped.peek t (j := j) (by simp only [sizeOfVidmem] at hj; omega)
  rw [logicalScreens, hpeek]
  rfl

/-- What the terminals look like when `index` is displayed and the screens are `screens`. -/
structure Displays (k : Kernel) (index : Tid) (screens : Screens) : Prop where
  shows : Shows k screens
  video : ∀ j, j < sizeOfVidmem → k.phys (videoAddr + j) = screens index j
  displayed : ∀ j, j < 4096 →
    k.paging.translate ((k.terminalArr index).vidmemAddr + j) = some (videoAddr + j)
  hidden : ∀ t, t ≠ index → ∀ j, j < 4096 →
    k.paging.translate ((k.terminalArr t).vidmemAddr + j) = some (videoBuffer t + j)

theorem ScreensReady.displays {k : Kernel} {screens : Screens} (h : ScreensReady k)
    (hshows : Shows k screens) : Displays k k.terminalNumDisplay screens where
  shows := hshows
  video j hj := by
    rw [← videoPage_self k.terminalNumDisplay]
    exact (h.mapped.shows_iff screens).mp hshows _ j hj
  displayed j hj := by
    rw [h.mapped.translate _ hj, videoPage_self]
  hidden t ht j hj := by
    rw [h.mapped.translate _ hj, videoPage_of_ne ht]

/-- **The terminals refine a map of three screens.**  After any run the kernel shows the map
that the events lead to, and a switch to any terminal does not fault, leaves the three screens
alone and displays that terminal. -/
theorem screens_refined (m : PowerOn) (es : List ScreenEvent) (k : Kernel)
    (hrun : Run (fun k e k' => ScreenEvent.exec k e = some k') (terminalsKernel m) es k) :
    Displays k k.terminalNumDisplay
        (es.foldl ScreenEvent.apply (logicalScreens (terminalsKernel m))) ∧
      ∀ index, ∃ k', swapTerminal index k = some k' ∧ Displays k' index (logicalScreens k) ∧
        ∀ t j, j < sizeOfVidmem → logicalScreens k' t j = logicalScreens k t j := by
  have hready := screensReady_terminalsKernel m
  have hinv := hrun.invariant_history
    (fun es k => ScreensReady k ∧
      Shows k (es.foldl ScreenEvent.apply (logicalScreens (terminalsKernel m))))
    ⟨hready, hready.shows_logicalScreens⟩ fun es a e b hinv hstep => by
      rw [List.foldl_append]
      exact ScreensReady.step hinv hstep
  refine ⟨hinv.1.displays hinv.2, fun index => ?_⟩
  obtain ⟨k', hswap, hready', hshows', hindex⟩ := hinv.1.swap hinv.1.shows_logicalScreens index
  have hdisplays := hready'.displays hshows'
  rw [hindex] at hdisplays
  refine ⟨k', hswap, hdisplays, fun t j hj => ?_⟩
  rw [logicalScreens, hshows' t j hj]
  rfl

/-- A character on the hidden screen of terminal 1, and two switches. -/
theorem screens_refined_two_switches :
    ∃ k, Run (fun k e k' => ScreenEvent.exec k e = some k') (terminalsKernel .blank)
        [.store 1 0 0x41, .swap 1, .swap 2] k ∧
      Displays k k.terminalNumDisplay
        ([ScreenEvent.store 1 0 0x41, .swap 1, .swap 2].foldl ScreenEvent.apply
          (logicalScreens (terminalsKernel .blank))) ∧
      ∀ index, ∃ k', swapTerminal index k = some k' ∧ Displays k' index (logicalScreens k) ∧
        ∀ t j, j < sizeOfVidmem → logicalScreens k' t j = logicalScreens k t j := by
  have hready := screensReady_terminalsKernel .blank
  obtain ⟨k₁, h₁, hready₁, -⟩ :=
    hready.store hready.shows_logicalScreens 1 (show 0 < sizeOfVidmem by decide) 0x41
  obtain ⟨k₂, h₂, hready₂, -⟩ := hready₁.swap hready₁.shows_logicalScreens 1
  obtain ⟨k₃, h₃, -⟩ := hready₂.swap hready₂.shows_logicalScreens 2
  have hrun : Run (fun k e k' => ScreenEvent.exec k e = some k') (terminalsKernel .blank)
      [.store 1 0 0x41, .swap 1, .swap 2] k₃ :=
    (((Run.nil _).snoc h₁).snoc h₂).snoc h₃
  exact ⟨k₃, hrun, screens_refined .blank _ k₃ hrun⟩

end JuddOS
