import JuddOS.KeyEvents
import JuddOS.TerminalRead

/-!
# What the console leaves alone

Keys, `terminal_write` and `terminal_read` work on screens, cursors, lines and flags.  `Bookkeeping`
is the rest of the kernel that the processes depend on: the page tables, the PCBs and pid bits, the
task-state segment, the two terminal numbers, and what `terminal_arr` holds besides cursors and
lines.

`keyboardHandlerMain_bookkeeping`: a key changes none of it, unless it is a switch key; that one
maps the screens again and changes which terminal is displayed.
-/

namespace JuddOS

open Support

/-- The fields of a terminal that are not its cursor or its line. -/
structure Slot where
  mostRecentPcb : Nat
  ebp : Nat
  esp0 : Nat
  vidmemAddr : Nat
  active : Bool

def Terminal.slot (t : Terminal) : Slot :=
  ⟨t.mostRecentPcb, t.ebp, t.esp0, t.vidmemAddr, t.active⟩

/-- What the console leaves alone. -/
structure Bookkeeping where
  paging : Paging
  tssEsp0 : Nat
  pidBits : Nat → UInt8
  pcb : Nat → Pcb
  availablePid : Nat
  slots : Tid → Slot
  terminalNum : Tid
  display : Tid

def Kernel.bookkeeping (k : Kernel) : Bookkeeping where
  paging := k.paging
  tssEsp0 := k.tssEsp0
  pidBits := k.pidBits
  pcb := k.pcb
  availablePid := k.availablePid
  slots t := (k.terminalArr t).slot
  terminalNum := k.terminalNum
  display := k.terminalNumDisplay

/-- An assignment to a cursor or a line. -/
theorem setTerminal_bookkeeping (k : Kernel) (t : Tid) {f : Terminal → Terminal}
    (hf : ∀ t, (f t).slot = t.slot) : (k.setTerminal t f).bookkeeping = k.bookkeeping := by
  have hslots : (fun u => ((k.setTerminal t f).terminalArr u).slot) =
      fun u => (k.terminalArr u).slot := by
    funext u
    by_cases hu : u = t
    · rw [hu, Kernel.setTerminal_self, hf]
    · rw [Kernel.setTerminal_of_ne k f hu]
  unfold Kernel.bookkeeping
  rw [hslots]
  rfl

/-- A change of memory, the cursors and the VGA controller. -/
theorem bookkeeping_of_undrawn {k k' : Kernel} (h : k'.undrawn = k.undrawn) :
    k'.bookkeeping = k.bookkeeping :=
  read_of_undrawn Kernel.bookkeeping (fun _ => rfl) h

theorem updateCursor_bookkeeping {x y : Nat} {k k' : Kernel} (h : updateCursor x y k = some k') :
    k'.bookkeeping = k.bookkeeping :=
  bookkeeping_of_undrawn (updateCursor_undrawn h)

theorem putcAddr_bookkeeping {c : UInt8} {k k' : Kernel} (h : putcAddr c k = some k') :
    k'.bookkeeping = k.bookkeeping :=
  bookkeeping_of_undrawn (putcAddr_undrawn h)

theorem terminalWrite_bookkeeping {buf : Option Buf} {nbytes v : Int32} {k k' : Kernel}
    (h : terminalWrite buf nbytes k = some (v, k')) : k'.bookkeeping = k.bookkeeping :=
  bookkeeping_of_undrawn (terminalWrite_undrawn h)

/-! ## The line -/

section Keys

variable {k k' : Kernel}

theorem add2buf_bookkeeping {c : UInt8} (h : add2buf c k = some k') :
    k'.bookkeeping = k.bookkeeping := by
  rw [add2buf] at h
  dsimp only at h
  split at h
  case isFalse =>
    cases h
    rfl
  case isTrue =>
    rw [Option.bind_eq_bind, Option.bind_eq_some_iff] at h
    obtain ⟨k₁, hput, hmove⟩ := h
    have happend := setTerminal_bookkeeping k₁ k.terminalNumDisplay (f := appendToLine c)
      fun _ => rfl
    rw [← putcAddr_bookkeeping hput, ← happend]
    split at hmove
    · exact (updateCursor_bookkeeping hmove).trans (setTerminal_bookkeeping _ _ (by intro t; rfl))
    · exact (updateCursor_bookkeeping hmove).trans (setTerminal_bookkeeping _ _ (by intro t; rfl))

theorem enterPress_bookkeeping {c : UInt8} (h : enterPress c k = some k') :
    k'.bookkeeping = k.bookkeeping := by
  rw [enterPress] at h
  dsimp only at h
  split at h
  case isFalse =>
    cases h
    rfl
  case isTrue =>
    rw [Option.bind_eq_bind, Option.bind_eq_some_iff] at h
    obtain ⟨k₁, hadd, hrest⟩ := h
    have hmoved := setTerminal_bookkeeping k₁ k.terminalNumDisplay
      (f := fun t => { t with cursorX := 0, cursorY := (t.cursorY + 1) % 256 }) fun _ => rfl
    rw [← add2buf_bookkeeping hadd, ← hmoved]
    split at hrest
    · rw [Option.bind_eq_some_iff] at hrest
      obtain ⟨k₃, hscroll, hk'⟩ := hrest
      cases hk'
      have hscrolled : k₃.bookkeeping = _ := congrArg Kernel.bookkeeping (scrollCells_frame hscroll)
      exact (setTerminal_bookkeeping k₃ _ (by intro t; rfl)).trans hscrolled
    · cases hrest
      rfl

theorem deleteCharFromBuf_bookkeeping (h : deleteCharFromBuf k = some k') :
    k'.bookkeeping = k.bookkeeping := by
  rw [deleteCharFromBuf] at h
  dsimp only at h
  split at h
  case isFalse =>
    cases h
    rfl
  case isTrue =>
    have hdrop := setTerminal_bookkeeping k k.terminalNumDisplay (f := dropFromLine) fun _ => rfl
    rw [← hdrop]
    split at h
    · exact (updateCursor_bookkeeping h).trans (setTerminal_bookkeeping _ _ (by intro t; rfl))
    · exact (updateCursor_bookkeeping h).trans (setTerminal_bookkeeping _ _ (by intro t; rfl))

theorem clearbuf_bookkeeping (k : Kernel) : (clearbuf k).bookkeeping = k.bookkeeping :=
  setTerminal_bookkeeping k _ fun _ => rfl

/-- A switch maps the screens of the terminals again. -/
def Bookkeeping.switched (b : Bookkeeping) (index : Tid) : Bookkeeping :=
  if index = b.display then b
  else { b with
    paging := setUpVirtualToVideo (fun t => (b.slots t).vidmemAddr) index b.paging
    display := index }

theorem swapTerminal_bookkeeping {index : Tid} (h : swapTerminal index k = some k') :
    k'.bookkeeping = k.bookkeeping.switched index := by
  rw [swapTerminal] at h
  unfold Bookkeeping.switched
  split at h
  case isTrue hsame =>
    cases h
    exact (if_pos hsame).symm
  case isFalse hne =>
    rw [if_neg (show index ≠ k.bookkeeping.display from hne)]
    simp only [Option.bind_eq_bind, Option.bind_eq_some_iff] at h
    obtain ⟨temp, -, shown, -, k₁, hold, k₂, hnew, hcursor⟩ := h
    have hframe := (Kernel.pokeRange_frame hnew).trans
      (congrArg (fun k₁ : Kernel => { k₁ with phys := k₂.phys }) (Kernel.pokeRange_frame hold))
    rw [updateCursor_bookkeeping hcursor, hframe]
    rfl

/-- What a key does to the bookkeeping. -/
def Bookkeeping.afterKey (b : Bookkeeping) : Key → Bookkeeping
  | .switch index => b.switched index
  | _ => b

theorem handleKey_bookkeeping {key : Key} (h : handleKey key k = some k') :
    k'.bookkeeping = k.bookkeeping.afterKey key := by
  cases key with
  | idle =>
      dsimp only [handleKey] at h
      split at h
      · exact enterPress_bookkeeping h
      · cases h
        rfl
  | erase =>
      dsimp only [handleKey] at h
      split at h
      · have hpressed := enterPress_bookkeeping h
        exact hpressed
      · rw [Option.bind_eq_some_iff] at h
        obtain ⟨k₁, hbuf, hscreen⟩ := h
        have hdropped := deleteCharFromBuf_bookkeeping hbuf
        exact (putcAddr_bookkeeping hscreen).trans hdropped
  | switch index =>
      dsimp only [handleKey] at h
      rw [swapTerminal_bookkeeping h]
      fin_cases index <;> rfl
  | clear =>
      dsimp only [handleKey] at h
      rw [Option.bind_eq_some_iff] at h
      obtain ⟨k₁, hclear, hcursor⟩ := h
      have hcleared := bookkeeping_of_undrawn (clear_undrawn hclear)
      have hempty := clearbuf_bookkeeping { k with ctrlFlagL := true }
      exact (bookkeeping_of_undrawn (initCursor_undrawn hcursor)).trans (hcleared.trans hempty)
  | «show» =>
      dsimp only [handleKey] at h
      rw [Option.bind_eq_bind, Option.bind_eq_some_iff] at h
      obtain ⟨k₁, hprint, hrest⟩ := h
      have hprinted := bookkeeping_of_undrawn (printBuf_undrawn hprint)
      refine Eq.trans ?_ hprinted
      split at hrest
      · exact enterPress_bookkeeping hrest
      · cases hrest
        rfl
  | enter =>
      have hpressed := enterPress_bookkeeping h
      exact hpressed
  | char ascii =>
      dsimp only [handleKey] at h
      split at h
      · have hpressed := enterPress_bookkeeping h
        exact hpressed
      · split at h
        · have hadded := add2buf_bookkeeping h
          exact hadded
        · cases h
          rfl

/-- **What `keyboard_handler_main` does to the bookkeeping.** -/
theorem keyboardHandlerMain_bookkeeping {scan : UInt8} {past : UInt32} (hkeys : NoKeyPending k)
    (h : keyboardHandlerMain scan past k = some k') :
    k'.bookkeeping = k.bookkeeping.afterKey (keyOf scan past k) ∧ NoKeyPending k' := by
  rw [keyboardHandlerMain_eq scan past hkeys, Option.map_eq_some_iff] at h
  obtain ⟨k₁, hkey, rfl⟩ := h
  have hmodifiers : (setModifiers scan.toNat k).bookkeeping = k.bookkeeping := by
    unfold setModifiers
    split_ifs <;> rfl
  refine ⟨?_, noKeyPending_resetFlags k₁⟩
  rw [← hmodifiers]
  have hhandled := handleKey_bookkeeping hkey
  exact hhandled

end Keys

/-! ## `terminal_read` -/

theorem plantReturn_bookkeeping (k : Kernel) : (plantReturn k).bookkeeping = k.bookkeeping :=
  setTerminal_bookkeeping k _ fun _ => rfl

theorem takeLine_bookkeeping (buf : Buf) (nbytes : Int32) (k : Kernel) :
    (takeLine buf nbytes k).2.bookkeeping = k.bookkeeping :=
  clearbuf_bookkeeping _

end JuddOS
