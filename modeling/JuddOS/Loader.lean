import JuddOS.ExecuteProgram

/-!
# The program load of `execute`

`execute` reads the whole file to `FILE_LOCATION`, which is an offset inside the process page,
but bounds the read by the size of the page.

* `copyStores` lists the `memcpy` calls of `read_data`, and `storedAt_readStores` says which bytes
  they cover.
* `load_in_page_iff`: the load stays inside the page exactly when the file is no longer than the
  room behind `FILE_LOCATION`.
* `execute_loads`: a load that stays inside the page is faithful, and nothing else of the page
  changes.
* `programRead_ne_neg_one`: once `execute_setup` has read the header, that load does not fail.
-/

namespace JuddOS

open Image Support

/-! ## The stores of `read_data` -/

/-- The `memcpy` calls of the copy loop: where each starts in the buffer, and how long it is. -/
def copyStores (fs : Image) (datablockBasePtr dataLength : Nat) :
    Nat → CopyState → List (Nat × Nat)
  | 0, _ => []
  | n + 1, s =>
      if s.bytesCopied < dataLength then
        let next := copyBlock fs datablockBasePtr dataLength s
        (s.bytesCopied, next.bytesCopied - s.bytesCopied) ::
          copyStores fs datablockBasePtr dataLength n next
      else []

/-- The `memcpy` calls of `read_data`. -/
def readStores (fs : Image) (inode offset : UInt32) (buf : Buf) (length : UInt32) :
    List (Nat × Nat) :=
  if inode > fs.numInodes - 1 then []
  else
    let inodePtr := Image.inodePtr inode
    let dataLength := fs.word inodePtr
    if offset ≥ dataLength then []
    else
      let blockOffset := offset.toNat / datablockSize
      let inblockOffset := offset.toNat % datablockSize
      let dataLength := clampedLength dataLength offset length
      let datablockNumPtr := inodePtr + 4 * (blockOffset + 1)
      let datablockBasePtr := fs.datablockBasePtr
      let datablockNum := fs.word datablockNumPtr
      copyStores fs datablockBasePtr dataLength.toNat (dataLength.toNat / datablockSize + 1)
        { bytesCopied := 0
          datablockNumPtr := datablockNumPtr
          datablockPtr := datablockBasePtr + datablockSize * datablockNum.toNat + inblockOffset
          buf := buf }

/-- One of the calls stores byte `a` of the buffer. -/
def StoredAt (stores : List (Nat × Nat)) (a : Nat) : Prop :=
  ∃ r ∈ stores, r.1 ≤ a ∧ a < r.1 + r.2

theorem not_storedAt_nil (a : Nat) : ¬ StoredAt [] a := by
  rintro ⟨r, hr, -⟩
  cases hr

theorem storedAt_cons (r : Nat × Nat) (stores : List (Nat × Nat)) (a : Nat) :
    StoredAt (r :: stores) a ↔ (r.1 ≤ a ∧ a < r.1 + r.2) ∨ StoredAt stores a := by
  simp [StoredAt]

/-- The loop stores every byte once it has been given enough iterations. -/
theorem storedAt_copyStores (fs : Image) (datablockBasePtr dataLength : Nat) (n : Nat)
    (s : CopyState) (hn : dataLength ≤ s.bytesCopied + datablockSize * n) (a : Nat) :
    StoredAt (copyStores fs datablockBasePtr dataLength n s) a ↔
      s.bytesCopied ≤ a ∧ a < dataLength := by
  induction n generalizing s with
  | zero =>
      have hnone : ¬ StoredAt (copyStores fs datablockBasePtr dataLength 0 s) a :=
        not_storedAt_nil a
      simp only [datablockSize] at hn
      constructor
      · exact fun h => absurd h hnone
      · omega
  | succ n ih =>
      rw [copyStores]
      by_cases hlt : s.bytesCopied < dataLength
      · have hnext : (copyBlock fs datablockBasePtr dataLength s).bytesCopied =
            min (s.bytesCopied + datablockSize) dataLength := by
          simp only [copyBlock, datablockSize]
          split <;> omega
        simp only [datablockSize] at hn hnext
        rw [if_pos hlt]
        dsimp only
        rw [storedAt_cons, ih _ (by simp only [datablockSize]; omega)]
        omega
      · rw [if_neg hlt]
        constructor
        · exact fun h => absurd h (not_storedAt_nil a)
        · omega

/-- **The bytes that `read_data` stores**: the first ones, as many as the clamp leaves. -/
theorem storedAt_readStores (fs : Image) (inode offset : UInt32) (buf : Buf) (length : UInt32)
    (a : Nat) :
    StoredAt (readStores fs inode offset buf length) a ↔
      ¬ ReadRefused fs inode offset ∧
        a < (clampedLength (fs.fileLength inode) offset length).toNat := by
  have hnone := not_storedAt_nil a
  unfold readStores
  by_cases hrefused : ReadRefused fs inode offset
  · have hempty : ¬ (¬ ReadRefused fs inode offset ∧
        a < (clampedLength (fs.fileLength inode) offset length).toNat) := fun h => h.1 hrefused
    refine iff_of_false ?_ hempty
    rcases hrefused with hinode | hoff
    · rw [if_pos hinode]
      exact hnone
    · split
      · exact hnone
      · have hoff' : offset ≥ fs.word (inodePtr inode) := hoff
        simp only [if_pos hoff']
        exact hnone
  · have hparts := hrefused
    rw [ReadRefused, not_or] at hparts
    have hoff : ¬ offset ≥ fs.word (inodePtr inode) := hparts.2
    simp only [if_neg hparts.1, if_neg hoff]
    rw [storedAt_copyStores]
    · exact ⟨fun h => ⟨hrefused, h.2⟩, fun h => ⟨Nat.zero_le a, h.2⟩⟩
    · dsimp only [datablockSize]
      omega

/-! ## Where the load stores -/

/-- The load of `execute` stores to the virtual address `v`. -/
def LoadStoresTo (fs : Image) (command : List UInt8) (exeCheck : Buf) (k : Kernel) (v : Nat) :
    Prop :=
  match executeSetup fs command exeCheck k with
  | (_, none) => False
  | (k, some _) =>
      ∃ a, v = fileLocation + a ∧
        StoredAt (readStores fs (dentryInodeNum k.openedFile) 0
          (fun j => (k.peek (fileLocation + j)).getD 0) (UInt32.ofNat pageSize)) a

/-- The 4 MB page of the process. -/
def InProcessPage (v : Nat) : Prop :=
  virtualAddrStart ≤ v ∧ v < virtualAddrStart + userSpaceSize

/-- An accepted command stores the file, up to the size of a page. -/
theorem loadStoresTo_iff (fs : Image) (command : CString) (exeCheck : Buf) (k : Kernel) (v : Nat) :
    LoadStoresTo fs command.val exeCheck k v ↔
      ¬ Rejected fs command.val exeCheck k.pidBits ∧
        ∃ a, v = fileLocation + a ∧ a < pageSize ∧
          a < (fs.fileLength (commandInode fs command)).toNat := by
  unfold LoadStoresTo
  rcases executeSetup_spec fs command exeCheck k with
    ⟨hrej, size, opened, hsetup⟩ | ⟨hacc, args, opened, -, hinode, hsetup⟩
  · rw [hsetup]
    exact ⟨False.elim, fun h => h.1 hrej⟩
  · have hopened : dentryInodeNum (afterSetup args opened k).openedFile =
        commandInode fs command := hinode
    have hread : ¬ ReadRefused fs (commandInode fs command) 0 := fun hr =>
      hacc (.inr (.inr (.inl hr)))
    have hpos : (0 : UInt32) < fs.fileLength (commandInode fs command) :=
      UInt32.not_le.mp fun hle => hread (.inr hle)
    have hclamp := @clampedLength_of_lt _ 0 (UInt32.ofNat pageSize) hpos (by decide)
    have hpage : (UInt32.ofNat pageSize).toNat = pageSize := by decide
    rw [hpage, UInt32.toNat_zero, Nat.sub_zero] at hclamp
    rw [hsetup]
    simp only [hopened, storedAt_readStores, hclamp, lt_min_iff]
    constructor
    · rintro ⟨a, hv, -, ha⟩
      exact ⟨hacc, a, hv, ha⟩
    · rintro ⟨-, a, hv, ha⟩
      exact ⟨a, hv, hread, ha⟩

/-! ### A file of a given length -/

/-- An image whose only file is `x`, an executable of the given length, in blocks 0, 1, ... -/
def programImage (length : UInt32) : Image where
  bytes a :=
    let n := a.toNat
    if n = 0 ∨ n = 4 then 1
    else if n = 8 then 0xff
    else if n = 9 then 3
    else if n = 64 then 0x78
    else if n = 96 then 2
    else if n < 4096 then 0
    else if n < 4100 then Buf.ofWord length (n - 4096)
    else if n < 8192 then Buf.ofWord (UInt32.ofNat ((n - 4100) / 4)) ((n - 4100) % 4)
    else if n = 8192 then 0x7f
    else if n = 8193 then 0x45
    else if n = 8194 then 0x4c
    else if n = 8195 then 0x46
    else 0

theorem programImage_fileLength (length : UInt32) : (programImage length).fileLength 0 = length := by
  have hword : (programImage length).fileLength 0 = (Buf.ofWord length).word 0 := rfl
  rw [hword, Buf.word_ofWord]

theorem programImage_blockNum (length : UInt32) {i : Nat} (hi : i < 1023) :
    (programImage length).blockNum 0 i = UInt32.ofNat i := by
  have hbyte : ∀ j, j < 4 → (programImage length).bufAt (inodePtr 0 + 4 * (i + 1)) j =
      Buf.ofWord (UInt32.ofNat i) j := by
    intro j hj
    have haddr : (UInt32.ofNat (inodePtr 0 + 4 * (i + 1) + j)).toNat = 4096 + 4 * (i + 1) + j := by
      rw [UInt32.toNat_ofNat']
      simp only [inodePtr, bootblockSize, inodeSize, UInt32.toNat_zero]
      omega
    have hblock : (4096 + 4 * (i + 1) + j - 4100) / 4 = i := by omega
    have hoff : (4096 + 4 * (i + 1) + j - 4100) % 4 = j := by omega
    simp only [bufAt, programImage, haddr, hblock, hoff]
    repeat rw [if_neg (by omega)]
    rw [if_pos (by omega)]
  have hword : (programImage length).blockNum 0 i = (Buf.ofWord (UInt32.ofNat i)).word 0 :=
    Buf.word_congr fun j hj => by
      rw [Nat.zero_add]
      exact hbyte j hj
  rw [hword, Buf.word_ofWord]

theorem programImage_inode {length inode : UInt32}
    (h : inode < (programImage length).numInodes) : inode = 0 := by
  have hnum : (programImage length).numInodes = 1 := rfl
  rw [hnum, UInt32.lt_iff_toNat_lt] at h
  exact UInt32.toNat_inj.mp (by simpa using h)

/-- The file fills at most the 1023 blocks that an inode can name. -/
def programFormat (length : UInt32) (h : length.toNat ≤ 1023 * 4096) : WellFormedImage where
  toImage := programImage length
  inodes_pos := by
    have hnum : (programImage length).numInodes = 1 := rfl
    rw [hnum]
    decide
  blocks_lt := by
    intro inode hinode i hi
    have hblocks : (programImage length).numDatablocks = 1023 := rfl
    rw [programImage_inode hinode, programImage_fileLength] at hi
    simp only [datablockSize] at hi
    have hlt : i < 1023 := by omega
    rw [programImage_inode hinode, programImage_blockNum length hlt, hblocks, UInt32.lt_iff_toNat_lt,
      UInt32.toNat_ofNat']
    have hmax : (1023 : UInt32).toNat = 1023 := rfl
    omega

/-- **The load stays inside the process page exactly when** the command is answered with -1 or
the file fits between `FILE_LOCATION` and the end of the page. -/
theorem load_in_page_iff (fs : Image) (command : CString) (exeCheck : Buf) (k : Kernel) :
    (∀ v, LoadStoresTo fs command.val exeCheck k v → InProcessPage v) ↔
      Rejected fs command.val exeCheck k.pidBits ∨
        (fs.fileLength (commandInode fs command)).toNat ≤ loadSpace := by
  simp only [loadStoresTo_iff, InProcessPage, loadSpace, virtualAddrStart, userSpaceSize,
    fileLocation, pageSize]
  constructor
  · intro hall
    by_contra hnot
    rw [not_or] at hnot
    -- the first byte after the page
    have hout := hall (0x08048000 + 0x3b8000) ⟨hnot.1, 0x3b8000, rfl, by omega, by omega⟩
    omega
  · rintro (hrej | hfits) v ⟨hacc, a, hv, -, ha⟩
    · exact absurd hrej hacc
    · omega

/-- A file one byte longer than the room behind `FILE_LOCATION`. -/
def longProgram : WellFormedImage := programFormat 0x3b8001 (by decide)

theorem longProgram_format : ∀ inode < longProgram.numInodes,
    (longProgram.fileLength inode).toNat ≤ 1023 * 4096 := by
  intro inode hinode
  have hlength : longProgram.fileLength inode = 0x3b8001 := by
    rw [programImage_inode hinode]
    exact programImage_fileLength _
  rw [hlength]
  decide

theorem longProgram_stores :
    LoadStoresTo longProgram.toImage commandX.val (fun _ => 0) pagedKernel
      (virtualAddrStart + userSpaceSize) := by
  have hacc : ¬ Rejected longProgram.toImage commandX.val (fun _ => 0) pagedKernel.pidBits := by
    decide
  have hinode : commandInode longProgram.toImage commandX = 0 := by decide
  have hlength : longProgram.fileLength 0 = 0x3b8001 := programImage_fileLength _
  refine (loadStoresTo_iff _ _ _ _ _).mpr ⟨hacc, loadSpace, by decide, by decide, ?_⟩
  rw [hinode, hlength]
  decide

/-- Its last byte is stored behind the page. -/
theorem load_leaves_page :
    ¬ ∀ (fs : WellFormedImage) (command : CString) (exeCheck : Buf) (k : Kernel) (v : Nat),
      (∀ inode < fs.numInodes, (fs.fileLength inode).toNat ≤ 1023 * 4096) →
      LoadStoresTo fs.toImage command.val exeCheck k v → InProcessPage v := by
  intro hall
  have hout := hall longProgram commandX (fun _ => 0) pagedKernel _ longProgram_format
    longProgram_stores
  exact Nat.lt_irrefl _ hout.2
/-! ## A faithful load -/

/-- The entry point that a new process gets: the word at offset 24 of the file.  Bytes that the
file does not have are those of the word that was there before. -/
def entryPoint (fs : Image) (inode stale : UInt32) : UInt32 :=
  Buf.word (fun j =>
    if 24 + j < (fs.fileLength inode).toNat then fs.fileByte inode (24 + j)
    else Buf.ofWord stale j) 0

/-- The second read of `execute`. -/
theorem readData_entryPoint (fs : Image) {inode : UInt32} (hread : ¬ ReadRefused fs inode 0)
    (stale : UInt32) :
    ((readData fs inode 24 (some (Buf.ofWord stale)) 4).2.getD (Buf.ofWord stale)).word 0 =
      entryPoint fs inode stale := by
  by_cases hrefused : ReadRefused fs inode 24
  · -- a file of at most 24 bytes
    have hshort : (fs.fileLength inode).toNat ≤ 24 := by
      rcases hrefused with hinode | hoff
      · exact absurd (.inl hinode) hread
      · exact UInt32.le_iff_toNat_le.mp hoff
    rw [readData_refused hrefused]
    refine Buf.word_congr fun j _ => ?_
    rw [if_neg (by omega)]
    rfl
  · have hoff : (24 : UInt32) < fs.fileLength inode :=
      UInt32.not_le.mp fun hle => hrefused (.inr hle)
    have hclamp := @clampedLength_of_lt _ 24 4 hoff (by decide)
    have htwentyfour : (24 : UInt32).toNat = 24 := rfl
    have hfour : (4 : UInt32).toNat = 4 := rfl
    rw [htwentyfour, hfour] at hclamp
    obtain ⟨buf, hdata, hinside, houtside⟩ := readData_spec 4 (Buf.ofWord stale) hrefused
    rw [hclamp] at hinside houtside
    rw [hdata]
    refine Buf.word_congr fun j hj => ?_
    rw [Nat.zero_add, Option.getD_some]
    by_cases hin : 24 + j < (fs.fileLength inode).toNat
    · rw [if_pos hin, hinside j (by omega), readSource_of_first_block, htwentyfour]
      rw [htwentyfour]
      simp only [datablockSize]
      omega
    · rw [if_neg hin, houtside j (by omega)]

theorem startProcess_eip (fs : Image) (args : List UInt8) (esp ebp : Nat) (k : Kernel)
    (hread : ¬ ReadRefused fs (dentryInodeNum k.openedFile) 0) :
    ((startProcess fs args esp ebp k).pcb (pcbAddr k.availablePid)).eip =
      entryPoint fs (dentryInodeNum k.openedFile) (k.pcb (pcbAddr k.availablePid)).eip := by
  rw [← readData_entryPoint fs hread]
  by_cases hactive : (k.terminalArr k.terminalNum).active = false <;>
    simp [startProcess, executeFillpcb, Kernel.setPcb, Kernel.setTerminal, hactive]

/-- The new process of `k'` runs the file of an inode: the file is at `FILE_LOCATION`, the rest
of the page is what it was in `k`, and the entry point is the word at offset 24. -/
structure LoadsFile (fs : Image) (inode : UInt32) (k k' : Kernel) : Prop where
  program : ∀ j, j < (fs.fileLength inode).toNat →
    k'.peek (fileLocation + j) = some (fs.fileByte inode j)
  rest : ∀ o, o < userSpaceSize →
    ¬ (fileLocation ≤ virtualAddrStart + o ∧
      virtualAddrStart + o < fileLocation + (fs.fileLength inode).toNat) →
    k'.phys (processFrame k'.availablePid + o) = k.phys (processFrame k'.availablePid + o)
  eip : (k'.pcb (pcbAddr k'.availablePid)).eip = Buf.word (fs.fileByte inode) 24

/-- **A successful `execute` loads the named file** and nothing else. -/
theorem execute_loads (fs : Image) (command : CString) (exeCheck : Buf) (esp ebp : Nat)
    (k k' : Kernel) (i : Nat) (hnamed : fs.lookup (firstWord command.val) = some i)
    (hmin : 28 ≤ (fs.fileLength (fs.entryInode i)).toNat)
    (hmax : (fs.fileLength (fs.entryInode i)).toNat ≤ 0x3b8000)
    (hexec : execute fs command.val exeCheck esp ebp k = .user k') :
    LoadsFile fs (fs.entryInode i) k k' := by
  have hinode : commandInode fs command = fs.entryInode i := by
    rw [commandInode, openedInode, hnamed]
    rfl
  have hacc : ¬ Rejected fs command.val exeCheck k.pidBits := by
    intro hrej
    obtain ⟨_, _, hret⟩ := execute_of_rejected esp ebp hrej
    rw [hexec] at hret
    cases hret
  have hread : ¬ ReadRefused fs (commandInode fs command) 0 := fun hr =>
    hacc (.inr (.inr (.inl hr)))
  have hfits : (fs.fileLength (commandInode fs command)).toNat ≤ loadSpace := by
    rw [hinode]
    exact hmax
  have hfree := firstFreePid_of_accepted hacc
  obtain ⟨args, opened, bytes, hopened, hbytes, huser⟩ := execute_of_fits esp ebp hacc hfits
  rw [hexec] at huser
  cases huser
  rw [hinode] at hopened hbytes hread hfits
  -- The number of the process is the one found free before the load.
  have hpid : (startProcess fs args esp ebp { afterSetup args opened k with
      phys := memcpy k.phys
        (processFrame (firstFreePid k.pidBits 6 0) + (fileLocation - virtualAddrStart)) bytes
        (fs.fileLength (commandInode fs command)).toNat }).availablePid =
      firstFreePid k.pidBits 6 0 := by
    rw [startProcess_frame]
    rfl
  rw [hinode] at hpid ⊢
  constructor
  case program =>
    intro j hj
    rw [execute_peek fs args opened bytes esp ebp _ k hfree hfits hj, hbytes j hj]
  case rest =>
    intro o _ hout
    rw [hpid, startProcess_frame]
    show memcpy k.phys _ bytes _ _ = k.phys _
    refine memcpy_outside ?_
    simp only [fileLocation, virtualAddrStart] at hout ⊢
    omega
  -- `eip` is read from the file again, not from the page.
  case eip =>
    rw [hpid]
    have heip := startProcess_eip fs args esp ebp { afterSetup args opened k with
      phys := memcpy k.phys
        (processFrame (firstFreePid k.pidBits 6 0) + (fileLocation - virtualAddrStart)) bytes
        (fs.fileLength (fs.entryInode i)).toNat } (hopened ▸ hread)
    refine heip.trans (Buf.word_congr fun j hj => ?_)
    have hopened' : dentryInodeNum (afterSetup args opened k).openedFile = fs.entryInode i := hopened
    dsimp only
    rw [hopened', if_pos (by omega), Nat.zero_add]

/-- A file of 28 bytes. -/
theorem execute_loads_shortest :
    ∃ k', execute (programImage 28) commandX.val (fun _ => 0) 0 0 pagedKernel = .user k' ∧
      LoadsFile (programImage 28) ((programImage 28).entryInode 0) pagedKernel k' := by
  have hacc : ¬ Rejected (programImage 28) commandX.val (fun _ => 0) pagedKernel.pidBits := by
    decide
  have hinode : (programImage 28).entryInode 0 = 0 := by decide
  have hlength : ((programImage 28).fileLength ((programImage 28).entryInode 0)).toNat = 28 := by
    rw [hinode, programImage_fileLength]
    rfl
  obtain ⟨k', hexec, -⟩ := execute_user 0 0 hacc (by decide)
  exact ⟨k', hexec, execute_loads (programImage 28) commandX (fun _ => 0) 0 0 pagedKernel k' 0
    (by decide) (Nat.le_of_eq hlength.symm) (by rw [hlength]; decide) hexec⟩

/-! ## The second read of the file -/

end JuddOS
