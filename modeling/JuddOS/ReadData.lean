import JuddOS.FileSystem

/-!
# `read_data` against the file it reads

`readData_spec` says what a read does, in the words of the code: how many bytes the clamp
leaves (`clampedLength`) and from where the copy loop takes byte `k` (`copySource`).  The
loop is one invariant, `CopyInv`, kept by one iteration (`copyInv_copyBlock`) and so by the
whole loop (`copyLoop_spec`).

The file itself is `Image.fileByte`.  The two agree when a read starts on a block boundary
or stays inside its first block.  In general they do not: the first iteration copies up to
4096 bytes from wherever in the block the read starts, and so runs on into the data block
that happens to follow in the image.
-/

namespace JuddOS

open Image

theorem clampedLength_of_lt {fileLength offset length : UInt32} (hoff : offset < fileLength)
    (h : offset.toNat + length.toNat < 2 ^ 32) :
    (clampedLength fileLength offset length).toNat =
      min length.toNat (fileLength.toNat - offset.toNat) := by
  rw [UInt32.lt_iff_toNat_lt] at hoff
  have hsum : (offset + length).toNat = offset.toNat + length.toNat := by
    rw [UInt32.toNat_add, Nat.mod_eq_of_lt h]
  have hsub : (fileLength - offset).toNat = fileLength.toNat - offset.toNat :=
    UInt32.toNat_sub_of_le _ _ (UInt32.le_iff_toNat_le.mpr (by omega))
  unfold clampedLength
  by_cases hclamp : fileLength < offset + length
  · simp only [if_pos hclamp]
    rw [UInt32.lt_iff_toNat_lt, hsum] at hclamp
    by_cases hlen : length > fileLength - offset
    · rw [if_pos hlen, hsub]
      rw [gt_iff_lt, UInt32.lt_iff_toNat_lt, hsub] at hlen
      omega
    · rw [if_neg hlen]
      rw [gt_iff_lt, UInt32.lt_iff_toNat_lt, hsub] at hlen
      omega
  · simp only [if_neg hclamp]
    rw [UInt32.lt_iff_toNat_lt, hsum] at hclamp
    have hlen : ¬ length > fileLength := by
      rw [gt_iff_lt, UInt32.lt_iff_toNat_lt]
      omega
    rw [if_neg hlen]
    omega

/-- The clamp never asks for more than the caller does. -/
theorem clampedLength_le (fileLength offset length : UInt32) :
    (clampedLength fileLength offset length).toNat ≤ length.toNat := by
  unfold clampedLength
  dsimp only
  generalize (if fileLength < offset + length then fileLength - offset else fileLength) = left
  split
  · rename_i hmore
    exact UInt32.le_iff_toNat_le.mp (UInt32.le_of_lt hmore)
  · exact Nat.le_refl _

/-- When `offset + length` wraps, the offset is not taken off the length of the file. -/
theorem clampedLength_of_ge {fileLength offset length : UInt32} (hoff : offset < fileLength)
    (h : 2 ^ 32 ≤ offset.toNat + length.toNat) :
    (clampedLength fileLength offset length).toNat = min length.toNat fileLength.toNat := by
  rw [UInt32.lt_iff_toNat_lt] at hoff
  have hlength := length.toNat_lt
  have hoffset := offset.toNat_lt
  have hsum : (offset + length).toNat = offset.toNat + length.toNat - 2 ^ 32 := by
    rw [UInt32.toNat_add]
    omega
  have hclamp : ¬ fileLength < offset + length := by
    rw [UInt32.lt_iff_toNat_lt, hsum]
    omega
  unfold clampedLength
  simp only [if_neg hclamp]
  by_cases hlen : length > fileLength
  · rw [if_pos hlen]
    rw [gt_iff_lt, UInt32.lt_iff_toNat_lt] at hlen
    omega
  · rw [if_neg hlen]
    rw [gt_iff_lt, UInt32.lt_iff_toNat_lt] at hlen
    omega

/-! ## The copy loop -/

section CopyLoop

variable (fs : Image) (datablockBasePtr datablockNumPtr datablockPtr dataLength : Nat)
  (buf : Buf)

/-- The byte that the copy loop stores at index `k`, when it starts with the given
pointers. -/
def copySource (k : Nat) : UInt8 :=
  if k < datablockSize then fs.bufAt datablockPtr k
  else
    fs.bufAt
      (datablockBasePtr +
        datablockSize * (fs.word (datablockNumPtr + 4 * (k / datablockSize))).toNat)
      (k % datablockSize)

/-- What holds before iteration `j` of the copy loop. -/
structure CopyInv (j : Nat) (s : CopyState) : Prop where
  copied : s.bytesCopied = min (datablockSize * j) dataLength
  numPtr : s.datablockNumPtr = datablockNumPtr + 4 * j
  first : j = 0 → s.datablockPtr = datablockPtr
  later : j ≠ 0 → s.datablockPtr =
    datablockBasePtr + datablockSize * (fs.word (datablockNumPtr + 4 * j)).toNat
  inside : ∀ k, k < s.bytesCopied →
    s.buf k = copySource fs datablockBasePtr datablockNumPtr datablockPtr k
  outside : ∀ k, s.bytesCopied ≤ k → s.buf k = buf k

variable {fs datablockBasePtr datablockNumPtr datablockPtr dataLength buf}

/-- One iteration keeps the invariant. -/
theorem copyInv_copyBlock {j : Nat} {s : CopyState}
    (h : CopyInv fs datablockBasePtr datablockNumPtr datablockPtr dataLength buf j s)
    (hlt : s.bytesCopied < dataLength) :
    CopyInv fs datablockBasePtr datablockNumPtr datablockPtr dataLength buf (j + 1)
      (copyBlock fs datablockBasePtr dataLength s) := by
  have hcopied := h.copied
  simp only [datablockSize] at hcopied
  -- The invariant says that only the last block can be short.
  have hstart : s.bytesCopied = 4096 * j := by omega
  have hnext : (copyBlock fs datablockBasePtr dataLength s).bytesCopied =
      min (4096 * (j + 1)) dataLength := by
    simp only [copyBlock, datablockSize]
    split <;> omega
  have hbuf : (copyBlock fs datablockBasePtr dataLength s).buf =
      memcpy s.buf s.bytesCopied (fs.bufAt s.datablockPtr)
        ((copyBlock fs datablockBasePtr dataLength s).bytesCopied - s.bytesCopied) := by
    simp [copyBlock]
  constructor
  case copied => exact hnext
  case numPtr =>
    show s.datablockNumPtr + 4 = datablockNumPtr + 4 * (j + 1)
    rw [h.numPtr]
    omega
  case first => exact fun hj => absurd hj (Nat.succ_ne_zero j)
  case later =>
    intro _
    show datablockBasePtr + datablockSize * (fs.word (s.datablockNumPtr + 4)).toNat = _
    rw [h.numPtr, Nat.mul_add]
    rfl
  case inside =>
    intro k hk
    rw [hbuf]
    by_cases hold : k < s.bytesCopied
    · rw [memcpy_outside (.inl hold)]
      exact h.inside k hold
    · rw [memcpy_inside (by omega) (by omega)]
      have hk' : k - s.bytesCopied = k % 4096 := by omega
      rw [hk', copySource]
      by_cases hj : j = 0
      · rw [if_pos (show k < datablockSize by simp only [datablockSize]; omega), h.first hj,
          show k % 4096 = k by omega]
      · rw [if_neg (show ¬ k < datablockSize by simp only [datablockSize]; omega), h.later hj,
          show k / datablockSize = j by simp only [datablockSize]; omega]
  case outside =>
    intro k hk
    rw [hbuf, memcpy_outside (.inr (by omega))]
    exact h.outside k (by omega)

/-- The whole loop, started with enough iterations. -/
theorem copyLoop_spec {n j : Nat} {s : CopyState}
    (h : CopyInv fs datablockBasePtr datablockNumPtr datablockPtr dataLength buf j s)
    (hn : dataLength ≤ datablockSize * (j + n)) :
    let r := copyLoop fs datablockBasePtr dataLength n s
    r.bytesCopied = dataLength ∧
      (∀ k, k < dataLength →
        r.buf k = copySource fs datablockBasePtr datablockNumPtr datablockPtr k) ∧
      ∀ k, dataLength ≤ k → r.buf k = buf k := by
  induction n generalizing j s with
  | zero =>
      have hdone : s.bytesCopied = dataLength := by
        have := h.copied
        simp only [datablockSize, Nat.add_zero] at this hn
        omega
      exact ⟨hdone, fun k hk => h.inside k (by omega), fun k hk => h.outside k (by omega)⟩
  | succ n ih =>
      rw [copyLoop]
      by_cases hlt : s.bytesCopied < dataLength
      · rw [if_pos hlt]
        exact ih (copyInv_copyBlock h hlt) (by rw [Nat.add_right_comm]; exact hn)
      · rw [if_neg hlt]
        have hdone : s.bytesCopied = dataLength := by
          have := h.copied
          omega
        exact ⟨hdone, fun k hk => h.inside k (by omega), fun k hk => h.outside k (by omega)⟩

end CopyLoop

/-! ## The function -/

/-- Where a read of `inode` from `offset` takes byte `k`. -/
def readSource (fs : Image) (inode offset : UInt32) (k : Nat) : UInt8 :=
  copySource fs fs.datablockBasePtr
    (inodePtr inode + 4 * (offset.toNat / datablockSize + 1))
    (fs.blockPtr (fs.blockNum inode (offset.toNat / datablockSize)) +
      offset.toNat % datablockSize) k

/-- When `read_data` refuses. -/
def ReadRefused (fs : Image) (inode offset : UInt32) : Prop :=
  inode > fs.numInodes - 1 ∨ offset ≥ fs.fileLength inode

instance (fs : Image) (inode offset : UInt32) : Decidable (ReadRefused fs inode offset) :=
  inferInstanceAs (Decidable (_ ∨ _))

theorem readData_refused {fs : Image} {inode offset length : UInt32} {buf : Buf}
    (h : ReadRefused fs inode offset) :
    readData fs inode offset (some buf) length = (-1, some buf) := by
  unfold readData
  by_cases hinode : inode > fs.numInodes - 1
  · simp only [if_pos hinode]
  · have hoff : offset ≥ fs.word (inodePtr inode) :=
      h.resolve_left hinode
    simp only [if_neg hinode, if_pos hoff]

/-- **What `read_data` does** when it does not refuse. -/
theorem readData_spec {fs : Image} {inode offset : UInt32} (length : UInt32) (buf : Buf)
    (h : ¬ ReadRefused fs inode offset) :
    ∃ buf', readData fs inode offset (some buf) length =
        ((clampedLength (fs.fileLength inode) offset length).toInt32, some buf') ∧
      (∀ k, k < (clampedLength (fs.fileLength inode) offset length).toNat →
        buf' k = readSource fs inode offset k) ∧
      ∀ k, (clampedLength (fs.fileLength inode) offset length).toNat ≤ k → buf' k = buf k := by
  rw [ReadRefused, not_or] at h
  have hoff : ¬ offset ≥ fs.word (inodePtr inode) := h.2
  have hentry : CopyInv fs fs.datablockBasePtr
      (inodePtr inode + 4 * (offset.toNat / datablockSize + 1))
      (fs.blockPtr (fs.blockNum inode (offset.toNat / datablockSize)) +
        offset.toNat % datablockSize)
      (clampedLength (fs.fileLength inode) offset length).toNat buf 0
      { bytesCopied := 0
        datablockNumPtr := inodePtr inode + 4 * (offset.toNat / datablockSize + 1)
        datablockPtr := fs.blockPtr (fs.blockNum inode (offset.toNat / datablockSize)) +
          offset.toNat % datablockSize
        buf := buf } :=
    ⟨by simp, rfl, fun _ => rfl, fun hne => absurd rfl hne, fun k hk => absurd hk (by simp),
      fun _ _ => rfl⟩
  have hblocks : ∀ n : Nat, n ≤ datablockSize * (0 + (n / datablockSize + 1)) := by
    intro n
    simp only [datablockSize]
    omega
  obtain ⟨hcopied, hinside, houtside⟩ := copyLoop_spec hentry (hblocks _)
  refine ⟨_, ?_, hinside, houtside⟩
  have hret := congrArg (fun n => (UInt32.ofNat n).toInt32) hcopied
  simp only [UInt32.ofNat_toNat] at hret
  rw [← hret]
  simp only [readData, if_neg h.1, if_neg hoff]
  rfl

/-! ## Agreement with the file -/

/-- Inside the first block the loop copies the bytes of the file. -/
theorem readSource_of_first_block {fs : Image} {inode offset : UInt32} {k : Nat}
    (h : offset.toNat % datablockSize + k < datablockSize) :
    readSource fs inode offset k = fs.fileByte inode (offset.toNat + k) := by
  simp only [datablockSize] at h
  have hdiv : (offset.toNat + k) / 4096 = offset.toNat / 4096 := by omega
  have hmod : (offset.toNat + k) % 4096 = offset.toNat % 4096 + k := by omega
  rw [readSource, copySource, if_pos (by simp only [datablockSize]; omega), fileByte]
  simp only [datablockSize, hdiv, hmod, bufAt, Nat.add_assoc]

/-- From a block boundary the loop copies the bytes of the file. -/
theorem readSource_of_aligned {fs : Image} {inode offset : UInt32} {k : Nat}
    (h : offset.toNat % datablockSize = 0) :
    readSource fs inode offset k = fs.fileByte inode (offset.toNat + k) := by
  by_cases hk : k < datablockSize
  · exact readSource_of_first_block (by omega)
  · rw [readSource, copySource, if_neg hk, fileByte]
    simp only [datablockSize] at h ⊢
    have hdiv : (offset.toNat + k) / 4096 = offset.toNat / 4096 + k / 4096 := by omega
    have hmod : (offset.toNat + k) % 4096 = k % 4096 := by omega
    have hptr : inodePtr inode + 4 * (offset.toNat / 4096 + 1) + 4 * (k / 4096) =
        inodePtr inode + 4 * (offset.toNat / 4096 + k / 4096 + 1) := by omega
    rw [hdiv, hmod, hptr]
    rfl

/-- The number of bytes that a read should deliver. -/
def readCount (fs : Image) (inode offset length : UInt32) : Nat :=
  min length.toNat ((fs.fileLength inode).toNat - offset.toNat)

/-- What `read_data` promises for one call with a buffer. -/
def ReadsFile (fs : Image) (inode offset length : UInt32) (buf : Buf) : Prop :=
  ((readData fs inode offset (some buf) length).1 = -1 ↔
      fs.numInodes ≤ inode ∨ fs.fileLength inode ≤ offset) ∧
    (¬ (fs.numInodes ≤ inode ∨ fs.fileLength inode ≤ offset) →
      (readData fs inode offset (some buf) length).1.toInt = readCount fs inode offset length ∧
      ∃ buf', (readData fs inode offset (some buf) length).2 = some buf' ∧
        (∀ k, k < readCount fs inode offset length →
          buf' k = fs.fileByte inode (offset.toNat + k)) ∧
        ∀ k, readCount fs inode offset length ≤ k → buf' k = buf k)

/-- What the image has in the place of byte `offset + k` of a file for a reader that keeps
the in-block offset of `offset` for its first 4096 bytes and drops it afterwards: first the
bytes after those of the first block, then the file from the start of that block on. -/
def strayByte (fs : Image) (inode offset : UInt32) (k : Nat) : UInt8 :=
  if k < datablockSize then
    fs.bufAt (fs.blockPtr (fs.blockNum inode (offset.toNat / datablockSize)))
      (offset.toNat % datablockSize + k)
  else fs.fileByte inode (offset.toNat - offset.toNat % datablockSize + k)

theorem readSource_eq_strayByte (fs : Image) (inode offset : UInt32) (k : Nat) :
    readSource fs inode offset k = strayByte fs inode offset k := by
  rw [readSource, copySource, strayByte]
  by_cases hk : k < datablockSize
  · rw [if_pos hk, if_pos hk]
    simp only [bufAt, Nat.add_assoc]
  · rw [if_neg hk, if_neg hk, fileByte]
    simp only [datablockSize]
    have hdiv : (offset.toNat - offset.toNat % 4096 + k) / 4096 =
        offset.toNat / 4096 + k / 4096 := by omega
    have hmod : (offset.toNat - offset.toNat % 4096 + k) % 4096 = k % 4096 := by omega
    have hptr : inodePtr inode + 4 * (offset.toNat / 4096 + 1) + 4 * (k / 4096) =
        inodePtr inode + 4 * (offset.toNat / 4096 + k / 4096 + 1) := by omega
    rw [hdiv, hmod, hptr]
    rfl

/-- The reads that come out right: those refused, and those whose end does not wrap, whose
count is an `int32_t`, and which start on a block boundary or end inside their first block.
A read of the other kind is right only when the image happens to hold the bytes of the file
in the wrong place as well. -/
def ReadFits (fs : Image) (inode offset length : UInt32) : Prop :=
  fs.numInodes ≤ inode ∨ fs.fileLength inode ≤ offset ∨
    (offset.toNat + length.toNat < 2 ^ 32 ∧ readCount fs inode offset length < 2 ^ 31 ∧
      (offset.toNat % datablockSize = 0 ∨
        offset.toNat % datablockSize + readCount fs inode offset length ≤ datablockSize ∨
        ∀ k, k < readCount fs inode offset length →
          datablockSize ≤ offset.toNat % datablockSize + k →
          strayByte fs inode offset k = fs.fileByte inode (offset.toNat + k)))

theorem readRefused_iff {fs : Image} (hpos : 0 < fs.numInodes) (inode offset : UInt32) :
    ReadRefused fs inode offset ↔ fs.numInodes ≤ inode ∨ fs.fileLength inode ≤ offset := by
  have hinode : inode > fs.numInodes - 1 ↔ fs.numInodes ≤ inode := by
    have hsub : (fs.numInodes - 1).toNat = fs.numInodes.toNat - 1 :=
      UInt32.toNat_sub_of_le _ _ (UInt32.le_iff_toNat_le.mpr
        (by rw [UInt32.lt_iff_toNat_lt] at hpos; exact hpos))
    rw [UInt32.lt_iff_toNat_lt] at hpos
    rw [gt_iff_lt, UInt32.lt_iff_toNat_lt, hsub, UInt32.le_iff_toNat_le]
    simp only [UInt32.toNat_zero] at hpos
    omega
  rw [ReadRefused, hinode]

/-- A read that fits copies the bytes of the file. -/
theorem readSource_of_fits {fs : Image} {inode offset length : UInt32} {k : Nat}
    (h : offset.toNat % datablockSize = 0 ∨
      offset.toNat % datablockSize + readCount fs inode offset length ≤ datablockSize ∨
      ∀ k, k < readCount fs inode offset length →
        datablockSize ≤ offset.toNat % datablockSize + k →
        strayByte fs inode offset k = fs.fileByte inode (offset.toNat + k))
    (hk : k < readCount fs inode offset length) :
    readSource fs inode offset k = fs.fileByte inode (offset.toNat + k) := by
  rcases h with halign | hfirst | hbytes
  · exact readSource_of_aligned halign
  · exact readSource_of_first_block (by omega)
  · by_cases hin : offset.toNat % datablockSize + k < datablockSize
    · exact readSource_of_first_block hin
    · rw [readSource_eq_strayByte]
      exact hbytes k hk (Nat.le_of_not_lt hin)

/-- **`read_data` keeps its promise exactly on the reads that fit.** -/
theorem readsFile_iff_fits (fs : WellFormedImage) (inode offset length : UInt32) (buf : Buf) :
    ReadsFile fs.toImage inode offset length buf ↔ ReadFits fs.toImage inode offset length := by
  have hrefused := readRefused_iff fs.inodes_pos inode offset
  by_cases h : ReadRefused fs.toImage inode offset
  · have h' := hrefused.mp h
    rw [ReadsFile, readData_refused h]
    refine ⟨fun _ => h'.imp_right .inl, fun _ => ⟨⟨fun _ => h', fun _ => rfl⟩, ?_⟩⟩
    exact fun hnot => absurd h' hnot
  · have h' : ¬ (fs.numInodes ≤ inode ∨ fs.fileLength inode ≤ offset) := fun hc =>
      h (hrefused.mpr hc)
    obtain ⟨buf', hret, hinside, houtside⟩ := readData_spec length buf h
    have hoff : offset < fs.fileLength inode := by
      rw [not_or] at h'
      exact UInt32.not_le.mp h'.2
    have hoff' := hoff
    rw [UInt32.lt_iff_toNat_lt] at hoff'
    have hlength := length.toNat_lt
    have hfile := (fs.fileLength inode).toNat_lt
    rw [ReadsFile, hret, ReadFits]
    constructor
    · intro hreads
      obtain ⟨hcount, bytes, hbytes, hin, -⟩ := hreads.2 h'
      rw [toInt32_toInt] at hcount
      -- a wrapped end makes the count too large
      have hwrap : offset.toNat + length.toNat < 2 ^ 32 := by
        by_contra hge
        rw [clampedLength_of_ge hoff (by omega), readCount] at hcount
        split at hcount <;> omega
      have hclamped := clampedLength_of_lt hoff hwrap
      rw [hclamped] at hcount hinside
      refine .inr (.inr ⟨hwrap, ?_, .inr (.inr fun k hk _ => ?_)⟩)
      · rw [readCount] at hcount ⊢
        split at hcount <;> omega
      · rw [← hin k hk, ← readSource_eq_strayByte, ← hinside k hk]
        exact congrFun (Option.some.inj hbytes) k
    · rintro (hc | hc | ⟨hwrap, hcount, hfits⟩)
      · exact absurd (.inl hc) h'
      · exact absurd (.inr hc) h'
      · have hclamped : (clampedLength (fs.fileLength inode) offset length).toNat =
            readCount fs.toImage inode offset length := clampedLength_of_lt hoff hwrap
        rw [hclamped] at hinside houtside
        have hint : (clampedLength (fs.fileLength inode) offset length).toInt32.toInt =
            readCount fs.toImage inode offset length := by
          rw [toInt32_toInt, hclamped, if_pos hcount]
        refine ⟨⟨fun hneg => ?_, fun hc => absurd hc h'⟩, fun _ => ⟨hint, buf', rfl, ?_, houtside⟩⟩
        · have hneg' : (clampedLength (fs.fileLength inode) offset length).toInt32 = -1 := hneg
          rw [hneg'] at hint
          have hminus : (-1 : Int32).toInt = -1 := by decide
          omega
        · intro k hk
          rw [hinside k hk, readSource_of_fits hfits hk]

/-- An image with one inode and three data blocks; the file has 4098 bytes in blocks 0 and 2,
and the first byte of block 2 is `0x42`. -/
def twoBlockImage : WellFormedImage where
  bytes a := match a.toNat with
    | 4 => 1
    | 8 => 3
    | 4096 => 2
    | 4097 => 16
    | 4104 => 2
    | 16384 => 0x42
    | _ => 0
  inodes_pos := by decide
  blocks_lt := by
    intro inode hinode i hi
    have hinode' : inode = 0 := by
      have hone : inode < (1 : UInt32) := hinode
      rw [UInt32.lt_iff_toNat_lt] at hone
      exact UInt32.toNat_inj.mp (by simp at hone ⊢; omega)
    subst hinode'
    have hi' : 4096 * i < 4098 := hi
    have hcases : i = 0 ∨ i = 1 := by omega
    rcases hcases with rfl | rfl <;> decide

/-- The two bytes of that file at 4095 and 4096 are not what a read of them delivers. -/
theorem readsFile_fails_across_blocks :
    ¬ ∀ (fs : WellFormedImage) (inode offset length : UInt32) (buf : Buf),
      ReadsFile fs.toImage inode offset length buf := by
  intro hall
  obtain ⟨-, bytes, hbytes, hin, -⟩ :=
    (hall twoBlockImage 0 4095 2 fun _ => 0).2 (by decide)
  have hbyte : bytes 1 = 0x42 := hin 1 (by decide)
  have hread : ((readData twoBlockImage.toImage 0 4095 (some fun _ => 0) 2).2.getD
      fun _ => 0) 1 = 0 := by decide
  rw [hbytes] at hread
  simp only [Option.getD_some] at hread
  rw [hbyte] at hread
  exact absurd hread (by decide)

end JuddOS
