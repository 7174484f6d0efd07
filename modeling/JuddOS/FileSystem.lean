import JuddOS.Lib
import Mathlib.Order.Basic

/-!
# `filesystem.c`: the read-only file system

An image is the memory from `FILESYSTEM_ADDR` on.  Pointers into it are offsets from there;
they are reduced modulo 2^32 when they are used, as the machine does, so every pointer sum
of the source may be written as a sum of naturals.  `bootblock` holds the words that
`filesystem_init` copied from the image, and nothing writes it afterwards.

The functions of the source are `clearDentry`, `readDentryByName`, `readData` and
`fileOpen`.  The second half of the file gives the format its own words: the name of an
entry, the length of an inode, its block numbers and the bytes of a file.
-/

namespace JuddOS

@[simp] abbrev filenameSize : Nat := 32
@[simp] abbrev reservedSize : Nat := 24
@[simp] abbrev dentrySize : Nat := 64
@[simp] abbrev bootblockSize : Nat := 4096
@[simp] abbrev inodeSize : Nat := 4096
@[simp] abbrev datablockSize : Nat := 4096

/-- A file-system image in memory. -/
structure Image where
  bytes : UInt32 → UInt8

namespace Image

/-- The bytes at a pointer into the image. -/
def bufAt (fs : Image) (ptr : Nat) : Buf := fun j => fs.bytes (UInt32.ofNat (ptr + j))

/-- The 32-bit word at a pointer into the image. -/
def word (fs : Image) (ptr : Nat) : UInt32 := (fs.bufAt ptr).word 0

/-- `bootblock.num_dentries`. -/
def numDentries (fs : Image) : UInt32 := fs.word 0

/-- `bootblock.num_inodes`. -/
def numInodes (fs : Image) : UInt32 := fs.word 4

/-- `bootblock.num_datablocks`. -/
def numDatablocks (fs : Image) : UInt32 := fs.word 8

/-- Where an inode is. -/
def inodePtr (inode : UInt32) : Nat := bootblockSize + inodeSize * inode.toNat

/-- Where the data blocks start. -/
def datablockBasePtr (fs : Image) : Nat := bootblockSize + inodeSize * fs.numInodes.toNat

end Image

/-- `clear_dentry` on the 64 bytes of a `dentry_t`. -/
def clearDentry (dentry : Buf) : Buf := fun j => if j < dentrySize then 0 else dentry j

/-- `dentry->filetype` and `dentry->inode_num`. -/
def dentryFiletype (dentry : Buf) : UInt32 := dentry.word 32
def dentryInodeNum (dentry : Buf) : UInt32 := dentry.word 36

/-- The test that ends the search loop of `read_dentry_by_name`. -/
def dentryMatches (fs : Image) (fname : Buf) (ptr : Nat) : Bool :=
  let targetFileLen :=
    if strlen (fs.bufAt ptr) > filenameSize then filenameSize else strlen (fs.bufAt ptr)
  strncmp fname (fs.bufAt ptr) targetFileLen = 0 ∧ targetFileLen = strlen fname

/-- The search loop of `read_dentry_by_name`, with the number of iterations left before
`i <= num_dentries` fails.  The result is `i` and `ptr` at the end of the loop. -/
def findDentry (fs : Image) (fname : Buf) : Nat → Nat → Nat → Nat × Nat
  | 0, i, ptr => (i, ptr)
  | n + 1, i, ptr =>
      if dentryMatches fs fname ptr then (i, ptr)
      else findDentry fs fname n (i + 1) (ptr + dentrySize)

/-- The four stores that fill `dentry` from the entry found. -/
def copyDentry (dentry found : Buf) : Buf :=
  let dentry := strcpy dentry found
  let dentry := memcpy dentry 32 (fun j => found (32 + j)) 4
  let dentry := memcpy dentry 36 (fun j => found (36 + j)) 4
  memcpy dentry 40 (fun j => found (40 + j)) reservedSize

/-- `read_dentry_by_name`.  Its callers pass the address of an object for `dentry`. -/
def readDentryByName (fs : Image) (fname dentry : Buf) : Int32 × Buf :=
  let dentry := clearDentry dentry
  let search := findDentry fs fname (fs.numDentries.toNat + 1) 0 dentrySize
  let i := search.1
  let ptr := search.2
  if i ≥ fs.numDentries.toNat then (-1, dentry)
  else (0, copyDentry dentry (fs.bufAt ptr))

/-- The variables of the copy loop of `read_data`. -/
structure CopyState where
  bytesCopied : Nat
  datablockNumPtr : Nat
  datablockPtr : Nat
  buf : Buf

/-- One iteration of the copy loop. -/
def copyBlock (fs : Image) (datablockBasePtr dataLength : Nat) (s : CopyState) : CopyState :=
  let bytesToCopy :=
    if dataLength - s.bytesCopied ≥ datablockSize then datablockSize
    else dataLength - s.bytesCopied
  let datablockNumPtr := s.datablockNumPtr + 4
  { bytesCopied := s.bytesCopied + bytesToCopy
    datablockNumPtr := datablockNumPtr
    datablockPtr := datablockBasePtr + datablockSize * (fs.word datablockNumPtr).toNat
    buf := memcpy s.buf s.bytesCopied (fs.bufAt s.datablockPtr) bytesToCopy }

/-- `while (bytes_copied < data_length)` of `read_data`, for at most the given number of
iterations. -/
def copyLoop (fs : Image) (datablockBasePtr dataLength : Nat) : Nat → CopyState → CopyState
  | 0, s => s
  | n + 1, s =>
      if s.bytesCopied < dataLength then
        copyLoop fs datablockBasePtr dataLength n (copyBlock fs datablockBasePtr dataLength s)
      else s

/-- The two clamps of `read_data`: the number of bytes it will copy. -/
def clampedLength (dataLength offset length : UInt32) : UInt32 :=
  let dataLength := if dataLength < offset + length then dataLength - offset else dataLength
  if length > dataLength then dataLength else length

/-- `read_data`; `none` for `buf` is `NULL`.  The copy loop takes one iteration for each
block of 4096 bytes, so the bound it is given is never reached. -/
def readData (fs : Image) (inode offset : UInt32) (buf : Option Buf) (length : UInt32) :
    Int32 × Option Buf :=
  match buf with
  | none => (-1, none)
  | some bytes =>
    if inode > fs.numInodes - 1 then (-1, buf)
    else
      let inodePtr := Image.inodePtr inode
      let dataLength := fs.word inodePtr
      if offset ≥ dataLength then (-1, buf)
      else
        let blockOffset := offset.toNat / datablockSize
        let inblockOffset := offset.toNat % datablockSize
        let dataLength := clampedLength dataLength offset length
        let datablockNumPtr := inodePtr + 4 * (blockOffset + 1)
        let datablockBasePtr := fs.datablockBasePtr
        let datablockNum := fs.word datablockNumPtr
        let s := copyLoop fs datablockBasePtr dataLength.toNat
          (dataLength.toNat / datablockSize + 1)
          { bytesCopied := 0
            datablockNumPtr := datablockNumPtr
            datablockPtr := datablockBasePtr + datablockSize * datablockNum.toNat + inblockOffset
            buf := bytes }
        ((UInt32.ofNat s.bytesCopied).toInt32, some s.buf)

/-- `file_open`, on the shared `opened_file`.  The result is the length of the file. -/
def fileOpen (fs : Image) (filename openedFile : Buf) : Int32 × Buf :=
  let lookup := readDentryByName fs filename openedFile
  let openedFile := lookup.2
  if lookup.1 = 0 then
    let inodePtr := Image.inodePtr (dentryInodeNum openedFile)
    ((fs.word inodePtr).toInt32, openedFile)
  else (-1, openedFile)

/-! ## The format in its own words -/

namespace Image

/-- The name of directory entry `i`: its bytes up to the first NUL, or all 32. -/
def entryName (fs : Image) (i : Nat) : List UInt8 :=
  (fs.bufAt (dentrySize * (i + 1))).field filenameSize 0

/-- The file type of directory entry `i`: 0 RTC, 1 directory, 2 regular file. -/
def entryType (fs : Image) (i : Nat) : UInt32 := (fs.bufAt (dentrySize * (i + 1))).word 32

/-- The inode number of directory entry `i`. -/
def entryInode (fs : Image) (i : Nat) : UInt32 := (fs.bufAt (dentrySize * (i + 1))).word 36

/-- The length of the file of an inode. -/
def fileLength (fs : Image) (inode : UInt32) : UInt32 := fs.word (inodePtr inode)

/-- The `i`-th block number of an inode. -/
def blockNum (fs : Image) (inode : UInt32) (i : Nat) : UInt32 :=
  fs.word (inodePtr inode + 4 * (i + 1))

/-- Where a data block is. -/
def blockPtr (fs : Image) (num : UInt32) : Nat :=
  fs.datablockBasePtr + datablockSize * num.toNat

/-- Byte `pos` of the file of an inode. -/
def fileByte (fs : Image) (inode : UInt32) (pos : Nat) : UInt8 :=
  fs.bufAt (fs.blockPtr (fs.blockNum inode (pos / datablockSize))) (pos % datablockSize)

end Image

/-- A well-formed image: there is an inode, and the block numbers that cover the length of
each inode name data blocks that exist. -/
structure WellFormedImage extends Image where
  inodes_pos : 0 < toImage.numInodes
  blocks_lt : ∀ inode < toImage.numInodes, ∀ i,
    datablockSize * i < (toImage.fileLength inode).toNat →
    toImage.blockNum inode i < toImage.numDatablocks

end JuddOS
