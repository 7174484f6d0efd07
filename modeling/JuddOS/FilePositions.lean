import JuddOS.OpenExact

/-!
# The position of a regular file

`read_data` reports the end of a file as -1, `file_read` turns that into 0, and the position of the
descriptor advances by what was read.

* `readCall_at`: one `read`.
* `position_of_run`: the position is the sum of what the calls have returned.
* `readToEnd_at`: the loop that reads until it gets 0.
* `file_accounting_of_open`: all of it for a descriptor that `open` has returned.
-/

namespace JuddOS

open Image Support

/-- An inode that exists, with a file below 2 GB. -/
structure ReadableFile (fs : Image) (inode : UInt32) : Prop where
  lt : inode < fs.numInodes
  length_lt : (fs.fileLength inode).toNat < 2 ^ 31

/-- A descriptor that is open on a file, at position `p`. -/
structure AtPosition (fs : Image) (inode : UInt32) (f : Fd) (p : Nat) : Prop where
  table : f.fxnTblPtr = some .file
  inode_eq : f.inode = inode
  flags : f.flags ≠ 0
  filePos : f.filePos.toNat = p
  le : p ≤ (fs.fileLength inode).toNat

/-- The number of a descriptor that `open` can return. -/
def OpenedNumber (fd : Int32) : Prop := ∃ i, 2 ≤ i ∧ i < fdArraySize ∧ fd = Int32.ofNat i

/-! ## One `read` -/

section Read

variable {fs : Image} {inode : UInt32}

/-- `read_data` refuses an existing inode only at the end of its file. -/
theorem ReadableFile.readRefused_iff (h : ReadableFile fs inode) (offset : UInt32) :
    ReadRefused fs inode offset ↔ (fs.fileLength inode).toNat ≤ offset.toNat := by
  have hlt := UInt32.lt_iff_toNat_lt.mp h.lt
  have hpos : 0 < fs.numInodes := by
    rw [UInt32.lt_iff_toNat_lt, UInt32.toNat_zero]
    omega
  rw [JuddOS.readRefused_iff hpos, UInt32.le_iff_toNat_le, UInt32.le_iff_toNat_le]
  omega

theorem OpenedNumber.not_refused {fd : Int32} (hfd : OpenedNumber fd) {io : Io} {addr : Nat}
    (hflags : (io.fds addr fd.toInt.toNat).flags ≠ 0) : ¬ FdRefused io addr 1 fd := by
  obtain ⟨i, hge, hlt, rfl⟩ := hfd
  have hint : (Int32.ofNat i).toInt = i := Int32.toInt_ofNat_of_lt (by
    simp only [fdArraySize] at hlt
    omega)
  have hzero := Int32.toInt_zero
  have height : (8 : Int32).toInt = 8 := rfl
  simp only [fdArraySize] at hlt
  rintro (hneg | hlarge | hone | hfree)
  · rw [Int32.lt_iff_toInt_lt, hint, hzero] at hneg
    omega
  · rw [ge_iff_le, Int32.le_iff_toInt_le, hint, height] at hlarge
    omega
  · have hone' := congrArg Int32.toInt hone
    rw [hint] at hone'
    have h1 : (1 : Int32).toInt = 1 := rfl
    omega
  · exact hflags hfree

/-- A descriptor after `count` more bytes. -/
theorem AtPosition.advance {f : Fd} {p : Nat} (hat : AtPosition fs inode f p)
    (hsmall : (fs.fileLength inode).toNat < 2 ^ 31) (count : UInt32)
    (hcount : p + count.toNat ≤ (fs.fileLength inode).toNat) :
    AtPosition fs inode { f with filePos := f.filePos + count } (p + count.toNat) where
  table := hat.table
  inode_eq := hat.inode_eq
  flags := hat.flags
  filePos := by
    have hpos := hat.filePos
    dsimp only
    rw [UInt32.toNat_add, Nat.mod_eq_of_lt (by omega), hpos]
  le := hcount

/-- `file_read` turns the -1 of `read_data` into 0 and moves the position otherwise. -/
theorem fileRead_at (hfile : ReadableFile fs inode) {io : Io} {esp : Nat} {fd : Int32} {p : Nat}
    (hat : AtPosition fs inode (io.fds (getCurrPcb esp) fd.toInt.toNat) p) (bytes : Buf)
    {nbytes : Int32} (hn : 0 ≤ nbytes) :
    ∃ v w io', fileRead fs esp fd (some bytes) nbytes io = .returned v w io' ∧
      v.toInt = min nbytes.toInt ((fs.fileLength inode).toNat - p) ∧
      AtPosition fs inode (io'.fds (getCurrPcb esp) fd.toInt.toNat) (p + v.toInt.toNat) ∧
      ∀ addr fd', addr ≠ getCurrPcb esp ∨ fd' ≠ fd.toInt.toNat →
        io'.fds addr fd' = io.fds addr fd' := by
  have hlength := toUInt32_toNat_of_nonneg hn
  have hmax := nbytes.toInt_lt
  have hsmall := hfile.length_lt
  have hpos := hat.filePos
  have hle := hat.le
  rw [Int32.le_iff_toInt_le] at hn
  have hzero := Int32.toInt_zero
  unfold fileRead
  dsimp only
  rw [hat.inode_eq]
  by_cases hrefused : ReadRefused fs inode (io.fds (getCurrPcb esp) fd.toInt.toNat).filePos
  · -- The position is at the end.
    have hend := (hfile.readRefused_iff _).mp hrefused
    have hneg : ¬ (-1 : Int32) ≠ -1 := fun h => h rfl
    rw [readData_refused hrefused, if_neg hneg]
    exact ⟨0, _, io, rfl, by omega, hat, fun _ _ _ => rfl⟩
  · have hoff : (io.fds (getCurrPcb esp) fd.toInt.toNat).filePos < fs.fileLength inode := by
      rw [UInt32.lt_iff_toNat_lt]
      exact Nat.not_le.mp fun h => hrefused ((hfile.readRefused_iff _).mpr h)
    obtain ⟨buf', hread, -⟩ := readData_spec nbytes.toUInt32
      (clearBytes bytes nbytes.toUInt32.toNat) hrefused
    have hfits : (io.fds (getCurrPcb esp) fd.toInt.toNat).filePos.toNat + nbytes.toUInt32.toNat <
        2 ^ 32 := by
      omega
    have hcount := clampedLength_of_lt hoff hfits
    rw [hread]
    generalize clampedLength (fs.fileLength inode)
      (io.fds (getCurrPcb esp) fd.toInt.toNat).filePos nbytes.toUInt32 = count at hcount ⊢
    have hint := toInt32_toInt count
    rw [if_pos (by omega)] at hint
    have hne : count.toInt32 ≠ -1 := toInt32_ne_neg_one (by omega)
    have hvalue : count.toInt32.toInt.toNat = count.toNat := by omega
    rw [if_pos hne]
    refine ⟨count.toInt32, _, _, rfl, by omega, ?_, fun addr fd' hother => ?_⟩
    · have hnext := hat.advance hsmall count.toInt32.toUInt32
      rw [UInt32.toUInt32_toInt32] at hnext
      rw [io.setFd_self, hvalue]
      exact hnext (by omega)
    · by_cases haddr : addr = getCurrPcb esp
      · rw [haddr]
        exact io.setFd_of_ne _ (hother.resolve_left fun h => h haddr)
      · rw [io.setFd_of_other _ _ haddr]

/-- **One `read`** returns what is left of the file, up to `nbytes`, moves the position by that
much and changes no other descriptor. -/
theorem readCall_at (hfile : ReadableFile fs inode) {io : Io} {esp : Nat} {fd : Int32} {p : Nat}
    (hfd : OpenedNumber fd)
    (hat : AtPosition fs inode (io.fds (getCurrPcb esp) fd.toInt.toNat) p) (stale : Buf)
    (interrupts : Nat → Io → Io) (bytes : Buf) {nbytes : Int32} (hn : 0 ≤ nbytes) :
    ∃ v w io', readCall fs stale interrupts esp fd (some bytes) nbytes io = .returned v w io' ∧
      v.toInt = min nbytes.toInt ((fs.fileLength inode).toNat - p) ∧
      AtPosition fs inode (io'.fds (getCurrPcb esp) fd.toInt.toNat) (p + v.toInt.toNat) ∧
      ∀ addr fd', addr ≠ getCurrPcb esp ∨ fd' ≠ fd.toInt.toNat →
        io'.fds addr fd' = io.fds addr fd' := by
  have hcall : readCall fs stale interrupts esp fd (some bytes) nbytes io =
      fileRead fs esp fd (some bytes) nbytes io :=
    readCall_of_slot (hfd.not_refused hat.flags) hat.table rfl fs stale interrupts (some bytes)
      nbytes
  rw [hcall]
  exact fileRead_at hfile hat bytes hn

end Read

/-! ## Runs -/

/-- A `read` of `nbytes` that returned `v`, or something else. -/
inductive ReadEvent
  | reads (nbytes v : Int32)
  | other

/-- What an event read. -/
def ReadEvent.count : ReadEvent → Nat
  | .reads _ v => v.toInt.toNat
  | .other => 0

/-- The sum of what the calls have returned. -/
def bytesRead (es : List ReadEvent) : Nat := (es.map ReadEvent.count).sum

theorem bytesRead_append (es : List ReadEvent) (e : ReadEvent) :
    bytesRead (es ++ [e]) = bytesRead es + e.count := by
  simp [bytesRead]

/-- The process reads from the descriptor, or something else happens that leaves it alone. -/
inductive ReadStep (fs : Image) (addr : Nat) (fd : Int32) : Io → ReadEvent → Io → Prop
  | reads {io io' : Io} {stale bytes : Buf} {interrupts : Nat → Io → Io} {esp : Nat}
      {nbytes v : Int32} {w : Written} (hesp : getCurrPcb esp = addr) (hn : 0 ≤ nbytes)
      (h : readCall fs stale interrupts esp fd (some bytes) nbytes io = .returned v w io') :
      ReadStep fs addr fd io (.reads nbytes v) io'
  | other {io io' : Io} (h : io'.fds addr fd.toInt.toNat = io.fds addr fd.toInt.toNat) :
      ReadStep fs addr fd io .other io'

section Runs

variable {fs : Image} {inode : UInt32} {addr : Nat} {fd : Int32}

/-- **In every run** the position is the sum of what the calls have returned. -/
theorem position_of_run (hfile : ReadableFile fs inode) (hfd : OpenedNumber fd) {io io' : Io}
    {es : List ReadEvent} (hat : AtPosition fs inode (io.fds addr fd.toInt.toNat) 0)
    (hrun : Run (ReadStep fs addr fd) io es io') :
    AtPosition fs inode (io'.fds addr fd.toInt.toNat) (bytesRead es) := by
  refine hrun.invariant_history
    (fun es io => AtPosition fs inode (io.fds addr fd.toInt.toNat) (bytesRead es)) hat ?_
  intro es a e b ha hstep
  rw [bytesRead_append]
  cases hstep with
  | @reads _ stale bytes interrupts esp nbytes v w hesp hn h =>
      subst hesp
      obtain ⟨v', w', io', hread, -, hnext, -⟩ :=
        readCall_at hfile hfd ha stale interrupts bytes hn
      rw [h] at hread
      cases hread
      exact hnext
  | other h =>
      rw [h]
      exact ha

/-! ## Reading to the end -/

/-- A loop that reads until it gets 0, for at most `n` reads.  `between` is what happens between
two of them.  The result is the number of reads and the sum of their results. -/
def readToEnd (fs : Image) (stale : Buf) (interrupts : Nat → Io → Io) (esp : Nat) (fd : Int32)
    (between : Nat → Io → Io) (bufs : Nat → Buf) (sizes : Nat → Int32) :
    Nat → Nat → Nat → Io → Option (Nat × Nat)
  | 0, _, _, _ => none
  | n + 1, i, total, io =>
      match readCall fs stale interrupts esp fd (some (bufs i)) (sizes i) io with
      | .returned v _ io' =>
          if v = 0 then some (i + 1, total)
          else readToEnd fs stale interrupts esp fd between bufs sizes n (i + 1)
            (total + v.toInt.toNat) (between i io')
      | _ => none

/-- **The loop terminates** after at most one read for each byte that is left and one more. -/
theorem readToEnd_at (hfile : ReadableFile fs inode) (hfd : OpenedNumber fd) (stale : Buf)
    (interrupts : Nat → Io → Io) {esp : Nat} {between : Nat → Io → Io} (bufs : Nat → Buf)
    {sizes : Nat → Int32} (hsizes : ∀ i, 1 ≤ sizes i)
    (hbetween : ∀ i io, (between i io).fds (getCurrPcb esp) fd.toInt.toNat =
      io.fds (getCurrPcb esp) fd.toInt.toNat) {n p : Nat} (i total : Nat) {io : Io}
    (hat : AtPosition fs inode (io.fds (getCurrPcb esp) fd.toInt.toNat) p)
    (hn : (fs.fileLength inode).toNat - p < n) :
    ∃ reads, reads ≤ i + ((fs.fileLength inode).toNat - p) + 1 ∧
      readToEnd fs stale interrupts esp fd between bufs sizes n i total io =
        some (reads, total + ((fs.fileLength inode).toNat - p)) := by
  induction n generalizing i total p io with
  | zero => exact absurd hn (Nat.not_lt_zero _)
  | succ n ih =>
      have hone : (1 : Int32).toInt = 1 := rfl
      have hzero := Int32.toInt_zero
      have hsize := hsizes i
      rw [Int32.le_iff_toInt_le, hone] at hsize
      have hle := hat.le
      have hnonneg : 0 ≤ sizes i := by
        rw [Int32.le_iff_toInt_le, hzero]
        omega
      obtain ⟨v, w, io', hread, hv, hnext, -⟩ :=
        readCall_at hfile hfd hat stale interrupts (bufs i) hnonneg
      rw [readToEnd, hread]
      dsimp only
      by_cases hend : v = 0
      · -- A read of at least one byte gives 0 only at the end.
        rw [hend, hzero] at hv
        have hat_end : (fs.fileLength inode).toNat - p = 0 := by omega
        rw [if_pos hend, hat_end]
        exact ⟨i + 1, Nat.le_refl _, rfl⟩
      · have hpos : v.toInt ≠ 0 := fun h => hend (Int32.toInt_inj.mp h)
        rw [if_neg hend]
        rw [← hbetween i io'] at hnext
        obtain ⟨reads, hreads, hloop⟩ :=
          ih (i + 1) (total + v.toInt.toNat) hnext (by omega)
        refine ⟨reads, by omega, ?_⟩
        rw [hloop]
        congr 2
        omega

end Runs

/-- What the reads from a descriptor amount to. -/
structure FileAccounting (fs : Image) (inode : UInt32) (addr : Nat) (fd : Int32) (io₁ : Io) :
    Prop where
  position : ∀ es io, Run (ReadStep fs addr fd) io₁ es io →
    (io.fds addr fd.toInt.toNat).filePos.toNat = bytesRead es ∧
      bytesRead es ≤ (fs.fileLength inode).toNat
  answer : ∀ es io, Run (ReadStep fs addr fd) io₁ es io →
    ∀ stale interrupts esp bytes nbytes, getCurrPcb esp = addr → 0 ≤ nbytes →
    ∃ v w io', readCall fs stale interrupts esp fd (some bytes) nbytes io = .returned v w io' ∧
      v.toInt = min nbytes.toInt ((fs.fileLength inode).toNat - bytesRead es) ∧
      ∀ addr' fd', addr' ≠ addr ∨ fd' ≠ fd.toInt.toNat →
        (io'.fds addr' fd').filePos = (io.fds addr' fd').filePos
  drained : ∀ stale interrupts esp between bufs sizes, getCurrPcb esp = addr →
    (∀ i, 1 ≤ sizes i) →
    (∀ i io, (between i io).fds addr fd.toInt.toNat = io.fds addr fd.toInt.toNat) →
    ∃ reads, reads ≤ (fs.fileLength inode).toNat + 1 ∧
      readToEnd fs stale interrupts esp fd between bufs sizes ((fs.fileLength inode).toNat + 1) 0 0
        io₁ = some (reads, (fs.fileLength inode).toNat)

/-- The descriptor that `open` returns for a regular file is at its start. -/
theorem atPosition_of_open {fs : Image} {name : Buf} {e : Nat}
    (hlookup : fs.lookup name.cstring = some e) (htype : fs.entryType e = 2) {stale : Buf}
    {esp : Nat} {io io₁ : Io} {v : Int32}
    (hopen : openCall fs stale esp (some name) io = .returned v () io₁) (hv : v ≠ -1) :
    OpenedNumber v ∧
      AtPosition fs (fs.entryInode e) (io₁.fds (getCurrPcb esp) v.toInt.toNat) 0 := by
  by_cases hhead : name 0 = 0 ∨ name 0 = chSpace
  · have hfail : openCall fs stale esp (some name) io = .returned (-1) () io := if_pos hhead
    rw [hfail] at hopen
    cases hopen
    exact absurd rfl hv
  have hnotRtc : ¬ (2 : UInt32) = 0 := by decide
  have hnotDir : ¬ (2 : UInt32) = 1 := by decide
  rw [openCall_of_lookup stale hhead hlookup (by rw [htype]; decide), htype] at hopen
  obtain ⟨hge, hle, -⟩ := firstFreeFd_spec (io.fds (getCurrPcb esp)) 6 2
  generalize firstFreeFd (io.fds (getCurrPcb esp)) 6 2 = i at hopen hge hle
  by_cases hfull : i = fdArraySize
  · rw [if_pos hfull] at hopen
    cases hopen
    exact absurd rfl hv
  rw [if_neg hfull, if_neg hnotRtc, if_neg hnotDir, if_pos rfl] at hopen
  cases hopen
  simp only [fdArraySize] at hfull
  have hlt : i < fdArraySize := by
    simp only [fdArraySize]
    omega
  have hopened : (1 : UInt32) ≠ 0 := by decide
  rw [(int32_ofNat_fd hlt).1, io.setFd_self]
  exact ⟨⟨i, hge, hlt, rfl⟩, rfl, rfl, hopened, rfl, Nat.zero_le _⟩

/-- **File position accounting.** -/
theorem file_accounting_of_open {fs : WellFormedImage} {name : Buf} {e : Nat}
    (hlookup : fs.toImage.lookup name.cstring = some e) (htype : fs.toImage.entryType e = 2)
    (hfile : ReadableFile fs.toImage (fs.toImage.entryInode e)) {stale : Buf} {esp : Nat}
    {io io₁ : Io} {fd : Int32}
    (hopen : openCall fs.toImage stale esp (some name) io = .returned fd () io₁) (hfd : fd ≠ -1) :
    FileAccounting fs.toImage (fs.toImage.entryInode e) (getCurrPcb esp) fd io₁ := by
  obtain ⟨hnumber, hat⟩ := atPosition_of_open hlookup htype hopen hfd
  constructor
  case position =>
    intro es io hrun
    have hpos := position_of_run hfile hnumber hat hrun
    exact ⟨hpos.filePos, hpos.le⟩
  case answer =>
    intro es io hrun stale' interrupts esp' bytes nbytes hesp hn
    have hpos := position_of_run hfile hnumber hat hrun
    rw [← hesp] at hpos
    obtain ⟨v, w, io', hread, hv, -, hothers⟩ :=
      readCall_at hfile hnumber hpos stale' interrupts bytes hn
    refine ⟨v, w, io', hread, hv, fun addr' fd' hother => ?_⟩
    rw [hothers addr' fd' (by rwa [hesp])]
  case drained =>
    intro stale' interrupts esp' between bufs sizes hesp hsizes hbetween
    rw [← hesp] at hat hbetween
    have hfuel : (fs.toImage.fileLength (fs.toImage.entryInode e)).toNat - 0 <
        (fs.toImage.fileLength (fs.toImage.entryInode e)).toNat + 1 := Nat.lt_succ_self _
    obtain ⟨reads, hreads, hloop⟩ := readToEnd_at hfile hnumber stale' interrupts bufs hsizes
      hbetween 0 0 hat hfuel
    refine ⟨reads, by omega, ?_⟩
    rw [hloop, Nat.zero_add, Nat.sub_zero]

/-- The first process after it opened the file `x`. -/
def openedProgram : Io :=
  freshProcess.setFd (getCurrPcb espOfFirst) 2 fun _ => ⟨some .file, 0, 0, 1⟩

theorem openCall_program :
    openCall (programImage 4) (fun _ => 0) espOfFirst (some (Buf.ofList commandX.val))
      freshProcess = .returned 2 () openedProgram := rfl

theorem file_accounting_of_open_x :
    FileAccounting (programImage 4) 0 (getCurrPcb espOfFirst) 2 openedProgram := by
  have hlookup : (programImage 4).lookup (Buf.ofList commandX.val).cstring = some 0 := by decide
  have hfile : ReadableFile (programImage 4) 0 := by
    refine ⟨by decide, ?_⟩
    rw [programImage_fileLength]
    decide
  exact @file_accounting_of_open (programFormat 4 (by decide)) _ _ hlookup rfl hfile _ _ _ _ _
    openCall_program (by decide)

end JuddOS
