import JuddOS.ProgramName

/-!
# `pcb_t` in memory

A `pcb_t` is the first 284 bytes of the 8 KB block of its process, and the rest of the block is the
kernel stack.  `args` is the last field but one, and `execute` fills it with `strcpy`, whatever the
length of the arguments.

* `HoldsPcb`: the bytes of a block hold a PCB.  `Pcb.store` gives such bytes, and `Pcb.load` reads
  them back.
* `storeArgs_holdsPcb`: arguments that fit are stored as in `startProcess`.
* `store_args_in_fields_iff`: the stores stay in their fields exactly when the arguments fit.
-/

namespace JuddOS

/-- `BUF_SIZE` of `syscalls.h`. -/
@[simp] abbrev bufSize : Nat := 128

/-- The offsets of the fields of `pcb_t`. -/
@[simp] abbrev fdArrayOffset : Nat := 24
@[simp] abbrev argsOffset : Nat := 152
@[simp] abbrev argsSizeOffset : Nat := 280
@[simp] abbrev pcbSize : Nat := 284

/-- The size of `fd_t`. -/
@[simp] abbrev fdSize : Nat := 16

/-! ## The fields -/

/-- The four words of an `fd_t`; `tables` is where the function tables are. -/
structure HoldsFd (tables : FopsTable → UInt32) (block : Buf) (offset : Nat) (fd : Fd) : Prop where
  fxnTblPtr : block.word offset = (fd.fxnTblPtr.map tables).getD 0
  inode : block.word (offset + 4) = fd.inode
  filePos : block.word (offset + 8) = fd.filePos
  flags : block.word (offset + 12) = fd.flags

/-- The bytes of a `pcb_t`. -/
structure HoldsPcb (tables : FopsTable → UInt32) (block : Buf) (pcb : Pcb) : Prop where
  parent : (block.word 0).toNat = pcb.parent
  pid : (block 4).toNat = pcb.pid
  tid : (block 5).toNat = pcb.tid.val
  esp0 : (block.word 8).toNat = pcb.esp0
  ebp : (block.word 12).toNat = pcb.ebp
  eip : block.word 16 = pcb.eip
  esp : (block.word 20).toNat = pcb.esp
  fdArray : ∀ i, i < fdArraySize → HoldsFd tables block (fdArrayOffset + fdSize * i) (pcb.fdArray i)
  args : ∀ j, j < pcb.args.length → block (argsOffset + j) = pcb.args.getD j 0
  argsSize : (block.word argsSizeOffset).toNat = pcb.argsSize

/-! ## A PCB as bytes -/

/-- The words of an `fd_t`. -/
def Fd.fieldWord (tables : FopsTable → UInt32) (fd : Fd) : Nat → UInt32
  | 0 => (fd.fxnTblPtr.map tables).getD 0
  | 1 => fd.inode
  | 2 => fd.filePos
  | _ => fd.flags

/-- The words of a `pcb_t` before `args`; `pid` and `tid` share one. -/
def Pcb.fieldWord (tables : FopsTable → UInt32) (pcb : Pcb) : Nat → UInt32
  | 0 => UInt32.ofNat pcb.parent
  | 1 => UInt32.ofNat (pcb.pid + 256 * pcb.tid.val)
  | 2 => UInt32.ofNat pcb.esp0
  | 3 => UInt32.ofNat pcb.ebp
  | 4 => pcb.eip
  | 5 => UInt32.ofNat pcb.esp
  | n + 6 => (pcb.fdArray (n / 4)).fieldWord tables (n % 4)

/-- The bytes of a PCB. -/
def Pcb.store (tables : FopsTable → UInt32) (pcb : Pcb) : Buf := fun j =>
  if j < argsOffset then Buf.ofWord (pcb.fieldWord tables (j / 4)) (j % 4)
  else if j < argsSizeOffset then pcb.args.getD (j - argsOffset) 0
  else Buf.ofWord (UInt32.ofNat pcb.argsSize) (j - argsSizeOffset)

/-- The descriptor in the bytes of a block; `tableAt` is the table at an address. -/
def Fd.load (tableAt : UInt32 → Option FopsTable) (block : Buf) (offset : Nat) : Fd where
  fxnTblPtr := tableAt (block.word offset)
  inode := block.word (offset + 4)
  filePos := block.word (offset + 8)
  flags := block.word (offset + 12)

/-- The PCB in the bytes of a block. -/
def Pcb.load (tableAt : UInt32 → Option FopsTable) (block : Buf) : Pcb where
  parent := (block.word 0).toNat
  pid := (block 4).toNat
  tid := Fin.ofNat 3 (block 5).toNat
  esp0 := (block.word 8).toNat
  ebp := (block.word 12).toNat
  eip := block.word 16
  esp := (block.word 20).toNat
  fdArray i := Fd.load tableAt block (fdArrayOffset + fdSize * i)
  args := (List.range bufSize).map fun j => block (argsOffset + j)
  argsSize := (block.word argsSizeOffset).toNat

/-- A block that differs in `args` and `args_size` only. -/
theorem HoldsPcb.withArgs {tables : FopsTable → UInt32} {block block' : Buf} {pcb : Pcb}
    (h : HoldsPcb tables block pcb) {args : List UInt8} {argsSize : Nat}
    (hbyte : ∀ j, j < argsOffset → block' j = block j)
    (hargs : ∀ j, j < args.length → block' (argsOffset + j) = args.getD j 0)
    (hsize : (block'.word argsSizeOffset).toNat = argsSize) :
    HoldsPcb tables block' { pcb with args := args, argsSize := argsSize } := by
  have hword : ∀ a, a + 4 ≤ argsOffset → block'.word a = block.word a := fun a ha =>
    Buf.word_congr fun j hj => hbyte (a + j) (by omega)
  simp only [argsOffset] at hbyte hword
  constructor
  case parent => rw [hword 0 (by decide)]; exact h.parent
  case pid => rw [hbyte 4 (by decide)]; exact h.pid
  case tid => rw [hbyte 5 (by decide)]; exact h.tid
  case esp0 => rw [hword 8 (by decide)]; exact h.esp0
  case ebp => rw [hword 12 (by decide)]; exact h.ebp
  case eip => rw [hword 16 (by decide)]; exact h.eip
  case esp => rw [hword 20 (by decide)]; exact h.esp
  case fdArray =>
    intro i hi
    have hfd := h.fdArray i hi
    simp only [fdArraySize, fdArrayOffset, fdSize] at hi hfd ⊢
    constructor
    case fxnTblPtr => rw [hword _ (by omega)]; exact hfd.fxnTblPtr
    case inode => rw [hword _ (by omega)]; exact hfd.inode
    case filePos => rw [hword _ (by omega)]; exact hfd.filePos
    case flags => rw [hword _ (by omega)]; exact hfd.flags
  case args => exact hargs
  case argsSize => exact hsize

/-- A block with the same first 284 bytes. -/
theorem HoldsPcb.congr {tables : FopsTable → UInt32} {block block' : Buf} {pcb : Pcb}
    (h : HoldsPcb tables block pcb) (hlength : pcb.args.length ≤ bufSize)
    (hbytes : ∀ j, j < pcbSize → block' j = block j) : HoldsPcb tables block' pcb := by
  simp only [bufSize] at hlength
  simp only [pcbSize] at hbytes
  refine h.withArgs (fun j hj => ?_) (fun j hj => ?_) ?_
  · simp only [argsOffset] at hj
    exact hbytes j (by omega)
  · rw [hbytes _ (by simp only [argsOffset]; omega)]
    exact h.args j hj
  · rw [← h.argsSize]
    refine congrArg UInt32.toNat (Buf.word_congr fun j hj => hbytes _ ?_)
    simp only [argsSizeOffset]
    omega

/-- **`Pcb.load` reads a PCB back**, and with `args` the rest of that field. -/
theorem load_of_holdsPcb {tables : FopsTable → UInt32} {tableAt : UInt32 → Option FopsTable}
    {block : Buf} {pcb : Pcb} (h : HoldsPcb tables block pcb)
    (htables : ∀ t, tableAt (tables t) = some t) (hnull : tableAt 0 = none)
    (hargs : pcb.args.length ≤ bufSize) :
    ∃ fds args, Pcb.load tableAt block = { pcb with fdArray := fds, args := args } ∧
      (∀ i, i < fdArraySize → fds i = pcb.fdArray i) ∧ pcb.args <+: args := by
  have htid : Fin.ofNat 3 (block 5).toNat = pcb.tid := by
    rw [h.tid]
    exact Fin.ofNat_val_eq_self pcb.tid
  refine ⟨(Pcb.load tableAt block).fdArray, (Pcb.load tableAt block).args, ?_, fun i hi => ?_, ?_⟩
  · rw [Pcb.load, h.parent, h.pid, htid, h.esp0, h.ebp, h.eip, h.esp, h.argsSize]
  · have hfd := h.fdArray i hi
    show Fd.load tableAt block (fdArrayOffset + fdSize * i) = pcb.fdArray i
    rw [Fd.load, hfd.fxnTblPtr, hfd.inode, hfd.filePos, hfd.flags]
    cases hptr : (pcb.fdArray i).fxnTblPtr with
    | none =>
        rw [Option.map_none, Option.getD_none, hnull, ← hptr]
    | some t =>
        rw [Option.map_some, Option.getD_some, htables, ← hptr]
  · show pcb.args <+: (List.range bufSize).map fun j => block (argsOffset + j)
    rw [List.prefix_iff_eq_take]
    refine List.ext_getElem (by simp [hargs]) fun j hj _ => ?_
    rw [List.getElem_take, List.getElem_map, List.getElem_range, h.args j hj,
      List.getD_eq_getElem _ _ hj]

/-! ## The stores -/

/-- `strcpy` to an address inside an object. -/
def strcpyAt (dest : Buf) (start : Nat) (src : Buf) : Buf := fun j =>
  if j < start then dest j else strcpy (fun i => dest (start + i)) src (j - start)

/-- `strcpy(pcb_new->args, args)` and `pcb_new->args_size = size_of_args`. -/
def storeArgs (block args : Buf) (sizeOfArgs : Nat) : Buf :=
  memcpy (strcpyAt block argsOffset args) argsSizeOffset (Buf.ofWord (UInt32.ofNat sizeOfArgs)) 4

theorem strcpyAt_inside {dest src : Buf} {start j : Nat} (hj : j < strlen src) :
    strcpyAt dest start src (start + j) = src j := by
  have hge : ¬ start + j < start := by omega
  have hsub : start + j - start = j := by omega
  rw [strcpyAt, if_neg hge, hsub, strcpy, if_pos hj]

theorem strcpyAt_end (dest src : Buf) (start : Nat) :
    strcpyAt dest start src (start + strlen src) = 0 := by
  have hge : ¬ start + strlen src < start := by omega
  have hsub : start + strlen src - start = strlen src := by omega
  rw [strcpyAt, if_neg hge, hsub, strcpy, if_neg (Nat.lt_irrefl _), if_pos rfl]

theorem strcpyAt_outside {dest src : Buf} {start j : Nat}
    (hj : j < start ∨ start + strlen src < j) : strcpyAt dest start src j = dest j := by
  rcases hj with hlt | hgt
  · rw [strcpyAt, if_pos hlt]
  · have hge : ¬ j < start := by omega
    have hsum : start + (j - start) = j := by omega
    rw [strcpyAt, if_neg hge, strcpy, if_neg (by omega), if_neg (by omega), hsum]

section Stores

variable {block args : Buf} {sizeOfArgs : Nat}

/-- The stores, for arguments that fit, leave every byte outside the two fields alone. -/
theorem storeArgs_outside (hfits : strlen args < bufSize) {j : Nat}
    (hj : j < argsOffset ∨ pcbSize ≤ j) : storeArgs block args sizeOfArgs j = block j := by
  simp only [bufSize, argsOffset, pcbSize] at hfits hj
  rw [storeArgs, memcpy_outside (by simp only [argsSizeOffset]; omega)]
  exact strcpyAt_outside (by simp only [argsOffset]; omega)

theorem storeArgs_inside {j : Nat} (hj : j < strlen args) (hfield : j < bufSize) :
    storeArgs block args sizeOfArgs (argsOffset + j) = args j := by
  simp only [bufSize] at hfield
  rw [storeArgs, memcpy_outside (by simp only [argsSizeOffset, argsOffset]; omega)]
  exact strcpyAt_inside hj

theorem storeArgs_end (hfits : strlen args < bufSize) :
    storeArgs block args sizeOfArgs (argsOffset + strlen args) = 0 := by
  simp only [bufSize] at hfits
  rw [storeArgs, memcpy_outside (by simp only [argsSizeOffset, argsOffset]; omega)]
  exact strcpyAt_end block args argsOffset

theorem storeArgs_argsSize :
    (storeArgs block args sizeOfArgs).word argsSizeOffset = UInt32.ofNat sizeOfArgs := by
  rw [← Buf.word_ofWord (UInt32.ofNat sizeOfArgs)]
  refine Buf.word_congr fun j hj => ?_
  rw [storeArgs, memcpy_inside (by omega) (by omega), Nat.zero_add, Nat.add_sub_cancel_left]

/-- **The bytes that are stored are the record update of `startProcess`.** -/
theorem storeArgs_holdsPcb {tables : FopsTable → UInt32} {pcb : Pcb}
    (h : HoldsPcb tables block pcb) (hfits : strlen args < bufSize) (hsize : sizeOfArgs < 2 ^ 32) :
    HoldsPcb tables (storeArgs block args sizeOfArgs)
      { pcb with args := args.cstring ++ [0], argsSize := sizeOfArgs } := by
  refine h.withArgs (fun j hj => storeArgs_outside hfits (.inl hj)) (fun j hj => ?_) ?_
  · rw [List.length_append, cstring_length, List.length_singleton] at hj
    by_cases hin : j < strlen args
    · rw [storeArgs_inside hin (by omega), List.getD_append _ _ _ _ (by rwa [cstring_length]),
        cstring_getD hin]
    · have hend : j = strlen args := by omega
      rw [hend, storeArgs_end hfits, List.getD_append_right _ _ _ _ (by rw [cstring_length]),
        cstring_length, Nat.sub_self]
      rfl
  · rw [storeArgs_argsSize, UInt32.toNat_ofNat', Nat.mod_eq_of_lt hsize]

end Stores

/-! ## How far the stores reach -/

/-- The stores stay in `args` and `args_size`, and `args` holds a string. -/
structure StoresInFields (block block' : Buf) : Prop where
  outside : ∀ j, j < argsOffset ∨ pcbSize ≤ j → block' j = block j
  terminated : ∃ j, j < bufSize ∧ block' (argsOffset + j) = 0

theorem storesInFields_iff (block args : Buf) (sizeOfArgs : Nat) :
    StoresInFields block (storeArgs block args sizeOfArgs) ↔ strlen args < bufSize := by
  constructor
  · intro h
    obtain ⟨j, hj, hzero⟩ := h.terminated
    by_contra hlong
    -- Each of the 128 bytes is a character of the arguments.
    have hin : j < strlen args := by omega
    rw [storeArgs_inside hin hj, ← cstring_getD hin] at hzero
    refine cstring_no_nul args ?_
    rw [← hzero, List.getD_eq_getElem _ _ (by rwa [cstring_length])]
    exact List.getElem_mem _
  · intro hfits
    exact ⟨fun j hj => storeArgs_outside hfits hj, strlen args, hfits, storeArgs_end hfits⟩

/-- The words of an accepted command. -/
theorem parseCommand_of_accepted {fs : Image} {command exeCheck : _} {k : Kernel}
    {a : List UInt8} (hacc : (executeSetup fs command exeCheck k).2 = some a) :
    ∃ fname, parseCommand 0 command = some (fname, a) := by
  unfold executeSetup at hacc
  split at hacc
  · cases hacc
  cases hparse : parseCommand 0 command with
  | none =>
      rw [hparse] at hacc
      cases hacc
  | some p =>
      obtain ⟨fname, args⟩ := p
      rw [hparse] at hacc
      dsimp only at hacc
      refine ⟨fname, ?_⟩
      split at hacc
      · cases hacc
      split at hacc
      · cases hacc
      split at hacc
      · cases hacc
      · cases hacc
        rfl

/-- The arrays of `execute` after an accepted command was parsed. -/
theorem setupParse_of_accepted {fs : Image} {command : CString} {exeCheck : Buf} {k : Kernel}
    {a : List UInt8} (hacc : (executeSetup fs command.val exeCheck k).2 = some a)
    (fname args : Buf) :
    a = storedArgs command.val ∧
      ∃ s, setupParse (Buf.ofList command.val) fname args = some (.parsed s) ∧
        s.args.cstring = a ∧ s.sizeOfArgs = a.length := by
  obtain ⟨name, hparse⟩ := parseCommand_of_accepted hacc
  have ha : a = storedArgs command.val := parseCommand_snd hparse
  have hcommand : (Buf.ofList command.val).cstring = command.val :=
    cstring_ofList command.property.length_le command.property.no_nul
  rw [parseCommand_eq, Nat.zero_add] at hparse
  by_cases hrefused : restOfLine command.val ≠ [] ∧ filenameSize ≤ (firstWord command.val).length
  · rw [if_pos hrefused] at hparse
    cases hparse
  rw [← hcommand] at hrefused
  obtain ⟨s, hloop, -, hargs, hsize⟩ := parseLoop_words fname args hrefused (Nat.lt_succ_self _)
  rw [hcommand] at hargs hsize
  exact ⟨ha, s, hloop, hargs.trans ha.symm, hsize.trans (congrArg List.length ha.symm)⟩

/-- Saving the arguments of a command, with any leftovers on the stack and in the new block. -/
def SavedInFields (command : CString) : Prop :=
  ∀ fname args block : Buf, ∃ s, setupParse (Buf.ofList command.val) fname args = some (.parsed s) ∧
    StoresInFields block (storeArgs block s.args s.sizeOfArgs)

/-- **The arguments of an accepted command are saved in their fields exactly when** they are
shorter than 128 bytes. -/
theorem store_args_in_fields_iff {fs : Image} {command : CString} {exeCheck : Buf} {k : Kernel}
    {a : List UInt8} (hacc : (executeSetup fs command.val exeCheck k).2 = some a) :
    SavedInFields command ↔ (storedArgs command.val).length < bufSize := by
  constructor
  · intro hsaved
    obtain ⟨s, hparse, hstores⟩ := hsaved (fun _ => 0) (fun _ => 0) fun _ => 0
    obtain ⟨ha, s', hparse', hargs, -⟩ := setupParse_of_accepted hacc (fun _ => 0) fun _ => 0
    rw [hparse] at hparse'
    cases hparse'
    rw [← ha, ← hargs, cstring_length]
    exact (storesInFields_iff _ _ _).mp hstores
  · intro hfits fname args block
    obtain ⟨ha, s, hparse, hargs, -⟩ := setupParse_of_accepted hacc fname args
    refine ⟨s, hparse, (storesInFields_iff _ _ _).mpr ?_⟩
    rwa [← cstring_length, hargs, ha]

/-- The command `"x  yz"`: its arguments are `" yz"`. -/
def commandWithArgs : CString := ⟨[0x78, 0x20, 0x20, 0x79, 0x7a], by decide, by decide⟩

theorem store_args_in_fields_yz :
    (executeSetup (programImage 4) commandWithArgs.val (fun _ => 0) pagedKernel).2 =
        some [0x20, 0x79, 0x7a] ∧
      SavedInFields commandWithArgs := by
  have hacc : (executeSetup (programImage 4) commandWithArgs.val (fun _ => 0) pagedKernel).2 =
      some [0x20, 0x79, 0x7a] := rfl
  exact ⟨hacc, (store_args_in_fields_iff hacc).mpr (by decide)⟩

/-- The arguments of the command below. -/
def longArgs : List UInt8 := List.replicate 128 0x61

/-- `x` with 128 bytes of arguments. -/
def longCommand : CString :=
  ⟨commandX.val ++ chSpace :: longArgs, by simp [commandX, longArgs], by simp [commandX, longArgs]⟩

theorem longCommand_accepted :
    (executeSetup (programImage 4) longCommand.val (fun _ => 0) pagedKernel).2 = some longArgs := by
  have hword := isWord_commandX
  have hfile : ¬ FileRejected (programImage 4) commandX.val (fun _ => 0) pagedKernel.pidBits := by
    unfold FileRejected
    decide
  have haccepted := (executeSetup_isSome_iff (programImage 4) longCommand.property (fun _ => 0)
    pagedKernel).mpr fun hrej => hfile ((rejected_append hword (by decide) (by decide) longArgs _ _
      _).mp hrej)
  obtain ⟨a, ha⟩ := Option.isSome_iff_exists.mp haccepted
  obtain ⟨fname, hparse⟩ := parseCommand_of_accepted ha
  have hline : commandLine longArgs = longArgs := List.takeWhile_eq_self_iff.mpr fun c hc => by
    rw [List.eq_of_mem_replicate hc]
    rfl
  have hwords : parseCommand 0 longCommand.val = some (commandX.val, longArgs) := by
    rw [longCommand, parseCommand_append hword, if_neg (by decide), hline]
  rw [hwords] at hparse
  cases hparse
  exact ha

/-- The argument string fills `args`, so its NUL and `args_size` follow it. -/
theorem store_long_args_unterminated :
    ¬ ∀ (fs : Image) (command : CString) (exeCheck : Buf) (k : Kernel) (a : List UInt8),
      (executeSetup fs command.val exeCheck k).2 = some a → SavedInFields command := by
  intro hall
  obtain ⟨s, hparse, hstores⟩ :=
    hall _ _ _ _ _ longCommand_accepted (fun _ => 0) (fun _ => 0) fun _ => 0
  obtain ⟨-, s', hparse', hargs, -⟩ :=
    setupParse_of_accepted longCommand_accepted (fun _ => 0) fun _ => 0
  rw [hparse] at hparse'
  cases hparse'
  have hfits := (storesInFields_iff _ _ _).mp hstores
  rw [← cstring_length, hargs] at hfits
  simp [longArgs] at hfits

end JuddOS
