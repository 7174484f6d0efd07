import JuddOS.Directory
import JuddOS.Execute
import JuddOS.PageIsolation

/-!
# Which program `execute` starts

`execute_setup` looks the first word of the command up with `file_open` and goes on with
the inode number in `opened_file`, whether or not there was such an entry and whatever its
type.

* `Rejected` collects the tests that do end in -1, and `execute_of_rejected`,
  `execute_of_accepted` give the outcome of `execute` in both cases.
* `ExecutesNamed` is the promise: a process is created only for a regular file named by the
  first word, and runs that file.
* `executesNamed_iff` says exactly when the promise is kept.
-/

namespace JuddOS

open Image

/-- The command strings: a pointer to bytes that end in a NUL. -/
abbrev CString : Type := { s : List UInt8 // IsCString s }

/-- The first word of a command. -/
def firstWord (command : List UInt8) : List UInt8 :=
  command.takeWhile fun c => !endsCommand c && !(c == chSpace)

theorem firstWord_isCString (command : CString) : IsCString (firstWord command.val) where
  no_nul h := command.property.no_nul ((List.takeWhile_sublist _).subset h)
  length_le := Nat.le_trans (List.takeWhile_sublist _).length_le command.property.length_le

/-- The name that the parse loops find is the first word. -/
theorem parseCommand_fst {command : List UInt8} {i : Nat} {p : List UInt8 × List UInt8}
    (h : parseCommand i command = some p) : p.1 = firstWord command := by
  induction command generalizing i p with
  | nil =>
      cases h
      rfl
  | cons c rest ih =>
      rw [parseCommand] at h
      rw [firstWord, List.takeWhile_cons]
      by_cases hend : endsCommand c = true
      · rw [if_pos hend] at h
        cases h
        simp [hend]
      · rw [if_neg hend] at h
        by_cases hspace : c = chSpace
        · rw [if_pos hspace] at h
          split at h
          · cases h
          · cases h
            simp [hspace]
        · rw [if_neg hspace, Option.map_eq_some_iff] at h
          obtain ⟨q, hq, rfl⟩ := h
          simp [hend, hspace, ih hq, firstWord]

/-- The search for a free process number finds the lowest one. -/
theorem firstFreePid_spec (pidBits : Nat → UInt8) (n i : Nat) :
    i ≤ firstFreePid pidBits n i ∧ firstFreePid pidBits n i ≤ i + n ∧
      (∀ j, i ≤ j → j < firstFreePid pidBits n i → pidBits j = 1) ∧
      (firstFreePid pidBits n i < i + n → pidBits (firstFreePid pidBits n i) ≠ 1) := by
  induction n generalizing i with
  | zero =>
      rw [firstFreePid]
      exact ⟨Nat.le_refl i, Nat.le_refl i, fun j hj hj' => by omega, fun h => by omega⟩
  | succ n ih =>
      rw [firstFreePid]
      by_cases hbit : pidBits i = 1
      · obtain ⟨hle, hle', hbefore, hat⟩ := ih (i + 1)
        rw [if_pos hbit]
        refine ⟨by omega, by omega, fun j hj hj' => ?_, fun h => hat (by omega)⟩
        by_cases hij : j = i
        · rw [hij, hbit]
        · exact hbefore j (by omega) hj'
      · rw [if_neg hbit]
        exact ⟨Nat.le_refl i, by omega, fun j hj hj' => by omega, fun _ => hbit⟩

theorem firstFreePid_le (pidBits : Nat → UInt8) : firstFreePid pidBits 6 0 ≤ 6 := by
  have h := (firstFreePid_spec pidBits 6 0).2.1
  omega

/-! ## The tests of `execute_setup` -/

theorem toInt32_ne_neg_one {n : UInt32} (hn : n.toNat < 2 ^ 31) : n.toInt32 ≠ -1 := by
  intro hneg
  have hint := toInt32_toInt n
  rw [hneg, if_pos hn] at hint
  have hminus : (-1 : Int32).toInt = -1 := by decide
  omega

/-- A read from the start of a file. -/
theorem readData_start {fs : Image} {inode : UInt32} (length : UInt32) (buf : Buf)
    (h : ¬ ReadRefused fs inode 0) :
    ∃ (n : UInt32) (buf' : Buf),
      readData fs inode 0 (some buf) length = (n.toInt32, some buf') ∧
      n.toNat = min length.toNat (fs.fileLength inode).toNat ∧
      (∀ k, k < n.toNat → buf' k = fs.fileByte inode k) ∧
      ∀ k, n.toNat ≤ k → buf' k = buf k := by
  obtain ⟨buf', hread, hinside, houtside⟩ := readData_spec length buf h
  have hpos : (0 : UInt32) < fs.fileLength inode := UInt32.not_le.mp fun hle => h (.inr hle)
  refine ⟨_, buf', hread, ?_, fun k hk => ?_, houtside⟩
  · have hlength := length.toNat_lt
    rw [clampedLength_of_lt hpos (by simpa using hlength)]
    simp
  · rw [hinside k hk, readSource_of_aligned rfl]
    simp

/-- What `exe_check` holds after the read of the first four bytes: a shorter file leaves the
rest of the array as it was. -/
def fileHeader (fs : Image) (inode : UInt32) (exeCheck : Buf) : Buf := fun j =>
  if j < (fs.fileLength inode).toNat then fs.fileByte inode j else exeCheck j

theorem hasExeMagic_congr {b b' : Buf} (h : ∀ j, j < 4 → b j = b' j) :
    hasExeMagic b = hasExeMagic b' := by
  simp [hasExeMagic, h 0, h 1, h 2, h 3]

/-- The commands that are answered with -1. -/
def Rejected (fs : Image) (command : List UInt8) (exeCheck : Buf) (pidBits : Nat → UInt8) :
    Prop :=
  (command.head? = none ∨ command.head? = some chSpace) ∨
  parseCommand 0 command = none ∨
  ReadRefused fs (fs.openedInode (firstWord command)) 0 ∨
  hasExeMagic (fileHeader fs (fs.openedInode (firstWord command)) exeCheck) = false ∨
  firstFreePid pidBits 6 0 = 6

instance (fs : Image) (command : List UInt8) (exeCheck : Buf) (pidBits : Nat → UInt8) :
    Decidable (Rejected fs command exeCheck pidBits) :=
  inferInstanceAs (Decidable (_ ∨ _))

/-- The kernel after an `execute_setup` that accepts: the lowest free process number is
taken and its page mapped. -/
def afterSetup (args : List UInt8) (opened : Buf) (k : Kernel) : Kernel :=
  { k with
    sizeOfArgs := args.length
    openedFile := opened
    availablePid := firstFreePid k.pidBits 6 0
    pidBits := Function.update k.pidBits (firstFreePid k.pidBits 6 0) 1
    paging := setProcessMemory (firstFreePid k.pidBits 6 0) k.paging }

/-- `execute_setup` in the words of `Rejected`. -/
theorem executeSetup_spec (fs : Image) (command : CString) (exeCheck : Buf) (k : Kernel) :
    (Rejected fs command.val exeCheck k.pidBits ∧
      ∃ size opened, executeSetup fs command.val exeCheck k =
        ({ k with sizeOfArgs := size, openedFile := opened }, none)) ∨
    (¬ Rejected fs command.val exeCheck k.pidBits ∧
      ∃ args opened, parseCommand 0 command.val = some (firstWord command.val, args) ∧
        dentryInodeNum opened = fs.openedInode (firstWord command.val) ∧
        executeSetup fs command.val exeCheck k =
          (afterSetup args opened k, some args)) := by
  unfold executeSetup Rejected
  by_cases hhead : command.val.head? = none ∨ command.val.head? = some chSpace
  · rw [if_pos hhead]
    exact .inl ⟨.inl hhead, k.sizeOfArgs, k.openedFile, rfl⟩
  rw [if_neg hhead]
  cases hparse : parseCommand 0 command.val with
  | none => exact .inl ⟨.inr (.inl rfl), 0, k.openedFile, rfl⟩
  | some p =>
      obtain ⟨fname, args⟩ := p
      have hname : fname = firstWord command.val := parseCommand_fst hparse
      subst hname
      -- `file_open` leaves the entry's inode, or 0 when there is no entry.
      have hinode := fileOpen_inode fs (firstWord_isCString command) k.openedFile
      simp only [hinode]
      by_cases hrefused : ReadRefused fs (fs.openedInode (firstWord command.val)) 0
      · rw [readData_refused hrefused]
        exact .inl ⟨.inr (.inr (.inl hrefused)), args.length, _, rfl⟩
      obtain ⟨n, buf, hread, hn, hinside, houtside⟩ :=
        readData_start 4 exeCheck hrefused
      have hn' : n.toNat ≤ 4 := by
        rw [hn]
        exact Nat.min_le_left _ _
      -- At most 4 bytes are read, so the test for -1 does not fire by overflow.
      have hret : n.toInt32 ≠ -1 := toInt32_ne_neg_one (by omega)
      have hmagic : hasExeMagic buf =
          hasExeMagic (fileHeader fs (fs.openedInode (firstWord command.val)) exeCheck) := by
        refine hasExeMagic_congr fun j hj => ?_
        have hfour : (4 : UInt32).toNat = 4 := rfl
        rw [hfour] at hn
        rw [fileHeader]
        by_cases hj' : j < n.toNat
        · rw [hinside j hj', if_pos (by omega)]
        · rw [houtside j (by omega), if_neg (by omega)]
      simp only [hread, if_neg hret, Option.getD_some, hmagic]
      by_cases hexe :
          hasExeMagic (fileHeader fs (fs.openedInode (firstWord command.val)) exeCheck) = false
      · rw [if_pos hexe]
        exact .inl ⟨.inr (.inr (.inr (.inl hexe))), args.length, _, rfl⟩
      rw [if_neg hexe]
      by_cases hfull : firstFreePid k.pidBits 6 0 = 6
      · rw [if_pos hfull]
        exact .inl ⟨.inr (.inr (.inr (.inr hfull))), args.length, _, rfl⟩
      · rw [if_neg hfull]
        refine .inr ⟨?_, args, _, rfl, hinode, rfl⟩
        rintro (h | h | h | h | h)
        · exact hhead h
        · cases h
        · exact hrefused h
        · exact hexe h
        · exact hfull h

/-! ## The bookkeeping of a new process -/

section StartProcess

variable (fs : Image) (args : List UInt8) (esp ebp : Nat) (k : Kernel)

/-- Only PCBs, terminals and `tss.esp0` change. -/
theorem startProcess_frame :
    startProcess fs args esp ebp k =
      { k with
        pcb := (startProcess fs args esp ebp k).pcb
        terminalArr := (startProcess fs args esp ebp k).terminalArr
        tssEsp0 := (startProcess fs args esp ebp k).tssEsp0 } := by
  by_cases hactive : (k.terminalArr k.terminalNum).active = false <;>
    simp only [startProcess, executeFillpcb, Kernel.setPcb, Kernel.setTerminal, hactive,
      if_true, if_false, Bool.true_eq_false]

/-- The scheduled terminal is on and its most recent process is the new one. -/
theorem startProcess_terminalArr :
    (startProcess fs args esp ebp k).terminalArr =
      Function.update k.terminalArr k.terminalNum
        { k.terminalArr k.terminalNum with
          active := true, mostRecentPcb := pcbAddr k.availablePid } := by
  by_cases hactive : (k.terminalArr k.terminalNum).active = false
  · simp [startProcess, executeFillpcb, Kernel.setPcb, Kernel.setTerminal, hactive]
  · rw [Bool.not_eq_false] at hactive
    simp [startProcess, executeFillpcb, Kernel.setPcb, Kernel.setTerminal, hactive]

/-- `tss.esp0` is the stack of the new process. -/
theorem startProcess_tssEsp0 :
    (startProcess fs args esp ebp k).tssEsp0 = kernelStackTop k.availablePid := by
  by_cases hactive : (k.terminalArr k.terminalNum).active = false <;>
    simp [startProcess, executeFillpcb, Kernel.setPcb, Kernel.setTerminal, hactive]

theorem startProcess_pcb_of_ne {addr : Nat} (h : addr ≠ pcbAddr k.availablePid) :
    (startProcess fs args esp ebp k).pcb addr = k.pcb addr := by
  by_cases hactive : (k.terminalArr k.terminalNum).active = false <;>
    simp [startProcess, executeFillpcb, Kernel.setPcb, Kernel.setTerminal, hactive, h]

/-- What the new PCB keeps for `halt` and for its own children. -/
theorem startProcess_pcb_self :
    ((startProcess fs args esp ebp k).pcb (pcbAddr k.availablePid)).pid = k.availablePid ∧
      ((startProcess fs args esp ebp k).pcb (pcbAddr k.availablePid)).esp0 = k.tssEsp0 ∧
      ((startProcess fs args esp ebp k).pcb (pcbAddr k.availablePid)).ebp = ebp := by
  by_cases hactive : (k.terminalArr k.terminalNum).active = false <;>
    simp [startProcess, executeFillpcb, Kernel.setPcb, Kernel.setTerminal, hactive]

/-- The first shell of a terminal has no parent. -/
theorem startProcess_root (h : (k.terminalArr k.terminalNum).active = false) :
    ((startProcess fs args esp ebp k).pcb (pcbAddr k.availablePid)).parent = 0 ∧
      ((startProcess fs args esp ebp k).pcb (pcbAddr k.availablePid)).tid = k.terminalNum := by
  simp [startProcess, executeFillpcb, Kernel.setPcb, Kernel.setTerminal, h]

/-- A later process is the child of the one on whose stack `execute` runs. -/
theorem startProcess_child (h : (k.terminalArr k.terminalNum).active = true)
    (hne : getCurrPcb esp ≠ pcbAddr k.availablePid) :
    ((startProcess fs args esp ebp k).pcb (pcbAddr k.availablePid)).parent = getCurrPcb esp ∧
      ((startProcess fs args esp ebp k).pcb (pcbAddr k.availablePid)).tid =
        (k.pcb (getCurrPcb esp)).tid := by
  simp [startProcess, executeFillpcb, Kernel.setPcb, Kernel.setTerminal, h, hne]

end StartProcess

/-! ## The outcome of `execute` -/

/-- Room between `FILE_LOCATION` and the end of the process page. -/
abbrev loadSpace : Nat := virtualAddrStart + userSpaceSize - fileLocation

theorem execute_of_rejected {fs : Image} {command : CString} {exeCheck : Buf} {k : Kernel}
    (esp ebp : Nat) (h : Rejected fs command.val exeCheck k.pidBits) :
    ∃ size opened, execute fs command.val exeCheck esp ebp k =
      .returned { k with sizeOfArgs := size, openedFile := opened } := by
  rcases executeSetup_spec fs command exeCheck k with ⟨-, size, opened, hsetup⟩ | ⟨hnot, -⟩
  · refine ⟨size, opened, ?_⟩
    rw [execute, hsetup]
  · exact absurd h hnot

/-- **An accepted command.**  The file of the inode in `opened_file` is loaded, and the new
process is set up, unless the file is too long for its page. -/
theorem execute_of_accepted {fs : Image} {command : CString} {exeCheck : Buf} {k : Kernel}
    (esp ebp : Nat) (h : ¬ Rejected fs command.val exeCheck k.pidBits) :
    ∃ args opened size, ∃ bytes : Buf,
      parseCommand 0 command.val = some (firstWord command.val, args) ∧
      dentryInodeNum opened = fs.openedInode (firstWord command.val) ∧
      size = min pageSize (fs.fileLength (fs.openedInode (firstWord command.val))).toNat ∧
      (∀ j, j < size → bytes j = fs.fileByte (fs.openedInode (firstWord command.val)) j) ∧
      execute fs command.val exeCheck esp ebp k =
        ((afterSetup args opened k).pokeRange fileLocation size bytes).elim .fault
          fun k => .user (startProcess fs args esp ebp k) := by
  rcases executeSetup_spec fs command exeCheck k with
    ⟨hrej, -⟩ | ⟨-, args, opened, hparse, hinode, hsetup⟩
  · exact absurd hrej h
  have hread : ¬ ReadRefused fs (fs.openedInode (firstWord command.val)) 0 := fun hr =>
    h (.inr (.inr (.inl hr)))
  rw [execute, hsetup]
  have hopened : dentryInodeNum (afterSetup args opened k).openedFile =
      fs.openedInode (firstWord command.val) := hinode
  simp only [hopened]
  generalize (fun j => ((afterSetup args opened k).peek (fileLocation + j)).getD 0) = old
  obtain ⟨n, bytes, hload, hn, hinside, -⟩ :=
    readData_start (UInt32.ofNat pageSize) old hread
  have hpage : (UInt32.ofNat pageSize).toNat = pageSize := by decide
  rw [hpage] at hn
  have hsmall : n.toNat < 2 ^ 31 := by
    simp only [pageSize] at hn
    omega
  have hcount : n.toInt32.toInt.toNat = n.toNat := by
    rw [toInt32_toInt, if_pos hsmall]
    omega
  refine ⟨args, opened, n.toNat, bytes, hparse, hinode, hn, hinside, ?_⟩
  simp only [hload, if_neg (toInt32_ne_neg_one hsmall), Option.getD_some, hcount]
  cases (afterSetup args opened k).pokeRange fileLocation n.toNat bytes <;> rfl

/-- The kernel `k'` is `k` with a new process `p` on the scheduled terminal, started on the
stack of `esp` by an `execute` whose frame is `ebp`. -/
structure Started (k : Kernel) (esp ebp p : Nat) (k' : Kernel) : Prop where
  pidBits : k'.pidBits = Function.update k.pidBits p 1
  availablePid : k'.availablePid = p
  paging : k'.paging = setProcessMemory p k.paging
  terminalNum : k'.terminalNum = k.terminalNum
  terminalArr : k'.terminalArr = Function.update k.terminalArr k.terminalNum
    { k.terminalArr k.terminalNum with active := true, mostRecentPcb := pcbAddr p }
  tssEsp0 : k'.tssEsp0 = kernelStackTop p
  pcb_of_ne : ∀ addr, addr ≠ pcbAddr p → k'.pcb addr = k.pcb addr
  pid : (k'.pcb (pcbAddr p)).pid = p
  esp0 : (k'.pcb (pcbAddr p)).esp0 = k.tssEsp0
  ebp : (k'.pcb (pcbAddr p)).ebp = ebp
  root : (k.terminalArr k.terminalNum).active = false →
    (k'.pcb (pcbAddr p)).parent = 0 ∧ (k'.pcb (pcbAddr p)).tid = k.terminalNum
  child : (k.terminalArr k.terminalNum).active = true → getCurrPcb esp ≠ pcbAddr p →
    (k'.pcb (pcbAddr p)).parent = getCurrPcb esp ∧
      (k'.pcb (pcbAddr p)).tid = (k.pcb (getCurrPcb esp)).tid

theorem started_startProcess (fs : Image) (args : List UInt8) (opened : Buf) (esp ebp : Nat)
    (k : Kernel) (phys : Buf) :
    Started k esp ebp (firstFreePid k.pidBits 6 0)
      (startProcess fs args esp ebp { afterSetup args opened k with phys := phys }) := by
  have hself := startProcess_pcb_self fs args esp ebp { afterSetup args opened k with phys := phys }
  constructor
  case pidBits => rw [startProcess_frame]; rfl
  case availablePid => rw [startProcess_frame]; rfl
  case paging => rw [startProcess_frame]; rfl
  case terminalNum => rw [startProcess_frame]; rfl
  case terminalArr => exact startProcess_terminalArr fs args esp ebp _
  case tssEsp0 => exact startProcess_tssEsp0 fs args esp ebp _
  case pcb_of_ne => exact fun addr h => startProcess_pcb_of_ne fs args esp ebp _ h
  case pid => exact hself.1
  case esp0 => exact hself.2.1
  case ebp => exact hself.2.2
  case root => exact fun h => startProcess_root fs args esp ebp _ h
  case child => exact fun h hne => startProcess_child fs args esp ebp _ h hne

/-- **The three ways `execute` can go.** -/
theorem execute_cases (fs : Image) (command : CString) (exeCheck : Buf) (esp ebp : Nat)
    (k : Kernel) :
    (∃ size opened, execute fs command.val exeCheck esp ebp k =
      .returned { k with sizeOfArgs := size, openedFile := opened }) ∨
    execute fs command.val exeCheck esp ebp k = .fault ∨
    ∃ k', execute fs command.val exeCheck esp ebp k = .user k' ∧
      firstFreePid k.pidBits 6 0 < 6 ∧ Started k esp ebp (firstFreePid k.pidBits 6 0) k' := by
  by_cases hrej : Rejected fs command.val exeCheck k.pidBits
  · exact .inl (execute_of_rejected esp ebp hrej)
  obtain ⟨args, opened, size, bytes, -, -, -, -, hexec⟩ := execute_of_accepted esp ebp hrej
  cases hload : (afterSetup args opened k).pokeRange fileLocation size bytes with
  | none =>
      rw [hload] at hexec
      exact .inr (.inl hexec)
  | some k₁ =>
      rw [hload] at hexec
      have hle := firstFreePid_le k.pidBits
      have hne : firstFreePid k.pidBits 6 0 ≠ 6 := fun h => hrej (.inr (.inr (.inr (.inr h))))
      refine .inr (.inr ⟨_, hexec, by omega, ?_⟩)
      rw [Kernel.pokeRange_frame hload]
      exact started_startProcess fs args opened esp ebp k k₁.phys

/-! ## The promise -/

/-- The page tables are as `init_paging` and the calls since then left them. -/
def Kernel.PagingReachable (k : Kernel) : Prop :=
  ∃ layout elsewhere ops,
    k.paging = runPaging ops (initPaging (Paging.zeroed layout elsewhere))

/-- The page after the process page is never mapped. -/
theorem Confined.translate_end {p : Paging} {last : Option Pid} (h : Confined p last) :
    p.translate (fileLocation + loadSpace) = none := by
  have hdir : X86.dirIndex (fileLocation + loadSpace) = 33 := by decide
  have htable : X86.tableIndex (fileLocation + loadSpace) = 0 := by decide
  have hwalk : p.walk (fileLocation + loadSpace) = none := by
    by_cases hp : (p.pageDirectoryEntry 33).present = true
    · obtain ⟨hsmall, haddr⟩ := h.video hp
      refine X86.walk_absent (by rw [hdir]) hsmall ?_
      rw [haddr, Paging.tables_video, htable]
      by_contra hpte
      rw [Bool.not_eq_false] at hpte
      obtain ⟨tid, i, hi, -⟩ := h.videoTable 0 hpte
      omega
    · exact X86.walk_not_present (by rw [hdir]) (Bool.eq_false_iff.mpr hp)
  rw [Paging.translate, hwalk]
  rfl

/-- The file of an inode is what stands at `FILE_LOCATION`. -/
def HoldsProgram (fs : Image) (inode : UInt32) (k : Kernel) : Prop :=
  dentryInodeNum k.openedFile = inode ∧
    ∀ j, j < (fs.fileLength inode).toNat →
      k.peek (fileLocation + j) = some (fs.fileByte inode j)

/-- Entry `i` is a regular file named by the first word of a command. -/
structure NamesProgram (fs : Image) (command : CString) (i : Nat) : Prop where
  exists_entry : i < fs.numDentries.toNat
  name : fs.entryName i = firstWord command.val
  regular : fs.entryType i = 2

/-- What `execute` promises. -/
def ExecutesNamed (fs : Image) (command : CString) (exeCheck : Buf) (esp ebp : Nat)
    (k : Kernel) : Prop :=
  (∀ k', execute fs command.val exeCheck esp ebp k = .user k' →
    ∃ i, NamesProgram fs command i ∧ HoldsProgram fs (fs.entryInode i) k') ∧
  ((¬ ∃ i, NamesProgram fs command i) →
    ∃ k', execute fs command.val exeCheck esp ebp k = .returned k')

/-- The inode number that `execute_setup` goes on with. -/
abbrev commandInode (fs : Image) (command : CString) : UInt32 :=
  fs.openedInode (firstWord command.val)

/-- There is a free process number for an accepted command. -/
theorem firstFreePid_of_accepted {fs : Image} {command : List UInt8} {exeCheck : Buf}
    {pidBits : Nat → UInt8} (hacc : ¬ Rejected fs command exeCheck pidBits) :
    firstFreePid pidBits 6 0 < 6 := by
  have hle := firstFreePid_le pidBits
  have hne : firstFreePid pidBits 6 0 ≠ 6 := fun h => hacc (.inr (.inr (.inr (.inr h))))
  omega

/-- Where the addresses of the program are, once the page of the process is mapped. -/
theorem afterSetup_translate (args : List UInt8) (opened : Buf) {k : Kernel}
    (hfree : firstFreePid k.pidBits 6 0 < 6) {j : Nat} (hj : j < loadSpace) :
    (afterSetup args opened k).paging.translate (fileLocation + j) =
      some (processFrame (firstFreePid k.pidBits 6 0) + (fileLocation - virtualAddrStart) + j) := by
  have hmaps := mapsProcess_setProcessMemory (firstFreePid k.pidBits 6 0) k.paging
  simp only [loadSpace, virtualAddrStart, userSpaceSize, fileLocation] at hj
  have htrans := hmaps.translate hfree (o := fileLocation - virtualAddrStart + j)
    (by simp only [fileLocation, virtualAddrStart, userSpaceSize]; omega)
  rw [show virtualAddrStart + (fileLocation - virtualAddrStart + j) = fileLocation + j by
    simp only [fileLocation, virtualAddrStart]; omega, ← Nat.add_assoc] at htrans
  exact htrans

/-- The file of an accepted command that fits the page is copied to the frame of the new
process. -/
theorem execute_of_fits {fs : Image} {command : CString} {exeCheck : Buf} {k : Kernel}
    (esp ebp : Nat) (hacc : ¬ Rejected fs command.val exeCheck k.pidBits)
    (hfits : (fs.fileLength (commandInode fs command)).toNat ≤ loadSpace) :
    ∃ args opened, ∃ bytes : Buf,
      dentryInodeNum opened = commandInode fs command ∧
      (∀ j, j < (fs.fileLength (commandInode fs command)).toNat →
        bytes j = fs.fileByte (commandInode fs command) j) ∧
      execute fs command.val exeCheck esp ebp k = .user (startProcess fs args esp ebp
        { afterSetup args opened k with
          phys := memcpy k.phys
            (processFrame (firstFreePid k.pidBits 6 0) + (fileLocation - virtualAddrStart)) bytes
            (fs.fileLength (commandInode fs command)).toNat }) := by
  obtain ⟨args, opened, size, bytes, -, hinode, hsize, hbytes, hexec⟩ :=
    execute_of_accepted esp ebp hacc
  have hlength : size = (fs.fileLength (commandInode fs command)).toNat := by
    simp only [commandInode, loadSpace, virtualAddrStart, userSpaceSize, fileLocation,
      pageSize] at hfits hsize ⊢
    omega
  have hpage : ∀ j, j < size → (afterSetup args opened k).paging.translate (fileLocation + j) =
      some (processFrame (firstFreePid k.pidBits 6 0) + (fileLocation - virtualAddrStart) + j) :=
    fun j hj => afterSetup_translate args opened (firstFreePid_of_accepted hacc) (by omega)
  rw [Kernel.pokeRange_eq hpage] at hexec
  rw [hlength] at hbytes hexec
  exact ⟨args, opened, bytes, hinode, hbytes, hexec⟩

/-- The bytes of the file are in the memory of the process. -/
theorem execute_peek (fs : Image) (args : List UInt8) (opened bytes : Buf) (esp ebp n : Nat)
    (k : Kernel) (hfree : firstFreePid k.pidBits 6 0 < 6) (hfits : n ≤ loadSpace) {j : Nat}
    (hj : j < n) :
    (startProcess fs args esp ebp
      { afterSetup args opened k with
        phys := memcpy k.phys
          (processFrame (firstFreePid k.pidBits 6 0) + (fileLocation - virtualAddrStart)) bytes
          n }).peek (fileLocation + j) = some (bytes j) := by
  have htrans := afterSetup_translate args opened hfree (Nat.lt_of_lt_of_le hj hfits)
  rw [startProcess_frame, Kernel.peek]
  show ((afterSetup args opened k).paging.translate _).map _ = _
  rw [htrans, Option.map_some]
  show some (memcpy _ _ _ _ _) = _
  rw [memcpy_inside (Nat.le_add_right _ _) (by omega), Nat.add_sub_cancel_left]

/-- An accepted program that fits its page is started. -/
theorem execute_user {fs : Image} {command : CString} {exeCheck : Buf} {k : Kernel}
    (esp ebp : Nat) (hacc : ¬ Rejected fs command.val exeCheck k.pidBits)
    (hfits : (fs.fileLength (commandInode fs command)).toNat ≤ loadSpace) :
    ∃ k', execute fs command.val exeCheck esp ebp k = .user k' ∧
      HoldsProgram fs (commandInode fs command) k' := by
  obtain ⟨args, opened, bytes, hinode, hbytes, hexec⟩ := execute_of_fits esp ebp hacc hfits
  have hfree := firstFreePid_of_accepted hacc
  refine ⟨_, hexec, ?_, fun j hj => ?_⟩
  · rw [startProcess_frame]
    exact hinode
  · rw [execute_peek fs args opened bytes esp ebp _ k hfree hfits hj, hbytes j hj]

/-- An accepted program that does not fit its page is a page fault. -/
theorem execute_fault {fs : Image} {command : CString} {exeCheck : Buf} {k : Kernel}
    (esp ebp : Nat) (hk : k.PagingReachable)
    (hacc : ¬ Rejected fs command.val exeCheck k.pidBits)
    (hlong : loadSpace < (fs.fileLength (commandInode fs command)).toNat) :
    execute fs command.val exeCheck esp ebp k = .fault := by
  obtain ⟨args, opened, size, bytes, -, -, hsize, -, hexec⟩ := execute_of_accepted esp ebp hacc
  obtain ⟨layout, elsewhere, ops, hpaging⟩ := hk
  have hconfined := confined_runPaging layout elsewhere ops
  rw [← hpaging] at hconfined
  have hfree := firstFreePid_of_accepted hacc
  have hend : (afterSetup args opened k).paging.translate (fileLocation + loadSpace) = none :=
    (hconfined.setProcessMemory ⟨firstFreePid k.pidBits 6 0, hfree⟩).translate_end
  have hlt : loadSpace < size := by
    simp only [commandInode, loadSpace, virtualAddrStart, userSpaceSize, fileLocation,
      pageSize] at hlong hsize ⊢
    omega
  rw [hexec, Kernel.pokeRange_fault hlt hend]
  rfl

/-- **`execute` keeps its promise exactly when** it answers -1, or some regular file named
by the first word has the inode of the first entry of that name (or that file does not fit
the page and loading it faults). -/
theorem executesNamed_iff (fs : Image) (command : CString) (exeCheck : Buf) (esp ebp : Nat)
    (k : Kernel) (hk : k.PagingReachable) :
    ExecutesNamed fs command exeCheck esp ebp k ↔
      Rejected fs command.val exeCheck k.pidBits ∨
        ∃ i, NamesProgram fs command i ∧
          (fs.entryInode i = commandInode fs command ∨
            loadSpace < (fs.fileLength (commandInode fs command)).toNat) := by
  by_cases hrej : Rejected fs command.val exeCheck k.pidBits
  · obtain ⟨size, opened, hexec⟩ := execute_of_rejected esp ebp hrej
    refine ⟨fun _ => .inl hrej, fun _ => ⟨fun k' hk' => ?_, fun _ => ⟨_, hexec⟩⟩⟩
    rw [hexec] at hk'
    cases hk'
  by_cases hlong : loadSpace < (fs.fileLength (commandInode fs command)).toNat
  · have hexec := execute_fault esp ebp hk hrej hlong
    constructor
    · intro hpromise
      refine .inr ?_
      by_contra hnone
      obtain ⟨k', hk'⟩ := hpromise.2 fun ⟨i, hi⟩ => hnone ⟨i, hi, .inr hlong⟩
      rw [hexec] at hk'
      cases hk'
    · rintro (h | ⟨i, hi, -⟩)
      · exact absurd h hrej
      · refine ⟨fun k' hk' => ?_, fun hnone => absurd ⟨i, hi⟩ hnone⟩
        rw [hexec] at hk'
        cases hk'
  · obtain ⟨k', hexec, hholds⟩ := execute_user esp ebp hrej (Nat.le_of_not_lt hlong)
    constructor
    · intro hpromise
      obtain ⟨i, hi, hinode, -⟩ := hpromise.1 k' hexec
      exact .inr ⟨i, hi, .inl (hinode.symm.trans hholds.1)⟩
    · rintro (h | ⟨i, hi, hinode | h⟩)
      · exact absurd h hrej
      · refine ⟨fun k'' hk'' => ⟨i, hi, ?_⟩, fun hnone => absurd ⟨i, hi⟩ hnone⟩
        rw [hexec] at hk''
        cases hk''
        rw [hinode]
        exact hholds
      · exact absurd h hlong

/-- An image with no directory entries whose inode 0 holds an executable. -/
def namelessImage : Image where
  bytes a := match a.toNat with
    | 4 => 1
    | 8 => 1
    | 4096 => 4
    | 8192 => 0x7f
    | 8193 => 0x45
    | 8194 => 0x4c
    | 8195 => 0x46
    | _ => 0

/-- The command `"x"`. -/
def commandX : CString := ⟨[0x78], by decide, by decide⟩

/-- A kernel of which only the page tables are initialised. -/
def pagedKernel : Kernel :=
  { Kernel.zeroed .blank with
    paging := initPaging (Paging.zeroed PowerOn.blank.layout PowerOn.blank.elsewhere) }

theorem pagedKernel_pagingReachable : pagedKernel.PagingReachable := ⟨_, _, [], rfl⟩

theorem executesNamed_iff_commandX :
    pagedKernel.PagingReachable ∧
      (ExecutesNamed namelessImage commandX (fun _ => 0) 0 0 pagedKernel ↔
        Rejected namelessImage commandX.val (fun _ => 0) pagedKernel.pidBits ∨
          ∃ i, NamesProgram namelessImage commandX i ∧
            (namelessImage.entryInode i = commandInode namelessImage commandX ∨
              loadSpace <
                (namelessImage.fileLength (commandInode namelessImage commandX)).toNat)) :=
  ⟨pagedKernel_pagingReachable,
    executesNamed_iff namelessImage commandX (fun _ => 0) 0 0 pagedKernel
      pagedKernel_pagingReachable⟩

/-- The command `"x"` starts the file of inode 0, although there is no entry at all. -/
theorem executesNamed_fails_without_entry :
    ¬ ∀ (fs : Image) (command : CString) (exeCheck : Buf) (esp ebp : Nat) (k : Kernel),
      k.PagingReachable → ExecutesNamed fs command exeCheck esp ebp k := by
  intro hall
  have hacc : ¬ Rejected namelessImage commandX.val (fun _ => 0) pagedKernel.pidBits := by decide
  obtain ⟨k', hexec, -⟩ := execute_user 0 0 hacc (by decide)
  obtain ⟨i, hnames, -⟩ :=
    (hall _ _ _ 0 0 _ pagedKernel_pagingReachable).1 k' hexec
  have hnone : namelessImage.numDentries.toNat = 0 := by decide
  have hlt := hnames.exists_entry
  omega

end JuddOS
