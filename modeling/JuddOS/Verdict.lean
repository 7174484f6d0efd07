import JuddOS.Loader

/-!
# What the verdict of `execute` depends on

`read_data` delivers fewer bytes than it is asked for when the file is short, and `execute` does
not look at how many.  Bytes that are missing are those that were in `exe_check`, or in the block
of the new PCB, before (`Leftovers`).

`verdict_eq` gives the verdict of a command, leftovers included.  `dependsOnFile_iff` says for
which commands the leftovers do not matter: a file of 28 bytes or more decides alone.
-/

namespace JuddOS

open Image

/-- What a command comes to. -/
inductive Verdict
  | rejected
  | accepted (eip : UInt32)
  | faulted
  deriving DecidableEq

/-- The verdict of an `execute`. -/
def Outcome.verdict : Outcome → Verdict
  | .returned _ => .rejected
  | .user k => .accepted (k.pcb (pcbAddr k.availablePid)).eip
  | .frame .. | .fault => .faulted

/-- The kernel memory that nobody has initialised when `execute` is called: the array `exe_check`
and the block of the new PCB. -/
structure Leftovers where
  exeCheck : Buf
  block : Pcb

/-- The kernel with these leftovers. -/
def Kernel.withLeftovers (k : Kernel) (l : Leftovers) : Kernel :=
  k.setPcb (pcbAddr (firstFreePid k.pidBits 6 0)) fun _ => l.block

/-- The verdict of a command, when these are the leftovers. -/
def verdict (fs : Image) (command : CString) (esp ebp : Nat) (k : Kernel) (l : Leftovers) :
    Verdict :=
  (execute fs command.val l.exeCheck esp ebp (k.withLeftovers l)).verdict

/-- The first four bytes of an executable. -/
def exeMagic : Buf
  | 0 => 0x7f
  | 1 => 0x45
  | 2 => 0x4c
  | _ => 0x46

theorem hasExeMagic_iff (b : Buf) : hasExeMagic b = true ↔ ∀ j, j < 4 → b j = exeMagic j := by
  rw [hasExeMagic, decide_eq_true_eq]
  constructor
  · rintro ⟨h0, h1, h2, h3⟩ j hj
    rcases j with _ | _ | _ | _ | j
    · exact h0
    · exact h1
    · exact h2
    · exact h3
    · omega
  · intro h
    exact ⟨h 0 (by decide), h 1 (by decide), h 2 (by decide), h 3 (by decide)⟩

/-- The verdict depends on the file only: it is the same for all leftovers, and an accepted file
has four bytes and starts with the magic ones. -/
structure DependsOnFile (fs : Image) (command : CString) (esp ebp : Nat) (k : Kernel) : Prop where
  same : ∀ l l', verdict fs command esp ebp k l = verdict fs command esp ebp k l'
  magic : ∀ l eip, verdict fs command esp ebp k l = .accepted eip →
    4 ≤ (fs.fileLength (commandInode fs command)).toNat ∧
      hasExeMagic (fs.fileByte (commandInode fs command)) = true

/-- The addresses of the program are mapped once the process has its page. -/
def LoadMapped (fs : Image) (command : CString) (k : Kernel) : Prop :=
  ∀ j, j < min pageSize (fs.fileLength (commandInode fs command)).toNat →
    ((setProcessMemory (firstFreePid k.pidBits 6 0) k.paging).translate (fileLocation + j)).isSome

theorem verdict_of_rejected {fs : Image} {command : CString} {k : Kernel} {l : Leftovers}
    (esp ebp : Nat) (h : Rejected fs command.val l.exeCheck k.pidBits) :
    verdict fs command esp ebp k l = .rejected := by
  obtain ⟨size, opened, hexec⟩ := execute_of_rejected (k := k.withLeftovers l) esp ebp h
  rw [verdict, hexec]
  rfl

/-- The verdict on a command that passes the tests. -/
theorem verdict_of_accepted {fs : Image} {command : CString} {k : Kernel} {l : Leftovers}
    (esp ebp : Nat) (h : ¬ Rejected fs command.val l.exeCheck k.pidBits) :
    (LoadMapped fs command k → verdict fs command esp ebp k l =
      .accepted (entryPoint fs (commandInode fs command) l.block.eip)) ∧
    (¬ LoadMapped fs command k → verdict fs command esp ebp k l = .faulted) := by
  have hread : ¬ ReadRefused fs (commandInode fs command) 0 := fun hr =>
    h (.inr (.inr (.inl hr)))
  obtain ⟨args, opened, size, bytes, -, hinode, hsize, -, hexec⟩ :=
    execute_of_accepted (k := k.withLeftovers l) esp ebp h
  have hmapped : ((afterSetup args opened (k.withLeftovers l)).pokeRange fileLocation size
      bytes).isSome ↔ LoadMapped fs command k := by
    rw [Kernel.pokeRange_isSome_iff, hsize]
    rfl
  rw [verdict, hexec]
  cases hload : (afterSetup args opened (k.withLeftovers l)).pokeRange fileLocation size bytes with
  | none =>
      rw [hload] at hmapped
      exact ⟨fun hm => absurd (hmapped.mpr hm) Bool.false_ne_true, fun _ => rfl⟩
  | some k₁ =>
      rw [hload] at hmapped
      refine ⟨fun _ => ?_, fun hm => absurd (hmapped.mp rfl) hm⟩
      have hframe := Kernel.pokeRange_frame hload
      have hopened : dentryInodeNum k₁.openedFile = commandInode fs command := by
        rw [hframe]
        exact hinode
      have hpid : (startProcess fs args esp ebp k₁).availablePid = k₁.availablePid := by
        rw [startProcess_frame]
      have hstale : (k₁.pcb (pcbAddr k₁.availablePid)).eip = l.block.eip := by
        rw [hframe]
        show ((k.withLeftovers l).pcb (pcbAddr (firstFreePid k.pidBits 6 0))).eip = _
        rw [Kernel.withLeftovers, Kernel.setPcb_self]
      have heip := startProcess_eip fs args esp ebp k₁ (by rw [hopened]; exact hread)
      rw [hopened, hstale, ← hpid] at heip
      exact congrArg Verdict.accepted heip

/-! ## Files that decide alone -/

/-- One of the first four bytes of the file is wrong. -/
def HeaderDiffers (fs : Image) (inode : UInt32) : Prop :=
  ∃ j, j < 4 ∧ j < (fs.fileLength inode).toNat ∧ fs.fileByte inode j ≠ exeMagic j

/-- The leftovers do not matter: the command is rejected before they are looked at or by the
bytes that the file has, or the file has 28 bytes. -/
def FileDecides (fs : Image) (command : CString) (pidBits : Nat → UInt8) : Prop :=
  (command.val.head? = none ∨ command.val.head? = some chSpace) ∨
  parseCommand 0 command.val = none ∨
  ReadRefused fs (commandInode fs command) 0 ∨
  HeaderDiffers fs (commandInode fs command) ∨
  firstFreePid pidBits 6 0 = 6 ∨
  28 ≤ (fs.fileLength (commandInode fs command)).toNat

/-- A file that has the magic bytes is accepted with some leftovers. -/
theorem not_rejected_of_not_fileDecides {fs : Image} {command : CString} {pidBits : Nat → UInt8}
    (h : ¬ FileDecides fs command pidBits) : ¬ Rejected fs command.val exeMagic pidBits := by
  rintro (hhead | hparse | hrefused | hexe | hfull)
  · exact h (.inl hhead)
  · exact h (.inr (.inl hparse))
  · exact h (.inr (.inr (.inl hrefused)))
  · have hheader : hasExeMagic (fileHeader fs (commandInode fs command) exeMagic) = true := by
      rw [hasExeMagic_iff]
      intro j hj
      rw [fileHeader]
      split
      case isTrue hin =>
        by_contra hne
        exact h (.inr (.inr (.inr (.inl ⟨j, hj, hin, hne⟩))))
      case isFalse => rfl
    rw [hheader] at hexe
    cases hexe
  · exact h (.inr (.inr (.inr (.inr (.inl hfull)))))

/-- Every leftover is rejected by a file that decides alone and is too short. -/
theorem rejected_of_fileDecides {fs : Image} {command : CString} {pidBits : Nat → UInt8}
    (h : FileDecides fs command pidBits)
    (hshort : (fs.fileLength (commandInode fs command)).toNat < 28) (exeCheck : Buf) :
    Rejected fs command.val exeCheck pidBits := by
  rcases h with hhead | hparse | hrefused | ⟨j, hj, hin, hne⟩ | hfull | hlong
  · exact .inl hhead
  · exact .inr (.inl hparse)
  · exact .inr (.inr (.inl hrefused))
  · refine .inr (.inr (.inr (.inl ?_)))
    rw [← Bool.not_eq_true, hasExeMagic_iff]
    intro hall
    have hbyte := hall j hj
    rw [fileHeader, if_pos hin] at hbyte
    exact hne hbyte
  · exact .inr (.inr (.inr (.inr hfull)))
  · omega

/-- With 28 bytes the header and the entry point are those of the file. -/
theorem dependsOnFile_of_long {fs : Image} {command : CString} (esp ebp : Nat) {k : Kernel}
    (hlong : 28 ≤ (fs.fileLength (commandInode fs command)).toNat) :
    DependsOnFile fs command esp ebp k := by
  have hheader : ∀ exeCheck, hasExeMagic (fileHeader fs (commandInode fs command) exeCheck) =
      hasExeMagic (fs.fileByte (commandInode fs command)) := fun exeCheck =>
    hasExeMagic_congr fun j hj => by rw [fileHeader, if_pos (by omega)]
  have hrejected : ∀ exeCheck exeCheck', Rejected fs command.val exeCheck k.pidBits →
      Rejected fs command.val exeCheck' k.pidBits := by
    intro exeCheck exeCheck' h
    unfold Rejected at h ⊢
    rwa [hheader, ← hheader exeCheck]
  have hentry : ∀ stale stale', entryPoint fs (commandInode fs command) stale =
      entryPoint fs (commandInode fs command) stale' := fun stale stale' =>
    Buf.word_congr fun j hj => by rw [if_pos (by omega), if_pos (by omega)]
  constructor
  case same =>
    intro l l'
    by_cases hrej : Rejected fs command.val l.exeCheck k.pidBits
    · rw [verdict_of_rejected esp ebp hrej,
        verdict_of_rejected esp ebp (hrejected _ l'.exeCheck hrej)]
    · have hacc := verdict_of_accepted (k := k) (l := l) esp ebp hrej
      have hacc' := verdict_of_accepted (k := k) (l := l') esp ebp
        fun h => hrej (hrejected _ _ h)
      by_cases hmapped : LoadMapped fs command k
      · rw [hacc.1 hmapped, hacc'.1 hmapped, hentry l.block.eip l'.block.eip]
      · rw [hacc.2 hmapped, hacc'.2 hmapped]
  case magic =>
    intro l eip hverdict
    refine ⟨by omega, ?_⟩
    by_contra hexe
    rw [Bool.not_eq_true, ← hheader l.exeCheck] at hexe
    rw [verdict_of_rejected esp ebp (.inr (.inr (.inr (.inl hexe))))] at hverdict
    cases hverdict

/-- A short file that fits its page is mapped. -/
theorem loadMapped_of_accepted {fs : Image} {command : CString} {exeCheck : Buf} {k : Kernel}
    (hacc : ¬ Rejected fs command.val exeCheck k.pidBits)
    (hshort : (fs.fileLength (commandInode fs command)).toNat ≤ loadSpace) :
    LoadMapped fs command k := by
  intro j hj
  have htrans := afterSetup_translate [] (fun _ => 0) (firstFreePid_of_accepted hacc)
    (Nat.lt_of_lt_of_le (Nat.lt_of_lt_of_le hj (Nat.min_le_right _ _)) hshort)
  exact Option.isSome_iff_exists.mpr ⟨_, htrans⟩

/-- **The verdict depends on the file only, exactly when** the command is rejected whatever the
leftovers are or the file has 28 bytes. -/
theorem dependsOnFile_iff (fs : Image) (command : CString) (esp ebp : Nat) (k : Kernel) :
    DependsOnFile fs command esp ebp k ↔ FileDecides fs command k.pidBits := by
  constructor
  · intro hdepends
    by_contra hopen
    have hacc := not_rejected_of_not_fileDecides hopen
    have hshort : (fs.fileLength (commandInode fs command)).toNat < 28 := by
      by_contra hlong
      exact hopen (.inr (.inr (.inr (.inr (.inr (Nat.le_of_not_lt hlong))))))
    have hmapped : LoadMapped fs command k := loadMapped_of_accepted hacc
      (by simp only [loadSpace, virtualAddrStart, userSpaceSize, fileLocation]; omega)
    -- two blocks that differ in the last byte of `eip`
    have hzero := (verdict_of_accepted (k := k)
      (l := ⟨exeMagic, { k.pcb 0 with eip := 0 }⟩) esp ebp hacc).1 hmapped
    have hones := (verdict_of_accepted (k := k)
      (l := ⟨exeMagic, { k.pcb 0 with eip := 0xffffffff }⟩) esp ebp hacc).1 hmapped
    have hsame := hdepends.same ⟨exeMagic, { k.pcb 0 with eip := 0 }⟩
      ⟨exeMagic, { k.pcb 0 with eip := 0xffffffff }⟩
    rw [hzero, hones] at hsame
    have hbyte := congrArg (Buf.ofWord · 3) (Verdict.accepted.inj hsame)
    simp only [entryPoint, Buf.ofWord_word _ _ (show 3 < 4 by decide), Nat.zero_add] at hbyte
    rw [if_neg (by omega), if_neg (by omega)] at hbyte
    exact absurd hbyte (by decide)
  · intro hdecides
    by_cases hlong : 28 ≤ (fs.fileLength (commandInode fs command)).toNat
    · exact dependsOnFile_of_long esp ebp hlong
    · have hrej := rejected_of_fileDecides hdecides (Nat.lt_of_not_le hlong)
      constructor
      case same =>
        intro l l'
        rw [verdict_of_rejected esp ebp (hrej _), verdict_of_rejected esp ebp (hrej _)]
      case magic =>
        intro l eip hverdict
        rw [verdict_of_rejected esp ebp (hrej _)] at hverdict
        cases hverdict

/-- An executable of one byte. -/
theorem verdict_of_leftovers :
    ¬ ∀ (fs : Image) (command : CString) (esp ebp : Nat) (k : Kernel),
      (∃ i, NamesProgram fs command i) → DependsOnFile fs command esp ebp k := by
  intro hall
  have hnames : NamesProgram (programImage 1) commandX 0 :=
    ⟨by decide, by decide, by decide⟩
  have hdepends := hall (programImage 1) commandX 0 0 pagedKernel ⟨0, hnames⟩
  have hacc : ¬ Rejected (programImage 1) commandX.val exeMagic pagedKernel.pidBits := by decide
  have hmapped : LoadMapped (programImage 1) commandX pagedKernel :=
    loadMapped_of_accepted hacc (by decide)
  have haccepted := (verdict_of_accepted (k := pagedKernel)
    (l := ⟨exeMagic, pagedKernel.pcb 0⟩) 0 0 hacc).1 hmapped
  have hlength := (hdepends.magic _ _ haccepted).1
  exact absurd hlength (by decide)

end JuddOS
