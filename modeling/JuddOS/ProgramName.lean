import JuddOS.CommandLine
import JuddOS.Verdict
import Mathlib.Data.List.TakeWhile

/-!
# The program that a command names

A command with arguments should run the program that its first word alone runs.  The limit on the
name is tested in the loop only where a space ends the word, and a name in the directory may have
all 32 bytes.

* `lookedUp`: what `execute_setup` passes to `file_open`.
* `executeSetup_isSome_iff`: acceptance in the words of `Rejected`.
* `args_keep_program_iff`: when arguments make no difference.
-/

namespace JuddOS

open Image

/-- The name that `execute_setup` looks up; `none` when it returns -1 before that. -/
def lookedUp (command : List UInt8) : Option (List UInt8) :=
  if command.head? = none ∨ command.head? = some chSpace then none
  else (parseCommand 0 command).map Prod.fst

/-- A command is accepted unless one of the tests fails. -/
theorem executeSetup_isSome_iff (fs : Image) {command : List UInt8} (hcommand : IsCString command)
    (exeCheck : Buf) (k : Kernel) :
    (executeSetup fs command exeCheck k).2.isSome = true ↔
      ¬ Rejected fs command exeCheck k.pidBits := by
  rcases executeSetup_spec fs ⟨command, hcommand⟩ exeCheck k with
    ⟨hrej, size, opened, hsetup⟩ | ⟨hnot, args, opened, -, -, hsetup⟩
  · rw [hsetup]
    simpa using hrej
  · rw [hsetup]
    simpa using hnot

/-- Both commands look up the same name, and both are accepted or both are not, whatever
`exe_check` holds. -/
structure SameProgram (fs : Image) (command command' : List UInt8) (k : Kernel) : Prop where
  name : lookedUp command = lookedUp command'
  accepted : ∀ exeCheck exeCheck', (executeSetup fs command exeCheck k).2.isSome =
    (executeSetup fs command' exeCheck' k).2.isSome

/-- The tests of `execute_setup` that are made after the command was parsed. -/
def FileRejected (fs : Image) (name : List UInt8) (exeCheck : Buf) (pidBits : Nat → UInt8) :
    Prop :=
  ReadRefused fs (fs.openedInode name) 0 ∨
  hasExeMagic (fileHeader fs (fs.openedInode name) exeCheck) = false ∨
  firstFreePid pidBits 6 0 = 6

/-- The file has the bytes that decide, or the test of another one fails. -/
def HeaderDecides (fs : Image) (name : List UInt8) (pidBits : Nat → UInt8) : Prop :=
  ReadRefused fs (fs.openedInode name) 0 ∨
  HeaderDiffers fs (fs.openedInode name) ∨
  firstFreePid pidBits 6 0 = 6 ∨
  4 ≤ (fs.fileLength (fs.openedInode name)).toNat

/-! ## A word with and without arguments -/

/-- A word has no space in it and does not end the command. -/
def IsWord (w : List UInt8) : Prop := ∀ c ∈ w, endsCommand c = false ∧ c ≠ chSpace

section Words

variable {w : List UInt8} (hw : IsWord w)

include hw

theorem firstWord_append (a : List UInt8) : firstWord (w ++ chSpace :: a) = w := by
  unfold firstWord
  rw [List.takeWhile_append_of_pos (by simpa [IsWord] using hw)]
  simp

theorem firstWord_word : firstWord w = w :=
  List.takeWhile_eq_self_iff.mpr (by simpa [IsWord] using hw)

theorem commandLine_word : commandLine w = w :=
  List.takeWhile_eq_self_iff.mpr fun c hc => by simp [(hw c hc).1]

theorem parseCommand_word : parseCommand 0 w = some (w, []) := by
  rw [parseCommand_eq, storedArgs, restOfLine, firstWord_word hw, commandLine_word hw]
  simp

theorem parseCommand_append (a : List UInt8) :
    parseCommand 0 (w ++ chSpace :: a) =
      if filenameSize ≤ w.length then none else some (w, commandLine a) := by
  have hspace : endsCommand chSpace = false := rfl
  have hline : commandLine (w ++ chSpace :: a) = w ++ chSpace :: commandLine a := by
    unfold commandLine
    rw [List.takeWhile_append_of_pos fun c hc => by simp [(hw c hc).1]]
    simp [hspace]
  rw [parseCommand_eq, storedArgs, restOfLine, firstWord_append hw, hline]
  simp

theorem head_word (hne : w ≠ []) :
    ¬ (w.head? = none ∨ w.head? = some chSpace) := by
  cases w with
  | nil => exact absurd rfl hne
  | cons c w => simpa using (hw c List.mem_cons_self).2

theorem head_append (hne : w ≠ []) (a : List UInt8) :
    ¬ ((w ++ chSpace :: a).head? = none ∨ (w ++ chSpace :: a).head? = some chSpace) := by
  rw [List.head?_append_of_ne_nil w hne]
  exact head_word hw hne

theorem lookedUp_word (hne : w ≠ []) : lookedUp w = some w := by
  rw [lookedUp, if_neg (head_word hw hne), parseCommand_word hw]
  rfl

theorem lookedUp_append (hne : w ≠ []) (a : List UInt8) :
    lookedUp (w ++ chSpace :: a) = if filenameSize ≤ w.length then none else some w := by
  rw [lookedUp, if_neg (head_append hw hne a), parseCommand_append hw]
  split <;> rfl

theorem rejected_word (hne : w ≠ []) (fs : Image) (exeCheck : Buf) (pidBits : Nat → UInt8) :
    Rejected fs w exeCheck pidBits ↔ FileRejected fs w exeCheck pidBits := by
  unfold Rejected FileRejected
  rw [parseCommand_word hw, firstWord_word hw, or_iff_right (head_word hw hne),
    or_iff_right (Option.some_ne_none _)]

theorem rejected_append (hne : w ≠ []) (hlen : w.length < filenameSize) (a : List UInt8)
    (fs : Image) (exeCheck : Buf) (pidBits : Nat → UInt8) :
    Rejected fs (w ++ chSpace :: a) exeCheck pidBits ↔ FileRejected fs w exeCheck pidBits := by
  unfold Rejected FileRejected
  rw [parseCommand_append hw, if_neg (Nat.not_le_of_lt hlen), firstWord_append hw,
    or_iff_right (head_append hw hne a), or_iff_right (Option.some_ne_none _)]

end Words

/-- **`exe_check` does not matter exactly when** the file has the bytes that decide or another
test fails. -/
theorem headerDecides_iff (fs : Image) (name : List UInt8) (pidBits : Nat → UInt8) :
    HeaderDecides fs name pidBits ↔
      ∀ exeCheck exeCheck', FileRejected fs name exeCheck pidBits ↔
        FileRejected fs name exeCheck' pidBits := by
  constructor
  · rintro (hrefused | ⟨j, hj, hin, hne⟩ | hfull | hlong) exeCheck exeCheck'
    · exact ⟨fun _ => .inl hrefused, fun _ => .inl hrefused⟩
    · have hdiffers : ∀ e, hasExeMagic (fileHeader fs (fs.openedInode name) e) = false := by
        intro e
        rw [← Bool.not_eq_true, hasExeMagic_iff]
        intro hall
        have hbyte := hall j hj
        rw [fileHeader, if_pos hin] at hbyte
        exact hne hbyte
      exact ⟨fun _ => .inr (.inl (hdiffers _)), fun _ => .inr (.inl (hdiffers _))⟩
    · exact ⟨fun _ => .inr (.inr hfull), fun _ => .inr (.inr hfull)⟩
    · have hsame : hasExeMagic (fileHeader fs (fs.openedInode name) exeCheck) =
          hasExeMagic (fileHeader fs (fs.openedInode name) exeCheck') :=
        hasExeMagic_congr fun j hj => by
          rw [fileHeader, fileHeader, if_pos (by omega), if_pos (by omega)]
      unfold FileRejected
      rw [hsame]
  · intro hsame
    by_contra hopen
    unfold HeaderDecides at hopen
    rw [not_or, not_or, not_or] at hopen
    obtain ⟨hread, hheader, hfree, hshort⟩ := hopen
    -- The magic bytes left in `exe_check` complete the header, and zeros spoil it.
    have hgood : hasExeMagic (fileHeader fs (fs.openedInode name) exeMagic) = true := by
      rw [hasExeMagic_iff]
      intro j hj
      rw [fileHeader]
      split
      case isTrue hin =>
        by_contra hne
        exact hheader ⟨j, hj, hin, hne⟩
      case isFalse => rfl
    have hbad : hasExeMagic (fileHeader fs (fs.openedInode name) fun _ => 0) = false := by
      rw [← Bool.not_eq_true, hasExeMagic_iff]
      intro hall
      have hlast := hall 3 (by decide)
      rw [fileHeader, if_neg (by omega)] at hlast
      exact absurd hlast (by decide)
    rcases (hsame exeMagic fun _ => 0).mpr (.inr (.inl hbad)) with h | h | h
    · exact hread h
    · rw [hgood] at h
      cases h
    · exact hfree h

/-- **Arguments make no difference exactly when** the word is shorter than 32 bytes and the file
decides whether it is accepted. -/
theorem args_keep_program_iff (fs : Image) {w a : List UInt8} (hw : IsWord w)
    (hlen : w.length ≤ filenameSize) (hcommand : IsCString (w ++ chSpace :: a)) (k : Kernel) :
    SameProgram fs w (w ++ chSpace :: a) k ↔
      w.length < filenameSize ∧ (w = [] ∨ HeaderDecides fs w k.pidBits) := by
  have hword : IsCString w :=
    ⟨fun h => hcommand.no_nul (List.mem_append_left _ h),
      Nat.le_trans (by simp) hcommand.length_le⟩
  by_cases hne : w = []
  · subst hne
    exact ⟨fun _ => ⟨by decide, .inl rfl⟩, fun _ => ⟨rfl, fun _ _ => rfl⟩⟩
  have hacc : ∀ exeCheck, (executeSetup fs w exeCheck k).2.isSome = true ↔
      ¬ FileRejected fs w exeCheck k.pidBits := fun exeCheck => by
    rw [executeSetup_isSome_iff fs hword, rejected_word hw hne]
  by_cases hshort : w.length < filenameSize
  · have hacc' : ∀ exeCheck, (executeSetup fs (w ++ chSpace :: a) exeCheck k).2.isSome = true ↔
        ¬ FileRejected fs w exeCheck k.pidBits := fun exeCheck => by
      rw [executeSetup_isSome_iff fs hcommand, rejected_append hw hne hshort]
    constructor
    · intro hsame
      refine ⟨hshort, .inr ((headerDecides_iff fs w k.pidBits).mpr fun exeCheck exeCheck' => ?_)⟩
      have heq := hsame.accepted exeCheck exeCheck'
      rw [Bool.eq_iff_iff, hacc, hacc', not_iff_not] at heq
      exact heq
    · rintro ⟨-, hnil | hdecides⟩
      · exact absurd hnil hne
      constructor
      case name =>
        rw [lookedUp_word hw hne, lookedUp_append hw hne, if_neg (Nat.not_le_of_lt hshort)]
      case accepted =>
        intro exeCheck exeCheck'
        rw [Bool.eq_iff_iff, hacc, hacc', not_iff_not]
        exact (headerDecides_iff fs w k.pidBits).mp hdecides exeCheck exeCheck'
  · constructor
    · intro hsame
      have hname := hsame.name
      rw [lookedUp_word hw hne, lookedUp_append hw hne, if_pos (Nat.le_of_not_lt hshort)] at hname
      cases hname
    · exact fun h => absurd h.1 hshort

/-- Thirty-two times `x`. -/
def longName : List UInt8 := List.replicate 32 0x78

/-- An executable of four bytes whose name fills its field. -/
def longNameImage : Image where
  bytes a := if 64 ≤ a ∧ a < 96 then 0x78 else (programImage 4).bytes a

/-- The command is accepted, and refused with an argument. -/
theorem args_refuse_long_name :
    ¬ ∀ (fs : Image) (w a : List UInt8), IsWord w → w.length ≤ filenameSize →
      IsCString (w ++ chSpace :: a) → ∀ k, SameProgram fs w (w ++ chSpace :: a) k := by
  intro hall
  have hcommand : IsCString (longName ++ chSpace :: [0x61]) := ⟨by decide, by decide⟩
  have hword : IsWord longName := by
    intro c hc
    rw [List.eq_of_mem_replicate hc]
    decide
  have hsame := (hall longNameImage longName [0x61] hword (by decide) hcommand
    pagedKernel).accepted (fun _ => 0) fun _ => 0
  have hacc : ¬ Rejected longNameImage longName (fun _ => 0) pagedKernel.pidBits := by decide
  have hrej : Rejected longNameImage (longName ++ chSpace :: [0x61]) (fun _ => 0)
      pagedKernel.pidBits := .inr (.inl rfl)
  rw [Bool.eq_iff_iff, executeSetup_isSome_iff longNameImage ⟨by decide, by decide⟩,
    executeSetup_isSome_iff longNameImage hcommand] at hsame
  exact hsame.mp hacc hrej

theorem isWord_commandX : IsWord commandX.val := by
  intro c hc
  rw [List.mem_singleton.mp hc]
  decide

theorem args_keep_program_x : SameProgram (programImage 4) commandX.val
    (commandX.val ++ chSpace :: [0x61]) pagedKernel :=
  (args_keep_program_iff (programImage 4) isWord_commandX (by decide) ⟨by decide, by decide⟩
    pagedKernel).mpr ⟨by decide, .inr (.inr (.inr (.inr (by decide))))⟩

end JuddOS
