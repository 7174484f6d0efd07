import JuddOS.FileSystem

/-!
# `read_dentry_by_name` against the directory

The directory is the list of the first `num_dentries` entries, each with a name of at most
32 bytes (`Image.entryName`).  `Image.lookup` is the first entry of a name.

* `dentryMatches_iff`: the test of the search loop is equality of names.
* `readDentryByName_of_lookup`: a name that is there gives 0 and the fields of its first
  entry.
* `readDentryByName_of_absent`: a name that is not there gives -1 and **a cleared entry,
  whose inode number is 0**.
-/

namespace JuddOS

open Image

/-- The first directory entry with a name. -/
def Image.lookup (fs : Image) (name : List UInt8) : Option Nat :=
  (List.range fs.numDentries.toNat).find? fun i => fs.entryName i = name

/-- A C string that a pointer can give: no NUL inside, and room in the address space. -/
structure IsCString (name : List UInt8) : Prop where
  no_nul : (0 : UInt8) ∉ name
  length_le : name.length ≤ 2 ^ 32

/-- The loop compares names. -/
theorem dentryMatches_iff {fs : Image} {name : List UInt8} (hname : IsCString name) (i : Nat) :
    dentryMatches fs (Buf.ofList name) (dentrySize * (i + 1)) = true ↔
      fs.entryName i = name := by
  have htarget := field_length (fs.bufAt (dentrySize * (i + 1))) (n := filenameSize) (by simp)
  have hlen : strlen (Buf.ofList name) = name.length :=
    strlen_ofList hname.no_nul hname.length_le
  unfold dentryMatches
  simp only [← htarget, hlen, decide_eq_true_eq]
  constructor
  · rintro ⟨hcmp, hlength⟩
    rw [strncmp_eq_zero_iff fun j hj => ofList_ne_zero hname.no_nul (hlength ▸ hj)] at hcmp
    refine List.ext_getElem hlength fun j hj hj' => ?_
    have hentry : (fs.entryName i).getD j 0 = _ := (field_getD hj).1
    have hbyte := hcmp j hj
    rw [Nat.zero_add, List.getD_eq_getElem _ _ hj] at hentry
    rw [← hentry, Buf.ofList, List.getD_eq_getElem _ _ hj'] at hbyte
    exact hbyte.symm
  · rintro rfl
    refine ⟨(strncmp_eq_zero_iff fun j hj => ofList_ne_zero hname.no_nul hj).mpr ?_, rfl⟩
    intro j hj
    have hentry := (field_getD hj).1
    rw [Nat.zero_add] at hentry
    exact hentry

/-- The search loop stops at the first entry that matches, or after the last iteration. -/
theorem findDentry_spec (fs : Image) (fname : Buf) (n i : Nat) :
    ∃ i', findDentry fs fname n i (dentrySize * (i + 1)) = (i', dentrySize * (i' + 1)) ∧
      i ≤ i' ∧ i' ≤ i + n ∧
      (∀ j, i ≤ j → j < i' → dentryMatches fs fname (dentrySize * (j + 1)) = false) ∧
      (i' < i + n → dentryMatches fs fname (dentrySize * (i' + 1)) = true) := by
  induction n generalizing i with
  | zero => exact ⟨i, rfl, Nat.le_refl i, Nat.le_refl i, by omega, by omega⟩
  | succ n ih =>
      rw [findDentry]
      by_cases hmatch : dentryMatches fs fname (dentrySize * (i + 1)) = true
      · rw [if_pos hmatch]
        exact ⟨i, rfl, Nat.le_refl i, by omega, by omega, fun _ => hmatch⟩
      · rw [if_neg hmatch]
        obtain ⟨i', hfind, hle, hle', hbefore, hat⟩ := ih (i + 1)
        refine ⟨i', hfind, by omega, by omega, ?_, fun h => hat (by omega)⟩
        intro j hj hj'
        by_cases hij : j = i
        · rw [hij]
          exact Bool.eq_false_iff.mpr hmatch
        · exact hbefore j (by omega) hj'

/-- The search, for a name that is in the directory. -/
theorem findDentry_of_lookup {fs : Image} {name : List UInt8} (hname : IsCString name) {i : Nat}
    (h : fs.lookup name = some i) :
    i < fs.numDentries.toNat ∧
      findDentry fs (Buf.ofList name) (fs.numDentries.toNat + 1) 0 dentrySize =
        (i, dentrySize * (i + 1)) := by
  obtain ⟨i', hfind, -, hle, hbefore, hat⟩ :=
    findDentry_spec fs (Buf.ofList name) (fs.numDentries.toNat + 1) 0
  rw [Image.lookup, List.find?_range_eq_some] at h
  obtain ⟨hi, hmem, hfirst⟩ := h
  rw [decide_eq_true_eq] at hi
  have hmatch := (dentryMatches_iff hname i).mpr hi
  have hlt : i < fs.numDentries.toNat := List.mem_range.mp hmem
  have heq : i' = i := by
    rcases Nat.lt_trichotomy i' i with hlt' | heq | hgt
    · have hname' := (dentryMatches_iff hname i').mp (hat (by omega))
      have := hfirst i' hlt'
      simp [hname'] at this
    · exact heq
    · rw [hbefore i (Nat.zero_le i) hgt] at hmatch
      exact absurd hmatch Bool.false_ne_true
  rw [heq] at hfind
  exact ⟨hlt, hfind⟩

/-- The search, for a name that is not. -/
theorem findDentry_of_absent {fs : Image} {name : List UInt8} (hname : IsCString name)
    (h : fs.lookup name = none) :
    (findDentry fs (Buf.ofList name) (fs.numDentries.toNat + 1) 0 dentrySize).1 ≥
      fs.numDentries.toNat := by
  obtain ⟨i', hfind, -, -, -, hat⟩ :=
    findDentry_spec fs (Buf.ofList name) (fs.numDentries.toNat + 1) 0
  have hstart : dentrySize * (0 + 1) = dentrySize := rfl
  rw [hstart] at hfind
  rw [hfind]
  by_contra hlt
  have hentry := (dentryMatches_iff hname i').mp (hat (by omega))
  rw [Image.lookup, List.find?_range_eq_none] at h
  have := h i' (by omega)
  simp [hentry] at this

theorem copyDentry_filetype (dentry found : Buf) :
    dentryFiletype (copyDentry dentry found) = dentryFiletype found := by
  simp [dentryFiletype, copyDentry, Buf.word, memcpy]

theorem copyDentry_inodeNum (dentry found : Buf) :
    dentryInodeNum (copyDentry dentry found) = dentryInodeNum found := by
  simp [dentryInodeNum, copyDentry, Buf.word, memcpy]

/-- **A name in the directory** is found, with the fields of its first entry. -/
theorem readDentryByName_of_lookup {fs : Image} {name : List UInt8} (hname : IsCString name)
    {i : Nat} (h : fs.lookup name = some i) (dentry : Buf) :
    (readDentryByName fs (Buf.ofList name) dentry).1 = 0 ∧
      dentryFiletype (readDentryByName fs (Buf.ofList name) dentry).2 = fs.entryType i ∧
      dentryInodeNum (readDentryByName fs (Buf.ofList name) dentry).2 = fs.entryInode i := by
  obtain ⟨hlt, hfind⟩ := findDentry_of_lookup hname h
  have hin : ¬ i ≥ fs.numDentries.toNat := Nat.not_le_of_lt hlt
  simp only [readDentryByName, hfind, if_neg hin]
  exact ⟨trivial, copyDentry_filetype _ _, copyDentry_inodeNum _ _⟩

/-- **A name that is not in the directory** clears the entry. -/
theorem readDentryByName_of_absent {fs : Image} {name : List UInt8} (hname : IsCString name)
    (h : fs.lookup name = none) (dentry : Buf) :
    readDentryByName fs (Buf.ofList name) dentry = (-1, clearDentry dentry) := by
  have hpast := findDentry_of_absent hname h
  simp only [readDentryByName, if_pos hpast]

/-- The inode number in `opened_file` after `file_open`: that of the first entry of the
name, and 0 when there is none. -/
def Image.openedInode (fs : Image) (name : List UInt8) : UInt32 :=
  ((fs.lookup name).map fs.entryInode).getD 0

theorem clearDentry_inodeNum (dentry : Buf) : dentryInodeNum (clearDentry dentry) = 0 := by
  simp [dentryInodeNum, clearDentry, Buf.word]

theorem fileOpen_snd (fs : Image) (filename openedFile : Buf) :
    (fileOpen fs filename openedFile).2 = (readDentryByName fs filename openedFile).2 := by
  unfold fileOpen
  generalize readDentryByName fs filename openedFile = lookup
  dsimp only
  split <;> rfl

theorem fileOpen_inode (fs : Image) {name : List UInt8} (hname : IsCString name)
    (openedFile : Buf) :
    dentryInodeNum (fileOpen fs (Buf.ofList name) openedFile).2 = fs.openedInode name := by
  rw [fileOpen_snd, Image.openedInode]
  cases h : fs.lookup name with
  | none =>
      rw [readDentryByName_of_absent hname h, clearDentry_inodeNum]
      rfl
  | some i =>
      rw [(readDentryByName_of_lookup hname h openedFile).2.2]
      rfl

end JuddOS
