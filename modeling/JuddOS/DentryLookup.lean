import JuddOS.DirectoryStreams
import JuddOS.ProgramName

/-!
# Directory entries as they are copied

`strcpy` runs past a name that fills its 32 bytes, into the type behind it.  The stores that follow
put the other fields right again, so the 64 bytes of a `dentry_t` are those of the entry with its
name padded with zeros, as long as the name ends somewhere in the entry.

* `foundEntry_eq`: for any pointer, the entry that the loop finds is the first one with the string
  at that pointer as its name.
* `copyDentry_fills`: what the four stores leave.
* `lookups_agree`: the lookup by name and the one by index.
* `dirRead_names_iff`: when `dir_read` reports the length of the name.
-/

namespace JuddOS

open Image

/-! ## The entry that is found -/

/-- The loop looks at a name only up to its NUL. -/
theorem dentryMatches_cstring (fs : Image) (fname : Buf) (ptr : Nat) :
    dentryMatches fs fname ptr = dentryMatches fs (Buf.ofList fname.cstring) ptr := by
  have hlen : strlen (Buf.ofList fname.cstring) = strlen fname := by
    rw [strlen_ofList (cstring_no_nul fname) (by rw [cstring_length]; exact strlen_le fname),
      cstring_length]
  unfold dentryMatches
  dsimp only
  generalize (if strlen (fs.bufAt ptr) > filenameSize then filenameSize
    else strlen (fs.bufAt ptr)) = target
  rw [hlen]
  by_cases htarget : target = strlen fname
  · subst htarget
    have hbytes : ∀ j, j < strlen fname → Buf.ofList fname.cstring j = fname j :=
      fun j hj => cstring_getD hj
    have hne : ∀ j, j < strlen fname → fname j ≠ 0 := fun j hj => by
      rw [← hbytes j hj]
      exact ofList_ne_zero (cstring_no_nul fname) (by rwa [cstring_length])
    have hiff : strncmp fname (fs.bufAt ptr) (strlen fname) = 0 ↔
        strncmp (Buf.ofList fname.cstring) (fs.bufAt ptr) (strlen fname) = 0 := by
      rw [strncmp_eq_zero_iff hne, strncmp_eq_zero_iff fun j hj => (hbytes j hj).symm ▸ hne j hj]
      exact forall₂_congr fun j hj => by rw [hbytes j hj]
    simp only [hiff]
  · simp only [htarget, and_false]

theorem findDentry_cstring (fs : Image) (fname : Buf) (n i ptr : Nat) :
    findDentry fs fname n i ptr = findDentry fs (Buf.ofList fname.cstring) n i ptr := by
  induction n generalizing i ptr with
  | zero => rfl
  | succ n ih => rw [findDentry, findDentry, dentryMatches_cstring, ih]

/-- **The entry that is found** is the first one whose name is the string at the pointer. -/
theorem foundEntry_eq (fs : Image) (fname : Buf) :
    foundEntry fs fname = fs.lookup fname.cstring := by
  have hname : IsCString fname.cstring :=
    ⟨cstring_no_nul fname, by rw [cstring_length]; exact strlen_le fname⟩
  rw [← foundEntry_ofList hname]
  unfold foundEntry
  rw [findDentry_cstring]

theorem lookup_eq_some_iff {fs : Image} {name : List UInt8} {e : Nat} :
    fs.lookup name = some e ↔
      fs.entryName e = name ∧ e < fs.numDentries.toNat ∧ ∀ i < e, fs.entryName i ≠ name := by
  rw [Image.lookup, List.find?_range_eq_some]
  simp

theorem lookup_eq_none_iff {fs : Image} {name : List UInt8} :
    fs.lookup name = none ↔ ∀ i < fs.numDentries.toNat, fs.entryName i ≠ name := by
  rw [Image.lookup, List.find?_range_eq_none]
  simp

/-! ## The copy -/

/-- The 64 bytes of a `dentry_t` are those of entry `e`, with the name padded, and nothing else is
written. -/
structure FillsDentry (fs : Image) (e : Nat) (before after : Buf) : Prop where
  name : ∀ j, j < filenameSize → after j = (fs.entryName e).getD j 0
  filetype : dentryFiletype after = fs.entryType e
  inodeNum : dentryInodeNum after = fs.entryInode e
  reserved : ∀ j, 40 ≤ j → j < dentrySize → after j = fs.bufAt (dentrySize * (e + 1)) j
  outside : ∀ j, dentrySize ≤ j → after j = before j

/-- A type below 256 has a zero byte, where the name ends at the latest. -/
theorem strlen_entry_le {fs : Image} {e : Nat} (htype : fs.entryType e < 256) :
    strlen (fs.bufAt (dentrySize * (e + 1))) ≤ 33 := by
  refine strlen_le_of_zero ?_
  have hbyte := Buf.ofWord_word (fs.bufAt (dentrySize * (e + 1))) 32 (j := 1) (by decide)
  rw [UInt32.lt_iff_toNat_lt] at htype
  have hlimit : (256 : UInt32).toNat = 256 := rfl
  rw [← hbyte]
  refine UInt8.toNat_inj.mp ?_
  change (UInt8.ofNat ((fs.entryType e).toNat / 2 ^ 8)).toNat = 0
  rw [Nat.div_eq_of_lt (by omega)]
  rfl

/-- **What the four stores leave** in a cleared `dentry_t`. -/
theorem copyDentry_fills {fs : Image} {e : Nat} (dentry : Buf)
    (hends : strlen (fs.bufAt (dentrySize * (e + 1))) < dentrySize) :
    FillsDentry fs e dentry
      (copyDentry (clearDentry dentry) (fs.bufAt (dentrySize * (e + 1)))) := by
  constructor
  case filetype => exact copyDentry_filetype _ _
  case inodeNum => exact copyDentry_inodeNum _ _
  case name =>
    intro j hj
    have hlen := entryName_length fs e
    simp only [filenameSize] at hj hlen
    by_cases hin : j ≤ strlen (fs.bufAt (dentrySize * (e + 1)))
    · rw [copyDentry_name hends hin]
      by_cases hname : j < (fs.entryName e).length
      · rw [entryName_getD fs hname]
      · -- The NUL of a short name.
        have heq : j = strlen (fs.bufAt (dentrySize * (e + 1))) := by omega
        have hend := (strlen_spec (s := fs.bufAt (dentrySize * (e + 1)))
          (Nat.lt_of_lt_of_le hends (by decide))).1
        rw [List.getD_eq_default _ _ (by omega), heq, hend]
    · rw [List.getD_eq_default _ _ (by omega)]
      unfold copyDentry
      rw [memcpy_outside (by omega), memcpy_outside (by omega), memcpy_outside (by omega), strcpy,
        if_neg (by omega), if_neg (by omega), clearDentry, if_pos (by simp only [dentrySize]; omega)]
  case reserved =>
    intro j hlow hhigh
    simp only [dentrySize] at hhigh
    unfold copyDentry
    dsimp only [reservedSize]
    rw [memcpy_inside hlow (by omega), Nat.add_sub_cancel' hlow]
  case outside =>
    intro j hj
    have hsize : dentrySize = 64 := rfl
    unfold copyDentry
    dsimp only [reservedSize]
    rw [memcpy_outside (by omega), memcpy_outside (by omega), memcpy_outside (by omega), strcpy,
      if_neg (by omega), if_neg (by omega), clearDentry, if_neg (by omega)]

/-- Two copies of an entry have the same 64 bytes. -/
theorem FillsDentry.same {fs : Image} {e : Nat} {before before' after after' : Buf}
    (h : FillsDentry fs e before after) (h' : FillsDentry fs e before' after') {j : Nat}
    (hj : j < dentrySize) : after j = after' j := by
  simp only [dentrySize] at hj
  have hword : ∀ (b : Buf) (a : Nat), a ≤ j → j < a + 4 → b j = Buf.ofWord (b.word a) (j - a) :=
    fun b a hlow hhigh => by
      rw [Buf.ofWord_word b a (by omega), Nat.add_sub_cancel' hlow]
  have hfields : j < 32 ∨ (32 ≤ j ∧ j < 36) ∨ (36 ≤ j ∧ j < 40) ∨ 40 ≤ j := by omega
  rcases hfields with hname | ⟨hlow, hhigh⟩ | ⟨hlow, hhigh⟩ | hreserved
  · rw [h.name j hname, h'.name j hname]
  · rw [hword after 32 hlow (by omega), hword after' 32 hlow (by omega)]
    exact congrArg (fun w => Buf.ofWord w (j - 32)) (h.filetype.trans h'.filetype.symm)
  · rw [hword after 36 hlow (by omega), hword after' 36 hlow (by omega)]
    exact congrArg (fun w => Buf.ofWord w (j - 36)) (h.inodeNum.trans h'.inodeNum.symm)
  · rw [h.reserved j hreserved hj, h'.reserved j hreserved hj]

/-! ## The two lookups -/

/-- The types of the entries. -/
def TypesBelow (fs : Image) (limit : UInt32) : Prop :=
  ∀ e, e < fs.numDentries.toNat → fs.entryType e < limit

/-- An entry whose type is below 256 ends its name. -/
theorem entry_ends {fs : Image} {e : Nat} (htype : fs.entryType e < 256) :
    strlen (fs.bufAt (dentrySize * (e + 1))) < dentrySize := by
  have hle := strlen_entry_le htype
  simp only [dentrySize] at hle ⊢
  omega

/-- `read_dentry_by_name` on a name that is in the directory. -/
theorem readDentryByName_fills {fs : Image} {fname : Buf} {e : Nat}
    (hlookup : fs.lookup fname.cstring = some e) (htype : fs.entryType e < 256) (dentry : Buf) :
    (readDentryByName fs fname dentry).1 = 0 ∧
      FillsDentry fs e dentry (readDentryByName fs fname dentry).2 := by
  rw [← foundEntry_eq] at hlookup
  rw [(readDentryByName_of_found dentry hlookup).2]
  exact ⟨rfl, copyDentry_fills dentry (entry_ends htype)⟩

/-- `read_dentry_by_name` on a name that is not. -/
theorem readDentryByName_clears {fs : Image} {fname : Buf}
    (hlookup : fs.lookup fname.cstring = none) (dentry : Buf) :
    readDentryByName fs fname dentry = (-1, clearDentry dentry) := by
  rw [← foundEntry_eq] at hlookup
  exact readDentryByName_of_not_found dentry hlookup

/-- `read_dentry_by_index`. -/
theorem readDentryByIndex_fills {fs : Image} {index : UInt32} (hindex : index < fs.numDentries)
    (htype : fs.entryType index.toNat < 256) (dentry : Buf) :
    (readDentryByIndex fs index dentry).1 = 0 ∧
      FillsDentry fs index.toNat dentry (readDentryByIndex fs index dentry).2 := by
  have hptr : dentrySize + dentrySize * index.toNat = dentrySize * (index.toNat + 1) := by
    simp only [dentrySize]
    omega
  unfold readDentryByIndex
  rw [if_neg (UInt32.not_le.mpr hindex)]
  dsimp only
  rw [hptr]
  exact ⟨rfl, copyDentry_fills dentry (entry_ends htype)⟩

theorem readDentryByIndex_refused {fs : Image} {index : UInt32} (hindex : fs.numDentries ≤ index)
    (dentry : Buf) : readDentryByIndex fs index dentry = (-1, dentry) :=
  if_pos hindex

/-- The lookup by name finds exactly the names in the directory, it gives what the lookup by the
index of the first entry of that name gives, and neither writes outside the `dentry_t`. -/
structure LookupsAgree (fs : Image) (fname dentry : Buf) : Prop where
  found : (readDentryByName fs fname dentry).1 = 0 ↔
    ∃ e, e < fs.numDentries.toNat ∧ fs.entryName e = fname.cstring
  same : ∀ e dentry', e < fs.numDentries.toNat → fs.entryName e = fname.cstring →
    (∀ i < e, fs.entryName i ≠ fname.cstring) →
    FillsDentry fs e dentry (readDentryByName fs fname dentry).2 ∧
      FillsDentry fs e dentry' (readDentryByIndex fs (UInt32.ofNat e) dentry').2 ∧
      ∀ j, j < dentrySize → (readDentryByName fs fname dentry).2 j =
        (readDentryByIndex fs (UInt32.ofNat e) dentry').2 j
  outside : ∀ j, dentrySize ≤ j → (readDentryByName fs fname dentry).2 j = dentry j ∧
    ∀ index, (readDentryByIndex fs index dentry).2 j = dentry j

/-- **The lookup by name and the lookup by index agree.** -/
theorem lookups_agree {fs : Image} (htypes : TypesBelow fs 3) (fname dentry : Buf) :
    LookupsAgree fs fname dentry := by
  have hbelow : TypesBelow fs 256 := fun e he => UInt32.lt_trans (htypes e he) (by decide)
  have hfailed : ¬ (-1 : Int32) = 0 := by decide
  constructor
  case found =>
    cases hlookup : fs.lookup fname.cstring with
    | none =>
        rw [readDentryByName_clears hlookup]
        refine ⟨fun h => absurd h hfailed, fun ⟨e, he, hname⟩ => ?_⟩
        exact absurd hname (lookup_eq_none_iff.mp hlookup e he)
    | some e =>
        obtain ⟨hname, he, -⟩ := lookup_eq_some_iff.mp hlookup
        exact ⟨fun _ => ⟨e, he, hname⟩, fun _ =>
          (readDentryByName_fills hlookup (hbelow e he) dentry).1⟩
  case same =>
    intro e dentry' he hname hfirst
    have hlookup := lookup_eq_some_iff.mpr ⟨hname, he, hfirst⟩
    have hnum := fs.numDentries.toNat_lt
    have hindex : (UInt32.ofNat e).toNat = e := by
      rw [UInt32.toNat_ofNat', Nat.mod_eq_of_lt (by omega)]
    have hbyName := (readDentryByName_fills hlookup (hbelow e he) dentry).2
    have hlt : UInt32.ofNat e < fs.numDentries := by
      rw [UInt32.lt_iff_toNat_lt, hindex]
      exact he
    have htype : fs.entryType (UInt32.ofNat e).toNat < 256 := by
      rw [hindex]
      exact hbelow e he
    have hbyIndex := (readDentryByIndex_fills hlt htype dentry').2
    rw [hindex] at hbyIndex
    exact ⟨hbyName, hbyIndex, fun j hj => hbyName.same hbyIndex hj⟩
  case outside =>
    intro j hj
    constructor
    · cases hlookup : fs.lookup fname.cstring with
      | none =>
          rw [readDentryByName_clears hlookup]
          exact if_neg (Nat.not_lt_of_le hj)
      | some e =>
          have he := (lookup_eq_some_iff.mp hlookup).2.1
          exact (readDentryByName_fills hlookup (hbelow e he) dentry).2.outside j hj
    · intro index
      by_cases hindex : index < fs.numDentries
      · exact (readDentryByIndex_fills hindex
          (hbelow _ (UInt32.lt_iff_toNat_lt.mp hindex)) dentry).2.outside j hj
      · rw [readDentryByIndex_refused (UInt32.not_lt.mp hindex)]

/-- A name that fills its field. -/
theorem lookups_agree_longName :
    LookupsAgree longNameImage (Buf.ofList longName) fun _ => 0 :=
  lookups_agree (by unfold TypesBelow; decide) _ _

/-! ## The length that `dir_read` reports -/

/-- The first byte of the type field. -/
theorem typeByte_eq_zero_iff {fs : Image} {e : Nat} (htype : fs.entryType e < 256) :
    fs.bufAt (dentrySize * (e + 1)) 32 = 0 ↔ fs.entryType e = 0 := by
  have hbyte := Buf.ofWord_word (fs.bufAt (dentrySize * (e + 1))) 32 (j := 0) (by decide)
  rw [Nat.add_zero] at hbyte
  have hlimit : (256 : UInt32).toNat = 256 := rfl
  have hlow : (Buf.ofWord (fs.entryType e) 0).toNat = (fs.entryType e).toNat := by
    rw [UInt32.lt_iff_toNat_lt, hlimit] at htype
    rw [Buf.ofWord, UInt8.toNat_ofNat']
    omega
  rw [← hbyte, ← UInt8.toNat_inj, ← UInt32.toNat_inj]
  change (Buf.ofWord (fs.entryType e) 0).toNat = 0 ↔ _
  rw [hlow]
  rfl

/-- **The length that `strlen` finds** in an entry: that of the name, or 33 when the name fills its
field and the type behind it is not 0. -/
theorem strlen_entry {fs : Image} {e : Nat} (htype : fs.entryType e < 256) :
    strlen (fs.bufAt (dentrySize * (e + 1))) =
      if (fs.entryName e).length = filenameSize ∧ fs.entryType e ≠ 0 then 33
      else (fs.entryName e).length := by
  have hlen := entryName_length fs e
  have hle := strlen_entry_le htype
  simp only [filenameSize] at hlen ⊢
  by_cases hfull : (fs.entryName e).length = 32
  · by_cases hzero : fs.entryType e = 0
    · have hend := strlen_le_of_zero ((typeByte_eq_zero_iff htype).mpr hzero)
      rw [if_neg (fun h => h.2 hzero)]
      omega
    · rw [if_pos ⟨hfull, hzero⟩]
      by_contra hne
      have hshort : strlen (fs.bufAt (dentrySize * (e + 1))) = 32 := by omega
      have hend := (strlen_spec (s := fs.bufAt (dentrySize * (e + 1))) (by omega)).1
      rw [hshort] at hend
      exact hzero ((typeByte_eq_zero_iff htype).mp hend)
  · rw [if_neg (fun h => hfull h.1)]
    omega

/-- `dir_read` reports the length of the name of the entry at `file_index`, and the buffer starts
with the name. -/
def ReadsName (fs : Image) (stale bytes : Buf) (nbytes : Int32) (io : Io) : Prop :=
  ∃ v after stores io',
    dirRead fs stale (some bytes) nbytes io = .returned v ⟨some after, stores⟩ io' ∧
    v.toInt = (fs.entryName io.fileIndex.toNat).length ∧
    ∀ j, j < (fs.entryName io.fileIndex.toNat).length →
      after j = (fs.entryName io.fileIndex.toNat).getD j 0

/-- A read of the entry at `file_index`: the name is copied, and the value is what `strlen` finds,
up to `nbytes`. -/
theorem dirRead_entry {fs : Image} (stale bytes : Buf) (nbytes : Int32) {io : Io}
    (hindex : io.fileIndex < fs.numDentries) (htype : fs.entryType io.fileIndex.toNat < 256) :
    ∃ v after stores io',
      dirRead fs stale (some bytes) nbytes io = .returned v ⟨some after, stores⟩ io' ∧
      v.toInt =
        min (strlen (fs.bufAt (dentrySize * (io.fileIndex.toNat + 1))) : Int) nbytes.toInt ∧
      ∀ j, j < (fs.entryName io.fileIndex.toNat).length →
        after j = (fs.entryName io.fileIndex.toNat).getD j 0 := by
  have hends := entry_ends htype
  obtain ⟨hzero, hfills⟩ := readDentryByIndex_fills hindex htype stale
  have hptr : dentrySize + dentrySize * io.fileIndex.toNat =
      dentrySize * (io.fileIndex.toNat + 1) := by
    simp only [dentrySize]
    omega
  have hcopied : strlen (readDentryByIndex fs io.fileIndex stale).2 =
      strlen (fs.bufAt (dentrySize * (io.fileIndex.toNat + 1))) := by
    unfold readDentryByIndex
    rw [if_neg (UInt32.not_le.mpr hindex)]
    dsimp only
    rw [hptr]
    exact copyDentry_strlen _ hends
  have hne : ¬ io.fileIndex = fs.numDentries := fun h => UInt32.lt_irrefl _ (h ▸ hindex)
  have hover : ¬ fs.NameOverruns (dentrySize * (io.fileIndex.toNat + 1)) := Nat.not_le_of_lt hends
  refine ⟨_, memcpy bytes 0 (readDentryByIndex fs io.fileIndex stale).2 filenameSize,
    [(0, filenameSize)], { io with fileIndex := io.fileIndex + 1 }, ?_,
    copiedBytes_toInt hends nbytes, fun j hj => ?_⟩
  · unfold dirRead
    rw [if_neg hne]
    dsimp only
    rw [hzero, if_pos rfl, hptr, if_neg hover, hcopied]
  · have hlen : (fs.entryName io.fileIndex.toNat).length ≤ filenameSize := field_length_le _ _ _
    rw [memcpy_inside (Nat.zero_le j) (by omega), Nat.sub_zero, hfills.name j (by omega)]

/-- **`dir_read` reports the length of the name exactly when** the name does not fill its field,
the type is 0, or there is no room for a byte more. -/
theorem dirRead_names_iff {fs : Image} (htypes : TypesBelow fs 3) (stale bytes : Buf)
    {nbytes : Int32} (hn : 32 ≤ nbytes) {io : Io} (hindex : io.fileIndex < fs.numDentries) :
    ReadsName fs stale bytes nbytes io ↔
      ¬ ((fs.entryName io.fileIndex.toNat).length = filenameSize ∧
        fs.entryType io.fileIndex.toNat ≠ 0 ∧ 32 < nbytes) := by
  have hbelow : fs.entryType io.fileIndex.toNat < 256 :=
    UInt32.lt_trans (htypes _ (UInt32.lt_iff_toNat_lt.mp hindex)) (by decide)
  have hstrlen := strlen_entry hbelow
  have hlen : (fs.entryName io.fileIndex.toNat).length ≤ filenameSize := field_length_le _ _ _
  obtain ⟨v, after, stores, io', hread, hvalue, hbytes⟩ :=
    dirRead_entry stale bytes nbytes hindex hbelow
  have h32 : (32 : Int32).toInt = 32 := rfl
  rw [Int32.le_iff_toInt_le, h32] at hn
  rw [Int32.lt_iff_toInt_lt, h32]
  simp only [filenameSize] at hlen hstrlen ⊢
  constructor
  · rintro ⟨v', after', stores', io'', hcall, hname, -⟩ ⟨hfull, htype, hroom⟩
    rw [hread] at hcall
    cases hcall
    rw [if_pos ⟨hfull, htype⟩] at hstrlen
    omega
  · intro hgood
    refine ⟨v, after, stores, io', hread, ?_, hbytes⟩
    by_cases hlong : (fs.entryName io.fileIndex.toNat).length = 32 ∧
        fs.entryType io.fileIndex.toNat ≠ 0
    · have hroom : ¬ 32 < nbytes.toInt := fun h => hgood ⟨hlong.1, hlong.2, h⟩
      rw [if_pos hlong] at hstrlen
      omega
    · rw [if_neg hlong] at hstrlen
      omega

/-- The state before the first entry is read. -/
def atFirstEntry : Io := { Io.blank with fileIndex := 0 }

/-- A name of 32 bytes, in a buffer of 32 bytes. -/
theorem dirRead_names_longName :
    ReadsName longNameImage (fun _ => 0) (fun _ => 0) 32 atFirstEntry :=
  (dirRead_names_iff (by unfold TypesBelow; decide) _ _ (by decide) (by decide)).mpr
    fun h => absurd h.2.2 (by decide)

/-- In a buffer of 33 bytes its length comes out as 33. -/
theorem dirRead_counts_type_byte :
    ¬ ∀ (fs : Image) (stale bytes : Buf) (nbytes : Int32) (io : Io), TypesBelow fs 3 →
      io.fileIndex < fs.numDentries → 32 ≤ nbytes → ReadsName fs stale bytes nbytes io := by
  intro hall
  have htypes : TypesBelow longNameImage 3 := by
    unfold TypesBelow
    decide
  have hindex : atFirstEntry.fileIndex < longNameImage.numDentries := by decide
  obtain ⟨v, after, stores, io', hread, hname, -⟩ :=
    hall longNameImage (fun _ => 0) (fun _ => 0) 33 atFirstEntry htypes hindex (by decide)
  obtain ⟨v', after', stores', io'', hread', hvalue, -⟩ :=
    dirRead_entry (fun _ => 0) (fun _ => 0) 33 hindex (by decide)
  rw [hread] at hread'
  cases hread'
  rw [hname, strlen_entry (by decide), if_pos (by decide)] at hvalue
  exact absurd hvalue (by decide)

end JuddOS
