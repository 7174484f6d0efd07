import JuddOS.DescriptorTable

/-!
# `read` and the caller's buffer

Four functions stand behind `read`.  `terminal_read` and `file_read` bound their stores by `nbytes`
and `rtc_read` stores nothing; `dir_read` bounds the value it returns, but always stores the 32
bytes of the name field.

* `ReadFn.call_framed`: the stores that the model lists are the only changes to the buffer.
* `readCall_respects_iff`: when `read` stays in its buffer and returns a count within it.
-/

namespace JuddOS

open Image

/-- `read` stored in the first `nbytes` bytes only, and returned -1 or at most `nbytes`. -/
def Reply.RespectsBuffer (nbytes : Int32) : Reply Written → Prop
  | .returned value written _ =>
      (∀ a, StoredAt written.stores a → a < nbytes.toInt.toNat) ∧
        (value = -1 ∨ 0 ≤ value ∧ value ≤ nbytes)
  | .waiting => True
  | .nullCall => False
  | .fault => False

theorem Reply.RespectsBuffer.nothing {nbytes value : Int32} {buf : Option Buf} {io : Io}
    (h : value = -1 ∨ 0 ≤ value ∧ value ≤ nbytes) :
    (Reply.returned value ⟨buf, []⟩ io).RespectsBuffer nbytes :=
  ⟨fun a ha => absurd ha (not_storedAt_nil a), h⟩

/-- A number of bytes as the unsigned length that the functions pass on. -/
theorem toUInt32_toNat_of_nonneg {n : Int32} (hn : 0 ≤ n) : n.toUInt32.toNat = n.toInt.toNat :=
  Int32.toNat_toUInt32_of_le hn

/-- A count that is at most `nbytes`, as the value of a call. -/
theorem count_le {n : Int32} (hn : 0 ≤ n) {c : UInt32} (hc : c.toNat ≤ n.toInt.toNat) :
    0 ≤ c.toInt32 ∧ c.toInt32 ≤ n := by
  have hlt := n.toInt_lt
  rw [Int32.le_iff_toInt_le] at hn
  have hint := toInt32_toInt c
  rw [if_pos (by omega)] at hint
  have hzero := Int32.toInt_zero
  rw [Int32.le_iff_toInt_le, Int32.le_iff_toInt_le, hint]
  omega

/-! ## The listed stores -/

/-- Only the bytes that a listed store covers may differ from the caller's. -/
def Reply.Framed (buf : Option Buf) : Reply Written → Prop
  | .returned _ written _ =>
      ∀ after, written.buf = some after →
        ∃ before, buf = some before ∧ ∀ a, ¬ StoredAt written.stores a → after a = before a
  | _ => True

theorem Reply.Framed.same {value : Int32} {buf : Option Buf} {stores : List (Nat × Nat)} {io : Io} :
    (Reply.returned value ⟨buf, stores⟩ io).Framed buf :=
  fun after hafter => ⟨after, hafter, fun _ _ => rfl⟩

theorem terminalRead_framed (interrupts : Nat → Io → Io) (buf : Option Buf) (nbytes : Int32)
    (io : Io) : (terminalRead interrupts buf nbytes io).Framed buf := by
  unfold terminalRead
  cases buf with
  | none => exact .same
  | some bytes =>
      dsimp only
      split
      · exact .same
      split
      · trivial
      split
      · trivial
      · generalize interrupts 2 _ = io₁
        unfold takeLine
        have hcopied := copyLine_spec
          (Kernel.terminalArr { io₁.kernel with enterFlag := false }
            io₁.kernel.terminalNumDisplay).screenBuf (readLimit nbytes) 0 bytes
        dsimp only
        rintro after hafter
        cases hafter
        refine ⟨bytes, rfl, fun a ha =>
          hcopied.unchanged a (.inr (Nat.le_of_not_lt fun hlt => ?_))⟩
        refine ha ⟨(a, 1), ?_, Nat.le_refl a, Nat.lt_succ_self a⟩
        exact List.mem_map.mpr ⟨a, List.mem_range.mpr hlt, rfl⟩

/-- A byte that `file_read` neither clears nor copies over. -/
theorem readData_framed {fs : Image} {inode offset : UInt32} {bytes after : Buf} {n : UInt32}
    (hafter : (readData fs inode offset (some (clearBytes bytes n.toNat)) n).2 = some after)
    {a : Nat}
    (ha : ¬ StoredAt ((0, n.toNat) ::
      readStores fs inode offset (clearBytes bytes n.toNat) n) a) : after a = bytes a := by
  rw [storedAt_cons, storedAt_readStores, not_or] at ha
  have hclear : clearBytes bytes n.toNat a = bytes a := if_neg (by omega)
  rw [← hclear]
  by_cases hrefused : ReadRefused fs inode offset
  · rw [readData_refused hrefused] at hafter
    cases hafter
    rfl
  · obtain ⟨buf', hdata, -, houtside⟩ := readData_spec n (clearBytes bytes n.toNat) hrefused
    rw [hdata] at hafter
    cases hafter
    exact houtside a (Nat.le_of_not_lt fun hlt => ha.2 ⟨hrefused, hlt⟩)

theorem fileRead_framed (fs : Image) (esp : Nat) (fd : Int32) (buf : Option Buf) (nbytes : Int32)
    (io : Io) : (fileRead fs esp fd buf nbytes io).Framed buf := by
  unfold fileRead
  cases buf with
  | none =>
      dsimp only
      split
      · exact .same
      · trivial
  | some bytes =>
      dsimp only
      split
      · exact fun after hafter => ⟨bytes, rfl, fun a ha => readData_framed hafter ha⟩
      · exact fun after hafter => ⟨bytes, rfl, fun a ha => readData_framed hafter ha⟩

theorem dirRead_framed (fs : Image) (stale : Buf) (buf : Option Buf) (nbytes : Int32) (io : Io) :
    (dirRead fs stale buf nbytes io).Framed buf := by
  unfold dirRead
  dsimp only
  split
  · exact .same
  split
  · split
    · trivial
    · cases buf with
      | none => trivial
      | some bytes =>
          rintro after hafter
          cases hafter
          refine ⟨bytes, rfl, fun a ha => memcpy_outside (.inr ?_)⟩
          rw [storedAt_cons] at ha
          omega
  · exact .same

/-- **The stores that are listed** are all there are, for every function in a read slot. -/
theorem ReadFn.call_framed (fn : ReadFn) (fs : Image) (stale : Buf) (interrupts : Nat → Io → Io)
    (esp : Nat) (fd : Int32) (buf : Option Buf) (nbytes : Int32) (io : Io) :
    (fn.call fs stale interrupts esp fd buf nbytes io).Framed buf := by
  cases fn with
  | terminalRead => exact terminalRead_framed interrupts buf nbytes io
  | fileRead => exact fileRead_framed fs esp fd buf nbytes io
  | dirRead => exact dirRead_framed fs stale buf nbytes io
  | rtcRead =>
      change (rtcReadCall interrupts buf io).Framed buf
      unfold rtcReadCall
      dsimp only
      split
      · trivial
      · exact .same

/-! ## The name in a local `dentry_t` -/

/-- The bytes of a name that fits the `dentry_t` are copied. -/
theorem copyDentry_name {dentry found : Buf} (h : strlen found < dentrySize) {j : Nat}
    (hj : j ≤ strlen found) : copyDentry dentry found j = found j := by
  simp only [dentrySize] at h
  have hspec := strlen_spec (s := found) (by omega)
  have hstrcpy : strcpy dentry found j = found j := by
    unfold strcpy
    by_cases hlt : j < strlen found
    · rw [if_pos hlt]
    · have heq : j = strlen found := by omega
      rw [if_neg hlt, if_pos heq, heq, hspec.1]
  unfold copyDentry
  dsimp only [reservedSize]
  -- The name may run into the fields behind it, which are copied from the same place.
  by_cases h40 : 40 ≤ j
  · rw [memcpy_inside h40 (by omega)]
    exact congrArg found (by omega)
  rw [memcpy_outside (by omega)]
  by_cases h36 : 36 ≤ j
  · rw [memcpy_inside h36 (by omega)]
    exact congrArg found (by omega)
  rw [memcpy_outside (by omega)]
  by_cases h32 : 32 ≤ j
  · rw [memcpy_inside h32 (by omega)]
    exact congrArg found (by omega)
  rw [memcpy_outside (by omega)]
  exact hstrcpy

theorem copyDentry_strlen (dentry : Buf) {found : Buf} (h : strlen found < dentrySize) :
    strlen (copyDentry dentry found) = strlen found := by
  have hsize : dentrySize = 64 := rfl
  have hspec := strlen_spec (s := found) (by omega)
  refine strlen_eq (by omega) (fun j hj => ?_) ?_
  · rw [copyDentry_name h (Nat.le_of_lt hj)]
    exact hspec.2 j hj
  · rw [copyDentry_name h (Nat.le_refl _)]
    exact hspec.1

/-! ## The four functions -/

theorem terminalRead_respects (interrupts : Nat → Io → Io) (buf : Option Buf) {nbytes : Int32}
    (hn : 0 ≤ nbytes) (io : Io) : (terminalRead interrupts buf nbytes io).RespectsBuffer nbytes := by
  unfold terminalRead
  cases buf with
  | none => exact .nothing (.inl rfl)
  | some bytes =>
      dsimp only
      split
      · exact .nothing (.inl rfl)
      split
      · trivial
      split
      · trivial
      · generalize interrupts 2 _ = io₁
        -- The loop makes at most `limit` iterations, and each stores one byte.
        have hcopied := copyLine_spec
          (Kernel.terminalArr { io₁.kernel with enterFlag := false }
            io₁.kernel.terminalNumDisplay).screenBuf (readLimit nbytes) 0 bytes
        have hle := hcopied.le
        have hlimit := readLimit_le nbytes
        unfold takeLine
        dsimp only
        generalize copyLine _ (readLimit nbytes) 0 bytes = result at hle ⊢
        refine ⟨fun a ha => ?_, .inr (count_le hn ?_)⟩
        · obtain ⟨r, hr, hra, har⟩ := ha
          rw [List.mem_map] at hr
          obtain ⟨i, hi, rfl⟩ := hr
          have hi' := List.mem_range.mp hi
          dsimp only at hra har
          omega
        · rw [UInt32.toNat_ofNat']
          exact Nat.le_trans (Nat.mod_le _ _) (by omega)

/-- `file_read` stays in its buffer unless that is `NULL`. -/
theorem fileRead_respects_iff (fs : Image) (esp : Nat) (fd : Int32) (buf : Option Buf)
    {nbytes : Int32} (hn : 0 ≤ nbytes) (io : Io) :
    (fileRead fs esp fd buf nbytes io).RespectsBuffer nbytes ↔ (buf = none → nbytes = 0) := by
  have hlength := toUInt32_toNat_of_nonneg hn
  unfold fileRead
  cases buf with
  | none =>
      dsimp only
      have hzero : nbytes.toUInt32 = 0 ↔ nbytes = 0 :=
        ⟨fun h => congrArg UInt32.toInt32 h, fun h => by rw [h]; rfl⟩
      by_cases hempty : nbytes.toUInt32 = 0
      · rw [if_pos hempty]
        refine iff_of_true (.nothing (.inr ⟨Int32.le_refl 0, hn⟩)) fun _ => hzero.mp hempty
      · rw [if_neg hempty]
        exact iff_of_false id fun h => hempty (hzero.mpr (h rfl))
  | some bytes =>
      refine iff_of_true ?_ (fun h => by cases h)
      dsimp only
      generalize clearBytes bytes nbytes.toUInt32.toNat = cleared
      generalize io.fds (getCurrPcb esp) fd.toInt.toNat = current
      -- What is stored: the cleared bytes, and the bytes copied over them.
      have hstores : ∀ a, StoredAt ((0, nbytes.toUInt32.toNat) ::
          readStores fs current.inode current.filePos cleared nbytes.toUInt32) a →
          a < nbytes.toInt.toNat := by
        intro a ha
        rw [storedAt_cons, storedAt_readStores] at ha
        rcases ha with ⟨-, hcleared⟩ | ⟨-, hcopied⟩
        · omega
        · have hclamp := clampedLength_le (fs.fileLength current.inode) current.filePos
            nbytes.toUInt32
          omega
      by_cases hrefused : ReadRefused fs current.inode current.filePos
      · rw [readData_refused hrefused]
        exact ⟨hstores, .inr ⟨Int32.le_refl 0, hn⟩⟩
      · obtain ⟨buf', hdata, -, -⟩ := readData_spec nbytes.toUInt32 cleared hrefused
        have hclamp := clampedLength_le (fs.fileLength current.inode) current.filePos
          nbytes.toUInt32
        have hvalue := count_le hn (hlength ▸ hclamp)
        rw [hdata]
        dsimp only
        split
        · exact ⟨hstores, .inr hvalue⟩
        · exact ⟨hstores, .inr ⟨Int32.le_refl 0, hn⟩⟩

/-- There is an entry left for `dir_read`. -/
def EntryLeft (fs : Image) (io : Io) : Prop := io.fileIndex < fs.numDentries

/-- `dir_read` stays in its buffer when that has room for a whole name field. -/
theorem dirRead_respects_iff (fs : Image) (stale : Buf) (buf : Option Buf) {nbytes : Int32}
    (hn : 0 ≤ nbytes) (io : Io) :
    (dirRead fs stale buf nbytes io).RespectsBuffer nbytes ↔
      (EntryLeft fs io → 32 ≤ nbytes ∧ buf ≠ none ∧
        ¬ fs.NameOverruns (dentrySize + dentrySize * io.fileIndex.toNat)) := by
  unfold dirRead
  by_cases hend : io.fileIndex = fs.numDentries
  · rw [if_pos hend]
    have hleft : ¬ EntryLeft fs io := by
      unfold EntryLeft
      rw [hend]
      exact UInt32.lt_irrefl _
    exact iff_of_true (.nothing (.inr ⟨Int32.le_refl 0, hn⟩)) fun h => absurd h hleft
  rw [if_neg hend]
  unfold readDentryByIndex
  by_cases hpast : io.fileIndex ≥ fs.numDentries
  · -- The branch of the error message.
    have hleft : ¬ EntryLeft fs io := UInt32.not_lt.mpr hpast
    have hret : ¬ (-1 : Int32) = 0 := by decide
    simp only [if_pos hpast, if_neg hret]
    exact iff_of_true (.nothing (.inl rfl)) fun h => absurd h hleft
  · have hleft : EntryLeft fs io := UInt32.not_le.mp hpast
    simp only [if_neg hpast, if_true]
    by_cases hover : fs.NameOverruns (dentrySize + dentrySize * io.fileIndex.toNat)
    · rw [if_pos hover]
      exact iff_of_false id fun h => (h hleft).2.2 hover
    · rw [if_neg hover]
      have hfits := hover
      unfold NameOverruns at hover
      rw [Nat.not_le] at hover
      have hlen := copyDentry_strlen (clearDentry stale) hover
      cases buf with
      | none => exact iff_of_false id fun h => (h hleft).2.1 rfl
      | some bytes =>
          dsimp only
          rw [hlen]
          simp only [dentrySize] at hover
          generalize strlen (fs.bufAt (dentrySize + dentrySize * io.fileIndex.toNat)) = len at *
          have h32 : (32 : Int32).toInt = 32 := rfl
          constructor
          · rintro ⟨hstores, -⟩ -
            have hlast := hstores 31 ⟨(0, filenameSize), List.mem_singleton.mpr rfl, by decide,
              by decide⟩
            refine ⟨?_, by simp, hfits⟩
            rw [Int32.le_iff_toInt_le]
            omega
          · intro h
            have hroom := Int32.le_iff_toInt_le.mp (h hleft).1
            refine ⟨fun a ha => ?_, .inr ?_⟩
            · obtain ⟨r, hr, -, har⟩ := ha
              rw [List.mem_singleton.mp hr] at har
              simp only [filenameSize] at har
              omega
            · have hint : (UInt32.ofNat len).toInt32.toInt = len := by
                rw [toInt32_toInt, UInt32.toNat_ofNat', Nat.mod_eq_of_lt (by omega),
                  if_pos (by omega)]
              have hzero := Int32.toInt_zero
              split
              · exact ⟨hn, Int32.le_refl _⟩
              · rename_i hle
                refine ⟨?_, Int32.not_lt.mp hle⟩
                rw [Int32.le_iff_toInt_le, hint]
                omega

theorem rtcReadCall_respects (interrupts : Nat → Io → Io) (buf : Option Buf) {nbytes : Int32}
    (hn : 0 ≤ nbytes) (io : Io) : (rtcReadCall interrupts buf io).RespectsBuffer nbytes := by
  unfold rtcReadCall
  dsimp only
  split
  · trivial
  · exact .nothing (.inr ⟨Int32.le_refl 0, hn⟩)

/-! ## The system call -/

/-- What a read of an accepted descriptor needs: a `NULL` buffer must not be stored to, and a
directory needs room for a name field that fits the `dentry_t`. -/
def BufferSuffices (fs : Image) (io : Io) (buf : Option Buf) (nbytes : Int32) (f : Fd) : Prop :=
  (f.fxnTblPtr = some .file → buf = none → nbytes = 0) ∧
    (f.fxnTblPtr = some .dir → EntryLeft fs io →
      32 ≤ nbytes ∧ buf ≠ none ∧
        ¬ fs.NameOverruns (dentrySize + dentrySize * io.fileIndex.toNat))

/-- **`read` and its buffer.**  A process whose descriptors agree with what they were opened on
reads inside its buffer exactly when the descriptor is refused or the buffer suffices. -/
theorem readCall_respects_iff {fs : Image} {entry : Nat → Option Nat} {io : Io} {esp : Nat}
    (h : DescriptorsMatch fs (io.fds (getCurrPcb esp)) entry) (stale : Buf)
    (interrupts : Nat → Io → Io) (fd : Int32) (buf : Option Buf) {nbytes : Int32}
    (hn : 0 ≤ nbytes) :
    (readCall fs stale interrupts esp fd buf nbytes io).RespectsBuffer nbytes ↔
      (¬ FdRefused io (getCurrPcb esp) 1 fd →
        BufferSuffices fs io buf nbytes (io.fds (getCurrPcb esp) fd.toInt.toNat)) := by
  by_cases hrefused : FdRefused io (getCurrPcb esp) 1 fd
  · rw [readCall_of_refused hrefused]
    exact iff_of_true (.nothing (.inl rfl)) fun hnot => absurd hrefused hnot
  · obtain ⟨table, fn, htable, hfn⟩ := h.readSlot hrefused
    rw [readCall_of_slot hrefused htable hfn, BufferSuffices, htable]
    cases table with
    | stdin =>
        cases hfn
        refine iff_of_true (terminalRead_respects interrupts buf hn io) fun _ => ⟨?_, ?_⟩ <;>
          (intro heq; cases heq)
    | rtc =>
        cases hfn
        refine iff_of_true (rtcReadCall_respects interrupts buf hn io) fun _ => ⟨?_, ?_⟩ <;>
          (intro heq; cases heq)
    | stdout => cases hfn
    | file =>
        cases hfn
        refine (fileRead_respects_iff fs esp fd buf hn io).trans ⟨fun hnull _ => ⟨fun _ => hnull,
          fun heq => ?_⟩, fun hsuffices => (hsuffices hrefused).1 rfl⟩
        cases heq
    | dir =>
        cases hfn
        refine (dirRead_respects_iff fs stale buf hn io).trans ⟨fun hroom _ => ⟨fun heq => ?_,
          fun _ => hroom⟩, fun hsuffices => (hsuffices hrefused).2 rfl⟩
        cases heq

/-- The state after the first process opened the directory of `oneDirectory`. -/
def openedDirectory : Io :=
  (FdHistory.fresh (getCurrPcb espOfFirst) espOfFirst Io.blank).io.setFd (getCurrPcb espOfFirst) 2
    fun _ => ⟨some .dir, 0, 0, 1⟩

theorem openedDirectory_matches :
    ∃ entry, DescriptorsMatch oneDirectory (openedDirectory.fds (getCurrPcb espOfFirst)) entry := by
  have hopen : (FileCall.opens (some dotName)).run oneDirectory dotName (fun _ io => io) espOfFirst
      (FdHistory.fresh (getCurrPcb espOfFirst) espOfFirst Io.blank).io =
      .returned 2 () openedDirectory := rfl
  have hstep := FdStep.call (.opens (some dotName)) rfl (fun _ _ => .refl _) hopen
  exact ⟨_, hstep.keeps (FdHistory.fresh_matches _ _ _ _)⟩

theorem readCall_respects_name :
    (readCall oneDirectory dotName (fun _ io => io) espOfFirst 2 (some fun _ => 0) 32
      openedDirectory).RespectsBuffer 32 := by
  obtain ⟨entry, hmatch⟩ := openedDirectory_matches
  have hroom : ¬ oneDirectory.NameOverruns (dentrySize + dentrySize * 0) := by decide
  exact (readCall_respects_iff hmatch dotName (fun _ io => io) 2 (some fun _ => 0)
    (by decide)).mpr fun _ => ⟨fun _ hnone => absurd hnone (Option.some_ne_none _),
      fun _ _ => ⟨by decide, Option.some_ne_none _, hroom⟩⟩

/-- The listing is read with a buffer of one byte, and 32 bytes are stored. -/
theorem readCall_leaves_buffer :
    ¬ ∀ (fs : Image) (entry : Nat → Option Nat) (io : Io) (esp : Nat) (stale : Buf)
        (interrupts : Nat → Io → Io) (fd : Int32) (buf : Option Buf) (nbytes : Int32),
      DescriptorsMatch fs (io.fds (getCurrPcb esp)) entry → 0 ≤ nbytes →
        (readCall fs stale interrupts esp fd buf nbytes io).RespectsBuffer nbytes := by
  intro hall
  obtain ⟨entry, hmatch⟩ := openedDirectory_matches
  have hread := hall oneDirectory entry openedDirectory espOfFirst dotName (fun _ io => io) 2
    (some fun _ => 0) 1 hmatch (by decide)
  have hstored : StoredAt [(0, 32)] 31 :=
    ⟨(0, 32), List.mem_singleton.mpr rfl, by decide, by decide⟩
  have hlt : 31 < (1 : Int32).toInt.toNat := hread.1 31 hstored
  revert hlt
  decide

end JuddOS
