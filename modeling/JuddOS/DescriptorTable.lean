import JuddOS.Descriptors
import JuddOS.Drawing
import JuddOS.Support.Run

/-!
# The descriptor table of a process

`DescriptorsMatch` is the invariant of a descriptor table: 0 and 1 are occupied by the terminal, and
an occupied descriptor from 2 on has the table of the type of the entry it was opened on.  The
entries are a history that no function reads.

* `openCall_cases` and `closeCall_cases` say what the calls do to a table; `read` and `write` leave
  the functions and flags of every descriptor alone.
* `descriptors_of_run` is the invariant over all runs, with what it is for: no call goes through
  `NULL`.
-/

namespace JuddOS

open Image Support

/-- The table that `open` chooses for a file type. -/
def tableOfType (filetype : UInt32) : Option FopsTable :=
  if filetype = 0 then some .rtc
  else if filetype = 1 then some .dir
  else if filetype = 2 then some .file
  else none

/-- The occupied descriptors agree with the entries they were opened on. -/
structure DescriptorsMatch (fs : Image) (fds : Nat → Fd) (entry : Nat → Option Nat) : Prop where
  stdin : (fds 0).fxnTblPtr = some .stdin ∧ (fds 0).flags ≠ 0
  stdout : (fds 1).fxnTblPtr = some .stdout ∧ (fds 1).flags ≠ 0
  opened : ∀ fd, 2 ≤ fd → fd < fdArraySize → (fds fd).flags ≠ 0 →
    ∃ e table, entry fd = some e ∧ e < fs.numDentries.toNat ∧
      tableOfType (fs.entryType e) = some table ∧ (fds fd).fxnTblPtr = some table

theorem initialFdArray_free (old : Nat → Fd) {fd : Nat} (hge : 2 ≤ fd) (hlt : fd < fdArraySize) :
    initialFdArray old fd = Fd.free := by
  rw [initialFdArray, if_neg (by omega), if_neg (by omega), if_pos hlt]

/-- The table a process starts with. -/
theorem descriptorsMatch_initial (fs : Image) (old : Nat → Fd) (entry : Nat → Option Nat) :
    DescriptorsMatch fs (initialFdArray old) entry := by
  have hone : (1 : UInt32) ≠ 0 := by decide
  refine ⟨⟨rfl, hone⟩, ⟨rfl, hone⟩, ?_⟩
  intro fd hge hlt hflags
  rw [initialFdArray_free old hge hlt] at hflags
  exact absurd rfl hflags

/-! ## Descriptors of a state -/

@[simp] theorem Io.setFd_self (io : Io) (addr fd : Nat) (f : Fd → Fd) :
    (io.setFd addr fd f).fds addr fd = f (io.fds addr fd) := by
  simp [Io.setFd, Io.fds]

theorem Io.setFd_of_ne (io : Io) {addr fd fd' : Nat} (f : Fd → Fd) (h : fd' ≠ fd) :
    (io.setFd addr fd f).fds addr fd' = io.fds addr fd' := by
  simp [Io.setFd, Io.fds, h]

theorem Io.setFd_of_other (io : Io) {addr addr' : Nat} (fd : Nat) (f : Fd → Fd)
    (h : addr' ≠ addr) : (io.setFd addr fd f).fds addr' = io.fds addr' := by
  simp only [Io.setFd, Io.fds]
  rw [Kernel.setPcb_of_ne _ _ h]

/-- Two descriptor tables have the same functions and flags. -/
def SameDescriptors (fds fds' : Nat → Fd) : Prop :=
  ∀ fd, (fds' fd).fxnTblPtr = (fds fd).fxnTblPtr ∧ (fds' fd).flags = (fds fd).flags

theorem DescriptorsMatch.congr {fs : Image} {fds fds' : Nat → Fd} {entry : Nat → Option Nat}
    (h : DescriptorsMatch fs fds entry) (hsame : SameDescriptors fds fds') :
    DescriptorsMatch fs fds' entry := by
  refine ⟨?_, ?_, ?_⟩
  · rw [(hsame 0).1, (hsame 0).2]
    exact h.stdin
  · rw [(hsame 1).1, (hsame 1).2]
    exact h.stdout
  · intro fd hge hlt hflags
    rw [(hsame fd).2] at hflags
    rw [(hsame fd).1]
    exact h.opened fd hge hlt hflags

/-- Interrupts leave the descriptors of a process alone. -/
def KeepsDescriptors (addr : Nat) (interrupts : Nat → Io → Io) : Prop :=
  ∀ i io, SameDescriptors (io.fds addr) ((interrupts i io).fds addr)

/-! ## What `open` does -/

theorem firstFreeFd_spec (fdArray : Nat → Fd) (n i : Nat) :
    i ≤ firstFreeFd fdArray n i ∧ firstFreeFd fdArray n i ≤ i + n ∧
      (firstFreeFd fdArray n i < i + n → (fdArray (firstFreeFd fdArray n i)).flags = 0) := by
  induction n generalizing i with
  | zero => exact ⟨Nat.le_refl i, Nat.le_refl i, fun h => absurd h (Nat.lt_irrefl i)⟩
  | succ n ih =>
      unfold firstFreeFd
      by_cases hfree : (fdArray i).flags = 0
      · rw [if_pos hfree]
        exact ⟨Nat.le_refl i, by omega, fun _ => hfree⟩
      · rw [if_neg hfree]
        obtain ⟨hge, hle, hflags⟩ := ih (i + 1)
        exact ⟨by omega, by omega, fun h => hflags (by omega)⟩

/-- What `read_dentry_by_name` gives, in terms of the entry it finds. -/
theorem readDentryByName_of_found {fs : Image} {fname : Buf} (dentry : Buf) {e : Nat}
    (h : foundEntry fs fname = some e) :
    e < fs.numDentries.toNat ∧ readDentryByName fs fname dentry =
      (0, copyDentry (clearDentry dentry) (fs.bufAt (dentrySize * (e + 1)))) := by
  obtain ⟨i, hfind, -⟩ := findDentry_spec fs fname (fs.numDentries.toNat + 1) 0
  have hstart : dentrySize * (0 + 1) = dentrySize := rfl
  rw [hstart] at hfind
  unfold foundEntry at h
  rw [hfind] at h
  by_cases hpast : i ≥ fs.numDentries.toNat
  · rw [if_pos hpast] at h
    cases h
  · rw [if_neg hpast] at h
    cases h
    refine ⟨Nat.lt_of_not_le hpast, ?_⟩
    unfold readDentryByName
    simp only [hfind, if_neg hpast]

theorem readDentryByName_of_not_found {fs : Image} {fname : Buf} (dentry : Buf)
    (h : foundEntry fs fname = none) :
    readDentryByName fs fname dentry = (-1, clearDentry dentry) := by
  unfold foundEntry at h
  by_cases hpast : (findDentry fs fname (fs.numDentries.toNat + 1) 0 dentrySize).1 ≥
      fs.numDentries.toNat
  · unfold readDentryByName
    simp only [if_pos hpast]
  · rw [if_neg hpast] at h
    cases h

/-- For a C string the entry found is the first one of that name. -/
theorem foundEntry_ofList {fs : Image} {name : List UInt8} (hname : IsCString name) :
    foundEntry fs (Buf.ofList name) = fs.lookup name := by
  unfold foundEntry
  cases h : fs.lookup name with
  | none =>
      have hpast := findDentry_of_absent hname h
      rw [if_pos hpast]
  | some i =>
      obtain ⟨hlt, hfind⟩ := findDentry_of_lookup hname h
      rw [hfind, if_neg (Nat.not_le_of_lt hlt)]

/-- What a descriptor holds after `open` took it for directory entry `e`. -/
structure OpenedOn (fs : Image) (filename : Buf) (e i : Nat) (io : Io) (addr : Nat) (io' : Io) :
    Prop where
  found : foundEntry fs filename = some e
  entry_lt : e < fs.numDentries.toNat
  ge : 2 ≤ i
  lt : i < fdArraySize
  free : (io.fds addr i).flags = 0
  table : ∃ t, tableOfType (fs.entryType e) = some t ∧ (io'.fds addr i).fxnTblPtr = some t
  flags : (io'.fds addr i).flags = 1
  others : ∀ fd, fd ≠ i → io'.fds addr fd = io.fds addr fd
  processes : ∀ addr', addr' ≠ addr → io'.fds addr' = io.fds addr'
  fileIndex : io'.fileIndex = io.fileIndex

/-- One descriptor is written, with the table of the type and flags 1. -/
theorem openedOn_of_setFd {fs : Image} {name : Buf} {e i : Nat} {io : Io} {addr : Nat}
    (hfound : foundEntry fs name = some e) (hlt : e < fs.numDentries.toNat) (hge : 2 ≤ i)
    (hin : i < fdArraySize) (hfree : (io.fds addr i).flags = 0) (f : Fd) (t : FopsTable) (io₁ : Io)
    (hone : f.flags = 1) (hptr : f.fxnTblPtr = some t)
    (htable : tableOfType (fs.entryType e) = some t)
    (hfds : io₁.fds = (io.setFd addr i fun _ => f).fds) (hindex : io₁.fileIndex = io.fileIndex) :
    OpenedOn fs name e i io addr io₁ := by
  have hself := io.setFd_self addr i fun _ => f
  refine ⟨hfound, hlt, hge, hin, hfree, ⟨t, htable, ?_⟩, ?_, ?_, ?_, hindex⟩
  · rw [hfds, hself, hptr]
  · rw [hfds, hself, hone]
  · intro fd hne
    rw [hfds]
    exact io.setFd_of_ne _ hne
  · intro addr' hne
    rw [hfds]
    exact io.setFd_of_other i _ hne

/-- **`open`** either fails and changes nothing, or takes a free descriptor. -/
theorem openCall_cases {fs : Image} {stale : Buf} {esp : Nat} {filename : Option Buf} {io io' : Io}
    {v : Int32} (h : openCall fs stale esp filename io = .returned v () io') :
    (v = -1 ∧ io' = io) ∨
      ∃ name e i, filename = some name ∧ v = Int32.ofNat i ∧
        OpenedOn fs name e i io (getCurrPcb esp) io' := by
  have hfail : ∀ {io₁ : Io}, (Reply.returned (-1) () io₁ : Reply Unit) = .returned v () io' →
      io₁ = io → v = -1 ∧ io' = io := by
    rintro io₁ heq rfl
    cases heq
    exact ⟨rfl, rfl⟩
  unfold openCall at h
  cases filename with
  | none => exact .inl (hfail h rfl)
  | some name =>
      dsimp only at h
      by_cases hhead : name 0 = 0 ∨ name 0 = chSpace
      · rw [if_pos hhead] at h
        exact .inl (hfail h rfl)
      rw [if_neg hhead] at h
      cases hfound : foundEntry fs name with
      | none =>
          rw [readDentryByName_of_not_found stale hfound] at h
          exact .inl (hfail h rfl)
      | some e =>
          obtain ⟨hlt, hread⟩ := readDentryByName_of_found stale hfound
          rw [hread] at h
          have hret : ¬ (0 : Int32) = -1 := by decide
          simp only [if_neg hret, hfound] at h
          have htype := copyDentry_filetype (clearDentry stale) (fs.bufAt (dentrySize * (e + 1)))
          have hentry : dentryFiletype (fs.bufAt (dentrySize * (e + 1))) = fs.entryType e := rfl
          rw [hentry] at htype
          rw [htype] at h
          generalize copyDentry (clearDentry stale) (fs.bufAt (dentrySize * (e + 1))) = dentry at h
          split at h
          · cases h
          obtain ⟨hge, hle, hflags⟩ := firstFreeFd_spec (io.fds (getCurrPcb esp)) 6 2
          generalize firstFreeFd (io.fds (getCurrPcb esp)) 6 2 = i at *
          by_cases hfull : i = fdArraySize
          · rw [if_pos hfull] at h
            exact .inl (hfail h rfl)
          rw [if_neg hfull] at h
          simp only [fdArraySize] at hfull
          have hfree := hflags (by omega)
          have hin : i < fdArraySize := by
            simp only [fdArraySize]
            omega
          have hopened := openedOn_of_setFd hfound hlt hge hin hfree
          split at h
          · rename_i hrtc
            cases h
            exact .inr ⟨name, e, i, rfl, rfl, hopened _ .rtc _ rfl rfl (by rw [hrtc]; rfl) rfl rfl⟩
          split at h
          · rename_i hdir
            cases h
            exact .inr ⟨name, e, i, rfl, rfl, hopened _ .dir _ rfl rfl (by rw [hdir]; rfl) rfl rfl⟩
          split at h
          · rename_i hfile
            split at h
            · exact .inl (hfail h rfl)
            split at h
            · exact .inl (hfail h rfl)
            cases h
            exact .inr ⟨name, e, i, rfl, rfl, hopened _ .file _ rfl rfl (by rw [hfile]; rfl) rfl rfl⟩
          · exact .inl (hfail h rfl)

/-! ## What `close` does -/

/-- **`close`** either fails and changes nothing, or clears the flags of a descriptor from 2 on. -/
theorem closeCall_cases {esp : Nat} {fd : Int32} {io io' : Io} {v : Int32}
    (h : closeCall esp fd io = .returned v () io') :
    (v = -1 ∧ io' = io) ∨
      (v = 0 ∧ 2 ≤ fd.toInt.toNat ∧ fd.toInt.toNat < fdArraySize ∧
        io' = io.setFd (getCurrPcb esp) fd.toInt.toNat fun f => { f with flags := 0 }) := by
  unfold closeCall at h
  by_cases hrange : fd < 2 ∨ fd ≥ 8
  · rw [if_pos hrange] at h
    cases h
    exact .inl ⟨rfl, rfl⟩
  rw [if_neg hrange] at h
  dsimp only at h
  split at h
  · cases h
    exact .inl ⟨rfl, rfl⟩
  · cases h
    rw [not_or, Int32.not_lt, ge_iff_le, Int32.not_le, Int32.le_iff_toInt_le,
      Int32.lt_iff_toInt_lt] at hrange
    have htwo : (2 : Int32).toInt = 2 := rfl
    have height : (8 : Int32).toInt = 8 := rfl
    have hlt : fd.toInt.toNat < fdArraySize := by
      simp only [fdArraySize]
      omega
    exact .inr ⟨rfl, by omega, hlt, rfl⟩

/-! ## What `read` and `write` do to the descriptors -/

theorem SameDescriptors.refl (fds : Nat → Fd) : SameDescriptors fds fds := fun _ => ⟨rfl, rfl⟩

theorem SameDescriptors.trans {fds fds' fds'' : Nat → Fd} (h : SameDescriptors fds fds')
    (h' : SameDescriptors fds' fds'') : SameDescriptors fds fds'' := fun fd =>
  ⟨(h' fd).1.trans (h fd).1, (h' fd).2.trans (h fd).2⟩

theorem Io.setFd_same {io : Io} {addr fd addr' : Nat} {f : Fd → Fd}
    (hptr : (f (io.fds addr fd)).fxnTblPtr = (io.fds addr fd).fxnTblPtr)
    (hflags : (f (io.fds addr fd)).flags = (io.fds addr fd).flags) :
    SameDescriptors (io.fds addr') ((io.setFd addr fd f).fds addr') := by
  intro fd'
  by_cases haddr : addr' = addr
  · rw [haddr]
    by_cases hfd : fd' = fd
    · rw [hfd, io.setFd_self]
      exact ⟨hptr, hflags⟩
    · rw [io.setFd_of_ne f hfd]
      exact ⟨rfl, rfl⟩
  · rw [io.setFd_of_other fd f haddr]
    exact ⟨rfl, rfl⟩

/-- The call goes through no `NULL` pointer, and the state in which it returns satisfies `P`. -/
def Reply.Leaves {α : Type} (P : Io → Prop) : Reply α → Prop
  | .returned _ _ io => P io
  | .waiting => True
  | .nullCall => False
  | .fault => True

theorem Reply.Leaves.ne_nullCall {α : Type} {P : Io → Prop} {reply : Reply α}
    (h : reply.Leaves P) : reply ≠ .nullCall := by
  rintro rfl
  exact h

/-- **The functions in the read slots** keep every property that depends on the functions and flags
of a process only and that interrupts keep. -/
theorem ReadFn.call_leaves (fn : ReadFn) (fs : Image) (stale : Buf) {interrupts : Nat → Io → Io}
    (esp : Nat) {addr : Nat} (fd nbytes : Int32) (buf : Option Buf) {io : Io} {P : Io → Prop}
    (hsame : ∀ a b : Io, SameDescriptors (a.fds addr) (b.fds addr) → P a → P b)
    (hwait : ∀ i a, P a → P (interrupts i a)) (hio : P io) :
    (fn.call fs stale interrupts esp fd buf nbytes io).Leaves P := by
  cases fn with
  | terminalRead =>
      change (JuddOS.terminalRead interrupts buf nbytes io).Leaves P
      unfold JuddOS.terminalRead
      -- The line buffer is no descriptor.
      have hplant : P { io with kernel := plantReturn io.kernel } := hsame io _ (.refl _) hio
      cases buf with
      | none => exact hplant
      | some bytes =>
          dsimp only
          split
          · exact hplant
          split
          · trivial
          split
          · trivial
          · -- Three waits: for the flag, for the terminal, and up to `cli`.
            have hleft := hwait 2 _ (hwait 1 _ (hwait 0 _ hplant))
            refine hsame _ _ ?_ hleft
            exact .refl _
  | fileRead =>
      change (JuddOS.fileRead fs esp fd buf nbytes io).Leaves P
      unfold JuddOS.fileRead
      cases buf with
      | none =>
          dsimp only
          split
          · exact hio
          · trivial
      | some bytes =>
          dsimp only
          split
          · exact hsame io _ (Io.setFd_same rfl rfl) hio
          · exact hio
  | dirRead =>
      change (JuddOS.dirRead fs stale buf nbytes io).Leaves P
      unfold JuddOS.dirRead
      dsimp only
      split
      · exact hsame io _ (.refl _) hio
      split
      · split
        · trivial
        · cases buf with
          | none => trivial
          | some bytes => exact hsame io _ (.refl _) hio
      · exact hio
  | rtcRead =>
      change (rtcReadCall interrupts buf io).Leaves P
      unfold rtcReadCall
      dsimp only
      split
      · trivial
      · refine hsame _ _ ?_ (hwait 0 io hio)
        exact .refl _

/-- A function in a write slot leaves every descriptor alone. -/
theorem WriteFn.call_leaves (fn : WriteFn) (buf : Option Buf) (nbytes : Int32) (io : Io) :
    (fn.call buf nbytes io).Leaves fun io' => io'.fds = io.fds := by
  cases fn with
  | terminalWrite =>
      unfold WriteFn.call
      cases hwrite : JuddOS.terminalWrite buf nbytes io.kernel with
      | none => trivial
      | some result =>
          obtain ⟨ret, kernel⟩ := result
          have hpcb := read_of_undrawn Kernel.pcb (fun _ => rfl) (terminalWrite_undrawn hwrite)
          funext addr
          simp only [Io.fds, hpcb]
  | fileWrite => exact rfl
  | dirWrite => exact rfl
  | rtcWrite =>
      unfold WriteFn.call
      cases buf with
      | none => trivial
      | some bytes => exact rfl

/-! ## Dispatch -/

/-- `read` and `write` refuse the descriptor; `own` is the standard descriptor that goes the other
way. -/
def FdRefused (io : Io) (addr : Nat) (own fd : Int32) : Prop :=
  fd < 0 ∨ fd ≥ 8 ∨ fd = own ∨ (io.fds addr fd.toInt.toNat).flags = 0

theorem readCall_of_refused {io : Io} {esp : Nat} {fd : Int32}
    (h : FdRefused io (getCurrPcb esp) 1 fd) (fs : Image) (stale : Buf)
    (interrupts : Nat → Io → Io) (buf : Option Buf) (nbytes : Int32) :
    readCall fs stale interrupts esp fd buf nbytes io = .returned (-1) ⟨buf, []⟩ io :=
  if_pos h

theorem readCall_of_slot {io : Io} {esp : Nat} {fd : Int32} {table : FopsTable} {fn : ReadFn}
    (h : ¬ FdRefused io (getCurrPcb esp) 1 fd)
    (htable : (io.fds (getCurrPcb esp) fd.toInt.toNat).fxnTblPtr = some table)
    (hfn : table.read = some fn) (fs : Image) (stale : Buf) (interrupts : Nat → Io → Io)
    (buf : Option Buf) (nbytes : Int32) :
    readCall fs stale interrupts esp fd buf nbytes io =
      fn.call fs stale interrupts esp fd buf nbytes io := by
  unfold FdRefused at h
  unfold readCall
  simp only [if_neg h, htable, hfn]

theorem writeCall_of_refused {io : Io} {esp : Nat} {fd : Int32}
    (h : FdRefused io (getCurrPcb esp) 0 fd) (buf : Option Buf) (nbytes : Int32) :
    writeCall esp fd buf nbytes io = .returned (-1) () io :=
  if_pos h

theorem writeCall_of_slot {io : Io} {esp : Nat} {fd : Int32} {table : FopsTable} {fn : WriteFn}
    (h : ¬ FdRefused io (getCurrPcb esp) 0 fd)
    (htable : (io.fds (getCurrPcb esp) fd.toInt.toNat).fxnTblPtr = some table)
    (hfn : table.write = some fn) (buf : Option Buf) (nbytes : Int32) :
    writeCall esp fd buf nbytes io = fn.call buf nbytes io := by
  unfold FdRefused at h
  unfold writeCall
  simp only [if_neg h, htable, hfn]

/-- A descriptor that is not refused, as a number. -/
theorem fd_of_not_refused {io : Io} {addr : Nat} {own fd : Int32}
    (h : ¬ FdRefused io addr own fd) :
    fd.toInt.toNat < fdArraySize ∧ fd.toInt = fd.toInt.toNat ∧ fd.toInt ≠ own.toInt ∧
      (io.fds addr fd.toInt.toNat).flags ≠ 0 := by
  unfold FdRefused at h
  simp only [not_or, ge_iff_le, Int32.le_iff_toInt_le, Int32.lt_iff_toInt_lt] at h
  obtain ⟨hneg, hlarge, hown, hflags⟩ := h
  have hzero := Int32.toInt_zero
  have height : (8 : Int32).toInt = 8 := rfl
  have hlt : fd.toInt.toNat < fdArraySize := by
    simp only [fdArraySize]
    omega
  exact ⟨hlt, by omega, fun heq => hown (Int32.toInt_inj.mp heq), hflags⟩

/-- The tables that `open` installs have all their slots filled. -/
theorem tableOfType_slots {filetype : UInt32} {table : FopsTable}
    (h : tableOfType filetype = some table) :
    (table = .rtc ∨ table = .dir ∨ table = .file) ∧ table.read.isSome ∧ table.write.isSome := by
  unfold tableOfType at h
  split at h
  · cases h
    exact ⟨.inl rfl, rfl, rfl⟩
  split at h
  · cases h
    exact ⟨.inr (.inl rfl), rfl, rfl⟩
  split at h
  · cases h
    exact ⟨.inr (.inr rfl), rfl, rfl⟩
  · cases h

/-- **A descriptor that `read` accepts** has a function in its read slot. -/
theorem DescriptorsMatch.readSlot {fs : Image} {entry : Nat → Option Nat} {io : Io} {addr : Nat}
    {fd : Int32} (h : DescriptorsMatch fs (io.fds addr) entry)
    (haccepted : ¬ FdRefused io addr 1 fd) :
    ∃ table fn, (io.fds addr fd.toInt.toNat).fxnTblPtr = some table ∧ table.read = some fn := by
  obtain ⟨hlt, hint, hown, hflags⟩ := fd_of_not_refused haccepted
  have hone : (1 : Int32).toInt = 1 := rfl
  rcases Nat.lt_or_ge fd.toInt.toNat 2 with hlow | hhigh
  · have hstdin : fd.toInt.toNat = 0 := by omega
    rw [hstdin]
    exact ⟨.stdin, .terminalRead, h.stdin.1, rfl⟩
  · obtain ⟨e, table, -, -, htype, hptr⟩ := h.opened _ hhigh hlt hflags
    obtain ⟨fn, hfn⟩ := Option.isSome_iff_exists.mp (tableOfType_slots htype).2.1
    exact ⟨table, fn, hptr, hfn⟩

/-- **A descriptor that `write` accepts** has a function in its write slot. -/
theorem DescriptorsMatch.writeSlot {fs : Image} {entry : Nat → Option Nat} {io : Io} {addr : Nat}
    {fd : Int32} (h : DescriptorsMatch fs (io.fds addr) entry)
    (haccepted : ¬ FdRefused io addr 0 fd) :
    ∃ table fn, (io.fds addr fd.toInt.toNat).fxnTblPtr = some table ∧ table.write = some fn := by
  obtain ⟨hlt, hint, hown, hflags⟩ := fd_of_not_refused haccepted
  have hzero := Int32.toInt_zero
  rcases Nat.lt_or_ge fd.toInt.toNat 2 with hlow | hhigh
  · have hstdout : fd.toInt.toNat = 1 := by omega
    rw [hstdout]
    exact ⟨.stdout, .terminalWrite, h.stdout.1, rfl⟩
  · obtain ⟨e, table, -, -, htype, hptr⟩ := h.opened _ hhigh hlt hflags
    obtain ⟨fn, hfn⟩ := Option.isSome_iff_exists.mp (tableOfType_slots htype).2.2
    exact ⟨table, fn, hptr, hfn⟩

/-! ## Runs of one process -/

/-- The result without what was written to the caller's buffer. -/
def Reply.discard {α : Type} : Reply α → Reply Unit
  | .returned value _ io => .returned value () io
  | .waiting => .waiting
  | .nullCall => .nullCall
  | .fault => .fault

/-- A system call on descriptors. -/
inductive FileCall
  | opens (filename : Option Buf)
  | closes (fd : Int32)
  | reads (fd : Int32) (buf : Option Buf) (nbytes : Int32)
  | writes (fd : Int32) (buf : Option Buf) (nbytes : Int32)

/-- Making a call. -/
def FileCall.run (fs : Image) (stale : Buf) (interrupts : Nat → Io → Io) (esp : Nat) (io : Io) :
    FileCall → Reply Unit
  | .opens filename => openCall fs stale esp filename io
  | .closes fd => closeCall esp fd io
  | .reads fd buf nbytes => (readCall fs stale interrupts esp fd buf nbytes io).discard
  | .writes fd buf nbytes => writeCall esp fd buf nbytes io

/-- A state with the history of one process: the directory entry that each descriptor was opened
on. -/
structure FdHistory where
  io : Io
  entry : Nat → Option Nat

/-- The history after a call that returned `v`. -/
def FileCall.entryAfter (fs : Image) (v : Int32) (entry : Nat → Option Nat) :
    FileCall → Nat → Option Nat
  | .opens (some filename) =>
      if v = -1 then entry else Function.update entry v.toInt.toNat (foundEntry fs filename)
  | _ => entry

/-- The process whose PCB is at `addr` makes a call, or something else happens that leaves the
functions and flags of its descriptors alone. -/
inductive FdStep (fs : Image) (addr : Nat) : FdHistory → Option FileCall → FdHistory → Prop
  | call {s : FdHistory} (c : FileCall) {stale : Buf} {interrupts : Nat → Io → Io} {esp : Nat}
      {v : Int32} {io' : Io} (hesp : getCurrPcb esp = addr)
      (hkeeps : KeepsDescriptors addr interrupts)
      (h : c.run fs stale interrupts esp s.io = .returned v () io') :
      FdStep fs addr s (some c) ⟨io', c.entryAfter fs v s.entry⟩
  | other {s : FdHistory} {io' : Io} (h : SameDescriptors (s.io.fds addr) (io'.fds addr)) :
      FdStep fs addr s none ⟨io', s.entry⟩

/-- The process that `execute_fillpcb` has set up. -/
def FdHistory.fresh (addr esp : Nat) (io : Io) : FdHistory where
  io := { io with kernel := executeFillpcb addr esp io.kernel }
  entry _ := none

theorem FdHistory.fresh_matches (fs : Image) (addr esp : Nat) (io : Io) :
    DescriptorsMatch fs ((FdHistory.fresh addr esp io).io.fds addr)
      (FdHistory.fresh addr esp io).entry := by
  have hfds : (FdHistory.fresh addr esp io).io.fds addr =
      initialFdArray (io.fds addr) := by
    simp [FdHistory.fresh, Io.fds, executeFillpcb]
  rw [hfds]
  exact descriptorsMatch_initial fs _ _

theorem int32_ofNat_fd {i : Nat} (h : i < fdArraySize) :
    (Int32.ofNat i).toInt.toNat = i ∧ Int32.ofNat i ≠ -1 := by
  have hint : (Int32.ofNat i).toInt = i := by
    refine Int32.toInt_ofNat_of_lt ?_
    simp only [fdArraySize] at h
    omega
  refine ⟨by rw [hint]; rfl, fun heq => ?_⟩
  rw [heq] at hint
  have hneg : (-1 : Int32).toInt = -1 := rfl
  omega

/-- What `open` took keeps the table in agreement. -/
theorem DescriptorsMatch.opens {fs : Image} {entry : Nat → Option Nat} {io io' : Io} {addr e i : Nat}
    {name : Buf} (h : DescriptorsMatch fs (io.fds addr) entry)
    (hopened : OpenedOn fs name e i io addr io') :
    DescriptorsMatch fs (io'.fds addr) (Function.update entry i (some e)) := by
  have hge := hopened.ge
  refine ⟨?_, ?_, ?_⟩
  · rw [hopened.others 0 (by omega)]
    exact h.stdin
  · rw [hopened.others 1 (by omega)]
    exact h.stdout
  · intro fd hlow hlt hflags
    by_cases hfd : fd = i
    · rw [hfd, Function.update_self]
      obtain ⟨t, htype, hptr⟩ := hopened.table
      exact ⟨e, t, rfl, hopened.entry_lt, htype, hptr⟩
    · rw [hopened.others fd hfd] at hflags ⊢
      rw [Function.update_of_ne hfd]
      exact h.opened fd hlow hlt hflags

/-- A descriptor from 2 on whose flags are cleared keeps the table in agreement. -/
theorem DescriptorsMatch.closes {fs : Image} {entry : Nat → Option Nat} {io : Io} {addr i : Nat}
    (h : DescriptorsMatch fs (io.fds addr) entry) (hge : 2 ≤ i) :
    DescriptorsMatch fs ((io.setFd addr i fun f => { f with flags := 0 }).fds addr) entry := by
  refine ⟨?_, ?_, ?_⟩
  · rw [io.setFd_of_ne _ (show 0 ≠ i by omega)]
    exact h.stdin
  · rw [io.setFd_of_ne _ (show 1 ≠ i by omega)]
    exact h.stdout
  · intro fd hlow hlt hflags
    by_cases hfd : fd = i
    · rw [hfd, io.setFd_self] at hflags
      exact absurd rfl hflags
    · rw [io.setFd_of_ne _ hfd] at hflags ⊢
      exact h.opened fd hlow hlt hflags

theorem Reply.Leaves.discard {α : Type} {P : Io → Prop} {reply : Reply α} (h : reply.Leaves P) :
    reply.discard.Leaves P := by
  cases reply with
  | returned v result io => exact h
  | waiting => trivial
  | nullCall => exact h
  | fault => trivial

/-- `read` under the invariant keeps such a property. -/
theorem DescriptorsMatch.readCall_leaves {fs : Image} {entry : Nat → Option Nat} {io : Io}
    {esp : Nat} (h : DescriptorsMatch fs (io.fds (getCurrPcb esp)) entry) (stale : Buf)
    (interrupts : Nat → Io → Io) (fd nbytes : Int32) (buf : Option Buf) {P : Io → Prop}
    (hsame : ∀ a b : Io, SameDescriptors (a.fds (getCurrPcb esp)) (b.fds (getCurrPcb esp)) →
      P a → P b)
    (hwait : ∀ i a, P a → P (interrupts i a)) (hio : P io) :
    (readCall fs stale interrupts esp fd buf nbytes io).Leaves P := by
  by_cases hrefused : FdRefused io (getCurrPcb esp) 1 fd
  · rw [readCall_of_refused hrefused]
    exact hio
  · obtain ⟨table, fn, htable, hfn⟩ := h.readSlot hrefused
    rw [readCall_of_slot hrefused htable hfn]
    exact fn.call_leaves fs stale esp fd nbytes buf hsame hwait hio

/-- `write` under the invariant. -/
theorem DescriptorsMatch.writeCall_leaves {fs : Image} {entry : Nat → Option Nat} {io : Io}
    {esp : Nat} (h : DescriptorsMatch fs (io.fds (getCurrPcb esp)) entry) (fd nbytes : Int32)
    (buf : Option Buf) :
    (writeCall esp fd buf nbytes io).Leaves fun io' => io'.fds = io.fds := by
  by_cases hrefused : FdRefused io (getCurrPcb esp) 0 fd
  · rw [writeCall_of_refused hrefused]
    exact rfl
  · obtain ⟨table, fn, htable, hfn⟩ := h.writeSlot hrefused
    rw [writeCall_of_slot hrefused htable hfn]
    exact fn.call_leaves buf nbytes io

/-- **What a step can do** to the descriptors: nothing, take a free one, or free one. -/
theorem FdStep.effect {fs : Image} {addr : Nat} {s s' : FdHistory} {ev : Option FileCall}
    (hstep : FdStep fs addr s ev s') (h : DescriptorsMatch fs (s.io.fds addr) s.entry) :
    (s'.entry = s.entry ∧ SameDescriptors (s.io.fds addr) (s'.io.fds addr)) ∨
      (∃ name e i, ev = some (.opens (some name)) ∧ OpenedOn fs name e i s.io addr s'.io ∧
        s'.entry = Function.update s.entry i (some e)) ∨
      ∃ fd, ev = some (.closes fd) ∧ 2 ≤ fd.toInt.toNat ∧
        s' = ⟨s.io.setFd addr fd.toInt.toNat fun f => { f with flags := 0 }, s.entry⟩ := by
  cases hstep with
  | other hsame => exact .inl ⟨rfl, hsame⟩
  | @call c stale interrupts esp v io' hesp hkeeps hrun =>
      subst hesp
      cases c with
      | opens filename =>
          rcases openCall_cases hrun with ⟨rfl, rfl⟩ | ⟨name, e, i, rfl, rfl, hopened⟩
          · refine .inl ⟨?_, .refl _⟩
            cases filename with
            | none => rfl
            | some name => rfl
          · obtain ⟨hnat, hne⟩ := int32_ofNat_fd hopened.lt
            refine .inr (.inl ⟨name, e, i, rfl, hopened, ?_⟩)
            unfold FileCall.entryAfter
            simp only [if_neg hne, hnat, hopened.found]
      | closes fd =>
          rcases closeCall_cases hrun with ⟨-, rfl⟩ | ⟨-, hge, -, rfl⟩
          · exact .inl ⟨rfl, .refl _⟩
          · exact .inr (.inr ⟨fd, rfl, hge, rfl⟩)
      | reads fd buf nbytes =>
          have hleaves := (h.readCall_leaves stale interrupts fd nbytes buf
            (P := fun a => SameDescriptors (s.io.fds (getCurrPcb esp)) (a.fds (getCurrPcb esp)))
            (fun _ _ hab ha => ha.trans hab) (fun i a ha => ha.trans (hkeeps i a))
            (.refl _)).discard
          have hreply : (readCall fs stale interrupts esp fd buf nbytes s.io).discard =
              .returned v () io' := hrun
          rw [hreply] at hleaves
          exact .inl ⟨rfl, hleaves⟩
      | writes fd buf nbytes =>
          have hleaves := h.writeCall_leaves fd nbytes buf
          have hreply : writeCall esp fd buf nbytes s.io = .returned v () io' := hrun
          rw [hreply] at hleaves
          have hfds : io'.fds = s.io.fds := hleaves
          refine .inl ⟨rfl, ?_⟩
          rw [hfds]
          exact .refl _

/-- **Every step keeps the invariant.** -/
theorem FdStep.keeps {fs : Image} {addr : Nat} {s s' : FdHistory} {ev : Option FileCall}
    (hstep : FdStep fs addr s ev s') (h : DescriptorsMatch fs (s.io.fds addr) s.entry) :
    DescriptorsMatch fs (s'.io.fds addr) s'.entry := by
  rcases hstep.effect h with
    ⟨hentry, hsame⟩ | ⟨name, e, i, -, hopened, hentry⟩ | ⟨fd, -, hge, rfl⟩
  · rw [hentry]
    exact h.congr hsame
  · rw [hentry]
    exact h.opens hopened
  · exact h.closes hge

/-- **Descriptor tables over whole runs.**  In every state that a process reaches from
`execute_fillpcb`, its descriptors agree with what they were opened on, and no `read` or `write`
calls through `NULL`. -/
theorem descriptors_of_run {fs : Image} {addr esp : Nat} {io : Io} {es : List (Option FileCall)}
    {s : FdHistory} (hrun : Run (FdStep fs addr) (FdHistory.fresh addr esp io) es s) :
    DescriptorsMatch fs (s.io.fds addr) s.entry ∧
      ∀ stale interrupts esp fd buf nbytes, getCurrPcb esp = addr →
        readCall fs stale interrupts esp fd buf nbytes s.io ≠ .nullCall ∧
          writeCall esp fd buf nbytes s.io ≠ .nullCall := by
  have hmatch := hrun.invariant (fun s => DescriptorsMatch fs (s.io.fds addr) s.entry)
    (FdHistory.fresh_matches fs addr esp io) fun _ _ _ h hstep => hstep.keeps h
  refine ⟨hmatch, ?_⟩
  rintro stale interrupts esp' fd buf nbytes rfl
  have hread := hmatch.readCall_leaves stale interrupts fd nbytes buf
    (P := fun _ => True) (fun _ _ _ h => h) (fun _ _ h => h) trivial
  exact ⟨hread.ne_nullCall, (hmatch.writeCall_leaves fd nbytes buf).ne_nullCall⟩

/-- An image whose only entry is the directory itself. -/
def oneDirectory : Image where
  bytes a := if a = 0 then 1 else if a = 64 then 0x2E else if a = 96 then 1 else 0

/-- The name `"."`. -/
def dotName : Buf := Buf.ofList [0x2E]

/-- A state in which nothing has been opened yet. -/
def Io.blank : Io where
  kernel := Kernel.zeroed PowerOn.blank
  fileIndex := 0
  rtc :=
    { rtcSignal := false, index := 0, reg := fun _ => 0
      irq := I8259.unset (I8259.chip 0xFF) (I8259.chip 0xFF) }

/-- A kernel stack pointer of the first process. -/
abbrev espOfFirst : Nat := 0x7FFFF0

theorem descriptors_of_run_open :
    ∃ s : FdHistory, s.entry 2 = some 0 ∧ DescriptorsMatch oneDirectory
        (s.io.fds (getCurrPcb espOfFirst)) s.entry := by
  have hopen : (FileCall.opens (some dotName)).run oneDirectory dotName (fun _ io => io) espOfFirst
      (FdHistory.fresh (getCurrPcb espOfFirst) espOfFirst Io.blank).io =
      .returned 2 () ((FdHistory.fresh (getCurrPcb espOfFirst) espOfFirst Io.blank).io.setFd
        (getCurrPcb espOfFirst) 2 fun _ => ⟨some .dir, 0, 0, 1⟩) := rfl
  have hrun := Run.single (FdStep.call (.opens (some dotName)) rfl (fun _ _ => .refl _) hopen)
  exact ⟨_, rfl, (descriptors_of_run hrun).1⟩

end JuddOS
