import JuddOS.DentryLookup

/-!
# `open` in full

`open` looks the name up, looks for a free descriptor and, for a regular file, compares the name
once more with the one in the entry it was given.

* `sizeWithin_eq`: the loops that measure a name.
* `OpenTakes`: the descriptor that should be taken, and for what entry.
* `open_exact_of_run`: `open` takes exactly that descriptor, and no descriptor twice unless it was
  closed.
-/

namespace JuddOS

open Image Support

/-! ## The second comparison -/

theorem sizeWithin_eq (name : Buf) (n i : Nat) :
    sizeWithin name n i = i + (name.field n i).length := by
  induction n generalizing i with
  | zero => rfl
  | succ n ih =>
      rw [sizeWithin, Buf.field]
      by_cases hzero : name i = 0
      · rw [if_pos hzero, if_pos hzero]
        rfl
      · rw [if_neg hzero, if_neg hzero, ih, List.length_cons]
        omega

theorem entryName_length_le (fs : Image) (e : Nat) : (fs.entryName e).length ≤ filenameSize :=
  field_length_le _ _ _

theorem entryName_no_nul (fs : Image) (e : Nat) : (0 : UInt8) ∉ fs.entryName e :=
  field_no_nul _ _ _

/-- The name in the copy of an entry has the length of the name of the entry. -/
theorem FillsDentry.sizeWithin {fs : Image} {e : Nat} {before after : Buf}
    (h : FillsDentry fs e before after) :
    sizeWithin after filenameSize 0 = (fs.entryName e).length := by
  rw [sizeWithin_eq, Nat.zero_add]
  have hlen := entryName_length_le fs e
  refine congrArg List.length (field_eq hlen (entryName_no_nul fs e) (fun j hj => ?_) fun hlt => ?_)
  · rw [Nat.zero_add, h.name j (by omega)]
  · rw [Nat.zero_add, h.name _ hlt, List.getD_eq_default _ _ (Nat.le_refl _)]

/-- The name that was asked for, measured in 33 bytes. -/
theorem sizeWithin_cstring {name : Buf} (h : strlen name ≤ filenameSize) :
    sizeWithin name (filenameSize + 1) 0 = strlen name := by
  simp only [filenameSize] at h
  have hlen := field_length name (n := filenameSize + 1) (by simp)
  rw [sizeWithin_eq, Nat.zero_add, hlen, if_neg (by simp only [filenameSize]; omega)]

/-- **The second comparison never rejects** a name that the lookup accepted. -/
theorem FillsDentry.strncmp_eq {fs : Image} {e : Nat} {before after name : Buf}
    (h : FillsDentry fs e before after) (hname : fs.entryName e = name.cstring) :
    strncmp after name (strlen name) = 0 := by
  have hlen := entryName_length_le fs e
  rw [hname, cstring_length] at hlen
  have hbytes : ∀ j, j < strlen name → after j = name j := fun j hj => by
    rw [h.name j (by omega), hname, cstring_getD hj]
  refine (strncmp_eq_zero_iff fun j hj => ?_).mpr hbytes
  rw [hbytes j hj]
  exact ne_zero_of_lt_strlen hj

/-! ## The descriptor that is taken -/

/-- `open` should take descriptor `i` for entry `e`. -/
structure OpenTakes (fs : Image) (filename : Option Buf) (fds : Nat → Fd) (i e : Nat) : Prop where
  name : ∃ name, filename = some name ∧ name 0 ≠ 0 ∧ name 0 ≠ chSpace ∧
    fs.lookup name.cstring = some e
  type : fs.entryType e < 3
  ge : 2 ≤ i
  lt : i < fdArraySize
  free : (fds i).flags = 0
  least : ∀ j, 2 ≤ j → j < i → (fds j).flags ≠ 0

/-- What a descriptor holds after it was opened on entry `e`. -/
def openedFd (fs : Image) (e : Nat) : Fd where
  fxnTblPtr := tableOfType (fs.entryType e)
  inode := if fs.entryType e = 2 then fs.entryInode e else 0
  filePos := 0
  flags := 1

/-- What `open` does when it succeeds and when it fails. -/
structure OpenExact (fs : Image) (stale : Buf) (esp : Nat) (filename : Option Buf) (io : Io) :
    Prop where
  takes : ∀ i e, OpenTakes fs filename (io.fds (getCurrPcb esp)) i e →
    ∃ io', openCall fs stale esp filename io = .returned (Int32.ofNat i) () io' ∧
      io'.fds (getCurrPcb esp) =
        Function.update (io.fds (getCurrPcb esp)) i (openedFd fs e) ∧
      ∀ addr, addr ≠ getCurrPcb esp → io'.fds addr = io.fds addr
  fails : (¬ ∃ i e, OpenTakes fs filename (io.fds (getCurrPcb esp)) i e) →
    openCall fs stale esp filename io = .returned (-1) () io

theorem firstFreeFd_least (fdArray : Nat → Fd) (n i : Nat) :
    ∀ j, i ≤ j → j < firstFreeFd fdArray n i → (fdArray j).flags ≠ 0 := by
  induction n generalizing i with
  | zero =>
      intro j hij hj
      rw [firstFreeFd] at hj
      omega
  | succ n ih =>
      intro j hij hj
      rw [firstFreeFd] at hj
      by_cases hfree : (fdArray i).flags = 0
      · rw [if_pos hfree] at hj
        omega
      · rw [if_neg hfree] at hj
        by_cases heq : j = i
        · rw [heq]
          exact hfree
        · exact ih (i + 1) j (by omega) hj

/-- The search finds the descriptor that should be taken. -/
theorem firstFreeFd_eq {fdArray : Nat → Fd} {i : Nat} (hge : 2 ≤ i) (hlt : i < fdArraySize)
    (hfree : (fdArray i).flags = 0) (hleast : ∀ j, 2 ≤ j → j < i → (fdArray j).flags ≠ 0) :
    firstFreeFd fdArray 6 2 = i := by
  obtain ⟨hge', hle, hflags⟩ := firstFreeFd_spec fdArray 6 2
  simp only [fdArraySize] at hlt
  rcases Nat.lt_trichotomy (firstFreeFd fdArray 6 2) i with hbelow | heq | habove
  · exact absurd (hflags (by omega)) (hleast _ hge' hbelow)
  · exact heq
  · exact absurd hfree (firstFreeFd_least fdArray 6 2 i hge habove)

theorem Io.setFd_fds (io : Io) (addr fd : Nat) (f : Fd → Fd) :
    (io.setFd addr fd f).fds addr = Function.update (io.fds addr) fd (f (io.fds addr fd)) := by
  simp [Io.setFd, Io.fds]

/-! ## `open` on any table -/

/-- `open` on a name that is not in the directory. -/
theorem openCall_of_absent {fs : Image} (stale : Buf) {esp : Nat} {io : Io} {name : Buf}
    (hlookup : fs.lookup name.cstring = none) :
    openCall fs stale esp (some name) io = .returned (-1) () io := by
  unfold openCall
  dsimp only
  split
  · rfl
  rw [readDentryByName_clears hlookup]
  rfl

/-- `open` on a name that is. -/
theorem openCall_of_lookup {fs : Image} (stale : Buf) {esp : Nat} {io : Io} {name : Buf} {e : Nat}
    (hhead : ¬ (name 0 = 0 ∨ name 0 = chSpace)) (hlookup : fs.lookup name.cstring = some e)
    (htype : fs.entryType e < 256) :
    openCall fs stale esp (some name) io =
      if firstFreeFd (io.fds (getCurrPcb esp)) 6 2 = fdArraySize then .returned (-1) () io
      else if fs.entryType e = 0 then
        .returned (Int32.ofNat (firstFreeFd (io.fds (getCurrPcb esp)) 6 2)) ()
          { io.setFd (getCurrPcb esp) (firstFreeFd (io.fds (getCurrPcb esp)) 6 2)
              fun _ => ⟨some .rtc, 0, 0, 1⟩ with rtc := (rtcOpen io.rtc).2 }
      else if fs.entryType e = 1 then
        .returned (Int32.ofNat (firstFreeFd (io.fds (getCurrPcb esp)) 6 2)) ()
          (io.setFd (getCurrPcb esp) (firstFreeFd (io.fds (getCurrPcb esp)) 6 2)
            fun _ => ⟨some .dir, 0, 0, 1⟩)
      else if fs.entryType e = 2 then
        .returned (Int32.ofNat (firstFreeFd (io.fds (getCurrPcb esp)) 6 2)) ()
          (io.setFd (getCurrPcb esp) (firstFreeFd (io.fds (getCurrPcb esp)) 6 2)
            fun _ => ⟨some .file, fs.entryInode e, 0, 1⟩)
      else .returned (-1) () io := by
  have hret : ¬ (0 : Int32) = -1 := by decide
  obtain ⟨hzero, hfills⟩ := readDentryByName_fills hlookup htype stale
  have hname := (lookup_eq_some_iff.mp hlookup).1
  have hlen := entryName_length_le fs e
  rw [hname, cstring_length] at hlen
  have hover : ¬ ∃ e ∈ foundEntry fs name, fs.NameOverruns (dentrySize * (e + 1)) := by
    rintro ⟨e', he', hover⟩
    rw [Option.mem_def, foundEntry_eq, hlookup] at he'
    cases he'
    exact absurd hover (Nat.not_le_of_lt (entry_ends htype))
  have hsize : ¬ strlen name ≠ strlen name := fun h => h rfl
  have hcmp : ¬ strncmp (readDentryByName fs name stale).2 name (strlen name) ≠ 0 :=
    fun h => h (hfills.strncmp_eq hname)
  unfold openCall
  dsimp only
  rw [if_neg hhead, hzero, if_neg hret, if_neg hover, hfills.filetype, hfills.inodeNum,
    hfills.sizeWithin, sizeWithin_cstring hlen, hname, cstring_length, if_neg hsize, if_neg hcmp]
  rfl

/-- `open` when there is a descriptor to take. -/
theorem openCall_takes {fs : Image} (stale : Buf) {esp : Nat} {io : Io} {filename : Option Buf}
    {i e : Nat} (htakes : OpenTakes fs filename (io.fds (getCurrPcb esp)) i e) :
    ∃ io', openCall fs stale esp filename io = .returned (Int32.ofNat i) () io' ∧
      io'.fds (getCurrPcb esp) =
        Function.update (io.fds (getCurrPcb esp)) i (openedFd fs e) ∧
      ∀ addr, addr ≠ getCurrPcb esp → io'.fds addr = io.fds addr := by
  obtain ⟨⟨name, rfl, hnul, hspace, hlookup⟩, htype, hge, hlt, hfree, hleast⟩ := htakes
  have hhead : ¬ (name 0 = 0 ∨ name 0 = chSpace) := fun h => h.elim hnul hspace
  have hne : ¬ i = fdArraySize := Nat.ne_of_lt hlt
  have hcases : fs.entryType e = 0 ∨ fs.entryType e = 1 ∨ fs.entryType e = 2 := by
    have hthree : (3 : UInt32).toNat = 3 := rfl
    rw [UInt32.lt_iff_toNat_lt] at htype
    simp only [← UInt32.toNat_inj, UInt32.toNat_zero, UInt32.reduceToNat]
    omega
  rw [openCall_of_lookup stale hhead hlookup (UInt32.lt_trans htype (by decide)),
    firstFreeFd_eq hge hlt hfree hleast, if_neg hne]
  unfold openedFd
  rcases hcases with hrtc | hdir | hfile
  · rw [hrtc, if_pos rfl]
    refine ⟨_, rfl, ?_, fun addr h => ?_⟩
    · exact io.setFd_fds (getCurrPcb esp) i fun _ => ⟨some .rtc, 0, 0, 1⟩
    · exact io.setFd_of_other i (fun _ => ⟨some .rtc, 0, 0, 1⟩) h
  · rw [hdir, if_neg (by decide), if_pos rfl]
    exact ⟨_, rfl, io.setFd_fds _ _ _, fun addr h => io.setFd_of_other _ _ h⟩
  · rw [hfile, if_neg (by decide), if_neg (by decide), if_pos rfl]
    exact ⟨_, rfl, io.setFd_fds _ _ _, fun addr h => io.setFd_of_other _ _ h⟩

/-- `open` when there is none. -/
theorem openCall_fails {fs : Image} (htypes : TypesBelow fs 256) (stale : Buf) {esp : Nat} {io : Io}
    {filename : Option Buf}
    (hnone : ¬ ∃ i e, OpenTakes fs filename (io.fds (getCurrPcb esp)) i e) :
    openCall fs stale esp filename io = .returned (-1) () io := by
  cases filename with
  | none => rfl
  | some name =>
      by_cases hhead : name 0 = 0 ∨ name 0 = chSpace
      · exact if_pos hhead
      cases hlookup : fs.lookup name.cstring with
      | none => exact openCall_of_absent stale hlookup
      | some e =>
          rw [openCall_of_lookup stale hhead hlookup
            (htypes e (lookup_eq_some_iff.mp hlookup).2.1)]
          by_cases hfull : firstFreeFd (io.fds (getCurrPcb esp)) 6 2 = fdArraySize
          · exact if_pos hfull
          rw [if_neg hfull]
          -- There is a free descriptor, so the type is at fault.
          obtain ⟨hge, hle, hflags⟩ := firstFreeFd_spec (io.fds (getCurrPcb esp)) 6 2
          simp only [fdArraySize] at hfull
          have htype : ¬ fs.entryType e < 3 := fun htype => hnone ⟨_, e,
            ⟨name, rfl, fun h => hhead (.inl h), fun h => hhead (.inr h), hlookup⟩, htype, hge,
            by simp only [fdArraySize]; omega, hflags (by omega),
            firstFreeFd_least _ 6 2⟩
          have hne : ∀ t : UInt32, t < 3 → ¬ fs.entryType e = t := fun t ht heq =>
            htype (heq ▸ ht)
          rw [if_neg (hne 0 (by decide)), if_neg (hne 1 (by decide)), if_neg (hne 2 (by decide))]

/-- **`open` is exact** on any table. -/
theorem openExact {fs : Image} (htypes : TypesBelow fs 256) (stale : Buf) {esp : Nat} {io : Io}
    (filename : Option Buf) : OpenExact fs stale esp filename io :=
  ⟨fun _ _ htakes => openCall_takes stale htakes, fun hnone => openCall_fails htypes stale hnone⟩

/-! ## Descriptors that stay open -/

/-- A step that is no `close` leaves an occupied descriptor occupied. -/
theorem FdStep.keepsOpen {fs : Image} {addr i : Nat} {s s' : FdHistory} {ev : Option FileCall}
    (hstep : FdStep fs addr s ev s') (h : DescriptorsMatch fs (s.io.fds addr) s.entry)
    (hclose : ∀ fd, ev ≠ some (.closes fd)) (hopen : (s.io.fds addr i).flags ≠ 0) :
    (s'.io.fds addr i).flags ≠ 0 := by
  rcases hstep.effect h with ⟨-, hsame⟩ | ⟨name, e, i', -, hopened, -⟩ | ⟨fd, hev, -⟩
  · rw [(hsame i).2]
    exact hopen
  · by_cases hi : i = i'
    · rw [hi, hopened.flags]
      decide
    · rw [hopened.others i hi]
      exact hopen
  · exact absurd hev (hclose fd)

/-- **A run without `close`** leaves an occupied descriptor occupied. -/
theorem flags_of_run {fs : Image} {addr i : Nat} {es : List (Option FileCall)} {s s' : FdHistory}
    (hrun : Run (FdStep fs addr) s es s') (h : DescriptorsMatch fs (s.io.fds addr) s.entry)
    (hclose : ∀ fd, some (.closes fd) ∉ es) (hopen : (s.io.fds addr i).flags ≠ 0) :
    (s'.io.fds addr i).flags ≠ 0 := by
  have hboth := hrun.invariant_history
    (fun es s => (∀ fd, some (.closes fd) ∉ es) →
      DescriptorsMatch fs (s.io.fds addr) s.entry ∧ (s.io.fds addr i).flags ≠ 0)
    (fun _ => ⟨h, hopen⟩) fun es a e b ih hstep hes => by
      obtain ⟨hmatch, hflags⟩ := ih fun fd hmem => hes fd (List.mem_append_left _ hmem)
      refine ⟨hstep.keeps hmatch, hstep.keepsOpen hmatch (fun fd heq => ?_) hflags⟩
      exact hes fd (List.mem_append_right _ (heq ▸ List.mem_singleton_self _))
  exact (hboth hclose).2

/-- No call of `open` in a later state returns `v` again, as long as nothing was closed. -/
def NotReopened (fs : Image) (addr : Nat) (v : Int32) (s : FdHistory) : Prop :=
  ∀ es s', Run (FdStep fs addr) s es s' → (∀ fd, some (.closes fd) ∉ es) →
    ∀ stale esp filename v' io', getCurrPcb esp = addr →
      openCall fs stale esp filename s'.io = .returned v' () io' → v' ≠ v

/-- **`open` in every reachable state** takes the least free descriptor for an entry of that name,
or fails and changes nothing; and no descriptor is given out twice unless it was closed. -/
theorem open_exact_of_run {fs : Image} (htypes : TypesBelow fs 256) {addr esp₀ : Nat} {io : Io}
    {es : List (Option FileCall)} {s : FdHistory}
    (hrun : Run (FdStep fs addr) (FdHistory.fresh addr esp₀ io) es s) (stale : Buf) {esp : Nat}
    (hesp : getCurrPcb esp = addr) (filename : Option Buf) :
    OpenExact fs stale esp filename s.io ∧
      ∀ v io', openCall fs stale esp filename s.io = .returned v () io' → v ≠ -1 →
        NotReopened fs addr v ⟨io', (FileCall.opens filename).entryAfter fs v s.entry⟩ := by
  refine ⟨openExact htypes stale filename, fun v io' hopen hv es' s' hrun' hclose stale' esp'
    filename' v' io'' hesp' hopen' heq => ?_⟩
  have hkeeps : KeepsDescriptors addr fun _ io => io := fun _ _ => .refl _
  have hstep : FdStep fs addr s (some (.opens filename))
      ⟨io', (FileCall.opens filename).entryAfter fs v s.entry⟩ :=
    .call (.opens filename) hesp hkeeps hopen
  have hmatch := hstep.keeps (descriptors_of_run hrun).1
  rcases openCall_cases hopen with ⟨hfailed, -⟩ | ⟨name, e, i, -, rfl, hopened⟩
  · exact hv hfailed
  rw [hesp] at hopened
  -- The descriptor is still occupied, and `open` takes free ones.
  have hflags := flags_of_run hrun' hmatch hclose (i := i) (by
    dsimp only
    rw [hopened.flags]
    decide)
  rcases openCall_cases hopen' with ⟨hfailed, -⟩ | ⟨name', e', i', -, hv', hopened'⟩
  · exact hv (heq ▸ hfailed)
  · have hsame : i' = i := by
      have hnat := congrArg (fun w : Int32 => w.toInt.toNat) (hv'.symm.trans heq)
      rwa [(int32_ofNat_fd hopened'.lt).1, (int32_ofNat_fd hopened.lt).1] at hnat
    have hfree := hopened'.free
    rw [hsame, hesp'] at hfree
    exact hflags hfree

/-- The directory is opened a second time, on the next descriptor. -/
theorem open_exact_of_run_dots : ∃ s io,
    FdStep oneDirectory (getCurrPcb espOfFirst)
        (FdHistory.fresh (getCurrPcb espOfFirst) espOfFirst Io.blank) (some (.opens dotName)) s ∧
      OpenExact oneDirectory dotName espOfFirst (some dotName) s.io ∧
      openCall oneDirectory dotName espOfFirst (some dotName) s.io = .returned 3 () io ∧
      NotReopened oneDirectory (getCurrPcb espOfFirst) 3
        ⟨io, (FileCall.opens (some dotName)).entryAfter oneDirectory 3 s.entry⟩ := by
  have hopen : (FileCall.opens (some dotName)).run oneDirectory dotName (fun _ io => io) espOfFirst
      (FdHistory.fresh (getCurrPcb espOfFirst) espOfFirst Io.blank).io =
      .returned 2 () ((FdHistory.fresh (getCurrPcb espOfFirst) espOfFirst Io.blank).io.setFd
        (getCurrPcb espOfFirst) 2 fun _ => ⟨some .dir, 0, 0, 1⟩) := rfl
  have hstep := FdStep.call (.opens (some dotName)) rfl (fun _ _ => .refl _) hopen
  obtain ⟨hexact, honce⟩ := open_exact_of_run (by unfold TypesBelow; decide) (Run.single hstep)
    dotName rfl (some dotName)
  exact ⟨_, _, hstep, hexact, rfl, honce 3 _ rfl (by decide)⟩

end JuddOS
