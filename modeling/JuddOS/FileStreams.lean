import JuddOS.DirectoryStreams
import JuddOS.FilePositions
import JuddOS.OpenFiles
import JuddOS.Preemption

/-!
# The descriptors of the system as open files

`Os.openFiles` reads the streams of all processes off their PCBs and off `file_index`.  `Os.Sees`
is an event of the system with what it is for the open files.  The second half says what the
functions behind the descriptors do to the streams.
-/

namespace JuddOS

open Image Support X86

/-- The bytes of the file of an inode. -/
def Image.contents (fs : Image) (inode : UInt32) : List UInt8 :=
  (List.range (fs.fileLength inode).toNat).map (fs.fileByte inode)

/-- What is open on a descriptor. -/
def streamOf (fs : Image) (f : Fd) : Option Stream :=
  if f.flags = 0 then none
  else
    match f.fxnTblPtr with
    | some .rtc => some .clock
    | some .dir => some .directory
    | some .file => some (.file f.filePos.toNat (fs.contents f.inode))
    | _ => none

/-- The image as a disk. -/
def Image.disk (fs : Image) : Disk where
  find name := (fs.lookup name).bind fun e => streamOf fs (openedFd fs e)
  names := (List.range fs.numDentries.toNat).map fs.entryName

/-- The name that `open` looks up. -/
def openName (name : Buf) : Option (List UInt8) :=
  if name 0 = 0 ∨ name 0 = chSpace then none else some name.cstring

/-- What a read that returned `v` has put into the buffer. -/
def Written.got (w : Written) (v : Int32) : List UInt8 :=
  (w.buf.map fun bytes => (List.range v.toInt.toNat).map bytes).getD []

/-- A call that returns, as its process sees it. -/
inductive FileCall.Seen (fs : Image) (stale : Buf) (esp : Nat) (io : Io) :
    FileCall → FileAct → Io → Prop
  | opens {filename : Option Buf} {v : Int32} {io' : Io} (hv : v ≠ -1)
      (h : openCall fs stale esp filename io = .returned v () io') :
      Seen fs stale esp io (.opens filename)
        (.opens (filename.bind openName) (some v.toInt.toNat)) io'
  | refuses {filename : Option Buf} {io' : Io}
      (h : openCall fs stale esp filename io = .returned (-1) () io') :
      Seen fs stale esp io (.opens filename) (.opens (filename.bind openName) none) io'
  | closes {fd v : Int32} {io' : Io} (h : closeCall esp fd io = .returned v () io') :
      Seen fs stale esp io (.closes fd) (.closes fd.toInt.toNat (v = 0)) io'
  | reads {fd nbytes v : Int32} {buf : Option Buf} {w : Written} {io' : Io} (hn : 0 ≤ nbytes)
      (h : readCall fs stale (fun _ io => io) esp fd buf nbytes io = .returned v w io') :
      Seen fs stale esp io (.reads fd buf nbytes)
        (.reads fd.toInt.toNat nbytes.toInt.toNat (w.got v)) io'
  | writes {fd nbytes v : Int32} {buf : Option Buf} {io' : Io}
      (h : writeCall esp fd buf nbytes io = .returned v () io') :
      Seen fs stale esp io (.writes fd buf nbytes) .writes io'

def OsEvent.isCall : OsEvent → Bool
  | .call .. => true
  | _ => false

namespace Os

/-- The open files of all processes. -/
def openFiles (fs : Image) (o : Os) : OpenFiles where
  table p fd :=
    if p ∈ o.proc.live ∧ 2 ≤ fd ∧ fd < 8 then
      streamOf fs ((o.proc.kernel.pcb (pcbAddr p)).fdArray fd)
    else none
  listed := o.fileIndex.toNat

/-- One event, with what it is for the open files. -/
inductive Sees (fs : Image) (o : Os) : FileLabel → Os → Prop
  | call {c : FileCall} {stale : Buf} {esp : Nat} {a : FileAct} {o' : Os}
      (hstep : o.step fs (.call c stale esp) = some o') (hseen : c.Seen fs stale esp o.io a o'.io) :
      Sees fs o (.act o.proc.kernel.runningPid a) o'
  | ends {e : OsEvent} {p : Nat} {o' : Os} (hstep : o.step fs e = some o') (hp : p ∈ o.proc.live)
      (hend : p ∉ o'.proc.live) : Sees fs o (.ends p) o'
  | silent {e : OsEvent} {o' : Os} (hstep : o.step fs e = some o') (hcall : e.isCall = false)
      (hlive : ∀ p ∈ o.proc.live, p ∈ o'.proc.live) : Sees fs o .silent o'

/-- The runs of the system in which no read asks for a negative number of bytes. -/
abbrev Shows (fs : Image) : Os → List FileLabel → Os → Prop := Run (Sees fs)

end Os

/-- The files that the entries name exist, and none has 2 GB. -/
structure ReadableDisk (fs : Image) : Prop where
  types : TypesBelow fs 256
  files : ∀ e, e < fs.numDentries.toNat → fs.entryType e = 2 → ReadableFile fs (fs.entryInode e)

/-- The descriptors that are open on files, and the shared counter. -/
structure StreamsReady (fs : Image) (o : Os) : Prop where
  index : o.fileIndex.toNat ≤ fs.numDentries.toNat
  files : ∀ p ∈ o.proc.live, ∀ fd, 2 ≤ fd → fd < 8 →
    ((o.proc.kernel.pcb (pcbAddr p)).fdArray fd).flags ≠ 0 →
    ((o.proc.kernel.pcb (pcbAddr p)).fdArray fd).fxnTblPtr = some .file →
    ReadableFile fs ((o.proc.kernel.pcb (pcbAddr p)).fdArray fd).inode ∧
      ((o.proc.kernel.pcb (pcbAddr p)).fdArray fd).filePos.toNat ≤
        (fs.fileLength ((o.proc.kernel.pcb (pcbAddr p)).fdArray fd).inode).toNat

/-! ## Streams of descriptors -/

section Streams

variable {fs : Image} {f : Fd}

@[simp] theorem Image.contents_length (fs : Image) (inode : UInt32) :
    (fs.contents inode).length = (fs.fileLength inode).toNat := by
  simp [Image.contents]

theorem streamOf_free (h : f.flags = 0) : streamOf fs f = none := if_pos h

theorem AtPosition.stream {inode : UInt32} {p : Nat} (h : AtPosition fs inode f p) :
    streamOf fs f = some (.file p (fs.contents inode)) := by
  rw [streamOf, if_neg h.flags, h.table, h.inode_eq, h.filePos]

/-- A part of a file. -/
theorem Image.contents_part (fs : Image) (inode : UInt32) {pos n : Nat} {bytes : Buf}
    (h : ∀ k, k < min n ((fs.fileLength inode).toNat - pos) →
      bytes k = fs.fileByte inode (pos + k)) :
    (List.range (min n ((fs.fileLength inode).toNat - pos))).map bytes =
      ((fs.contents inode).drop pos).take n := by
  refine List.ext_getElem (by simp) fun k hk hk' => ?_
  rw [List.length_map, List.length_range] at hk
  rw [List.getElem_take, List.getElem_drop, List.getElem_map, List.getElem_range, h k hk]
  simp only [Image.contents, List.getElem_map, List.getElem_range]

/-- What a descriptor from 2 on is open on. -/
theorem DescriptorsMatch.stream_cases {fds : Nat → Fd} {entry : Nat → Option Nat}
    (h : DescriptorsMatch fs fds entry) {fd : Nat} (hge : 2 ≤ fd) (hlt : fd < 8) :
    (fds fd).flags = 0 ∧ streamOf fs (fds fd) = none ∨
      (fds fd).flags ≠ 0 ∧
        ((fds fd).fxnTblPtr = some .rtc ∧ streamOf fs (fds fd) = some .clock ∨
          (fds fd).fxnTblPtr = some .dir ∧ streamOf fs (fds fd) = some .directory ∨
          (fds fd).fxnTblPtr = some .file ∧ streamOf fs (fds fd) =
            some (.file (fds fd).filePos.toNat (fs.contents (fds fd).inode))) := by
  by_cases hflags : (fds fd).flags = 0
  · exact .inl ⟨hflags, streamOf_free hflags⟩
  · obtain ⟨e, table, -, -, htype, hptr⟩ := h.opened fd hge hlt hflags
    refine .inr ⟨hflags, ?_⟩
    rw [streamOf, if_neg hflags, hptr]
    rcases (tableOfType_slots htype).1 with rfl | rfl | rfl
    · exact .inl ⟨rfl, rfl⟩
    · exact .inr (.inl ⟨rfl, rfl⟩)
    · exact .inr (.inr ⟨rfl, rfl⟩)

theorem DescriptorsMatch.stream_none_iff {fds : Nat → Fd} {entry : Nat → Option Nat}
    (h : DescriptorsMatch fs fds entry) {fd : Nat} (hge : 2 ≤ fd) (hlt : fd < 8) :
    streamOf fs (fds fd) = none ↔ (fds fd).flags = 0 := by
  rcases h.stream_cases hge hlt with ⟨hflags, hnone⟩ | ⟨hflags, ⟨-, hs⟩ | ⟨-, hs⟩ | ⟨-, hs⟩⟩
  · exact ⟨fun _ => hflags, fun _ => hnone⟩
  all_goals exact ⟨fun hnone => absurd (hs.symm.trans hnone) (Option.some_ne_none _),
    fun hzero => absurd hzero hflags⟩

/-- The stream of a descriptor that has just been opened. -/
theorem streamOf_openedFd_isSome (fs : Image) (e : Nat) :
    (streamOf fs (openedFd fs e)).isSome = true ↔ fs.entryType e < 3 := by
  have hone : ¬ (1 : UInt32) = 0 := by decide
  rw [streamOf, openedFd]
  dsimp only
  rw [if_neg hone, tableOfType]
  by_cases hrtc : fs.entryType e = 0
  · rw [if_pos hrtc, hrtc]
    exact iff_of_true rfl (by decide)
  by_cases hdir : fs.entryType e = 1
  · rw [if_neg hrtc, if_pos hdir, hdir]
    exact iff_of_true rfl (by decide)
  by_cases hfile : fs.entryType e = 2
  · rw [if_neg hrtc, if_neg hdir, if_pos hfile, hfile]
    exact iff_of_true rfl (by decide)
  · rw [if_neg hrtc, if_neg hdir, if_neg hfile]
    simp only [← UInt32.toNat_inj, UInt32.toNat_zero, UInt32.reduceToNat] at hrtc hdir hfile
    simp only [Option.isSome_none, UInt32.lt_iff_toNat_lt, UInt32.reduceToNat]
    constructor
    · rintro ⟨⟩
    · intro hlt
      omega

/-- The name of the entry that is opened leads to its stream. -/
theorem OpenTakes.find {filename : Option Buf} {fds : Nat → Fd} {i e : Nat}
    (h : OpenTakes fs filename fds i e) : ∃ name x, filename.bind openName = some name ∧
      fs.disk.find name = some x ∧ streamOf fs (openedFd fs e) = some x := by
  obtain ⟨name, rfl, hnul, hspace, hlookup⟩ := h.name
  obtain ⟨x, hx⟩ := Option.isSome_iff_exists.mp ((streamOf_openedFd_isSome fs e).mpr h.type)
  refine ⟨name.cstring, x, if_neg fun hhead => hhead.elim hnul hspace, ?_, hx⟩
  rw [Image.disk]
  dsimp only
  rw [hlookup]
  exact hx

/-- `open` takes a descriptor when the name leads to a stream and one is free. -/
theorem openTakes_iff {fds : Nat → Fd} {entry : Nat → Option Nat}
    (h : DescriptorsMatch fs fds entry) {table : Nat → Option Stream}
    (htable : ∀ fd, 2 ≤ fd → fd < 8 → table fd = streamOf fs (fds fd)) (filename : Option Buf)
    (i : Nat) :
    (∃ e, OpenTakes fs filename fds i e) ↔
      ∃ x, (filename.bind openName).bind fs.disk.find = some x ∧ FirstFree table i := by
  have hfree : ∀ {j}, 2 ≤ j → j < 8 → (table j = none ↔ (fds j).flags = 0) := fun hge hlt => by
    rw [htable _ hge hlt]
    exact h.stream_none_iff hge hlt
  constructor
  · rintro ⟨e, htakes⟩
    obtain ⟨name, x, hname, hfind, -⟩ := htakes.find
    have hge := htakes.ge
    refine ⟨x, ?_, hge, htakes.lt, (hfree hge htakes.lt).mpr htakes.free, fun j hj hji hnone => ?_⟩
    · rw [hname]
      exact hfind
    · exact htakes.least j hj hji ((hfree hj (Nat.lt_trans hji htakes.lt)).mp hnone)
  · rintro ⟨x, hx, hge, hlt, hnone, hleast⟩
    obtain ⟨name, hname, hfind⟩ := Option.bind_eq_some_iff.mp hx
    obtain ⟨buf, rfl, hopen⟩ := Option.bind_eq_some_iff.mp hname
    obtain ⟨e, hlookup, hstream⟩ := Option.bind_eq_some_iff.mp hfind
    rw [openName] at hopen
    split at hopen
    case isTrue => cases hopen
    case isFalse hhead =>
      cases hopen
      have htype := (streamOf_openedFd_isSome fs e).mp (by rw [hstream]; rfl)
      exact ⟨e, ⟨buf, rfl, fun hnul => hhead (.inl hnul), fun hspace => hhead (.inr hspace),
        hlookup⟩, htype, hge, hlt, (hfree hge hlt).mp hnone, fun j hj hji hzero =>
          hleast j hj hji ((hfree hj (Nat.lt_trans hji hlt)).mpr hzero)⟩

end Streams

/-! ## What calls do to the streams -/

section Calls

variable {fs : Image} {o : Os} {io' : Io} {p : Nat}

theorem Os.openFiles_pos (o : Os) {q fd : Nat} (h : q ∈ o.proc.live ∧ 2 ≤ fd ∧ fd < 8) :
    (o.openFiles fs).table q fd = streamOf fs (o.io.fds (pcbAddr q) fd) :=
  if_pos h

theorem Os.openFiles_neg (o : Os) {q fd : Nat} (h : ¬ (q ∈ o.proc.live ∧ 2 ≤ fd ∧ fd < 8)) :
    (o.openFiles fs).table q fd = none :=
  if_neg h

/-- A call that changes no descriptor. -/
theorem Os.openFiles_same (o : Os) (hfds : io'.fds = o.io.fds)
    (hindex : io'.fileIndex = o.io.fileIndex) : (o.setIo io').openFiles fs = o.openFiles fs := by
  have hpcbs : ∀ addr fd, (io'.kernel.pcb addr).fdArray fd = (o.proc.kernel.pcb addr).fdArray fd :=
    fun addr fd => congrFun (congrFun hfds addr) fd
  have hnat : io'.fileIndex.toNat = o.fileIndex.toNat := congrArg UInt32.toNat hindex
  unfold Os.openFiles Os.setIo
  simp only [hpcbs, hnat]

/-- A call that changes one descriptor of the process `p`. -/
theorem Os.openFiles_set (hp : p ∈ o.proc.live) (hlt : ∀ q ∈ o.proc.live, q < 6) {fd : Nat}
    (hge : 2 ≤ fd) (hfd : fd < 8)
    (hothers : ∀ addr fd', addr ≠ pcbAddr p ∨ fd' ≠ fd → io'.fds addr fd' = o.io.fds addr fd')
    (hindex : io'.fileIndex = o.io.fileIndex) :
    (o.setIo io').openFiles fs =
      (o.openFiles fs).set p fd (streamOf fs (io'.fds (pcbAddr p) fd)) := by
  refine OpenFiles.ext ?_ (congrArg UInt32.toNat hindex)
  funext q fd'
  by_cases hsame : q = p ∧ fd' = fd
  · obtain ⟨rfl, rfl⟩ := hsame
    rw [OpenFiles.set_self]
    exact if_pos ⟨hp, hge, hfd⟩
  · rw [OpenFiles.set_of_ne _ _ (not_and_or.mp hsame)]
    by_cases hq : q ∈ o.proc.live ∧ 2 ≤ fd' ∧ fd' < 8
    · have hstays : io'.fds (pcbAddr q) fd' = o.io.fds (pcbAddr q) fd' := by
        refine hothers _ _ ?_
        by_cases heq : q = p
        · exact .inr fun hfd' => hsame ⟨heq, hfd'⟩
        · exact .inl (pcbAddr_ne (hlt q hq.1) heq)
      exact ((o.setIo io').openFiles_pos hq).trans
        ((congrArg (streamOf fs) hstays).trans (o.openFiles_pos hq).symm)
    · exact ((o.setIo io').openFiles_neg hq).trans (o.openFiles_neg hq).symm

/-- A write changes no descriptor. -/
theorem WriteFn.call_index (fn : WriteFn) (buf : Option Buf) (nbytes : Int32) (io : Io) :
    (fn.call buf nbytes io).EndsIn fun io' => io'.fileIndex = io.fileIndex := by
  cases fn with
  | terminalWrite =>
      unfold WriteFn.call
      cases JuddOS.terminalWrite buf nbytes io.kernel with
      | none => trivial
      | some result => exact rfl
  | fileWrite | dirWrite => exact rfl
  | rtcWrite =>
      unfold WriteFn.call
      cases buf with
      | none => trivial
      | some bytes => exact rfl

/-- The terminal and the clock change no descriptor. -/
theorem ReadFn.call_elsewhere (fn : ReadFn) (hfile : fn ≠ .fileRead) (hdir : fn ≠ .dirRead)
    (fs : Image) (stale : Buf) (esp : Nat) (fd nbytes : Int32) (buf : Option Buf) (io : Io) :
    (fn.call fs stale (fun _ io => io) esp fd buf nbytes io).EndsIn fun io' =>
      io'.fds = io.fds ∧ io'.fileIndex = io.fileIndex := by
  have hplant : (plantReturn io.kernel).pcb = io.kernel.pcb :=
    congrArg Bookkeeping.pcb (plantReturn_bookkeeping io.kernel)
  have hfds : ∀ {k : Kernel}, k.pcb = io.kernel.pcb → ({ io with kernel := k } : Io).fds = io.fds :=
    fun heq => by
      funext addr
      exact congrArg (fun pcb => (pcb addr).fdArray) heq
  cases fn with
  | fileRead => exact absurd rfl hfile
  | dirRead => exact absurd rfl hdir
  | terminalRead =>
      unfold ReadFn.call JuddOS.terminalRead
      cases buf with
      | none => exact ⟨hfds hplant, rfl⟩
      | some bytes =>
          dsimp only
          split
          · exact ⟨hfds hplant, rfl⟩
          split
          · trivial
          split
          · trivial
          · have htake : (takeLine bytes nbytes (plantReturn io.kernel)).2.pcb =
                (plantReturn io.kernel).pcb :=
              congrArg Bookkeeping.pcb (takeLine_bookkeeping bytes nbytes _)
            exact ⟨hfds (htake.trans hplant), rfl⟩
  | rtcRead =>
      unfold ReadFn.call rtcReadCall
      dsimp only
      split
      · trivial
      · exact ⟨rfl, rfl⟩

/-- What a read of a regular file puts into the buffer. -/
theorem fileRead_got {inode : UInt32} (hfile : ReadableFile fs inode) {io : Io} {esp : Nat}
    {fd nbytes v : Int32} {pos : Nat} {bytes : Buf} {w : Written}
    (hat : AtPosition fs inode (io.fds (getCurrPcb esp) fd.toInt.toNat) pos) (hn : 0 ≤ nbytes)
    (h : fileRead fs esp fd (some bytes) nbytes io = .returned v w io') :
    io'.fileIndex = io.fileIndex ∧
      (w.got v).length = min nbytes.toInt.toNat ((fs.contents inode).length - pos) ∧
      (ReadFitsBlocks (fs.contents inode).length pos nbytes.toInt.toNat →
        w.got v = ((fs.contents inode).drop pos).take nbytes.toInt.toNat) := by
  have hlength := toUInt32_toNat_of_nonneg hn
  have hmax := nbytes.toInt_lt
  have hsmall := hfile.length_lt
  have hpos := hat.filePos
  have hle := hat.le
  rw [fs.contents_length]
  unfold fileRead at h
  dsimp only at h
  rw [hat.inode_eq] at h
  by_cases hrefused : ReadRefused fs inode (io.fds (getCurrPcb esp) fd.toInt.toNat).filePos
  · have hend := (hfile.readRefused_iff _).mp hrefused
    have hneg : ¬ (-1 : Int32) ≠ -1 := fun h => h rfl
    rw [readData_refused hrefused, if_neg hneg] at h
    cases h
    have hnone : (fs.contents inode).drop pos = [] :=
      List.drop_eq_nil_of_le (by rw [fs.contents_length]; omega)
    rw [hnone, List.take_nil]
    refine ⟨rfl, ?_, fun _ => rfl⟩
    have hleft : (fs.fileLength inode).toNat - pos = 0 := by omega
    rw [hleft, Nat.min_zero]
    rfl
  · have hoff : (io.fds (getCurrPcb esp) fd.toInt.toNat).filePos < fs.fileLength inode := by
      rw [UInt32.lt_iff_toNat_lt]
      exact Nat.not_le.mp fun h => hrefused ((hfile.readRefused_iff _).mpr h)
    obtain ⟨buf', hread, hbytes, -⟩ := readData_spec nbytes.toUInt32
      (clearBytes bytes nbytes.toUInt32.toNat) hrefused
    have hwrap : (io.fds (getCurrPcb esp) fd.toInt.toNat).filePos.toNat +
        nbytes.toUInt32.toNat < 2 ^ 32 := by
      omega
    have hcount := clampedLength_of_lt hoff hwrap
    have hlen : nbytes.toUInt32.toNat = nbytes.toInt.toNat := by omega
    rw [hpos, hlen] at hcount
    rw [hread] at h
    have hint := toInt32_toInt (clampedLength (fs.fileLength inode)
      (io.fds (getCurrPcb esp) fd.toInt.toNat).filePos nbytes.toUInt32)
    rw [if_pos (by omega)] at hint
    rw [if_pos (toInt32_ne_neg_one (by omega))] at h
    cases h
    have hvalue : (clampedLength (fs.fileLength inode)
        (io.fds (getCurrPcb esp) fd.toInt.toNat).filePos nbytes.toUInt32).toInt32.toInt.toNat =
        min nbytes.toInt.toNat ((fs.fileLength inode).toNat - pos) := by omega
    refine ⟨rfl, ?_, fun hfits => ?_⟩
    · rw [Written.got, Option.map_some, Option.getD_some, List.length_map, List.length_range,
        hvalue]
    rw [Written.got, hvalue]
    refine fs.contents_part inode fun k hk => ?_
    rw [hbytes k (by rw [hcount]; exact hk), ← hpos]
    rcases hfits with haligned | hfirst
    · exact readSource_of_aligned (by rw [hpos]; exact haligned)
    · exact readSource_of_first_block (by rw [hpos]; simp only [datablockSize]; omega)

/-- What a read of the directory does to the state. -/
theorem dirRead_index {stale : Buf} {buf : Option Buf} {nbytes v : Int32} {io : Io} {w : Written}
    (h : dirRead fs stale buf nbytes io = .returned v w io') :
    io'.fds = io.fds ∧ (io.fileIndex = fs.numDentries → io'.fileIndex = 0) ∧
      (io.fileIndex < fs.numDentries → io'.fileIndex = io.fileIndex + 1) := by
  unfold dirRead at h
  by_cases hend : io.fileIndex = fs.numDentries
  · rw [if_pos hend] at h
    cases h
    refine ⟨rfl, fun _ => rfl, fun hlt => absurd hlt ?_⟩
    rw [hend]
    exact UInt32.lt_irrefl _
  rw [if_neg hend] at h
  dsimp only at h
  split at h
  case isTrue hret =>
    split at h
    case isTrue => cases h
    case isFalse =>
      cases buf with
      | none => cases h
      | some bytes =>
          cases h
          exact ⟨rfl, fun heq => absurd heq hend, fun _ => rfl⟩
  case isFalse hret =>
    cases h
    refine ⟨rfl, fun heq => absurd heq hend, fun hlt => ?_⟩
    unfold readDentryByIndex at hret
    rw [if_neg (UInt32.not_le.mpr hlt)] at hret
    exact absurd rfl hret

/-- The bytes of an answer that gives a name. -/
theorem Answer.Gives.got {nbytes v : Int32} {w : Written} {name : List UInt8} (hn : 0 ≤ nbytes)
    (h : Answer.Gives ⟨nbytes, v, w.buf⟩ name) : w.got v = name.take nbytes.toInt.toNat := by
  have hvalue := h.value
  obtain ⟨bytes, hbuf, hbytes⟩ := h.bytes
  dsimp only at hvalue hbuf hbytes
  have hzero := Int32.toInt_zero
  rw [Int32.le_iff_toInt_le, hzero] at hn
  have hnat : v.toInt.toNat = min nbytes.toInt.toNat name.length := by omega
  rw [Written.got, hbuf, Option.map_some, Option.getD_some]
  refine List.ext_getElem (by simp [hnat]) fun k hk hk' => ?_
  rw [List.length_map, List.length_range] at hk
  have hname : k < name.length := by omega
  rw [List.getElem_map, List.getElem_range, List.getElem_take, hbytes k (by omega),
    List.getD_eq_getElem _ _ hname]

end Calls

end JuddOS
