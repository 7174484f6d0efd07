import JuddOS.FileStreams

/-!
# Streams over whole runs

Every event of the system is a step of `OpenFiles` (`StreamsReady.sees`), so what the streams of a
process do does not depend on what else the system does.

* `Caller` is a process that makes a call, and there is one lemma for each call.
* `open_files_of_run`: the system refines open files.
* `file_contents_of_run`: what a process gets that opens a file and reads it.
-/

namespace JuddOS

open Image Support X86

/-! ## Steps of the system -/

namespace StreamsReady

variable {fs : Image} {o : Os} {io' : Io} {p : Nat}

/-- A call that changes no descriptor. -/
theorem same (h : StreamsReady fs o) (hfds : io'.fds = o.io.fds)
    (hindex : io'.fileIndex.toNat ≤ fs.numDentries.toNat) : StreamsReady fs (o.setIo io') := by
  refine ⟨hindex, fun q hq fd hge hlt => ?_⟩
  have hstays : ((o.setIo io').proc.kernel.pcb (pcbAddr q)).fdArray fd =
      (o.proc.kernel.pcb (pcbAddr q)).fdArray fd := congrFun (congrFun hfds _) fd
  rw [hstays]
  exact h.files q hq fd hge hlt

/-- A call that changes one descriptor. -/
theorem set (h : StreamsReady fs o) (hlt : ∀ q ∈ o.proc.live, q < 6) {fd : Nat}
    (hothers : ∀ addr fd', addr ≠ pcbAddr p ∨ fd' ≠ fd → io'.fds addr fd' = o.io.fds addr fd')
    (hindex : io'.fileIndex = o.io.fileIndex)
    (hfile : (io'.fds (pcbAddr p) fd).flags ≠ 0 →
      (io'.fds (pcbAddr p) fd).fxnTblPtr = some .file →
      ReadableFile fs (io'.fds (pcbAddr p) fd).inode ∧
        (io'.fds (pcbAddr p) fd).filePos.toNat ≤
          (fs.fileLength (io'.fds (pcbAddr p) fd).inode).toNat) :
    StreamsReady fs (o.setIo io') := by
  have hnat : io'.fileIndex.toNat = o.fileIndex.toNat := congrArg UInt32.toNat hindex
  refine ⟨hnat ▸ h.index, fun q hq fd' hge hfd => ?_⟩
  by_cases hsame : q = p ∧ fd' = fd
  · obtain ⟨rfl, rfl⟩ := hsame
    exact hfile
  · have hstays : ((o.setIo io').proc.kernel.pcb (pcbAddr q)).fdArray fd' =
        (o.proc.kernel.pcb (pcbAddr q)).fdArray fd' := by
      refine hothers _ _ ?_
      by_cases heq : q = p
      · exact .inr fun hfd' => hsame ⟨heq, hfd'⟩
      · exact .inl (pcbAddr_ne (hlt q hq) heq)
    rw [hstays]
    exact h.files q hq fd' hge hfd

end StreamsReady

section Step

variable {fs : Image} {o o' : Os} {io' : Io} {stale : Buf} {esp : Nat} {a : FileAct}

/-- A call is a step of the open files. -/
structure CallStep (fs : Image) (o : Os) (a : FileAct) (io' : Io) : Prop where
  step : (o.openFiles fs).Step fs.disk (.act o.proc.kernel.runningPid a)
    ((o.setIo io').openFiles fs)
  ready : StreamsReady fs (o.setIo io')

/-- A call that changes no descriptor. -/
theorem StreamsReady.callStep (h : StreamsReady fs o) (hfds : io'.fds = o.io.fds)
    (hindex : io'.fileIndex = o.io.fileIndex)
    (hstep : (o.openFiles fs).Step fs.disk (.act o.proc.kernel.runningPid a) (o.openFiles fs)) :
    CallStep fs o a io' := by
  refine ⟨?_, h.same hfds ?_⟩
  · rw [o.openFiles_same hfds hindex]
    exact hstep
  · rw [hindex]
    exact h.index

/-- The process that makes a call, with its descriptors. -/
structure Caller (fs : Image) (o : Os) (esp p : Nat) (entry : Nat → Option Nat) : Prop where
  runs : o.proc.kernel.runningPid = p
  live : p ∈ o.proc.live
  pcb : getCurrPcb esp = pcbAddr p
  descriptors : DescriptorsMatch fs (o.io.fds (pcbAddr p)) entry
  lt : ∀ q ∈ o.proc.live, q < 6

theorem OsReady.caller (hready : OsReady fs o) (hlive : o.proc.live ≠ [])
    (hesp : OnKernelStack o.proc.kernel esp) :
    ∃ entry, Caller fs o esp o.proc.kernel.runningPid entry := by
  have hp := (hready.tidy.running hlive).mem
  obtain ⟨entry, hmatch⟩ := hready.descriptors _ hp
  exact ⟨entry, rfl, hp, hready.tidy.currPcb hlive hesp, hmatch, fun q hq => hready.tidy.lt hq⟩

namespace Caller

variable {p : Nat} {entry : Nat → Option Nat}

theorem table (h : Caller fs o esp p entry) {fd : Nat} (hge : 2 ≤ fd) (hlt : fd < 8) :
    (o.openFiles fs).table p fd = streamOf fs (o.io.fds (pcbAddr p) fd) :=
  o.openFiles_pos ⟨h.live, hge, hlt⟩

/-- **`open`.** -/
theorem opens (h : Caller fs o esp p entry) (hstreams : StreamsReady fs o)
    (hdisk : ReadableDisk fs) {filename : Option Buf}
    (hseen : (FileCall.opens filename).Seen fs stale esp o.io a io') : CallStep fs o a io' := by
  have hexact : OpenExact fs stale esp filename o.io := openExact hdisk.types stale filename
  obtain ⟨htakes, hfails⟩ := hexact
  rw [h.pcb] at htakes hfails
  have hiff := openTakes_iff h.descriptors (fun fd hge hlt => h.table hge hlt) filename
  by_cases hsome : ∃ i e, OpenTakes fs filename (o.io.fds (pcbAddr p)) i e
  · obtain ⟨i, e, hi⟩ := hsome
    obtain ⟨io₁, hopen, hfds, hothers⟩ := htakes i e hi
    obtain ⟨hnat, hne⟩ := int32_ofNat_fd hi.lt
    cases hseen with
    | refuses hrefused =>
        rw [hopen] at hrefused
        exact absurd (Reply.returned.inj hrefused).1 hne
    | opens hv hopened =>
        rw [hopen] at hopened
        cases hopened
        have hindex : io'.fileIndex = o.io.fileIndex := by
          rcases openCall_cases hopen with ⟨-, rfl⟩ | ⟨name, e', i', -, -, hcase⟩
          · rfl
          · exact hcase.fileIndex
        have hself : io'.fds (pcbAddr p) i = openedFd fs e := by
          rw [hfds]
          exact Function.update_self _ _ _
        have hothers' : ∀ addr fd', addr ≠ pcbAddr p ∨ fd' ≠ i →
            io'.fds addr fd' = o.io.fds addr fd' := by
          intro addr fd' hne'
          by_cases haddr : addr = pcbAddr p
          · rw [haddr, hfds]
            exact Function.update_of_ne (hne'.resolve_left fun hn => hn haddr) _ _
          · rw [hothers addr haddr]
        obtain ⟨name, x, hname, hfind, hx⟩ := hi.find
        obtain ⟨-, -, hfree⟩ := (hiff i).mp ⟨e, hi⟩
        refine ⟨?_, hstreams.set h.lt hothers' hindex fun _ hfile => ?_⟩
        · rw [hnat, hname, Os.openFiles_set h.live h.lt hi.ge hi.lt hothers' hindex, hself, hx,
            h.runs]
          exact .opens hfind hfree
        · rw [hself] at hfile ⊢
          have htype : fs.entryType e = 2 := by
            by_contra hne'
            rw [openedFd, tableOfType, if_neg hne'] at hfile
            dsimp only at hfile
            split at hfile
            · cases hfile
            split at hfile
            · cases hfile
            · cases hfile
          obtain ⟨name', -, -, -, hlookup⟩ := hi.name
          have hfileReady := hdisk.files e (lookup_eq_some_iff.mp hlookup).2.1 htype
          rw [openedFd]
          dsimp only
          rw [if_pos htype]
          exact ⟨hfileReady, Nat.zero_le _⟩
  · have hopen := hfails hsome
    cases hseen with
    | opens hv hopened =>
        rw [hopen] at hopened
        cases hopened
        exact absurd rfl hv
    | refuses hrefused =>
        rw [hopen] at hrefused
        cases hrefused
        refine hstreams.callStep rfl rfl (.refuses ?_)
        rw [h.runs]
        rintro ⟨x, i, hx, hfree⟩
        obtain ⟨e, he⟩ := (hiff i).mpr ⟨x, hx, hfree⟩
        exact hsome ⟨i, e, he⟩

/-- **`close`.** -/
theorem closes (h : Caller fs o esp p entry) (hstreams : StreamsReady fs o) {fd : Int32}
    (hseen : (FileCall.closes fd).Seen fs stale esp o.io a io') : CallStep fs o a io' := by
  cases hseen with
  | @closes _ v _ hclose =>
      unfold closeCall at hclose
      have htwo : (2 : Int32).toInt = 2 := rfl
      have height : (8 : Int32).toInt = 8 := rfl
      have hmisses : ¬ ((-1 : Int32) = 0) := by decide
      by_cases hrange : fd < 2 ∨ fd ≥ 8
      · rw [if_pos hrange] at hclose
        cases hclose
        rw [decide_eq_false hmisses]
        refine hstreams.callStep rfl rfl (.closesNothing (o.openFiles_neg ?_))
        rw [Int32.lt_iff_toInt_lt, ge_iff_le, Int32.le_iff_toInt_le] at hrange
        omega
      · rw [if_neg hrange, h.pcb] at hclose
        rw [not_or, Int32.not_lt, ge_iff_le, Int32.not_le, Int32.le_iff_toInt_le,
          Int32.lt_iff_toInt_lt] at hrange
        have hge : 2 ≤ fd.toInt.toNat := by omega
        have hlt : fd.toInt.toNat < 8 := by omega
        have htable := h.table hge hlt
        have hiff := h.descriptors.stream_none_iff hge hlt
        dsimp only at hclose
        split at hclose
        case isTrue hfree =>
          cases hclose
          rw [decide_eq_false hmisses]
          refine hstreams.callStep rfl rfl (.closesNothing ?_)
          rw [h.runs, htable]
          exact hiff.mpr hfree
        case isFalse hopen =>
          cases hclose
          rw [decide_eq_true rfl]
          have hself := o.io.setFd_self (pcbAddr p) fd.toInt.toNat fun f => { f with flags := 0 }
          have hothers : ∀ addr fd', addr ≠ pcbAddr p ∨ fd' ≠ fd.toInt.toNat →
              (o.io.setFd (pcbAddr p) fd.toInt.toNat fun f => { f with flags := 0 }).fds addr fd' =
                o.io.fds addr fd' := by
            intro addr fd' hne
            by_cases haddr : addr = pcbAddr p
            · rw [haddr]
              exact o.io.setFd_of_ne _ (hne.resolve_left fun hn => hn haddr)
            · rw [o.io.setFd_of_other _ _ haddr]
          refine ⟨?_, hstreams.set h.lt hothers rfl fun hflags => ?_⟩
          · rw [Os.openFiles_set h.live h.lt hge hlt hothers rfl, hself, streamOf_free rfl, h.runs]
            refine .closes ?_
            rw [htable]
            exact fun hnone => hopen (hiff.mp hnone)
          · rw [hself] at hflags
            exact absurd rfl hflags

/-- **`write`.** -/
theorem writes (h : Caller fs o esp p entry) (hstreams : StreamsReady fs o) {fd nbytes : Int32}
    {buf : Option Buf} (hseen : (FileCall.writes fd buf nbytes).Seen fs stale esp o.io a io') :
    CallStep fs o a io' := by
  cases hseen with
  | @writes _ _ v _ _ hwrite =>
      have hmatch := h.descriptors
      rw [← h.pcb] at hmatch
      have hfds := hmatch.writeCall_leaves fd nbytes buf
      rw [hwrite] at hfds
      refine hstreams.callStep hfds ?_ .writes
      by_cases hrefused : FdRefused o.io (getCurrPcb esp) 0 fd
      · rw [writeCall_of_refused hrefused] at hwrite
        cases hwrite
        rfl
      · obtain ⟨table, fn, htable, hfn⟩ := hmatch.writeSlot hrefused
        have hindex := fn.call_index buf nbytes o.io
        rw [writeCall_of_slot hrefused htable hfn] at hwrite
        rw [hwrite] at hindex
        exact hindex

/-- A `read` of a regular file. -/
theorem readsFile (h : Caller fs o esp p entry) (hstreams : StreamsReady fs o) {fd nbytes v : Int32}
    {buf : Option Buf} {w : Written} (hn : 0 ≤ nbytes) (hge : 2 ≤ fd.toInt.toNat)
    (hlt : fd.toInt.toNat < 8) (hflags : (o.io.fds (pcbAddr p) fd.toInt.toNat).flags ≠ 0)
    (hfile : (o.io.fds (pcbAddr p) fd.toInt.toNat).fxnTblPtr = some .file)
    (hread : fileRead fs esp fd buf nbytes o.io = .returned v w io') :
    CallStep fs o (.reads fd.toInt.toNat nbytes.toInt.toNat (w.got v)) io' := by
  obtain ⟨inode, pos, hreadable, hat⟩ : ∃ inode pos, ReadableFile fs inode ∧
      AtPosition fs inode (o.io.fds (pcbAddr p) fd.toInt.toNat) pos := by
    obtain ⟨hreadable, hle⟩ := hstreams.files p h.live _ hge hlt hflags hfile
    exact ⟨_, _, hreadable, hfile, rfl, hflags, rfl, hle⟩
  have htable := (h.table hge hlt).trans hat.stream
  cases buf with
  | none =>
      -- only a read of no bytes gets past `memset`
      unfold fileRead at hread
      dsimp only at hread
      split at hread
      case isFalse => cases hread
      case isTrue hzero =>
        cases hread
        have hn0 : nbytes.toInt.toNat = 0 := by
          have hlength := toUInt32_toNat_of_nonneg hn
          rw [hzero] at hlength
          have hz : (0 : UInt32).toNat = 0 := rfl
          omega
        have hgot : (⟨none, []⟩ : Written).got 0 = [] := rfl
        rw [hn0, hgot]
        refine hstreams.callStep rfl rfl ?_
        have hreads : (o.openFiles fs).Step fs.disk (.act p (.reads fd.toInt.toNat 0 []))
            ((o.openFiles fs).set p fd.toInt.toNat
              (some (.file (pos + [].length) (fs.contents inode)))) :=
          .reads htable (by simp) fun _ => by simp
        rw [h.runs]
        rwa [List.length_nil, Nat.add_zero, OpenFiles.set_eq_self _ htable] at hreads
  | some bytes =>
      rw [← h.pcb] at hat
      obtain ⟨v', w', io₁, hread', hv, hnext, hothers⟩ := fileRead_at hreadable hat bytes hn
      obtain ⟨rfl, -, rfl⟩ := Reply.returned.inj (hread.symm.trans hread')
      obtain ⟨hindex, hlength, hgot⟩ := fileRead_got hreadable hat hn hread
      rw [h.pcb] at hnext hothers
      have hvalue : v.toInt.toNat = (w.got v).length := by
        rw [Int32.le_iff_toInt_le, Int32.toInt_zero] at hn
        rw [hlength, fs.contents_length]
        omega
      refine ⟨?_, hstreams.set h.lt hothers hindex fun _ _ => ?_⟩
      · rw [Os.openFiles_set h.live h.lt hge hlt hothers hindex, hnext.stream, h.runs, hvalue]
        exact .reads htable hlength hgot
      · rw [hnext.inode_eq]
        exact ⟨hreadable, hnext.filePos ▸ hnext.le⟩

/-- A `read` of the directory. -/
theorem readsDirectory (h : Caller fs o esp p entry) (hstreams : StreamsReady fs o)
    {fd nbytes v : Int32} {buf : Option Buf} {w : Written} (hn : 0 ≤ nbytes)
    (htable : (o.openFiles fs).table p fd.toInt.toNat = some .directory)
    (hread : dirRead fs stale buf nbytes o.io = .returned v w io') :
    CallStep fs o (.reads fd.toInt.toNat nbytes.toInt.toNat (w.got v)) io' := by
  obtain ⟨hlast, hentry⟩ := dirRead_answer hread
  obtain ⟨hfds, hreset, hnext⟩ := dirRead_index hread
  have hpcbs : ∀ addr fd, (io'.kernel.pcb addr).fdArray fd = (o.proc.kernel.pcb addr).fdArray fd :=
    fun addr fd => congrFun (congrFun hfds addr) fd
  have hstate : (o.setIo io').openFiles fs =
      { o.openFiles fs with listed := io'.fileIndex.toNat } := by
    unfold Os.openFiles Os.setIo
    simp only [hpcbs]
  have hle := hstreams.index
  by_cases hend : o.fileIndex = fs.numDentries
  · have hzero : io'.fileIndex.toNat = 0 := by rw [hreset hend]; rfl
    refine ⟨?_, hstreams.same hfds (by omega)⟩
    have hv := hlast hend
    have hnone : w.got v = [] := by
      rw [hv, Written.got]
      cases w.buf with
      | none => rfl
      | some b => rfl
    rw [h.runs, hstate, hzero, hnone]
    refine .listsEnd htable ?_
    rw [Image.disk, List.length_map, List.length_range]
    exact congrArg UInt32.toNat hend
  · have hlt : o.fileIndex < fs.numDentries := by
      have hne : o.fileIndex.toNat ≠ fs.numDentries.toNat := fun heq =>
        hend (UInt32.toNat_inj.mp heq)
      rw [UInt32.lt_iff_toNat_lt]
      omega
    have hlt' := UInt32.lt_iff_toNat_lt.mp hlt
    have hmax := fs.numDentries.toNat_lt
    have hone : (1 : UInt32).toNat = 1 := rfl
    have hindex : io'.fileIndex.toNat = o.fileIndex.toNat + 1 := by
      have hsum := congrArg UInt32.toNat (hnext hlt)
      rw [UInt32.toNat_add, hone, Nat.mod_eq_of_lt (by
        have hio : o.io.fileIndex = o.fileIndex := rfl
        rw [hio]
        omega)] at hsum
      exact hsum
    refine ⟨?_, hstreams.same hfds (by omega)⟩
    rw [h.runs, hstate, hindex]
    have hname : fs.disk.names[(o.openFiles fs).listed]? =
        some (fs.entryName o.fileIndex.toNat) := by
      have hlisted : (o.openFiles fs).listed = o.fileIndex.toNat := rfl
      rw [hlisted, Image.disk, List.getElem?_map, List.getElem?_range hlt']
      rfl
    refine .lists htable hname fun hn32 => ?_
    have h32 : (32 : Int32).toInt = 32 := rfl
    have hnbytes : nbytes ≤ 32 := by
      rw [Int32.le_iff_toInt_le, h32]
      omega
    exact (hentry hlt hn (.inr hnbytes)).got hn

/-- **`read`.** -/
theorem reads (h : Caller fs o esp p entry) (hstreams : StreamsReady fs o) {fd nbytes : Int32}
    {buf : Option Buf} (hseen : (FileCall.reads fd buf nbytes).Seen fs stale esp o.io a io') :
    CallStep fs o a io' := by
  cases hseen with
  | @reads _ _ v _ w _ hn hread =>
      by_cases hrefused : FdRefused o.io (getCurrPcb esp) 1 fd
      · rw [readCall_of_refused hrefused] at hread
        cases hread
        refine hstreams.callStep rfl rfl (.readsElse (.inl ?_))
        rw [h.runs]
        by_cases hin : 2 ≤ fd.toInt.toNat ∧ fd.toInt.toNat < 8
        · rw [h.table hin.1 hin.2]
          refine streamOf_free ?_
          rw [FdRefused, h.pcb, Int32.lt_iff_toInt_lt, ge_iff_le, Int32.le_iff_toInt_le] at hrefused
          have hzero := Int32.toInt_zero
          have height : (8 : Int32).toInt = 8 := rfl
          rcases hrefused with hneg | hlarge | rfl | hfree
          · omega
          · omega
          · exact absurd hin (by decide)
          · exact hfree
        · exact o.openFiles_neg fun hall => hin hall.2
      · have hmatch := h.descriptors
        rw [← h.pcb] at hmatch
        obtain ⟨table, fn, hslot, hfn⟩ := hmatch.readSlot hrefused
        obtain ⟨hlt, -, -, hflags⟩ := fd_of_not_refused hrefused
        rw [readCall_of_slot hrefused hslot hfn] at hread
        rw [h.pcb] at hslot hflags
        have helse : fn ≠ .fileRead → fn ≠ .dirRead →
            ((o.openFiles fs).table p fd.toInt.toNat = none ∨
              (o.openFiles fs).table p fd.toInt.toNat = some .clock) →
            CallStep fs o (.reads fd.toInt.toNat nbytes.toInt.toNat (w.got v)) io' := by
          intro hfile hdir htable
          have hsame := fn.call_elsewhere hfile hdir fs stale esp fd nbytes buf o.io
          rw [hread] at hsame
          refine hstreams.callStep hsame.1 hsame.2 (.readsElse ?_)
          rwa [h.runs]
        by_cases hge : 2 ≤ fd.toInt.toNat
        · have htable := h.table hge hlt
          rcases h.descriptors.stream_cases hge hlt with
            ⟨hfree, -⟩ | ⟨-, ⟨hptr, hs⟩ | ⟨hptr, hs⟩ | ⟨hptr, hs⟩⟩
          · exact absurd hfree hflags
          · rw [hptr] at hslot
            cases hslot
            cases hfn
            exact helse (by decide) (by decide) (.inr (htable.trans hs))
          · rw [hptr] at hslot
            cases hslot
            cases hfn
            exact h.readsDirectory hstreams hn (htable.trans hs) hread
          · rw [hptr] at hslot
            cases hslot
            cases hfn
            exact h.readsFile hstreams hn hge hlt hflags hptr hread
        · have hlow : fd.toInt.toNat = 0 ∨ fd.toInt.toNat = 1 := by omega
          have hnone : (o.openFiles fs).table p fd.toInt.toNat = none :=
            o.openFiles_neg fun hall => hge hall.2.1
          have hfn' : fn = .terminalRead := by
            rcases hlow with hzero | hone
            · rw [hzero, h.descriptors.stdin.1] at hslot
              cases hslot
              cases hfn
              rfl
            · rw [hone, h.descriptors.stdout.1] at hslot
              cases hslot
              cases hfn
          exact helse (by rw [hfn']; decide) (by rw [hfn']; decide) (.inl hnone)

end Caller

theorem Os.step_call {c : FileCall} (hstep : o.step fs (.call c stale esp) = some o') :
    o.proc.live ≠ [] ∧ OnKernelStack o.proc.kernel esp ∧
      ∃ v io, c.run fs stale (fun _ io => io) esp o.io = .returned v () io ∧ o' = o.setIo io := by
  rw [Os.step] at hstep
  split at hstep
  case isFalse => cases hstep
  case isTrue hguard =>
    split at hstep
    case h_1 v r io hreply =>
      cases hstep
      exact ⟨hguard.1, hguard.2, v, io, hreply, rfl⟩
    case h_2 => cases hstep

/-- No read asks for a negative number of bytes. -/
def OsEvent.AsksNonneg : OsEvent → Prop
  | .call (.reads _ _ nbytes) _ _ => 0 ≤ nbytes
  | _ => True

/-- Every event is something for the open files. -/
theorem Os.exists_sees {e : OsEvent} (hstep : o.step fs e = some o') (he : e.AsksNonneg) :
    ∃ l, o.Sees fs l o' := by
  by_cases hcall : e.isCall = false
  · by_cases hlive : ∀ p ∈ o.proc.live, p ∈ o'.proc.live
    · exact ⟨_, .silent hstep hcall hlive⟩
    · push Not at hlive
      obtain ⟨p, hp, hend⟩ := hlive
      exact ⟨_, .ends hstep hp hend⟩
  · cases e with
    | call c stale esp =>
        obtain ⟨-, -, v, io, hrun, rfl⟩ := Os.step_call hstep
        cases c with
        | opens filename =>
            by_cases hv : v = -1
            · exact ⟨_, .call hstep (.refuses (hv ▸ hrun))⟩
            · exact ⟨_, .call hstep (.opens hv hrun)⟩
        | closes fd => exact ⟨_, .call hstep (.closes hrun)⟩
        | reads fd buf nbytes =>
            rw [FileCall.run] at hrun
            cases hread : readCall fs stale (fun _ io => io) esp fd buf nbytes o.io with
            | returned v' w io' =>
                rw [hread] at hrun
                cases hrun
                exact ⟨_, .call hstep (.reads he hread)⟩
            | waiting | nullCall | fault =>
                rw [hread] at hrun
                cases hrun
        | writes fd buf nbytes => exact ⟨_, .call hstep (.writes hrun)⟩
    | _ => exact absurd rfl hcall

theorem Os.exists_shows {es : List OsEvent} (hrun : o.Steps fs es o')
    (hes : ∀ e ∈ es, e.AsksNonneg) : ∃ ls, ls.length = es.length ∧ o.Shows fs ls o' := by
  induction hrun with
  | nil => exact ⟨[], rfl, .nil _⟩
  | snoc _ last ih =>
      obtain ⟨ls, hlength, hshows⟩ := ih fun e he => hes e (List.mem_append_left _ he)
      obtain ⟨l, hsees⟩ := Os.exists_sees last (hes _ (List.mem_concat_self ..))
      exact ⟨ls ++ [l], by simp [hlength], hshows.snoc hsees⟩

/-- **A call** is a step of the open files. -/
theorem StreamsReady.call (h : StreamsReady fs o) (hready : OsReady fs o) (hdisk : ReadableDisk fs)
    {c : FileCall} (hstep : o.step fs (.call c stale esp) = some o')
    (hseen : c.Seen fs stale esp o.io a o'.io) :
    (o.openFiles fs).Step fs.disk (.act o.proc.kernel.runningPid a) (o'.openFiles fs) ∧
      StreamsReady fs o' := by
  obtain ⟨hlive, hesp, v, io, -, rfl⟩ := Os.step_call hstep
  obtain ⟨entry, hcaller⟩ := hready.caller hlive hesp
  have hcall : CallStep fs o a io := by
    cases c with
    | opens filename => exact hcaller.opens h hdisk hseen
    | closes fd => exact hcaller.closes h hseen
    | reads fd buf nbytes => exact hcaller.reads h hseen
    | writes fd buf nbytes => exact hcaller.writes h hseen
  exact ⟨hcall.step, hcall.ready⟩

/-- The descriptors of a process after other events: those of before, or those of a new process. -/
structure KeepsDescriptorTables (s s' : ProcState) : Prop where
  old : ∀ q ∈ s.live, q ∈ s'.live → s'.kernel.pcb (pcbAddr q) = s.kernel.pcb (pcbAddr q)
  new : ∀ q, q ∉ s.live → q ∈ s'.live →
    ∃ old, (s'.kernel.pcb (pcbAddr q)).fdArray = initialFdArray old

theorem TidyMachine.keepsTables {s s' : ProcState} (h : TidyMachine s) {e : MachineEvent}
    (hstep : s.machineStep fs e = some s') : KeepsDescriptorTables s s' := by
  refine ⟨fun q hq hq' => h.samePcb hstep hq hq', fun q hq hq' => ?_⟩
  cases machineStep_done hstep with
  | proc hproc =>
      obtain ⟨σ, -, hdone⟩ := h.proc_done hproc
      exact hdone.fresh hq hq'
  | key | write | plantReturn | takeLine | vidmap | store => exact absurd hq' hq

/-- Events that are not of the processes keep all PCBs of processes. -/
theorem TidyMachine.quiet_pcbs {s s' : ProcState} (h : TidyMachine s) {es : List MachineEvent}
    (hrun : s.MachineSteps fs es s') (hes : ∀ e ∈ es, (KernelEvent.machine e).isProc = false) :
    TidyMachine s' ∧ s'.live = s.live ∧
      ∀ q ∈ s.live, s'.kernel.pcb (pcbAddr q) = s.kernel.pcb (pcbAddr q) := by
  induction hrun with
  | nil => exact ⟨h, rfl, fun _ _ => rfl⟩
  | @snoc s₁ s₂ es e _ last ih =>
      obtain ⟨htidy, hlive, hpcbs⟩ := ih fun e he => hes e (List.mem_append_left _ he)
      have hevent : s₁.kernelStep fs (.machine e) = some s₂ := last
      have hlive' := (htidy.quiet hevent (hes e (List.mem_concat_self ..))).2
      refine ⟨htidy.step last, hlive'.trans hlive, fun q hq => ?_⟩
      have hq₁ : q ∈ s₁.live := hlive.symm ▸ hq
      exact (htidy.samePcb last hq₁ (hlive'.symm ▸ hq₁)).trans (hpcbs q hq)

/-- **Events that are no calls** change the descriptors of new processes only. -/
theorem OsReady.keepsTables (hready : OsReady fs o) {e : OsEvent} (hstep : o.step fs e = some o')
    (hcall : e.isCall = false) :
    KeepsDescriptorTables o.proc o'.proc ∧ o'.fileIndex = o.fileIndex := by
  cases Os.step_done hstep with
  | call => cases hcall
  | tick r htick =>
      have hmachine : o.proc.machineStep fs (.proc (.tick _ _ _ _)) = some _ := htick
      exact ⟨hready.tidy.keepsTables hmachine, rfl⟩
  | @machine _ es s r he htick hbrief hrun =>
      refine ⟨?_, rfl⟩
      cases hrun with
      | nil => exact ⟨fun _ _ _ => rfl, fun q hq hq' => absurd hq' hq⟩
      | @snoc s₁ _ es e' before last =>
          rw [List.map_append, List.map_singleton, Brief, List.dropLast_concat] at hbrief
          obtain ⟨htidy, hlive, hpcbs⟩ := hready.tidy.quiet_pcbs before fun e he =>
            hbrief _ (List.mem_map_of_mem he)
          obtain ⟨hold, hnew⟩ := htidy.keepsTables last
          rw [hlive] at hold hnew
          exact ⟨fun q hq hq' => (hold q hq hq').trans (hpcbs q hq), hnew⟩

theorem StreamsReady.keeps (h : StreamsReady fs o) (hkeeps : KeepsDescriptorTables o.proc o'.proc)
    (hindex : o'.fileIndex = o.fileIndex) : StreamsReady fs o' := by
  refine ⟨hindex ▸ h.index, fun q hq' fd hge hlt hflags => ?_⟩
  by_cases hq : q ∈ o.proc.live
  · rw [hkeeps.old q hq hq'] at hflags ⊢
    exact h.files q hq fd hge hlt hflags
  · obtain ⟨old, hfds⟩ := hkeeps.new q hq hq'
    rw [hfds, initialFdArray_free old hge hlt] at hflags
    exact absurd rfl hflags

/-- The streams of the processes that stay alive stay, and a new process has none. -/
theorem KeepsDescriptorTables.openFiles (hkeeps : KeepsDescriptorTables o.proc o'.proc)
    (p fd : Nat) : (o'.openFiles fs).table p fd =
      if p ∈ o'.proc.live then (o.openFiles fs).table p fd else none := by
  by_cases hp' : p ∈ o'.proc.live
  · rw [if_pos hp']
    by_cases hin : 2 ≤ fd ∧ fd < 8
    · rw [o'.openFiles_pos ⟨hp', hin⟩]
      by_cases hp : p ∈ o.proc.live
      · rw [o.openFiles_pos ⟨hp, hin⟩]
        exact congrArg (fun pcb => streamOf fs (pcb.fdArray fd)) (hkeeps.old p hp hp')
      · rw [o.openFiles_neg fun hall => hp hall.1]
        obtain ⟨old, hfds⟩ := hkeeps.new p hp hp'
        have hfree : o'.io.fds (pcbAddr p) fd = Fd.free := by
          rw [Io.fds]
          exact (congrFun hfds fd).trans (initialFdArray_free old hin.1 hin.2)
        rw [hfree]
        exact streamOf_free rfl
    · rw [o'.openFiles_neg fun hall => hin hall.2, o.openFiles_neg fun hall => hin hall.2]
  · rw [if_neg hp', o'.openFiles_neg fun hall => hp' hall.1]

/-- **One event of the system is one step of the open files.** -/
theorem StreamsReady.sees (h : StreamsReady fs o) (hready : OsReady fs o) (hdisk : ReadableDisk fs)
    {l : FileLabel} (hsees : o.Sees fs l o') :
    (o.openFiles fs).Step fs.disk l (o'.openFiles fs) ∧ StreamsReady fs o' ∧ OsReady fs o' := by
  cases hsees with
  | call hstep hseen =>
      obtain ⟨hcall, hstreams⟩ := h.call hready hdisk hstep hseen
      exact ⟨hcall, hstreams, hready.step hstep⟩
  | @ends e p _ hstep hp hend =>
      have hcall : e.isCall = false := by
        cases e with
        | call c stale esp =>
            obtain ⟨-, -, v, io, -, rfl⟩ := Os.step_call hstep
            exact absurd hp hend
        | _ => rfl
      obtain ⟨hkeeps, hindex⟩ := hready.keepsTables hstep hcall
      refine ⟨?_, h.keeps hkeeps hindex, hready.step hstep⟩
      have hothers : ∀ q ∈ o.proc.live, q ≠ p → q ∈ o'.proc.live := by
        intro q hq hne
        have hidle : ∀ {r}, r ∈ o.proc.live → r ≠ o.proc.kernel.runningPid → r ∈ o'.proc.live :=
          fun hr hne => (hready.idle hstep hr hne).live
        by_cases hruns : q = o.proc.kernel.runningPid
        · exact absurd (hidle hp (hruns ▸ hne.symm)) hend
        · exact hidle hq hruns
      have hstate : o'.openFiles fs = (o.openFiles fs).drop p := by
        have htable : (o'.openFiles fs).table = ((o.openFiles fs).drop p).table := by
          funext q fd
          rw [hkeeps.openFiles]
          by_cases hq : q = p
          · rw [hq, if_neg hend, OpenFiles.drop_self]
          · rw [OpenFiles.drop_of_ne _ hq]
            split
            case isTrue => rfl
            case isFalse hdead =>
              exact (o.openFiles_neg fun hall => hdead (hothers q hall.1 hq)).symm
        exact OpenFiles.ext htable (congrArg UInt32.toNat hindex)
      rw [hstate]
      exact .ends
  | @silent e _ hstep hcall hlive =>
      obtain ⟨hkeeps, hindex⟩ := hready.keepsTables hstep hcall
      refine ⟨?_, h.keeps hkeeps hindex, hready.step hstep⟩
      have hstate : o'.openFiles fs = o.openFiles fs := by
        refine OpenFiles.ext ?_ (congrArg UInt32.toNat hindex)
        funext q fd
        rw [hkeeps.openFiles]
        split
        case isTrue => rfl
        case isFalse hdead => exact (o.openFiles_neg fun hall => hdead (hlive q hall.1)).symm
      rw [hstate]
      exact .silent

end Step

/-! ## Runs -/

section Reachable

variable {fs : Image} {m : PowerOn} {master slave : Pic8259} {index : UInt8} {reg : UInt8 → UInt8}
  {ls ls' : List FileLabel} {o o₁ o' : Os}

theorem streamsReady_boot (fs : Image) (m : PowerOn) (master slave : Pic8259) (index : UInt8)
    (reg : UInt8 → UInt8) : StreamsReady fs (.boot m master slave index reg) :=
  ⟨Nat.zero_le _, by rintro p ⟨⟩⟩

theorem StreamsReady.run (h : StreamsReady fs o) (hready : OsReady fs o) (hdisk : ReadableDisk fs)
    (hrun : o.Shows fs ls o') :
    (o.openFiles fs).Steps fs.disk ls (o'.openFiles fs) ∧ StreamsReady fs o' ∧ OsReady fs o' := by
  induction hrun with
  | nil => exact ⟨.nil _, h, hready⟩
  | snoc _ last ih =>
      obtain ⟨hrun, hstreams, hready⟩ := ih
      obtain ⟨hstep, hlater⟩ := hstreams.sees hready hdisk last
      exact ⟨.snoc hrun hstep, hlater⟩

theorem openFiles_boot (fs : Image) (m : PowerOn) (master slave : Pic8259) (index : UInt8)
    (reg : UInt8 → UInt8) : (Os.boot m master slave index reg).openFiles fs = .empty :=
  OpenFiles.ext (funext fun _ => funext fun _ => Os.openFiles_neg _ fun hall =>
    List.not_mem_nil hall.1) rfl

end Reachable

/-! ## The first shell reads its own program -/

section Shell

variable {fs : Image} {o : Os}

/-- The first shell runs. -/
structure ShellAlone (o : Os) : Prop where
  live : o.proc.live = [0]
  ready : OsReady shellImage o
  streams : StreamsReady shellImage o

theorem readableDisk_shellImage : ReadableDisk shellImage := by
  constructor
  · unfold TypesBelow
    decide
  · intro e he _
    have hzero : e = 0 := by
      have hone : shellImage.numDentries.toNat = 1 := by decide
      omega
    subst hzero
    exact ⟨by decide, by decide⟩

theorem exists_shell_alone : ∃ ls o,
    (Os.boot .blank (I8259.chip 0xFB) (I8259.chip 0xFF) 0 fun _ => 0).Shows shellImage ls o ∧
      ShellAlone o ∧ (o.openFiles shellImage).table 0 = fun _ => none := by
  obtain ⟨s, hrun, hlive⟩ := exists_firstShell .blank
  have hready := osReady_boot shellImage (m := .blank) (by decide) (I8259.chip 0xFB)
    (I8259.chip 0xFF) 0 fun _ => 0
  have hstreams := streamsReady_boot shellImage .blank (I8259.chip 0xFB) (I8259.chip 0xFF) 0
    fun _ => 0
  have hempty := openFiles_boot shellImage .blank (I8259.chip 0xFB) (I8259.chip 0xFF) 0 fun _ => 0
  have hproc : (Os.boot .blank (I8259.chip 0xFB) (I8259.chip 0xFF) 0 fun _ => 0).proc =
      .boot .blank := rfl
  generalize Os.boot .blank (I8259.chip 0xFB) (I8259.chip 0xFF) 0 (fun _ => 0) = b at *
  have hexec : b.proc.machineStep shellImage
      (.proc (.execute shellCString (fun _ => 0) 0 0)) = some s := by
    rw [hproc]
    exact hrun.of_single
  have hstep : b.step shellImage (.machine (.proc (.execute shellCString (fun _ => 0) 0 0))) =
      some { b with proc := s } := congrArg (Option.map fun s => ({ b with proc := s } : Os)) hexec
  obtain ⟨o, ho⟩ : ∃ o : Os, { b with proc := s } = o := ⟨_, rfl⟩
  rw [ho] at hstep
  have hlive' : o.proc.live = [0] := by
    rw [← ho]
    exact hlive
  have hsees : b.Sees shellImage .silent o := .silent hstep rfl fun p hp => by
    rw [hproc] at hp
    cases hp
  obtain ⟨hfiles, hstreams', hready'⟩ := hstreams.sees hready readableDisk_shellImage hsees
  refine ⟨_, o, .single hsees, ⟨hlive', hready', hstreams'⟩, ?_⟩
  rw [hempty] at hfiles
  generalize o.openFiles shellImage = s₁ at hfiles
  cases hfiles
  rfl

theorem ShellAlone.caller (h : ShellAlone o) : ∃ entry,
    Caller shellImage o o.proc.kernel.tssEsp0 0 entry := by
  have hlive : o.proc.live ≠ [] := by
    rw [h.live]
    exact List.cons_ne_nil 0 []
  have hruns := (h.ready.tidy.running hlive).mem
  rw [h.live, List.mem_singleton] at hruns
  have hesp : OnKernelStack o.proc.kernel o.proc.kernel.tssEsp0 := rfl
  obtain ⟨entry, hcaller⟩ := h.ready.caller hlive hesp
  rw [hruns] at hcaller
  exact ⟨entry, hcaller⟩

/-- A call of the shell that returns. -/
theorem ShellAlone.calls (h : ShellAlone o) {c : FileCall} {stale : Buf} {a : FileAct} {v : Int32}
    {io : Io}
    (hrun : c.run shellImage stale (fun _ io => io) o.proc.kernel.tssEsp0 o.io = .returned v () io)
    (hseen : c.Seen shellImage stale o.proc.kernel.tssEsp0 o.io a io) :
    o.Sees shellImage (.act 0 a) (o.setIo io) ∧ ShellAlone (o.setIo io) ∧
      (o.openFiles shellImage).Step shellImage.disk (.act 0 a)
        ((o.setIo io).openFiles shellImage) := by
  obtain ⟨entry, hcaller⟩ := h.caller
  have hstep := Os.step_of_call (List.ne_nil_of_mem hcaller.live) rfl hrun
  have hsees : o.Sees shellImage (.act o.proc.kernel.runningPid a) (o.setIo io) :=
    .call hstep hseen
  rw [hcaller.runs] at hsees
  obtain ⟨hfiles, hstreams, hready⟩ := h.streams.sees h.ready readableDisk_shellImage hsees
  exact ⟨hsees, ⟨h.live, hready, hstreams⟩, hfiles⟩

/-- The shell reads four bytes. -/
theorem ShellAlone.reads (h : ShellAlone o) {pos : Nat}
    (hat : AtPosition shellImage 0 (o.io.fds (pcbAddr 0) 2) pos) :
    ∃ o' got, o.Sees shellImage (.act 0 (.reads 2 4 got)) o' ∧ ShellAlone o' ∧
      got.length = 4 - pos ∧
      AtPosition shellImage 0 (o'.io.fds (pcbAddr 0) 2) (pos + got.length) := by
  obtain ⟨entry, hcaller⟩ := h.caller
  have htwo : (o.openFiles shellImage).table 0 2 = streamOf shellImage (o.io.fds (pcbAddr 0) 2) :=
    hcaller.table (by decide) (by decide)
  have htable := htwo.trans hat.stream
  have hfile : ReadableFile shellImage 0 := ⟨by decide, by decide⟩
  rw [← hcaller.pcb] at hat
  have hnumber : OpenedNumber 2 := ⟨2, by decide, by decide, rfl⟩
  have hfour : (0 : Int32) ≤ 4 := by decide
  obtain ⟨v, w, io, hread, hv, hnext, -⟩ := readCall_at hfile hnumber hat (fun _ => 0)
    (fun _ io => io) (fun _ => 0) hfour
  have hrun : (FileCall.reads 2 (some fun _ => 0) 4).run shellImage (fun _ => 0) (fun _ io => io)
      o.proc.kernel.tssEsp0 o.io = .returned v () io := by
    rw [FileCall.run, hread]
    rfl
  obtain ⟨hsees, halone, hstep⟩ := h.calls hrun (.reads (by decide) hread)
  obtain ⟨-, hgot⟩ := hstep.stream htable ⟨nofun, nofun⟩
  have hlength := (hgot _ _ rfl).1
  have hsize : (shellImage.fileLength 0).toNat = 4 := by decide
  have hint : (4 : Int32).toInt = 4 := rfl
  rw [Image.contents_length, hsize, hint] at hlength
  rw [hcaller.pcb] at hnext
  rw [hsize, hint] at hv
  have hle := hat.le
  have hvalue : v.toInt.toNat = (w.got v).length := by omega
  rw [hvalue] at hnext
  exact ⟨_, _, hsees, halone, by omega, hnext⟩

/-- The name of the shell. -/
def shellName : List UInt8 := [0x73, 0x68, 0x65, 0x6c, 0x6c]

/-- The shell opens its own program and reads it. -/
theorem exists_reading_shell : ∃ ls o o₁ o₂ got,
    (Os.boot .blank (I8259.chip 0xFB) (I8259.chip 0xFF) 0 fun _ => 0).Shows shellImage ls o ∧
      o.Sees shellImage (.act 0 (.opens (some shellName) (some 2))) o₁ ∧
      o₁.Shows shellImage [.act 0 (.reads 2 4 got), .act 0 (.reads 2 4 [])] o₂ := by
  obtain ⟨ls, o, hrun, halone, hnone⟩ := exists_shell_alone
  obtain ⟨entry, hcaller⟩ := halone.caller
  have hlookup : shellImage.lookup (Buf.ofList shellName).cstring = some 0 := by decide
  have hflags : (o.io.fds (pcbAddr 0) 2).flags = 0 := by
    rw [← hcaller.descriptors.stream_none_iff (by decide) (by decide),
      ← hcaller.table (by decide) (by decide), hnone]
  have htakes : OpenTakes shellImage (some (Buf.ofList shellName)) (o.io.fds (pcbAddr 0)) 2 0 :=
    { name := ⟨_, rfl, by decide, by decide, hlookup⟩
      type := by decide
      ge := Nat.le_refl 2
      lt := by decide
      free := hflags
      least := fun j hge hlt => absurd hge (Nat.not_le_of_lt hlt) }
  rw [← hcaller.pcb] at htakes
  obtain ⟨io, hopen, -, -⟩ := openCall_takes (fun _ => 0) htakes
  obtain ⟨hsees, halone₁, -⟩ := halone.calls (c := .opens (some (Buf.ofList shellName))) hopen
    (.opens (by decide) hopen)
  obtain ⟨-, hat⟩ := atPosition_of_open hlookup (by decide) hopen (by decide)
  rw [hcaller.pcb] at hat
  obtain ⟨o₁, got, hread₁, halone₂, hlength₁, hat₁⟩ := halone₁.reads hat
  obtain ⟨o₂, got', hread₂, -, hlength₂, -⟩ := halone₂.reads hat₁
  have hgot : got' = [] := List.length_eq_zero_iff.mp (by omega)
  rw [hgot] at hread₂
  exact ⟨ls, o, _, o₂, got, hrun, hsees, (Run.single hread₁).snoc hread₂⟩

end Shell

/-! ## Reachable states -/

section Reachable

variable {fs : Image} {m : PowerOn} {master slave : Pic8259} {index : UInt8} {reg : UInt8 → UInt8}
  {ls ls' : List FileLabel} {o o₁ o' : Os}

/-- **The system refines open files**: what the processes see of `open`, `close`, `read` and
`write` in a run of the system, they see in a run of `OpenFiles` from no open file on. -/
theorem open_files_of_run (hcursor : m.CursorOnScreen) (hdisk : ReadableDisk fs)
    (hrun : (Os.boot m master slave index reg).Shows fs ls o) :
    OpenFiles.empty.Steps fs.disk ls (o.openFiles fs) := by
  have hsteps := ((streamsReady_boot fs m master slave index reg).run
    (osReady_boot fs hcursor master slave index reg) hdisk hrun).1
  rwa [openFiles_boot] at hsteps

theorem open_files_of_run_shell : ∃ ls got s, OpenFiles.empty.Steps shellImage.disk
    ((ls ++ [.act 0 (.opens (some shellName) (some 2))]) ++
      [.act 0 (.reads 2 4 got), .act 0 (.reads 2 4 [])]) s := by
  obtain ⟨ls, o, o₁, o₂, got, hrun, hopen, hmore⟩ := exists_reading_shell
  exact ⟨ls, got, _, open_files_of_run (by decide) readableDisk_shellImage
    ((hrun.snoc hopen).append hmore)⟩

/-- **A process reads the file that it has opened**, whatever the others do: what it gets from the
descriptor is the file from its first byte on, and all of it when a read gets nothing. -/
theorem file_contents_of_run (hcursor : m.CursorOnScreen) (hdisk : ReadableDisk fs)
    (hrun : (Os.boot m master slave index reg).Shows fs ls o) {p fd : Nat}
    {name bytes : List UInt8} (hname : fs.disk.find name = some (.file 0 bytes))
    (hopen : o.Sees fs (.act p (.opens (some name) (some fd))) o₁)
    (hmore : o₁.Shows fs ls' o') (hkeeps : ∀ l ∈ ls', l.Keeps p fd)
    (hreads : ReadsFit p fd bytes.length 0 ls' ∨
      ∃ chunk, chunk ∣ 4096 ∧ ∀ n got, .act p (.reads fd n got) ∈ ls' → n = chunk) :
    bytesDelivered p fd ls' = bytes.take (bytesDelivered p fd ls').length ∧
      ∀ before n, 0 < n → ls' = before ++ [.act p (.reads fd n [])] →
        bytesDelivered p fd ls' = bytes := by
  obtain ⟨-, hstreams, hready⟩ := (streamsReady_boot fs m master slave index reg).run
    (osReady_boot fs hcursor master slave index reg) hdisk hrun
  obtain ⟨hopened, hstreams₁, hready₁⟩ := hstreams.sees hready hdisk hopen
  have hmore' := (hstreams₁.run hready₁ hdisk hmore).1
  have htable : (o₁.openFiles fs).table p fd = some (.file 0 bytes) := by
    generalize o₁.openFiles fs = s at hopened
    cases hopened with
    | opens hfind =>
        rw [hname] at hfind
        cases hfind
        exact OpenFiles.set_self _ _ _ _
  have hfits : ReadsFit p fd bytes.length 0 ls' := by
    rcases hreads with hfits | ⟨chunk, hdvd, hchunk⟩
    · exact hfits
    · exact readsFit_of_chunk hmore' htable hkeeps hdvd hchunk
  refine ⟨(contents_of_run hmore' htable hkeeps hfits).2, ?_⟩
  rintro before n hn rfl
  have hbefore := contents_at_end hmore' htable (fun l hl => hkeeps l (List.mem_append_left _ hl))
    hfits.before hn
  rw [bytesDelivered_concat, FileLabel.delivered_self, List.append_nil]
  exact hbefore

/-- The program of the shell in the image has four bytes. -/
theorem file_contents_of_run_shell : ∃ ls : List FileLabel, ls.length = 2 ∧
    bytesDelivered 0 2 ls = [0x7F, 0x45, 0x4C, 0x46] := by
  obtain ⟨ls, o, o₁, o₂, got, hrun, hopen, hmore⟩ := exists_reading_shell
  have hname : shellImage.disk.find shellName = some (.file 0 [0x7F, 0x45, 0x4C, 0x46]) := by decide
  obtain ⟨-, hall⟩ := file_contents_of_run (by decide) readableDisk_shellImage hrun hname hopen
    hmore (by
      intro l hl
      simp only [List.mem_cons, List.not_mem_nil, or_false] at hl
      rcases hl with rfl | rfl
      · exact ⟨nofun, nofun⟩
      · exact ⟨nofun, nofun⟩)
    (.inr ⟨4, by decide, fun n got' hmem => by simp at hmem; omega⟩)
  exact ⟨_, rfl, hall [.act 0 (.reads 2 4 got)] 4 (by decide) rfl⟩

end Reachable

end JuddOS
