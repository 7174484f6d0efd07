import JuddOS.ReadBounds

/-!
# Listing a directory

The position of `dir_read` is `file_index`, which all directory descriptors share and neither `open`
nor `close` touches.  A listing is therefore in order only when the shared counter happens to be
where the descriptor is.

* `dirRead_answer`: what a read of a directory gives.
* `listings_of_run`: in a run whose reads find the counter at their own position, every descriptor
  lists the entries in order.
-/

namespace JuddOS

open Image Support

/-- What a read of a directory was given and what it gave back. -/
structure Answer where
  nbytes : Int32
  value : Int32
  buf : Option Buf

/-- The answer is a name, or as much of it as was asked for. -/
structure Answer.Gives (a : Answer) (name : List UInt8) : Prop where
  value : a.value.toInt = min (name.length : Int) a.nbytes.toInt
  bytes : ∃ bytes, a.buf = some bytes ∧
    ∀ j : Nat, (j : Int) < a.value.toInt → bytes j = name.getD j 0

/-- The answer number `i` of a listing: entry `i`, or 0 after the last one. -/
def Answer.Lists (fs : Image) (i : Nat) (a : Answer) : Prop :=
  if i < fs.numDentries.toNat then a.Gives (fs.entryName i) else a.value = 0

/-- A state with the history of the directory descriptors: the answers that each one, given by the
address of its PCB and its number, has had since it was opened, oldest first. -/
structure Listings where
  io : Io
  answers : Nat → Nat → List Answer

namespace Listings

/-- The descriptor has listed the entries in order. -/
def InOrder (fs : Image) (s : Listings) (addr fd : Nat) : Prop :=
  ∀ i (h : i < (s.answers addr fd).length), (s.answers addr fd)[i].Lists fs i

/-- Change the history of one descriptor. -/
def record (s : Listings) (addr fd : Nat) (f : List Answer → List Answer) (io : Io) : Listings where
  io := io
  answers := Function.update s.answers addr
    (Function.update (s.answers addr) fd (f (s.answers addr fd)))

@[simp] theorem record_self (s : Listings) (addr fd : Nat) (f : List Answer → List Answer)
    (io : Io) : (s.record addr fd f io).answers addr fd = f (s.answers addr fd) := by
  simp [record]

theorem record_of_ne (s : Listings) {addr fd addr' fd' : Nat} (f : List Answer → List Answer)
    (io : Io) (h : addr' ≠ addr ∨ fd' ≠ fd) :
    (s.record addr fd f io).answers addr' fd' = s.answers addr' fd' := by
  by_cases haddr : addr' = addr
  · have hfd : fd' ≠ fd := h.resolve_left fun hne => hne haddr
    simp [record, haddr, hfd]
  · simp [record, haddr]

/-- A state in which no descriptor has been read. -/
def start (io : Io) : Listings where
  io := io
  answers _ _ := []

end Listings

/-- A call on a directory descriptor, or something else. -/
inductive ListingEvent
  | opens (esp : Nat) (filename : Option Buf)
  | closes (esp : Nat) (fd : Int32)
  | reads (esp : Nat) (fd : Int32) (buf : Option Buf) (nbytes : Int32)
  | other

/-- The process running on `esp` has the directory open on a descriptor. -/
def OpenDirectory (io : Io) (esp : Nat) (fd : Int32) : Prop :=
  ¬ FdRefused io (getCurrPcb esp) 1 fd ∧
    (io.fds (getCurrPcb esp) fd.toInt.toNat).fxnTblPtr = some .dir

/-- Processes open, close and read directory descriptors.  Whatever else happens leaves the shared
counter and the descriptors alone. -/
inductive ListingStep (fs : Image) : Listings → ListingEvent → Listings → Prop
  | failedOpen {s : Listings} {esp : Nat} {filename : Option Buf} {stale : Buf} {io' : Io}
      (h : openCall fs stale esp filename s.io = .returned (-1) () io') :
      ListingStep fs s (.opens esp filename) { s with io := io' }
  | opens {s : Listings} {esp : Nat} {filename : Option Buf} {stale : Buf} {v : Int32} {io' : Io}
      (hv : v ≠ -1) (h : openCall fs stale esp filename s.io = .returned v () io') :
      ListingStep fs s (.opens esp filename)
        (s.record (getCurrPcb esp) v.toInt.toNat (fun _ => []) io')
  | closes {s : Listings} {esp : Nat} {fd v : Int32} {io' : Io}
      (h : closeCall esp fd s.io = .returned v () io') :
      ListingStep fs s (.closes esp fd) { s with io := io' }
  | reads {s : Listings} {esp : Nat} {fd nbytes v : Int32} {buf : Option Buf} {stale : Buf}
      {interrupts : Nat → Io → Io} {w : Written} {io' : Io} (hdir : OpenDirectory s.io esp fd)
      (h : readCall fs stale interrupts esp fd buf nbytes s.io = .returned v w io') :
      ListingStep fs s (.reads esp fd buf nbytes)
        (s.record (getCurrPcb esp) fd.toInt.toNat (· ++ [⟨nbytes, v, w.buf⟩]) io')
  | other {s : Listings} {io' : Io} (hindex : io'.fileIndex = s.io.fileIndex)
      (hfds : io'.fds = s.io.fds) : ListingStep fs s .other { s with io := io' }

/-- The shared counter is where the descriptor is; and a name that fills its 32 bytes, which
`strlen` may run out of, is not asked for with more than 32. -/
structure AtOwnPosition (fs : Image) (s : Listings) (addr fd : Nat) (nbytes : Int32) : Prop where
  counter : s.io.fileIndex.toNat = min (s.answers addr fd).length fs.numDentries.toNat
  nonneg : 0 ≤ nbytes
  name : s.io.fileIndex < fs.numDentries →
    strlen (fs.bufAt (dentrySize + dentrySize * s.io.fileIndex.toNat)) ≤ filenameSize ∨ nbytes ≤ 32

/-- The condition on an event: a read finds the counter at its own position. -/
def ListingEvent.AtOwnPosition (fs : Image) (s : Listings) : ListingEvent → Prop
  | .reads esp fd _ nbytes => JuddOS.AtOwnPosition fs s (getCurrPcb esp) fd.toInt.toNat nbytes
  | _ => True

/-! ## One read -/

/-- The name of an entry in the words of `strlen`. -/
theorem entryName_length (fs : Image) (i : Nat) :
    (fs.entryName i).length = min filenameSize (strlen (fs.bufAt (dentrySize * (i + 1)))) := by
  have hlen := field_length (fs.bufAt (dentrySize * (i + 1))) (n := filenameSize) (by decide)
  unfold entryName
  rw [hlen]
  split <;> omega

theorem entryName_getD (fs : Image) {i j : Nat} (hj : j < (fs.entryName i).length) :
    (fs.entryName i).getD j 0 = fs.bufAt (dentrySize * (i + 1)) j := by
  have h := (field_getD hj).1
  rw [Nat.zero_add] at h
  exact h

/-- The value of `dir_read`: the smaller of the length and `nbytes`. -/
theorem copiedBytes_toInt {len : Nat} (hlen : len < dentrySize) (nbytes : Int32) :
    (if (UInt32.ofNat len).toInt32 > nbytes then nbytes else (UInt32.ofNat len).toInt32).toInt =
      min (len : Int) nbytes.toInt := by
  simp only [dentrySize] at hlen
  have hint : (UInt32.ofNat len).toInt32.toInt = len := by
    rw [toInt32_toInt, UInt32.toNat_ofNat', Nat.mod_eq_of_lt (by omega), if_pos (by omega)]
  by_cases hmore : (UInt32.ofNat len).toInt32 > nbytes
  · rw [if_pos hmore]
    rw [gt_iff_lt, Int32.lt_iff_toInt_lt, hint] at hmore
    omega
  · rw [if_neg hmore, hint]
    rw [gt_iff_lt, Int32.lt_iff_toInt_lt, hint] at hmore
    omega

/-- **A read of a directory**: at the end it starts over and gives 0, and otherwise it gives the
entry at the shared counter. -/
theorem dirRead_answer {fs : Image} {stale : Buf} {buf : Option Buf} {nbytes v : Int32} {io io' : Io}
    {w : Written} (h : dirRead fs stale buf nbytes io = .returned v w io') :
    (io.fileIndex = fs.numDentries → v = 0) ∧
      (io.fileIndex < fs.numDentries → 0 ≤ nbytes →
        strlen (fs.bufAt (dentrySize + dentrySize * io.fileIndex.toNat)) ≤ filenameSize ∨
          nbytes ≤ 32 →
        Answer.Gives ⟨nbytes, v, w.buf⟩ (fs.entryName io.fileIndex.toNat)) := by
  unfold dirRead at h
  by_cases hend : io.fileIndex = fs.numDentries
  · rw [if_pos hend] at h
    cases h
    refine ⟨fun _ => rfl, fun hlt => absurd hlt ?_⟩
    rw [hend]
    exact UInt32.lt_irrefl _
  rw [if_neg hend] at h
  refine ⟨fun heq => absurd heq hend, fun hlt hn hname => ?_⟩
  have hindex : ¬ io.fileIndex ≥ fs.numDentries := UInt32.not_le.mpr hlt
  unfold readDentryByIndex at h
  simp only [if_neg hindex, if_true] at h
  have hptr : dentrySize + dentrySize * io.fileIndex.toNat =
      dentrySize * (io.fileIndex.toNat + 1) := by
    simp only [dentrySize]
    omega
  rw [hptr] at h hname
  by_cases hover : fs.NameOverruns (dentrySize * (io.fileIndex.toNat + 1))
  · rw [if_pos hover] at h
    cases h
  rw [if_neg hover] at h
  unfold NameOverruns at hover
  rw [Nat.not_le] at hover
  -- The name is terminated inside the entry, so its copy has the same length.
  have hlen := copyDentry_strlen (clearDentry stale) hover
  have hbytes : ∀ j, j ≤ strlen (fs.bufAt (dentrySize * (io.fileIndex.toNat + 1))) →
      copyDentry (clearDentry stale) (fs.bufAt (dentrySize * (io.fileIndex.toNat + 1))) j =
        fs.bufAt (dentrySize * (io.fileIndex.toNat + 1)) j :=
    fun j hj => copyDentry_name hover hj
  have hlength := entryName_length fs io.fileIndex.toNat
  have hgetD : ∀ j, j < (fs.entryName io.fileIndex.toNat).length → _ :=
    fun j hj => entryName_getD fs (i := io.fileIndex.toNat) hj
  cases buf with
  | none => cases h
  | some bytes =>
      cases h
      dsimp only
      have hvalue := copiedBytes_toInt hover nbytes
      rw [hlen]
      rw [Int32.le_iff_toInt_le] at hn hname
      have hzero := Int32.toInt_zero
      have h32 : (32 : Int32).toInt = 32 := rfl
      simp only [filenameSize] at hlength hname
      -- From here on only the length of the name matters.
      generalize strlen (fs.bufAt (dentrySize * (io.fileIndex.toNat + 1))) = len at *
      generalize (if (UInt32.ofNat len).toInt32 > nbytes then nbytes
        else (UInt32.ofNat len).toInt32) = copied at *
      refine ⟨by dsimp only; omega, _, rfl, fun j hj => ?_⟩
      dsimp only at hj
      have hj32 : j < 32 := by omega
      rw [memcpy_inside (Nat.zero_le j) (by simp only [filenameSize]; omega), Nat.sub_zero,
        hbytes j (by omega), hgetD j (by omega)]

/-! ## Runs -/

theorem readCall_of_openDirectory {io : Io} {esp : Nat} {fd : Int32} (h : OpenDirectory io esp fd)
    (fs : Image) (stale : Buf) (interrupts : Nat → Io → Io) (buf : Option Buf) (nbytes : Int32) :
    readCall fs stale interrupts esp fd buf nbytes io = dirRead fs stale buf nbytes io :=
  readCall_of_slot h.1 h.2 rfl fs stale interrupts buf nbytes

/-- A read that finds the counter at its own position gives the next answer of the listing. -/
theorem AtOwnPosition.lists {fs : Image} {s : Listings} {addr fd : Nat} {nbytes v : Int32}
    {stale : Buf} {buf : Option Buf} {w : Written} {io' : Io} (h : AtOwnPosition fs s addr fd nbytes)
    (hread : dirRead fs stale buf nbytes s.io = .returned v w io') :
    Answer.Lists fs (s.answers addr fd).length ⟨nbytes, v, w.buf⟩ := by
  obtain ⟨hlast, hentry⟩ := dirRead_answer hread
  have hcounter := h.counter
  unfold Answer.Lists
  by_cases hleft : (s.answers addr fd).length < fs.numDentries.toNat
  · have hindex : s.io.fileIndex.toNat = (s.answers addr fd).length := by omega
    have hlt : s.io.fileIndex < fs.numDentries := UInt32.lt_iff_toNat_lt.mpr (by omega)
    rw [if_pos hleft, ← hindex]
    exact hentry hlt h.nonneg (h.name hlt)
  · have hindex : s.io.fileIndex = fs.numDentries := UInt32.toNat_inj.mp (by omega)
    rw [if_neg hleft]
    exact hlast hindex

/-- One more answer in order. -/
theorem Listings.InOrder.append {fs : Image} {s : Listings} {addr fd : Nat} {a : Answer}
    (h : s.InOrder fs addr fd) (ha : a.Lists fs (s.answers addr fd).length) (io' : Io) :
    (s.record addr fd (· ++ [a]) io').InOrder fs addr fd := by
  intro i hi
  simp only [record_self] at hi ⊢
  rw [List.length_append, List.length_singleton] at hi
  by_cases hlast : i < (s.answers addr fd).length
  · rw [List.getElem_append_left hlast]
    exact h i hlast
  · have heq : i = (s.answers addr fd).length := by omega
    subst heq
    rw [List.getElem_append_right (Nat.le_refl _)]
    simp only [Nat.sub_self, List.getElem_singleton]
    exact ha

/-- What a step does to one descriptor does not disturb the others. -/
theorem Listings.InOrder.record {fs : Image} {s : Listings} {addr fd : Nat}
    {f : List Answer → List Answer} {io' : Io} (h : ∀ addr fd, s.InOrder fs addr fd)
    (hself : (s.record addr fd f io').InOrder fs addr fd) (addr' fd' : Nat) :
    (s.record addr fd f io').InOrder fs addr' fd' := by
  by_cases hsame : addr' = addr ∧ fd' = fd
  · obtain ⟨rfl, rfl⟩ := hsame
    exact hself
  · have hne : addr' ≠ addr ∨ fd' ≠ fd := by
      by_contra hnot
      rw [not_or, not_not, not_not] at hnot
      exact hsame hnot
    intro i hi
    simp only [s.record_of_ne f io' hne] at hi ⊢
    exact h addr' fd' i hi

/-- **One step.**  A read at its own position goes on with the listing, and no step disturbs
another descriptor. -/
theorem ListingStep.inOrder {fs : Image} {s s' : Listings} {e : ListingEvent}
    (hstep : ListingStep fs s e s') (hguard : e.AtOwnPosition fs s)
    (h : ∀ addr fd, s.InOrder fs addr fd) (addr fd : Nat) : s'.InOrder fs addr fd := by
  cases hstep with
  | failedOpen hopen => exact h addr fd
  | closes hclose => exact h addr fd
  | other hindex hfds => exact h addr fd
  | opens hv hopen =>
      refine Listings.InOrder.record h ?_ addr fd
      intro i hi
      simp only [Listings.record_self] at hi
      exact absurd hi (Nat.not_lt_zero i)
  | @reads esp fd₁ nbytes v buf stale interrupts w io' hdir hread =>
      rw [readCall_of_openDirectory hdir] at hread
      have hanswer := AtOwnPosition.lists hguard hread
      exact Listings.InOrder.record h ((h _ _).append hanswer io') addr fd

/-- **Directory listings over whole runs.**  When every read of a run finds the counter at its own
position, every descriptor has listed the entries in order, each once, and then 0. -/
theorem listings_of_run {fs : Image} {io : Io} {es : List ListingEvent} {s : Listings}
    (hrun : Run (fun a e b => ListingStep fs a e b ∧ e.AtOwnPosition fs a) (.start io) es s)
    (addr fd : Nat) : s.InOrder fs addr fd :=
  hrun.invariant_of_guard (fun s => ∀ addr fd, s.InOrder fs addr fd)
    (fun _ _ i hi => absurd hi (Nat.not_lt_zero i))
    (fun _ _ _ h hguard hstep => hstep.inOrder hguard h) addr fd

/-- The state after the first process opened the directory and read its only entry. -/
def listedDirectory : Io := { openedDirectory with fileIndex := 1 }

theorem openDirectory_first {io : Io} (h : io.fds (getCurrPcb espOfFirst) 2 = ⟨some .dir, 0, 0, 1⟩) :
    OpenDirectory io espOfFirst 2 := by
  have htwo : (2 : Int32).toInt.toNat = 2 := rfl
  unfold OpenDirectory FdRefused
  rw [htwo, h]
  exact ⟨by decide, rfl⟩

/-- The name that the first read copies. -/
def dotEntry : Buf := (readDentryByIndex oneDirectory 0 dotName).2

/-- The first process before it opens the directory. -/
def freshProcess : Io := (FdHistory.fresh (getCurrPcb espOfFirst) espOfFirst Io.blank).io

/-- The listing after the directory was opened. -/
def afterOpen : Listings :=
  (Listings.start freshProcess).record (getCurrPcb espOfFirst) 2 (fun _ => []) openedDirectory

/-- The listing after the entry was read. -/
def afterRead : Listings :=
  afterOpen.record (getCurrPcb espOfFirst) 2
    (· ++ [⟨32, 1, some (memcpy (fun _ => 0) 0 dotEntry 32)⟩]) listedDirectory

theorem step_afterOpen :
    ListingStep oneDirectory (.start freshProcess) (.opens espOfFirst (some dotName)) afterOpen := by
  have hopen : openCall oneDirectory dotName espOfFirst (some dotName) freshProcess =
      .returned 2 () openedDirectory := rfl
  exact .opens (show (2 : Int32) ≠ -1 by decide) hopen

theorem step_afterRead :
    ListingStep oneDirectory afterOpen (.reads espOfFirst 2 (some fun _ => 0) 32) afterRead := by
  have hdir : OpenDirectory afterOpen.io espOfFirst 2 := openDirectory_first rfl
  have hread : readCall oneDirectory dotName (fun _ io => io) espOfFirst 2 (some fun _ => 0) 32
      afterOpen.io =
      .returned 1 ⟨some (memcpy (fun _ => 0) 0 dotEntry 32), [(0, 32)]⟩ listedDirectory := rfl
  exact .reads hdir hread

theorem listings_of_run_first : afterRead.InOrder oneDirectory (getCurrPcb espOfFirst) 2 := by
  refine listings_of_run ((Run.single ⟨step_afterOpen, trivial⟩).snoc ⟨step_afterRead, ?_⟩) _ _
  refine ⟨by decide, by decide, fun _ => .inl ?_⟩
  decide

/-- The descriptor is closed. -/
def afterClose : Listings :=
  { afterRead with
    io := listedDirectory.setFd (getCurrPcb espOfFirst) 2 fun f => { f with flags := 0 } }

/-- The directory is opened again. -/
def reopenedDirectory : Io :=
  afterClose.io.setFd (getCurrPcb espOfFirst) 2 fun _ => ⟨some .dir, 0, 0, 1⟩

/-- The listing is given up after the first entry, and the directory is opened again: the new
descriptor is at the end at once. -/
theorem listing_not_in_order :
    ¬ ∀ (fs : Image) (io : Io) (es : List ListingEvent) (s : Listings),
      (∀ i < fs.numDentries.toNat, fs.entryName i ≠ []) → io.fileIndex = 0 →
      Run (ListingStep fs) (.start io) es s → ∀ addr fd, s.InOrder fs addr fd := by
  intro hall
  have hnames : ∀ i < oneDirectory.numDentries.toNat, oneDirectory.entryName i ≠ [] := by decide
  -- close, open again, and read
  have hclose : ListingStep oneDirectory afterRead (.closes espOfFirst 2) afterClose :=
    .closes (show closeCall espOfFirst 2 listedDirectory = .returned 0 () afterClose.io from rfl)
  have hopen : openCall oneDirectory dotName espOfFirst (some dotName) afterClose.io =
      .returned 2 () reopenedDirectory := rfl
  have hreopen : ListingStep oneDirectory afterClose (.opens espOfFirst (some dotName))
      (afterClose.record (getCurrPcb espOfFirst) 2 (fun _ => []) reopenedDirectory) :=
    .opens (show (2 : Int32) ≠ -1 by decide) hopen
  have hdir : OpenDirectory reopenedDirectory espOfFirst 2 := openDirectory_first rfl
  have hread : readCall oneDirectory dotName (fun _ io => io) espOfFirst 2 (some fun _ => 0) 32
      reopenedDirectory =
      .returned 0 ⟨some fun _ => 0, []⟩ { reopenedDirectory with fileIndex := 0 } := rfl
  have hreread := ListingStep.reads
    (s := afterClose.record (getCurrPcb espOfFirst) 2 (fun _ => []) reopenedDirectory) hdir hread
  have hrun := ((((Run.single step_afterOpen).snoc step_afterRead).snoc hclose).snoc hreopen).snoc
    hreread
  have hfirst := hall oneDirectory freshProcess _ _ hnames rfl hrun (getCurrPcb espOfFirst) 2 0
  have hgives : Answer.Gives ⟨32, 0, some fun _ => 0⟩ (oneDirectory.entryName 0) :=
    hfirst (by decide)
  have hvalue := hgives.value
  revert hvalue
  decide

end JuddOS
