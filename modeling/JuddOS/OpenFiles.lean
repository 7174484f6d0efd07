import JuddOS.Support.Run

/-!
# Open files

What descriptors are for, apart from how the kernel keeps them.  A process has a table of streams.
A stream on a file is the bytes of the file and a position, and nobody but its process moves it.
The directory is one stream that all processes share.

A read delivers the next bytes of a file when it fits its blocks (`ReadFitsBlocks`), and otherwise
only as many as are left.  `contents_of_run` is what a process gets from a sequence of reads,
whatever the others do in between.
-/

namespace JuddOS

open Support

/-- What is open on a descriptor. -/
inductive Stream
  | clock
  | directory
  /-- A file with these bytes, read up to a position. -/
  | file (pos : Nat) (bytes : List UInt8)
  deriving DecidableEq

/-- What the names stand for, and the names in the order of the directory. -/
structure Disk where
  find : List UInt8 → Option Stream
  names : List (List UInt8)

/-- The streams of all processes, and how far the directory has been read. -/
@[ext] structure OpenFiles where
  table : Nat → Nat → Option Stream
  listed : Nat

/-- A call, as its process sees it. -/
inductive FileAct
  | opens (name : Option (List UInt8)) (fd : Option Nat)
  | closes (fd : Nat) (done : Bool)
  | reads (fd n : Nat) (got : List UInt8)
  | writes

inductive FileLabel
  | act (p : Nat) (a : FileAct)
  | ends (p : Nat)
  | silent

/-- The reads that come out right: from the start of a block, or up to the end of one. -/
def ReadFitsBlocks (length pos n : Nat) : Prop :=
  pos % 4096 = 0 ∨ pos % 4096 + min n (length - pos) ≤ 4096

/-- The descriptor that `open` gives. -/
structure FirstFree (table : Nat → Option Stream) (fd : Nat) : Prop where
  ge : 2 ≤ fd
  lt : fd < 8
  free : table fd = none
  least : ∀ j, 2 ≤ j → j < fd → table j ≠ none

namespace OpenFiles

/-- No process has a file open. -/
def empty : OpenFiles where
  table _ _ := none
  listed := 0

def set (s : OpenFiles) (p fd : Nat) (x : Option Stream) : OpenFiles :=
  { s with table := Function.update s.table p (Function.update (s.table p) fd x) }

def drop (s : OpenFiles) (p : Nat) : OpenFiles :=
  { s with table := Function.update s.table p fun _ => none }

/-- One step. -/
inductive Step (disk : Disk) (s : OpenFiles) : FileLabel → OpenFiles → Prop
  | opens {p fd : Nat} {name : List UInt8} {x : Stream} (hfind : disk.find name = some x)
      (hfree : FirstFree (s.table p) fd) :
      Step disk s (.act p (.opens (some name) (some fd))) (s.set p fd (some x))
  | refuses {p : Nat} {name : Option (List UInt8)}
      (h : ¬ ∃ x fd, name.bind disk.find = some x ∧ FirstFree (s.table p) fd) :
      Step disk s (.act p (.opens name none)) s
  | closes {p fd : Nat} (h : s.table p fd ≠ none) :
      Step disk s (.act p (.closes fd true)) (s.set p fd none)
  | closesNothing {p fd : Nat} (h : s.table p fd = none) :
      Step disk s (.act p (.closes fd false)) s
  | reads {p fd n pos : Nat} {bytes got : List UInt8}
      (htable : s.table p fd = some (.file pos bytes))
      (hlength : got.length = min n (bytes.length - pos))
      (hgot : ReadFitsBlocks bytes.length pos n → got = (bytes.drop pos).take n) :
      Step disk s (.act p (.reads fd n got)) (s.set p fd (some (.file (pos + got.length) bytes)))
  | lists {p fd n : Nat} {name got : List UInt8} (htable : s.table p fd = some .directory)
      (hname : disk.names[s.listed]? = some name) (hgot : n ≤ 32 → got = name.take n) :
      Step disk s (.act p (.reads fd n got)) { s with listed := s.listed + 1 }
  | listsEnd {p fd n : Nat} (htable : s.table p fd = some .directory)
      (hend : s.listed = disk.names.length) :
      Step disk s (.act p (.reads fd n [])) { s with listed := 0 }
  /-- The clock, the terminal, or nothing. -/
  | readsElse {p fd n : Nat} {got : List UInt8}
      (htable : s.table p fd = none ∨ s.table p fd = some .clock) :
      Step disk s (.act p (.reads fd n got)) s
  | writes {p : Nat} : Step disk s (.act p .writes) s
  | ends {p : Nat} : Step disk s (.ends p) (s.drop p)
  | silent : Step disk s .silent s

/-- The runs. -/
abbrev Steps (disk : Disk) : OpenFiles → List FileLabel → OpenFiles → Prop := Run (Step disk)

variable {s s' : OpenFiles} {disk : Disk} {p fd p' fd' pos n : Nat} {l : FileLabel}
  {ls : List FileLabel} {bytes got : List UInt8}

@[simp] theorem set_self (s : OpenFiles) (p fd : Nat) (x : Option Stream) :
    (s.set p fd x).table p fd = x := by
  simp [set]

theorem set_of_ne (s : OpenFiles) (x : Option Stream) (h : p' ≠ p ∨ fd' ≠ fd) :
    (s.set p fd x).table p' fd' = s.table p' fd' := by
  by_cases hp : p' = p
  · have hfd : fd' ≠ fd := h.resolve_left fun hne => hne hp
    simp [set, hp, hfd]
  · simp [set, hp]

theorem set_eq_self (s : OpenFiles) {x : Option Stream} (h : s.table p fd = x) :
    s.set p fd x = s := by
  rw [← h, set, Function.update_eq_self, Function.update_eq_self]

@[simp] theorem drop_self (s : OpenFiles) (p fd : Nat) : (s.drop p).table p fd = none := by
  simp [drop]

theorem drop_of_ne (s : OpenFiles) (h : p' ≠ p) : (s.drop p).table p' = s.table p' :=
  Function.update_of_ne h _ _

end OpenFiles

/-! ## What a process gets -/

/-- The bytes that the process got from the descriptor. -/
def FileLabel.delivered (p fd : Nat) : FileLabel → List UInt8
  | .act p' (.reads fd' _ got) => if p' = p ∧ fd' = fd then got else []
  | _ => []

/-- The bytes that it got in a run. -/
def bytesDelivered (p fd : Nat) (ls : List FileLabel) : List UInt8 := ls.flatMap (·.delivered p fd)

/-- The descriptor is not closed. -/
def FileLabel.Keeps (p fd : Nat) (l : FileLabel) : Prop :=
  l ≠ .ends p ∧ l ≠ .act p (.closes fd true)

/-- The reads of the process from the descriptor that fit the blocks, from `pos` on. -/
def ReadsFit (p fd length pos : Nat) (ls : List FileLabel) : Prop :=
  ∀ before n got after, ls = before ++ .act p (.reads fd n got) :: after →
    ReadFitsBlocks length (pos + (bytesDelivered p fd before).length) n

section Delivered

variable {s s' : OpenFiles} {disk : Disk} {p fd p' fd' pos n : Nat} {l : FileLabel}
  {ls : List FileLabel} {bytes got : List UInt8}

theorem FileLabel.delivered_self (p fd n : Nat) (got : List UInt8) :
    (FileLabel.act p (.reads fd n got)).delivered p fd = got :=
  if_pos ⟨rfl, rfl⟩

theorem FileLabel.delivered_of_ne (n : Nat) (got : List UInt8) (h : p ≠ p' ∨ fd ≠ fd') :
    (FileLabel.act p' (.reads fd' n got)).delivered p fd = [] :=
  if_neg fun heq => h.elim (fun hp => hp heq.1.symm) fun hfd => hfd heq.2.symm

/-- Only reads deliver. -/
theorem FileLabel.delivered_eq_nil (h : ¬ ∃ n got, l = .act p (.reads fd n got)) :
    l.delivered p fd = [] := by
  cases l with
  | act p' a =>
      cases a with
      | reads fd' n got =>
          refine FileLabel.delivered_of_ne n got ?_
          by_contra hsame
          rw [not_or, not_not, not_not] at hsame
          exact h ⟨n, got, by rw [hsame.1, hsame.2]⟩
      | opens | closes | writes => rfl
  | ends | silent => rfl

theorem bytesDelivered_concat (ls : List FileLabel) (l : FileLabel) :
    bytesDelivered p fd (ls ++ [l]) = bytesDelivered p fd ls ++ l.delivered p fd := by
  simp [bytesDelivered]

theorem ReadsFit.before {length : Nat} (h : ReadsFit p fd length pos (ls ++ [l])) :
    ReadsFit p fd length pos ls := by
  intro before n got after heq
  refine h before n got (after ++ [l]) ?_
  rw [heq, List.append_assoc, List.cons_append]

theorem ReadsFit.concat {length : Nat} (h : ReadsFit p fd length pos ls)
    (hl : ∀ n got, l = .act p (.reads fd n got) →
      ReadFitsBlocks length (pos + (bytesDelivered p fd ls).length) n) :
    ReadsFit p fd length pos (ls ++ [l]) := by
  intro before n got after heq
  rcases List.eq_nil_or_concat after with rfl | ⟨after, l', rfl⟩
  · obtain ⟨rfl, hlast⟩ := List.append_inj' heq rfl
    exact hl n got (List.singleton_inj.mp hlast)
  · rw [List.concat_eq_append, ← List.cons_append, ← List.append_assoc] at heq
    obtain ⟨rfl, -⟩ := List.append_inj' heq rfl
    exact h before n got after rfl

/-- **One step** moves a stream that stays open by what its process got from it, and leaves the
streams that its process does not read alone. -/
theorem OpenFiles.Step.stream (h : s.Step disk l s')
    (htable : s.table p fd = some (.file pos bytes)) (hkeeps : l.Keeps p fd) :
    s'.table p fd = some (.file (pos + (l.delivered p fd).length) bytes) ∧
      ∀ n got, l = .act p (.reads fd n got) → got.length = min n (bytes.length - pos) ∧
        (ReadFitsBlocks bytes.length pos n → got = (bytes.drop pos).take n) := by
  have hstays : ∀ {x : Option Stream} {p' fd' : Nat}, p ≠ p' ∨ fd ≠ fd' →
      (s.set p' fd' x).table p fd = some (.file pos bytes) := fun hne =>
    (s.set_of_ne _ hne).trans htable
  cases h with
  | @opens p' fd' name x hfind hfree =>
      refine ⟨hstays ?_, nofun⟩
      by_contra hsame
      rw [not_or, not_not, not_not] at hsame
      have hnone := hfree.free
      rw [← hsame.1, ← hsame.2, htable] at hnone
      cases hnone
  | @closes p' fd' =>
      refine ⟨hstays ?_, nofun⟩
      by_contra hsame
      rw [not_or, not_not, not_not] at hsame
      exact hkeeps.2 (by rw [hsame.1, hsame.2])
  | @reads p' fd' n pos' bytes' got' htable' hlength hgot =>
      by_cases hsame : p = p' ∧ fd = fd'
      · obtain ⟨rfl, rfl⟩ := hsame
        rw [htable] at htable'
        cases htable'
        refine ⟨?_, fun n' got hl => ?_⟩
        · rw [FileLabel.delivered_self]
          exact s.set_self _ _ _
        · cases hl
          exact ⟨hlength, hgot⟩
      · have hne : p ≠ p' ∨ fd ≠ fd' := not_and_or.mp hsame
        rw [FileLabel.delivered_of_ne n got' hne]
        refine ⟨hstays hne, fun n' got hl => ?_⟩
        cases hl
        exact absurd ⟨rfl, rfl⟩ hsame
  | @lists p' fd' n name got' htable' | @listsEnd p' fd' n htable' =>
      have hne : p ≠ p' ∨ fd ≠ fd' := by
        by_contra hsame
        rw [not_or, not_not, not_not] at hsame
        rw [← hsame.1, ← hsame.2, htable] at htable'
        cases htable'
      rw [FileLabel.delivered_of_ne _ _ hne]
      refine ⟨htable, fun n' got hl => ?_⟩
      cases hl
      exact hne.elim (absurd rfl) (absurd rfl)
  | @readsElse p' fd' n got' htable' =>
      have hne : p ≠ p' ∨ fd ≠ fd' := by
        by_contra hsame
        rw [not_or, not_not, not_not] at hsame
        rw [← hsame.1, ← hsame.2, htable] at htable'
        rcases htable' with hnone | hclock
        · cases hnone
        · cases hclock
      rw [FileLabel.delivered_of_ne _ _ hne]
      refine ⟨htable, fun n' got hl => ?_⟩
      cases hl
      exact hne.elim (absurd rfl) (absurd rfl)
  | @ends p' =>
      have hne : p ≠ p' := fun heq => hkeeps.1 (by rw [heq])
      exact ⟨(congrFun (s.drop_of_ne hne) fd).trans htable, nofun⟩
  | refuses | closesNothing | writes | silent => exact ⟨htable, nofun⟩

/-- **In a run** a process gets the bytes of the file in order, one after the other. -/
theorem contents_of_run (hrun : s.Steps disk ls s') (htable : s.table p fd = some (.file pos bytes))
    (hkeeps : ∀ l ∈ ls, l.Keeps p fd) (hfits : ReadsFit p fd bytes.length pos ls) :
    s'.table p fd = some (.file (pos + (bytesDelivered p fd ls).length) bytes) ∧
      bytesDelivered p fd ls = (bytes.drop pos).take (bytesDelivered p fd ls).length := by
  induction hrun with
  | nil => exact ⟨htable, rfl⟩
  | @snoc s₁ s₂ ls l _ last ih =>
      obtain ⟨hbefore, hstart⟩ := ih (fun l hl => hkeeps l (List.mem_append_left _ hl))
        hfits.before
      obtain ⟨hafter, hread⟩ := last.stream hbefore (hkeeps l (List.mem_concat_self ..))
      rw [bytesDelivered_concat, List.length_append, ← Nat.add_assoc]
      refine ⟨hafter, ?_⟩
      have hnext : l.delivered p fd =
          (bytes.drop (pos + (bytesDelivered p fd ls).length)).take (l.delivered p fd).length := by
        by_cases hl : ∃ n got, l = .act p (.reads fd n got)
        · obtain ⟨n, got, rfl⟩ := hl
          obtain ⟨hlength, hgot⟩ := hread n got rfl
          have hbytes := hgot (hfits ls n got [] rfl)
          rw [FileLabel.delivered_self, hlength]
          nth_rewrite 1 [hbytes]
          rw [List.take_eq_take_iff, List.length_drop]
          omega
        · rw [FileLabel.delivered_eq_nil hl]
          rfl
      rw [List.take_add, ← hstart, List.drop_drop, ← hnext]

/-- A process that gets nothing although it asks for something has had the whole file. -/
theorem contents_at_end (hrun : s.Steps disk (ls ++ [.act p (.reads fd n [])]) s')
    (htable : s.table p fd = some (.file 0 bytes)) (hkeeps : ∀ l ∈ ls, l.Keeps p fd)
    (hfits : ReadsFit p fd bytes.length 0 ls) (hn : 0 < n) : bytesDelivered p fd ls = bytes := by
  obtain ⟨s₁, hbefore, last⟩ := hrun.of_concat
  obtain ⟨hat, hstart⟩ := contents_of_run hbefore htable hkeeps hfits
  rw [Nat.zero_add] at hat
  obtain ⟨-, hread⟩ := last.stream hat ⟨nofun, nofun⟩
  have hlength := (hread n [] rfl).1
  rw [List.length_nil] at hlength
  rw [hstart, List.drop_zero]
  exact List.take_of_length_le (by omega)

theorem ReadFitsBlocks.of_chunk {length chunk : Nat} (hdvd : chunk ∣ 4096)
    (h : chunk ∣ pos ∨ pos = length) : ReadFitsBlocks length pos chunk := by
  have hlt : pos % 4096 < 4096 := Nat.mod_lt _ (by decide)
  refine .inr ?_
  rcases h with hpos | rfl
  · obtain ⟨x, hx⟩ : chunk ∣ pos % 4096 := (Nat.dvd_mod_iff hdvd).mpr hpos
    obtain ⟨y, hy⟩ := hdvd
    have hxy : x < y := Nat.lt_of_mul_lt_mul_left (by rw [← hx, ← hy]; exact hlt)
    have hstep : chunk * (x + 1) ≤ chunk * y := Nat.mul_le_mul_left chunk hxy
    rw [Nat.mul_add, Nat.mul_one, ← hx, ← hy] at hstep
    omega
  · omega

theorem chunk_next {length chunk : Nat} (h : chunk ∣ pos ∨ pos = length) :
    chunk ∣ pos + min chunk (length - pos) ∨ pos + min chunk (length - pos) = length := by
  rcases h with hpos | rfl
  · by_cases hmore : chunk ≤ length - pos
    · rw [Nat.min_eq_left hmore]
      exact .inl (Nat.dvd_add hpos (Nat.dvd_refl chunk))
    · by_cases hend : length ≤ pos
      · rw [Nat.sub_eq_zero_of_le hend, Nat.min_zero]
        exact .inl hpos
      · exact .inr (by omega)
  · exact .inr (by omega)

/-- Reads of one size that divides the size of a block fit. -/
theorem readsFit_of_chunk (hrun : s.Steps disk ls s')
    (htable : s.table p fd = some (.file 0 bytes)) (hkeeps : ∀ l ∈ ls, l.Keeps p fd) {chunk : Nat}
    (hdvd : chunk ∣ 4096)
    (hchunk : ∀ n got, .act p (.reads fd n got) ∈ ls → n = chunk) :
    ReadsFit p fd bytes.length 0 ls := by
  have hboth : ReadsFit p fd bytes.length 0 ls ∧
      s'.table p fd = some (.file (bytesDelivered p fd ls).length bytes) ∧
      (chunk ∣ (bytesDelivered p fd ls).length ∨
        (bytesDelivered p fd ls).length = bytes.length) := by
    induction hrun with
    | nil =>
        refine ⟨fun before n got after heq => ?_, htable, .inl (Nat.dvd_zero chunk)⟩
        have hlength := congrArg List.length heq
        simp at hlength
    | @snoc s₁ s₂ ls l _ last ih =>
        obtain ⟨hfits, hat, hat_chunk⟩ := ih (fun l hl => hkeeps l (List.mem_append_left _ hl))
          fun n got hmem => hchunk n got (List.mem_append_left _ hmem)
        obtain ⟨hafter, hread⟩ := last.stream hat (hkeeps l (List.mem_concat_self ..))
        rw [bytesDelivered_concat, List.length_append]
        refine ⟨hfits.concat ?_, hafter, ?_⟩
        · rintro n got rfl
          rw [Nat.zero_add, hchunk n got (List.mem_concat_self ..)]
          exact .of_chunk hdvd hat_chunk
        · by_cases hl : ∃ n got, l = .act p (.reads fd n got)
          · obtain ⟨n, got, rfl⟩ := hl
            have hlength := (hread n got rfl).1
            rw [hchunk n got (List.mem_concat_self ..)] at hlength
            rw [FileLabel.delivered_self, hlength]
            exact chunk_next hat_chunk
          · rw [FileLabel.delivered_eq_nil hl]
            exact hat_chunk
  exact hboth.1

end Delivered

end JuddOS
