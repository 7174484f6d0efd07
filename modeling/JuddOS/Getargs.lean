import JuddOS.PcbLayout
import JuddOS.ProcessRuns
import JuddOS.ReadBounds

/-!
# `syscalls.c`: `getargs`

`execute` stores the length of the arguments without their NUL, `getargs` compares that length with
the size of the buffer, and `strncpy` writes a NUL only where there is room left.

* `ArgHistory`: the kernel with the argument string of each process, kept beside it.  Runs of the
  process machine are runs of it (`argHistory_of_run`).
* `getargs_exact_iff`: `getargs` is exact unless the arguments fill the buffer.
-/

namespace JuddOS

open Support

/-- The bytes from `pcb->args` on; `past` is what follows the string that was stored. -/
def Pcb.argsBuf (pcb : Pcb) (past : Buf) : Buf :=
  memcpy past 0 (Buf.ofList pcb.args) pcb.args.length

/-- `getargs`, with what it leaves in the buffer. -/
def getargs (past : Buf) (esp : Nat) (buf : Buf) (nbytes : Int32) (k : Kernel) : Int32 × Buf :=
  let currentPcb := k.pcb (getCurrPcb esp)
  if currentPcb.argsSize = 0 ∨ (currentPcb.argsSize : Int) > nbytes.toInt then (-1, buf)
  else (0, strncpy buf (currentPcb.argsBuf past) nbytes.toUInt32.toNat)

/-! ## What `execute` leaves for it -/

/-- A PCB holds an argument string. -/
structure HoldsArgs (pcb : Pcb) (a : List UInt8) : Prop where
  no_nul : (0 : UInt8) ∉ a
  short : a.length < bufSize
  args : pcb.args = a ++ [0]
  argsSize : pcb.argsSize = a.length

theorem HoldsArgs.congr {pcb pcb' : Pcb} {a : List UInt8} (h : HoldsArgs pcb a)
    (hargs : pcb'.args = pcb.args) (hsize : pcb'.argsSize = pcb.argsSize) : HoldsArgs pcb' a where
  no_nul := h.no_nul
  short := h.short
  args := hargs.trans h.args
  argsSize := hsize.trans h.argsSize

theorem startProcess_args (fs : Image) (args : List UInt8) (esp ebp : Nat) (k : Kernel) :
    ((startProcess fs args esp ebp k).pcb (pcbAddr k.availablePid)).args = args ++ [0] ∧
      ((startProcess fs args esp ebp k).pcb (pcbAddr k.availablePid)).argsSize = k.sizeOfArgs := by
  by_cases hactive : (k.terminalArr k.terminalNum).active = false <;>
    simp [startProcess, executeFillpcb, Kernel.setPcb, Kernel.setTerminal, hactive]

/-- **A process that `execute` starts** finds its arguments in its PCB, and no other PCB changes. -/
theorem execute_holdsArgs {fs : Image} {command : CString} {exeCheck : Buf} {esp ebp : Nat}
    {k k' : Kernel} (hexec : execute fs command.val exeCheck esp ebp k = .user k')
    (hshort : (storedArgs command.val).length < bufSize) :
    HoldsArgs (k'.pcb (pcbAddr k'.availablePid)) (storedArgs command.val) ∧
      ∀ addr, addr ≠ pcbAddr k'.availablePid → k'.pcb addr = k.pcb addr := by
  by_cases hrej : Rejected fs command.val exeCheck k.pidBits
  · obtain ⟨size, opened, hret⟩ := execute_of_rejected esp ebp hrej
    rw [hexec] at hret
    cases hret
  obtain ⟨args, opened, size, bytes, hparse, -, -, -, hacc⟩ := execute_of_accepted esp ebp hrej
  have hargs : args = storedArgs command.val := parseCommand_snd hparse
  subst hargs
  rw [hexec] at hacc
  cases hload : (afterSetup (storedArgs command.val) opened k).pokeRange fileLocation size bytes with
  | none =>
      rw [hload] at hacc
      cases hacc
  | some k₁ =>
      rw [hload] at hacc
      cases hacc
      have hframe := Kernel.pokeRange_frame hload
      have hpid : (startProcess fs (storedArgs command.val) esp ebp k₁).availablePid =
          k₁.availablePid := by rw [startProcess_frame]
      obtain ⟨hstored, hsize⟩ := startProcess_args fs (storedArgs command.val) esp ebp k₁
      rw [hpid]
      refine ⟨⟨?_, hshort, hstored, ?_⟩, fun addr hne => ?_⟩
      · exact fun h => command.property.no_nul
          (commandLine_subset _ (List.mem_of_mem_drop (List.mem_of_mem_tail h)))
      · rw [hsize, hframe]
        rfl
      · rw [startProcess_pcb_of_ne _ _ _ _ _ hne, hframe]
        rfl

/-! ## The arguments along a run -/

/-- The kernel with the argument string of each process, by the address of its PCB: those that
`execute` started with less than 128 bytes of arguments. -/
structure ArgHistory where
  kernel : Kernel
  args : Nat → Option (List UInt8)

/-- What can happen to the arguments. -/
inductive ArgEvent
  | starts (command : CString)
  | other

/-- A process is started; or something happens that leaves the arguments of the processes that go
on alone. -/
inductive ArgStep (fs : Image) : ArgHistory → ArgEvent → ArgHistory → Prop
  | starts {s : ArgHistory} {command : CString} {exeCheck : Buf} {esp ebp : Nat} {k : Kernel}
      (h : execute fs command.val exeCheck esp ebp s.kernel = .user k)
      (hshort : (storedArgs command.val).length < bufSize) :
      ArgStep fs s (.starts command)
        { kernel := k
          args := Function.update s.args (pcbAddr k.availablePid) (some (storedArgs command.val)) }
  | other {s s' : ArgHistory}
      (h : ∀ addr a, s'.args addr = some a → s.args addr = some a ∧
        (s'.kernel.pcb addr).args = (s.kernel.pcb addr).args ∧
        (s'.kernel.pcb addr).argsSize = (s.kernel.pcb addr).argsSize) :
      ArgStep fs s .other s'

/-- The PCBs hold the arguments. -/
def ArgHistory.Holds (s : ArgHistory) : Prop :=
  ∀ addr a, s.args addr = some a → HoldsArgs (s.kernel.pcb addr) a

theorem ArgHistory.Holds.step {fs : Image} {s s' : ArgHistory} {e : ArgEvent} (hs : s.Holds)
    (hstep : ArgStep fs s e s') : s'.Holds := by
  cases hstep with
  | @starts command exeCheck esp ebp k h hshort =>
      obtain ⟨hself, hother⟩ := execute_holdsArgs h hshort
      intro addr a ha
      dsimp only at ha ⊢
      by_cases haddr : addr = pcbAddr k.availablePid
      · rw [haddr, Function.update_self] at ha
        cases ha
        rw [haddr]
        exact hself
      · rw [Function.update_of_ne haddr] at ha
        rw [hother addr haddr]
        exact hs addr a ha
  | other h =>
      intro addr a ha
      obtain ⟨hbefore, hargs, hsize⟩ := h addr a ha
      exact (hs addr a hbefore).congr hargs hsize

/-- A kernel before any process was started. -/
def ArgHistory.start (k : Kernel) : ArgHistory where
  kernel := k
  args _ := none

/-- **In every run** the PCBs hold the arguments of their processes. -/
theorem holdsArgs_of_run {fs : Image} {k : Kernel} {es : List ArgEvent} {s : ArgHistory}
    (hrun : Run (ArgStep fs) (.start k) es s) : s.Holds :=
  hrun.invariant ArgHistory.Holds (fun _ _ h => nomatch h) fun _ _ _ ha hstep => ha.step hstep

/-! ## What `getargs` answers -/

/-- `getargs` gives the arguments with their NUL if there are any and they fit, and otherwise fails
and leaves the buffer alone. -/
structure GetargsExact (a : List UInt8) (nbytes : Int32) (buf : Buf) (result : Int32 × Buf) :
    Prop where
  zero_iff : result.1 = 0 ↔ a ≠ [] ∧ (a.length : Int) + 1 ≤ nbytes.toInt
  copied : result.1 = 0 → (∀ j, j < a.length → result.2 j = a.getD j 0) ∧ result.2 a.length = 0 ∧
    ∀ j : Nat, nbytes.toInt ≤ j → result.2 j = buf j
  failed : result.1 ≠ 0 → result = (-1, buf)

section Getargs

variable {k : Kernel} {esp : Nat} {a : List UInt8}

theorem HoldsArgs.argsBuf_getD {pcb : Pcb} (h : HoldsArgs pcb a) (past : Buf) {j : Nat}
    (hj : j ≤ a.length) : pcb.argsBuf past j = a.getD j 0 := by
  rw [Pcb.argsBuf, h.args, memcpy_inside (Nat.zero_le j) (by simp; omega), Nat.sub_zero]
  rcases Nat.lt_or_eq_of_le hj with hlt | heq
  · rw [Buf.ofList, List.getD_append _ _ _ _ hlt]
  · rw [Buf.ofList, heq, List.getD_append_right _ _ _ _ (Nat.le_refl _)]
    simp

theorem HoldsArgs.strlen_argsBuf {pcb : Pcb} (h : HoldsArgs pcb a) (past : Buf) :
    strlen (pcb.argsBuf past) = a.length := by
  have hshort := h.short
  simp only [bufSize] at hshort
  refine strlen_eq (by omega) (fun j hj => ?_) ?_
  · rw [h.argsBuf_getD past (Nat.le_of_lt hj)]
    exact ofList_ne_zero h.no_nul hj
  · rw [h.argsBuf_getD past (Nat.le_refl _)]
    simp

theorem getargs_of_refused (h : HoldsArgs (k.pcb (getCurrPcb esp)) a) (past buf : Buf)
    {nbytes : Int32} (hsize : a = [] ∨ nbytes.toInt < a.length) :
    getargs past esp buf nbytes k = (-1, buf) := by
  refine if_pos ?_
  rw [h.argsSize, List.length_eq_zero_iff]
  exact hsize

theorem getargs_of_copied (h : HoldsArgs (k.pcb (getCurrPcb esp)) a) (past buf : Buf)
    {nbytes : Int32} (hne : a ≠ []) (hsize : (a.length : Int) ≤ nbytes.toInt) :
    getargs past esp buf nbytes k =
      (0, strncpy buf ((k.pcb (getCurrPcb esp)).argsBuf past) nbytes.toInt.toNat) := by
  have hn : 0 ≤ nbytes := by
    rw [Int32.le_iff_toInt_le]
    exact Int.le_trans (Int.natCast_nonneg _) hsize
  have hcount := toUInt32_toNat_of_nonneg hn
  unfold getargs
  rw [if_neg, hcount]
  rw [h.argsSize, List.length_eq_zero_iff, not_or]
  exact ⟨hne, Int.not_lt.mpr hsize⟩

/-- The answer to a process with the arguments `a`. -/
theorem getargsExact_iff (h : HoldsArgs (k.pcb (getCurrPcb esp)) a) (past buf : Buf)
    (nbytes : Int32) :
    GetargsExact a nbytes buf (getargs past esp buf nbytes k) ↔
      ¬ (a ≠ [] ∧ (a.length : Int) = nbytes.toInt) := by
  have hfailed : ¬ (-1 : Int32) = 0 := by decide
  by_cases hrefused : a = [] ∨ nbytes.toInt < a.length
  · rw [getargs_of_refused h past buf hrefused]
    constructor
    · rintro - ⟨hne, heq⟩
      rcases hrefused with hnil | hlt
      · exact hne hnil
      · omega
    · intro _
      refine ⟨⟨fun h => absurd h hfailed, fun ⟨hne, hfits⟩ => ?_⟩, fun h => absurd h hfailed,
        fun _ => rfl⟩
      rcases hrefused with hnil | hlt
      · exact absurd hnil hne
      · omega
  rw [not_or, Int.not_lt] at hrefused
  obtain ⟨hne, hsize⟩ := hrefused
  rw [getargs_of_copied h past buf hne hsize]
  constructor
  · rintro hexact ⟨-, heq⟩
    have hfits := (hexact.zero_iff.mp rfl).2
    omega
  · intro hroom
    have hlt : (a.length : Int) + 1 ≤ nbytes.toInt := by
      by_contra hfull
      exact hroom ⟨hne, by omega⟩
    have hlen := h.strlen_argsBuf past
    have hmax := nbytes.toInt_lt
    have hn32 : nbytes.toInt.toNat ≤ 2 ^ 32 := by omega
    refine ⟨⟨fun _ => ⟨hne, hlt⟩, fun _ => rfl⟩, fun _ => ⟨fun j hj => ?_, ?_, fun j hj => ?_⟩,
      fun h => absurd rfl h⟩
    · dsimp only
      rw [strncpy_copied hn32 (by omega) (by omega), h.argsBuf_getD past (Nat.le_of_lt hj)]
    · exact strncpy_padded hn32 (by omega) (by omega)
    · exact strncpy_outside (by omega)

end Getargs

/-- **`getargs` is exact exactly when** the arguments do not fill the buffer to its last byte. -/
theorem getargs_exact_iff {fs : Image} {k : Kernel} {es : List ArgEvent} {s : ArgHistory}
    (hrun : Run (ArgStep fs) (.start k) es s) {esp : Nat} {a : List UInt8}
    (ha : s.args (getCurrPcb esp) = some a) (past buf : Buf) (nbytes : Int32) :
    GetargsExact a nbytes buf (getargs past esp buf nbytes s.kernel) ↔
      ¬ (a ≠ [] ∧ (a.length : Int) = nbytes.toInt) :=
  getargsExact_iff (holdsArgs_of_run hrun _ a ha) past buf nbytes

/-- `x a`. -/
def commandXA : CString := ⟨[0x78, 0x20, 0x61], by decide, by decide⟩

/-- A process with one byte of arguments. -/
theorem exists_process_a :
    ∃ s, Run (ArgStep (programImage 4)) (.start pagedKernel) [.starts commandXA] s ∧
      s.args (getCurrPcb espOfFirst) = some [0x61] := by
  have hacc : ¬ Rejected (programImage 4) commandXA.val (fun _ => 0) pagedKernel.pidBits := by
    decide
  obtain ⟨k', hexec, -⟩ := execute_user 0 0 hacc (by decide)
  rcases execute_cases (programImage 4) commandXA (fun _ => 0) 0 0 pagedKernel with
    ⟨_, _, h⟩ | h | ⟨k'', h, -, hstarted⟩ <;> rw [hexec] at h <;> cases h
  refine ⟨_, .single (.starts (s := .start pagedKernel) hexec (by decide)), ?_⟩
  have hpid : getCurrPcb espOfFirst = pcbAddr k'.availablePid := by
    rw [hstarted.availablePid]
    decide
  dsimp only
  rw [hpid, Function.update_self]
  rfl

theorem getargs_exact_a :
    ∃ s : ArgHistory, s.args (getCurrPcb espOfFirst) = some [0x61] ∧ ∀ past buf,
      GetargsExact [0x61] 2 buf (getargs past espOfFirst buf 2 s.kernel) := by
  obtain ⟨s, hrun, ha⟩ := exists_process_a
  exact ⟨s, ha, fun past buf => (getargs_exact_iff hrun ha past buf 2).mpr (by decide)⟩

/-- The buffer has room for the arguments and none for the NUL. -/
theorem getargs_unterminated :
    ¬ ∀ (fs : Image) (k : Kernel) (es : List ArgEvent) (s : ArgHistory),
      Run (ArgStep fs) (.start k) es s → ∀ (esp : Nat) (a : List UInt8),
      s.args (getCurrPcb esp) = some a → ∀ (past buf : Buf) (nbytes : Int32), 0 ≤ nbytes →
      GetargsExact a nbytes buf (getargs past esp buf nbytes s.kernel) := by
  intro hall
  obtain ⟨s, hrun, ha⟩ := exists_process_a
  have hexact := hall _ _ _ s hrun espOfFirst _ ha (fun _ => 0) (fun _ => 0) 1 (by decide)
  have hroom := (getargsExact_iff (holdsArgs_of_run hrun _ _ ha) _ _ 1).mp hexact
  exact hroom ⟨by decide, rfl⟩

/-! ## The processes of the machine -/

/-- Every process has its arguments in the history. -/
structure HasArgs (a : ProcState) (s : ArgHistory) : Prop where
  kernel : s.kernel = a.kernel
  args : ∀ p ∈ a.live, ∃ l, s.args (pcbAddr p) = some l

/-- A step that starts no process and keeps the arguments of those that go on. -/
theorem HasArgs.other {fs : Image} {a a' : ProcState} {s : ArgHistory} (h : HasArgs a s)
    (hlive : ∀ p ∈ a'.live, p ∈ a.live)
    (hkeep : ∀ addr, (a'.kernel.pcb addr).args = (a.kernel.pcb addr).args ∧
      (a'.kernel.pcb addr).argsSize = (a.kernel.pcb addr).argsSize) :
    ∃ ds s', Run (ArgStep fs) s ds s' ∧ HasArgs a' s' := by
  refine ⟨[.other], { s with kernel := a'.kernel }, .single (.other fun addr l hl => ⟨hl, ?_⟩),
    rfl, fun p hp => h.args p (hlive p hp)⟩
  rw [h.kernel]
  exact hkeep addr

/-- A step that starts a process. -/
theorem HasArgs.start {fs : Image} {a : ProcState} {s : ArgHistory} (h : HasArgs a s)
    {command : CString} {exeCheck : Buf} {esp ebp : Nat} {k : Kernel}
    (hexec : execute fs command.val exeCheck esp ebp a.kernel = .user k)
    (hshort : (storedArgs command.val).length < bufSize) :
    ∃ ds s', Run (ArgStep fs) s ds s' ∧
      HasArgs { kernel := k, live := k.availablePid :: a.live } s' := by
  rw [← h.kernel] at hexec
  refine ⟨[.starts command], _, .single (.starts hexec hshort), rfl, fun p hp => ?_⟩
  dsimp only
  by_cases hself : pcbAddr p = pcbAddr k.availablePid
  · exact ⟨_, by rw [hself, Function.update_self]⟩
  · rw [Function.update_of_ne hself]
    refine h.args p ((List.mem_cons.mp hp).resolve_left fun heq => hself ?_)
    rw [heq]

/-- A command that starts a process has short arguments when it may be executed. -/
theorem storedArgs_short {fs : Image} {command : CString} {exeCheck : Buf} {esp ebp : Nat}
    {k k' : Kernel} {live : List Nat} (hmay : MayExecute k live command esp ebp)
    (hexec : execute fs command.val exeCheck esp ebp k = .user k') :
    (storedArgs command.val).length < bufSize := by
  rcases hmay with ⟨-, hshell⟩ | ⟨-, -, -, hshort, -⟩
  · rw [hshell]
    decide
  · have hacc : ¬ Rejected fs command.val exeCheck k.pidBits := by
      intro hrej
      obtain ⟨_, _, hret⟩ := execute_of_rejected esp ebp hrej
      rw [hexec] at hret
      cases hret
    cases hparse : parseCommand 0 command.val with
    | none => exact absurd (.inr (.inl hparse)) hacc
    | some p =>
        rw [← parseCommand_snd hparse]
        exact hshort p (by rw [hparse]; rfl)

/-- Going back to a terminal changes no PCB. -/
theorem resumeTerminal_pcb (next : Tid) (k : Kernel) :
    resumeTerminal next k = .fault ∨
      ∃ k' ebp, resumeTerminal next k = .frame k' ebp ∧ k'.pcb = k.pcb := by
  unfold resumeTerminal
  split
  · exact .inl rfl
  · exact .inr ⟨_, _, rfl, rfl⟩

/-- A tick starts a shell or changes no PCB. -/
theorem pitHandler_pcb (fs : Image) (exeCheck : Buf) (esp ebp ebpExecute : Nat) (k : Kernel) :
    pitHandler fs exeCheck esp ebp ebpExecute k = .fault ∨
      (∃ k' e, pitHandler fs exeCheck esp ebp ebpExecute k = .frame k' e ∧ k'.pcb = k.pcb) ∨
      ∃ k', pitHandler fs exeCheck esp ebp ebpExecute k = .user k' ∧
        execute fs shellCString.val exeCheck esp ebpExecute (leaveTerminal ebp k) = .user k' := by
  have hresume : ∀ k₁ : Kernel, k₁.pcb = k.pcb → ∀ next,
      resumeTerminal next k₁ = .fault ∨
        ∃ k' e, resumeTerminal next k₁ = .frame k' e ∧ k'.pcb = k.pcb := by
    intro k₁ hpcb next
    rcases resumeTerminal_pcb next k₁ with hfault | ⟨k', e, hframe, hsame⟩
    · exact .inl hfault
    · exact .inr ⟨k', e, hframe, hsame.trans hpcb⟩
  unfold pitHandler
  dsimp only
  split
  · rcases execute_cases fs shellCString exeCheck esp ebpExecute (leaveTerminal ebp k) with
      ⟨size, opened, hexec⟩ | hexec | ⟨k', hexec, -⟩ <;>
      rw [show shellCommand = shellCString.val from rfl, hexec]
    · rcases hresume { leaveTerminal ebp k with sizeOfArgs := size, openedFile := opened } rfl
        (leaveTerminal ebp k).terminalNum with hfault | hframe
      · exact .inl hfault
      · exact .inr (.inl hframe)
    · exact .inl rfl
    · exact .inr (.inr ⟨k', rfl, rfl⟩)
  · rcases hresume (leaveTerminal ebp k) rfl (leaveTerminal ebp k).terminalNum with hfault | hframe
    · exact .inl hfault
    · exact .inr (.inl hframe)

/-- **Every step of the process machine** is a run of the history. -/
theorem HasArgs.step {fs : Image} {a a' : ProcState} {e : ProcEvent} {s : ArgHistory}
    (h : HasArgs a s) (hstep : a.step fs e = some a') :
    ∃ ds s', Run (ArgStep fs) s ds s' ∧ HasArgs a' s' := by
  cases e with
  | execute command exeCheck esp ebp =>
      rw [ProcState.step] at hstep
      split at hstep
      case isFalse => cases hstep
      case isTrue hmay =>
        rcases execute_cases fs command exeCheck esp ebp a.kernel with
          ⟨size, opened, hexec⟩ | hexec | ⟨k', hexec, -⟩ <;> rw [hexec] at hstep <;> cases hstep
        · exact h.other (fun p hp => hp) fun _ => ⟨rfl, rfl⟩
        · exact h.start hexec (storedArgs_short hmay hexec)
  | halt esp =>
      rw [ProcState.step] at hstep
      split at hstep
      case isFalse => cases hstep
      case isTrue =>
        unfold JuddOS.halt at hstep
        dsimp only at hstep
        by_cases hroot : (a.kernel.pcb (getCurrPcb esp)).parent = 0
        · rw [if_pos hroot] at hstep
          cases hstep
          exact h.other (fun p hp => hp) fun _ => ⟨rfl, rfl⟩
        · rw [if_neg hroot] at hstep
          cases hstep
          refine h.other (fun p hp => List.mem_of_mem_erase hp) fun addr => ?_
          -- `fd_array` is the only field of a PCB that `halt` writes.
          by_cases haddr : addr = getCurrPcb esp
          · rw [haddr]
            constructor <;> simp [haltCloseFds, haltSetRecent, haltMapParent, haltFreeMemory,
              haltReleasePid, haltRestoreEsp0, Kernel.setTerminal, Kernel.setPcb]
          · constructor <;> simp [haltCloseFds, haltSetRecent, haltMapParent, haltFreeMemory,
              haltReleasePid, haltRestoreEsp0, Kernel.setTerminal, Kernel.setPcb, haddr]
  | tick exeCheck esp ebp ebpExecute =>
      rw [ProcState.step] at hstep
      rcases pitHandler_pcb fs exeCheck esp ebp ebpExecute a.kernel with
        hpit | ⟨k', e, hpit, hpcb⟩ | ⟨k', hpit, hexec⟩ <;> rw [hpit] at hstep <;> cases hstep
      · refine h.other (fun p hp => hp) fun addr => ?_
        rw [hpcb]
        exact ⟨rfl, rfl⟩
      · -- First the terminal is left, and then the shell starts.
        obtain ⟨ds, s₁, hleave, h₁⟩ : ∃ ds s₁, Run (ArgStep fs) s ds s₁ ∧
            HasArgs { a with kernel := leaveTerminal ebp a.kernel } s₁ :=
          h.other (fun p hp => hp) fun _ => ⟨rfl, rfl⟩
        obtain ⟨ds', s', hstart, h'⟩ := h₁.start hexec (by decide)
        exact ⟨ds ++ ds', s', hleave.append hstart, h'⟩

/-- **Runs of the process machine** are runs of the history, with the arguments of every process. -/
theorem argHistory_of_run {fs : Image} {m : PowerOn} {es : List ProcEvent} {a : ProcState}
    (hrun : ProcState.Steps fs (.boot m) es a) :
    ∃ ds s, Run (ArgStep fs) (.start (bootKernel m)) ds s ∧ HasArgs a s := by
  have hstart : HasArgs (.boot m) (.start (bootKernel m)) := ⟨rfl, fun _ hp => nomatch hp⟩
  obtain ⟨ds, s, hruns, h⟩ := hrun.simulates HasArgs hstart fun _ _ _ _ h hstep => h.step hstep
  exact ⟨ds, s, hruns, h⟩

end JuddOS
