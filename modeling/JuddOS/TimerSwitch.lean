import JuddOS.HaltPreemption

/-!
# The switch of `pit_handler`

`pit_handler` starts a shell on the next terminal if that is off, and relies on `execute` not to
return.  It does return when there is no process number left.

* `pitSwitch` is the kernel in which `pit_handler` goes on to read `most_recent_pcb` of the next
  terminal, and `pitHandler_of_switch` says that this is what happens.
* `timerSwitch_iff`: in every reachable state the switch finds a process exactly when the next
  terminal is on or there is a process number left.
-/

namespace JuddOS

open Image Support

/-- A file system with a shell that can be started. -/
structure ValidShell (fs : Image) : Prop where
  exists_entry : ∃ i, NamesProgram fs shellCString i
  inode : fs.openedInode (firstWord shellCommand) < fs.numInodes
  header : 4 ≤ (fs.fileLength (fs.openedInode (firstWord shellCommand))).toNat
  magic : hasExeMagic (fs.fileByte (fs.openedInode (firstWord shellCommand))) = true
  fits : (fs.fileLength (fs.openedInode (firstWord shellCommand))).toNat ≤ loadSpace

/-- A shell is started as long as there is a process number. -/
theorem ValidShell.accepted {fs : Image} (h : ValidShell fs) {exeCheck : Buf}
    {pidBits : Nat → UInt8} (hfree : firstFreePid pidBits 6 0 ≠ 6) :
    ¬ Rejected fs shellCString.val exeCheck pidBits := by
  have hval : shellCString.val = shellCommand := rfl
  rw [hval]
  rintro (hhead | hparse | hrefused | hexe | hfull)
  · revert hhead
    decide
  · revert hparse
    decide
  · have hinode := UInt32.lt_iff_toNat_lt.mp h.inode
    have hheader := h.header
    rcases hrefused with hout | hempty
    · have hone : (1 : UInt32).toNat = 1 := rfl
      have hsub : (fs.numInodes - 1).toNat = fs.numInodes.toNat - 1 :=
        UInt32.toNat_sub_of_le _ _ (UInt32.le_iff_toNat_le.mpr (by omega))
      rw [gt_iff_lt, UInt32.lt_iff_toNat_lt, hsub] at hout
      omega
    · have hle := UInt32.le_iff_toNat_le.mp hempty
      have hzero : (0 : UInt32).toNat = 0 := rfl
      omega
  · have hsame : hasExeMagic (fileHeader fs (fs.openedInode (firstWord shellCommand)) exeCheck) =
        hasExeMagic (fs.fileByte (fs.openedInode (firstWord shellCommand))) :=
      hasExeMagic_congr fun j hj => if_pos (Nat.lt_of_lt_of_le hj h.header)
    rw [hsame, h.magic] at hexe
    cases hexe
  · exact hfree hfull

theorem ValidShell.starts {fs : Image} (h : ValidShell fs) {k : Kernel} (exeCheck : Buf)
    (esp ebp : Nat) (hfree : firstFreePid k.pidBits 6 0 ≠ 6) :
    ∃ k', execute fs shellCommand exeCheck esp ebp k = .user k' := by
  have haccepted : ¬ Rejected fs shellCString.val exeCheck k.pidBits := h.accepted hfree
  obtain ⟨k', hexec, -⟩ := execute_user esp ebp haccepted h.fits
  exact ⟨k', hexec⟩

/-! ## The two halves of the handler -/

/-- The kernel in which `pit_handler` reads `next_terminal->most_recent_pcb`, if it comes to
that. -/
def pitSwitch (fs : Image) (exeCheck : Buf) (esp ebp ebpExecute : Nat) (k : Kernel) :
    Option Kernel :=
  let k := leaveTerminal ebp k
  if (k.terminalArr k.terminalNum).active = false then
    match execute fs shellCommand exeCheck esp ebpExecute k with
    | .returned k => some k
    | _ => none
  else some k

/-- `pit_handler` goes on with the kernel of `pitSwitch`. -/
theorem pitHandler_of_switch {fs : Image} {exeCheck : Buf} {esp ebp ebpExecute : Nat}
    {k k' : Kernel} (h : pitSwitch fs exeCheck esp ebp ebpExecute k = some k') :
    pitHandler fs exeCheck esp ebp ebpExecute k = resumeTerminal k'.terminalNum k' := by
  rw [pitSwitch] at h
  rw [pitHandler]
  split at h
  case isTrue hoff =>
    rw [if_pos hoff]
    cases hexec : execute fs shellCommand exeCheck esp ebpExecute (leaveTerminal ebp k) with
    | returned k₁ =>
        rw [hexec] at h
        cases h
        rfl
    | user k₁ =>
        rw [hexec] at h
        cases h
    | frame k₁ ebp =>
        rw [hexec] at h
        cases h
    | fault =>
        rw [hexec] at h
        cases h
  case isFalse hon =>
    cases h
    rw [if_neg hon]

/-- The switch finds a terminal that is on, and the PCB of a live process. -/
structure FindsProcess (live : List Nat) (k : Kernel) : Prop where
  active : (k.terminalArr k.terminalNum).active = true
  process : ∃ p ∈ live, (k.terminalArr k.terminalNum).mostRecentPcb = pcbAddr p ∧
    (k.pcb (pcbAddr p)).pid = p

/-- A terminal that is on has a process. -/
theorem Linked.findsProcess {k : Kernel} {live : List Nat} {σ : Stacks Tid Nat}
    (h : Linked k live (fun _ => none) σ) {t : Tid} (hactive : (k.terminalArr t).active = true) :
    ∃ p ∈ live, (k.terminalArr t).mostRecentPcb = pcbAddr p ∧ (k.pcb (pcbAddr p)).pid = p := by
  obtain ⟨p, rest, hchain⟩ := List.exists_cons_of_ne_nil ((h.active t).mp hactive)
  have hmem : p ∈ σ.chain t := hchain ▸ List.mem_cons_self ..
  refine ⟨p, (h.alive p).mpr ⟨t, by rwa [liveOf_none]⟩, ?_, (h.chained t).pid hmem⟩
  rw [h.recent, hchain, recentOf_none, topPcb_cons]

/-- **The timer finds a process exactly when** the next terminal is on or a process number is
free. -/
theorem timerSwitch_iff (fs : Image) (m : PowerOn) (es : List ProcEvent) (s : ProcState)
    (hshell : ValidShell fs) (hrun : ProcState.Steps fs (.boot m) es s) (exeCheck : Buf)
    (esp ebp ebpExecute : Nat) :
    (∀ k, pitSwitch fs exeCheck esp ebp ebpExecute s.kernel = some k → FindsProcess s.live k) ↔
      (s.kernel.terminalArr (s.kernel.terminalNum + 1)).active = true ∨
        ∃ p, p < 6 ∧ s.kernel.pidBits p ≠ 1 := by
  obtain ⟨b, σ, hbetween, hcoherent⟩ := ProcState.coherent_of_run hrun
  have hlinked := hcoherent.linked
  rw [hbetween.kernel, hbetween.live, hbetween.halting] at hlinked
  have hfull : firstFreePid s.kernel.pidBits 6 0 ≠ 6 ↔ ∃ p, p < 6 ∧ s.kernel.pidBits p ≠ 1 := by
    obtain ⟨-, hle, hbefore, hat⟩ := firstFreePid_spec s.kernel.pidBits 6 0
    constructor
    · intro hne
      exact ⟨_, by omega, hat (by omega)⟩
    · rintro ⟨p, hp, hbit⟩ heq
      exact hbit (hbefore p (Nat.zero_le p) (by omega))
  rw [← hfull]
  unfold pitSwitch
  dsimp only
  rw [leaveTerminal_terminalNum, leaveTerminal_next]
  cases hnext : (s.kernel.terminalArr (s.kernel.terminalNum + 1)).active with
  | true =>
      refine iff_of_true (fun k hk => ?_) (.inl rfl)
      cases hk
      constructor
      case active => rw [leaveTerminal_terminalNum, leaveTerminal_next, hnext]
      case process =>
        rw [leaveTerminal_terminalNum, leaveTerminal_next]
        exact hlinked.findsProcess hnext
  | false =>
      rw [if_pos rfl]
      have hbits : (leaveTerminal ebp s.kernel).pidBits = s.kernel.pidBits := rfl
      by_cases hfree : firstFreePid s.kernel.pidBits 6 0 = 6
      · -- `execute` returns, and the next terminal is still off
        have hrej : Rejected fs shellCString.val exeCheck (leaveTerminal ebp s.kernel).pidBits :=
          .inr (.inr (.inr (.inr hfree)))
        obtain ⟨size, opened, hexec⟩ := execute_of_rejected esp ebpExecute hrej
        have hret : execute fs shellCommand exeCheck esp ebpExecute (leaveTerminal ebp s.kernel) =
            _ := hexec
        rw [hret]
        refine iff_of_false (fun hall => ?_) (by simp [hfree])
        have hon := (hall _ rfl).active
        dsimp only at hon
        rw [leaveTerminal_terminalNum, leaveTerminal_next, hnext] at hon
        cases hon
      · obtain ⟨k', hexec⟩ := hshell.starts (k := leaveTerminal ebp s.kernel) exeCheck esp
          ebpExecute hfree
        rw [hexec]
        exact iff_of_true (fun k hk => nomatch hk) (.inr hfree)

/-! ## A full process table -/

theorem validShell_shellImage : ValidShell shellImage where
  exists_entry := ⟨0, by decide, by decide, by decide⟩
  inode := by decide
  header := by decide
  magic := by decide
  fits := by decide

/-- The first shell, and the timer after it. -/
theorem timerSwitch_firstShell :
    ∃ s, ProcState.Steps shellImage (.boot .blank) [.execute shellCString (fun _ => 0) 0 0] s ∧
      ValidShell shellImage ∧
      ((∀ k, pitSwitch shellImage (fun _ => 0) 0 0 0 s.kernel = some k → FindsProcess s.live k) ↔
        (s.kernel.terminalArr (s.kernel.terminalNum + 1)).active = true ∨
          ∃ p, p < 6 ∧ s.kernel.pidBits p ≠ 1) := by
  obtain ⟨s, hrun, -⟩ := exists_firstShell .blank
  exact ⟨s, hrun, validShell_shellImage,
    timerSwitch_iff _ _ _ s validShell_shellImage hrun (fun _ => 0) 0 0 0⟩

/-- Terminal 0 has started `n` shells, each from the one before, and no tick has come. -/
structure ShellTower (n : Nat) (s : ProcState) : Prop where
  may : MayExecute s.kernel s.live shellCString s.kernel.tssEsp0 s.kernel.tssEsp0
  bits : ∀ p, s.kernel.pidBits p = 1 ↔ p < n
  terminalNum : s.kernel.terminalNum = 0
  off : (s.kernel.terminalArr 1).active = false

theorem ShellTower.firstFreePid {n : Nat} {s : ProcState} (h : ShellTower n s) (hn : n ≤ 6) :
    firstFreePid s.kernel.pidBits 6 0 = n := by
  obtain ⟨-, hle, hbefore, hat⟩ := firstFreePid_spec s.kernel.pidBits 6 0
  rcases Nat.lt_trichotomy (JuddOS.firstFreePid s.kernel.pidBits 6 0) n with hlt | heq | hgt
  · exact absurd ((h.bits _).mpr hlt) (hat (by omega))
  · exact heq
  · have hself := (h.bits n).mp (hbefore n (Nat.zero_le n) hgt)
    omega

theorem exists_shellTower (n : Nat) (hn : n ≤ 6) :
    ∃ es s, ProcState.Steps shellImage (.boot .blank) es s ∧ ShellTower n s := by
  induction n with
  | zero =>
      have hboot := booted_bootKernel .blank
      refine ⟨[], .boot .blank, .nil _, .inl ⟨rfl, rfl⟩, fun p => ?_, hboot.terminalNum, ?_⟩
      · have hbits : (ProcState.boot .blank).kernel.pidBits = fun _ => 0 := hboot.pidBits
        rw [hbits]
        exact iff_of_false (show (0 : UInt8) ≠ 1 by decide) (Nat.not_lt_zero p)
      · have hterm : (ProcState.boot .blank).kernel.terminalArr = initialTerminal :=
          hboot.terminalArr
        rw [hterm]
        rfl
  | succ n ih =>
      obtain ⟨es, s, hrun, htower⟩ := ih (by omega)
      have hfree := htower.firstFreePid (by omega)
      obtain ⟨k', hexec, hstarted⟩ := execute_shell (k := s.kernel) s.kernel.tssEsp0
        s.kernel.tssEsp0 (by omega)
      rw [hfree] at hstarted
      have hstep : s.step shellImage
          (.execute shellCString (fun _ => 0) s.kernel.tssEsp0 s.kernel.tssEsp0) =
          some { kernel := k', live := k'.availablePid :: s.live } := by
        rw [ProcState.step, if_pos htower.may, hexec]
      refine ⟨_, _, hrun.snoc hstep, ?_, fun p => ?_, ?_, ?_⟩
      · refine .inr ⟨List.cons_ne_nil _ _, rfl, rfl, by decide, ?_⟩
        have hesp0 : k'.tssEsp0 = kernelStackTop n := hstarted.tssEsp0
        exact hesp0 ▸ roomForArrays_shell hn
      · rw [hstarted.pidBits, Function.update_apply]
        by_cases hp : p = n
        · rw [if_pos hp]
          exact iff_of_true rfl (by omega)
        · rw [if_neg hp, htower.bits]
          omega
      · exact hstarted.terminalNum.trans htower.terminalNum
      · dsimp only
        rw [hstarted.terminalArr, htower.terminalNum, Function.update_of_ne (by decide)]
        exact htower.off

/-- Six shells on terminal 0, and the first tick: terminal 1 is off, and stays off. -/
theorem timer_finds_no_process :
    ¬ ∀ (fs : Image) (m : PowerOn) (es : List ProcEvent) (s : ProcState), ValidShell fs →
      ProcState.Steps fs (.boot m) es s →
      ∀ (exeCheck : Buf) (esp ebp ebpExecute : Nat) (k : Kernel),
        pitSwitch fs exeCheck esp ebp ebpExecute s.kernel = some k → FindsProcess s.live k := by
  intro hall
  obtain ⟨es, s, hrun, htower⟩ := exists_shellTower 6 (Nat.le_refl 6)
  have hfull : firstFreePid (leaveTerminal 0 s.kernel).pidBits 6 0 = 6 :=
    htower.firstFreePid (Nat.le_refl 6)
  have hoff : ((leaveTerminal 0 s.kernel).terminalArr
      (leaveTerminal 0 s.kernel).terminalNum).active = false := by
    rw [leaveTerminal_terminalNum, leaveTerminal_next, htower.terminalNum]
    exact htower.off
  have hrej : Rejected shellImage shellCString.val (fun _ => 0) (leaveTerminal 0 s.kernel).pidBits :=
    .inr (.inr (.inr (.inr hfull)))
  obtain ⟨size, opened, hexec⟩ := execute_of_rejected 0 0 hrej
  have hswitch : pitSwitch shellImage (fun _ => 0) 0 0 0 s.kernel = some
      { leaveTerminal 0 s.kernel with sizeOfArgs := size, openedFile := opened } := by
    rw [pitSwitch, if_pos hoff, show shellCommand = shellCString.val from rfl, hexec]
  have hfinds := hall shellImage .blank es s validShell_shellImage hrun _ 0 0 0 _ hswitch
  have hon := hfinds.active
  dsimp only at hon
  rw [hoff] at hon
  cases hon

end JuddOS
