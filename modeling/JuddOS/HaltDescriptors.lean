import JuddOS.OpenExact

/-!
# `halt` and the descriptors

A process that has a parent leaves `halt` through the loop that clears its descriptors.  The root
shell of a terminal is restarted before that loop, with the table it had.

* `PcbStep`: what happens to the descriptors of one PCB, over the processes that use it.
* `halt_frees_iff`: one `halt`.
* `halts_clean_iff`: the runs in which every `halt` leaves all descriptors free.
-/

namespace JuddOS

open Image Support

/-- Descriptors 2 to 7 are free. -/
def AllFree (io : Io) (addr : Nat) : Prop :=
  ∀ fd, 2 ≤ fd → fd < fdArraySize → (io.fds addr fd).flags = 0

/-- What happens to a PCB. -/
inductive PcbEvent
  | call (c : Option FileCall)
  | halts
  | starts

/-- The process of a PCB makes a call, or something else happens that leaves its descriptors alone;
it halts, and the root shell of a terminal runs again; or `execute` sets up a process there. -/
inductive PcbStep (fs : Image) (addr : Nat) : FdHistory → PcbEvent → FdHistory → Prop
  | call {s s' : FdHistory} {c : Option FileCall} (h : FdStep fs addr s c s') :
      PcbStep fs addr s (.call c) s'
  | restarts {s : FdHistory} {esp : Nat} {k : Kernel} (hesp : getCurrPcb esp = addr)
      (h : halt esp s.io.kernel = .user k) :
      PcbStep fs addr s .halts ⟨{ s.io with kernel := k }, s.entry⟩
  | exits {s : FdHistory} {esp ebp : Nat} {k : Kernel} (hesp : getCurrPcb esp = addr)
      (h : halt esp s.io.kernel = .frame k ebp) :
      PcbStep fs addr s .halts ⟨{ s.io with kernel := k }, s.entry⟩
  | starts {s : FdHistory} {esp : Nat} : PcbStep fs addr s .starts (.fresh addr esp s.io)

/-! ## The two exits of `halt` -/

section Halt

variable {esp : Nat} {k : Kernel}

/-- A root shell runs again. -/
theorem halt_root (h : (k.pcb (getCurrPcb esp)).parent = 0) :
    ∃ k', halt esp k = .user k' ∧ k'.pcb = k.pcb := by
  unfold halt
  dsimp only
  rw [if_pos h]
  exact ⟨_, rfl, rfl⟩

/-- Another process leaves its descriptors free. -/
theorem halt_child (h : (k.pcb (getCurrPcb esp)).parent ≠ 0) :
    ∃ k' ebp, halt esp k = .frame k' ebp ∧
      ∀ fd, fd < fdArraySize → ((k'.pcb (getCurrPcb esp)).fdArray fd) = Fd.free := by
  unfold halt
  dsimp only
  rw [if_neg h]
  refine ⟨_, _, rfl, fun fd hfd => ?_⟩
  simp [haltCloseFds, haltSetRecent, haltMapParent, haltFreeMemory, haltReleasePid,
    haltRestoreEsp0, Kernel.setTerminal, hfd]

end Halt

/-- **One `halt`** leaves the descriptors free exactly when the process has a parent or has nothing
open. -/
theorem halt_frees_iff {fs : Image} {addr : Nat} {s s' : FdHistory}
    (hstep : PcbStep fs addr s .halts s') :
    AllFree s'.io addr ↔ (s.io.kernel.pcb addr).parent ≠ 0 ∨ AllFree s.io addr := by
  cases hstep with
  | @restarts esp k hesp h =>
      subst hesp
      by_cases hparent : (s.io.kernel.pcb (getCurrPcb esp)).parent = 0
      · obtain ⟨k', hhalt, hpcb⟩ := halt_root hparent
        rw [hhalt] at h
        cases h
        have hsame : AllFree { s.io with kernel := k } (getCurrPcb esp) ↔
            AllFree s.io (getCurrPcb esp) := by
          unfold AllFree Io.fds
          rw [hpcb]
        rw [hsame]
        exact ⟨.inr, fun h => h.resolve_left fun hne => hne hparent⟩
      · obtain ⟨k', ebp, hhalt, -⟩ := halt_child hparent
        rw [hhalt] at h
        cases h
  | @exits esp ebp k hesp h =>
      subst hesp
      by_cases hparent : (s.io.kernel.pcb (getCurrPcb esp)).parent = 0
      · obtain ⟨k', hhalt, -⟩ := halt_root hparent
        rw [hhalt] at h
        cases h
      · obtain ⟨k', ebp', hhalt, hfree⟩ := halt_child hparent
        rw [hhalt] at h
        cases h
        refine ⟨fun _ => .inl hparent, fun _ fd _ hlt => ?_⟩
        have hfd := hfree fd hlt
        unfold Io.fds
        dsimp only
        rw [hfd]
        rfl

/-- A new process finds its descriptors free. -/
theorem starts_free {fs : Image} {addr : Nat} {s s' : FdHistory}
    (hstep : PcbStep fs addr s .starts s') : AllFree s'.io addr := by
  cases hstep with
  | @starts esp =>
      intro fd hge hlt
      have hfds : (FdHistory.fresh addr esp s.io).io.fds addr = initialFdArray (s.io.fds addr) := by
        simp [FdHistory.fresh, Io.fds, executeFillpcb]
      rw [hfds, initialFdArray_free _ hge hlt]
      rfl

/-! ## Runs -/

/-- Whatever runs next with the PCB finds all descriptors free. -/
def LeavesFree (addr : Nat) (e : PcbEvent) (s' : FdHistory) : Prop :=
  e = .halts ∨ e = .starts → AllFree s'.io addr

/-- A process that halts has a parent, or has closed what it opened. -/
def HaltsClean (addr : Nat) (s : FdHistory) (e : PcbEvent) : Prop :=
  e = .halts → (s.io.kernel.pcb addr).parent ≠ 0 ∨ AllFree s.io addr

/-- **In a run every process starts with all descriptors free exactly when** every process that
halts has a parent or has closed what it opened. -/
theorem halts_clean_iff {fs : Image} {addr esp : Nat} {io : Io} {es : List PcbEvent}
    {s : FdHistory} :
    Run (fun a e b => PcbStep fs addr a e b ∧ LeavesFree addr e b) (.fresh addr esp io) es s ↔
      Run (fun a e b => PcbStep fs addr a e b ∧ HaltsClean addr a e) (.fresh addr esp io) es s := by
  refine Run.and_iff (fun _ => True) trivial (fun a e b _ hstep => ?_) fun _ _ _ _ _ _ => trivial
  unfold LeavesFree HaltsClean
  cases e with
  | call c =>
      constructor
      · intro _ h
        cases h
      · rintro _ (h | h) <;> cases h
  | halts =>
      have hiff := halt_frees_iff hstep
      exact ⟨fun h _ => hiff.mp (h (.inl rfl)), fun h _ => hiff.mpr (h rfl)⟩
  | starts =>
      constructor
      · intro _ h
        cases h
      · exact fun _ _ => starts_free hstep

/-- The root shell after it has opened a directory. -/
def rootWithDirectory : FdHistory :=
  ⟨(FdHistory.fresh (getCurrPcb espOfFirst) espOfFirst Io.blank).io.setFd (getCurrPcb espOfFirst) 2
    fun _ => ⟨some .dir, 0, 0, 1⟩, Function.update (fun _ => none) 2 (some 0)⟩

/-- The root shell leaves the descriptor open to the shell that is restarted. -/
theorem halt_root_leaks :
    ¬ ∀ (fs : Image) (addr esp : Nat) (io : Io) (es : List PcbEvent) (s s' : FdHistory),
      Run (PcbStep fs addr) (.fresh addr esp io) es s → PcbStep fs addr s .halts s' →
      AllFree s'.io addr := by
  intro hall
  have hopen : (FileCall.opens (some dotName)).run oneDirectory dotName (fun _ io => io) espOfFirst
      (FdHistory.fresh (getCurrPcb espOfFirst) espOfFirst Io.blank).io =
      .returned 2 () rootWithDirectory.io := rfl
  have hrun := Run.single (PcbStep.call
    (FdStep.call (.opens (some dotName)) rfl (fun _ _ => .refl _) hopen))
  have hroot : (rootWithDirectory.io.kernel.pcb (getCurrPcb espOfFirst)).parent = 0 := rfl
  obtain ⟨k, hhalt, hpcb⟩ := halt_root hroot
  have hfree := hall _ _ _ _ _ _ _ hrun (.restarts rfl hhalt) 2 (by decide) (by decide)
  unfold Io.fds at hfree
  dsimp only at hfree
  rw [hpcb] at hfree
  exact absurd hfree (by decide)

end JuddOS
