import JuddOS.SystemCall
import JuddOS.X86.Frames

/-!
# The frames that a process waits in

A process that does not run has left two things on its kernel stack: what the wrapper of an
interrupt or of a system call pushed, and the frame of the C function that gave the processor away.
`pit_handler` and `halt` go on with a process by a jump through that frame.

* `wrapper_transparent`: the wrappers of devices give everything back.
* `PitFrame` is what the timer leaves (`pitFrame_of_switch`), and `PitFrame.resumes` says that a
  process that is gone on with through it finds all its registers.
* `ExecuteFrame` is the same for a process that waits in `execute`; it finds the status of its
  child in EAX.

The C functions are compiled with a frame pointer, without which the jumps would make no sense;
what else is in their bodies is not said (`Body`).
-/

namespace JuddOS

open X86 X86.Asm

abbrev kernelDs : BitVec 16 := 0x0018

/-! ## The wrappers of interrupts -/

/-- `IRQ_KEYBOARD`, `IRQ_RTC` and `IRQ_PIT` up to the entry of their handler. -/
def irqCall (ret : Word) (s : State) : State := s.pushal.pushfl.push ret

/-- The wrappers from the return of their handler on. -/
def irqReturn (s : State) : Context := s.popfl.popal.iret kernelDs

/-- An interrupt finds room on the kernel stack of the process. -/
structure OnStack (bottom esp0 : Word) (x : Context) : Prop where
  room : 128 ≤ height bottom (x.handlerStack esp0)
  top : height bottom (x.handlerStack esp0) ≤ 0x2000
  segment : x.user = false → x.ss = kernelDs

/-- What a wrapper pops. -/
structure WrapperFrame (mem : Memory) (a : Word) (flags : Eflags) (regs : Reg → Word)
    (x : Context) : Prop where
  words : Holds mem a (flags :: (State.pushalWords regs ++ x.frame))
  regs : ∀ r, r ≠ .esp → regs r = x.regs r
  inner : x.user = false → a + 48 = x.regs .esp ∧ kernelDs = x.ss

section Wrapper

variable {mem mem' : Memory} {a bottom esp esp0 ret : Word} {flags : Eflags} {regs : Reg → Word}
  {x : Context}

theorem WrapperFrame.length (x : Context) (flags : Eflags) (regs : Reg → Word) :
    (flags :: (State.pushalWords regs ++ x.frame)).length = 9 + x.frame.length := by
  simp only [State.pushalWords, List.length_cons, List.length_append, List.length_nil]
  omega

theorem WrapperFrame.stays (h : WrapperFrame mem a flags regs x)
    (hstays : Stays bottom esp mem mem') (hle : height bottom esp ≤ height bottom a)
    (htop : height bottom a ≤ 0x2000) : WrapperFrame mem' a flags regs x := by
  have hlength := WrapperFrame.length x flags regs
  have hframe := x.frame_length_le
  exact ⟨hstays.holds h.words hle (by omega), h.regs, h.inner⟩

/-- **The end of a wrapper** gives the interrupted code its registers back. -/
theorem WrapperFrame.returns {s : State} (h : WrapperFrame s.mem (s.regs .esp) flags regs x) :
    irqReturn s = x := by
  obtain ⟨-, hregsOn⟩ := State.Stacked.pop (s := s) h.words
  have hflags : s.popfl.Stacked (State.pushalWords regs ++ x.frame) := hregsOn
  obtain ⟨hregs, hesp, hframe⟩ := hflags.popal
  refine State.iret_eq hframe (fun r hr => (hregs r hr).trans (h.regs r hr)) fun hinner => ?_
  obtain ⟨hback, hss⟩ := h.inner hinner
  have hpopfl : s.popfl.regs .esp = s.regs .esp + 4 := State.drop_esp s
  refine ⟨?_, hss⟩
  rw [hesp, hpopfl, ← hback]
  bv_omega

/-- The handler of an interrupt is called. -/
structure HandlerCalled (bottom esp0 ret : Word) (mem : Memory) (x : Context) (s : State) :
    Prop where
  top : s.top = ret
  frame : ∃ flags regs, WrapperFrame s.mem (s.regs .esp + 4) flags regs x
  stays : Stays bottom (x.handlerStack esp0) mem s.mem
  ebp : s.regs .ebp = x.regs .ebp
  room : 68 ≤ height bottom (s.regs .esp)
  above : height bottom (s.regs .esp) + 4 * (10 + x.frame.length) =
    height bottom (x.handlerStack esp0)

/-- **The beginning of a wrapper** saves the interrupted code. -/
theorem OnStack.called (hon : OnStack bottom esp0 x) (gate : Gate) (segs : Seg → BitVec 16)
    (mem : Memory) (ret : Word) :
    HandlerCalled bottom esp0 ret mem x (irqCall ret (x.interrupted gate esp0 segs mem)) := by
  have hlength := x.frame_length
  have hshort := x.frame_length_le
  obtain ⟨hroom, htop, hsegment⟩ := hon
  have hentry : HandlerEntry bottom esp0 mem x _ :=
    x.interrupted_entry gate esp0 segs mem (by omega)
  obtain ⟨s, hs⟩ : ∃ s, x.interrupted gate esp0 segs mem = s := ⟨_, rfl⟩
  rw [hs] at hentry ⊢
  have hheight := hentry.height
  have hpushed : PushedOn bottom s x.frame (ret :: s.eflags :: State.pushalWords s.regs)
      (irqCall ret s) :=
    State.pushedOn hentry.stack (by simp [State.pushalWords]; omega) (by omega)
  obtain ⟨⟨hregs, -, -, hesp, hstack⟩, hstays, hdown⟩ := hpushed
  have hten : (ret :: s.eflags :: State.pushalWords s.regs).length = 10 := rfl
  rw [hten] at hesp hdown
  refine ⟨hstack.pop.1, ⟨s.eflags, s.regs, hstack.pop.2, hentry.regs, fun hinner => ?_⟩, ?_, ?_,
    ?_, ?_⟩
  · have hesp₁ := hentry.esp
    rw [hlength, hinner, Context.handlerStack, hinner] at hesp₁
    refine ⟨?_, (hsegment hinner).symm⟩
    simp only [Bool.false_eq_true, if_false] at hesp₁
    rw [hesp, hesp₁]
    bv_omega
  · exact hentry.stays.trans hstays (by omega)
  · rw [hregs .ebp (by decide), hentry.regs .ebp (by decide)]
  · omega
  · omega

/-- **A handler of a device** changes no register of the code that it interrupts. -/
theorem HandlerCalled.transparent {s s' : State} (h : HandlerCalled bottom esp0 ret mem x s)
    (hon : OnStack bottom esp0 x) (hesp : s'.regs .esp = s.regs .esp + 4)
    (hstays : Stays bottom (s.regs .esp + 4) s.mem s'.mem) :
    irqReturn s' = x ∧ Stays bottom (x.handlerStack esp0) mem s'.mem := by
  obtain ⟨-, ⟨flags, regs, hframe⟩, hbefore, -, hroom, habove⟩ := h
  have hup : height bottom (s.regs .esp + 4) = height bottom (s.regs .esp) + 4 :=
    height_add (n := 4) (by have := hon.top; omega)
  constructor
  · have hlast := hframe.stays hstays (le_refl _) (by have := hon.top; omega)
    rw [← hesp] at hlast
    exact hlast.returns
  · exact hbefore.trans hstays (by omega)

end Wrapper

/-! ## The timer -/

/-- `IRQ_PIT_handler` and `pit_handler`, up to where the second one saves EBP. -/
def ReachesSwitch (bottom ret : Word) (entry s : State) : Prop :=
  ∃ s₁, Body bottom 8 entry.enter s₁ ∧ Body bottom 0 (s₁.push ret).enter s

/-- `pit_handler` leaves through the frame at `ebp` from `s`.  When it returns to `IRQ_PIT_handler`,
at `ret'`, and this to `IRQ_PIT`, at `ret`, the code `x` goes on. -/
def Switches (bottom ret ret' ebp : Word) (s : State) (x : Context) (mem : Memory) : Prop :=
  (s.setReg .ebp ebp).leave.top = ret' →
    ∃ s₁, Body bottom 0 (s.setReg .ebp ebp).leaveRet s₁ ∧
      (s₁.leave.top = ret → x = irqReturn s₁.leaveRet ∧ mem = s₁.mem)

/-- The frames of `pit_handler`, at `ebp`, and of `IRQ_PIT_handler`, at `base`, on top of what
`IRQ_PIT` pushed. -/
structure PitFrame (bottom ret ret' : Word) (mem : Memory) (ebp base : Word) (x : Context) :
    Prop where
  inner : Holds mem ebp [base, ret']
  outer : Holds mem base [x.regs .ebp, ret]
  wrapper : ∃ flags regs, WrapperFrame mem (base + 8) flags regs x
  order : height bottom ebp + 8 ≤ height bottom base
  top : height bottom base + 4 * (11 + x.frame.length) ≤ 0x2000

section Timer

variable {bottom esp0 ret ret' ebp base : Word} {mem mem' : Memory} {x : Context}
  {entry s s' : State}

/-- **What the timer leaves** on the stack of the process that it takes the processor from. -/
theorem HandlerCalled.switch (h : HandlerCalled bottom esp0 ret mem x entry)
    (hon : OnStack bottom esp0 x) (hreaches : ReachesSwitch bottom ret' entry s) :
    (∃ base, PitFrame bottom ret ret' s.mem (s.regs .ebp) base x) ∧
      Stays bottom (x.handlerStack esp0) mem s.mem := by
  obtain ⟨htop, ⟨flags, regs, hframe⟩, hbefore, hebp, hroom, habove⟩ := h
  obtain ⟨s₁, ⟨hebp₁, hstays₁, hbelow₁, hroom₁⟩, ⟨hebp₂, hstays₂, hbelow₂, -⟩⟩ := hreaches
  have hlimit := hon.top
  have hup : height bottom (entry.regs .esp + 4) = height bottom (entry.regs .esp) + 4 :=
    height_add (n := 4) (by omega)
  -- the frame of `IRQ_PIT_handler`
  have hret : State.Stacked entry [ret] := ⟨htop, trivial⟩
  obtain ⟨hbase, hesp, houter, hpush⟩ :=
    State.Stacked.enter hret (show 4 ≤ height bottom _ by omega) (by simp)
  have hdown : height bottom (entry.enter.regs .ebp) + 4 = height bottom (entry.regs .esp) := by
    rw [hbase, height_push (by omega)]
    omega
  rw [hesp, ← hbase] at hstays₁ hbelow₁
  have hwrapper := (hframe.stays hpush (by omega) (by omega)).stays hstays₁ (by omega) (by omega)
  have houter₁ := hstays₁.holds houter (by omega) (by simp; omega)
  -- the frame of `pit_handler`
  obtain ⟨hdown₁, hesp₁, hinner, hcall⟩ := s₁.call_enter bottom ret' hroom₁
  rw [hesp₁] at hstays₂
  have hinner₂ := hstays₂.holds hinner (by omega) (by simp; omega)
  have houter₂ := (hcall.trans hstays₂ (by omega)).holds houter₁ (by omega) (by simp; omega)
  have hwrapper₂ := hwrapper.stays (hcall.trans hstays₂ (by omega)) (by omega) (by omega)
  rw [hebp₁] at hinner₂
  rw [hebp] at houter₂
  have hbase₈ : entry.enter.regs .ebp + 8 = entry.regs .esp + 4 := by
    rw [hbase]
    bv_omega
  rw [← hbase₈] at hwrapper₂
  refine ⟨⟨entry.enter.regs .ebp, ?_⟩, ?_⟩
  · rw [hebp₂]
    exact ⟨hinner₂, houter₂, ⟨flags, regs, hwrapper₂⟩, by omega, by omega⟩
  · have hlast := hcall.trans hstays₂ (by omega)
    exact ((hbefore.trans hpush (by omega)).trans hstays₁ (by omega)).trans hlast (by omega)

theorem PitFrame.congr (h : PitFrame bottom ret ret' mem ebp base x)
    (hsame : ∀ a, height bottom a < 0x2000 → mem' a = mem a) :
    PitFrame bottom ret ret' mem' ebp base x := by
  obtain ⟨hinner, houter, ⟨flags, regs, hwords, hregs, hback⟩, horder, htop⟩ := h
  have hlength := WrapperFrame.length x flags regs
  have hup : height bottom (base + 8) = height bottom base + 8 := height_add (n := 8) (by omega)
  exact ⟨holds_of_height hinner hsame (by simp; omega) (by decide),
    holds_of_height houter hsame (by simp; omega) (by decide),
    ⟨flags, regs, holds_of_height hwords hsame (by omega) (by decide), hregs, hback⟩, horder, htop⟩

/-- The frame stays when only the stack below it changes. -/
theorem PitFrame.stays (h : PitFrame bottom ret ret' mem ebp base x)
    (hstays : Stays bottom ebp mem mem') : PitFrame bottom ret ret' mem' ebp base x := by
  obtain ⟨hinner, houter, ⟨flags, regs, hwrapper⟩, horder, htop⟩ := h
  have hup : height bottom (base + 8) = height bottom base + 8 := height_add (n := 8) (by omega)
  exact ⟨hstays.holds hinner (le_refl _) (by simp; omega),
    hstays.holds houter (by omega) (by simp; omega),
    ⟨flags, regs, hwrapper.stays hstays (by omega) (by omega)⟩, horder, htop⟩

/-- **A process that the timer took the processor from** finds all its registers when it is gone on
with through its frame, whatever the other processes have left in the registers. -/
theorem PitFrame.resumes {y : Context} (h : PitFrame bottom ret ret' s.mem ebp base x)
    (hswitches : Switches bottom ret ret' ebp s y mem') :
    y = x ∧ Stays bottom (ebp + 8) s.mem mem' := by
  obtain ⟨hinner, houter, ⟨flags, regs, hwrapper⟩, horder, htop⟩ := h
  have hup : height bottom (ebp + 8) = height bottom ebp + 8 := height_add (n := 8) (by omega)
  have hup' : height bottom (base + 8) = height bottom base + 8 := height_add (n := 8) (by omega)
  -- `pit_handler` returns to `IRQ_PIT_handler`
  have hebp : (s.setReg .ebp ebp).regs .ebp = ebp := State.setReg_self _ _ _
  have hframe : Holds (s.setReg .ebp ebp).mem ((s.setReg .ebp ebp).regs .ebp) [base, ret'] := by
    rw [hebp]
    exact hinner
  obtain ⟨hto, hbase, hesp, -, hmem, -⟩ := State.leaveRet_of_holds hframe
  obtain ⟨s₁, ⟨hebp₁, hstays, -, -⟩, hgoes⟩ := hswitches hto
  rw [hesp, hebp, hmem] at hstays
  rw [hbase] at hebp₁
  -- which returns to `IRQ_PIT`
  have houter₁ := hstays.holds houter (by omega) (by simp; omega)
  have hwrapper₁ := hwrapper.stays hstays (by omega) (by omega)
  rw [← hebp₁] at houter₁
  obtain ⟨hto₁, -, hesp₂, -, hmem₂, -⟩ := State.leaveRet_of_holds houter₁
  obtain ⟨rfl, rfl⟩ := hgoes hto₁
  rw [← hebp₁, ← hesp₂, ← hmem₂] at hwrapper₁
  exact ⟨hwrapper₁.returns, hstays⟩

end Timer

/-! ## System calls that start a process -/

/-- `SYSTEM_CALL` up to the call of the function in the table. -/
def CallsFrom (ret : Word) (entry s : State) : Prop :=
  Reaches (systemCallProgram (fun _ _ => none) ret) ⟨systemCallCode, entry⟩ []
    ⟨.callTable .eax :: returnCode, s⟩

/-- `execute` up to where it saves EBP. -/
def ReachesStart (bottom ret : Word) (entry s : State) : Prop :=
  ∃ s₁, CallsFrom ret entry s₁ ∧ Body bottom 0 (s₁.push ret).enter s

/-- `halt` leaves through the frame at `ebp`.  When that returns to `SYSTEM_CALL`, at `ret`, the
code `x` goes on. -/
def Answers (ret ebp status : Word) (s : State) (x : Context) (mem : Memory) : Prop :=
  ((s.setReg .ebp ebp).setReg .eax status).leave.top = ret →
    ∃ s₁, Reaches (systemCallProgram (fun _ _ => none) ret)
        ⟨returnCode, ((s.setReg .ebp ebp).setReg .eax status).leaveRet⟩ [] ⟨[.iret], s₁⟩ ∧
      x = s₁.iret kernelDs ∧ mem = s₁.mem

/-- The frame of `execute`, at `ebp`, on top of its argument, two other words and what `SYSTEM_CALL`
pushed. -/
structure ExecuteFrame (bottom ret : Word) (mem : Memory) (ebp : Word) (x : Context) : Prop where
  outer : ∃ base, Holds mem ebp [base, ret]
  wrapper : ∃ s : State, Holds mem (ebp + 20) (savedWords s ++ x.frame) ∧
    s.regs .esp = ebp + 60 ∧ ∀ r, r ≠ .esp → s.regs r = x.regs r
  user : x.user = true
  top : height bottom ebp + 80 ≤ 0x2000

section Call

variable {bottom esp0 ret ebp status : Word} {mem mem' : Memory} {x : Context} {entry s s' : State}

/-- **What `SYSTEM_CALL` pushes** before it calls `execute`. -/
theorem systemCall_pushes (ret : Word) (hnumber : entry.regs .eax = 2) :
    ∃ s, CallsFrom ret entry s ∧ s.regs .esp = entry.regs .esp - 52 ∧
      s.mem = (entry.pushAll ([entry.regs .ebx, entry.regs .ecx, entry.regs .edx] ++
        savedWords entry)).mem := by
  have hless : ∀ f : Eflags, isLess (flagsOfSub f 0 (entry.regs .eax - 1)) = false := fun f => by
    rw [isLess_flagsOfSub, hnumber]
    decide
  have hgreater : ∀ f : Eflags, isGreater (flagsOfSub f 9 (entry.regs .eax - 1)) = false :=
    fun f => by
      rw [isGreater_flagsOfSub, hnumber]
      decide
  refine ⟨_, .next rfl (.next rfl (.next rfl (.next rfl (.next rfl (.next rfl (.next rfl (.next rfl
    (.next rfl (.next rfl (.next rfl (.next rfl (.next rfl (.next rfl
    (.next (Program.step_jl_skipped (hless _)) (.next rfl
    (.next (Program.step_jg_skipped (hgreater _)) (.next rfl (.next rfl (.next rfl
    (.refl _)))))))))))))))))))), ?_, ?_⟩
  · change entry.regs .esp - 4 - 4 - 4 - 4 - 4 - 4 - 4 - 4 - 4 - 4 - 4 - 4 - 4 =
      entry.regs .esp - 52
    bv_omega
  · rfl

/-- A call of a function that does not return is the end of a run. -/
theorem CallsFrom.unique (h : CallsFrom ret entry s) (h' : CallsFrom ret entry s') : s = s' := by
  have hend : ∀ t : State, (systemCallProgram (fun _ _ => none) ret).step
      ⟨.callTable .eax :: returnCode, t⟩ = none := by
    intro t
    rw [Program.step, Program.exec]
    cases hname : (systemCallProgram (fun _ _ => none) ret).table (t.regs .eax).toNat with
    | none => rfl
    | some handler =>
        obtain ⟨name, -, rfl⟩ := Option.map_eq_some_iff.mp hname
        rfl
  have hsame := (Reaches.unique h' (hend s') h (hend s)).2
  exact congrArg Config.state hsame

/-- **What a process that starts another one leaves** on its stack. -/
theorem OnStack.executes (hon : OnStack bottom esp0 x) (huser : x.user = true)
    (hnumber : x.regs .eax = 2) (segs : Seg → BitVec 16)
    (hstart : ReachesStart bottom ret (x.interrupted .interrupt esp0 segs mem) s) :
    ExecuteFrame bottom ret s.mem (s.regs .ebp) x ∧
      Stays bottom (x.handlerStack esp0) mem s.mem := by
  obtain ⟨s₁, hcalls, ⟨hebp, hbody, hbelow, -⟩⟩ := hstart
  have hroom := hon.room
  have hlimit := hon.top
  have hlength := x.frame_length
  rw [huser, if_pos rfl] at hlength
  have hentry : HandlerEntry bottom esp0 mem x _ :=
    x.interrupted_entry .interrupt esp0 segs mem (by omega)
  obtain ⟨entry, hs⟩ : ∃ s, x.interrupted .interrupt esp0 segs mem = s := ⟨_, rfl⟩
  rw [hs] at hentry hcalls
  have hheight := hentry.height
  have heax : entry.regs .eax = 2 := (hentry.regs .eax (by decide)).trans hnumber
  -- `SYSTEM_CALL`
  obtain ⟨s', hcalls', hesp, hmem⟩ := systemCall_pushes ret heax
  obtain rfl := hcalls.unique hcalls'
  have hpushed : PushedOn bottom entry x.frame
      ([entry.regs .ebx, entry.regs .ecx, entry.regs .edx] ++ savedWords entry) _ :=
    State.pushedOn hentry.stack (by simp; omega) (by omega)
  obtain ⟨⟨-, -, -, hdown, hstack⟩, hstays, hheight₁⟩ := hpushed
  have hthirteen : ([entry.regs .ebx, entry.regs .ecx, entry.regs .edx] ++
      savedWords entry).length = 13 := rfl
  rw [hthirteen] at hdown hheight₁
  have hsame : (entry.pushAll ([entry.regs .ebx, entry.regs .ecx, entry.regs .edx] ++
      savedWords entry)).regs .esp = s₁.regs .esp := hdown.trans hesp.symm
  rw [hsame] at hheight₁
  rw [State.Stacked, hsame, ← hmem] at hstack
  rw [← hmem] at hstays
  -- `execute`
  obtain ⟨hdown₁, hesp₁, houter, hcall⟩ := s₁.call_enter bottom ret (by omega)
  rw [hesp₁] at hbody
  have hafter := hcall.trans hbody (by omega)
  have houter' := hbody.holds houter (by omega) (by simp; omega)
  have hwords := hafter.holds hstack (by omega) (by simp [hlength]; omega)
  have hframe : s.regs .ebp + 8 = s₁.regs .esp := by
    have hpoint : (s₁.push ret).enter.regs .ebp = s₁.regs .esp - 8 := by
      simp only [height] at hdown₁ hheight₁
      bv_omega
    rw [hebp, hpoint]
    bv_omega
  refine ⟨⟨⟨_, hebp ▸ houter'⟩, ⟨entry, ?_, ?_, hentry.regs⟩, huser, ?_⟩, ?_⟩
  · have hargs : Holds s.mem (s.regs .ebp + 8)
        ([entry.regs .ebx, entry.regs .ecx, entry.regs .edx] ++ (savedWords entry ++ x.frame)) := by
      rw [hframe]
      exact hwords
    have hdrop := hargs.drop
    have htwenty : s.regs .ebp + 8 + BitVec.ofNat 32 12 = s.regs .ebp + 20 :=
      BitVec.add_assoc _ 8 12
    rw [← htwenty]
    exact hdrop
  · have hback : entry.regs .esp = s₁.regs .esp + 52 := by
      rw [hesp]
      bv_omega
    rw [hback, ← hframe]
    bv_omega
  · rw [hebp]
    omega
  · exact (hentry.stays.trans hstays (by omega)).trans hafter (by omega)

theorem ExecuteFrame.congr (h : ExecuteFrame bottom ret mem ebp x)
    (hsame : ∀ a, height bottom a < 0x2000 → mem' a = mem a) :
    ExecuteFrame bottom ret mem' ebp x := by
  obtain ⟨⟨base, houter⟩, ⟨s, hwords, hesp, hregs⟩, huser, htop⟩ := h
  have hlength := x.frame_length
  rw [huser, if_pos rfl] at hlength
  have hwide : (savedWords s ++ x.frame).length = 15 := by
    rw [List.length_append, savedWords_length, hlength]
  have hup : height bottom (ebp + 20) = height bottom ebp + 20 := height_add (n := 20) (by omega)
  exact ⟨⟨base, holds_of_height houter hsame (by simp; omega) (by decide)⟩,
    ⟨s, holds_of_height hwords hsame (by omega) (by decide), hesp, hregs⟩, huser,
    htop⟩

/-- The frame stays when only the stack below it changes. -/
theorem ExecuteFrame.stays (h : ExecuteFrame bottom ret mem ebp x)
    (hstays : Stays bottom ebp mem mem') : ExecuteFrame bottom ret mem' ebp x := by
  obtain ⟨⟨base, houter⟩, ⟨s, hwords, hesp, hregs⟩, huser, htop⟩ := h
  have hlength := x.frame_length
  rw [huser, if_pos rfl] at hlength
  have hwide : (savedWords s ++ x.frame).length = 15 := by
    rw [List.length_append, savedWords_length, hlength]
  have hup : height bottom (ebp + 20) = height bottom ebp + 20 := height_add (n := 20) (by omega)
  exact ⟨⟨base, hstays.holds houter (le_refl _) (by simp; omega)⟩,
    ⟨s, hstays.holds hwords (by omega) (by omega), hesp, hregs⟩, huser, htop⟩

/-- The memory does not change when `SYSTEM_CALL` returns a result. -/
theorem systemCall_returns_mem (ret : Word) {result : State}
    (hanswer : 0 ≤ (result.regs .eax).toInt) :
    ∃ s', Reaches (systemCallProgram (fun _ _ => none) ret) ⟨returnCode, result⟩ [] ⟨[.iret], s'⟩ ∧
      s'.mem = result.mem ∧ s'.regs .eax = result.regs .eax := by
  have hless : ∀ f : Eflags, isLess (flagsOfSub f 0 (result.regs .eax)) = false := fun f => by
    rw [isLess_flagsOfSub]
    exact decide_eq_false (not_lt.mpr hanswer)
  exact ⟨_, .next rfl (.next rfl (.next (Program.step_jl_skipped (hless _)) (.next rfl (.next rfl
    (.next rfl (.next rfl (.next rfl (.next rfl (.next rfl (.next rfl (.next rfl (.next rfl
    (.next rfl (.refl _)))))))))))))), rfl, rfl⟩

/-- **A process that waits in `execute`** finds the status of its child in EAX and all its other
registers. -/
theorem ExecuteFrame.answers {y : Context} (h : ExecuteFrame bottom ret s.mem ebp x)
    (hstatus : 0 ≤ status.toInt) (hanswers : Answers ret ebp status s y mem') :
    y = x.answer status ∧ mem' = s.mem := by
  obtain ⟨⟨base, houter⟩, ⟨entry, hwords, hesp, hregs⟩, huser, htop⟩ := h
  obtain ⟨t, ht⟩ : ∃ t, (s.setReg .ebp ebp).setReg .eax status = t := ⟨_, rfl⟩
  have hebp : t.regs .ebp = ebp := by
    rw [← ht]
    rfl
  have heax : t.regs .eax = status := by
    rw [← ht]
    rfl
  have hmem : t.mem = s.mem := by
    rw [← ht]
    rfl
  rw [Answers, ht] at hanswers
  rw [← hmem] at houter hwords
  rw [← hebp] at houter
  obtain ⟨hto, -, hdown, -, hmem', hothers⟩ := State.leaveRet_of_holds houter
  obtain ⟨s₁, hrun, rfl, rfl⟩ := hanswers hto
  obtain ⟨result, hresult⟩ : ∃ r, t.leaveRet = r := ⟨_, rfl⟩
  have hanswer := hothers .eax (by decide) (by decide)
  rw [heax] at hanswer
  rw [hresult] at hdown hmem' hanswer hrun
  -- the wrapper
  have hpoint : (result.setReg .esp (result.regs .esp + 12)).regs .esp = ebp + 20 := by
    rw [State.setReg_self, hdown, hebp]
    bv_omega
  have hsaved : CallerSaved entry x.frame (result.setReg .esp (result.regs .esp + 12)) := by
    refine ⟨?_, ?_⟩
    · rw [hpoint, hesp]
      bv_omega
    · rw [State.Stacked, hpoint]
      show Holds result.mem (ebp + 20) (savedWords entry ++ x.frame)
      rw [hmem']
      exact hwords
  obtain ⟨s', hrun', heax', hrestored⟩ := hsaved.returns (fun _ _ => none) ret
  have hpositive : 0 ≤ (result.regs .eax).toInt := hanswer ▸ hstatus
  obtain ⟨s'', hrun'', hmem'', -⟩ := systemCall_returns_mem ret hpositive
  have hend : ∀ t : State, (systemCallProgram (fun _ _ => none) ret).step ⟨[.iret], t⟩ = none :=
    fun _ => rfl
  obtain rfl : s₁ = s' := congrArg Config.state (hrun'.unique (hend _) hrun (hend _)).2
  obtain rfl : s₁ = s'' := congrArg Config.state (hrun''.unique (hend _) hrun (hend _)).2
  rw [hanswer, if_pos hstatus] at heax'
  refine ⟨State.iret_eq (c := x.answer status) hrestored.stack (fun r hr => ?_) ?_, ?_⟩
  · by_cases hr' : r = .eax
    · rw [hr', heax', Context.answer_eax]
    · rw [hrestored.regs r hr', hregs r hr, x.answer_regs status hr']
  · intro hinner
    rw [Context.answer_user, huser] at hinner
    cases hinner
  · rw [hmem'', hmem', hmem]

end Call

end JuddOS
