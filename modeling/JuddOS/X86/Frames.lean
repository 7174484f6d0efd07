import JuddOS.X86.Assembly

/-!
# Interrupted code and its frames

What the processor and compiled code push on a stack when code is interrupted or called, and pop to
go on with it.

* `Context` has the registers that interrupted code must find again.  `Context.interrupted` is the
  entry into a handler at privilege level 0, and `State.iret` the way back (`State.iret_eq`).
* `State.pushal`, `State.popal`, `State.enter`, `State.leave`: the instructions of wrappers and of
  functions with a frame pointer.
* `Stays` says that code writes to the part of its stack below a pointer only; the words above
  stay there (`Stays.holds`).  `Body` is what the body of a function may do between its entry and
  its `leave`.

The data segments are not part of a context: interrupts do not save them.
-/

namespace JuddOS
namespace X86
namespace Asm

/-- The registers of code that is interrupted. -/
@[ext] structure Context where
  regs : Reg → Word
  eflags : Eflags
  eip : Word
  cs : BitVec 16
  ss : BitVec 16

/-- The privilege level is in the low bits of CS. -/
def Context.user (c : Context) : Bool := c.cs.extractLsb' 0 2 != 0

/-- EAX gets a value. -/
def Context.answer (c : Context) (w : Word) : Context :=
  { c with regs := Function.update c.regs .eax w }

@[simp] theorem Context.answer_user (c : Context) (w : Word) : (c.answer w).user = c.user := rfl

@[simp] theorem Context.answer_eax (c : Context) (w : Word) : (c.answer w).regs .eax = w :=
  Function.update_self Reg.eax _ c.regs

theorem Context.answer_regs (c : Context) (w : Word) {r : Reg} (hr : r ≠ .eax) :
    (c.answer w).regs r = c.regs r := Function.update_of_ne hr _ _

namespace State

/-! ## Instructions -/

/-- The words are pushed, the last one first. -/
def pushAll (s : State) : List Word → State
  | [] => s
  | w :: ws => (s.pushAll ws).push w

/-- The registers as `pushal` pushes them, from the last one on. -/
def pushalWords (regs : Reg → Word) : List Word :=
  [regs .edi, regs .esi, regs .ebp, regs .esp, regs .ebx, regs .edx, regs .ecx, regs .eax]

def pushal (s : State) : State := s.pushAll (pushalWords s.regs)

def pushfl (s : State) : State := s.push s.eflags

def popfl (s : State) : State := { s.drop with eflags := s.top }

def pop (s : State) (r : Reg) : State := s.drop.setReg r s.top

/-- `popal` skips the stack pointer. -/
def popal (s : State) : State :=
  ((((((s.pop .edi).pop .esi).pop .ebp).drop.pop .ebx).pop .edx).pop .ecx).pop .eax

/-- `pushl %ebp; movl %esp, %ebp`. -/
def enter (s : State) : State :=
  let s := s.push (s.regs .ebp)
  s.setReg .ebp (s.regs .esp)

def leave (s : State) : State := (s.setReg .esp (s.regs .ebp)).pop .ebp

/-- `leave; ret`. -/
def leaveRet (s : State) : State := s.leave.drop

end State

/-! ## Interrupts -/

/-- The words that the processor pushes, from the last one on. -/
def Context.frame (c : Context) : List Word :=
  [c.eip, c.cs.setWidth 32, c.eflags] ++
    if c.user then [c.regs .esp, c.ss.setWidth 32] else []

/-- TF, NT, RF and VM are cleared, and IF by an interrupt gate. -/
def enteredFlags (gate : Gate) (f : Eflags) : Eflags :=
  let f := (((f.clear 8).clear 14).clear 16).clear 17
  if gate = .interrupt then f.clear 9 else f

/-- The stack of the handler: code at an outer level leaves its own for `esp0`. -/
def Context.handlerStack (c : Context) (esp0 : Word) : Word :=
  if c.user then esp0 else c.regs .esp

/-- The first state of a handler. -/
def Context.interrupted (c : Context) (gate : Gate) (esp0 : Word) (segs : Seg → BitVec 16)
    (mem : Memory) : State :=
  let s : State := ⟨Function.update c.regs .esp (c.handlerStack esp0), segs, c.eflags, mem⟩
  let s := s.pushAll c.frame
  { s with eflags := enteredFlags gate s.eflags }

/-- `iret` at privilege level 0, on a stack in the segment `ss0`. -/
def State.iret (ss0 : BitVec 16) (s : State) : Context :=
  let s' := s.drop.drop.drop
  let c : Context :=
    { regs := s'.regs, eflags := s.drop.drop.top, eip := s.top, cs := s.drop.top.setWidth 16
      ss := ss0 }
  if c.user then
    { c with regs := Function.update s'.regs .esp s'.top, ss := s'.drop.top.setWidth 16 }
  else c

section Words

variable {s : State} {ws base : List Word}

theorem State.pushed_pushAll (h : s.Stacked base)
    (hroom : 4 * (ws.length + base.length) ≤ 2 ^ 32) : State.Pushed s base ws (s.pushAll ws) := by
  induction ws with
  | nil => exact .refl h
  | cons w ws ih =>
      rw [List.length_cons] at hroom
      exact (ih (by omega)).push w (by omega)

/-- Pushes of the words themselves. -/
theorem State.pushed (s : State) (hroom : 4 * ws.length ≤ 2 ^ 32) :
    State.Pushed s [] ws (s.pushAll ws) :=
  State.pushed_pushAll (show s.Stacked [] from trivial) (by simpa using hroom)

@[simp] theorem State.drop_mem (s : State) : s.drop.mem = s.mem := rfl

@[simp] theorem State.drop_segs (s : State) : s.drop.segs = s.segs := rfl

@[simp] theorem State.drop_eflags (s : State) : s.drop.eflags = s.eflags := rfl

theorem State.drop_regs (s : State) {r : Reg} (hr : r ≠ .esp) : s.drop.regs r = s.regs r :=
  Function.update_of_ne hr _ _

@[simp] theorem State.pop_mem (s : State) (r : Reg) : (s.pop r).mem = s.mem := rfl

/-- A pop of a word into a register. -/
structure State.Popped (s : State) (r : Reg) (w : Word) (ws : List Word) : Prop where
  value : (s.pop r).regs r = w
  others : ∀ x, x ≠ r → x ≠ .esp → (s.pop r).regs x = s.regs x
  esp : (s.pop r).regs .esp = s.regs .esp + 4
  stack : (s.pop r).Stacked ws

theorem State.Stacked.popped {w : Word} (h : s.Stacked (w :: ws)) {r : Reg} (hr : r ≠ .esp) :
    s.Popped r w ws := by
  obtain ⟨htop, hrest⟩ := h.pop
  have hesp : (s.pop r).regs .esp = s.regs .esp + 4 := by
    rw [State.pop, State.setReg]
    dsimp only
    rw [Function.update_of_ne hr.symm, State.drop_esp]
  refine ⟨?_, fun x hx hxesp => ?_, hesp, ?_⟩
  · rw [State.pop, State.setReg_self, htop]
  · rw [State.pop, State.setReg]
    dsimp only
    rw [Function.update_of_ne hx, State.drop_regs s hxesp]
  · rw [State.Stacked, hesp, State.pop_mem, ← State.drop_esp]
    exact hrest

/-- **`popal` after `pushal`.** -/
theorem State.Stacked.popal {regs : Reg → Word} (h : s.Stacked (pushalWords regs ++ ws)) :
    (∀ r, r ≠ .esp → s.popal.regs r = regs r) ∧ s.popal.regs .esp = s.regs .esp + 32 ∧
      s.popal.Stacked ws := by
  have hedi := State.Stacked.popped h (r := .edi) nofun
  have hesi := hedi.stack.popped (r := .esi) nofun
  have hebp := hesi.stack.popped (r := .ebp) nofun
  obtain ⟨-, hskip⟩ := hebp.stack.pop
  have hebx := hskip.popped (r := .ebx) nofun
  have hedx := hebx.stack.popped (r := .edx) nofun
  have hecx := hedx.stack.popped (r := .ecx) nofun
  have heax := hecx.stack.popped (r := .eax) nofun
  refine ⟨?_, ?_, heax.stack⟩
  · intro r hr
    cases r with
    | esp => exact absurd rfl hr
    | _ =>
        simp [State.popal, State.drop_regs, hedi.value, hesi.value, hesi.others, hebp.value,
          hebp.others, hebx.value, hebx.others, hedx.value, hedx.others, hecx.value, hecx.others,
          heax.value, heax.others]
  · rw [State.popal, heax.esp, hecx.esp, hedx.esp, hebx.esp, State.drop_esp, hebp.esp, hesi.esp,
      hedi.esp]
    bv_omega

/-- `leave; ret` through a frame. -/
theorem State.leaveRet_of_holds {base ret : Word}
    (h : Holds s.mem (s.regs .ebp) (base :: ret :: ws)) :
    s.leave.top = ret ∧ s.leaveRet.regs .ebp = base ∧ s.leaveRet.regs .esp = s.regs .ebp + 8 ∧
      s.leaveRet.Stacked ws ∧ s.leaveRet.mem = s.mem ∧
      ∀ r, r ≠ .ebp → r ≠ .esp → s.leaveRet.regs r = s.regs r := by
  have hesp : (s.setReg .esp (s.regs .ebp)).regs .esp = s.regs .ebp := State.setReg_self _ _ _
  have hstack : (s.setReg .esp (s.regs .ebp)).Stacked (base :: ret :: ws) := by
    rw [State.Stacked, hesp]
    exact h
  have hpopped := hstack.popped (r := .ebp) (by decide)
  refine ⟨hpopped.stack.pop.1, ?_, ?_, hpopped.stack.pop.2, rfl, fun r hr hresp => ?_⟩
  · rw [State.leaveRet, State.leave, State.drop_regs _ (by decide), hpopped.value]
  · rw [State.leaveRet, State.leave, State.drop_esp, hpopped.esp, hesp]
    bv_omega
  · rw [State.leaveRet, State.leave, State.drop_regs _ hresp, hpopped.others r hr hresp]
    exact Function.update_of_ne hresp _ _

/-- **`iret` after an interrupt.** -/
theorem State.iret_eq {c : Context} {ss0 : BitVec 16} (hstack : s.Stacked c.frame)
    (hregs : ∀ r, r ≠ .esp → s.regs r = c.regs r)
    (hinner : c.user = false → s.regs .esp + 12 = c.regs .esp ∧ ss0 = c.ss) : s.iret ss0 = c := by
  have hwiden : ∀ w : BitVec 16, (w.setWidth 32).setWidth 16 = w := fun w => by
    rw [BitVec.setWidth_setWidth_of_le _ (by decide), BitVec.setWidth_eq]
  obtain ⟨heip, hcsOn⟩ := State.Stacked.pop hstack
  obtain ⟨hcs, hflagsOn⟩ := hcsOn.pop
  obtain ⟨hflags, hrest⟩ := hflagsOn.pop
  have hregs' : ∀ r, r ≠ .esp → s.drop.drop.drop.regs r = c.regs r := fun r hr => by
    rw [State.drop_regs _ hr, State.drop_regs _ hr, State.drop_regs _ hr, hregs r hr]
  have hesp : s.drop.drop.drop.regs .esp = s.regs .esp + 12 := by
    rw [State.drop_esp, State.drop_esp, State.drop_esp]
    bv_omega
  have huser : Context.user ⟨s.drop.drop.drop.regs, s.drop.drop.top, s.top,
      s.drop.top.setWidth 16, ss0⟩ = c.user := by
    rw [Context.user, hcs, hwiden]
    rfl
  rw [State.iret]
  dsimp only
  rw [huser, heip, hcs, hflags, hwiden]
  cases hlevel : c.user with
  | false =>
      obtain ⟨hinner, hss⟩ := hinner hlevel
      rw [if_neg Bool.false_ne_true, hss]
      refine Context.ext (funext fun r => ?_) rfl rfl rfl rfl
      by_cases hr : r = .esp
      · rw [hr]
        exact hesp.trans hinner
      · exact hregs' r hr
  | true =>
      rw [hlevel, if_pos rfl] at hrest
      obtain ⟨houter, hssOn⟩ := hrest.pop
      obtain ⟨hss, -⟩ := hssOn.pop
      rw [if_pos rfl, houter, hss, hwiden]
      refine Context.ext (funext fun r => ?_) rfl rfl rfl rfl
      by_cases hr : r = .esp
      · rw [hr]
        exact Function.update_self Reg.esp _ s.drop.drop.drop.regs
      · exact (Function.update_of_ne hr _ _).trans (hregs' r hr)

/-- `iret` pops no general register but ESP. -/
theorem State.iret_regs (s : State) (ss0 : BitVec 16) {r : Reg} (hr : r ≠ .esp) :
    (s.iret ss0).regs r = s.regs r := by
  have hdropped : s.drop.drop.drop.regs r = s.regs r := by
    rw [State.drop_regs _ hr, State.drop_regs _ hr, State.drop_regs _ hr]
  rw [State.iret]
  split
  · exact (Function.update_of_ne hr _ _).trans hdropped
  · exact hdropped

end Words

/-! ## The part of a stack that is free -/

/-- How far an address is above the bottom of a stack. -/
def height (bottom a : Word) : Nat := (a - bottom).toNat

theorem height_push {bottom a : Word} (h : 4 ≤ height bottom a) :
    height bottom (a - 4) = height bottom a - 4 := by
  simp only [height] at h ⊢
  bv_omega

theorem height_add {bottom a : Word} {n : Nat} (h : height bottom a + n < 2 ^ 32) :
    height bottom (a + BitVec.ofNat 32 n) = height bottom a + n := by
  simp only [height] at h ⊢
  bv_omega

/-- Words in a stack of `n` bytes that does not change. -/
theorem holds_of_height {bottom a : Word} {m m' : Memory} {ws : List Word} {n : Nat}
    (hws : Holds m a ws) (hsame : ∀ b, height bottom b < n → m' b = m b)
    (htop : height bottom a + 4 * ws.length ≤ n) (hn : n < 2 ^ 32) : Holds m' a ws := by
  refine hws.congr fun j hj => hsame _ ?_
  rw [height_add (by omega)]
  omega

/-- Only the part of the stack below `esp` changes. -/
def Stays (bottom esp : Word) (m m' : Memory) : Prop :=
  ∀ a, height bottom esp ≤ height bottom a → m' a = m a

namespace Stays

variable {bottom esp esp' : Word} {m m' m'' : Memory}

theorem refl (bottom esp : Word) (m : Memory) : Stays bottom esp m m := fun _ _ => rfl

theorem trans (h : Stays bottom esp m m') (h' : Stays bottom esp' m' m'')
    (hle : height bottom esp' ≤ height bottom esp) : Stays bottom esp m m'' :=
  fun a ha => (h' a (hle.trans ha)).trans (h a ha)

/-- **Words above the pointer stay.** -/
theorem holds (h : Stays bottom esp m m') {a : Word} {ws : List Word} (hws : Holds m a ws)
    (hle : height bottom esp ≤ height bottom a)
    (hroom : height bottom a + 4 * ws.length < 2 ^ 32) : Holds m' a ws := by
  refine hws.congr fun j hj => h _ ?_
  rw [height_add (by omega)]
  omega

/-- A push. -/
theorem push (s : State) (w : Word) (hroom : 4 ≤ height bottom (s.regs .esp)) :
    Stays bottom (s.regs .esp) s.mem (s.push w).mem := by
  intro a ha
  refine storeWord_outside s.mem ?_
  simp only [height] at hroom ha
  bv_omega

end Stays

/-- Pushes on a stack that has this bottom. -/
structure PushedOn (bottom : Word) (s : State) (base ws : List Word) (t : State) : Prop
    extends State.Pushed s base ws t where
  stays : Stays bottom (s.regs .esp) s.mem t.mem
  height : height bottom (t.regs .esp) + 4 * ws.length = height bottom (s.regs .esp)

/-- Where the pushes write. -/
theorem State.pushAll_stays (s : State) {bottom : Word} {ws : List Word}
    (hroom : 4 * ws.length ≤ Asm.height bottom (s.regs .esp)) :
    Stays bottom (s.regs .esp) s.mem (s.pushAll ws).mem ∧
      Asm.height bottom ((s.pushAll ws).regs .esp) + 4 * ws.length =
        Asm.height bottom (s.regs .esp) := by
  induction ws with
  | nil => exact ⟨.refl _ _ _, rfl⟩
  | cons w ws ih =>
      rw [List.length_cons] at hroom ⊢
      obtain ⟨hstays, hheight⟩ := ih (by omega)
      refine ⟨hstays.trans (.push _ w (by omega)) (by omega), ?_⟩
      rw [State.pushAll, State.push_esp, height_push (by omega)]
      omega

theorem State.pushedOn {s : State} {bottom : Word} {base ws : List Word} (h : s.Stacked base)
    (hroom : 4 * ws.length ≤ Asm.height bottom (s.regs .esp))
    (hbase : Asm.height bottom (s.regs .esp) + 4 * base.length ≤ 2 ^ 32) :
    PushedOn bottom s base ws (s.pushAll ws) :=
  ⟨pushed_pushAll h (by omega), (s.pushAll_stays hroom).1, (s.pushAll_stays hroom).2⟩

/-! ## The entry of a handler -/

section Entry

variable {bottom esp0 : Word} {mem : Memory} {x : Context}

/-- The first state of a handler, on a stack that has this bottom. -/
structure HandlerEntry (bottom esp0 : Word) (mem : Memory) (x : Context) (s : State) : Prop where
  regs : ∀ r, r ≠ .esp → s.regs r = x.regs r
  stack : s.Stacked x.frame
  esp : s.regs .esp = x.handlerStack esp0 - BitVec.ofNat 32 (4 * x.frame.length)
  stays : Stays bottom (x.handlerStack esp0) mem s.mem
  height : height bottom (s.regs .esp) + 4 * x.frame.length = height bottom (x.handlerStack esp0)

theorem Context.frame_length (x : Context) : x.frame.length = if x.user then 5 else 3 := by
  rw [Context.frame]
  cases x.user <;> rfl

theorem Context.frame_length_le (x : Context) : x.frame.length ≤ 5 := by
  rw [x.frame_length]
  split <;> decide

/-- **An interrupt** pushes the frame. -/
theorem Context.interrupted_entry (x : Context) (gate : Gate) (esp0 : Word)
    (segs : Seg → BitVec 16) (mem : Memory)
    (hroom : 4 * x.frame.length ≤ Asm.height bottom (x.handlerStack esp0)) :
    HandlerEntry bottom esp0 mem x (x.interrupted gate esp0 segs mem) := by
  obtain ⟨s, hs⟩ : ∃ s : State,
      (⟨Function.update x.regs .esp (x.handlerStack esp0), segs, x.eflags, mem⟩ : State) = s :=
    ⟨_, rfl⟩
  have hesp : s.regs .esp = x.handlerStack esp0 := by
    rw [← hs]
    exact Function.update_self Reg.esp _ x.regs
  have hpushed : PushedOn bottom s [] x.frame (s.pushAll x.frame) :=
    State.pushedOn trivial (by rw [hesp]; exact hroom) (by
      have := (s.regs .esp - bottom).isLt
      simp only [Asm.height, List.length_nil]
      omega)
  obtain ⟨⟨hregs, -, -, hdown, hstack⟩, hstays, hheight⟩ := hpushed
  have hstart : s.mem = mem := by rw [← hs]
  rw [List.append_nil] at hstack
  rw [hesp] at hdown hstays hheight
  rw [hstart] at hstays
  have hlast : x.interrupted gate esp0 segs mem =
      { s.pushAll x.frame with eflags := enteredFlags gate (s.pushAll x.frame).eflags } := by
    rw [← hs]
    rfl
  rw [hlast]
  refine ⟨fun r hr => (hregs r hr).trans ?_, hstack, hdown, hstays, hheight⟩
  rw [← hs]
  exact Function.update_of_ne hr _ _

end Entry

/-! ## Functions -/

/-- The body of a function: it keeps the frame pointer, writes below the stack pointer of its entry
only, and comes to a point where `room` bytes of the stack are free. -/
structure Body (bottom : Word) (room : Nat) (s s' : State) : Prop where
  ebp : s'.regs .ebp = s.regs .ebp
  stays : Stays bottom (s.regs .esp) s.mem s'.mem
  below : height bottom (s'.regs .esp) ≤ height bottom (s.regs .esp)
  room : room ≤ height bottom (s'.regs .esp)

/-- A body that does nothing. -/
theorem Body.refl {bottom : Word} {room : Nat} {s : State}
    (hroom : room ≤ height bottom (s.regs .esp)) : Body bottom room s s :=
  ⟨rfl, .refl _ _ _, le_refl _, hroom⟩

/-- **The entry of a function** makes its frame. -/
theorem State.Stacked.enter {s : State} {bottom : Word} {ws : List Word} (h : s.Stacked ws)
    (hroom : 4 ≤ height bottom (s.regs .esp)) (hsize : 4 * (ws.length + 1) ≤ 2 ^ 32) :
    s.enter.regs .ebp = s.regs .esp - 4 ∧ s.enter.regs .esp = s.regs .esp - 4 ∧
      Holds s.enter.mem (s.enter.regs .ebp) (s.regs .ebp :: ws) ∧
      Stays bottom (s.regs .esp) s.mem s.enter.mem := by
  have hebp : s.enter.regs .ebp = s.regs .esp - 4 := by
    rw [State.enter, State.setReg_self, State.push_esp]
  have hesp : s.enter.regs .esp = s.regs .esp - 4 := by
    rw [State.enter, State.setReg]
    dsimp only
    rw [Function.update_of_ne (by decide), State.push_esp]
  refine ⟨hebp, hesp, ?_, .push s _ hroom⟩
  have hpush := h.push (s.regs .ebp) hsize
  rw [State.Stacked, State.push_esp] at hpush
  rw [hebp]
  exact hpush

/-- **A call** of a function, from its caller. -/
theorem State.call_enter (s : State) (bottom ret : Word)
    (hroom : 8 ≤ height bottom (s.regs .esp)) :
    height bottom ((s.push ret).enter.regs .ebp) + 8 = height bottom (s.regs .esp) ∧
      (s.push ret).enter.regs .esp = (s.push ret).enter.regs .ebp ∧
      Holds (s.push ret).enter.mem ((s.push ret).enter.regs .ebp) [s.regs .ebp, ret] ∧
      Stays bottom (s.regs .esp) s.mem (s.push ret).enter.mem := by
  have hdown : height bottom ((s.push ret).regs .esp) + 4 = height bottom (s.regs .esp) := by
    rw [State.push_esp, height_push (by omega)]
    omega
  have hret : (s.push ret).Stacked [ret] := 
    State.Stacked.push (show s.Stacked [] from trivial) ret (by decide)
  obtain ⟨hebp, hesp, hholds, hstays⟩ := hret.enter (show 4 ≤ height bottom _ by omega) (by simp)
  refine ⟨?_, hesp.trans hebp.symm, ?_, ?_⟩
  · rw [hebp, height_push (by omega)]
    omega
  · rw [s.push_regs ret (by decide)] at hholds
    exact hholds
  · exact (Stays.push s ret (by omega)).trans hstays (by omega)

end Asm
end X86
end JuddOS
