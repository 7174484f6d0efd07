import JuddOS.X86.Assembly

/-!
# The system-call wrapper

`SYSTEM_CALL` of `isr_wrapper.S` saves the registers of the caller, checks the number in EAX, calls
a function through a table and restores the registers.  An invalid number, a failed call and a
successful one leave by the same sequence of pops.

* `CallerSaved` says what is on the stack between the pushes and the pops, and `restores` that the
  pops then give the caller its registers back.
* `systemCall_preserves`: which function is called, and with what registers, segments and stack the
  wrapper reaches its `iret`; `systemCall_restores` says of any run that it reaches it in no other
  way.
-/

namespace JuddOS

open X86 X86.Asm

/-- The functions in `syscalls_fxns_jmp`. -/
inductive SystemCallName
  | halt | execute | read | write | openFile | close | getargs | vidmap | setHandler | sigreturn
  deriving DecidableEq

/-- `syscalls_fxns_jmp`. -/
def syscallsFxnsJmp : List SystemCallName :=
  [.halt, .execute, .read, .write, .openFile, .close, .getargs, .vidmap, .setHandler, .sigreturn]

inductive SystemCallLabel
  | systemCall | invalidCall | syscallFail | done

/-- From `DONE_` on. -/
def doneCode : List (Instruction SystemCallLabel) :=
  [.popfl, .popSeg .fs, .popSeg .es, .popSeg .ds, .popl .ebp, .popl .edi, .popl .esi, .popl .edx,
    .popl .ecx, .popl .ebx, .iret]

/-- From `INVALID_CALL`, which is also `SYSCALL_FAIL`, on. -/
def failCode : List (Instruction SystemCallLabel) :=
  [.movl (.imm (-1)) .eax, .sti] ++ doneCode

/-- From the return of the function on. -/
def returnCode : List (Instruction SystemCallLabel) :=
  [.addl (.imm 12) .esp, .cmpl (.imm 0) .eax, .jl .syscallFail, .jmp .done] ++ failCode

/-- From the checks of the number on. -/
def checkCode : List (Instruction SystemCallLabel) :=
  [.decl .eax, .cmpl (.imm 0) .eax, .jl .invalidCall, .cmpl (.imm 9) .eax, .jg .invalidCall,
    .pushl .edx, .pushl .ecx, .pushl .ebx, .callTable .eax] ++ returnCode

/-- `SYSTEM_CALL`. -/
def systemCallCode : List (Instruction SystemCallLabel) :=
  [.cli, .pushl .ebx, .pushl .ecx, .pushl .edx, .pushl .esi, .pushl .edi, .pushl .ebp,
    .pushSeg .ds, .pushSeg .es, .pushSeg .fs, .pushfl, .sti] ++ checkCode

/-- The wrapper with the functions that the table holds. -/
def systemCallProgram (handlers : SystemCallName → Handler) (returnAddress : Word) :
    Program SystemCallLabel where
  block
    | .systemCall => systemCallCode
    | .invalidCall => failCode
    | .syscallFail => failCode
    | .done => doneCode
  table index := (syscallsFxnsJmp[index]?).map handlers
  returnAddress := returnAddress

/-- A function keeps the stack pointer and the words of its caller behind its three arguments. -/
def KeepsFrame (words : Nat) (handler : Handler) : Prop :=
  ∀ s s', handler s = some s' → s'.regs .esp = s.regs .esp + 4 ∧
    ∀ j, j < 4 * words →
      s'.mem (s.regs .esp + 16 + BitVec.ofNat 32 j) = s.mem (s.regs .esp + 16 + BitVec.ofNat 32 j)

section Wrapper

variable (handlers : SystemCallName → Handler) (ret : Word) {s s₁ : State} {frame : List Word}

/-- The words that the wrapper pushes, from the last one on. -/
def savedWords (s : State) : List Word :=
  [s.eflags.clear 9, (s.segs .fs).setWidth 32, (s.segs .es).setWidth 32, (s.segs .ds).setWidth 32,
    s.regs .ebp, s.regs .edi, s.regs .esi, s.regs .edx, s.regs .ecx, s.regs .ebx]

@[simp] theorem savedWords_length (s : State) : (savedWords s).length = 10 := rfl

/-- The registers of the caller `s` are saved. -/
structure CallerSaved (s : State) (frame : List Word) (s₁ : State) : Prop where
  esp : s₁.regs .esp = s.regs .esp - 40
  stack : s₁.Stacked (savedWords s ++ frame)

/-- What the wrapper gives back to its caller, except for EAX. -/
structure Restored (s : State) (frame : List Word) (s' : State) : Prop where
  regs : ∀ r, r ≠ .eax → s'.regs r = s.regs r
  segs : ∀ g, s'.segs g = s.segs g
  stack : s'.Stacked frame

/-- A step that leaves the stack alone. -/
theorem CallerSaved.of_stack {s₂ : State} (h : CallerSaved s frame s₁)
    (hesp : s₂.regs .esp = s₁.regs .esp) (hmem : s₂.mem = s₁.mem) : CallerSaved s frame s₂ := by
  refine ⟨hesp.trans h.esp, ?_⟩
  rw [State.Stacked, hesp, hmem]
  exact h.stack

/-- **The pops restore the registers.** -/
theorem CallerSaved.restores (h : CallerSaved s frame s₁) :
    ∃ s', Reaches (systemCallProgram handlers ret) ⟨doneCode, s₁⟩ [] ⟨[.iret], s'⟩ ∧
      s'.regs .eax = s₁.regs .eax ∧ Restored s frame s' := by
  obtain ⟨hflags, h₂⟩ := Program.step_popfl h.stack
  obtain ⟨hfs, h₃⟩ := Program.step_popSeg (g := .fs) h₂
  obtain ⟨hes, h₄⟩ := Program.step_popSeg (g := .es) h₃
  obtain ⟨hds, h₅⟩ := Program.step_popSeg (g := .ds) h₄
  obtain ⟨hebp, h₆⟩ := Program.step_popl (r := .ebp) h₅ nofun
  obtain ⟨hedi, h₇⟩ := Program.step_popl (r := .edi) h₆ nofun
  obtain ⟨hesi, h₈⟩ := Program.step_popl (r := .esi) h₇ nofun
  obtain ⟨hedx, h₉⟩ := Program.step_popl (r := .edx) h₈ nofun
  obtain ⟨hecx, h₁₀⟩ := Program.step_popl (r := .ecx) h₉ nofun
  obtain ⟨hebx, h₁₁⟩ := Program.step_popl (r := .ebx) h₁₀ nofun
  refine ⟨_, .next hflags (.next hfs (.next hes (.next hds (.next hebp (.next hedi (.next hesi
    (.next hedx (.next hecx (.next hebx (.refl _)))))))))), rfl, ⟨?_, ?_, h₁₁⟩⟩
  · intro r hr
    cases r with
    | eax => exact absurd rfl hr
    | esp =>
        change s₁.regs .esp + 4 + 4 + 4 + 4 + 4 + 4 + 4 + 4 + 4 + 4 = s.regs .esp
        rw [h.esp]
        bv_omega
    | _ => rfl
  · intro g
    have hwiden : ∀ w : BitVec 16, (w.setWidth 32).setWidth 16 = w := by
      intro w
      rw [BitVec.setWidth_setWidth_of_le _ (by decide), BitVec.setWidth_eq]
    cases g with
    | ds => exact hwiden (s.segs .ds)
    | es => exact hwiden (s.segs .es)
    | fs => exact hwiden (s.segs .fs)

/-- The pushes save them. -/
theorem saves (hstack : s.Stacked frame) (hroom : 4 * (frame.length + 14) ≤ 2 ^ 32) :
    ∃ s₁, Reaches (systemCallProgram handlers ret) ⟨systemCallCode, s⟩ [] ⟨checkCode, s₁⟩ ∧
      CallerSaved s frame s₁ ∧ ∀ r, r ≠ .esp → s₁.regs r = s.regs r := by
  have room : ∀ n, n < 14 → 4 * (n + frame.length + 1) ≤ 2 ^ 32 := fun n hn => by omega
  have h₀ : State.Pushed { s with eflags := s.eflags.clear 9 } frame [] _ := .refl hstack
  obtain ⟨s₁, hebx, h₁⟩ := Program.step_pushl h₀ (r := .ebx) nofun (room 0 (by decide))
  obtain ⟨s₂, hecx, h₂⟩ := Program.step_pushl h₁ (r := .ecx) nofun (room 1 (by decide))
  obtain ⟨s₃, hedx, h₃⟩ := Program.step_pushl h₂ (r := .edx) nofun (room 2 (by decide))
  obtain ⟨s₄, hesi, h₄⟩ := Program.step_pushl h₃ (r := .esi) nofun (room 3 (by decide))
  obtain ⟨s₅, hedi, h₅⟩ := Program.step_pushl h₄ (r := .edi) nofun (room 4 (by decide))
  obtain ⟨s₆, hebp, h₆⟩ := Program.step_pushl h₅ (r := .ebp) nofun (room 5 (by decide))
  obtain ⟨s₇, hds, h₇⟩ := Program.step_pushSeg h₆ .ds (room 6 (by decide))
  obtain ⟨s₈, hes, h₈⟩ := Program.step_pushSeg h₇ .es (room 7 (by decide))
  obtain ⟨s₉, hfs, h₉⟩ := Program.step_pushSeg h₈ .fs (room 8 (by decide))
  obtain ⟨s₁₀, hflags, h₁₀⟩ := Program.step_pushfl h₉ (room 9 (by decide))
  refine ⟨_, .next rfl (.next hebx (.next hecx (.next hedx (.next hesi (.next hedi (.next hebp
    (.next hds (.next hes (.next hfs (.next hflags (.next rfl (.refl _)))))))))))),
    ⟨h₁₀.esp, h₁₀.stack⟩, h₁₀.regs⟩

/-- A failed or an invalid call. -/
theorem CallerSaved.fails (h : CallerSaved s frame s₁) :
    ∃ s', Reaches (systemCallProgram handlers ret) ⟨failCode, s₁⟩ [] ⟨[.iret], s'⟩ ∧
      s'.regs .eax = -1 ∧ Restored s frame s' := by
  have hsaved : CallerSaved s frame { s₁.setReg .eax (-1) with eflags := s₁.eflags.set 9 } :=
    h.of_stack rfl rfl
  obtain ⟨s', hrun, heax, hrestored⟩ := hsaved.restores handlers ret
  exact ⟨s', .next rfl (.next rfl hrun), heax, hrestored⟩

/-- From the return of the function on. -/
theorem CallerSaved.returns {result : State} (hsaved : CallerSaved s frame
    (result.setReg .esp (result.regs .esp + 12))) :
    ∃ s', Reaches (systemCallProgram handlers ret) ⟨returnCode, result⟩ [] ⟨[.iret], s'⟩ ∧
      s'.regs .eax = (if 0 ≤ (result.regs .eax).toInt then result.regs .eax else -1) ∧
      Restored s frame s' := by
  obtain ⟨s₂, hchecked, hsaved₂, heax₂, hless⟩ : ∃ s₂,
      Reaches (systemCallProgram handlers ret) ⟨returnCode, result⟩ []
        ⟨[.jl .syscallFail, .jmp .done] ++ failCode, s₂⟩ ∧ CallerSaved s frame s₂ ∧
      s₂.regs .eax = result.regs .eax ∧
      isLess s₂.eflags = decide ((result.regs .eax).toInt < 0) := by
    refine ⟨_, .next rfl (.next rfl (.refl _)), hsaved.of_stack ?_ rfl, rfl, ?_⟩
    · rfl
    · exact isLess_flagsOfSub _ _ _
  by_cases hneg : (result.regs .eax).toInt < 0
  · rw [decide_eq_true hneg] at hless
    obtain ⟨s', hrun, heax, hrestored⟩ := hsaved₂.fails handlers ret
    refine ⟨s', hchecked.andThen (.next (Program.step_jl_taken hless) hrun), ?_, hrestored⟩
    rw [heax, if_neg (by omega)]
  · rw [decide_eq_false hneg] at hless
    obtain ⟨s', hrun, heax, hrestored⟩ := hsaved₂.restores handlers ret
    refine ⟨s', hchecked.andThen (.next (Program.step_jl_skipped hless) (.next rfl hrun)), ?_,
      hrestored⟩
    rw [heax, heax₂, if_pos (by omega)]

/-! ## The number -/

/-- The two comparisons, after the number was decremented. -/
theorem number_valid_iff (eax : Word) :
    (0 ≤ (eax - 1).toInt ∧ (eax - 1).toInt ≤ 9) ↔ 1 ≤ eax.toInt ∧ eax.toInt ≤ 10 := by
  have hmin : -2 ^ 31 ≤ eax.toInt := BitVec.le_toInt eax
  have hmax : eax.toInt < 2 ^ 31 := BitVec.toInt_lt
  have hone : (1 : Word).toInt = 1 := rfl
  rw [BitVec.toInt_sub, hone]
  have hmin' : -2 ^ 31 ≤ (eax.toInt - 1).bmod (2 ^ 32) := Int.le_bmod (by decide)
  have hmax' : (eax.toInt - 1).bmod (2 ^ 32) < 2 ^ 31 := Int.bmod_lt (by decide)
  obtain ⟨wraps, hwraps⟩ :
      ((2 ^ 32 : Nat) : Int) ∣ eax.toInt - 1 - (eax.toInt - 1).bmod (2 ^ 32) :=
    Int.dvd_self_sub_bmod
  omega

/-- A valid number as the index of the table. -/
theorem number_index {eax : Word} (h : 1 ≤ eax.toInt ∧ eax.toInt ≤ 10) :
    (eax - 1).toNat = (eax.toInt - 1).toNat ∧ (eax - 1).toNat < 10 := by
  rw [BitVec.toInt_eq_toNat_cond] at h ⊢
  have hsub : (eax - 1).toNat = (2 ^ 32 - 1 + eax.toNat) % 2 ^ 32 := BitVec.toNat_sub eax 1
  have hlt := eax.isLt
  split at h <;> split <;> omega

/-- The code after the first comparison. -/
def afterCheck : List (Instruction SystemCallLabel) :=
  [.pushl .edx, .pushl .ecx, .pushl .ebx, .callTable .eax] ++ returnCode

/-- The number is decremented and compared with 0, and then with 9. -/
theorem CallerSaved.checks (h : CallerSaved s frame s₁) :
    ∃ s₂ s₃,
      Reaches (systemCallProgram handlers ret) ⟨checkCode, s₁⟩ []
        ⟨[.jl .invalidCall, .cmpl (.imm 9) .eax, .jg .invalidCall] ++ afterCheck, s₂⟩ ∧
      isLess s₂.eflags = decide ((s₁.regs .eax - 1).toInt < 0) ∧ CallerSaved s frame s₂ ∧
      Reaches (systemCallProgram handlers ret)
        ⟨[.cmpl (.imm 9) .eax, .jg .invalidCall] ++ afterCheck, s₂⟩ []
        ⟨[.jg .invalidCall] ++ afterCheck, s₃⟩ ∧
      isGreater s₃.eflags = decide (9 < (s₁.regs .eax - 1).toInt) ∧ CallerSaved s frame s₃ ∧
      s₃.regs .eax = s₁.regs .eax - 1 ∧ ∀ r, r ≠ .eax → s₃.regs r = s₁.regs r := by
  refine ⟨_, _, .next rfl (.next rfl (.refl _)), ?_, ?_, .next rfl (.refl _), ?_, ?_, ?_, ?_⟩
  · exact isLess_flagsOfSub _ _ _
  · exact h.of_stack rfl rfl
  · exact isGreater_flagsOfSub _ _ _
  · exact h.of_stack rfl rfl
  · rfl
  · intro r hr
    exact Function.update_of_ne hr _ _

/-- An invalid number. -/
theorem CallerSaved.invalid (h : CallerSaved s frame s₁)
    (hnumber : ¬ (1 ≤ (s₁.regs .eax).toInt ∧ (s₁.regs .eax).toInt ≤ 10)) :
    ∃ s', Reaches (systemCallProgram handlers ret) ⟨checkCode, s₁⟩ [] ⟨[.iret], s'⟩ ∧
      s'.regs .eax = -1 ∧ Restored s frame s' := by
  rw [← number_valid_iff] at hnumber
  obtain ⟨s₂, s₃, hfirst, hless, hsaved₂, hsecond, hgreater, hsaved₃, -, -⟩ :=
    h.checks handlers ret
  by_cases hneg : (s₁.regs .eax - 1).toInt < 0
  · rw [decide_eq_true hneg] at hless
    obtain ⟨s', hrun, hrestored⟩ := hsaved₂.fails handlers ret
    exact ⟨s', hfirst.andThen (.next (Program.step_jl_taken hless) hrun), hrestored⟩
  · rw [decide_eq_false hneg] at hless
    have hhigh : 9 < (s₁.regs .eax - 1).toInt := by omega
    rw [decide_eq_true hhigh] at hgreater
    obtain ⟨s', hrun, hrestored⟩ := hsaved₃.fails handlers ret
    exact ⟨s', hfirst.andThen (.next (Program.step_jl_skipped hless)
      (hsecond.andThen (.next (Program.step_jg_taken hgreater) hrun))), hrestored⟩

/-- A valid number: the arguments are pushed. -/
theorem CallerSaved.valid (h : CallerSaved s frame s₁) (hroom : 4 * (frame.length + 14) ≤ 2 ^ 32)
    (hnumber : 1 ≤ (s₁.regs .eax).toInt ∧ (s₁.regs .eax).toInt ≤ 10) :
    ∃ s₂, Reaches (systemCallProgram handlers ret) ⟨checkCode, s₁⟩ []
        ⟨.callTable .eax :: returnCode, s₂⟩ ∧ s₂.regs .eax = s₁.regs .eax - 1 ∧
      s₂.regs .esp = s.regs .esp - 52 ∧
      s₂.Stacked ([s₁.regs .ebx, s₁.regs .ecx, s₁.regs .edx] ++ (savedWords s ++ frame)) := by
  rw [← number_valid_iff] at hnumber
  obtain ⟨s₂, s₃, hfirst, hless, -, hsecond, hgreater, hsaved, heax, hregs⟩ :=
    h.checks handlers ret
  rw [decide_eq_false (by omega)] at hless hgreater
  have room : ∀ n, n < 4 → 4 * (n + (savedWords s ++ frame).length + 1) ≤ 2 ^ 32 := by
    intro n hn
    rw [List.length_append, savedWords_length]
    omega
  have h₀ := State.Pushed.refl hsaved.stack
  obtain ⟨t₁, hedx, h₁⟩ := Program.step_pushl h₀ (r := .edx) nofun (room 0 (by decide))
  obtain ⟨t₂, hecx, h₂⟩ := Program.step_pushl h₁ (r := .ecx) nofun (room 1 (by decide))
  obtain ⟨t₃, hebx, h₃⟩ := Program.step_pushl h₂ (r := .ebx) nofun (room 2 (by decide))
  refine ⟨t₃, hfirst.andThen (.next (Program.step_jl_skipped hless) (hsecond.andThen
    (.next (Program.step_jg_skipped hgreater) (.next hedx (.next hecx (.next hebx (.refl _))))))),
    ?_, ?_, ?_⟩
  · rw [h₃.regs .eax nofun, heax]
  · have hesp := h₃.esp
    rw [hsaved.esp] at hesp
    rw [hesp]
    change s.regs .esp - 40 - 12 = s.regs .esp - 52
    bv_omega
  · rw [← hregs .ebx nofun, ← hregs .ecx nofun, ← hregs .edx nofun]
    exact h₃.stack

/-! ## The call -/

/-- The function is entered with its return address and its arguments on the stack. -/
structure Entered (s : State) (frame : List Word) (ret : Word) (entry : State) : Prop where
  esp : entry.regs .esp = s.regs .esp - 56
  stack : entry.Stacked
    (ret :: s.regs .ebx :: s.regs .ecx :: s.regs .edx :: (savedWords s ++ frame))

/-- After the return and without the three arguments, the saved words are on top. -/
theorem Entered.after_call {entry result : State} (h : Entered s frame ret entry)
    (hresult : result.regs .esp = entry.regs .esp + 4)
    (hkept : ∀ j, j < 4 * (frame.length + 10) →
      result.mem (entry.regs .esp + 16 + BitVec.ofNat 32 j) =
        entry.mem (entry.regs .esp + 16 + BitVec.ofNat 32 j)) :
    CallerSaved s frame (result.setReg .esp (result.regs .esp + 12)) := by
  have hpointer : (result.setReg .esp (result.regs .esp + 12)).regs .esp =
      entry.regs .esp + 16 := by
    rw [State.setReg_self, hresult]
    exact BitVec.add_assoc _ 4 12
  have hfour : Holds entry.mem (entry.regs .esp)
      ([ret, s.regs .ebx, s.regs .ecx, s.regs .edx] ++ (savedWords s ++ frame)) := h.stack
  have hdrop : Holds entry.mem (entry.regs .esp + 16) (savedWords s ++ frame) := hfour.drop
  refine ⟨?_, ?_⟩
  · rw [hpointer, h.esp]
    bv_omega
  · rw [State.Stacked, hpointer]
    refine hdrop.congr fun j hj => hkept j ?_
    rw [List.length_append, savedWords_length] at hj
    omega

/-- What the caller gets back, from the result of the function. -/
structure Answered (s : State) (frame : List Word) (answer : Word) (c : Config SystemCallLabel) :
    Prop where
  code : c.code = [.iret]
  eax : c.state.regs .eax = answer
  restored : Restored s frame c.state

/-- An invalid number calls nothing. -/
theorem systemCall_invalid (hstack : s.Stacked frame) (hroom : 4 * (frame.length + 14) ≤ 2 ^ 32)
    (hnumber : ¬ (1 ≤ (s.regs .eax).toInt ∧ (s.regs .eax).toInt ≤ 10)) :
    Terminates (systemCallProgram handlers ret) ⟨systemCallCode, s⟩ fun calls c =>
      calls = [] ∧ Answered s frame (-1) c := by
  obtain ⟨s₁, hpushes, hsaved, hregs⟩ := saves handlers ret hstack hroom
  rw [← hregs .eax nofun] at hnumber
  obtain ⟨s', hrun, heax, hrestored⟩ := hsaved.invalid handlers ret hnumber
  exact ⟨[], ⟨[.iret], s'⟩, hpushes.andThen hrun, rfl, rfl, rfl, heax, hrestored⟩

/-- A valid number gets to the entry of its function. -/
theorem systemCall_entry (hstack : s.Stacked frame) (hroom : 4 * (frame.length + 14) ≤ 2 ^ 32)
    (hnumber : 1 ≤ (s.regs .eax).toInt ∧ (s.regs .eax).toInt ≤ 10) :
    ∃ name before, syscallsFxnsJmp[((s.regs .eax).toInt - 1).toNat]? = some name ∧
      (before.regs .eax).toNat = ((s.regs .eax).toInt - 1).toNat ∧
      Reaches (systemCallProgram handlers ret) ⟨systemCallCode, s⟩ []
        ⟨.callTable .eax :: returnCode, before⟩ ∧
      Entered s frame ret (before.push ret) := by
  obtain ⟨s₁, hpushes, hsaved, hregs⟩ := saves handlers ret hstack hroom
  rw [← hregs .eax nofun] at hnumber ⊢
  obtain ⟨before, hbefore, heax, hesp, hargs⟩ := hsaved.valid handlers ret hroom hnumber
  obtain ⟨hindex, hten⟩ := number_index hnumber
  obtain ⟨name, hname⟩ : ∃ name, syscallsFxnsJmp[((s₁.regs .eax).toInt - 1).toNat]? = some name :=
    ⟨_, List.getElem?_eq_getElem (by rw [← hindex]; exact hten)⟩
  refine ⟨name, before, hname, by rw [heax, hindex], hpushes.andThen hbefore, ?_, ?_⟩
  · rw [State.push_esp, hesp]
    bv_omega
  · rw [← hregs .ebx nofun, ← hregs .ecx nofun, ← hregs .edx nofun]
    refine hargs.push ret ?_
    simp only [List.length_append, List.length_cons, List.length_nil, savedWords_length]
    omega

/-- What the table holds for a valid number. -/
theorem systemCall_table {index : Nat} {name : SystemCallName}
    (hname : syscallsFxnsJmp[index]? = some name) :
    (systemCallProgram handlers ret).table index = some (handlers name) :=
  congrArg (Option.map handlers) hname

/-- A function that returns gives the caller its result, or -1. -/
theorem systemCall_returns {name : SystemCallName} {index : Nat} {before result : State}
    (hkeeps : KeepsFrame (frame.length + 10) (handlers name))
    (hname : syscallsFxnsJmp[index]? = some name) (hindex : (before.regs .eax).toNat = index)
    (hbefore : Reaches (systemCallProgram handlers ret) ⟨systemCallCode, s⟩ []
      ⟨.callTable .eax :: returnCode, before⟩)
    (hentered : Entered s frame ret (before.push ret))
    (hresult : handlers name (before.push ret) = some result) :
    Terminates (systemCallProgram handlers ret) ⟨systemCallCode, s⟩ fun calls c =>
      calls = [⟨index, before.push ret, result⟩] ∧
      Answered s frame (if 0 ≤ (result.regs .eax).toInt then result.regs .eax else -1) c := by
  obtain ⟨hreturned, hkept⟩ := hkeeps _ result hresult
  have hafter : CallerSaved s frame (result.setReg .esp (result.regs .esp + 12)) :=
    hentered.after_call ret hreturned hkept
  obtain ⟨s', hrun, heax, hrestored⟩ := hafter.returns handlers ret
  have hcall : (systemCallProgram handlers ret).step ⟨.callTable .eax :: returnCode, before⟩ =
      some ([⟨index, before.push ret, result⟩], ⟨returnCode, result⟩) :=
    Program.step_callTable hindex (systemCall_table handlers ret hname) hresult
  exact ⟨_, ⟨[.iret], s'⟩, hbefore.andThen (.step hcall hrun), rfl, rfl, rfl, heax, hrestored⟩

/-- **The system-call wrapper preserves its caller.**  With an invalid number nothing is called and
EAX is -1; with a valid one the entry of the table before it is called, and once this returns, EAX
is its result, or -1 when that is negative.  In every case the run ends at the `iret` with
the other registers, the segments and the stack of the caller. -/
theorem systemCall_preserves (s : State) (frame : List Word) (hstack : s.Stacked frame)
    (hroom : 4 * (frame.length + 14) ≤ 2 ^ 32)
    (hkeeps : ∀ name, KeepsFrame (frame.length + 10) (handlers name)) :
    (¬ (1 ≤ (s.regs .eax).toInt ∧ (s.regs .eax).toInt ≤ 10) →
      Terminates (systemCallProgram handlers ret) ⟨systemCallCode, s⟩ fun calls c =>
        calls = [] ∧ Answered s frame (-1) c) ∧
    (1 ≤ (s.regs .eax).toInt ∧ (s.regs .eax).toInt ≤ 10 →
      ∃ name before, syscallsFxnsJmp[((s.regs .eax).toInt - 1).toNat]? = some name ∧
        Reaches (systemCallProgram handlers ret) ⟨systemCallCode, s⟩ []
          ⟨.callTable .eax :: returnCode, before⟩ ∧
        Entered s frame ret (before.push ret) ∧
        ∀ result, handlers name (before.push ret) = some result →
          Terminates (systemCallProgram handlers ret) ⟨systemCallCode, s⟩ fun calls c =>
            calls = [⟨((s.regs .eax).toInt - 1).toNat, before.push ret, result⟩] ∧
            Answered s frame
              (if 0 ≤ (result.regs .eax).toInt then result.regs .eax else -1) c) := by
  refine ⟨systemCall_invalid handlers ret hstack hroom, fun hvalid => ?_⟩
  obtain ⟨name, before, hname, hindex, hbefore, hentered⟩ :=
    systemCall_entry handlers ret hstack hroom hvalid
  exact ⟨name, before, hname, hbefore, hentered, fun result hresult =>
    systemCall_returns handlers ret (hkeeps name) hname hindex hbefore hentered hresult⟩

/-- **Whatever the number is and whatever is called**, a run that gets to the `iret` gives the
caller everything but EAX back. -/
theorem systemCall_restores (hstack : s.Stacked frame) (hroom : 4 * (frame.length + 14) ≤ 2 ^ 32)
    (hkeeps : ∀ name, KeepsFrame (frame.length + 10) (handlers name)) {calls : List Call}
    {s' : State}
    (hrun : Reaches (systemCallProgram handlers ret) ⟨systemCallCode, s⟩ calls ⟨[.iret], s'⟩) :
    Restored s frame s' := by
  have hend : (systemCallProgram handlers ret).step ⟨[.iret], s'⟩ = none := rfl
  by_cases hvalid : 1 ≤ (s.regs .eax).toInt ∧ (s.regs .eax).toInt ≤ 10
  · obtain ⟨name, before, hname, hindex, hbefore, hentered⟩ :=
      systemCall_entry handlers ret hstack hroom hvalid
    cases hresult : handlers name (before.push ret) with
    | some result =>
        have hreturns := systemCall_returns handlers ret (hkeeps name) hname hindex hbefore
          hentered hresult
        exact (hreturns.of_end hrun hend).2.restored
    | none =>
        -- a function that does not return is where the run stays
        have hstuck :
            (systemCallProgram handlers ret).step ⟨.callTable .eax :: returnCode, before⟩ = none :=
          Program.step_callTable_none hindex (systemCall_table handlers ret hname) hresult
        have hsame := (hbefore.unique hstuck hrun hend).2
        cases congrArg Config.code hsame
  · exact ((systemCall_invalid handlers ret hstack hroom hvalid).of_end hrun hend).2.restored

end Wrapper

/-- A program that calls `read`, with the five words that `int` pushes on the kernel stack. -/
def readCaller : State where
  regs
    | .eax => 3
    | .esp => 0x7FFFEC
    | .ebx => 0
    | .ecx => 0x8048000
    | .edx => 7
    | _ => 0x1234
  segs := fun _ => 0x2B
  eflags := 0x202
  mem := fun a => a.setWidth 8

/-- A function that returns 7, and uses the scratch registers and the place of its first
argument. -/
def returnsSeven : Handler := fun s => some
  { s with
    regs := Function.update (Function.update (Function.update s.regs .eax 7) .edx 0) .esp
      (s.regs .esp + 4)
    mem := storeWord s.mem (s.regs .esp + 4) 0 }

theorem keepsFrame_returnsSeven : KeepsFrame 15 returnsSeven := by
  intro s s' hreturn
  cases hreturn
  have hbehind : s.regs .esp + 4 + BitVec.ofNat 32 12 = s.regs .esp + 16 :=
    BitVec.add_assoc _ 4 12
  refine ⟨?_, fun j hj => storeWord_outside s.mem ?_⟩
  · exact State.setReg_self s .esp _
  · rw [← hbehind, offset_add, sub_base_toNat _ (by omega)]
    omega

/-- The program gets the 7 back. -/
theorem systemCall_preserves_read :
    Terminates (systemCallProgram (fun _ => returnsSeven) 0x400100) ⟨systemCallCode, readCaller⟩
      fun calls c => calls.map Call.index = [2] ∧
        Answered readCaller
          [0xEFEEEDEC, 0xF3F2F1F0, 0xF7F6F5F4, 0xFBFAF9F8, 0xFFFEFDFC] 7 c := by
  have hstack : readCaller.Stacked
      [0xEFEEEDEC, 0xF3F2F1F0, 0xF7F6F5F4, 0xFBFAF9F8, 0xFFFEFDFC] :=
    ⟨rfl, rfl, rfl, rfl, rfl, trivial⟩
  obtain ⟨-, hvalid⟩ := systemCall_preserves (fun _ => returnsSeven) 0x400100 readCaller _ hstack
    (by decide) (fun _ => keepsFrame_returnsSeven)
  obtain ⟨name, before, -, -, -, hreturns⟩ := hvalid (by decide)
  obtain ⟨calls, c, hrun, hend, hcalls, hanswered⟩ := hreturns _ rfl
  refine ⟨calls, c, hrun, hend, ?_, hanswered⟩
  rw [hcalls]
  rfl

end JuddOS
