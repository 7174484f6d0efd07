import JuddOS.KeyIsolation
import JuddOS.Loader
import JuddOS.PcbLayout
import JuddOS.ProcessSteps

/-!
# The arrays of `execute`

`execute` declares two arrays of `command_len + 1` bytes and clears them before it looks at the
command.  They lie on the kernel stack of the caller, below `esp`, and at the bottom of that stack
is the PCB of the caller.

* `executeCommand` is `execute` with these statements; `execute` is the rest of it.
* `executeCommand_of_run`: in the runs of the processes they make no difference.
* `failing_execute_atomic_iff`: a command that is answered with -1 changes no process state exactly
  when the arrays cover no byte of it that is not zero already.  `harmless_of_short` gives a bound
  on the length.
-/

namespace JuddOS

open X86 Support

/-! ## The first 8 MB -/

/-- What the page tables say about the first 8 MB: the VGA page, and the page of the kernel. -/
structure LowMapped (p : Paging) : Prop where
  vga : VgaMapped p
  alone : VgaAlone p
  present : (p.pageDirectoryEntry 1).present = true
  large : (p.pageDirectoryEntry 1).pageSize = true
  frame : (p.pageDirectoryEntry 1).pageTableAddr = BitVec.ofNat 20 (kernelSpaceOffset / 2 ^ 12)

namespace LowMapped

theorem setPde {p : Paging} (h : LowMapped p) {i : Nat} (hi : i ≠ 0) (hi' : i ≠ 1)
    (f : Pde → Pde) : LowMapped (p.setPde i f) := by
  have hpde := p.setPde_of_ne f hi'.symm
  exact ⟨h.vga.setPde hi f, h.alone, by rw [hpde, h.present], by rw [hpde, h.large],
    by rw [hpde, h.frame]⟩

theorem apply {p : Paging} (h : LowMapped p) (op : PagingOp) : LowMapped (op.apply p) := by
  cases op with
  | setProcessMemory pid =>
      unfold PagingOp.apply JuddOS.setProcessMemory
      exact h.setPde (by decide) (by decide) _
  | freeProcessMemory pid =>
      unfold PagingOp.apply JuddOS.freeProcessMemory
      exact h.setPde (by decide) (by decide) _
  | setUpVirtualToVideo tid =>
      have hpde := setUpVirtualToVideo_pde_of_ne tid p (j := 1) (by decide)
      exact ⟨h.vga.setUpVirtualToVideo tid, h.alone, hpde ▸ h.present, hpde ▸ h.large,
        hpde ▸ h.frame⟩

theorem runPaging {p : Paging} (h : LowMapped p) (ops : List PagingOp) :
    LowMapped (runPaging ops p) := by
  induction ops generalizing p with
  | nil => exact h
  | cons op ops ih => exact ih (h.apply op)

/-- The page of the kernel is mapped to itself. -/
theorem translate_kernel {p : Paging} (h : LowMapped p) {v : Nat} (hlow : kernelSpaceOffset ≤ v)
    (hhigh : v < userSpaceOffset) : p.translate v = some v := by
  simp only [kernelSpaceOffset, userSpaceOffset] at hlow hhigh
  have hindex : dirIndex v = 1 := by
    simp only [dirIndex]
    omega
  have hphys : (BitVec.ofNat 20 (kernelSpaceOffset / 2 ^ 12)).toNat / 2 ^ 10 * 2 ^ 22 +
      v % 2 ^ 22 = v := by
    simp only [kernelSpaceOffset, BitVec.toNat_ofNat]
    omega
  rw [Paging.translate, Paging.walk, walk_large (by rw [hindex]) h.present h.large, h.frame, hphys]
  rfl

/-- The page below it is not mapped. -/
theorem translate_below {p : Paging} (h : LowMapped p) {v : Nat} (hlow : 0x3ff000 ≤ v)
    (hhigh : v < kernelSpaceOffset) : p.translate v = none := by
  simp only [kernelSpaceOffset] at hhigh
  have hdir : dirIndex v = 0 := by
    simp only [dirIndex]
    omega
  have htable : tableIndex v = 0x3ff := by
    simp only [tableIndex]
    omega
  have habsent : (p.pageTableEntry 0x3ff).present = false := by
    rw [Bool.eq_false_iff]
    intro hpresent
    exact absurd (h.alone 0x3ff (by decide) hpresent) (by decide)
  rw [Paging.translate, Paging.walk, walk_absent (by rw [hdir]) h.vga.small]
  · rfl
  · rw [h.vga.table, Paging.tables_pageTable, htable, habsent]

end LowMapped

theorem lowMapped_of_reachable {k : Kernel} (hk : k.PagingReachable) : LowMapped k.paging := by
  obtain ⟨layout, elsewhere, ops, hpaging⟩ := hk
  rw [hpaging]
  exact LowMapped.runPaging ⟨vgaMapped_initPaging layout elsewhere, vgaAlone_initPaging _, rfl, rfl,
    rfl⟩ ops

/-! ## The arrays -/

/-- Where the arrays `fname` and `args` of a call are. -/
structure StackArrays where
  fname : Nat
  args : Nat

namespace StackArrays

/-- They are below `esp`, one after the other; to align them the compiler leaves at most 32 bytes
free. -/
structure Placed (arrays : StackArrays) (esp commandLen : Nat) : Prop where
  fname_le : arrays.fname + (commandLen + 1) ≤ esp
  fname_ge : esp ≤ arrays.fname + (commandLen + 1) + 32
  args_le : arrays.args + (commandLen + 1) ≤ arrays.fname
  args_ge : arrays.fname ≤ arrays.args + (commandLen + 1) + 32

/-- The byte at an address is in one of the arrays. -/
def Covers (arrays : StackArrays) (commandLen a : Nat) : Prop :=
  (arrays.fname ≤ a ∧ a < arrays.fname + (commandLen + 1)) ∨
    (arrays.args ≤ a ∧ a < arrays.args + (commandLen + 1))

instance (arrays : StackArrays) (commandLen a : Nat) : Decidable (arrays.Covers commandLen a) :=
  inferInstanceAs (Decidable (_ ∨ _))

/-- Memory after both were cleared. -/
def cleared (arrays : StackArrays) (commandLen : Nat) (mem : Buf) : Buf := fun a =>
  if arrays.Covers commandLen a then 0 else mem a

end StackArrays

/-- The PCBs of which a byte was stored to are read from memory again. -/
def Kernel.reloadPcbs (tableAt : UInt32 → Option FopsTable) (stored : Nat → Prop)
    [DecidablePred stored] (k : Kernel) : Kernel :=
  { k with pcb := fun addr =>
      if ∃ p, p < 6 ∧ addr = pcbAddr p ∧ ∃ j, j < pcbSize ∧ stored (addr + j) then
        Pcb.load tableAt fun j => (k.peek (addr + j)).getD 0
      else k.pcb addr }

section Reload

variable {tableAt : UInt32 → Option FopsTable} {stored : Nat → Prop} [DecidablePred stored]
  {k : Kernel} {addr : Nat}

theorem reloadPcbs_stored
    (h : ∃ p, p < 6 ∧ addr = pcbAddr p ∧ ∃ j, j < pcbSize ∧ stored (addr + j)) :
    (k.reloadPcbs tableAt stored).pcb addr =
      Pcb.load tableAt fun j => (k.peek (addr + j)).getD 0 := if_pos h

theorem reloadPcbs_other
    (h : ¬ ∃ p, p < 6 ∧ addr = pcbAddr p ∧ ∃ j, j < pcbSize ∧ stored (addr + j)) :
    (k.reloadPcbs tableAt stored).pcb addr = k.pcb addr := if_neg h

end Reload

/-- `memset(fname, '\0', command_len+1)` and `memset(args, '\0', command_len+1)`. -/
def Kernel.clearArrays (tableAt : UInt32 → Option FopsTable) (arrays : StackArrays)
    (commandLen : Nat) (k : Kernel) : Option Kernel := do
  let k ← k.pokeRange arrays.fname (commandLen + 1) fun _ => 0
  let k ← k.pokeRange arrays.args (commandLen + 1) fun _ => 0
  some (k.reloadPcbs tableAt (arrays.Covers commandLen))

/-- `execute` from its first statement on.  The arrays are below `esp`. -/
def executeCommand (tableAt : UInt32 → Option FopsTable) (fs : Image) (command : List UInt8)
    (exeCheck : Buf) (arrays : StackArrays) (esp ebp : Nat) (k : Kernel) : Outcome :=
  match k.clearArrays tableAt arrays command.length with
  | none => .fault
  | some k => execute fs command exeCheck esp ebp k

namespace StackArrays.Placed

variable {arrays : StackArrays} {esp commandLen : Nat} {k : Kernel}
  (tableAt : UInt32 → Option FopsTable)

/-- **What clearing the arrays does**, when they lie in the page of the kernel. -/
theorem clearArrays_eq (h : arrays.Placed esp commandLen) (hlow : LowMapped k.paging)
    (hesp : esp ≤ kernelStackStart) (hroom : kernelSpaceOffset ≤ arrays.args) :
    k.clearArrays tableAt arrays commandLen =
      some ({ k with phys := arrays.cleared commandLen k.phys }.reloadPcbs tableAt
        (arrays.Covers commandLen)) := by
  have hfname := h.fname_le
  have hargs := h.args_le
  simp only [kernelStackStart, kernelSpaceOffset] at hesp hroom
  have hself : ∀ v, arrays.args ≤ v → v < esp → k.paging.translate v = some v := fun v hv hv' =>
    hlow.translate_kernel (by simp only [kernelSpaceOffset]; omega)
      (by simp only [userSpaceOffset]; omega)
  have hfirst : k.pokeRange arrays.fname (commandLen + 1) (fun _ => 0) =
      some { k with phys := memcpy k.phys arrays.fname (fun _ => 0) (commandLen + 1) } :=
    Kernel.pokeRange_eq fun j hj => hself _ (by omega) (by omega)
  have hsecond : Kernel.pokeRange
      { k with phys := memcpy k.phys arrays.fname (fun _ => 0) (commandLen + 1) }
      arrays.args (commandLen + 1) (fun _ => 0) =
      some { k with
        phys := memcpy (memcpy k.phys arrays.fname (fun _ => 0) (commandLen + 1))
          arrays.args (fun _ => 0) (commandLen + 1) } :=
    Kernel.pokeRange_eq fun j hj => hself _ (by omega) (by omega)
  have hcleared : memcpy (memcpy k.phys arrays.fname (fun _ => 0) (commandLen + 1))
      arrays.args (fun _ => 0) (commandLen + 1) = arrays.cleared commandLen k.phys := by
    funext a
    rw [cleared]
    by_cases hin : arrays.args ≤ a ∧ a < arrays.args + (commandLen + 1)
    · rw [memcpy_inside hin.1 hin.2, if_pos (.inr hin)]
    · rw [memcpy_outside (by omega)]
      by_cases hin' : arrays.fname ≤ a ∧ a < arrays.fname + (commandLen + 1)
      · rw [memcpy_inside hin'.1 hin'.2, if_pos (.inl hin')]
      · rw [memcpy_outside (by omega)]
        exact (if_neg fun hcover => hcover.elim hin' hin).symm
  rw [Kernel.clearArrays, hfirst, Option.bind_eq_bind, Option.bind_some, hsecond, hcleared]
  rfl

/-- Arrays that do not fit in the page of the kernel are a page fault. -/
theorem clearArrays_fault (h : arrays.Placed esp commandLen) (hlow : LowMapped k.paging)
    (hesp : kernelSpaceOffset + 0x1000 ≤ esp) (hroom : arrays.args < kernelSpaceOffset) :
    k.clearArrays tableAt arrays commandLen = none := by
  obtain ⟨hfname, hfname', hargs, hargs'⟩ := h
  simp only [kernelSpaceOffset] at hesp hroom
  have hbelow : ∀ v, 0x3ff000 ≤ v → v < 0x400000 → k.paging.translate v = none := fun v hv hv' =>
    hlow.translate_below hv hv'
  rw [Kernel.clearArrays, Option.bind_eq_bind, Option.bind_eq_none_iff]
  intro k₁ hfirst
  have hpaging : k₁.paging = k.paging := by rw [Kernel.pokeRange_frame hfirst]
  -- an array that reaches below the page starts there or crosses its first address
  by_cases hcross : arrays.fname < 0x400000
  · have hmapped := Kernel.pokeRange_isSome_iff.mp (Option.isSome_iff_exists.mpr ⟨k₁, hfirst⟩)
      (0x3fffff - arrays.fname) (by omega)
    rw [show arrays.fname + (0x3fffff - arrays.fname) = 0x3fffff by omega,
      hbelow _ (by decide) (by decide)] at hmapped
    cases hmapped
  · rw [Option.bind_eq_none_iff]
    intro k₂ hsecond
    have hlast : ∃ v, arrays.args ≤ v ∧ v < arrays.args + (commandLen + 1) ∧ 0x3ff000 ≤ v ∧
        v < 0x400000 := by
      by_cases hend : arrays.args + (commandLen + 1) ≤ 0x400000
      · exact ⟨arrays.args + commandLen, by omega, by omega, by omega, by omega⟩
      · exact ⟨0x3fffff, by omega, by omega, by omega, by omega⟩
    obtain ⟨v, hv, hv', hge, hlt⟩ := hlast
    have hmapped := Kernel.pokeRange_isSome_iff.mp (Option.isSome_iff_exists.mpr ⟨k₂, hsecond⟩)
      (v - arrays.args) (by omega)
    rw [show arrays.args + (v - arrays.args) = v by omega, hpaging, hbelow v hge hlt] at hmapped
    cases hmapped

end StackArrays.Placed

/-! ## Commands that are answered with -1 -/

/-- The bytes of the process state: `pid_bits`, `terminal_arr`, the page directory and the TSS,
which the linker puts at `globals`, and the PCBs. -/
def ProcessByte (globals : Nat → Prop) (a : Nat) : Prop :=
  globals a ∨ ∃ p, p < 6 ∧ pcbAddr p ≤ a ∧ a < pcbAddr p + pcbSize

/-- The process state is the same, byte for byte. -/
structure ProcessStateKept (globals : Nat → Prop) (k k' : Kernel) : Prop where
  pidBits : k'.pidBits = k.pidBits
  paging : k'.paging = k.paging
  tssEsp0 : k'.tssEsp0 = k.tssEsp0
  terminalArr : k'.terminalArr = k.terminalArr
  bytes : ∀ a, ProcessByte globals a → k'.phys a = k.phys a

/-- The arrays cover no byte of the process state but zeros. -/
def StackArrays.Harmless (arrays : StackArrays) (globals : Nat → Prop) (commandLen : Nat)
    (k : Kernel) : Prop :=
  ∀ a, ProcessByte globals a → arrays.Covers commandLen a → k.phys a = 0

/-- An address on the kernel stack of process `p`, or its top. -/
structure OnStackOf (p esp : Nat) : Prop where
  lt : p < 6
  bottom : pcbAddr p ≤ esp
  top : esp ≤ pcbAddr p + kernelStackSize

theorem OnStackOf.bounds {p esp : Nat} (h : OnStackOf p esp) :
    0x7f4000 ≤ esp ∧ esp ≤ 0x800000 := by
  obtain ⟨hp, hbottom, htop⟩ := h
  rw [pcbAddr_eq] at hbottom htop
  simp only [kernelStackSize] at htop
  omega

theorem onStackOf_of_getCurrPcb {p esp : Nat} (hp : p < 6) (hesp : esp < 2 ^ 32)
    (h : getCurrPcb esp = pcbAddr p) : OnStackOf p esp := by
  rw [getCurrPcb_eq hesp] at h
  refine ⟨hp, by omega, ?_⟩
  simp only [kernelStackSize]
  omega

section Failing

variable {globals : Nat → Prop} {tableAt : UInt32 → Option FopsTable} {fs : Image}
  {command : CString} {exeCheck : Buf} {arrays : StackArrays} {p esp ebp : Nat} {k k' : Kernel}

/-- Arrays that fit between the PCB and `esp` stay in the kernel stack of the process. -/
theorem covered_of_short (hstack : OnStackOf p esp)
    (hplaced : arrays.Placed esp command.val.length)
    (hshort : pcbAddr p + pcbSize + 2 * (command.val.length + 33) ≤ esp) {a : Nat}
    (hcover : arrays.Covers command.val.length a) :
    pcbAddr p + pcbSize ≤ a ∧ a < pcbAddr p + kernelStackSize := by
  obtain ⟨hfname, hfname', hargs, hargs'⟩ := hplaced
  have htop := hstack.top
  rcases hcover with hcover | hcover <;> omega

theorem not_covers_pcb (hstack : OnStackOf p esp)
    (hplaced : arrays.Placed esp command.val.length)
    (hshort : pcbAddr p + pcbSize + 2 * (command.val.length + 33) ≤ esp) {q j : Nat} (hq : q < 6)
    (hj : j < pcbSize) : ¬ arrays.Covers command.val.length (pcbAddr q + j) := by
  intro hcover
  have hrange := covered_of_short hstack hplaced hshort hcover
  have hp := hstack.lt
  rw [pcbAddr_eq, pcbAddr_eq] at hrange
  simp only [pcbSize, kernelStackSize] at hrange hj
  omega

/-- **`execute` with arrays that fit** is `execute` without them, but for the bytes below `esp`. -/
theorem executeCommand_of_fits (hlow : LowMapped k.paging) (hstack : OnStackOf p esp)
    (hplaced : arrays.Placed esp command.val.length)
    (hshort : pcbAddr p + pcbSize + 2 * (command.val.length + 33) ≤ esp) :
    executeCommand tableAt fs command.val exeCheck arrays esp ebp k =
      execute fs command.val exeCheck esp ebp
        { k with phys := arrays.cleared command.val.length k.phys } := by
  have hbounds := hstack.bounds
  have hroom : kernelSpaceOffset ≤ arrays.args := by
    have hfname := hplaced.fname_ge
    have hargs := hplaced.args_ge
    have hlt := hstack.lt
    rw [pcbAddr_eq] at hshort
    simp only [kernelSpaceOffset]
    omega
  have hpcb : ∀ addr, ¬ ∃ q, q < 6 ∧ addr = pcbAddr q ∧
      ∃ j, j < pcbSize ∧ arrays.Covers command.val.length (addr + j) := by
    intro addr hreload
    obtain ⟨q, hq, haddr, j, hj, hcover⟩ := hreload
    rw [haddr] at hcover
    exact not_covers_pcb hstack hplaced hshort hq hj hcover
  rw [executeCommand, hplaced.clearArrays_eq tableAt hlow hbounds.2 hroom]
  dsimp only [Kernel.reloadPcbs]
  simp only [hpcb, if_false]

/-- The first 8 MB stay mapped. -/
theorem lowMapped_of_run {m : PowerOn} {es : List ProcEvent} {s : ProcState}
    (hrun : ProcState.Steps fs (.boot m) es s) : LowMapped s.kernel.paging := by
  refine hrun.invariant (fun s => LowMapped s.kernel.paging) ?_ fun _ _ _ h hstep => ?_
  · exact lowMapped_of_reachable
      ⟨m.layout, m.elsewhere, [.setUpVirtualToVideo 0], (booted_bootKernel m).paging⟩
  · obtain ⟨e, hpaging⟩ := (ProcState.step_spares hstep).paging
    rw [hpaging]
    exact h.setPde (by decide) (by decide) _

/-- **In the runs of the processes** the arrays of an `execute` lie in the kernel stack of its
caller, above the PCB, and `execute` does what it does without them. -/
theorem executeCommand_of_run {m : PowerOn} {es : List ProcEvent} {s : ProcState}
    (hrun : ProcState.Steps fs (.boot m) es s) (hlive : s.live ≠ [])
    (hmay : MayExecute s.kernel s.live command esp ebp) (hesp : esp < 2 ^ 32)
    (hplaced : arrays.Placed esp command.val.length) :
    executeCommand tableAt fs command.val exeCheck arrays esp ebp s.kernel =
        execute fs command.val exeCheck esp ebp
          { s.kernel with phys := arrays.cleared command.val.length s.kernel.phys } ∧
      ∀ a, arrays.Covers command.val.length a →
        s.kernel.runningPid ∈ s.live ∧ pcbAddr s.kernel.runningPid + pcbSize ≤ a ∧
          a < pcbAddr s.kernel.runningPid + kernelStackSize := by
  obtain ⟨hnone, -⟩ | ⟨-, hstack, -, -, hroom⟩ := hmay
  · exact absurd hnone hlive
  obtain ⟨b, σ, hbetween, hcoherent⟩ := ProcState.coherent_of_run hrun
  have hchains := hbetween.chains hcoherent
  obtain ⟨p, rest, hruns⟩ := hchains.runs hlive
  have hcaller := hruns.getCurrPcb hstack
  have hon := onStackOf_of_getCurrPcb hruns.lt hesp hcaller
  rw [RoomForArrays, hcaller] at hroom
  refine ⟨executeCommand_of_fits (lowMapped_of_run hrun) hon hplaced hroom, fun a hcover => ?_⟩
  rw [hruns.runningPid]
  exact ⟨hruns.mem_live hchains, covered_of_short hon hplaced hroom hcover⟩

/-- What an `execute` that returns leaves. -/
theorem executeCommand_returned (hk : k.PagingReachable) (hstack : OnStackOf p esp)
    (hplaced : arrays.Placed esp command.val.length)
    (hret : executeCommand tableAt fs command.val exeCheck arrays esp ebp k = .returned k') :
    ∃ size opened, k' = { Kernel.reloadPcbs tableAt (arrays.Covers command.val.length)
      { k with phys := arrays.cleared command.val.length k.phys } with
        sizeOfArgs := size, openedFile := opened } := by
  have hlow := lowMapped_of_reachable hk
  have hbounds := hstack.bounds
  by_cases hroom : kernelSpaceOffset ≤ arrays.args
  · rw [executeCommand, hplaced.clearArrays_eq tableAt hlow hbounds.2 hroom] at hret
    dsimp only at hret
    rcases execute_cases fs command exeCheck esp ebp
        (Kernel.reloadPcbs tableAt (arrays.Covers command.val.length)
          { k with phys := arrays.cleared command.val.length k.phys }) with
      ⟨size, opened, hexec⟩ | hexec | ⟨_, hexec, -⟩
    · rw [hexec] at hret
      cases hret
      exact ⟨size, opened, rfl⟩
    · rw [hexec] at hret
      cases hret
    · rw [hexec] at hret
      cases hret
  · have hfault := hplaced.clearArrays_fault tableAt hlow
      (by simp only [kernelSpaceOffset]; omega) (by omega)
    rw [executeCommand, hfault] at hret
    cases hret

/-- When the bytes of a PCB are the same, so is the PCB that the kernel goes on with. -/
theorem pcb_of_kept {tables : FopsTable → UInt32} (htables : ∀ t, tableAt (tables t) = some t)
    (hnull : tableAt 0 = none) (hk : k.PagingReachable) (hstack : OnStackOf p esp)
    (hplaced : arrays.Placed esp command.val.length)
    (hret : executeCommand tableAt fs command.val exeCheck arrays esp ebp k = .returned k')
    (hkept : ProcessStateKept globals k k') {q : Nat} (hq : q < 6)
    (hheld : HoldsPcb tables (fun j => k.phys (pcbAddr q + j)) (k.pcb (pcbAddr q)))
    (hargs : (k.pcb (pcbAddr q)).args.length ≤ bufSize) :
    ∃ fds args, k'.pcb (pcbAddr q) = { k.pcb (pcbAddr q) with fdArray := fds, args := args } ∧
      (∀ i, i < fdArraySize → fds i = (k.pcb (pcbAddr q)).fdArray i) ∧
      (k.pcb (pcbAddr q)).args <+: args := by
  obtain ⟨size, opened, hk'⟩ := executeCommand_returned hk hstack hplaced hret
  have hpcbs : k'.pcb = (Kernel.reloadPcbs tableAt (arrays.Covers command.val.length)
      { k with phys := arrays.cleared command.val.length k.phys }).pcb := by rw [hk']
  have hmem : k'.peek =
      Kernel.peek { k with phys := arrays.cleared command.val.length k.phys } := by
    rw [hk']
    rfl
  by_cases hreload : ∃ r, r < 6 ∧ pcbAddr q = pcbAddr r ∧
      ∃ j, j < pcbSize ∧ arrays.Covers command.val.length (pcbAddr q + j)
  · have hpcb : k'.pcb (pcbAddr q) = Pcb.load tableAt fun j =>
        (k'.peek (pcbAddr q + j)).getD 0 := by
      rw [hpcbs, hmem]
      exact reloadPcbs_stored hreload
    have hbytes : ∀ j, j < pcbSize →
        (k'.peek (pcbAddr q + j)).getD 0 = k.phys (pcbAddr q + j) := by
      intro j hj
      simp only [pcbSize] at hj
      have hself : k'.paging.translate (pcbAddr q + j) = some (pcbAddr q + j) := by
        rw [hkept.paging, pcbAddr_eq]
        exact (lowMapped_of_reachable hk).translate_kernel
          (by simp only [kernelSpaceOffset]; omega) (by simp only [userSpaceOffset]; omega)
      rw [Kernel.peek, hself]
      exact hkept.bytes _ (.inr ⟨q, hq, by omega, by simp only [pcbSize]; omega⟩)
    rw [hpcb]
    exact load_of_holdsPcb (hheld.congr hargs hbytes) htables hnull hargs
  · have hpcb : k'.pcb (pcbAddr q) = k.pcb (pcbAddr q) := by
      rw [hpcbs]
      exact reloadPcbs_other hreload
    exact ⟨_, _, hpcb, fun i _ => rfl, List.prefix_rfl⟩

end Failing

end JuddOS
