import JuddOS.Paging
import JuddOS.Support.Run
import Mathlib.Order.CompletePartialOrder
import Mathlib.Order.Interval.Set.Basic
import Mathlib.Order.Disjoint
import Mathlib.Data.Set.Function
import Mathlib.Tactic.IntervalCases

/-!
# What user mode can reach through the page tables

The page tables are written by three functions after `init_paging`, in any order and any
number of times.  `PagingOp` is one such call and `runPaging` a sequence of them.

The argument is one invariant, `Confined`: it says of every directory entry, and of every
entry of the video page table, when it can be a present user entry and what it then maps.
It holds after `init_paging`, each of the three functions keeps it, and the page walk only
ever reads entries that it speaks about.  `user_access_isolated` is the result.
-/

namespace JuddOS

open X86

/-- One call of a function of `paging.c` that changes the tables. -/
inductive PagingOp
  | setProcessMemory (pid : Pid)
  | freeProcessMemory (pid : Pid)
  | setUpVirtualToVideo (tid : Tid)

/-- The call itself.  The terminals have the addresses `terminal_init` gave them. -/
def PagingOp.apply (p : Paging) : PagingOp → Paging
  | .setProcessMemory pid => JuddOS.setProcessMemory pid p
  | .freeProcessMemory pid => JuddOS.freeProcessMemory pid p
  | .setUpVirtualToVideo tid => JuddOS.setUpVirtualToVideo terminalVidmem tid p

/-- The calls of a list, first one first. -/
def runPaging (ops : List PagingOp) (p : Paging) : Paging := ops.foldl PagingOp.apply p

/-- The process last given to `set_process_memory`, if there was one. -/
def lastProcess (ops : List PagingOp) : Option (Pid) :=
  ops.foldl (fun last op => match op with
    | .setProcessMemory pid => some pid
    | _ => last) none

/-- The physical memory by its use: the frame of each process, the video buffers of the three
terminals, the page of the VGA, and the 4 MB of the kernel. -/
inductive Region
  | process (pid : Pid)
  | buffer (tid : Tid)
  | vga
  | kernel

/-- The physical addresses of a region. -/
def Region.addrs : Region → Set Nat
  | .process pid => Set.Ico (processFrame pid) (processFrame pid + userSpaceSize)
  | .buffer tid => Set.Ico (videoBuffer tid) (videoBuffer tid + sizeOfEntry)
  | .vga => Set.Ico videoAddr (videoAddr + sizeOfEntry)
  | .kernel => Set.Ico kernelSpaceOffset userSpaceOffset

/-- Frames of different processes, the video buffers, the VGA page and kernel memory do
not overlap. -/
theorem regions_disjoint : Pairwise (Function.onFun Disjoint Region.addrs) := by
  intro r r' hne
  rw [Function.onFun_apply, Set.disjoint_left]
  intro a ha ha'
  apply hne
  cases r <;> cases r' <;>
    simp only [Region.addrs, Set.mem_Ico, processFrame, videoBuffer, userSpaceOffset,
      userSpaceSize, vidBufAddrBase, addrStartOffset, sizeOfEntry, videoAddr,
      kernelSpaceOffset] at ha ha'
  case process.process pid pid' => exact congrArg Region.process (Fin.ext (by omega))
  case buffer.buffer tid tid' => exact congrArg Region.buffer (Fin.ext (by omega))
  case vga.vga => rfl
  case kernel.kernel => rfl
  all_goals omega

/-- **The invariant.**  Present user entries are the entry of the process page, which maps
the last process, and the entry of the video table with its three pages. -/
structure Confined (p : Paging) (last : Option (Pid)) : Prop where
  supervisor : ∀ i, i ≠ userVirtualAddr → i ≠ 33 →
    (p.pageDirectoryEntry i).userSupervisor = false
  process : (p.pageDirectoryEntry userVirtualAddr).present = true →
    ∃ pid : Pid, last = some pid ∧ MapsProcess p pid
  video : (p.pageDirectoryEntry 33).present = true →
    (p.pageDirectoryEntry 33).pageSize = false ∧
      (p.pageDirectoryEntry 33).pageTableAddr = p.layout.pageTableForVideo
  videoTable : ∀ j, (p.pageTableEntryForVideo j).present = true →
    ∃ tid i : Tid, j = 256 + i.val ∧
      p.pageTableEntryForVideo j = videoPte (videoPage tid i)

theorem confined_initPaging (layout : Layout) (elsewhere : BitVec 20 → Nat → Pte) :
    Confined (initPaging (Paging.zeroed layout elsewhere)) none where
  supervisor i _ _ := by
    by_cases h1 : i = 1
    · subst h1
      rfl
    · by_cases h0 : i = 0
      · subst h0
        rfl
      · by_cases hi : i < 1024 <;>
          simp [initPaging, Paging.zeroed, Paging.setPde, h0, h1, hi, Pde.ofVal, readWriteBit]
  process h := by
    simp [initPaging, Paging.zeroed, Paging.setPde, Pde.ofVal, readWriteBit] at h
  video h := by
    simp [initPaging, Paging.zeroed, Paging.setPde, Pde.ofVal, readWriteBit] at h
  videoTable j h := by
    simp [initPaging, Paging.zeroed, Paging.setPde, Pte.ofVal] at h

theorem Confined.setProcessMemory {p : Paging} {last : Option (Pid)}
    (h : Confined p last) (pid : Pid) :
    Confined (JuddOS.setProcessMemory pid p) (some pid) where
  supervisor i hi hi' := by
    rw [JuddOS.setProcessMemory, Paging.setPde_of_ne p _ hi]
    exact h.supervisor i hi hi'
  process _ := ⟨pid, rfl, mapsProcess_setProcessMemory pid p⟩
  video hp := by
    rw [JuddOS.setProcessMemory, Paging.setPde_of_ne p _ (by simp)] at hp ⊢
    exact h.video hp
  videoTable := h.videoTable

theorem Confined.freeProcessMemory {p : Paging} {last : Option (Pid)}
    (h : Confined p last) (pid : Pid) :
    Confined (JuddOS.freeProcessMemory pid p) last where
  supervisor i hi hi' := by
    rw [JuddOS.freeProcessMemory, Paging.setPde_of_ne p _ hi]
    exact h.supervisor i hi hi'
  process hp := by
    simp [JuddOS.freeProcessMemory] at hp
  video hp := by
    rw [JuddOS.freeProcessMemory, Paging.setPde_of_ne p _ (by simp)] at hp ⊢
    exact h.video hp
  videoTable := h.videoTable

theorem Confined.setUpVirtualToVideo {p : Paging} {last : Option (Pid)}
    (h : Confined p last) (tid : Tid) :
    Confined (JuddOS.setUpVirtualToVideo terminalVidmem tid p) last where
  supervisor i hi hi' := by
    rw [setUpVirtualToVideo_pde_of_ne tid p hi']
    exact h.supervisor i hi hi'
  process hp := by
    have hpde : (JuddOS.setUpVirtualToVideo terminalVidmem tid p).pageDirectoryEntry
        userVirtualAddr = p.pageDirectoryEntry userVirtualAddr :=
      setUpVirtualToVideo_pde_of_ne tid p (by simp)
    rw [hpde] at hp
    obtain ⟨pid, hlast, hmaps⟩ := h.process hp
    exact ⟨pid, hlast, by rw [hpde]; exact hmaps.present, by rw [hpde]; exact hmaps.user,
      by rw [hpde]; exact hmaps.large, by rw [hpde]; exact hmaps.frame⟩
  video _ := by
    rw [setUpVirtualToVideo_pde]
    exact ⟨rfl, rfl⟩
  videoTable j hj := by
    rw [setUpVirtualToVideo_videoPte] at hj ⊢
    by_cases hrange : 256 ≤ j ∧ j < 259
    · rw [dif_pos hrange]
      exact ⟨tid, ⟨j - 256, by omega⟩, by simp; omega, rfl⟩
    · rw [dif_neg hrange] at hj ⊢
      exact h.videoTable j hj

/-- The invariant holds after any sequence of calls. -/
theorem confined_runPaging (layout : Layout) (elsewhere : BitVec 20 → Nat → Pte)
    (ops : List PagingOp) :
    Confined (runPaging ops (initPaging (Paging.zeroed layout elsewhere)))
      (lastProcess ops) := by
  induction ops using List.reverseRecOn with
  | nil => exact confined_initPaging layout elsewhere
  | append_singleton ops op ih =>
      have hrun : runPaging (ops ++ [op]) (initPaging (Paging.zeroed layout elsewhere)) =
          op.apply (runPaging ops (initPaging (Paging.zeroed layout elsewhere))) := by
        simp [runPaging]
      rw [hrun]
      cases op with
      | setProcessMemory pid =>
          simpa [lastProcess, PagingOp.apply] using ih.setProcessMemory pid
      | freeProcessMemory pid =>
          simpa [lastProcess, PagingOp.apply] using ih.freeProcessMemory pid
      | setUpVirtualToVideo tid =>
          simpa [lastProcess, PagingOp.apply] using ih.setUpVirtualToVideo tid

/-- A user address goes through the process entry or through the video table, and then to
the frame of the last process, to the VGA page or to the buffer of the terminal. -/
theorem Confined.user_access {p : Paging} {last : Option (Pid)}
    (h : Confined p last) {v phys : Nat} (hv : v < 2 ^ 32)
    (hwalk : p.walk v = some ⟨phys, true⟩) :
    (v ∈ Set.Ico virtualAddrStart (virtualAddrStart + userSpaceSize) ∧
        ∃ pid : Pid, last = some pid ∧
          phys = processFrame pid + (v - virtualAddrStart)) ∨
      ∃ i : Tid,
        v ∈ Set.Ico (terminalVidmem i) (terminalVidmem i + sizeOfEntry) ∧
        (phys = videoAddr + (v - terminalVidmem i) ∨
          phys = videoBuffer i + (v - terminalVidmem i)) := by
  obtain ⟨hpresent, huser, htarget⟩ := walk_user hwalk
  by_cases h32 : dirIndex v = userVirtualAddr
  · -- directory entry 32: the page of the last process
    left
    rw [h32] at hpresent
    obtain ⟨pid, hlast, hmaps⟩ := h.process hpresent
    have hrange : virtualAddrStart ≤ v ∧ v < virtualAddrStart + userSpaceSize := by
      simp only [dirIndex, userVirtualAddr] at h32
      simp only [virtualAddrStart, userSpaceSize]
      omega
    refine ⟨hrange, pid, hlast, ?_⟩
    have hv' : virtualAddrStart + (v - virtualAddrStart) = v := by omega
    have hmapped := hmaps.walk pid.isLt (o := v - virtualAddrStart) (by omega)
    rw [hv', hwalk] at hmapped
    exact congrArg Translation.phys (Option.some.inj hmapped)
  · right
    have h33 : dirIndex v = 33 := by
      by_contra hne
      rw [h.supervisor _ h32 hne] at huser
      exact Bool.false_ne_true huser
    rw [h33] at hpresent htarget
    obtain ⟨hsmall, htable⟩ := h.video hpresent
    rcases htarget with ⟨hlarge, -⟩ | ⟨-, hpte, hphys⟩
    · rw [hsmall] at hlarge
      exact absurd hlarge Bool.false_ne_true
    · -- directory entry 33: one of the three pages of the video table
      rw [htable, Paging.tables_video] at hpte hphys
      obtain ⟨tid, i, hindex, hentry⟩ := h.videoTable _ hpte
      rw [hentry, videoPte_pageAddr] at hphys
      have hrange : terminalVidmem i ≤ v ∧ v < terminalVidmem i + sizeOfEntry := by
        simp only [dirIndex] at h33
        simp only [tableIndex] at hindex
        simp only [terminalVidmem, virtualVideoAddress, sizeOfEntry]
        omega
      have hoffset : v % 2 ^ 12 = v - terminalVidmem i := by
        simp only [terminalVidmem, virtualVideoAddress, sizeOfEntry] at hrange ⊢
        omega
      refine ⟨i, hrange, ?_⟩
      rw [hphys, hoffset, videoPage]
      by_cases hi : i = tid
      · exact .inl (by rw [if_pos hi])
      · exact .inr (by rw [if_neg hi])

/-- **Isolation of the page tables.**  After `init_paging` and any sequence of calls, every
address that the walk makes accessible from user mode lies in the process page and goes to
the frame of the last process, or lies in the page of some terminal and goes to the VGA page
or to that terminal's own buffer.  None goes to kernel memory, and the frames, the buffers,
the VGA page and kernel memory are pairwise disjoint. -/
theorem user_access_isolated (layout : Layout) (elsewhere : BitVec 20 → Nat → Pte)
    (ops : List PagingOp) :
    (∀ (v : UInt32) (phys : Nat),
      (runPaging ops (initPaging (Paging.zeroed layout elsewhere))).walk v.toNat =
        some ⟨phys, true⟩ →
      ((v.toNat ∈ Set.Ico virtualAddrStart (virtualAddrStart + userSpaceSize) ∧
          ∃ pid : Pid, lastProcess ops = some pid ∧
            phys = processFrame pid + (v.toNat - virtualAddrStart)) ∨
        ∃ i : Tid,
          v.toNat ∈ Set.Ico (terminalVidmem i) (terminalVidmem i + sizeOfEntry) ∧
          (phys = videoAddr + (v.toNat - terminalVidmem i) ∨
            phys = videoBuffer i + (v.toNat - terminalVidmem i))) ∧
      phys ∉ Region.kernel.addrs) ∧
    Pairwise (Function.onFun Disjoint Region.addrs) := by
  refine ⟨fun v phys hwalk => ?_, regions_disjoint⟩
  have haccess := (confined_runPaging layout elsewhere ops).user_access v.toNat_lt hwalk
  refine ⟨haccess, fun hkernel => ?_⟩
  simp only [Region.addrs, Set.mem_Ico, kernelSpaceOffset, userSpaceOffset] at hkernel
  rcases haccess with ⟨-, pid, -, hphys⟩ | ⟨i, hv, hphys⟩
  · simp only [processFrame, userSpaceOffset, userSpaceSize] at hphys
    omega
  · simp only [Set.mem_Ico, terminalVidmem, virtualVideoAddress, sizeOfEntry] at hv
    simp only [videoBuffer, videoAddr, vidBufAddrBase, addrStartOffset, terminalVidmem,
      virtualVideoAddress, sizeOfEntry] at hphys
    omega

/-- The page of process 2 is reachable once it has been mapped, and it is not kernel
memory. -/
theorem user_access_isolated_process_two :
    (runPaging [.setUpVirtualToVideo 0, .setProcessMemory 2]
      (initPaging (Paging.zeroed ⟨1, 2, by decide⟩ fun _ _ => Pte.ofVal 0))).walk
        (0x08048000 : UInt32).toNat = some ⟨processFrame 2 + 0x48000, true⟩ ∧
      processFrame 2 + 0x48000 ∉ Region.kernel.addrs := by
  have hwalk : (runPaging [.setUpVirtualToVideo 0, .setProcessMemory 2]
      (initPaging (Paging.zeroed ⟨1, 2, by decide⟩ fun _ _ => Pte.ofVal 0))).walk
        (0x08048000 : UInt32).toNat = some ⟨processFrame 2 + 0x48000, true⟩ := by decide
  exact ⟨hwalk, ((user_access_isolated ⟨1, 2, by decide⟩ (fun _ _ => Pte.ofVal 0)
    [.setUpVirtualToVideo 0, .setProcessMemory 2]).1 0x08048000 _ hwalk).2⟩

end JuddOS
