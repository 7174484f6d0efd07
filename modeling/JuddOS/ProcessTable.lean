import JuddOS.ProcessRuns

/-!
# The process table and the running context

What `Coherent` means for the fields of the kernel, when `execute`, `halt` and `pit_handler`
are atomic.

* `processTable_of_run`: in every reachable state the live processes have different numbers,
  and those of a terminal are one chain of parent pointers from `most_recent_pcb` to a
  process without parent.
* `runningContext_of_run`: in every reachable state with a process, the page, the kernel stack
  and the saved stacks are those of the processes that run, and `halt` returns to the parent
  with the page and the stack of the parent.
-/

namespace JuddOS

open Support

/-! ## The first shell -/

/-- An image whose only file is an executable `shell`. -/
def shellImage : Image where
  bytes a := match a.toNat with
    | 0 => 1
    | 4 => 1
    | 8 => 1
    | 64 => 0x73
    | 65 => 0x68
    | 66 => 0x65
    | 67 => 0x6c
    | 68 => 0x6c
    | 96 => 2
    | 4096 => 4
    | 8192 => 0x7f
    | 8193 => 0x45
    | 8194 => 0x4c
    | 8195 => 0x46
    | _ => 0

/-- The shell is accepted as long as there is a free number. -/
theorem shell_accepted {pidBits : Nat → UInt8} (hfree : firstFreePid pidBits 6 0 ≠ 6) :
    ¬ Rejected shellImage shellCString.val (fun _ => 0) pidBits := by
  rintro (h | h | h | h | h)
  · revert h
    decide
  · revert h
    decide
  · revert h
    decide
  · revert h
    decide
  · exact hfree h

/-- Starting the shell. -/
theorem execute_shell {k : Kernel} (esp ebp : Nat) (hfree : firstFreePid k.pidBits 6 0 ≠ 6) :
    ∃ k', execute shellImage shellCString.val (fun _ => 0) esp ebp k = .user k' ∧
      Started k esp ebp (firstFreePid k.pidBits 6 0) k' := by
  obtain ⟨k', hexec, -⟩ := execute_user esp ebp (shell_accepted hfree) (by decide)
  rcases execute_cases shellImage shellCString (fun _ => 0) esp ebp k with
    ⟨_, _, h⟩ | h | ⟨k'', h, -, hstarted⟩
  · rw [hexec] at h
    cases h
  · rw [hexec] at h
    cases h
  · rw [hexec] at h
    cases h
    exact ⟨k', hexec, hstarted⟩

/-- The first shell. -/
theorem exists_firstShell (m : PowerOn) :
    ∃ s, ProcState.Steps shellImage (.boot m) [.execute shellCString (fun _ => 0) 0 0] s ∧
      s.live = [0] := by
  have hbits : (bootKernel m).pidBits = fun _ => 0 := (booted_bootKernel m).pidBits
  have hzero : firstFreePid (bootKernel m).pidBits 6 0 = 0 := by
    rw [hbits]
    decide
  obtain ⟨k', hexec, hstarted⟩ := execute_shell (k := bootKernel m) 0 0 (by rw [hzero]; decide)
  refine ⟨{ kernel := k', live := [k'.availablePid] }, .single ?_, ?_⟩
  · have hmay : MayExecute (ProcState.boot m).kernel (ProcState.boot m).live shellCString 0 0 :=
      .inl ⟨rfl, rfl⟩
    have hexec' : execute shellImage shellCString.val (fun _ => 0) 0 0 (ProcState.boot m).kernel =
      .user k' := hexec
    rw [ProcState.step, if_pos hmay, hexec']
    rfl
  · rw [hstarted.availablePid, hzero]

/-! ## The process table -/

/-- The processes of terminal `t`, the most recent first. -/
structure CallChain (s : ProcState) (t : Tid) (c : List Nat) : Prop where
  members : ∀ p, p ∈ c ↔ p ∈ s.live ∧ (s.kernel.pcb (pcbAddr p)).tid = t
  nodup : c.Nodup
  leaf : c.head?.map pcbAddr = some (s.kernel.terminalArr t).mostRecentPcb
  parents : c.IsChain fun p q => (s.kernel.pcb (pcbAddr p)).parent = pcbAddr q
  root : ∀ p ∈ c, ((s.kernel.pcb (pcbAddr p)).parent = 0 ↔ c.getLast? = some p)

/-- The bookkeeping of the processes. -/
structure ProcessTable (s : ProcState) : Prop where
  bits : ∀ p, p < 6 → (s.kernel.pidBits p = 1 ↔ p ∈ s.live)
  lt : ∀ p ∈ s.live, p < 6
  nodup : s.live.Nodup
  atMost : s.live.length ≤ 6
  pid : ∀ p ∈ s.live, (s.kernel.pcb (pcbAddr p)).pid = p
  blocks : ∀ p ∈ s.live, ∀ q ∈ s.live, p ≠ q →
    pcbAddr p + kernelStackSize ≤ pcbAddr q ∨ pcbAddr q + kernelStackSize ≤ pcbAddr p
  terminal : ∀ p ∈ s.live, (s.kernel.terminalArr (s.kernel.pcb (pcbAddr p)).tid).active = true
  chain : ∀ t, (s.kernel.terminalArr t).active = true → ∃ c, c ≠ [] ∧ CallChain s t c
  separate : ∀ p ∈ s.live, ∀ q ∈ s.live, (s.kernel.pcb (pcbAddr p)).parent = pcbAddr q →
    (s.kernel.pcb (pcbAddr p)).tid = (s.kernel.pcb (pcbAddr q)).tid

theorem Chained.isChain {pcb : Nat → Pcb} {t : Tid} {c : List Nat} (h : Chained pcb t c) :
    c.IsChain fun p q => (pcb (pcbAddr p)).parent = pcbAddr q := by
  induction c with
  | nil => exact .nil
  | cons p rest ih =>
      cases rest with
      | nil => exact .singleton p
      | cons q rest => exact .cons_cons h.1.parent (ih h.2)

/-- Only the last process of a chain has no parent. -/
theorem Chained.root {pcb : Nat → Pcb} {t : Tid} {c : List Nat} (h : Chained pcb t c)
    (hnodup : c.Nodup) (hlt : ∀ p ∈ c, p < 6) {p : Nat} (hp : p ∈ c) :
    (pcb (pcbAddr p)).parent = 0 ↔ c.getLast? = some p := by
  induction c with
  | nil => cases hp
  | cons q rest ih =>
      have hrest : ∀ r ∈ rest, r < 6 := fun r hr => hlt r (List.mem_cons_of_mem q hr)
      obtain ⟨hq, hnodup⟩ := List.nodup_cons.mp hnodup
      rcases List.mem_cons.mp hp with rfl | hp
      · cases rest with
        | nil => simp [h.1.parent, topPcb]
        | cons r below =>
            have hne := pcbAddr_ne_zero (hrest r (List.mem_cons_self ..))
            rw [h.1.parent, topPcb_cons, List.getLast?_cons_cons]
            refine ⟨fun h0 => absurd h0 hne, fun hlast => ?_⟩
            exact absurd (List.mem_of_getLast? hlast) hq
      · rw [ih h.2 hnodup hrest hp]
        cases rest with
        | nil => cases hp
        | cons r below => rw [List.getLast?_cons_cons]

/-- The parent of a process of a chain is in the chain. -/
theorem Chained.parent_mem {pcb : Nat → Pcb} {t : Tid} {c : List Nat} (h : Chained pcb t c)
    {p : Nat} (hp : p ∈ c) : (pcb (pcbAddr p)).parent = 0 ∨
      ∃ q ∈ c, (pcb (pcbAddr p)).parent = pcbAddr q := by
  induction c with
  | nil => cases hp
  | cons r rest ih =>
      rcases List.mem_cons.mp hp with rfl | hp
      · rw [h.1.parent]
        cases rest with
        | nil => exact .inl rfl
        | cons q below =>
            exact .inr ⟨q, List.mem_cons_of_mem _ (List.mem_cons_self ..), topPcb_cons ..⟩
      · rcases ih h.2 hp with h0 | ⟨q, hq, hparent⟩
        · exact .inl h0
        · exact .inr ⟨q, List.mem_cons_of_mem r hq, hparent⟩

theorem processTable_of_linked {s : ProcState} {σ : Stacks Tid Nat}
    (h : Linked s.kernel s.live (fun _ => none) σ) : ProcessTable s := by
  have hlive : ∀ p, p ∈ s.live ↔ ∃ t, p ∈ σ.chain t := by
    intro p
    rw [h.alive]
    simp only [liveOf_none]
  -- Between calls nobody halts: the live processes are those on the chains.
  have hlt : ∀ p ∈ s.live, p < 6 := fun p hp =>
    ((hlive p).mp hp).elim fun t ht => h.lt t p ht
  have htid : ∀ p t, p ∈ σ.chain t → (s.kernel.pcb (pcbAddr p)).tid = t := fun p t hp =>
    (h.chained t).tid hp
  constructor
  case bits => exact h.bits
  case lt => exact hlt
  case nodup => exact h.nodup
  case atMost =>
    have hsub : s.live ⊆ List.range 6 := fun p hp => List.mem_range.mpr (hlt p hp)
    have hlen := (h.nodup.subperm hsub).length_le
    rwa [List.length_range] at hlen
  case pid =>
    intro p hp
    obtain ⟨t, ht⟩ := (hlive p).mp hp
    exact (h.chained t).pid ht
  -- Blocks are 8 KB apart, whatever the numbers are.
  case blocks =>
    intro p hp q hq hne
    have hp6 := hlt p hp
    have hq6 := hlt q hq
    rw [pcbAddr_eq, pcbAddr_eq]
    simp only [kernelStackSize]
    omega
  case terminal =>
    intro p hp
    obtain ⟨t, ht⟩ := (hlive p).mp hp
    rw [htid p t ht, h.active]
    exact List.ne_nil_of_mem ht
  case chain =>
    intro t hactive
    have hne := (h.active t).mp hactive
    refine ⟨σ.chain t, hne, fun p => ?_, h.separate.nodup t, ?_, (h.chained t).isChain,
      fun p hp => (h.chained t).root (h.separate.nodup t) (h.lt t) hp⟩
    · rw [hlive]
      constructor
      · exact fun hp => ⟨⟨t, hp⟩, htid p t hp⟩
      · rintro ⟨⟨u, hu⟩, rfl⟩
        rwa [htid p u hu]
    · rw [h.recent, recentOf_none]
      obtain ⟨p, rest, hchain⟩ := List.exists_cons_of_ne_nil hne
      rw [hchain, topPcb_cons]
      rfl
  case separate =>
    intro p hp q hq hparent
    obtain ⟨t, ht⟩ := (hlive p).mp hp
    rcases (h.chained t).parent_mem ht with h0 | ⟨r, hr, hr'⟩
    · exact absurd (hparent.symm.trans h0) (pcbAddr_ne_zero (hlt q hq))
    · have heq := pcbAddr_inj (hlt q hq) (h.lt t r hr) (hparent.symm.trans hr')
      rw [htid p t ht, heq, htid r t hr]

/-- **The process table of every reachable state.** -/
theorem processTable_of_run (fs : Image) (m : PowerOn) (es : List ProcEvent) (s : ProcState)
    (hrun : ProcState.Steps fs (.boot m) es s) : ProcessTable s := by
  obtain ⟨b, σ, hbetween, hcoherent⟩ := ProcState.coherent_of_run hrun
  have hlinked := hcoherent.linked
  rw [hbetween.kernel, hbetween.live, hbetween.halting] at hlinked
  exact processTable_of_linked hlinked

theorem processTable_firstShell :
    ∃ s, ProcState.Steps shellImage (.boot .blank) [.execute shellCString (fun _ => 0) 0 0] s ∧
      s.live = [0] ∧ ProcessTable s := by
  obtain ⟨s, hrun, hlive⟩ := exists_firstShell .blank
  exact ⟨s, hrun, hlive, processTable_of_run _ _ _ s hrun⟩

/-! ## The running context -/

/-- The PCB of the most recent process of a terminal. -/
def mostRecent (k : Kernel) (t : Tid) : Pcb := k.pcb (k.terminalArr t).mostRecentPcb

/-- The page at 128 MB is that of the process `pid`. -/
structure HasPage (k : Kernel) (pid : Nat) : Prop where
  present : (k.paging.pageDirectoryEntry userVirtualAddr).present = true
  translate : ∀ o, o < userSpaceSize →
    k.paging.translate (virtualAddrStart + o) = some (userSpaceOffset + pid * userSpaceSize + o)

/-- The page and the stack are those of the process `pid`, whose PCB is at `addr`. -/
structure InContext (k : Kernel) (pid addr : Nat) : Prop where
  page : HasPage k pid
  esp0 : k.tssEsp0 = kernelStackStart - kernelStackSize * pid - 4
  pcb : k.tssEsp0 &&& pcbCalcOffset = addr

/-- What `halt` by the running process leads to. -/
structure HaltReturns (k : Kernel) (esp : Nat) : Prop where
  /-- A root shell goes on in its own context. -/
  root : (mostRecent k k.terminalNum).parent = 0 →
    ∃ k', halt esp k = .user k' ∧
      InContext k' (mostRecent k k.terminalNum).pid (k.terminalArr k.terminalNum).mostRecentPcb
  /-- Another process returns to its parent. -/
  child : (mostRecent k k.terminalNum).parent ≠ 0 →
    ∃ k' ebp, halt esp k = .frame k' ebp ∧
      (k'.terminalArr k.terminalNum).mostRecentPcb = (mostRecent k k.terminalNum).parent ∧
      getCurrPcb ebp = (mostRecent k k.terminalNum).parent ∧
      InContext k' (k.pcb (mostRecent k k.terminalNum).parent).pid
        (mostRecent k k.terminalNum).parent

/-- The context in which the process of the scheduled terminal runs. -/
structure RunningContext (k : Kernel) : Prop where
  running : InContext k (mostRecent k k.terminalNum).pid
    (k.terminalArr k.terminalNum).mostRecentPcb
  saved : ∀ t, t ≠ k.terminalNum → (k.terminalArr t).active = true →
    (k.terminalArr t).esp0 = kernelStackStart - kernelStackSize * (mostRecent k t).pid - 4
  halts : ∀ esp, OnKernelStack k esp → HaltReturns k esp

theorem hasPage_of_maps {k : Kernel} {p : Nat} (hp : p < 6) (hmaps : MapsProcess k.paging p) :
    HasPage k p where
  present := hmaps.present
  translate _ ho := hmaps.translate hp ho

theorem inContext_of_maps {k : Kernel} {p : Nat} (hp : p < 6) (hmaps : MapsProcess k.paging p)
    (hesp0 : k.tssEsp0 = kernelStackTop p) : InContext k p (pcbAddr p) where
  page := hasPage_of_maps hp hmaps
  esp0 := hesp0
  pcb := by
    rw [hesp0]
    exact getCurrPcb_kernelStackTop hp

section Context

variable {k : Kernel} {live : List Nat} {σ : Stacks Tid Nat}

theorem haltSetRecent_mostRecentPcb (parentPcb : Nat) (k : Kernel) {n : Tid}
    (hn : k.terminalNum = n) :
    ((haltSetRecent parentPcb k).terminalArr n).mostRecentPcb = parentPcb := by
  rw [← hn, haltSetRecent, Kernel.setTerminal_self]

/-- `halt` on the stack of the process on top of the chain. -/
theorem haltReturns_of_chain (hlinked : Linked k live (fun _ => none) σ) {p : Nat}
    {rest : List Nat} (hchain : σ.chain k.terminalNum = p :: rest)
    (hmaps : MapsProcess k.paging p) {esp : Nat} (hesp : getCurrPcb esp = pcbAddr p) :
    HaltReturns k esp := by
  have hrecent := hlinked.recent k.terminalNum
  have hlinks := hlinked.chained k.terminalNum
  have hlt := hlinked.lt k.terminalNum
  rw [hchain, recentOf_none, topPcb_cons] at hrecent
  rw [hchain] at hlinks hlt
  have hp := hlt p (List.mem_cons_self ..)
  constructor
  case root =>
    intro hparent
    rw [mostRecent, hrecent] at hparent ⊢
    rw [hlinks.1.pid, halt, hesp, if_pos hparent]
    refine ⟨_, rfl, inContext_of_maps hp hmaps ?_⟩
    show kernelStackTop (k.pcb (pcbAddr p)).pid = _
    rw [hlinks.1.pid]
  case child =>
    intro hparent
    rw [mostRecent, hrecent] at hparent ⊢
    rw [halt, hesp, if_neg hparent]
    have htop := hlinks.1.parent
    cases rest with
    | nil => exact absurd htop hparent
    | cons q below =>
        rw [topPcb_cons] at htop
        have hq := hlt q (List.mem_cons_of_mem p (List.mem_cons_self ..))
        have hpid : (k.pcb (pcbAddr q)).pid = q := hlinks.2.1.pid
        rw [htop, hpid]
        refine ⟨_, _, rfl, ?_, ?_, inContext_of_maps hq ?_ ?_⟩
        · exact haltSetRecent_mostRecentPcb (pcbAddr q) _ rfl
        · rw [haltCloseFds, Kernel.setPcb_self]
          exact hlinks.1.ebp q rfl
        · show MapsProcess (setProcessMemory (k.pcb (pcbAddr q)).pid _) q
          rw [hpid]
          exact mapsProcess_setProcessMemory q _
        · exact hlinks.1.esp0 q rfl

theorem runningContext_of_coherent (hlinked : Linked k live (fun _ => none) σ)
    (hcurrent : Current k (fun _ => none) σ)
    (hsaved : ∀ t, t ≠ k.terminalNum → Saved k (fun _ => none) σ t) (hlive : live ≠ []) :
    RunningContext k := by
  rcases hchain : σ.chain k.terminalNum with _ | ⟨p, rest⟩
  · obtain ⟨q, hq⟩ := List.exists_mem_of_ne_nil _ hlive
    obtain ⟨t, ht⟩ := (hlinked.alive q).mp hq
    have hmem := liveOf_subset ht
    rw [hcurrent.idle hchain t] at hmem
    exact absurd hmem List.not_mem_nil
  have hrecent := hlinked.recent k.terminalNum
  have hpid := (hlinked.chained k.terminalNum).pid (hchain ▸ List.mem_cons_self ..)
  have hp := hlinked.lt k.terminalNum p (hchain ▸ List.mem_cons_self ..)
  have hesp0 := hcurrent.esp0
  have hpage := hcurrent.page
  rw [hchain, recentOf_none, topPcb_cons] at hrecent
  rw [hchain, esp0Of_none] at hesp0
  rw [hchain] at hpage
  have hmaps := hpage p rfl
  have htss := hesp0 (List.cons_ne_nil p rest)
  constructor
  case running =>
    rw [mostRecent, hrecent, hpid]
    exact inContext_of_maps hp hmaps htss
  case saved =>
    intro t ht hactive
    have hne := (hlinked.active t).mp hactive
    obtain ⟨q, below, hq⟩ := List.exists_cons_of_ne_nil hne
    have hstack := (hsaved t ht).esp0 hne
    have hqid := (hlinked.chained t).pid (hq ▸ List.mem_cons_self ..)
    rw [hq, esp0Of_none, List.headD_cons, kernelStackTop] at hstack
    rw [mostRecent, hlinked.recent, hq, recentOf_none, topPcb_cons, hqid]
    exact hstack
  case halts =>
    intro esp hesp
    refine haltReturns_of_chain hlinked hchain hmaps ?_
    rw [hesp, htss]
    exact getCurrPcb_kernelStackTop hp

end Context

/-- **The running context of every reachable state.** -/
theorem runningContext_of_run (fs : Image) (m : PowerOn) (es : List ProcEvent) (s : ProcState)
    (hrun : ProcState.Steps fs (.boot m) es s) (hlive : s.live ≠ []) :
    RunningContext s.kernel := by
  obtain ⟨b, σ, hbetween, hcoherent⟩ := ProcState.coherent_of_run hrun
  have hlinked := hcoherent.linked
  have hcurrent := hcoherent.current
  have hsaved := hcoherent.saved
  rw [hbetween.kernel, hbetween.live, hbetween.halting] at hlinked
  rw [hbetween.kernel, hbetween.halting] at hcurrent hsaved
  exact runningContext_of_coherent hlinked hcurrent hsaved hlive

theorem runningContext_firstShell :
    ∃ s, ProcState.Steps shellImage (.boot .blank) [.execute shellCString (fun _ => 0) 0 0] s ∧
      s.live ≠ [] ∧ RunningContext s.kernel := by
  obtain ⟨s, hrun, hlive⟩ := exists_firstShell .blank
  have hne : s.live ≠ [] := by
    rw [hlive]
    exact List.cons_ne_nil 0 []
  exact ⟨s, hrun, hne, runningContext_of_run _ _ _ s hrun hne⟩

end JuddOS
