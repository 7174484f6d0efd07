import JuddOS.Machine
import JuddOS.ProcessTable

/-!
# `vidmap`

A program asks for the address of its screen, which `vidmap` stores where the program says.  The
place should be in the page of the program, `[0x08000000, 0x08400000)`, but the test is derived from
`FILE_LOCATION`, where the program is loaded: it is 0x48000 too high at both ends.

* `vidmap_right_iff`: for which places the call does what it should, in every reachable state.  The
  address that it returns stays right however the screens are switched afterwards.
-/

namespace JuddOS

open Support X86

/-- The four bytes at the place are in the page of the program. -/
def InUserPage (screenStart : UInt32) : Prop :=
  virtualAddrStart ≤ screenStart.toNat ∧
    screenStart.toNat + 4 ≤ virtualAddrStart + userSpaceSize

/-- Stores of the program at this address reach the screen of terminal `t`: video memory while it is
displayed, and its own buffer otherwise. -/
def ReachesScreen (k : Kernel) (t : Tid) (address : UInt32) : Prop :=
  ∀ j, j < 4096 → k.paging.walk (address.toNat + j) =
    some ⟨(if t = k.terminalNumDisplay then videoAddr else videoBuffer t) + j, true⟩

/-- The word was stored at the place, and nothing else changed. -/
structure WordStored (k : Kernel) (screenStart word : UInt32) (k' : Kernel) : Prop where
  stored : ∀ j, j < 4 → k'.peek (screenStart.toNat + j) = some (Buf.ofWord word j)
  memory : k' = { k with phys := k'.phys }
  others : ∀ a, (∀ j, j < 4 → k.paging.translate (screenStart.toNat + j) ≠ some a) →
    k'.phys a = k.phys a

/-- What `vidmap` should do for a process of terminal `t`. -/
structure VidmapRight (fs : Image) (s : ProcState) (t : Tid) (screenStart : UInt32)
    (result : Option (Int32 × Kernel)) : Prop where
  succeeds : InUserPage screenStart → ∃ v k', result = some (v, k') ∧ v ≠ -1 ∧
    WordStored s.kernel screenStart v.toUInt32 k' ∧
    ∀ es s', ProcState.MachineSteps fs { s with kernel := k' } es s' →
      ReachesScreen s'.kernel t v.toUInt32
  refuses : ¬ InUserPage screenStart → result = some (-1, s.kernel)

/-! ## The range test -/

/-- The test, which is on signed numbers, as one on unsigned ones. -/
theorem vidmap_test_iff (screenStart : UInt32) :
    (screenStart.toInt32.toInt < fileLocation ∨
        screenStart.toInt32.toInt ≥ fileLocation + pageSize) ↔
      (screenStart.toNat < fileLocation ∨ fileLocation + pageSize ≤ screenStart.toNat) := by
  have hword := screenStart.toNat_lt
  rw [toInt32_toInt]
  simp only [fileLocation, pageSize]
  split <;> omega

theorem vidmap_refuses {screenStart : UInt32} {k : Kernel} (esp : Nat)
    (hout : screenStart.toNat < fileLocation ∨ fileLocation + pageSize ≤ screenStart.toNat) :
    vidmap esp screenStart k = some (-1, k) :=
  if_pos ((vidmap_test_iff screenStart).mpr hout)

/-- The address of a terminal's screen, as the word that is stored. -/
def screenWord (t : Tid) : UInt32 := UInt32.ofNat (terminalVidmem t)

theorem screenWord_toNat (t : Tid) : (screenWord t).toNat = terminalVidmem t := by
  revert t
  decide

theorem screenWord_ne (t : Tid) : (screenWord t).toInt32 ≠ -1 := by
  revert t
  decide

theorem vidmap_passes {screenStart : UInt32} {k : Kernel} {esp : Nat} {t : Tid}
    (hmapped : VideoMapped k) (htid : (k.pcb (getCurrPcb esp)).tid = t)
    (hin : ¬ (screenStart.toNat < fileLocation ∨ fileLocation + pageSize ≤ screenStart.toNat)) :
    vidmap esp screenStart k =
      (k.pokeRange screenStart.toNat 4 (Buf.ofWord (screenWord t))).map
        ((screenWord t).toInt32, ·) := by
  have htest := fun h => hin ((vidmap_test_iff screenStart).mp h)
  unfold vidmap
  dsimp only
  rw [if_neg htest, htid, hmapped.vidmem]
  rfl

/-! ## Reachable states -/

/-- The process that runs: its page is mapped, and it is one of the scheduled terminal. -/
theorem MachineReady.running {s : ProcState} (h : MachineReady s) (hlive : s.live ≠ [])
    {esp : Nat} (hesp : OnKernelStack s.kernel esp) :
    ∃ p, p < 6 ∧ MapsProcess s.kernel.paging p ∧
      (s.kernel.pcb (getCurrPcb esp)).tid = s.kernel.terminalNum := by
  obtain ⟨b, σ, hbetween, hcoherent⟩ := h.coherent
  obtain ⟨hkernel, hliveb, hhalting⟩ := hbetween
  rw [← hkernel] at hesp ⊢
  rw [← hliveb] at hlive
  obtain ⟨p, rest, hchain, hp, hlink⟩ := hcoherent.running hlive
  have hesp0 := hcoherent.current.esp0
  have hpage := hcoherent.current.page
  rw [hhalting, hchain] at hesp0 hpage
  have hpcb : getCurrPcb esp = pcbAddr p := by
    rw [hesp, hesp0 (List.cons_ne_nil p rest)]
    exact getCurrPcb_kernelStackTop hp
  exact ⟨p, hp, hpage p rfl, by rw [hpcb]; exact hlink.tid⟩

/-- The address of a terminal's screen reaches that screen in every reachable state. -/
theorem MachineReady.reachesScreen {s : ProcState} (h : MachineReady s) (t : Tid) :
    ReachesScreen s.kernel t (screenWord t) := by
  intro j hj
  rw [screenWord_toNat, h.mapped.screens.walk_screen t hj, h.user]
  rfl

/-- A place in the page that passes the test. -/
theorem vidmap_stores {fs : Image} {s : ProcState} (h : MachineReady s) {p : Nat} (hp : p < 6)
    (hmaps : MapsProcess s.kernel.paging p) {esp : Nat} {t : Tid}
    (htid : (s.kernel.pcb (getCurrPcb esp)).tid = t) {screenStart : UInt32}
    (hpage : InUserPage screenStart) (hlow : fileLocation ≤ screenStart.toNat) :
    ∃ v k', vidmap esp screenStart s.kernel = some (v, k') ∧ v ≠ -1 ∧
      WordStored s.kernel screenStart v.toUInt32 k' ∧
      ∀ es s', ProcState.MachineSteps fs { s with kernel := k' } es s' →
        ReachesScreen s'.kernel t v.toUInt32 := by
  obtain ⟨hstart, hend⟩ := hpage
  have hin : ¬ (screenStart.toNat < fileLocation ∨
      fileLocation + pageSize ≤ screenStart.toNat) := by
    simp only [virtualAddrStart, userSpaceSize, fileLocation, pageSize] at *
    omega
  -- the four bytes are consecutive in the frame of the process
  have hframe : ∀ j, j < 4 → s.kernel.paging.translate (screenStart.toNat + j) =
      some (processFrame p + (screenStart.toNat - virtualAddrStart) + j) := by
    intro j hj
    have haddr : screenStart.toNat + j =
        virtualAddrStart + (screenStart.toNat - virtualAddrStart + j) := by omega
    rw [haddr, hmaps.translate hp (by omega), Nat.add_assoc]
  have hpoke : s.kernel.pokeRange screenStart.toNat 4 (Buf.ofWord (screenWord t)) = _ :=
    Kernel.pokeRange_eq hframe
  generalize hmem : memcpy s.kernel.phys _ _ 4 = phys at hpoke
  have hresult : vidmap esp screenStart s.kernel =
      some ((screenWord t).toInt32, { s.kernel with phys := phys }) := by
    rw [vidmap_passes h.mapped htid hin, hpoke, Option.map_some]
  refine ⟨_, _, hresult, screenWord_ne t, ⟨?_, ?_, ?_⟩, ?_⟩
  · intro j hj
    rw [UInt32.toUInt32_toInt32, Kernel.peek]
    dsimp only
    rw [hframe j hj, Option.map_some, ← hmem, memcpy_inside (by omega) (by omega),
      Nat.add_sub_cancel_left]
  · rfl
  · intro a ha
    dsimp only
    rw [← hmem]
    refine memcpy_outside ?_
    by_contra hinside
    refine ha (a - (processFrame p + (screenStart.toNat - virtualAddrStart))) (by omega) ?_
    rw [hframe _ (by omega), Nat.add_sub_cancel' (by omega)]
  · intro es s' hrun
    rw [UInt32.toUInt32_toInt32]
    exact ((h.memory phys).run hrun).reachesScreen t

/-- **When `vidmap` does what it should**, for the process that runs in a state with the
invariant. -/
theorem MachineReady.vidmap_iff {fs : Image} {s : ProcState} (h : MachineReady s)
    (hlive : s.live ≠ []) {esp : Nat} (hesp : OnKernelStack s.kernel esp) (screenStart : UInt32) :
    VidmapRight fs s s.kernel.terminalNum screenStart (vidmap esp screenStart s.kernel) ↔
      ¬ (0x08000000 ≤ screenStart.toNat ∧ screenStart.toNat < 0x08048000) ∧
        ¬ (0x083FFFFC < screenStart.toNat ∧ screenStart.toNat < 0x08448000) := by
  obtain ⟨p, hp, hmaps, htid⟩ := h.running hlive hesp
  have hpage : InUserPage screenStart ↔
      0x08000000 ≤ screenStart.toNat ∧ screenStart.toNat ≤ 0x083FFFFC := by
    simp only [InUserPage, virtualAddrStart, userSpaceSize]
    omega
  constructor
  · intro hright
    constructor
    · -- below the load address the call is refused
      intro hbelow
      obtain ⟨v, k', hresult, hv, -⟩ := hright.succeeds (hpage.mpr (by omega))
      rw [vidmap_refuses esp (.inl (by simp only [fileLocation]; omega))] at hresult
      cases hresult
      exact hv rfl
    · -- above the page it is not
      intro habove
      have hresult := hright.refuses fun hin => by
        have := hpage.mp hin
        omega
      have hin : ¬ (screenStart.toNat < fileLocation ∨
          fileLocation + pageSize ≤ screenStart.toNat) := by
        simp only [fileLocation, pageSize]
        omega
      rw [vidmap_passes h.mapped htid hin, Option.map_eq_some_iff] at hresult
      obtain ⟨k', -, heq⟩ := hresult
      exact screenWord_ne _ (congrArg Prod.fst heq)
  · rintro ⟨hbelow, habove⟩
    refine ⟨fun hin => ?_, fun hout => ?_⟩
    · have hrange := hpage.mp hin
      exact vidmap_stores h hp hmaps htid hin (by simp only [fileLocation]; omega)
    · refine vidmap_refuses esp ?_
      rw [hpage] at hout
      simp only [fileLocation, pageSize]
      omega

/-- **`vidmap` in every reachable state.**  The process that runs is one of the scheduled terminal.
For it the call does what it should, and the address that it returns stays right in every later
run, exactly when the place is neither in the part of the page below `FILE_LOCATION` nor within
three bytes of the end of the page or up to 0x48000 behind it. -/
theorem vidmap_right_iff (fs : Image) (m : PowerOn) (es : List MachineEvent) (s : ProcState)
    (hrun : ProcState.MachineSteps fs (.boot m) es s) (hlive : s.live ≠ []) (esp : Nat)
    (hesp : OnKernelStack s.kernel esp) (screenStart : UInt32) :
    VidmapRight fs s s.kernel.terminalNum screenStart (vidmap esp screenStart s.kernel) ↔
      ¬ (0x08000000 ≤ screenStart.toNat ∧ screenStart.toNat < 0x08048000) ∧
        ¬ (0x083FFFFC < screenStart.toNat ∧ screenStart.toNat < 0x08448000) :=
  ((machineReady_boot m).run hrun).vidmap_iff hlive hesp screenStart

/-- The first shell asks for its screen, which is to be stored where its program starts. -/
theorem vidmap_right_firstShell :
    ∃ s : ProcState, s.live = [0] ∧
      (VidmapRight shellImage s s.kernel.terminalNum 0x08048000
          (vidmap s.kernel.tssEsp0 0x08048000 s.kernel) ↔
        ¬ (0x08000000 ≤ (0x08048000 : UInt32).toNat ∧
            (0x08048000 : UInt32).toNat < 0x08048000) ∧
          ¬ (0x083FFFFC < (0x08048000 : UInt32).toNat ∧
            (0x08048000 : UInt32).toNat < 0x08448000)) := by
  obtain ⟨s, hrun, hlive⟩ := exists_firstShell .blank
  have hsome : s.live ≠ [] := by
    rw [hlive]
    exact List.cons_ne_nil 0 []
  exact ⟨s, hlive, vidmap_right_iff shellImage .blank _ s hrun.machine hsome _ rfl 0x08048000⟩

/-- The first shell asks with a place at the beginning of its page: it is refused. -/
theorem vidmap_refuses_page_start :
    ¬ ∀ (fs : Image) (m : PowerOn) (es : List MachineEvent) (s : ProcState),
      ProcState.MachineSteps fs (.boot m) es s → s.live ≠ [] → ∀ esp,
      OnKernelStack s.kernel esp → ∀ screenStart,
      VidmapRight fs s s.kernel.terminalNum screenStart (vidmap esp screenStart s.kernel) := by
  intro hall
  obtain ⟨s, hrun, hlive⟩ := exists_firstShell .blank
  have hsome : s.live ≠ [] := by
    rw [hlive]
    exact List.cons_ne_nil 0 []
  have hright := hall _ _ _ s hrun.machine hsome _ rfl 0x08000000
  obtain ⟨v, k', hresult, hv, -⟩ := hright.succeeds ⟨by decide, by decide⟩
  rw [vidmap_refuses _ (.inl (by decide))] at hresult
  cases hresult
  exact hv rfl

end JuddOS
